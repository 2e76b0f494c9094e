namespace Descent

-- Maps from texts, kept as lists of entries in ascending order of their keys.
namespace SortedMap

variable {β : Type}

-- The entry joins the map at its place, or takes the place of the entry with the same key.
def insert (key : String) (value : β) : List (String × β) → List (String × β)
  | [] => [(key, value)]
  | (other, old) :: rest =>
    if key < other then (key, value) :: (other, old) :: rest
    else if key = other then (key, value) :: rest
    else (other, old) :: insert key value rest

def find? (key : String) : List (String × β) → Option β
  | [] => none
  | (other, value) :: rest => if key = other then some value else find? key rest

-- Of entries with equal keys the last one stays.
def ofEntries (entries : List (String × β)) : List (String × β) :=
  entries.foldl (fun map (key, value) => insert key value map) []

-- The keys ascend, so every key has one entry at most.
def Sorted (map : List (String × β)) : Prop := map.Pairwise fun a b => a.1 < b.1

theorem mem_of_find? {key : String} {value : β}
    {entries : List (String × β)} (h : find? key entries = some value) :
    (key, value) ∈ entries := by
  induction entries with
  | nil => cases h
  | cons entry rest ih =>
      simp only [find?] at h
      split at h
      · rename_i hkey
        cases h
        rw [hkey]
        exact List.mem_cons_self
      · exact List.mem_cons_of_mem _ (ih h)

theorem find?_map {γ : Type} (f : β → γ) (key : String) (entries : List (String × β)) :
    find? key (entries.map fun (key, value) => (key, f value)) = (find? key entries).map f := by
  induction entries with
  | nil => rfl
  | cons entry rest ih =>
    simp only [List.map_cons, find?]
    split
    · rfl
    · exact ih

theorem find?_append (key : String) (entries others : List (String × β)) :
    find? key (entries ++ others) = (find? key entries).or (find? key others) := by
  induction entries with
  | nil => rfl
  | cons entry rest ih =>
    simp only [List.cons_append, find?]
    split
    · rfl
    · exact ih

theorem find?_insert_self (key : String) (value : β) (map : List (String × β)) :
    find? key (insert key value map) = some value := by
  fun_induction insert key value map with
  | case1 => simp [find?]
  | case2 => simp [find?]
  | case3 => simp [find?]
  | case4 other old rest _ hne ih => simp [find?, hne, ih]

theorem find?_insert_of_ne {key other : String} (h : key ≠ other) (value : β)
    (map : List (String × β)) : find? key (insert other value map) = find? key map := by
  fun_induction insert other value map with
  | case1 => simp [find?, h]
  | case2 => simp [find?, h]
  | case3 => simp [find?, h]
  | case4 _ old rest _ _ ih => simp [find?, ih]

theorem insert_map {γ : Type} (f : β → γ) (key : String) (value : β) (map : List (String × β)) :
    insert key (f value) (map.map fun (key, value) => (key, f value)) =
      (insert key value map).map fun (key, value) => (key, f value) := by
  fun_induction insert key value map with
  | case1 => rfl
  | case2 other old rest hlt => simp [insert, hlt]
  | case3 => simp [insert]
  | case4 other old rest hlt hne ih => simp [insert, hlt, hne, ih]

theorem mem_insert {key : String} {value : β} {map : List (String × β)} {entry : String × β}
    (h : entry ∈ insert key value map) : entry = (key, value) ∨ entry ∈ map := by
  fun_induction insert key value map with
  | case1 => simpa using h
  | case2 => simpa using h
  | case3 => exact (List.mem_cons.mp h).imp_right (List.mem_cons_of_mem _)
  | case4 other old rest _ _ ih =>
    cases List.mem_cons.mp h with
    | inl heq => exact .inr (by simp [heq])
    | inr hmem => exact (ih hmem).imp_right (List.mem_cons_of_mem _)

theorem sorted_insert {map : List (String × β)} (h : Sorted map) (key : String) (value : β) :
    Sorted (insert key value map) := by
  fun_induction insert key value map with
  | case1 => exact List.pairwise_singleton _ _
  | case2 other old rest hlt =>
    refine List.pairwise_cons.mpr ⟨fun entry hmem => ?_, h⟩
    cases List.mem_cons.mp hmem with
    | inl heq => rwa [heq]
    | inr hmem => exact String.lt_trans hlt (List.rel_of_pairwise_cons h hmem)
  | case3 => exact List.pairwise_cons.mpr (List.pairwise_cons.mp h)
  | case4 other old rest hnotlt hne ih =>
    obtain ⟨hrest, hsorted⟩ := List.pairwise_cons.mp h
    refine List.pairwise_cons.mpr ⟨fun entry hmem => ?_, ih hsorted⟩
    cases mem_insert hmem with
    | inl heq =>
      rw [heq]
      exact Std.lt_of_le_of_ne (String.not_lt.mp hnotlt) (Ne.symm hne)
    | inr hmem => exact hrest entry hmem

theorem ofEntries_eq_foldr (entries : List (String × β)) :
    ofEntries entries = entries.reverse.foldr (fun (key, value) map => insert key value map) [] :=
  List.foldl_eq_foldr_reverse

theorem sorted_ofEntries (entries : List (String × β)) : Sorted (ofEntries entries) := by
  rw [ofEntries_eq_foldr]
  induction entries.reverse with
  | nil => exact List.Pairwise.nil
  | cons entry rest ih => exact sorted_insert ih _ _

theorem mem_of_mem_ofEntries {entries : List (String × β)} {entry : String × β}
    (h : entry ∈ ofEntries entries) : entry ∈ entries := by
  rw [ofEntries_eq_foldr] at h
  rw [← List.mem_reverse]
  generalize entries.reverse = entries at h ⊢
  induction entries with
  | nil => exact h
  | cons first rest ih =>
    cases mem_insert h with
    | inl heq => exact heq ▸ List.mem_cons_self
    | inr hmem => exact List.mem_cons_of_mem _ (ih hmem)

theorem find?_ofEntries (key : String) (entries : List (String × β)) :
    find? key (ofEntries entries) = find? key entries.reverse := by
  rw [ofEntries_eq_foldr]
  induction entries.reverse with
  | nil => rfl
  | cons entry rest ih =>
    simp only [List.foldr_cons, find?]
    split
    · rename_i heq
      rw [heq, find?_insert_self]
    · rename_i hne
      rw [find?_insert_of_ne hne, ih]

-- An entry with a key behind all others joins the map at its end.
theorem insert_eq_append {key : String} {map : List (String × β)}
    (h : ∀ entry ∈ map, entry.1 < key) (value : β) :
    insert key value map = map ++ [(key, value)] := by
  induction map with
  | nil => rfl
  | cons entry rest ih =>
    obtain ⟨hlt, hrest⟩ := List.forall_mem_cons.mp h
    have hnotlt : ¬ key < entry.1 := String.lt_asymm hlt
    have hne : key ≠ entry.1 := fun heq => String.lt_irrefl _ (heq ▸ hlt)
    simp only [insert, hnotlt, hne, if_false, List.cons_append, ih hrest]

-- Entries with ascending keys join a map with earlier keys one behind the other.
private theorem foldl_insert_eq_append {map entries : List (String × β)}
    (h : Sorted (map ++ entries)) :
    entries.foldl (fun map (key, value) => insert key value map) map = map ++ entries := by
  induction entries generalizing map with
  | nil => simp
  | cons entry rest ih =>
    obtain ⟨-, -, hbefore⟩ := List.pairwise_append.mp h
    have hlater : ∀ other ∈ map, other.1 < entry.1 :=
      fun other hmem => hbefore other hmem entry List.mem_cons_self
    rw [List.append_cons] at h ⊢
    rw [List.foldl_cons, ← ih h]
    exact congrArg (List.foldl _ · rest) (insert_eq_append hlater entry.2)

-- The entries of a map make up that map.
theorem ofEntries_eq_self {map : List (String × β)} (h : Sorted map) : ofEntries map = map :=
  foldl_insert_eq_append h

theorem ofEntries_map {γ : Type} (f : β → γ) (entries : List (String × β)) :
    ofEntries (entries.map fun (key, value) => (key, f value)) =
      (ofEntries entries).map fun (key, value) => (key, f value) := by
  simp only [ofEntries_eq_foldr, ← List.map_reverse]
  induction entries.reverse with
  | nil => rfl
  | cons entry rest ih => simp only [List.map_cons, List.foldr_cons, ih, insert_map]

theorem find?_eq_none {key : String} {map : List (String × β)}
    (h : ∀ entry ∈ map, key < entry.1) : find? key map = none := by
  cases hfind : find? key map with
  | none => rfl
  | some value => exact absurd (h _ (mem_of_find? hfind)) (String.lt_irrefl key)

-- The first key of a map is not found in one with later keys only.
private theorem not_lt_of_find?_eq {entry first : String × β} {rest others : List (String × β)}
    (h : Sorted (first :: others))
    (hfind : find? entry.1 (entry :: rest) = find? entry.1 (first :: others)) :
    ¬ entry.1 < first.1 := by
  intro hlt
  have hnone : find? entry.1 (first :: others) = none := by
    refine find?_eq_none fun other hmem => ?_
    cases List.mem_cons.mp hmem with
    | inl heq => rwa [heq]
    | inr hmem => exact String.lt_trans hlt (List.rel_of_pairwise_cons h hmem)
  rw [hnone] at hfind
  simp [find?] at hfind

-- A map is known by what is found in it.
theorem eq_of_find?_eq {map other : List (String × β)} (hmap : Sorted map) (hother : Sorted other)
    (h : ∀ key, find? key map = find? key other) : map = other := by
  induction map generalizing other with
  | nil =>
    cases other with
    | nil => rfl
    | cons entry rest => simpa [find?] using h entry.1
  | cons entry rest ih =>
    cases other with
    | nil => simpa [find?] using h entry.1
    | cons first others =>
      have hle := not_lt_of_find?_eq hother (h entry.1)
      have hge := not_lt_of_find?_eq hmap (h first.1).symm
      obtain ⟨key, value⟩ := entry
      obtain ⟨key', value'⟩ := first
      obtain rfl : key = key' := String.le_antisymm (String.not_lt.mp hge) (String.not_lt.mp hle)
      obtain ⟨hrest, hsorted⟩ := List.pairwise_cons.mp hmap
      obtain ⟨hothers, hsorted'⟩ := List.pairwise_cons.mp hother
      obtain rfl : value = value' := by simpa [find?] using h key
      refine congrArg _ (ih hsorted hsorted' fun other => ?_)
      by_cases heq : other = key
      · rw [heq, find?_eq_none hrest, find?_eq_none hothers]
      · simpa [find?, heq] using h other

theorem eq_ofEntries_iff {map entries : List (String × β)} :
    map = ofEntries entries ↔
      Sorted map ∧ ∀ key, find? key map = find? key entries.reverse := by
  constructor
  · rintro rfl
    exact ⟨sorted_ofEntries entries, fun key => find?_ofEntries key entries⟩
  · rintro ⟨hsorted, hfind⟩
    refine eq_of_find?_eq hsorted (sorted_ofEntries entries) fun key => ?_
    rw [hfind, find?_ofEntries]

end SortedMap

end Descent
