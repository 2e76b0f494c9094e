import Descent.Proofs.Alternatives

namespace Descent.Grammar

variable {α : Type}

-- Of three failures, the first two or the last two may be compared first.
theorem further_assoc (best : Option Failure) (first second : Failure) :
    further (some (further best first)) second = further best (further (some first) second) := by
  cases best with
  | none => rfl
  | some best =>
      by_cases hfirst : best.pos < first.pos
      · by_cases hsecond : first.pos < second.pos
        · have hlt : best.pos < second.pos := by omega
          simp [further, Failure.isBeyond, hfirst, hsecond, hlt]
        · simp [further, Failure.isBeyond, hfirst, hsecond]
      · by_cases hsecond : first.pos < second.pos
        · simp [further, Failure.isBeyond, hfirst, hsecond]
        · have hle : ¬best.pos < second.pos := by omega
          simp [further, Failure.isBeyond, hfirst, hsecond, hle]

section Choices

variable {rules : Rules α} {start cursor stop : Cursor} {best : Option Failure}
  {alternative : Grammar α} {alternatives before inner behind : List (Grammar α)}
  {result : Except Failure (Node α)}

-- How a search goes on behind alternatives that have come to some result and left the cursor
-- somewhere.
inductive Proceeds (rules : Rules α) (start : Cursor) (best : Option Failure)
    (rest : List (Grammar α)) :
    Except Failure (Node α) → Cursor → Except Failure (Node α) → Cursor → Prop
  | matched {node stop} : Proceeds rules start best rest (.ok node) stop (.ok node) stop
  | committed {failure stop} : start.pos < stop.mark →
      Proceeds rules start best rest (.error failure) stop (.error failure) stop
  | next {failure again result stop} : again.mark ≤ start.pos →
      Chooses rules start (some (further best failure)) rest (again.rewind start.toPlace) result
        stop →
      Proceeds rules start best rest (.error failure) again result stop

theorem chooses_cons_iff :
    Chooses rules start best (alternative :: alternatives) cursor result stop ↔
      ∃ first again, Yields rules alternative cursor first again ∧
        Proceeds rules start best alternatives first again result stop := by
  constructor
  · rintro (_ | hyields | ⟨hyields, hmark⟩ | ⟨hyields, hmark, hrest⟩)
    · exact ⟨_, _, hyields, .matched⟩
    · exact ⟨_, _, hyields, .committed hmark⟩
    · exact ⟨_, _, hyields, .next hmark hrest⟩
  · rintro ⟨first, again, hyields, _ | hmark | ⟨hmark, hrest⟩⟩
    · exact .matched hyields
    · exact .committed hyields hmark
    · exact .next hyields hmark hrest

-- A search is the same from all starts at one place.
theorem Chooses.of_toPlace_eq {other : Cursor}
    (h : Chooses rules start best alternatives cursor result stop)
    (hplace : other.toPlace = start.toPlace) :
    Chooses rules other best alternatives cursor result stop := by
  have hpos : other.pos = start.pos := congrArg Place.pos hplace
  induction h with
  | exhausted => exact .exhausted
  | matched hyields => exact .matched hyields
  | committed hyields hmark => exact .committed hyields (by rwa [hpos])
  | next hyields hmark _ ih =>
      rw [← hplace] at ih
      exact .next hyields (by rwa [hpos]) ih

theorem chooses_iff_of_toPlace_eq (hplace : cursor.toPlace = start.toPlace) :
    Chooses rules cursor best alternatives cursor result stop ↔
      Chooses rules start best alternatives cursor result stop :=
  ⟨fun h => h.of_toPlace_eq hplace.symm, fun h => h.of_toPlace_eq hplace⟩

-- Alternatives in front can be searched apart from those behind, if what the whole search keeps is
-- the further one of what was kept before and what they keep themselves.
private theorem chooses_cons_append_iff {kept whole : Option Failure}
    (hkept : ∀ failure, further whole failure = further best (further kept failure))
    (hrest : ∀ {failure} {last : Cursor}, last.mark ≤ start.pos →
      (Chooses rules start (some (further best failure)) (inner ++ behind)
          (last.rewind start.toPlace) result stop ↔
        ∃ first again,
          Chooses rules start (some failure) inner (last.rewind start.toPlace) first again ∧
            Proceeds rules start best behind first again result stop)) :
    Chooses rules start whole (alternative :: (inner ++ behind)) cursor result stop ↔
      ∃ first again, Chooses rules start kept (alternative :: inner) cursor first again ∧
        Proceeds rules start best behind first again result stop := by
  constructor
  · intro h
    cases h with
    | matched hyields => exact ⟨_, _, .matched hyields, .matched⟩
    | committed hyields hmark => exact ⟨_, _, .committed hyields hmark, .committed hmark⟩
    | next hyields hmark hothers =>
        rw [hkept] at hothers
        obtain ⟨first, again, hinner, hproceeds⟩ := (hrest hmark).mp hothers
        exact ⟨first, again, .next hyields hmark hinner, hproceeds⟩
  · rintro ⟨first, again, hinner, hproceeds⟩
    cases hinner with
    | matched hyields =>
        cases hproceeds
        exact .matched hyields
    | committed hyields hmark =>
        cases hproceeds with
        | committed => exact .committed hyields hmark
        | next hback => exact absurd hmark (Nat.not_lt_of_le hback)
    | next hyields hmark hothers =>
        refine .next hyields hmark ?_
        rw [hkept]
        exact (hrest hmark).mpr ⟨first, again, hothers, hproceeds⟩

-- By induction on the alternatives in front. A failure is kept all the way, which is what the search
-- reports in the end.
private theorem chooses_append_iff {failure : Failure} {last : Cursor}
    (hmark : last.mark ≤ start.pos) :
    Chooses rules start (some (further best failure)) (inner ++ behind) (last.rewind start.toPlace)
        result stop ↔
      ∃ first again,
        Chooses rules start (some failure) inner (last.rewind start.toPlace) first again ∧
          Proceeds rules start best behind first again result stop := by
  induction inner generalizing last failure with
  | nil =>
      constructor
      · intro h
        exact ⟨_, _, .exhausted, .next hmark h⟩
      · rintro ⟨first, again, ⟨⟩, hproceeds⟩
        cases hproceeds with
        | committed hlt => exact absurd hlt (Nat.not_lt_of_le hmark)
        | next _ hrest => exact hrest
  | cons alternative inner ih => exact chooses_cons_append_iff (further_assoc best failure) ih

-- An inner search in front keeps nothing of what was kept before it, and what it keeps itself is
-- compared with that behind it.
theorem chooses_any_cons_iff (hne : inner ≠ []) (hplace : cursor.toPlace = start.toPlace) :
    Chooses rules start best (.any inner :: behind) cursor result stop ↔
      Chooses rules start best (inner ++ behind) cursor result stop := by
  obtain ⟨alternative, inner, rfl⟩ := List.exists_cons_of_ne_nil hne
  calc Chooses rules start best (.any (alternative :: inner) :: behind) cursor result stop
    _ ↔ ∃ first again, Yields rules (.any (alternative :: inner)) cursor first again ∧
          Proceeds rules start best behind first again result stop := chooses_cons_iff
    _ ↔ ∃ first again, Chooses rules start none (alternative :: inner) cursor first again ∧
          Proceeds rules start best behind first again result stop := by
      simp only [yields_any_iff, chooses_iff_of_toPlace_eq hplace]
    _ ↔ Chooses rules start best (alternative :: inner ++ behind) cursor result stop :=
      (chooses_cons_append_iff (fun _ => rfl) chooses_append_iff).symm

-- Alternatives behind others may be replaced by such as the search treats alike.
theorem Chooses.replace_behind {other : List (Grammar α)}
    (hbehind : ∀ {best cursor}, cursor.toPlace = start.toPlace →
      Chooses rules start best behind cursor result stop →
      Chooses rules start best other cursor result stop)
    (h : Chooses rules start best (before ++ behind) cursor result stop)
    (hplace : cursor.toPlace = start.toPlace) :
    Chooses rules start best (before ++ other) cursor result stop := by
  induction before generalizing best cursor with
  | nil => exact hbehind hplace h
  | cons alternative before ih =>
      cases h with
      | matched hyields => exact .matched hyields
      | committed hyields hmark => exact .committed hyields hmark
      | next hyields hmark hothers => exact .next hyields hmark (ih hothers rfl)

theorem yields_any_any_iff (hne : inner ≠ []) :
    Yields rules (.any (before ++ .any inner :: behind)) cursor result stop ↔
      Yields rules (.any (before ++ inner ++ behind)) cursor result stop := by
  simp only [yields_any_iff, List.append_assoc]
  constructor
  · intro h
    exact h.replace_behind (fun hplace => (chooses_any_cons_iff hne hplace).mp) rfl
  · intro h
    exact h.replace_behind (fun hplace => (chooses_any_cons_iff hne hplace).mpr) rfl

end Choices

section Sequences

variable {rules : Rules α} {parts before inner behind : List (Grammar α)}
  {cursor stop : Cursor} {nodes : List (Node α)} {failure : Failure} {mark : Nat}

theorem Follow.length_eq (h : Follow rules parts cursor (.ok nodes) stop) :
    nodes.length = parts.length := by
  induction parts generalizing cursor nodes with
  | nil =>
      obtain ⟨rfl, -⟩ := h.of_nil
      rfl
  | cons part parts ih =>
      obtain ⟨node, middle, others, rfl, -, hothers⟩ := h.of_cons
      rw [List.length_cons, List.length_cons, ih hothers]

theorem follow_append_ok_iff :
    Follow rules (before ++ behind) cursor (.ok nodes) stop ↔
      ∃ first last middle, nodes = first ++ last ∧ Follow rules before cursor (.ok first) middle ∧
        Follow rules behind middle (.ok last) stop := by
  induction before generalizing cursor nodes with
  | nil =>
      constructor
      · intro h
        exact ⟨[], nodes, cursor, rfl, .nil, h⟩
      · rintro ⟨first, last, middle, rfl, hbefore, hbehind⟩
        obtain ⟨rfl, rfl⟩ := hbefore.of_nil
        exact hbehind
  | cons part before ih =>
      constructor
      · intro h
        obtain ⟨node, again, others, rfl, hpart, hothers⟩ := Follow.of_cons h
        obtain ⟨first, last, middle, rfl, hbefore, hbehind⟩ := ih.mp hothers
        exact ⟨node :: first, last, middle, rfl, .cons hpart hbefore, hbehind⟩
      · rintro ⟨first, last, middle, rfl, hbefore, hbehind⟩
        obtain ⟨node, again, others, rfl, hpart, hbefore⟩ := hbefore.of_cons
        exact .cons hpart (ih.mpr ⟨others, last, middle, rfl, hbefore, hbehind⟩)

theorem yields_seq_ok_iff {node : Node α} :
    Yields rules (.seq parts) cursor (.ok node) stop ↔
      ∃ nodes, node = .children nodes ∧ Follow rules parts cursor (.ok nodes) stop := by
  constructor
  · exact Yields.follow
  · rintro ⟨nodes, rfl, h⟩
    exact h.yields_seq

-- The parts fail with this mark, wherever the cursor is left.
def Stumbles (rules : Rules α) (parts : List (Grammar α)) (cursor : Cursor) (failure : Failure)
    (mark : Nat) : Prop :=
  ∃ stop, Follow rules parts cursor (.error failure) stop ∧ stop.mark = mark

theorem yields_seq_error_iff :
    (∃ stop, Yields rules (.seq parts) cursor (.error failure) stop ∧ stop.mark = mark) ↔
      Stumbles rules parts cursor failure mark := by
  constructor
  · rintro ⟨stop, h, hmark⟩
    obtain ⟨behind, hfollow, heq⟩ := h.follow_of_error
    exact ⟨behind, hfollow, heq.symm.trans hmark⟩
  · rintro ⟨stop, h, hmark⟩
    by_cases hcommitted : cursor.pos < stop.mark
    · exact ⟨stop, h.yields_seq_of_committed hcommitted, hmark⟩
    · exact ⟨_, h.yields_seq_of_back (Nat.le_of_not_lt hcommitted), hmark⟩

theorem stumbles_cons_iff {part : Grammar α} :
    Stumbles rules (part :: parts) cursor failure mark ↔
      (∃ stop, Yields rules part cursor (.error failure) stop ∧ stop.mark = mark) ∨
        ∃ node middle, Yields rules part cursor (.ok node) middle ∧
          Stumbles rules parts middle failure mark := by
  constructor
  · rintro ⟨stop, h, hmark⟩
    rcases h.of_cons_error with hpart | ⟨node, middle, hpart, hparts⟩
    · exact .inl ⟨stop, hpart, hmark⟩
    · exact .inr ⟨node, middle, hpart, stop, hparts, hmark⟩
  · rintro (⟨stop, hpart, hmark⟩ | ⟨node, middle, hpart, stop, hparts, hmark⟩)
    · exact ⟨stop, .failed hpart, hmark⟩
    · exact ⟨stop, .cons hpart hparts, hmark⟩

theorem stumbles_append_iff :
    Stumbles rules (before ++ behind) cursor failure mark ↔
      Stumbles rules before cursor failure mark ∨
        ∃ first middle, Follow rules before cursor (.ok first) middle ∧
          Stumbles rules behind middle failure mark := by
  induction before generalizing cursor with
  | nil =>
      constructor
      · intro h
        exact .inr ⟨[], cursor, .nil, h⟩
      · rintro (⟨stop, hbefore, -⟩ | ⟨first, middle, hbefore, hbehind⟩)
        · cases hbefore
        · obtain ⟨-, rfl⟩ := hbefore.of_nil
          exact hbehind
  | cons part before ih =>
      rw [List.cons_append, stumbles_cons_iff, stumbles_cons_iff]
      constructor
      · rintro (hpart | ⟨node, again, hpart, hothers⟩)
        · exact .inl (.inl hpart)
        · rcases ih.mp hothers with hbefore | ⟨first, middle, hbefore, hbehind⟩
          · exact .inl (.inr ⟨node, again, hpart, hbefore⟩)
          · exact .inr ⟨node :: first, middle, .cons hpart hbefore, hbehind⟩
      · rintro ((hpart | ⟨node, again, hpart, hbefore⟩) | ⟨first, middle, hbefore, hbehind⟩)
        · exact .inl hpart
        · exact .inr ⟨node, again, hpart, ih.mpr (.inl hbefore)⟩
        · obtain ⟨node, again, others, -, hpart, hbefore⟩ := hbefore.of_cons
          exact .inr ⟨node, again, hpart, ih.mpr (.inr ⟨others, middle, hbefore, hbehind⟩)⟩

theorem stumbles_seq_cons_iff :
    Stumbles rules (.seq inner :: behind) cursor failure mark ↔
      Stumbles rules (inner ++ behind) cursor failure mark := by
  rw [stumbles_cons_iff, stumbles_append_iff, yields_seq_error_iff]
  simp only [yields_seq_ok_iff]
  constructor
  · rintro (hinner | ⟨node, middle, ⟨nodes, -, hinner⟩, hbehind⟩)
    · exact .inl hinner
    · exact .inr ⟨nodes, middle, hinner, hbehind⟩
  · rintro (hinner | ⟨nodes, middle, hinner, hbehind⟩)
    · exact .inl hinner
    · exact .inr ⟨_, middle, ⟨nodes, rfl, hinner⟩, hbehind⟩

theorem stumbles_seq_iff :
    Stumbles rules (before ++ .seq inner :: behind) cursor failure mark ↔
      Stumbles rules (before ++ inner ++ behind) cursor failure mark := by
  rw [List.append_assoc, stumbles_append_iff, stumbles_append_iff]
  simp only [stumbles_seq_cons_iff]

-- Whenever the first grammar fails, so does the second, with the same mark. Both are back at the
-- start then, unless they have committed themselves behind it.
def FailsAs (rules : Rules α) (grammar other : Grammar α) (cursor : Cursor) : Prop :=
  ∀ failure stop, Yields rules grammar cursor (.error failure) stop →
    ∃ again, Yields rules other cursor (.error failure) again ∧ again.mark = stop.mark ∧
      (stop.mark ≤ cursor.pos →
        stop.toPlace = cursor.toPlace ∧ again.toPlace = cursor.toPlace)

theorem failsAs_seq {other : List (Grammar α)}
    (himp : ∀ failure mark, Stumbles rules parts cursor failure mark →
      Stumbles rules other cursor failure mark) :
    FailsAs rules (.seq parts) (.seq other) cursor := by
  intro failure stop h
  have hparts := yields_seq_error_iff.mp ⟨stop, h, rfl⟩
  obtain ⟨again, hagain, hmark⟩ := yields_seq_error_iff.mpr (himp _ _ hparts)
  refine ⟨again, hagain, hmark, fun hback => ⟨h.toPlace_eq hback, hagain.toPlace_eq ?_⟩⟩
  rwa [hmark]

-- The children of the node at an index, so many of them, stand in its place.
inductive Spliced (index count : Nat) : Node α → Node α → Prop
  | intro {first middle last} : first.length = index → middle.length = count →
      Spliced index count (.children (first ++ .children middle :: last))
        (.children (first ++ middle ++ last))

theorem Yields.splice {node : Node α}
    (h : Yields rules (.seq (before ++ .seq inner :: behind)) cursor (.ok node) stop) :
    ∃ other, Spliced before.length inner.length node other ∧
      Yields rules (.seq (before ++ inner ++ behind)) cursor (.ok other) stop := by
  obtain ⟨nodes, rfl, hfollow⟩ := h.follow
  obtain ⟨first, rest, start, rfl, hbefore, hrest⟩ := follow_append_ok_iff.mp hfollow
  obtain ⟨node, again, last, rfl, hseq, hbehind⟩ := hrest.of_cons
  obtain ⟨middle, rfl, hinner⟩ := hseq.follow
  refine ⟨_, .intro hbefore.length_eq hinner.length_eq, Follow.yields_seq ?_⟩
  apply follow_append_ok_iff.mpr
  refine ⟨_, last, again, rfl, ?_, hbehind⟩
  exact follow_append_ok_iff.mpr ⟨first, middle, start, rfl, hbefore, hinner⟩

theorem Yields.unsplice {other : Node α}
    (h : Yields rules (.seq (before ++ inner ++ behind)) cursor (.ok other) stop) :
    ∃ node, Spliced before.length inner.length node other ∧
      Yields rules (.seq (before ++ .seq inner :: behind)) cursor (.ok node) stop := by
  obtain ⟨nodes, rfl, hfollow⟩ := h.follow
  obtain ⟨rest, last, again, rfl, hrest, hbehind⟩ := follow_append_ok_iff.mp hfollow
  obtain ⟨first, middle, start, rfl, hbefore, hinner⟩ := follow_append_ok_iff.mp hrest
  refine ⟨_, .intro hbefore.length_eq hinner.length_eq, Follow.yields_seq ?_⟩
  apply follow_append_ok_iff.mpr
  exact ⟨first, _, start, rfl, hbefore, .cons hinner.yields_seq hbehind⟩

end Sequences

-- Alternatives, or parts, may as well stand on their own among the others. A choice of nothing
-- would be a failure more, though, and the node of a sequence inside shows: its children have to be
-- spliced in.
theorem nesting_makes_no_difference (rules : Rules α) (before inner behind : List (Grammar α))
    (cursor : Cursor) :
    (inner ≠ [] → ∀ result stop,
        Yields rules (.any (before ++ .any inner :: behind)) cursor result stop ↔
          Yields rules (.any (before ++ inner ++ behind)) cursor result stop) ∧
      let nested : Grammar α := .seq (before ++ .seq inner :: behind)
      let flat : Grammar α := .seq (before ++ inner ++ behind)
      (∀ node stop, Yields rules nested cursor (.ok node) stop →
        ∃ other, Spliced before.length inner.length node other ∧
          Yields rules flat cursor (.ok other) stop) ∧
      (∀ other stop, Yields rules flat cursor (.ok other) stop →
        ∃ node, Spliced before.length inner.length node other ∧
          Yields rules nested cursor (.ok node) stop) ∧
      FailsAs rules nested flat cursor ∧ FailsAs rules flat nested cursor := by
  refine ⟨fun hne _ _ => yields_any_any_iff hne, ?_⟩
  intro nested flat
  refine ⟨fun _ _ => Yields.splice, fun _ _ => Yields.unsplice, ?_, ?_⟩
  · exact failsAs_seq fun _ _ => stumbles_seq_iff.mp
  · exact failsAs_seq fun _ _ => stumbles_seq_iff.mpr

-- A failure inside gets as far as one in front of it, and as one behind. The first is reported.
theorem nesting_makes_no_difference_to_ties :
    let before : List (Grammar Unit) := [.seq [.exact "a", .exact "b"]]
    let inner : List (Grammar Unit) := [.exact "e", .seq [.exact "a", .exact "c"]]
    let behind : List (Grammar Unit) := [.seq [.exact "a", .exact "d"]]
    let start := Cursor.ofInput ['a', 'x'] .ascii
    inner ≠ [] ∧
      Yields {} (.any (before ++ .any inner :: behind)) start (.error ⟨1, "b"⟩) start := by
  intro before inner behind start
  have hne : inner ≠ [] := List.cons_ne_nil _ _
  have hpair (name : String) (h : eval {} 2 (.seq [.exact "a", .exact name]) start =
        some (.failed ⟨1, name⟩ start)) :
      Yields ({} : Rules Unit) (.seq [.exact "a", .exact name]) start (.error ⟨1, name⟩) start :=
    ⟨[], 2, h⟩
  have he : Yields ({} : Rules Unit) (.exact "e") start (.error ⟨0, "e"⟩) start := ⟨[], 1, rfl⟩
  have hmark : start.mark ≤ start.pos := Nat.le_refl 0
  have hflat : Yields {} (.any (before ++ inner ++ behind)) start (.error ⟨1, "b"⟩) start :=
    yields_any_iff.mpr
      (.next (hpair "b" rfl) hmark (.next he hmark
        (.next (hpair "c" rfl) hmark (.next (hpair "d" rfl) hmark .exhausted))))
  obtain ⟨hany, -⟩ := nesting_makes_no_difference {} before inner behind start
  exact ⟨hne, (hany hne _ _).mpr hflat⟩

end Descent.Grammar
