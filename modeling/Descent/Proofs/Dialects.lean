import Descent.Proofs.Repetition
import Descent.Proofs.ViablePrefixes

namespace Descent.Grammar

open Json (Blank)

variable {α β : Type} {rules : Rules α}

section Reading

variable (rules)

-- `Item text x` says that the text stands for the item `x`. With less than so much text ahead,
-- whatever the grammar reads stands for what it yields.
def Sound (Item : List Char → β → Prop) (nodeOf : β → Node α) (grammar : Grammar α)
    (length : Nat) : Prop :=
  ∀ cursor node stop, cursor.rest.length < length → Ready cursor →
    Yields rules grammar cursor (.ok node) stop →
      ∃ text x, Item text x ∧ node = nodeOf x ∧ cursor.rest = text ++ stop.rest

-- Where a text that stands for an item is ahead, and shorter than this, the grammar reads just that
-- text and yields the item, if what follows does not go on with it.
def Complete (Item : List Char → β → Prop) (nodeOf : β → Node α) (grammar : Grammar α)
    (Behind : List Char → Prop) (length : Nat) : Prop :=
  ∀ cursor text x rest, Item text x → text.length < length → Ready cursor →
    cursor.rest = text ++ rest → Behind rest →
      ∃ stop, Yields rules grammar cursor (.ok (nodeOf x)) stop ∧ stop.rest = rest ∧ Ready stop

-- The text stands for some item.
def Stands (Item : List Char → β → Prop) (text : List Char) : Prop := ∃ x, Item text x

-- With less than so much text ahead, what the grammar has read where it fails is the beginning of
-- a text that stands for an item.
def FailsViably (Item : List Char → β → Prop) (grammar : Grammar α) (length : Nat) : Prop :=
  ∀ cursor failure stop, cursor.rest.length < length → Ready cursor →
    Yields rules grammar cursor (.error failure) stop → Viable (Stands Item) cursor failure

end Reading

section Lengths

variable {Item : List Char → β → Prop} {nodeOf : β → Node α} {grammar : Grammar α}
  {Behind : List Char → Prop}

-- It is enough to go from one length to the next: there is no text shorter than nothing.
theorem Sound.of_step (h : ∀ length, Sound rules Item nodeOf grammar length →
    Sound rules Item nodeOf grammar (length + 1)) (length : Nat) :
    Sound rules Item nodeOf grammar length := by
  induction length with
  | zero => exact fun _ _ _ hlength => absurd hlength (Nat.not_lt_zero _)
  | succ length ih => exact h length ih

theorem Complete.of_step (h : ∀ length, Complete rules Item nodeOf grammar Behind length →
    Complete rules Item nodeOf grammar Behind (length + 1)) (length : Nat) :
    Complete rules Item nodeOf grammar Behind length := by
  induction length with
  | zero => exact fun _ _ _ _ _ hlength => absurd hlength (Nat.not_lt_zero _)
  | succ length ih => exact h length ih

theorem FailsViably.of_step (h : ∀ length, FailsViably rules Item grammar length →
    FailsViably rules Item grammar (length + 1)) (length : Nat) :
    FailsViably rules Item grammar length := by
  induction length with
  | zero => exact fun _ _ _ hlength => absurd hlength (Nat.not_lt_zero _)
  | succ length ih => exact h length ih

end Lengths

section Combinators

variable {Item : List Char → β → Prop} {nodeOf : β → Node α} {grammar : Grammar α}
  {alternatives : List (Grammar α)} {Behind : List Char → Prop} {name : String} {length : Nat}

theorem Sound.rule (h : Sound rules Item nodeOf grammar length)
    (hdefinition : rules.definition? name = some grammar) :
    Sound rules Item nodeOf (.rule name) length :=
  fun cursor node stop hlength hready hyields =>
    h cursor node stop hlength hready ((yields_rule_iff hdefinition).mp hyields)

theorem Complete.rule (h : Complete rules Item nodeOf grammar Behind length)
    (hdefinition : rules.definition? name = some grammar) :
    Complete rules Item nodeOf (.rule name) Behind length := by
  intro cursor text x rest hitem hlength hready hrest hbehind
  obtain ⟨stop, hyields, hstop⟩ := h cursor text x rest hitem hlength hready hrest hbehind
  exact ⟨stop, (yields_rule_iff hdefinition).mpr hyields, hstop⟩

theorem FailsViably.rule (h : FailsViably rules Item grammar length)
    (hdefinition : rules.definition? name = some grammar) :
    FailsViably rules Item (.rule name) length :=
  fun cursor failure stop hlength hready hyields =>
    h cursor failure stop hlength hready ((yields_rule_iff hdefinition).mp hyields)

-- Alternatives are tried where the first one is, but for the mark.
theorem Sound.any (h : ∀ part ∈ alternatives, Sound rules Item nodeOf part length) :
    Sound rules Item nodeOf (.any alternatives) length := by
  intro cursor node stop hlength hready hyields
  obtain ⟨alternative, hmem, again, hreaches, hplace, hmark, hyields⟩ :=
    hyields.of_any hready.mark_le
  rw [← hplace] at hlength ⊢
  exact h alternative hmem _ _ _ hlength (hready.of_reaches hreaches hmark) hyields

theorem FailsViably.any (hne : alternatives ≠ [])
    (h : ∀ part ∈ alternatives, FailsViably rules Item part length) :
    FailsViably rules Item (.any alternatives) length := by
  intro cursor failure stop hlength hready hyields
  obtain ⟨alternative, hmem, again, behind, hreaches, hplace, hmark, hfails⟩ :=
    hyields.of_any_error hready.mark_le hne
  rw [← hplace] at hlength
  have hviable := h alternative hmem _ _ _ hlength (hready.of_reaches hreaches hmark) hfails
  exact hviable.of_place_eq hplace

end Combinators

-- Items one after the other, with nothing between them.
inductive Row (Item : List Char → β → Prop) : List Char → List β → Prop
  | nil : Row Item [] []
  | cons {text x rest items} :
      Item text x → Row Item rest items → Row Item (text ++ rest) (x :: items)

section Rows

variable {Item : List Char → β → Prop} {nodeOf : β → Node α} {item : Grammar α}
  {Behind : List Char → Prop} {length : Nat} {cursor stop : Cursor}
  {result : Except Failure (List (Node α))}

theorem Row.singleton {text : List Char} {x : β} (h : Item text x) : Row Item text [x] := by
  rw [← List.append_nil text]
  exact .cons h .nil

theorem Sound.row (hsound : Sound rules Item nodeOf item length)
    (h : Repeats rules item none cursor result stop) (hready : Ready cursor)
    (hlength : cursor.rest.length < length) {nodes : List (Node α)} (hresult : result = .ok nodes) :
    ∃ text items, Row Item text items ∧ nodes = items.map nodeOf ∧
      cursor.rest = text ++ stop.rest := by
  induction h generalizing nodes with
  | committed | separatorCommitted => cases hresult
  | ended hitem hmark =>
      cases hresult
      refine ⟨[], [], .nil, rfl, ?_⟩
      rw [← hitem.rewind hmark]
      rfl
  | separatorEnded _ hseparates => cases hseparates.1
  | stuck hitem hseparates =>
      cases hresult
      obtain ⟨-, rfl⟩ := hseparates
      obtain ⟨text, x, hx, rfl, hrest⟩ := hsound _ _ _ hlength hready hitem
      exact ⟨text, [x], .singleton hx, rfl, hrest⟩
  | @next _ _ _ _ _ result _ hitem hseparates _ _ ih =>
      obtain ⟨-, rfl⟩ := hseparates
      cases result with
      | error failure => cases hresult
      | ok others =>
          cases hresult
          obtain ⟨text, x, hx, rfl, hrest⟩ := hsound _ _ _ hlength hready hitem
          have hle := hitem.reaches.place.rest_length_le
          obtain ⟨later, items, hlater, rfl, hlast⟩ := ih (hready.of_yields hitem) (by omega) rfl
          refine ⟨_, x :: items, .cons hx hlater, rfl, ?_⟩
          rw [hrest, hlast, List.append_assoc]

-- Only an item that has committed itself makes a row fail. The items before it stay.
theorem FailsViably.row (hviable : FailsViably rules Item item length)
    (hsound : Sound rules Item nodeOf item length) {failure : Failure}
    (h : Repeats rules item none cursor result stop) (hready : Ready cursor)
    (hlength : cursor.rest.length < length) (hresult : result = .error failure) :
    Viable (Stands (Row Item)) cursor failure := by
  induction h with
  | committed hitem =>
      cases hresult
      refine (hviable _ _ _ hlength hready hitem).mono ?_
      rintro text ⟨x, hx⟩
      exact exists_completion ⟨[x], .singleton hx⟩
  | ended | separatorEnded | stuck => cases hresult
  | separatorCommitted _ hseparates => cases hseparates.1
  | @next _ _ _ _ _ result _ hitem hseparates _ _ ih =>
      obtain ⟨-, rfl⟩ := hseparates
      cases result with
      | ok _ => cases hresult
      | error _ =>
          cases hresult
          obtain ⟨text, x, hx, -, hrest⟩ := hsound _ _ _ hlength hready hitem
          have hle := hitem.reaches.place.rest_length_le
          have hlater := ih (hready.of_yields hitem) (by omega) rfl
          refine hlater.behind hitem.reaches hrest ?_
          rintro later ⟨items, hitems⟩
          exact exists_completion ⟨x :: items, .cons hx hitems⟩

-- A row is read if an item may follow an item, and no item starts behind the last one.
theorem Complete.row (hcomplete : Complete rules Item nodeOf item Behind length)
    (hconsumes : Consumes rules item)
    (hbetween : ∀ text x rest, Item text x → Behind (text ++ rest)) {rest : List Char}
    (hbehind : Behind rest)
    (hmisses : ∀ cursor, Ready cursor → cursor.rest = rest → Misses rules item cursor)
    {text : List Char} {items : List β} (h : Row Item text items) (hlength : text.length < length)
    (hready : Ready cursor) (hrest : cursor.rest = text ++ rest) :
    ∃ stop, Repeats rules item none cursor (.ok (items.map nodeOf)) stop ∧ stop.rest = rest ∧
      Ready stop := by
  induction h generalizing cursor with
  | nil =>
      obtain ⟨failure, hfails⟩ := hmisses cursor hready hrest
      exact ⟨cursor, .ended hfails hready.mark_le, hrest, hready⟩
  | @cons text x later items hitem hrow ih =>
      rw [List.append_assoc] at hrest
      rw [List.length_append] at hlength
      have hfollows : Behind (later ++ rest) := by
        cases hrow with
        | nil => exact hbehind
        | cons hnext _ =>
            rw [List.append_assoc]
            exact hbetween _ _ _ hnext
      obtain ⟨middle, hyields, hmiddle, hready⟩ :=
        hcomplete cursor text x _ hitem (by omega) hready hrest hfollows
      obtain ⟨stop, hrepeats, hstop⟩ := ih (by omega) hready hmiddle
      have hseparates : Separates rules none middle (.ok .empty) middle := ⟨rfl, rfl⟩
      have hmoved := Nat.ne_of_gt (hconsumes _ _ _ hyields)
      exact ⟨stop, .next hyields hseparates hmoved hrepeats, hstop⟩

end Rows

section Whole

variable {Item : List Char → β → Prop} {nodeOf : β → Node α} {grammar : Grammar α}

-- What has been shown for every length holds of every text.
theorem Dialect.of_lengths (hspaced : ∀ {blank text x}, Blank blank → Item text x →
    Item (blank ++ text) x) (hsound : ∀ length, Sound rules Item nodeOf grammar length)
    (hviable : ∀ length, FailsViably rules Item grammar length) :
    Dialect rules grammar (Stands Item) where
  spaced := by
    rintro blank text hblank ⟨x, hx⟩
    exact ⟨x, hspaced hblank hx⟩
  sound hready hyields := by
    obtain ⟨text, x, hx, -, hrest⟩ := hsound _ _ _ _ (Nat.lt_succ_self _) hready hyields
    exact ⟨text, ⟨x, hx⟩, hrest⟩
  viable hready hyields := hviable _ _ _ _ (Nat.lt_succ_self _) hready hyields

-- Where all whole texts with an item in them are read, what precedes an error can be completed.
theorem hasViablePrefix_of_lengths {rank : String → Nat} (hranked : rules.RankedBy rank)
    (hspaced : ∀ {blank text x}, Blank blank → Item text x → Item (blank ++ text) x)
    (hsound : ∀ length, Sound rules Item nodeOf grammar length)
    (hviable : ∀ length, FailsViably rules Item grammar length)
    {read : String → Except ParseError β}
    (hreads : ∀ {input : String} {x}, (∃ body blank, input.toList = body ++ blank ∧ Item body x ∧
      Blank blank) → read input = .ok x)
    {input : String} {error : ParseError}
    (herror : parseAll rules grammar input.toList = .error error) :
    HasViablePrefix read input error := by
  have hdialect := Dialect.of_lengths hspaced hsound hviable
  refine hdialect.hasViablePrefix hranked ?_ herror
  rintro text blank ⟨x, hx⟩ hblank
  have hread : read (String.ofList (text ++ blank)) = .ok x := by
    refine hreads ⟨text, blank, ?_, hx, hblank⟩
    rw [String.toList_ofList]
  rw [hread]
  rfl

end Whole

end Descent.Grammar
