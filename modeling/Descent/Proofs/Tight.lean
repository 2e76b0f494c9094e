import Descent.Proofs.Changes

namespace Descent

variable {α β : Type}

namespace Cursor

-- Nothing is insignificant here, because skipping is off or because of the policy.
def SkipsNothing (cursor : Cursor) : Prop := ∀ c, cursor.skips c = false

-- The cursor with neither skipping nor a policy.
def bare (cursor : Cursor) : Cursor := { cursor with policy := .none, autoSkip := false }

variable {cursor stop : Cursor}

theorem skipsNothing_of_off (cursor : Cursor) : (cursor.withAutoSkip false).SkipsNothing :=
  fun _ => Bool.false_and _

theorem skipsNothing_of_none (h : cursor.policy = .none) : cursor.SkipsNothing := by
  intro c
  rw [skips, h]
  exact Bool.and_false _

theorem SkipsNothing.of_reaches (h : cursor.SkipsNothing) (hreaches : cursor.Reaches stop) :
    stop.SkipsNothing := by
  intro c
  rw [skips, hreaches.autoSkip, hreaches.policy]
  exact h c

theorem SkipsNothing.skipBlank_eq (h : cursor.SkipsNothing) : cursor.skipBlank = cursor := by
  have hskips : cursor.skips = fun _ => false := funext h
  have htake : cursor.rest.takeWhile (fun _ => false) = [] := by cases cursor.rest <;> rfl
  have hdrop : cursor.rest.dropWhile (fun _ => false) = cursor.rest := by
    cases cursor.rest <;> rfl
  rw [skipBlank, skipWhile, hskips, htake, hdrop]
  rfl

end Cursor

namespace Scanner

-- The policy only matters where it is to be skipped explicitly.
theorem lex_eq_of_ne_blank {scanner : Scanner} (h : scanner ≠ .blank none)
    (policy other : Whitespace) (text : List Char) :
    lex (α := α) policy text scanner = lex other text scanner := by
  cases scanner with
  | blank chosen =>
      cases chosen with
      | none => exact absurd rfl h
      | some chosen => rfl
  | exact _ | run _ _ _ _ | regex _ | quoted _ | number | upTo _ => rfl

end Scanner

namespace Grammar

theorem scanStart_eq_of_skipsNothing {cursor : Cursor} (h : cursor.SkipsNothing)
    (scanner : Scanner) : scanStart scanner cursor = cursor := by
  rw [scanStart, h.skipBlank_eq, ite_self]

end Grammar

namespace Change

def bare : Change := ⟨Cursor.bare, id⟩

theorem outcome_bare (outcome : Outcome β) :
    bare.outcome outcome = ⟨outcome.result, outcome.cursor.bare, outcome.events⟩ := by
  obtain ⟨result, cursor, events⟩ := outcome
  have hevent : bare.event = id := by
    funext event
    cases event <;> rfl
  simp only [Change.outcome, hevent, List.map_id]
  cases result <;> rfl

-- Where nothing is insignificant anyway, neither the switch nor the policy is noticed.
theorem bare_unnoticed : bare.Unnoticed Cursor.SkipsNothing (· ≠ .blank none) where
  rest_eq _ := rfl
  fail_eq _ _ := rfl
  rewind_eq _ _ := rfl
  commit_eq _ := rfl
  tighten_eq _ := rfl
  restore_eq _ _ := rfl
  skipBlank_eq {cursor} h := by
    have hbare : cursor.bare.SkipsNothing := Cursor.skipsNothing_of_none rfl
    rw [h.skipBlank_eq]
    exact hbare.skipBlank_eq.symm
  scan_eq {α scanner cursor} hscanner h := by
    have hbare : cursor.bare.SkipsNothing := Cursor.skipsNothing_of_none rfl
    have hlex : scanner.lex (α := α) cursor.bare.policy cursor.bare.rest =
        scanner.lex cursor.policy cursor.rest :=
      Scanner.lex_eq_of_ne_blank hscanner _ _ _
    rw [outcome_bare]
    change _ = Grammar.attemptScan scanner cursor.bare
    simp only [Grammar.attemptScan, Grammar.scanStart_eq_of_skipsNothing h,
      Grammar.scanStart_eq_of_skipsNothing hbare, hlex]
    cases scanner.lex (α := α) cursor.policy cursor.rest <;> rfl
  pos_lt_mark_iff _ := Iff.rfl
  pos_eq_iff _ _ := Iff.rfl
  isBeyond_eq _ _ _ := rfl
  fits_of_reaches h hreaches := h.of_reaches hreaches
  fits_tight {cursor} _ := cursor.skipsNothing_of_off

end Change

namespace Grammar

variable {rules : Rules α} {grammar part : Grammar α} {cursor : Cursor} {outcome : Outcome (Node α)}

theorem returns_tight_iff : Returns rules (.tight part) cursor outcome ↔
    ∃ inner, Returns rules part (cursor.withAutoSkip false) inner ∧
      outcome = { inner with cursor := inner.cursor.withAutoSkip cursor.autoSkip } := by
  constructor
  · rintro ⟨fuel, heval⟩
    cases fuel with
    | zero => cases heval
    | succ fuel =>
        obtain ⟨inner, hinner, heq⟩ := Option.bind_eq_some_iff.mp heval
        cases heq
        exact ⟨inner, ⟨fuel, hinner⟩, rfl⟩
  · rintro ⟨inner, ⟨fuel, hinner⟩, rfl⟩
    exact ⟨fuel + 1, Option.bind_eq_some_iff.mpr ⟨inner, hinner, rfl⟩⟩

theorem scansOnly_of_not_uses {scanner : Scanner} (h : ¬Uses rules scanner grammar) :
    ScansOnly rules (· ≠ scanner) grammar :=
  fun _ huses heq => h (heq ▸ huses)

section Bare

variable (hblank : ¬Uses rules (.blank none) grammar) (hcursor : cursor.SkipsNothing)

include hblank hcursor

theorem Returns.bare (h : Returns rules grammar cursor outcome) :
    Returns rules grammar cursor.bare (Change.bare.outcome outcome) :=
  h.changed Change.bare_unnoticed (scansOnly_of_not_uses hblank) hcursor

theorem exists_returns_bare_iff :
    (∃ outcome, Returns rules grammar cursor.bare outcome) ↔
      ∃ outcome, Returns rules grammar cursor outcome := by
  constructor
  · rintro ⟨outcome, h⟩
    have hbare : Returns rules grammar (Change.bare.cursor cursor) outcome := h
    obtain ⟨before, hbefore, -⟩ :=
      hbare.of_changed Change.bare_unnoticed (scansOnly_of_not_uses hblank) hcursor
    exact ⟨before, hbefore⟩
  · rintro ⟨outcome, h⟩
    exact ⟨_, h.bare hblank hcursor⟩

end Bare

-- Turning off skipping comes to the same as a policy with nothing to skip, because both runs are
-- those of one cursor that has neither.
theorem tight_same_as_no_policy (cursor : Cursor) (autoSkip : Bool)
    (hblank : ¬Uses rules (.blank none) grammar) :
    let plain : Cursor := { cursor with policy := .none, autoSkip }
    ((∃ outcome, Returns rules (.tight grammar) cursor outcome) ↔
      ∃ outcome, Returns rules grammar plain outcome) ∧
    ∀ outcome outcome', Returns rules (.tight grammar) cursor outcome →
      Returns rules grammar plain outcome' →
      outcome.result = outcome'.result ∧ outcome.cursor.toPlace = outcome'.cursor.toPlace ∧
        outcome.cursor.mark = outcome'.cursor.mark ∧ outcome.events = outcome'.events ∧
        outcome.cursor.autoSkip = cursor.autoSkip ∧ outcome.cursor.policy = cursor.policy := by
  intro plain
  have htight := cursor.skipsNothing_of_off
  have hplain : plain.SkipsNothing := Cursor.skipsNothing_of_none rfl
  constructor
  · calc (∃ outcome, Returns rules (.tight grammar) cursor outcome)
      _ ↔ ∃ inner, Returns rules grammar (cursor.withAutoSkip false) inner := by
        simp only [returns_tight_iff]
        constructor
        · rintro ⟨_, inner, h, -⟩
          exact ⟨inner, h⟩
        · rintro ⟨inner, h⟩
          exact ⟨_, inner, h, rfl⟩
      _ ↔ ∃ outcome, Returns rules grammar cursor.bare outcome :=
        (exists_returns_bare_iff hblank htight).symm
      _ ↔ ∃ outcome, Returns rules grammar plain outcome :=
        exists_returns_bare_iff hblank hplain
  · intro outcome outcome' h h'
    obtain ⟨inner, hinner, rfl⟩ := returns_tight_iff.mp h
    have hbare := hinner.bare hblank htight
    have hbare' := h'.bare hblank hplain
    have hsame := hbare.unique hbare'
    simp only [Change.outcome_bare, Outcome.mk.injEq] at hsame
    obtain ⟨hresult, hcursor, hevents⟩ := hsame
    have hplace : inner.cursor.bare.toPlace = outcome'.cursor.bare.toPlace :=
      congrArg Cursor.toPlace hcursor
    have hmark : inner.cursor.bare.mark = outcome'.cursor.bare.mark :=
      congrArg Cursor.mark hcursor
    exact ⟨hresult, hplace, hmark, hevents, rfl, hinner.contract.reaches.policy⟩

-- The literal of the inner part starts with a blank, and the label of the rule is expected in front
-- of another one, which is not skipped.
theorem tight_same_as_no_policy_for_literal_with_blank :
    let rules : Rules Unit := { definitions := [("end", .label "tail" (.exact "c"))] }
    let grammar : Grammar Unit := .seq [.exact "a", .tight (.exact " b"), .rule "end"]
    let cursor : Cursor := ⟨⟨1, "a b d".toList⟩, "xa b d".toList, 1, .ascii, true⟩
    let plain : Cursor := { cursor with policy := .none }
    let failure : Failure := ⟨4, "tail"⟩
    let events : List Event := [.failed "end" failure, .entered "end" [' ', 'd']]
    let outcome : Outcome (Node Unit) := ⟨.error failure, cursor, events⟩
    let outcome' : Outcome (Node Unit) := ⟨.error failure, plain, events⟩
    (¬Uses rules (.blank none) grammar ∧ Returns rules (.tight grammar) cursor outcome ∧
      Returns rules grammar plain outcome') ∧
    outcome.result = outcome'.result ∧ outcome.cursor.toPlace = outcome'.cursor.toPlace ∧
      outcome.cursor.mark = outcome'.cursor.mark ∧ outcome.events = outcome'.events ∧
      outcome.cursor.autoSkip = cursor.autoSkip ∧ outcome.cursor.policy = cursor.policy := by
  intro rules grammar cursor plain failure events outcome outcome'
  have hblank : ¬Uses rules (.blank none) grammar := by
    simp only [grammar]
    intro h
    cases h with
    | seq hmem hpart =>
        simp only [List.mem_cons, List.not_mem_nil, or_false] at hmem
        obtain rfl | rfl | rfl := hmem
        · cases hpart
        · cases hpart with
          | tight h => cases h
        · cases hpart with
          | rule hdefinition h =>
              cases hdefinition
              cases h with
              | label h => cases h
  have h : Returns rules (.tight grammar) cursor outcome := ⟨5, rfl⟩
  have h' : Returns rules grammar plain outcome' := ⟨4, rfl⟩
  obtain ⟨-, hsame⟩ := tight_same_as_no_policy cursor true hblank
  exact ⟨⟨hblank, h, h'⟩, hsame outcome outcome' h h'⟩

end Grammar

end Descent
