import Descent.Answer
import Descent.Proofs.Lossless
import Descent.Proofs.Visits
import Mathlib.Data.List.TakeWhile

namespace Descent

open Text

variable {α : Type}

-- What there is to say of a text.
inductive Verdict (α : Type) where
  -- the match is followed by nothing significant
  | complete (node : Node α)
  -- something significant follows the match, at this offset
  | incomplete (node : Node α) (pos : Nat)
  | unmatched (failure : Failure)

-- The answer says this of the text, and nothing in it says otherwise.
def Answer.Tells (policy : Whitespace) (input : List Char) (answer : Answer α) :
    Verdict α → Prop
  | .complete node => answer.node = some node ∧ answer.error = none ∧ answer.remaining = []
  | .incomplete node pos =>
    answer.node = some node ∧
      answer.error = some (.unparsed pos (String.ofList answer.remaining)) ∧
      (∃ before, input = before ++ answer.remaining ∧ pos = byteSize before) ∧
      ∃ c rest, answer.remaining = c :: rest ∧ policy.accepts c = false
  | .unmatched failure =>
    answer.node = none ∧ answer.error = some (.unmatched failure) ∧ answer.remaining <:+ input

-- What an outcome amounts to, where the characters of this policy are insignificant.
def Outcome.verdict (policy : Whitespace) (outcome : Outcome (Node α)) : Verdict α :=
  match outcome.result with
  | .ok node =>
    if outcome.cursor.rest.all policy.accepts then .complete node
    else .incomplete node outcome.cursor.skipBlank.pos
  | .error failure => .unmatched failure

namespace Outcome

variable {policy : Whitespace} {outcome : Outcome (Node α)} {node : Node α} {failure : Failure}

theorem verdict_of_error (h : outcome.result = .error failure) :
    outcome.verdict policy = .unmatched failure := by
  rw [verdict, h]

theorem verdict_of_ok (h : outcome.result = .ok node) :
    outcome.verdict policy = if outcome.cursor.rest.all policy.accepts then .complete node
      else .incomplete node outcome.cursor.skipBlank.pos := by
  rw [verdict, h]

theorem complete_eq_verdict_iff : .complete node = outcome.verdict policy ↔
    outcome.result = .ok node ∧ ∀ c ∈ outcome.cursor.rest, policy.accepts c := by
  cases hresult : outcome.result with
  | error failure => simp [verdict_of_error hresult]
  | ok found =>
      rw [verdict_of_ok hresult, ← List.all_eq_true]
      split
      · rename_i hall
        simp [hall, eq_comm]
      · rename_i hnot
        simp [hnot]

theorem matches_iff : (.complete node = outcome.verdict policy ∨
      ∃ pos, .incomplete node pos = outcome.verdict policy) ↔ outcome.result = .ok node := by
  cases hresult : outcome.result with
  | error failure => simp [verdict_of_error hresult]
  | ok found =>
      rw [verdict_of_ok hresult]
      split <;> simp [eq_comm]

theorem unmatched_eq_verdict_iff : .unmatched failure = outcome.verdict policy ↔
    outcome.result = .error failure := by
  cases hresult : outcome.result with
  | error inner => simp [verdict_of_error hresult, eq_comm]
  | ok found =>
      rw [verdict_of_ok hresult]
      split <;> simp

end Outcome

namespace Answer

variable {policy : Whitespace} {input : List Char} {answer : Answer α}
  {verdict other : Verdict α}

theorem Tells.unique (h : answer.Tells policy input verdict)
    (hother : answer.Tells policy input other) : verdict = other := by
  cases verdict with
  | complete node =>
      obtain ⟨hnode, herror, -⟩ := h
      cases other with
      | complete node' =>
          cases hnode.symm.trans hother.1
          rfl
      | incomplete | unmatched => cases herror.symm.trans hother.2.1
  | incomplete node pos =>
      obtain ⟨hnode, herror, -⟩ := h
      cases other with
      | incomplete node' pos' =>
          cases hnode.symm.trans hother.1
          cases herror.symm.trans hother.2.1
          rfl
      | complete | unmatched => cases herror.symm.trans hother.2.1
  | unmatched failure =>
      obtain ⟨-, herror, -⟩ := h
      cases other with
      | complete | incomplete => cases herror.symm.trans hother.2.1
      | unmatched failure' =>
          cases herror.symm.trans hother.2.1
          rfl

end Answer

section Ends

variable {policy : Whitespace} {input : List Char} {outcome : Outcome (Node α)} {cursor : Cursor}

theorem Cursor.skips_ofInput (input : List Char) (policy : Whitespace) :
    (ofInput input policy).skips = policy.accepts := by
  funext c
  simp [skips, ofInput]

namespace Cursor.Reaches

-- Wherever a run leaves the cursor, as much is skipped there as at the start of the text.
theorem rest_skipBlank (h : (ofInput input policy).Reaches cursor) :
    cursor.skipBlank.rest = cursor.rest.dropWhile policy.accepts := by
  rw [← skips_ofInput input policy, ← h.skips_eq]
  rfl

theorem atEnd_skipBlank_iff (h : (ofInput input policy).Reaches cursor) :
    cursor.skipBlank.atEnd ↔ ∀ c ∈ cursor.rest, policy.accepts c := by
  rw [atEnd, h.rest_skipBlank, List.isEmpty_iff, List.dropWhile_eq_nil_iff]

-- What stops the skipping is significant.
theorem accepts_eq_false_of_rest_skipBlank (h : (ofInput input policy).Reaches cursor) {c : Char}
    {rest : List Char} (hrest : cursor.skipBlank.rest = c :: rest) : policy.accepts c = false := by
  rw [h.rest_skipBlank] at hrest
  have hhead : c ∈ (cursor.rest.dropWhile policy.accepts).head? := by
    rw [hrest]
    rfl
  exact Scanner.head?_dropWhile_eq_false c hhead

end Cursor.Reaches

variable (hreaches : (Cursor.ofInput input policy).Reaches outcome.cursor)

include hreaches

theorem Answer.tells_verdict :
    (Answer.ofOutcome outcome).Tells policy input (outcome.verdict policy) := by
  have hsound := (Cursor.sound_ofInput input policy).of_reaches hreaches
  cases hresult : outcome.result with
  | error failure =>
      rw [Outcome.verdict_of_error hresult]
      simp only [Answer.ofOutcome, hresult]
      obtain ⟨before, hinput, -⟩ := hsound
      exact ⟨rfl, rfl, before, hinput.symm.trans hreaches.input⟩
  | ok node =>
      have hall : outcome.cursor.rest.all policy.accepts = outcome.cursor.skipBlank.atEnd := by
        rw [Bool.eq_iff_iff, hreaches.atEnd_skipBlank_iff, List.all_eq_true]
      rw [Outcome.verdict_of_ok hresult, hall]
      simp only [Answer.ofOutcome, hresult]
      by_cases hend : outcome.cursor.skipBlank.atEnd
      · simp only [hend, if_true]
        exact ⟨rfl, rfl, List.isEmpty_iff.mp hend⟩
      · simp only [hend]
        have hskip := outcome.cursor.reaches_skipBlank
        obtain ⟨before, hinput, hpos⟩ := hsound.of_reaches hskip
        have hwhole := (hskip.input.trans hreaches.input).symm.trans hinput
        obtain ⟨c, rest, hcons⟩ := List.exists_cons_of_ne_nil (mt List.isEmpty_iff.mpr hend)
        have hstop := hreaches.accepts_eq_false_of_rest_skipBlank hcons
        exact ⟨rfl, rfl, ⟨before, hwhole, hpos⟩, c, rest, hcons, hstop⟩

-- An answer tells what the outcome amounts to, and nothing else.
theorem Answer.tells_iff {verdict : Verdict α} :
    (Answer.ofOutcome outcome).Tells policy input verdict ↔ verdict = outcome.verdict policy := by
  have htells := Answer.tells_verdict hreaches
  constructor
  · intro h
    exact h.unique htells
  · rintro rfl
    exact htells

end Ends

namespace Grammar

variable {rules : Rules α} {grammar : Grammar α} {policy : Whitespace} {input : List Char}
  {outcome : Outcome (Node α)}

theorem parse_eq_of_returns
    (h : Returns rules grammar (Cursor.ofInput input policy).skipBlank outcome) :
    parse rules grammar policy input = .ofOutcome outcome :=
  congrArg Answer.ofOutcome (run_eq_of_returns h (Nat.zero_le _))

-- An answer tells one thing about its text, and what that is follows from how trying the grammar
-- comes out behind the insignificant characters at the start.
theorem answer_tells_one_verdict
    (h : Returns rules grammar (Cursor.ofInput input policy).skipBlank outcome) :
    let start := (Cursor.ofInput input policy).skipBlank
    let answer := parse rules grammar policy input
    (∃! verdict, answer.Tells policy input verdict) ∧
    (∀ node, (answer.Tells policy input (.complete node) ∨
        ∃ pos, answer.Tells policy input (.incomplete node pos)) ↔ outcome.result = .ok node) ∧
    (∀ node, answer.Tells policy input (.complete node) ↔
      outcome.result = .ok node ∧ ∀ c ∈ outcome.cursor.rest, policy.accepts c) ∧
    (∀ failure, answer.Tells policy input (.unmatched failure) ↔
      outcome.result = .error failure) ∧
    (∀ failure, outcome.result = .error failure → outcome.cursor.mark ≤ start.pos →
      answer.remaining = input.dropWhile policy.accepts) ∧
    (∀ node, answer.toExcept = .ok node ↔ answer.Tells policy input (.complete node)) ∧
    (policy = .ascii → ∀ node,
      parseAll rules grammar input = .ok node ↔ answer.Tells policy input (.complete node)) := by
  intro start answer
  have hanswer : answer = .ofOutcome outcome := parse_eq_of_returns h
  have hstart := (Cursor.ofInput input policy).reaches_skipBlank
  have hreaches := hstart.trans h.contract.reaches
  have htells (verdict : Verdict α) :
      answer.Tells policy input verdict ↔ verdict = outcome.verdict policy := by
    rw [hanswer]
    exact Answer.tells_iff hreaches
  have hexcept (node : Node α) :
      answer.toExcept = .ok node ↔ answer.Tells policy input (.complete node) := by
    rw [htells, Outcome.complete_eq_verdict_iff, hanswer, Answer.toExcept_ofOutcome_eq_ok_iff,
      hreaches.atEnd_skipBlank_iff]
  refine ⟨?_, ?_, ?_, ?_, ?_, hexcept, ?_⟩
  · exact ⟨outcome.verdict policy, (htells _).mpr rfl, fun verdict => (htells verdict).mp⟩
  · intro node
    simp only [htells]
    exact Outcome.matches_iff
  · intro node
    rw [htells]
    exact Outcome.complete_eq_verdict_iff
  · intro failure
    rw [htells]
    exact Outcome.unmatched_eq_verdict_iff
  · intro failure hfailure hmark
    have hplace := (h.contract.back failure hfailure).resolve_right (Nat.not_lt_of_le hmark)
    have hrest : start.rest = input.dropWhile policy.accepts :=
      (Cursor.Reaches.refl (Cursor.ofInput input policy)).rest_skipBlank
    rw [hanswer, Answer.ofOutcome, hfailure, ← hrest]
    exact congrArg Place.rest hplace
  · rintro rfl
    exact hexcept

-- The blank behind the match is skipped, the letter behind that is left.
theorem answer_tells_letter_left :
    let input := [' ', 'a', 'b', ' ', 'é']
    let start := (Cursor.ofInput input .ascii).skipBlank
    let grammar : Grammar Unit := .many (.exact "ab") none 1
    let node : Node Unit := .children [.token "ab"]
    let outcome : Outcome (Node Unit) :=
      ⟨.ok node, { start with pos := 3, rest := [' ', 'é'] }, []⟩
    let answer := parse {} grammar .ascii input
    Returns {} grammar start outcome ∧ (∃! verdict, answer.Tells .ascii input verdict) ∧
      answer.Tells .ascii input (.incomplete node 4) ∧
      ∀ other, parseAll {} grammar input ≠ .ok other := by
  intro input start grammar node outcome answer
  have hreturns : Returns {} grammar start outcome := ⟨2, rfl⟩
  obtain ⟨hone, -, hcomplete, -, -, -, hall⟩ := answer_tells_one_verdict hreturns
  have hanswer : answer = .ofOutcome outcome := parse_eq_of_returns hreturns
  have htells : answer.Tells .ascii input (.incomplete node 4) := by
    rw [hanswer]
    exact ⟨rfl, rfl, ⟨[' ', 'a', 'b', ' '], rfl, rfl⟩, 'é', [], rfl, rfl⟩
  refine ⟨hreturns, hone, htells, fun other hother => ?_⟩
  obtain ⟨-, hblank⟩ := (hcomplete other).mp ((hall rfl other).mp hother)
  exact absurd (hblank 'é' (by simp [outcome])) (by decide)

end Grammar

end Descent
