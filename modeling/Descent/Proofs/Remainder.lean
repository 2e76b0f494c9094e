import Descent.Proofs.Changes

namespace Descent

open Text

variable {α β : Type}

-- In each of the following an offset is counted from `origin` on. What lies before that does not
-- count.

def Failure.since (origin : Nat) (failure : Failure) : Failure :=
  { failure with pos := failure.pos - origin }

def Cursor.since (origin : Nat) (cursor : Cursor) : Cursor where
  pos := cursor.pos - origin
  rest := cursor.rest
  input := dropBytes cursor.input origin
  mark := cursor.mark - origin
  policy := cursor.policy
  autoSkip := cursor.autoSkip

def Event.since (origin : Nat) : Event → Event
  | entered name ahead => entered name ahead
  | matched name ahead => matched name ahead
  | failed name failure => failed name (failure.since origin)

def Outcome.since (origin : Nat) (outcome : Outcome β) : Outcome β :=
  ⟨outcome.result.mapError (Failure.since origin), outcome.cursor.since origin,
    outcome.events.map (Event.since origin)⟩

variable {origin : Nat}

theorem Failure.isBeyond_since {failure other : Failure} (h : origin ≤ failure.pos)
    (hother : origin ≤ other.pos) :
    (failure.since origin).isBeyond (other.since origin) = failure.isBeyond other := by
  rw [Bool.eq_iff_iff]
  simp only [isBeyond, decide_eq_true_eq]
  simp only [since]
  omega

namespace Cursor

variable {cursor : Cursor}

theorem skipBlank_since (h : origin ≤ cursor.pos) :
    (cursor.since origin).skipBlank = cursor.skipBlank.since origin := by
  have hskips : (cursor.since origin).skips = cursor.skips := rfl
  have hpos (n : Nat) : cursor.pos - origin + n = cursor.pos + n - origin := by omega
  simp only [skipBlank, skipWhile, hskips]
  simp only [since, rewind, Place.after, hpos]

theorem commit_since (cursor : Cursor) :
    (cursor.since origin).commit = cursor.commit.since origin := by
  have hmax : max (cursor.mark - origin) (cursor.pos - origin) =
      max cursor.mark cursor.pos - origin := by omega
  simp only [commit, since, hmax]

end Cursor

namespace Grammar

theorem scanStart_since {scanner : Scanner} {cursor : Cursor} (h : origin ≤ cursor.pos) :
    scanStart scanner (cursor.since origin) = (scanStart scanner cursor).since origin := by
  have hskips : (cursor.since origin).skips = cursor.skips := rfl
  simp only [scanStart, hskips, Cursor.skipBlank_since h]
  split <;> rfl

theorem attemptScan_since {scanner : Scanner} {cursor : Cursor} (h : origin ≤ cursor.pos) :
    (attemptScan scanner cursor : Outcome (Node α)).since origin =
      attemptScan scanner (cursor.since origin) := by
  have hstart := Nat.le_trans h (reaches_scanStart scanner cursor).pos_le
  have hpos (n : Nat) : (scanStart scanner cursor).pos + n - origin =
      (scanStart scanner cursor).pos - origin + n := by omega
  have hpolicy : (cursor.since origin).policy = cursor.policy := rfl
  have hrest (start : Cursor) : (start.since origin).rest = start.rest := rfl
  simp only [attemptScan, scanStart_since h, hpolicy, hrest]
  cases scanner.lex (α := α) cursor.policy (scanStart scanner cursor).rest with
  | ok lexeme =>
      simp only [Outcome.since, Outcome.ok, Cursor.since, Cursor.rewind, Place.after, hpos]
      rfl
  | error miss =>
      have hmiss : (⟨(scanStart scanner cursor).pos + miss.offset, miss.expected⟩ : Failure).since
          origin = ⟨(scanStart scanner cursor).pos - origin + miss.offset, miss.expected⟩ := by
        simp only [Failure.since, hpos]
      exact congrArg (fun failure => Outcome.failed failure (cursor.since origin)) hmiss

end Grammar

namespace Change

-- Counting offsets from `origin` on.
def since (origin : Nat) : Change := ⟨Cursor.since origin, Failure.since origin⟩

theorem outcome_since (outcome : Outcome β) :
    (since origin).outcome outcome = outcome.since origin := rfl

end Change

namespace Outcome

variable {outcome : Outcome β}

theorem since_result_of_ok {value : β} (h : outcome.result = .ok value) :
    (outcome.since origin).result = .ok value := by
  rw [← Change.outcome_since]
  exact changed_result_of_ok h

theorem since_result_of_error {failure : Failure} (h : outcome.result = .error failure) :
    (outcome.since origin).result = .error (failure.since origin) := by
  rw [← Change.outcome_since]
  exact changed_result_of_error h

end Outcome

-- What lies before `origin` is not noticed from behind it.
theorem Change.since_unnoticed (origin : Nat) :
    (since origin).Unnoticed (fun cursor => origin ≤ cursor.pos) fun _ => True where
  rest_eq _ := rfl
  fail_eq _ _ := rfl
  rewind_eq _ _ := rfl
  commit_eq cursor := cursor.commit_since.symm
  tighten_eq _ := rfl
  restore_eq _ _ := rfl
  skipBlank_eq h := (Cursor.skipBlank_since h).symm
  scan_eq _ h := Grammar.attemptScan_since h
  pos_lt_mark_iff {start cursor} h := by
    simp only [since, Cursor.since]
    omega
  pos_eq_iff {start cursor} h h' := by
    simp only [since, Cursor.since]
    omega
  isBeyond_eq h hfailure hother :=
    Failure.isBeyond_since (Nat.le_trans h hfailure) (Nat.le_trans h hother)
  fits_of_reaches h hreaches := Nat.le_trans h hreaches.pos_le
  fits_tight h := h

namespace Grammar

variable {rules : Rules α} {grammar : Grammar α} {cursor : Cursor} {outcome : Outcome (Node α)}

theorem scansOnly_true (rules : Rules α) (grammar : Grammar α) :
    ScansOnly rules (fun _ => True) grammar := fun _ _ => trivial

-- What a grammar comes to does not depend on what lies before `origin`, at any level.
theorem eval_since {fuel : Nat} (h : origin ≤ cursor.pos) :
    (eval rules fuel grammar cursor).map (Outcome.since origin) =
      eval rules fuel grammar (cursor.since origin) :=
  eval_changed (Change.since_unnoticed origin) (scansOnly_true rules grammar) h fuel

theorem Returns.since (h : Returns rules grammar cursor outcome) (hpos : origin ≤ cursor.pos) :
    Returns rules grammar (cursor.since origin) (outcome.since origin) :=
  h.changed (Change.since_unnoticed origin) (scansOnly_true rules grammar) hpos

theorem Returns.of_since (h : Returns rules grammar (cursor.since origin) outcome)
    (hpos : origin ≤ cursor.pos) :
    ∃ whole, Returns rules grammar cursor whole ∧ whole.since origin = outcome := by
  have hchanged : Returns rules grammar ((Change.since origin).cursor cursor) outcome := h
  exact hchanged.of_changed (Change.since_unnoticed origin) (scansOnly_true rules grammar) hpos

-- A cursor in front of `rest`, wherever that begins.
theorem since_eq {before rest : List Char} {mark : Nat} (hmark : mark ≤ byteSize before)
    (policy : Whitespace) (autoSkip : Bool) :
    Cursor.since (byteSize before)
        ⟨⟨byteSize before, rest⟩, before ++ rest, mark, policy, autoSkip⟩ =
      ⟨⟨0, rest⟩, rest, 0, policy, autoSkip⟩ := by
  simp only [Cursor.since, dropBytes_append, Nat.sub_self, Nat.sub_eq_zero_of_le hmark]

-- A text comes to the same behind another one as it does alone, only further on.
theorem outcome_depends_on_rest (rules : Rules α) (grammar : Grammar α) (before rest : List Char)
    (policy : Whitespace) (autoSkip : Bool) {mark : Nat} (hmark : mark ≤ byteSize before) :
    let behind : Cursor :=
      ⟨⟨byteSize before, rest⟩, before ++ rest, mark, policy, autoSkip⟩
    let alone : Cursor := ⟨⟨0, rest⟩, rest, 0, policy, autoSkip⟩
    ((∃ outcome, Returns rules grammar behind outcome) ↔
      ∃ outcome, Returns rules grammar alone outcome) ∧
    ∀ outcome outcome', Returns rules grammar behind outcome →
      Returns rules grammar alone outcome' →
      outcome.result = outcome'.result.mapError
        (fun failure => ⟨byteSize before + failure.pos, failure.expected⟩) ∧
      outcome.cursor.pos = byteSize before + outcome'.cursor.pos ∧
      outcome.cursor.rest = outcome'.cursor.rest ∧
      max outcome.cursor.mark (byteSize before) = byteSize before + outcome'.cursor.mark := by
  intro behind alone
  have halone : behind.since (byteSize before) = alone := since_eq hmark policy autoSkip
  have hpos : byteSize before ≤ behind.pos := Nat.le_refl _
  refine ⟨⟨?_, ?_⟩, ?_⟩
  · rintro ⟨outcome, h⟩
    exact ⟨_, halone ▸ h.since hpos⟩
  · rintro ⟨outcome, h⟩
    obtain ⟨whole, hwhole, -⟩ := (halone ▸ h : Returns _ _ (behind.since _) outcome).of_since hpos
    exact ⟨whole, hwhole⟩
  · intro outcome outcome' h h'
    obtain rfl := (halone ▸ h.since hpos : Returns _ _ alone _).unique h'
    have hreached := h.contract.reaches.pos_le
    refine ⟨?_, ?_, rfl, ?_⟩
    · cases hresult : outcome.result with
      | ok node =>
          rw [Outcome.since_result_of_ok hresult]
          rfl
      | error failure =>
          have hahead := (h.reportsAhead failure hresult).pos_le
          have hfailure : byteSize before + (failure.pos - byteSize before) = failure.pos := by
            omega
          rw [Outcome.since_result_of_error hresult]
          exact congrArg (fun pos => Except.error (Failure.mk pos failure.expected)) hfailure.symm
    · simp only [Outcome.since, Cursor.since]
      omega
    · simp only [Outcome.since, Cursor.since]
      omega

-- The cut of the first alternative is crossed two bytes into the text, wherever that begins.
theorem outcome_depends_on_rest_behind_line :
    let before := ['é', '\n']
    let rest := [' ', 'a', 'c']
    let behind : Cursor := ⟨⟨byteSize before, rest⟩, before ++ rest, 2, .ascii, true⟩
    let alone : Cursor := ⟨⟨0, rest⟩, rest, 0, .ascii, true⟩
    let grammar : Grammar Unit := .any [.seq [.exact "a", .cut, .exact "b"], .exact "ac"]
    let outcome : Outcome (Node Unit) :=
      ⟨.error ⟨5, "b"⟩, { behind with pos := 5, rest := ['c'], mark := 5 }, []⟩
    let outcome' : Outcome (Node Unit) :=
      ⟨.error ⟨2, "b"⟩, { alone with pos := 2, rest := ['c'], mark := 2 }, []⟩
    (2 ≤ byteSize before ∧ Returns {} grammar behind outcome ∧ Returns {} grammar alone outcome') ∧
    outcome.result = outcome'.result.mapError
      (fun failure => ⟨byteSize before + failure.pos, failure.expected⟩) ∧
    outcome.cursor.pos = byteSize before + outcome'.cursor.pos ∧
    outcome.cursor.rest = outcome'.cursor.rest ∧
    max outcome.cursor.mark (byteSize before) = byteSize before + outcome'.cursor.mark := by
  intro before rest behind alone grammar outcome outcome'
  have hmark : 2 ≤ byteSize before := by decide
  have h : Returns {} grammar behind outcome := ⟨3, rfl⟩
  have h' : Returns {} grammar alone outcome' := ⟨3, rfl⟩
  obtain ⟨-, hsame⟩ := outcome_depends_on_rest {} grammar before rest .ascii true hmark
  exact ⟨⟨hmark, h, h'⟩, hsame outcome outcome' h h'⟩

end Grammar

end Descent
