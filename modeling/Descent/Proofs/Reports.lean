import Descent.Answer
import Descent.Proofs.Lexemes
import Descent.Proofs.Places
import Descent.Proofs.Retreat

namespace Descent

open Text

namespace Scanner

-- A scanner misses what it expects within the text it looks at.
theorem offset_le_of_lex {α : Type} {policy : Whitespace} {text : List Char} {scanner : Scanner}
    {miss : Miss} (h : lex (α := α) policy text scanner = .error miss) :
    miss.offset ≤ byteSize text := by
  by_cases hquoted : ∃ quotes, scanner = .quoted quotes
  · obtain ⟨quotes, rfl⟩ := hquoted
    exact Quoted.offset_le_of_scan h
  · have hoffset := offset_eq_zero_of_lex (fun quotes heq => hquoted ⟨quotes, heq⟩) h
    omega

end Scanner

-- Where a failure lies, if trying something at `start` has left the cursor at `stop`: not behind
-- the cursor, not behind what has been committed to, and not beyond the end of the text.
structure Failure.Ahead (start stop : Cursor) (failure : Failure) : Prop where
  pos_le : stop.pos ≤ failure.pos
  mark_le : start.mark ≤ start.pos → stop.mark ≤ failure.pos
  le_end : failure.pos ≤ start.pos + byteSize start.rest

namespace Failure.Ahead

variable {start middle stop : Cursor} {failure : Failure}

-- A failure at a place that was reached.
theorem of_fail (hreaches : start.Reaches middle) (hpos : stop.pos ≤ middle.pos)
    (hmark : start.mark ≤ start.pos → stop.mark ≤ middle.pos) (expected : String) :
    Ahead start stop (middle.fail expected) where
  pos_le := hpos
  mark_le := hmark
  le_end := by
    have hend := hreaches.place.pos_add_eq
    simp only [Cursor.fail]
    omega

theorem of_reaches (hreaches : start.Reaches middle)
    (hmark : start.mark ≤ start.pos → middle.mark ≤ middle.pos) (h : Ahead middle stop failure) :
    Ahead start stop failure where
  pos_le := h.pos_le
  mark_le hle := h.mark_le (hmark hle)
  le_end := hreaches.place.pos_add_eq ▸ h.le_end

-- The cursor may go back behind the failure.
theorem back (h : Ahead start stop failure) (place : Place) (hpos : place.pos ≤ stop.pos) :
    Ahead start (stop.rewind place) failure where
  pos_le := Nat.le_trans hpos h.pos_le
  mark_le := h.mark_le
  le_end := h.le_end

end Failure.Ahead

def Outcome.ReportsAhead {β : Type} (start : Cursor) (outcome : Outcome β) : Prop :=
  ∀ failure, outcome.result = .error failure → failure.Ahead start outcome.cursor

namespace Outcome.ReportsAhead

variable {β γ : Type} {start : Cursor} {outcome : Outcome β}

theorem of_ok {value : β} (h : outcome.result = .ok value) : outcome.ReportsAhead start := by
  intro failure hfailure
  cases h.symm.trans hfailure

theorem of_error {failure : Failure} {cursor : Cursor} {events : List Event}
    (h : failure.Ahead start cursor) :
    ReportsAhead (β := β) start ⟨.error failure, cursor, events⟩ := by
  rintro _ ⟨⟩
  exact h

theorem map (h : outcome.ReportsAhead start) (f : β → γ) : (outcome.map f).ReportsAhead start :=
  fun failure hfailure => h failure (map_result_eq_error_iff.mp hfailure)

theorem of_reaches {middle : Cursor} (hreaches : start.Reaches middle)
    (hmark : start.mark ≤ start.pos → middle.mark ≤ middle.pos)
    (h : outcome.ReportsAhead middle) : outcome.ReportsAhead start :=
  fun failure hfailure => (h failure hfailure).of_reaches hreaches hmark

end Outcome.ReportsAhead

namespace Grammar

variable {α : Type}

theorem attemptScan_reportsAhead (scanner : Scanner) (cursor : Cursor) :
    (attemptScan scanner cursor : Outcome (Node α)).ReportsAhead cursor := by
  have hstart := reaches_scanStart scanner cursor
  have hpos := hstart.pos_le
  have hend := hstart.place.pos_add_eq
  simp only [attemptScan]
  cases hlex : scanner.lex (α := α) cursor.policy (scanStart scanner cursor).rest with
  | ok lexeme => exact .of_ok rfl
  | error miss =>
      have hoffset := Scanner.offset_le_of_lex hlex
      refine .of_error ⟨?_, fun hmark => ?_, ?_⟩ <;> simp only <;> omega

section Level

variable {rules : Rules α} {Tried : Grammar α → Cursor → Outcome (Node α) → List (Step α) → Prop}
  (hparts : ∀ {part cursor outcome steps}, Tried part cursor outcome steps →
    Runs rules part cursor outcome steps ∧ outcome.ReportsAhead cursor)

include hparts

theorem PartsRun.reportsAhead {parts : List (Grammar α)} {cursor : Cursor}
    {outcome : Outcome (List (Node α))} {steps : List (Step α)}
    (h : PartsRun Tried parts cursor outcome steps) : outcome.ReportsAhead cursor := by
  induction h with
  | nil => exact .of_ok rfl
  | failed hpart hresult => exact .of_error ((hparts hpart).2 _ hresult)
  | cons hpart hresult _ ih =>
      have hreturns := (hparts hpart).1.returns
      exact (ih.of_reaches hreturns.contract.reaches (hreturns.mark_le_of_ok hresult)).map _

-- The failure that is kept stems from an alternative that gave way, so nothing had been committed
-- to behind the start by then, nor has it been since.
theorem AnyRun.reportsAhead {start : Cursor} {best : Option Failure}
    {alternatives : List (Grammar α)} {cursor : Cursor} {outcome : Outcome (Node α)}
    {steps : List (Step α)} (h : AnyRun Tried start best alternatives cursor outcome steps)
    (hplace : cursor.toPlace = start.toPlace) (hreaches : start.Reaches cursor)
    (hmark : start.mark ≤ start.pos → cursor.mark ≤ cursor.pos)
    (hbest : ∀ failure ∈ best, failure.Ahead start cursor) : outcome.ReportsAhead start := by
  induction h with
  | @exhausted best cursor =>
      cases best with
      | some failure => exact .of_error (hbest failure rfl)
      | none =>
          refine .of_error (.of_fail hreaches (Nat.le_refl _) (fun hle => ?_) _)
          exact hmark hle
  | matched _ hresult => exact .of_ok hresult
  | committed hpart => exact (hparts hpart).2.of_reaches hreaches hmark
  | @next _ _ _ cursor _ _ failure _ _ hpart hresult hback _ ih =>
      obtain ⟨hruns, hahead⟩ := hparts hpart
      have hpos : start.pos = cursor.pos := congrArg Place.pos hplace.symm
      have hmoved := hruns.returns.contract.reaches
      refine ih rfl ((hreaches.trans hmoved).rewind (.refl _)) (fun _ => hback) ?_
      have hlast := ((hahead failure hresult).of_reaches hreaches hmark).back start.toPlace
        (hpos ▸ hmoved.pos_le)
      refine forall_mem_further (fun earlier hmem => ?_) hlast
      have hearlier := hbest earlier hmem
      refine ⟨hpos ▸ hearlier.pos_le, fun _ => ?_, hearlier.le_end⟩
      exact Nat.le_trans hback (hpos ▸ hearlier.pos_le)

theorem SeparatorRun.reportsAhead {separator : Option (Grammar α)} {cursor : Cursor}
    {outcome : Outcome (Node α)} {steps : List (Step α)}
    (h : SeparatorRun Tried separator cursor outcome steps) : outcome.ReportsAhead cursor := by
  cases h with
  | none => exact .of_ok rfl
  | some hpart => exact (hparts hpart).2

theorem ItemsRun.reportsAhead {item : Grammar α} {separator : Option (Grammar α)} {start : Cursor}
    {min : Nat} {cursor : Cursor} {outcome : Outcome (List (Node α))} {steps : List (Step α)}
    (h : ItemsRun Tried item separator start min cursor outcome steps)
    (hreaches : start.Reaches cursor)
    (hmark : start.mark ≤ start.pos → cursor.mark ≤ cursor.pos) : outcome.ReportsAhead start := by
  have hcontract {part cursor outcome steps} (hpart : Tried part cursor outcome steps) :=
    (hparts hpart).1.returns.contract
  induction h with
  | committed hitem hresult =>
      exact .of_error (((hparts hitem).2 _ hresult).of_reaches hreaches hmark)
  | short hitem hresult =>
      have hpos := (hreaches.trans (hcontract hitem).reaches).pos_le
      exact .of_error ((((hparts hitem).2 _ hresult).of_reaches hreaches hmark).back _ hpos)
  | ended | separatorEnded | stuck => exact .of_ok rfl
  | separatorCommitted hitem hresult hseparator hseparated =>
      have hreturns := (hparts hitem).1.returns
      have hahead := hseparator.reportsAhead hparts _ hseparated
      exact .of_error (hahead.of_reaches (hreaches.trans hreturns.contract.reaches) fun hle =>
        hreturns.mark_le_of_ok hresult (hmark hle))
  | next hitem hresult hseparator hseparated _ _ ih =>
      have hreturns := (hparts hitem).1.returns
      have hmiddle := hreaches.trans hreturns.contract.reaches
      have hruns := hseparator.mono fun _ _ _ _ hpart => (hparts hpart).1
      refine (ih (hmiddle.trans (hseparator.contract hcontract).reaches) fun hle => ?_).map _
      exact hruns.mark_le_of_ok hseparated (hreturns.mark_le_of_ok hresult (hmark hle))

theorem LevelRun.reportsAhead {grammar : Grammar α} {cursor : Cursor} {outcome : Outcome (Node α)}
    {inner : List (Step α)} (h : LevelRun Tried rules grammar cursor outcome inner) :
    outcome.ReportsAhead cursor := by
  have hcontract {part cursor outcome steps} (hpart : Tried part cursor outcome steps) :=
    (hparts hpart).1.returns.contract
  cases h with
  | scan => exact attemptScan_reportsAhead _ cursor
  | cut | seq | maybeFailed => exact .of_ok rfl
  | seqCommitted hrun hresult => exact .of_error (hrun.reportsAhead hparts _ hresult)
  | seqFailed hrun hresult =>
      exact .of_error ((hrun.reportsAhead hparts _ hresult).back _ (hrun.reaches hcontract).pos_le)
  | any hrun => exact hrun.reportsAhead hparts rfl (.refl _) id nofun
  | many hrun => exact (hrun.reportsAhead hparts (.refl _) id).map _
  | maybe hpart | maybeCommitted hpart | label hpart | labelCommitted hpart =>
      exact (hparts hpart).2
  | @labelFailed name part _ outcome _ _ hpart _ hmark =>
      have hback := (hcontract hpart).reaches.rewind (.refl cursor.toPlace)
      have hskip := (outcome.back cursor).reaches_skipBlank
      refine .of_error (.of_fail (hback.trans hskip) hskip.pos_le (fun _ => ?_) name)
      exact Nat.le_trans hmark hskip.pos_le
  | named hpart | rule _ hpart => exact (hparts hpart).2
  | map hpart | bind hpart | merge hpart => exact (hparts hpart).2.map _
  | tight hpart =>
      intro failure hfailure
      obtain ⟨hpos, hmark, hend⟩ := (hparts hpart).2 failure hfailure
      exact ⟨hpos, hmark, hend⟩
  | undefined =>
      have hskip := cursor.reaches_skipBlank
      exact .of_error (.of_fail hskip hskip.pos_le (fun hmark => Nat.le_trans hmark hskip.pos_le) _)

end Level

section Cuts

-- The cuts that were crossed lie behind the mark or at it.
def CutsBehind (mark : Nat) (steps : List (Step α)) : Prop :=
  ∀ start, .entered .cut start ∈ steps → start.pos ≤ mark

variable {first rest steps : List (Step α)} {mark later : Nat}

theorem cutsBehind_nil : CutsBehind mark ([] : List (Step α)) := fun _ hmem => nomatch hmem

theorem CutsBehind.mono (h : CutsBehind mark steps) (hle : mark ≤ later) :
    CutsBehind later steps := fun start hmem => Nat.le_trans (h start hmem) hle

theorem CutsBehind.append (hfirst : CutsBehind mark first) (hle : mark ≤ later)
    (hrest : CutsBehind later rest) : CutsBehind later (first ++ rest) :=
  fun start hmem => (List.mem_append.mp hmem).elim (hfirst.mono hle start) (hrest start)

theorem CutsBehind.enclose {grammar : Grammar α} {cursor : Cursor} {outcome : Outcome (Node α)}
    (h : CutsBehind mark steps) (hcut : grammar = .cut → cursor.pos ≤ mark) :
    CutsBehind mark (.entered grammar cursor :: (steps ++ [.left grammar cursor outcome])) := by
  intro start hmem
  simp only [List.mem_cons, List.mem_append, List.not_mem_nil, or_false, reduceCtorEq] at hmem
  cases hmem with
  | inl heq =>
      cases heq
      exact hcut rfl
  | inr hmem => exact h start hmem

end Cuts

section Level

variable {Tried : Grammar α → Cursor → Outcome (Node α) → List (Step α) → Prop}
  (hparts : ∀ {part cursor outcome steps}, Tried part cursor outcome steps →
    outcome.Contract cursor ∧ CutsBehind outcome.cursor.mark steps)

include hparts

theorem PartsRun.cutsBehind {parts : List (Grammar α)} {cursor : Cursor}
    {outcome : Outcome (List (Node α))} {steps : List (Step α)}
    (h : PartsRun Tried parts cursor outcome steps) : CutsBehind outcome.cursor.mark steps := by
  induction h with
  | nil => exact cutsBehind_nil
  | failed hpart => exact (hparts hpart).2
  | cons hpart _ hrest ih =>
      have hreaches := hrest.reaches fun hpart => (hparts hpart).1
      exact (hparts hpart).2.append hreaches.mark_le ih

theorem AnyRun.cutsBehind {start : Cursor} {best : Option Failure}
    {alternatives : List (Grammar α)} {cursor : Cursor} {outcome : Outcome (Node α)}
    {steps : List (Step α)} (h : AnyRun Tried start best alternatives cursor outcome steps) :
    cursor.mark ≤ outcome.cursor.mark ∧ CutsBehind outcome.cursor.mark steps := by
  induction h with
  | exhausted => exact ⟨Nat.le_refl _, cutsBehind_nil⟩
  | matched hpart | committed hpart => exact ⟨(hparts hpart).1.reaches.mark_le, (hparts hpart).2⟩
  | next hpart _ _ _ ih =>
      exact ⟨Nat.le_trans (hparts hpart).1.reaches.mark_le ih.1, (hparts hpart).2.append ih.1 ih.2⟩

theorem SeparatorRun.cutsBehind {separator : Option (Grammar α)} {cursor : Cursor}
    {outcome : Outcome (Node α)} {steps : List (Step α)}
    (h : SeparatorRun Tried separator cursor outcome steps) :
    cursor.mark ≤ outcome.cursor.mark ∧ CutsBehind outcome.cursor.mark steps := by
  cases h with
  | none => exact ⟨Nat.le_refl _, cutsBehind_nil⟩
  | some hpart => exact ⟨(hparts hpart).1.reaches.mark_le, (hparts hpart).2⟩

theorem ItemsRun.cutsBehind {item : Grammar α} {separator : Option (Grammar α)} {start : Cursor}
    {min : Nat} {cursor : Cursor} {outcome : Outcome (List (Node α))} {steps : List (Step α)}
    (h : ItemsRun Tried item separator start min cursor outcome steps) :
    cursor.mark ≤ outcome.cursor.mark ∧ CutsBehind outcome.cursor.mark steps := by
  induction h with
  | committed hitem | short hitem | ended hitem =>
      exact ⟨(hparts hitem).1.reaches.mark_le, (hparts hitem).2⟩
  | separatorCommitted hitem _ hseparator | separatorEnded hitem _ hseparator
  | stuck hitem _ hseparator =>
      obtain ⟨hle, hbetween⟩ := hseparator.cutsBehind hparts
      exact ⟨Nat.le_trans (hparts hitem).1.reaches.mark_le hle, (hparts hitem).2.append hle hbetween⟩
  | next hitem _ hseparator _ _ _ ih =>
      obtain ⟨hle, hbetween⟩ := hseparator.cutsBehind hparts
      have hitemLe := (hparts hitem).1.reaches.mark_le
      refine ⟨Nat.le_trans hitemLe (Nat.le_trans hle ih.1), ?_⟩
      exact ((hparts hitem).2.append hle hbetween).append ih.1 ih.2

theorem LevelRun.cutsBehind {rules : Rules α} {grammar : Grammar α} {cursor : Cursor}
    {outcome : Outcome (Node α)} {inner : List (Step α)}
    (h : LevelRun Tried rules grammar cursor outcome inner) :
    CutsBehind outcome.cursor.mark
      (.entered grammar cursor :: (inner ++ [.left grammar cursor outcome])) := by
  cases h with
  | scan | undefined => exact cutsBehind_nil.enclose nofun
  | cut => exact cutsBehind_nil.enclose fun _ => Nat.le_max_right _ _
  | seq hrun | seqCommitted hrun | seqFailed hrun => exact (hrun.cutsBehind hparts).enclose nofun
  | any hrun => exact (hrun.cutsBehind hparts).2.enclose nofun
  | many hrun => exact (hrun.cutsBehind hparts).2.enclose nofun
  | maybe hpart | maybeCommitted hpart | maybeFailed hpart | label hpart | labelCommitted hpart
  | labelFailed hpart | named hpart | map hpart | bind hpart | merge hpart | tight hpart
  | rule _ hpart => exact (hparts hpart).2.enclose nofun

end Level

variable {rules : Rules α} {grammar : Grammar α} {cursor : Cursor} {outcome : Outcome (Node α)}
  {steps : List (Step α)}

theorem Runs.reportsAhead (h : Runs rules grammar cursor outcome steps) :
    outcome.ReportsAhead cursor :=
  h.induction (P := fun _ cursor outcome _ => outcome.ReportsAhead cursor)
    fun hlevel => hlevel.reportsAhead fun hpart => hpart

theorem Returns.reportsAhead (h : Returns rules grammar cursor outcome) :
    outcome.ReportsAhead cursor := by
  obtain ⟨steps, hruns⟩ := h.exists_runs
  exact hruns.reportsAhead

theorem Runs.cutsBehind (h : Runs rules grammar cursor outcome steps) :
    CutsBehind outcome.cursor.mark steps :=
  h.induction (P := fun _ _ outcome steps => CutsBehind outcome.cursor.mark steps)
    fun hlevel => hlevel.cutsBehind fun hpart => ⟨hpart.1.returns.contract, hpart.2⟩

-- What is reported lies neither behind what has been consumed nor behind any cut of the run, and
-- within the text.
theorem failures_lie_ahead (h : Runs rules grammar cursor outcome steps) (hsound : cursor.Sound)
    (hmark : cursor.mark ≤ cursor.pos) :
    (∀ failure, outcome.result = .error failure →
      cursor.pos ≤ outcome.cursor.pos ∧ outcome.cursor.pos ≤ failure.pos ∧
        outcome.cursor.mark ≤ failure.pos ∧ failure.pos ≤ byteSize cursor.input) ∧
    (∀ node, outcome.result = .ok node →
      outcome.cursor.mark ≤ outcome.cursor.pos ∧
        outcome.cursor.pos ≤ byteSize cursor.input) ∧
    (∀ error, (Answer.ofOutcome outcome).error = some error →
      outcome.cursor.mark ≤ error.pos ∧ CutsBehind error.pos steps) := by
  have hreaches := h.returns.contract.reaches
  have hfailure (failure) (hfailure : outcome.result = .error failure) :
      outcome.cursor.pos ≤ failure.pos ∧ outcome.cursor.mark ≤ failure.pos ∧
        failure.pos ≤ byteSize cursor.input := by
    obtain ⟨hpos, hcommitted, hend⟩ := h.reportsAhead failure hfailure
    exact ⟨hpos, hcommitted hmark, hsound.pos_add_eq ▸ hend⟩
  have hmatch (node) (hnode : outcome.result = .ok node) :
      outcome.cursor.mark ≤ outcome.cursor.pos := h.returns.mark_le_of_ok hnode hmark
  refine ⟨fun failure hresult => ⟨hreaches.pos_le, hfailure failure hresult⟩, ?_, ?_⟩
  · intro node hnode
    exact ⟨hmatch node hnode, hreaches.input ▸ (hsound.of_reaches hreaches).pos_le⟩
  · intro error herror
    suffices hle : outcome.cursor.mark ≤ error.pos from ⟨hle, h.cutsBehind.mono hle⟩
    cases hresult : outcome.result with
    | error failure =>
        simp only [Answer.ofOutcome, hresult, Option.some.injEq] at herror
        rw [← herror]
        exact (hfailure failure hresult).2.1
    | ok node =>
        simp only [Answer.ofOutcome, hresult] at herror
        split at herror
        · cases herror
        · cases herror
          exact Nat.le_trans (hmatch node hresult) outcome.cursor.reaches_skipBlank.pos_le

-- The first alternative gets further than the second one, which crosses a cut after it has failed.
theorem failures_lie_ahead_of_later_cut :
    let start := Cursor.ofInput [' ', 'a', 'b', 'c'] .ascii
    let choice : Grammar Unit := .any [.seq [.exact "b", .exact "x"], .seq [.cut, .exact "y"]]
    let failure : Failure := ⟨3, "x"⟩
    let stop : Outcome (Node Unit) :=
      ⟨.error failure, { start with pos := 2, rest := ['b', 'c'], mark := 2 }, []⟩
    ∃ steps, (Runs {} (.seq [.exact "a", choice]) start stop steps ∧ start.Sound ∧
        start.mark ≤ start.pos) ∧
      (start.pos ≤ stop.cursor.pos ∧ stop.cursor.pos ≤ failure.pos ∧
        stop.cursor.mark ≤ failure.pos ∧ failure.pos ≤ byteSize start.input) ∧
      CutsBehind failure.pos steps := by
  intro start choice failure stop
  have hreturns : Returns {} (.seq [.exact "a", choice]) start stop := by
    simp only [start, choice, stop, failure]
    exact ⟨4, rfl⟩
  obtain ⟨steps, hruns⟩ := hreturns.exists_runs
  have hsound : start.Sound := Cursor.sound_ofInput _ _
  have hmark : start.mark ≤ start.pos := by decide
  obtain ⟨hfailure, -, herror⟩ := failures_lie_ahead hruns hsound hmark
  refine ⟨steps, ⟨hruns, hsound, hmark⟩, hfailure failure rfl, ?_⟩
  exact (herror (.unmatched failure) rfl).2

end Grammar

end Descent
