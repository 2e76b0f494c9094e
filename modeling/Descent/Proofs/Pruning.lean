import Descent.Answer
import Descent.Proofs.Retreat

namespace Descent

variable {α β : Type}

def Cursor.withMark (cursor : Cursor) (mark : Nat) : Cursor := { cursor with mark := mark }

def Outcome.withMark (outcome : Outcome β) (mark : Nat) : Outcome β :=
  { outcome with cursor := outcome.cursor.withMark mark }

-- It matched, or it failed with a way back to `start`.
def Outcome.Revocable (start : Cursor) (outcome : Outcome β) : Prop :=
  ∀ failure, outcome.result = .error failure → outcome.cursor.mark ≤ start.pos

namespace Outcome.Revocable

variable {start later : Cursor} {outcome : Outcome β}

theorem of_ok {value : β} (h : outcome.result = .ok value) : outcome.Revocable start := by
  intro failure hfailure
  simp [h] at hfailure

theorem of_map {f : β → α} (h : (outcome.map f).Revocable start) : outcome.Revocable start :=
  fun failure hfailure => h failure (map_result_eq_error_iff.mpr hfailure)

theorem mono (h : outcome.Revocable start) (hpos : start.pos ≤ later.pos) :
    outcome.Revocable later := fun failure hfailure => Nat.le_trans (h failure hfailure) hpos

end Outcome.Revocable

namespace Grammar

-- Matches where it stands, and leaves it at that.
def nothing : Grammar α := map (fun _ => .empty) (seq [])

mutual

-- The grammar with nothing in place of its cuts.
def uncut : Grammar α → Grammar α
  | scan scanner => scan scanner
  | cut => nothing
  | seq parts => seq (uncutAll parts)
  | any alternatives => any (uncutAll alternatives)
  | many item separator min => many item.uncut (uncutOption separator) min
  | maybe part => maybe part.uncut
  | label name part => label name part.uncut
  | named name part => named name part.uncut
  | map f part => map f part.uncut
  | bind value part => bind value part.uncut
  | merge part => merge part.uncut
  | tight part => tight part.uncut
  | rule name => rule name

def uncutAll : List (Grammar α) → List (Grammar α)
  | [] => []
  | part :: rest => part.uncut :: uncutAll rest

def uncutOption : Option (Grammar α) → Option (Grammar α)
  | none => none
  | some part => some part.uncut

end

end Grammar

namespace Rules

def uncut (rules : Rules α) : Rules α :=
  ⟨rules.definitions.map fun (name, grammar) => (name, grammar.uncut)⟩

theorem definition?_uncut (rules : Rules α) (name : String) :
    rules.uncut.definition? name = (rules.definition? name).map Grammar.uncut :=
  SortedMap.find?_map Grammar.uncut name rules.definitions

end Rules

namespace Grammar

theorem returns_nothing (rules : Rules α) (cursor : Cursor) :
    Returns rules nothing cursor (.ok .empty cursor) := ⟨2, rfl⟩

theorem scanStart_withMark (scanner : Scanner) (cursor : Cursor) (mark : Nat) :
    scanStart scanner (cursor.withMark mark) = (scanStart scanner cursor).withMark mark := by
  have hskips : (cursor.withMark mark).skips = cursor.skips := rfl
  unfold scanStart
  rw [hskips]
  cases scanner.keepsBlank cursor.skips with
  | true => rfl
  | false => rfl

theorem attemptScan_withMark (scanner : Scanner) (cursor : Cursor) (mark : Nat) :
    (attemptScan scanner (cursor.withMark mark) : Outcome (Node α)) =
      (attemptScan scanner cursor).withMark mark := by
  have hpolicy : (cursor.withMark mark).policy = cursor.policy := rfl
  have hrest (start : Cursor) : (start.withMark mark).rest = start.rest := rfl
  simp only [attemptScan, scanStart_withMark, hpolicy, hrest]
  cases scanner.lex (α := α) cursor.policy (scanStart scanner cursor).rest with
  | ok lexeme => rfl
  | error miss => rfl

-- Where the attempt does not fail for good, the grammar without its cuts does the same. It leaves
-- the mark alone, wherever that is.
def KeptUncut (rules : Rules α) (grammar : Grammar α) (cursor : Cursor)
    (outcome : Outcome (Node α)) : Prop :=
  cursor.mark ≤ cursor.pos → outcome.Revocable cursor → ∀ mark, mark ≤ cursor.pos →
    ∃ steps, Runs rules.uncut grammar.uncut (cursor.withMark mark) (outcome.withMark mark) steps

section Level

variable {rules : Rules α} {Tried : Grammar α → Cursor → Outcome (Node α) → List (Step α) → Prop}
  (hparts : ∀ {part cursor outcome steps}, Tried part cursor outcome steps →
    Runs rules part cursor outcome steps ∧ KeptUncut rules part cursor outcome)

include hparts

-- In each of the following an attempt that fails for good is ruled out by what the whole comes to;
-- every other decision depends on positions only, because nothing is committed to without cuts.

theorem PartsRun.uncut {parts : List (Grammar α)} {cursor : Cursor}
    {outcome : Outcome (List (Node α))} {steps : List (Step α)}
    (h : PartsRun Tried parts cursor outcome steps) (hle : cursor.mark ≤ cursor.pos)
    (hrevocable : outcome.Revocable cursor) {mark : Nat} (hmark : mark ≤ cursor.pos) :
    ∃ steps, PartsRun (Runs rules.uncut) (uncutAll parts) (cursor.withMark mark)
      (outcome.withMark mark) steps := by
  induction h with
  | nil => exact ⟨_, .nil⟩
  | failed hpart hresult =>
      obtain ⟨_, hruns⟩ := (hparts hpart).2 hle (fun _ _ => hrevocable _ rfl) mark hmark
      exact ⟨_, .failed hruns hresult⟩
  | cons hpart hresult _ ih =>
      obtain ⟨hpartRuns, hkept⟩ := hparts hpart
      have hmiddle := hpartRuns.returns.mark_le_of_ok hresult hle
      have hpos := hpartRuns.returns.contract.reaches.pos_le
      obtain ⟨_, hruns⟩ := hkept hle (.of_ok hresult) mark hmark
      obtain ⟨_, hrest⟩ := ih hmiddle (hrevocable.of_map.mono hpos) (Nat.le_trans hmark hpos)
      exact ⟨_, .cons hruns hresult hrest⟩

theorem AnyRun.uncut {start : Cursor} {best : Option Failure} {alternatives : List (Grammar α)}
    {cursor : Cursor} {outcome : Outcome (Node α)} {steps : List (Step α)}
    (h : AnyRun Tried start best alternatives cursor outcome steps)
    (hstart : start.pos = cursor.pos) (hle : cursor.mark ≤ cursor.pos)
    (hrevocable : outcome.Revocable start) {mark : Nat}
    (hmark : mark ≤ (start.withMark mark).pos) :
    ∃ steps, AnyRun (Runs rules.uncut) (start.withMark mark) best (uncutAll alternatives)
      (cursor.withMark mark) (outcome.withMark mark) steps := by
  induction h with
  | exhausted => exact ⟨_, .exhausted⟩
  | matched hpart hresult =>
      obtain ⟨_, hruns⟩ := (hparts hpart).2 hle (.of_ok hresult) mark (hstart ▸ hmark)
      exact ⟨_, .matched hruns hresult⟩
  | committed _ hresult hlt => exact absurd (hrevocable _ hresult) (Nat.not_le_of_lt hlt)
  | next hpart hresult hback _ ih =>
      obtain ⟨_, hruns⟩ := (hparts hpart).2 hle (fun _ _ => hstart ▸ hback) mark (hstart ▸ hmark)
      obtain ⟨_, hrest⟩ := ih rfl hback hrevocable
      exact ⟨_, .next hruns hresult hmark hrest⟩

theorem SeparatorRun.uncut {separator : Option (Grammar α)} {cursor : Cursor}
    {outcome : Outcome (Node α)} {steps : List (Step α)}
    (h : SeparatorRun Tried separator cursor outcome steps) (hle : cursor.mark ≤ cursor.pos)
    (hrevocable : outcome.Revocable cursor) {mark : Nat} (hmark : mark ≤ cursor.pos) :
    ∃ steps, SeparatorRun (Runs rules.uncut) (uncutOption separator) (cursor.withMark mark)
      (outcome.withMark mark) steps := by
  cases h with
  | none => exact ⟨_, .none⟩
  | some hpart =>
      obtain ⟨_, hruns⟩ := (hparts hpart).2 hle hrevocable mark hmark
      exact ⟨_, .some hruns⟩

-- An item together with the separator behind it.
private theorem item_and_separator_uncut {item : Grammar α} {separator : Option (Grammar α)}
    {cursor : Cursor} {outcome between : Outcome (Node α)} {node : Node α}
    {steps later : List (Step α)} (hitem : Tried item cursor outcome steps)
    (hresult : outcome.result = .ok node)
    (hseparator : SeparatorRun Tried separator outcome.cursor between later)
    (hle : cursor.mark ≤ cursor.pos) (hrevocable : between.Revocable outcome.cursor) {mark : Nat}
    (hmark : mark ≤ cursor.pos) :
    mark ≤ outcome.cursor.pos ∧
      ∃ steps later,
        Runs rules.uncut item.uncut (cursor.withMark mark) (outcome.withMark mark) steps ∧
        SeparatorRun (Runs rules.uncut) (uncutOption separator) (outcome.withMark mark).cursor
          (between.withMark mark) later := by
  obtain ⟨hruns, hkept⟩ := hparts hitem
  have hmiddle := hruns.returns.mark_le_of_ok hresult hle
  have hmark' := Nat.le_trans hmark hruns.returns.contract.reaches.pos_le
  obtain ⟨steps, hitem'⟩ := hkept hle (.of_ok hresult) mark hmark
  obtain ⟨later, hseparator'⟩ := hseparator.uncut hparts hmiddle hrevocable hmark'
  exact ⟨hmark', steps, later, hitem', hseparator'⟩

theorem ItemsRun.uncut {item : Grammar α} {separator : Option (Grammar α)} {start : Cursor}
    {min : Nat} {cursor : Cursor} {outcome : Outcome (List (Node α))} {steps : List (Step α)}
    (h : ItemsRun Tried item separator start min cursor outcome steps)
    (hstart : start.pos ≤ cursor.pos) (hle : cursor.mark ≤ cursor.pos)
    (hrevocable : outcome.Revocable start) {mark : Nat} (hmark : mark ≤ start.pos) :
    ∃ steps, ItemsRun (Runs rules.uncut) item.uncut (uncutOption separator)
      (start.withMark mark) min (cursor.withMark mark) (outcome.withMark mark) steps := by
  have hcontract {part cursor outcome steps} (hpart : Tried part cursor outcome steps) :=
    (hparts hpart).1.returns.contract
  induction h with
  | committed hitem hresult hlt =>
      have hback := hrevocable _ rfl
      simp only at hback
      omega
  | @short min cursor outcome steps failure hitem hresult hback hmin =>
      have hmark' : mark ≤ (cursor.withMark mark).pos := Nat.le_trans hmark hstart
      obtain ⟨_, hitem'⟩ := (hparts hitem).2 hle (fun _ _ => hback) mark hmark'
      exact ⟨_, .short hitem' hresult hmark' hmin⟩
  | @ended cursor outcome steps failure hitem hresult hback =>
      have hmark' : mark ≤ (cursor.withMark mark).pos := Nat.le_trans hmark hstart
      obtain ⟨_, hitem'⟩ := (hparts hitem).2 hle (fun _ _ => hback) mark hmark'
      exact ⟨_, .ended hitem' hresult hmark'⟩
  | separatorCommitted hitem hresult hseparator hseparated hlt =>
      have hback := hrevocable _ rfl
      have hpos := (hcontract hitem).reaches.pos_le
      simp only at hback
      omega
  | separatorEnded hitem hresult hseparator hseparated hback =>
      obtain ⟨hmark', _, _, hitem', hseparator'⟩ := item_and_separator_uncut hparts hitem hresult
        hseparator hle (fun _ _ => hback) (Nat.le_trans hmark hstart)
      exact ⟨_, .separatorEnded hitem' hresult hseparator' hseparated hmark'⟩
  | stuck hitem hresult hseparator hseparated hstuck =>
      obtain ⟨_, _, _, hitem', hseparator'⟩ := item_and_separator_uncut hparts hitem hresult
        hseparator hle (.of_ok hseparated) (Nat.le_trans hmark hstart)
      exact ⟨_, .stuck hitem' hresult hseparator' hseparated hstuck⟩
  | next hitem hresult hseparator hseparated hmoved _ ih =>
      obtain ⟨_, _, _, hitem', hseparator'⟩ := item_and_separator_uncut hparts hitem hresult
        hseparator hle (.of_ok hseparated) (Nat.le_trans hmark hstart)
      have hpos := (hcontract hitem).reaches.pos_le
      have hpos' := (hseparator.contract hcontract).reaches.pos_le
      have hmiddle := (hparts hitem).1.returns.mark_le_of_ok hresult hle
      have hruns := hseparator.mono fun _ _ _ _ hpart => (hparts hpart).1
      have hbetween := hruns.mark_le_of_ok hseparated hmiddle
      obtain ⟨_, hrest⟩ := ih (by omega) hbetween hrevocable.of_map
      exact ⟨_, .next hitem' hresult hseparator' hseparated hmoved hrest⟩

theorem LevelRun.uncut {grammar : Grammar α} {cursor : Cursor} {outcome : Outcome (Node α)}
    {inner : List (Step α)} (h : LevelRun Tried rules grammar cursor outcome inner) :
    KeptUncut rules grammar cursor outcome := by
  intro hle hrevocable mark hmark
  cases h with
  | @scan scanner =>
      rw [← attemptScan_withMark]
      exact exists_runs_of_level ⟨_, .scan⟩
  | cut => exact (returns_nothing rules.uncut _).exists_runs
  | seq hrun hresult =>
      obtain ⟨_, hrun'⟩ := hrun.uncut hparts hle (.of_ok hresult) hmark
      exact exists_runs_of_level ⟨_, .seq hrun' hresult⟩
  | seqCommitted _ _ hlt => exact absurd (hrevocable _ rfl) (Nat.not_le_of_lt hlt)
  | seqFailed hrun hresult hback =>
      obtain ⟨_, hrun'⟩ := hrun.uncut hparts hle (fun _ _ => hback) hmark
      exact exists_runs_of_level ⟨_, .seqFailed hrun' hresult hmark⟩
  | any hrun =>
      obtain ⟨_, hrun'⟩ := hrun.uncut hparts rfl hle hrevocable hmark
      exact exists_runs_of_level ⟨_, .any hrun'⟩
  | many hrun =>
      obtain ⟨_, hrun'⟩ := hrun.uncut hparts (Nat.le_refl _) hle hrevocable.of_map hmark
      exact exists_runs_of_level ⟨_, .many hrun'⟩
  | maybe hpart hresult =>
      obtain ⟨_, hpart'⟩ := (hparts hpart).2 hle hrevocable mark hmark
      exact exists_runs_of_level ⟨_, .maybe hpart' hresult⟩
  | maybeCommitted _ hresult hlt | labelCommitted _ hresult hlt =>
      exact absurd (hrevocable _ hresult) (Nat.not_le_of_lt hlt)
  | maybeFailed hpart hresult hback =>
      obtain ⟨_, hpart'⟩ := (hparts hpart).2 hle (fun _ _ => hback) mark hmark
      exact exists_runs_of_level ⟨_, .maybeFailed hpart' hresult hmark⟩
  | label hpart hresult =>
      obtain ⟨_, hpart'⟩ := (hparts hpart).2 hle hrevocable mark hmark
      exact exists_runs_of_level ⟨_, .label hpart' hresult⟩
  | labelFailed hpart hresult hback =>
      obtain ⟨_, hpart'⟩ := (hparts hpart).2 hle (fun _ _ => hback) mark hmark
      exact exists_runs_of_level ⟨_, .labelFailed hpart' hresult hmark⟩
  | named hpart =>
      obtain ⟨_, hpart'⟩ := (hparts hpart).2 hle hrevocable mark hmark
      exact exists_runs_of_level ⟨_, .named hpart'⟩
  | map hpart =>
      obtain ⟨_, hpart'⟩ := (hparts hpart).2 hle hrevocable.of_map mark hmark
      exact exists_runs_of_level ⟨_, .map hpart'⟩
  | bind hpart =>
      obtain ⟨_, hpart'⟩ := (hparts hpart).2 hle hrevocable.of_map mark hmark
      exact exists_runs_of_level ⟨_, .bind hpart'⟩
  | merge hpart =>
      obtain ⟨_, hpart'⟩ := (hparts hpart).2 hle hrevocable.of_map mark hmark
      exact exists_runs_of_level ⟨_, .merge hpart'⟩
  | tight hpart =>
      obtain ⟨_, hpart'⟩ := (hparts hpart).2 hle hrevocable mark hmark
      have hlevel : LevelRun (Runs rules.uncut) rules.uncut _ (cursor.withMark mark) _ _ :=
        .tight hpart'
      exact exists_runs_of_level ⟨_, hlevel⟩
  | undefined hdefinition =>
      refine exists_runs_of_level ⟨_, .undefined ?_⟩
      rw [Rules.definition?_uncut, hdefinition, Option.map_none]
  | rule hdefinition hpart =>
      obtain ⟨_, hpart'⟩ := (hparts hpart).2 hle hrevocable mark hmark
      refine exists_runs_of_level ⟨_, .rule ?_ hpart'⟩
      rw [Rules.definition?_uncut, hdefinition, Option.map_some]

end Level

variable {rules : Rules α} {grammar : Grammar α} {cursor : Cursor} {outcome : Outcome (Node α)}

theorem Runs.keptUncut {steps : List (Step α)} (h : Runs rules grammar cursor outcome steps) :
    KeptUncut rules grammar cursor outcome :=
  h.induction fun hlevel => hlevel.uncut fun hpart => hpart

theorem Returns.uncut (h : Returns rules grammar cursor outcome) (hle : cursor.mark ≤ cursor.pos)
    (hrevocable : outcome.Revocable cursor) :
    Returns rules.uncut grammar.uncut cursor (outcome.withMark cursor.mark) := by
  obtain ⟨steps, hruns⟩ := h.exists_runs
  obtain ⟨_, huncut⟩ := hruns.keptUncut hle hrevocable cursor.mark hle
  exact huncut.returns

-- A grammar accepts no more with its cuts than without them, and yields the same where it does. The
-- same goes for a failure with a way back.
theorem cuts_only_prune {plain : Outcome (Node α)} (h : Returns rules grammar cursor outcome)
    (hplain : Returns rules.uncut grammar.uncut cursor plain) (hle : cursor.mark ≤ cursor.pos) :
    (∀ node, outcome.result = .ok node →
      plain.result = .ok node ∧ plain.cursor.toPlace = outcome.cursor.toPlace) ∧
    (∀ failure, outcome.result = .error failure → outcome.cursor.mark ≤ cursor.pos →
      plain.result = .error failure ∧ plain.cursor.toPlace = outcome.cursor.toPlace) ∧
    ((Answer.ofOutcome outcome).isOk → Answer.ofOutcome plain = Answer.ofOutcome outcome) := by
  have hsame (hrevocable : outcome.Revocable cursor) : plain = outcome.withMark cursor.mark :=
    hplain.unique (h.uncut hle hrevocable)
  refine ⟨fun node hnode => ?_, fun failure hfailure hmark => ?_, fun haccepted => ?_⟩
  · rw [hsame (.of_ok hnode)]
    exact ⟨hnode, rfl⟩
  · rw [hsame fun _ _ => hmark]
    exact ⟨hfailure, rfl⟩
  · cases hresult : outcome.result with
    | ok node =>
        rw [hsame (.of_ok hresult)]
        rfl
    | error failure => simp [Answer.ofOutcome, Answer.isOk, hresult] at haccepted

-- The option commits itself at its end, and then what is behind it matches.
theorem cuts_only_prune_behind_option :
    let start := Cursor.ofInput ['a', 'b'] .ascii
    let grammar : Grammar Unit := .seq [.maybe (.seq [.exact "a", .cut]), .exact "b"]
    let node : Node Unit := .children [.children [.token "a", .empty], .token "b"]
    let stop : Outcome (Node Unit) := .ok node { start with pos := 2, rest := [], mark := 1 }
    let plain : Outcome (Node Unit) := .ok node { start with pos := 2, rest := [] }
    (Returns {} grammar start stop ∧ Returns (Rules.uncut {}) grammar.uncut start plain ∧
      start.mark ≤ start.pos) ∧
    (plain.result = .ok node ∧ plain.cursor.toPlace = stop.cursor.toPlace) ∧
    Answer.ofOutcome plain = Answer.ofOutcome stop := by
  intro start grammar node stop plain
  have hreturns : Returns {} grammar start stop := ⟨4, rfl⟩
  have hplain : Returns (Rules.uncut {}) grammar.uncut start plain := ⟨5, rfl⟩
  have hmark : start.mark ≤ start.pos := by decide
  obtain ⟨hok, -, hanswer⟩ := cuts_only_prune hreturns hplain hmark
  exact ⟨⟨hreturns, hplain, hmark⟩, hok node rfl, hanswer (by decide)⟩

end Grammar

end Descent
