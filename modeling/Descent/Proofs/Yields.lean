import Descent.Proofs.LeftRecursion
import Descent.Proofs.Retreat

namespace Descent.Grammar

variable {α : Type}

-- What trying a grammar comes to and where it leaves the cursor, whatever happens to named parts
-- on the way.
def Yields (rules : Rules α) (grammar : Grammar α) (cursor : Cursor)
    (result : Except Failure (Node α)) (stop : Cursor) : Prop :=
  ∃ events, Returns rules grammar cursor ⟨result, stop, events⟩

-- Parts one after the other, up to the first that fails.
inductive Follow (rules : Rules α) :
    List (Grammar α) → Cursor → Except Failure (List (Node α)) → Cursor → Prop
  | nil {cursor} : Follow rules [] cursor (.ok []) cursor
  | failed {part rest cursor failure stop} :
      Yields rules part cursor (.error failure) stop →
      Follow rules (part :: rest) cursor (.error failure) stop
  | cons {part rest cursor node middle result stop} :
      Yields rules part cursor (.ok node) middle → Follow rules rest middle result stop →
      Follow rules (part :: rest) cursor (result.map (node :: ·)) stop

def Separates (rules : Rules α) :
    Option (Grammar α) → Cursor → Except Failure (Node α) → Cursor → Prop
  | none, cursor, result, stop => result = .ok .empty ∧ stop = cursor
  | some separator, cursor, result, stop => Yields rules separator cursor result stop

-- Items as long as they match, where none are needed.
inductive Repeats (rules : Rules α) (item : Grammar α) (separator : Option (Grammar α)) :
    Cursor → Except Failure (List (Node α)) → Cursor → Prop
  | committed {cursor failure stop} :
      Yields rules item cursor (.error failure) stop → cursor.pos < stop.mark →
      Repeats rules item separator cursor (.error failure) stop
  | ended {cursor failure stop} :
      Yields rules item cursor (.error failure) stop → stop.mark ≤ cursor.pos →
      Repeats rules item separator cursor (.ok []) stop
  | separatorCommitted {cursor node middle failure stop} :
      Yields rules item cursor (.ok node) middle →
      Separates rules separator middle (.error failure) stop → middle.pos < stop.mark →
      Repeats rules item separator cursor (.error failure) stop
  | separatorEnded {cursor node middle failure stop} :
      Yields rules item cursor (.ok node) middle →
      Separates rules separator middle (.error failure) stop → stop.mark ≤ middle.pos →
      Repeats rules item separator cursor (.ok [node]) stop
  | stuck {cursor node middle separated stop} :
      Yields rules item cursor (.ok node) middle →
      Separates rules separator middle (.ok separated) stop → stop.pos = cursor.pos →
      Repeats rules item separator cursor (.ok [node]) stop
  | next {cursor node middle separated behind result stop} :
      Yields rules item cursor (.ok node) middle →
      Separates rules separator middle (.ok separated) behind → behind.pos ≠ cursor.pos →
      Repeats rules item separator behind result stop →
      Repeats rules item separator cursor (result.map (node :: ·)) stop

section Yields

variable {rules : Rules α} {grammar : Grammar α} {cursor stop : Cursor}
  {result : Except Failure (Node α)} {node : Node α} {failure : Failure}
  {outcome : Outcome (Node α)} {steps : List (Step α)}

theorem Returns.yields (h : Returns rules grammar cursor outcome) :
    Yields rules grammar cursor outcome.result outcome.cursor := ⟨outcome.events, h⟩

theorem Runs.yields (h : Runs rules grammar cursor outcome steps) :
    Yields rules grammar cursor outcome.result outcome.cursor := h.returns.yields

theorem Yields.exists_runs (h : Yields rules grammar cursor result stop) :
    ∃ events steps, Runs rules grammar cursor ⟨result, stop, events⟩ steps := by
  obtain ⟨events, hreturns⟩ := h
  obtain ⟨steps, hruns⟩ := hreturns.exists_runs
  exact ⟨events, steps, hruns⟩

theorem Yields.exists_level (h : Yields rules grammar cursor result stop) :
    ∃ outcome steps, LevelRun (Runs rules) rules grammar cursor outcome steps ∧
      outcome.result = result ∧ outcome.cursor = stop := by
  obtain ⟨events, steps, hruns⟩ := h.exists_runs
  obtain ⟨inner, hlevel, -⟩ := hruns.levelRun
  exact ⟨_, inner, hlevel, rfl, rfl⟩

theorem yields_of_level (h : LevelRun (Runs rules) rules grammar cursor outcome steps) :
    Yields rules grammar cursor outcome.result outcome.cursor := by
  obtain ⟨_, hruns⟩ := exists_runs_of_level ⟨steps, h⟩
  exact hruns.yields

theorem Yields.unique {other : Except Failure (Node α)} {otherStop : Cursor}
    (h : Yields rules grammar cursor result stop)
    (hother : Yields rules grammar cursor other otherStop) : result = other ∧ stop = otherStop := by
  obtain ⟨events, h⟩ := h
  obtain ⟨otherEvents, hother⟩ := hother
  cases h.unique hother
  exact ⟨rfl, rfl⟩

-- Nothing but what is known to come out comes out.
theorem Yields.iff {other : Except Failure (Node α)} {otherStop : Cursor}
    (h : Yields rules grammar cursor result stop) :
    Yields rules grammar cursor other otherStop ↔ other = result ∧ otherStop = stop := by
  constructor
  · intro hother
    exact hother.unique h
  · intro ⟨hresult, hstop⟩
    rwa [hresult, hstop]

theorem Yields.reaches (h : Yields rules grammar cursor result stop) : cursor.Reaches stop := by
  obtain ⟨events, hreturns⟩ := h
  exact hreturns.contract.reaches

theorem Yields.mark_le (h : Yields rules grammar cursor (.ok node) stop)
    (hmark : cursor.mark ≤ cursor.pos) : stop.mark ≤ stop.pos := by
  obtain ⟨events, hreturns⟩ := h
  exact hreturns.mark_le_of_ok rfl hmark

-- A failure that has not committed itself is back at the start.
theorem Yields.toPlace_eq (h : Yields rules grammar cursor (.error failure) stop)
    (hmark : stop.mark ≤ cursor.pos) : stop.toPlace = cursor.toPlace := by
  obtain ⟨events, hreturns⟩ := h
  exact (hreturns.contract.back failure rfl).resolve_right (Nat.not_lt_of_le hmark)

theorem Yields.rewind (h : Yields rules grammar cursor (.error failure) stop)
    (hmark : stop.mark ≤ cursor.pos) : stop.rewind cursor.toPlace = stop := by
  rw [Cursor.rewind, ← h.toPlace_eq hmark]

-- The grammar never matches without moving on.
def Consumes (rules : Rules α) (grammar : Grammar α) : Prop :=
  ∀ cursor node stop, Yields rules grammar cursor (.ok node) stop → cursor.pos < stop.pos

theorem consumes_of_not_passable (h : ¬ Passable rules grammar) : Consumes rules grammar := by
  intro cursor node stop hyields
  have hle := hyields.reaches.pos_le
  obtain ⟨events, hreturns⟩ := hyields
  exact Nat.lt_of_le_of_ne hle fun hpos => h (hreturns.passable rfl hpos.symm)

theorem Consumes.rest_length_lt (h : Consumes rules grammar)
    (hyields : Yields rules grammar cursor (.ok node) stop) :
    stop.rest.length < cursor.rest.length :=
  hyields.reaches.place.rest_length_lt (Nat.ne_of_gt (h _ _ _ hyields))

end Yields

section Terms

variable {rules : Rules α} {part : Grammar α} {cursor stop : Cursor}
  {result : Except Failure (Node α)} {node : Node α} {failure : Failure}

theorem yields_scan_iff {scanner : Scanner} :
    Yields rules (.scan scanner) cursor result stop ↔
      (attemptScan scanner cursor).result = result ∧
        (attemptScan (α := α) scanner cursor).cursor = stop := by
  constructor
  · intro h
    obtain ⟨outcome, steps, hlevel, hresult, hstop⟩ := h.exists_level
    cases hlevel
    exact ⟨hresult, hstop⟩
  · rintro ⟨rfl, rfl⟩
    exact yields_of_level .scan

section Lexemes

variable {scanner : Scanner} {start : Cursor} (hstart : scanStart scanner cursor = start)

include hstart

theorem yields_scan_of_lex {lexeme : Lexeme α}
    (hlex : scanner.lex cursor.policy start.rest = .ok lexeme) :
    Yields rules (.scan scanner) cursor (.ok lexeme.node)
      (start.rewind (start.toPlace.after lexeme.consumed lexeme.rest)) := by
  rw [yields_scan_iff, attemptScan, hstart]
  simp only [hlex]
  exact ⟨rfl, rfl⟩

theorem yields_scan_of_miss {miss : Miss}
    (hlex : scanner.lex (α := α) cursor.policy start.rest = .error miss) :
    Yields rules (.scan scanner) cursor (.error ⟨start.pos + miss.offset, miss.expected⟩)
      cursor := by
  rw [yields_scan_iff, attemptScan, hstart]
  simp only [hlex]
  exact ⟨rfl, rfl⟩

end Lexemes

theorem mark_eq_of_yields_scan {scanner : Scanner}
    (h : Yields rules (.scan scanner) cursor result stop) : stop.mark = cursor.mark := by
  obtain ⟨-, rfl⟩ := yields_scan_iff.mp h
  exact attemptScan_mark scanner cursor

theorem yields_cut : Yields rules .cut cursor (.ok .empty) cursor.commit := yields_of_level .cut

theorem yields_map_iff {f : Node α → Node α} :
    Yields rules (.map f part) cursor result stop ↔
      ∃ inner, Yields rules part cursor inner stop ∧ inner.map f = result := by
  constructor
  · intro h
    obtain ⟨outcome, steps, hlevel, hresult, hstop⟩ := h.exists_level
    cases hlevel with
    | map hpart =>
        rw [← hstop]
        exact ⟨_, hpart.yields, hresult⟩
  · rintro ⟨inner, hpart, rfl⟩
    obtain ⟨events, steps, hruns⟩ := hpart.exists_runs
    exact yields_of_level (.map hruns)

theorem Yields.of_map {f : Node α → Node α} (h : Yields rules (.map f part) cursor (.ok node) stop) :
    ∃ inner, Yields rules part cursor (.ok inner) stop ∧ f inner = node := by
  obtain ⟨inner, hpart, hresult⟩ := yields_map_iff.mp h
  cases inner with
  | error _ => cases hresult
  | ok inner =>
      cases hresult
      exact ⟨inner, hpart, rfl⟩

theorem Yields.of_map_error {f : Node α → Node α}
    (h : Yields rules (.map f part) cursor (.error failure) stop) :
    Yields rules part cursor (.error failure) stop := by
  obtain ⟨inner, hpart, hresult⟩ := yields_map_iff.mp h
  cases inner with
  | error _ =>
      cases hresult
      exact hpart
  | ok _ => cases hresult

theorem yields_bind_iff {value : Value α} :
    Yields rules (.bind value part) cursor result stop ↔
      ∃ inner, Yields rules part cursor inner stop ∧
        inner.map (fun _ => .value value) = result := by
  constructor
  · intro h
    obtain ⟨outcome, steps, hlevel, hresult, hstop⟩ := h.exists_level
    cases hlevel with
    | bind hpart =>
        rw [← hstop]
        exact ⟨_, hpart.yields, hresult⟩
  · rintro ⟨inner, hpart, rfl⟩
    obtain ⟨events, steps, hruns⟩ := hpart.exists_runs
    exact yields_of_level (.bind hruns)

theorem Yields.of_bind {value : Value α} (h : Yields rules (.bind value part) cursor (.ok node) stop) :
    ∃ inner, Yields rules part cursor (.ok inner) stop ∧ .value value = node := by
  obtain ⟨inner, hpart, hresult⟩ := yields_bind_iff.mp h
  cases inner with
  | error _ => cases hresult
  | ok inner =>
      cases hresult
      exact ⟨inner, hpart, rfl⟩

theorem Yields.of_bind_error {value : Value α}
    (h : Yields rules (.bind value part) cursor (.error failure) stop) :
    Yields rules part cursor (.error failure) stop := by
  obtain ⟨inner, hpart, hresult⟩ := yields_bind_iff.mp h
  cases inner with
  | error _ =>
      cases hresult
      exact hpart
  | ok _ => cases hresult

theorem yields_rule_iff {name : String} {definition : Grammar α}
    (hdefinition : rules.definition? name = some definition) :
    Yields rules (.rule name) cursor result stop ↔ Yields rules definition cursor result stop := by
  constructor
  · intro h
    obtain ⟨outcome, steps, hlevel, hresult, hstop⟩ := h.exists_level
    cases hlevel with
    | undefined hundefined => cases hdefinition.symm.trans hundefined
    | rule hdefined hpart =>
        cases hdefinition.symm.trans hdefined
        rw [← hresult, ← hstop]
        exact hpart.yields
  · intro h
    obtain ⟨events, steps, hruns⟩ := h.exists_runs
    exact yields_of_level (.rule hdefinition hruns)

-- Skipping is off inside and afterwards as it was.
theorem Yields.tight (h : Yields rules part (cursor.withAutoSkip false) result stop) :
    Yields rules (.tight part) cursor result (stop.withAutoSkip cursor.autoSkip) := by
  obtain ⟨events, steps, hruns⟩ := h.exists_runs
  exact yields_of_level (.tight hruns)

theorem Yields.maybe (h : Yields rules part cursor (.ok node) stop) :
    Yields rules (.maybe part) cursor (.ok node) stop := by
  obtain ⟨events, steps, hruns⟩ := h.exists_runs
  exact yields_of_level (.maybe hruns rfl)

theorem Yields.maybe_of_committed (h : Yields rules part cursor (.error failure) stop)
    (hmark : cursor.pos < stop.mark) : Yields rules (.maybe part) cursor (.error failure) stop := by
  obtain ⟨events, steps, hruns⟩ := h.exists_runs
  exact yields_of_level (.maybeCommitted hruns rfl hmark)

theorem Yields.maybe_of_back (h : Yields rules part cursor (.error failure) stop)
    (hmark : stop.mark ≤ cursor.pos) : Yields rules (.maybe part) cursor (.ok .empty) stop := by
  obtain ⟨events, steps, hruns⟩ := h.exists_runs
  have hmaybe := yields_of_level (.maybeFailed hruns rfl hmark)
  rwa [skipped, Outcome.back, h.rewind hmark] at hmaybe

end Terms

section Sequences

variable {rules : Rules α} {parts : List (Grammar α)} {cursor stop : Cursor}
  {result : Except Failure (List (Node α))} {nodes : List (Node α)} {failure : Failure}

theorem PartsRun.follow {outcome : Outcome (List (Node α))} {steps : List (Step α)}
    (h : PartsRun (Runs rules) parts cursor outcome steps) :
    Follow rules parts cursor outcome.result outcome.cursor := by
  induction h with
  | nil => exact .nil
  | failed hpart hresult =>
      refine .failed ?_
      rw [← hresult]
      exact hpart.yields
  | cons hpart hresult _ ih =>
      refine .cons ?_ ih
      rw [← hresult]
      exact hpart.yields

theorem Follow.exists_partsRun (h : Follow rules parts cursor result stop) :
    ∃ events steps, PartsRun (Runs rules) parts cursor ⟨result, stop, events⟩ steps := by
  induction h with
  | nil => exact ⟨[], [], .nil⟩
  | failed hpart =>
      obtain ⟨events, steps, hruns⟩ := hpart.exists_runs
      exact ⟨events, steps, .failed hruns rfl⟩
  | cons hpart _ ih =>
      obtain ⟨events, steps, hruns⟩ := hpart.exists_runs
      obtain ⟨later, laterSteps, hrest⟩ := ih
      exact ⟨_, _, .cons hruns rfl hrest⟩

theorem Follow.of_cons {part : Grammar α} {rest : List (Grammar α)}
    (h : Follow rules (part :: rest) cursor (.ok nodes) stop) :
    ∃ node middle others, nodes = node :: others ∧ Yields rules part cursor (.ok node) middle ∧
      Follow rules rest middle (.ok others) stop := by
  generalize hresult : Except.ok nodes = result at h
  cases h with
  | failed => cases hresult
  | @cons _ _ _ node middle inner _ hpart hrest =>
      cases inner with
      | error failure => cases hresult
      | ok others =>
          cases hresult
          exact ⟨node, middle, others, rfl, hpart, hrest⟩

theorem Follow.of_nil (h : Follow rules [] cursor (.ok nodes) stop) :
    nodes = [] ∧ stop = cursor := by
  cases h
  exact ⟨rfl, rfl⟩

theorem Follow.of_cons_error {part : Grammar α} {rest : List (Grammar α)}
    (h : Follow rules (part :: rest) cursor (.error failure) stop) :
    Yields rules part cursor (.error failure) stop ∨
      ∃ node middle, Yields rules part cursor (.ok node) middle ∧
        Follow rules rest middle (.error failure) stop := by
  generalize hresult : Except.error failure = result at h
  cases h with
  | failed hpart =>
      cases hresult
      exact .inl hpart
  | @cons _ _ _ node middle inner _ hpart hrest =>
      cases inner with
      | error _ =>
          cases hresult
          exact .inr ⟨node, middle, hpart, hrest⟩
      | ok _ => cases hresult

-- A cut always matches.
theorem Follow.of_cut {rest : List (Grammar α)}
    (h : Follow rules (.cut :: rest) cursor (.ok nodes) stop) :
    ∃ others, Follow rules rest cursor.commit (.ok others) stop ∧ nodes = .empty :: others := by
  obtain ⟨node, middle, others, rfl, hcut, hrest⟩ := h.of_cons
  obtain ⟨hnode, rfl⟩ := hcut.unique yields_cut
  cases hnode
  exact ⟨others, hrest, rfl⟩

theorem Follow.of_cut_error {rest : List (Grammar α)}
    (h : Follow rules (.cut :: rest) cursor (.error failure) stop) :
    Follow rules rest cursor.commit (.error failure) stop := by
  obtain hcut | ⟨node, middle, hcut, hrest⟩ := h.of_cons_error
  · cases (hcut.unique yields_cut).1
  · obtain ⟨-, rfl⟩ := hcut.unique yields_cut
    exact hrest

theorem Follow.yields_seq (h : Follow rules parts cursor (.ok nodes) stop) :
    Yields rules (.seq parts) cursor (.ok (.children nodes)) stop := by
  obtain ⟨events, steps, hrun⟩ := h.exists_partsRun
  exact yields_of_level (.seq hrun rfl)

theorem Follow.yields_seq_of_committed (h : Follow rules parts cursor (.error failure) stop)
    (hmark : cursor.pos < stop.mark) : Yields rules (.seq parts) cursor (.error failure) stop := by
  obtain ⟨events, steps, hrun⟩ := h.exists_partsRun
  exact yields_of_level (.seqCommitted hrun rfl hmark)

theorem Follow.yields_seq_of_back (h : Follow rules parts cursor (.error failure) stop)
    (hmark : stop.mark ≤ cursor.pos) :
    Yields rules (.seq parts) cursor (.error failure) (stop.rewind cursor.toPlace) := by
  obtain ⟨events, steps, hrun⟩ := h.exists_partsRun
  exact yields_of_level (.seqFailed hrun rfl hmark)

theorem Yields.follow {node : Node α} (h : Yields rules (.seq parts) cursor (.ok node) stop) :
    ∃ nodes, node = .children nodes ∧ Follow rules parts cursor (.ok nodes) stop := by
  obtain ⟨outcome, steps, hlevel, hresult, hstop⟩ := h.exists_level
  cases hlevel with
  | seq hrun hnodes =>
      cases hresult
      rw [← hstop]
      exact ⟨_, rfl, hnodes ▸ hrun.follow⟩
  | seqCommitted | seqFailed => cases hresult

theorem Yields.follow_of_error (h : Yields rules (.seq parts) cursor (.error failure) stop) :
    ∃ behind, Follow rules parts cursor (.error failure) behind ∧ stop.mark = behind.mark := by
  obtain ⟨outcome, steps, hlevel, hresult, hstop⟩ := h.exists_level
  cases hlevel with
  | seq => cases hresult
  | seqCommitted hrun hfailure | seqFailed hrun hfailure =>
      cases hresult
      have hfollow := hrun.follow
      rw [hfailure] at hfollow
      exact ⟨_, hfollow, hstop ▸ rfl⟩

theorem Follow.mark_eq_of_scans {scanners : List Scanner}
    (h : Follow rules (scanners.map .scan) cursor result stop) : stop.mark = cursor.mark := by
  induction scanners generalizing cursor result with
  | nil =>
      cases h
      rfl
  | cons scanner scanners ih =>
      cases h with
      | failed hscan => exact mark_eq_of_yields_scan hscan
      | cons hscan hrest => exact (ih hrest).trans (mark_eq_of_yields_scan hscan)

-- The grammar never fails behind a cut of its own.
def Withdraws (rules : Rules α) (grammar : Grammar α) : Prop :=
  ∀ cursor failure stop, cursor.mark ≤ cursor.pos →
    Yields rules grammar cursor (.error failure) stop → stop.mark ≤ cursor.pos

theorem withdraws_seq_of_scans (scanners : List Scanner) :
    Withdraws rules (.seq (scanners.map .scan)) := by
  intro cursor failure stop hmark h
  obtain ⟨behind, hfollow, hstop⟩ := h.follow_of_error
  rwa [hstop, hfollow.mark_eq_of_scans]

end Sequences

section Alternatives

variable {rules : Rules α} {alternative : Grammar α} {alternatives : List (Grammar α)}
  {cursor stop : Cursor} {node : Node α}

-- Trying the grammar fails and changes nothing.
def Misses (rules : Rules α) (grammar : Grammar α) (cursor : Cursor) : Prop :=
  ∃ failure, Yields rules grammar cursor (.error failure) cursor

theorem Misses.map {f : Node α → Node α} (h : Misses rules alternative cursor) :
    Misses rules (.map f alternative) cursor := by
  obtain ⟨failure, hyields⟩ := h
  exact ⟨failure, yields_map_iff.mpr ⟨_, hyields, rfl⟩⟩

theorem Misses.bind {value : Value α} (h : Misses rules alternative cursor) :
    Misses rules (.bind value alternative) cursor := by
  obtain ⟨failure, hyields⟩ := h
  exact ⟨failure, yields_bind_iff.mpr ⟨_, hyields, rfl⟩⟩

theorem Misses.rule {name : String} {definition : Grammar α}
    (hdefinition : rules.definition? name = some definition) (h : Misses rules definition cursor) :
    Misses rules (.rule name) cursor := by
  obtain ⟨failure, hyields⟩ := h
  exact ⟨failure, (yields_rule_iff hdefinition).mpr hyields⟩

theorem Misses.seq {part : Grammar α} {rest : List (Grammar α)} (h : Misses rules part cursor)
    (hmark : cursor.mark ≤ cursor.pos) : Misses rules (.seq (part :: rest)) cursor := by
  obtain ⟨failure, hyields⟩ := h
  have hfollow : Follow rules (part :: rest) cursor (.error failure) cursor := .failed hyields
  exact ⟨failure, hfollow.yields_seq_of_back hmark⟩

-- A scanner that has matched before the part that misses is undone.
theorem Misses.seq_behind_scan {scanner : Scanner} {part : Grammar α} {rest : List (Grammar α)}
    (hscan : Yields rules (.scan scanner) cursor (.ok node) stop) (h : Misses rules part stop)
    (hmark : cursor.mark ≤ cursor.pos) :
    Misses rules (.seq (.scan scanner :: part :: rest)) cursor := by
  obtain ⟨failure, hyields⟩ := h
  have hstop := mark_eq_of_yields_scan hscan
  have hfollow : Follow rules (.scan scanner :: part :: rest) cursor (.error failure) stop :=
    .cons hscan (.failed hyields)
  have hseq := hfollow.yields_seq_of_back (Nat.le_trans (Nat.le_of_eq hstop) hmark)
  rw [hscan.reaches.rewind_eq hstop] at hseq
  exact ⟨failure, hseq⟩

private theorem exists_anyRun_of_misses (hmark : cursor.mark ≤ cursor.pos)
    (h : ∀ alternative ∈ alternatives, Misses rules alternative cursor) (best : Option Failure) :
    ∃ outcome steps failure, AnyRun (Runs rules) cursor best alternatives cursor outcome steps ∧
      outcome.result = .error failure ∧ outcome.cursor = cursor := by
  induction alternatives generalizing best with
  | nil => exact ⟨_, _, _, .exhausted, rfl, rfl⟩
  | cons first rest ih =>
      obtain ⟨failure, hfirst⟩ := h first List.mem_cons_self
      obtain ⟨events, steps, hruns⟩ := hfirst.exists_runs
      obtain ⟨outcome, later, last, hlater, hresult⟩ :=
        ih (fun other hmem => h other (List.mem_cons_of_mem _ hmem)) (some (further best failure))
      exact ⟨_, _, last, .next hruns rfl hmark hlater, hresult⟩

theorem Misses.any (hmark : cursor.mark ≤ cursor.pos)
    (h : ∀ alternative ∈ alternatives, Misses rules alternative cursor) :
    Misses rules (.any alternatives) cursor := by
  obtain ⟨outcome, steps, failure, hrun, hfailure, hstop⟩ := exists_anyRun_of_misses hmark h none
  have hany := yields_of_level (.any hrun)
  rw [hfailure, hstop] at hany
  exact ⟨failure, hany⟩

private theorem exists_anyRun_of_others (hmark : cursor.mark ≤ cursor.pos)
    (hmem : alternative ∈ alternatives)
    (hothers : ∀ other ∈ alternatives, other = alternative ∨ Misses rules other cursor)
    (h : Yields rules alternative cursor (.ok node) stop) (best : Option Failure) :
    ∃ outcome steps, AnyRun (Runs rules) cursor best alternatives cursor outcome steps ∧
      outcome.result = .ok node ∧ outcome.cursor = stop := by
  induction alternatives generalizing best with
  | nil => cases hmem
  | cons first rest ih =>
      cases hothers first List.mem_cons_self with
      | inl heq =>
          obtain ⟨events, steps, hruns⟩ := h.exists_runs
          rw [heq]
          exact ⟨_, _, .matched hruns rfl, rfl, rfl⟩
      | inr hfirst =>
          obtain ⟨failure, hfirst⟩ := hfirst
          obtain ⟨events, steps, hruns⟩ := hfirst.exists_runs
          cases hmem with
          | head => cases (hfirst.unique h).1
          | tail _ hmem =>
              obtain ⟨outcome, later, hlater, hresult⟩ :=
                ih hmem (fun other hmem => hothers other (List.mem_cons_of_mem _ hmem))
                  (some (further best failure))
              exact ⟨_, _, .next hruns rfl hmark hlater, hresult⟩

-- An alternative is chosen if all others miss.
theorem Yields.any (h : Yields rules alternative cursor (.ok node) stop)
    (hmark : cursor.mark ≤ cursor.pos) (hmem : alternative ∈ alternatives)
    (hothers : ∀ other ∈ alternatives, other = alternative ∨ Misses rules other cursor) :
    Yields rules (.any alternatives) cursor (.ok node) stop := by
  obtain ⟨outcome, steps, hrun, hnode, hstop⟩ := exists_anyRun_of_others hmark hmem hothers h none
  have hany := yields_of_level (.any hrun)
  rwa [hnode, hstop] at hany

private theorem AnyRun.exists_yields {start : Cursor} {best : Option Failure}
    {outcome : Outcome (Node α)} {steps : List (Step α)}
    (h : AnyRun (Runs rules) start best alternatives cursor outcome steps)
    (hreaches : start.Reaches cursor) (hplace : cursor.toPlace = start.toPlace)
    (hmark : cursor.mark ≤ cursor.pos) (hresult : outcome.result = .ok node) :
    ∃ alternative ∈ alternatives, ∃ again, start.Reaches again ∧ again.toPlace = start.toPlace ∧
      again.mark ≤ again.pos ∧ Yields rules alternative again (.ok node) outcome.cursor := by
  induction h with
  | exhausted => cases hresult
  | matched hruns =>
      exact ⟨_, List.mem_cons_self, _, hreaches, hplace, hmark, hresult ▸ hruns.yields⟩
  | committed _ hfailure => cases hfailure.symm.trans hresult
  | next hruns _ hback _ ih =>
      have hagain := (hreaches.trans hruns.yields.reaches).rewind (.refl _)
      obtain ⟨alternative, hmem, hyields⟩ := ih hagain rfl hback hresult
      exact ⟨alternative, List.mem_cons_of_mem _ hmem, hyields⟩

-- The alternative that matches is tried where the first one is, but for the mark.
theorem Yields.of_any (h : Yields rules (.any alternatives) cursor (.ok node) stop)
    (hmark : cursor.mark ≤ cursor.pos) :
    ∃ alternative ∈ alternatives, ∃ again, cursor.Reaches again ∧ again.toPlace = cursor.toPlace ∧
      again.mark ≤ again.pos ∧ Yields rules alternative again (.ok node) stop := by
  obtain ⟨outcome, steps, hlevel, hresult, hstop⟩ := h.exists_level
  cases hlevel with
  | any hrun =>
      rw [← hstop]
      exact hrun.exists_yields (.refl _) rfl hmark hresult

-- The alternative is tried where the cursor is, but for the mark, and fails.
def Fails (rules : Rules α) (cursor : Cursor) (failure : Failure) (alternative : Grammar α) :
    Prop :=
  ∃ again behind, cursor.Reaches again ∧ again.toPlace = cursor.toPlace ∧
    again.mark ≤ again.pos ∧ Yields rules alternative again (.error failure) behind

private theorem AnyRun.exists_fails {start : Cursor} {best : Option Failure} {failure : Failure}
    {all : List (Grammar α)} {outcome : Outcome (Node α)} {steps : List (Step α)}
    (h : AnyRun (Runs rules) start best alternatives cursor outcome steps)
    (hall : ∀ part ∈ alternatives, part ∈ all) (hreaches : start.Reaches cursor)
    (hplace : cursor.toPlace = start.toPlace) (hmark : cursor.mark ≤ cursor.pos)
    (hbest : ∀ earlier ∈ best, ∃ part ∈ all, Fails rules start earlier part)
    (hsome : best = none → alternatives ≠ []) (hresult : outcome.result = .error failure) :
    ∃ part ∈ all, Fails rules start failure part := by
  induction h with
  | @exhausted best _ =>
      cases best with
      | none => exact absurd rfl (hsome rfl)
      | some earlier =>
          cases hresult
          exact hbest earlier rfl
  | matched _ hnode => cases hnode.symm.trans hresult
  | committed hruns =>
      exact ⟨_, hall _ List.mem_cons_self, _, _, hreaches, hplace, hmark, hresult ▸ hruns.yields⟩
  | @next _ part _ _ _ _ last _ _ hruns hfailure hback _ ih =>
      have hagain := (hreaches.trans hruns.yields.reaches).rewind (.refl _)
      have hlast : ∃ part ∈ all, Fails rules start last part :=
        ⟨part, hall _ List.mem_cons_self, _, _, hreaches, hplace, hmark, hfailure ▸ hruns.yields⟩
      have hkept := forall_mem_further hbest hlast
      exact ih (fun part hmem => hall part (List.mem_cons_of_mem _ hmem)) hagain rfl hback hkept nofun
        hresult

-- If all alternatives fail, the failure is that of one of them.
theorem Yields.of_any_error {failure : Failure}
    (h : Yields rules (.any alternatives) cursor (.error failure) stop)
    (hmark : cursor.mark ≤ cursor.pos) (hne : alternatives ≠ []) :
    ∃ alternative ∈ alternatives, Fails rules cursor failure alternative := by
  obtain ⟨outcome, steps, hlevel, hresult, -⟩ := h.exists_level
  cases hlevel with
  | any hrun =>
      exact hrun.exists_fails (fun _ => id) (.refl _) rfl hmark nofun (fun _ => hne) hresult

end Alternatives

section Repetitions

variable {rules : Rules α} {item : Grammar α} {separator : Option (Grammar α)}
  {cursor stop : Cursor}

theorem SeparatorRun.separates {outcome : Outcome (Node α)} {steps : List (Step α)}
    (h : SeparatorRun (Runs rules) separator cursor outcome steps) :
    Separates rules separator cursor outcome.result outcome.cursor := by
  cases h with
  | none => exact ⟨rfl, rfl⟩
  | some hpart => exact hpart.yields

theorem Separates.exists_separatorRun {result : Except Failure (Node α)}
    (h : Separates rules separator cursor result stop) :
    ∃ events steps, SeparatorRun (Runs rules) separator cursor ⟨result, stop, events⟩ steps := by
  cases separator with
  | none =>
      obtain ⟨rfl, rfl⟩ := h
      exact ⟨[], [], .none⟩
  | some separator =>
      obtain ⟨events, steps, hruns⟩ := h.exists_runs
      exact ⟨events, steps, .some hruns⟩

theorem Separates.reaches {result : Except Failure (Node α)}
    (h : Separates rules separator cursor result stop) : cursor.Reaches stop := by
  cases separator with
  | none =>
      obtain ⟨-, rfl⟩ := h
      exact .refl _
  | some separator => exact Yields.reaches h

theorem ItemsRun.repeats {start : Cursor} {min : Nat} {outcome : Outcome (List (Node α))}
    {steps : List (Step α)} (hmin : min = 0)
    (h : ItemsRun (Runs rules) item separator start min cursor outcome steps) :
    Repeats rules item separator cursor outcome.result outcome.cursor := by
  induction h with
  | committed hitem hresult hmark => exact .committed (hresult ▸ hitem.yields) hmark
  | short _ _ _ hneeded => omega
  | ended hitem hresult hmark => exact .ended (hresult ▸ hitem.yields) hmark
  | separatorCommitted hitem hresult hseparator hseparated hmark =>
      exact .separatorCommitted (hresult ▸ hitem.yields) (hseparated ▸ hseparator.separates) hmark
  | separatorEnded hitem hresult hseparator hseparated hmark =>
      exact .separatorEnded (hresult ▸ hitem.yields) (hseparated ▸ hseparator.separates) hmark
  | stuck hitem hresult hseparator hseparated hstuck =>
      exact .stuck (hresult ▸ hitem.yields) (hseparated ▸ hseparator.separates) hstuck
  | next hitem hresult hseparator hseparated hmoved _ ih =>
      exact .next (hresult ▸ hitem.yields) (hseparated ▸ hseparator.separates) hmoved
        (ih (by omega))

theorem Repeats.exists_itemsRun {result : Except Failure (List (Node α))} (start : Cursor)
    (h : Repeats rules item separator cursor result stop) :
    ∃ events steps,
      ItemsRun (Runs rules) item separator start 0 cursor ⟨result, stop, events⟩ steps := by
  induction h with
  | committed hitem hmark =>
      obtain ⟨_, _, hruns⟩ := hitem.exists_runs
      exact ⟨_, _, .committed hruns rfl hmark⟩
  | ended hitem hmark =>
      obtain ⟨_, _, hruns⟩ := hitem.exists_runs
      exact ⟨_, _, .ended hruns rfl hmark⟩
  | separatorCommitted hitem hseparates hmark =>
      obtain ⟨_, _, hruns⟩ := hitem.exists_runs
      obtain ⟨_, _, hseparator⟩ := hseparates.exists_separatorRun
      exact ⟨_, _, .separatorCommitted hruns rfl hseparator rfl hmark⟩
  | separatorEnded hitem hseparates hmark =>
      obtain ⟨_, _, hruns⟩ := hitem.exists_runs
      obtain ⟨_, _, hseparator⟩ := hseparates.exists_separatorRun
      exact ⟨_, _, .separatorEnded hruns rfl hseparator rfl hmark⟩
  | stuck hitem hseparates hstuck =>
      obtain ⟨_, _, hruns⟩ := hitem.exists_runs
      obtain ⟨_, _, hseparator⟩ := hseparates.exists_separatorRun
      exact ⟨_, _, .stuck hruns rfl hseparator rfl hstuck⟩
  | next hitem hseparates hmoved _ ih =>
      obtain ⟨_, _, hruns⟩ := hitem.exists_runs
      obtain ⟨_, _, hseparator⟩ := hseparates.exists_separatorRun
      obtain ⟨_, _, hrest⟩ := ih
      have hrest : ItemsRun (Runs rules) item separator start (0 - 1) _ _ _ := hrest
      exact ⟨_, _, .next hruns rfl hseparator rfl hmoved hrest⟩

theorem yields_many_iff {result : Except Failure (Node α)} :
    Yields rules (.many item separator 0) cursor result stop ↔
      ∃ items, Repeats rules item separator cursor items stop ∧ items.map .children = result := by
  constructor
  · intro h
    obtain ⟨outcome, steps, hlevel, hresult, hstop⟩ := h.exists_level
    cases hlevel with
    | many hrun =>
        rw [← hstop]
        exact ⟨_, hrun.repeats rfl, hresult⟩
  · rintro ⟨items, hrepeats, rfl⟩
    obtain ⟨events, steps, hrun⟩ := hrepeats.exists_itemsRun cursor
    exact yields_of_level (.many hrun)

-- Items that never fail behind a cut of their own just come to an end.
theorem Withdraws.not_repeats_error (h : Withdraws rules item) {failure : Failure}
    {result : Except Failure (List (Node α))} (hmark : cursor.mark ≤ cursor.pos)
    (hrepeats : Repeats rules item none cursor result stop) : result ≠ .error failure := by
  induction hrepeats with
  | committed hitem hcommitted =>
      exact absurd (h _ _ _ hmark hitem) (Nat.not_le_of_lt hcommitted)
  | ended | separatorEnded | stuck => nofun
  | separatorCommitted _ hseparates => cases hseparates.1
  | @next _ _ _ _ _ result _ hitem hseparates _ _ ih =>
      obtain ⟨-, rfl⟩ := hseparates
      cases result with
      | error inner =>
          rintro ⟨⟩
          exact ih (hitem.mark_le hmark) rfl
      | ok nodes => nofun

theorem Yields.of_many {node : Node α}
    (h : Yields rules (.many item separator 0) cursor (.ok node) stop) :
    ∃ nodes, node = .children nodes ∧ Repeats rules item separator cursor (.ok nodes) stop := by
  obtain ⟨items, hrepeats, hresult⟩ := yields_many_iff.mp h
  cases items with
  | error _ => cases hresult
  | ok nodes =>
      cases hresult
      exact ⟨nodes, rfl, hrepeats⟩

theorem Yields.of_many_error {failure : Failure}
    (h : Yields rules (.many item separator 0) cursor (.error failure) stop) :
    Repeats rules item separator cursor (.error failure) stop := by
  obtain ⟨items, hrepeats, hresult⟩ := yields_many_iff.mp h
  cases items with
  | error _ =>
      cases hresult
      exact hrepeats
  | ok _ => cases hresult

end Repetitions

end Descent.Grammar
