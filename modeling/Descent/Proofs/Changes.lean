import Descent.Proofs.Reports

namespace Descent

variable {α β γ : Type}

namespace Grammar

-- A scanner is used in a grammar, or in the definition of a rule that is.
inductive Uses (rules : Rules α) (scanner : Scanner) : Grammar α → Prop
  | scan : Uses rules scanner (.scan scanner)
  | seq {part parts} : part ∈ parts → Uses rules scanner part → Uses rules scanner (.seq parts)
  | any {part alternatives} :
      part ∈ alternatives → Uses rules scanner part → Uses rules scanner (.any alternatives)
  | item {item separator min} :
      Uses rules scanner item → Uses rules scanner (.many item separator min)
  | separator {item separator min} :
      Uses rules scanner separator → Uses rules scanner (.many item (some separator) min)
  | maybe {part} : Uses rules scanner part → Uses rules scanner (.maybe part)
  | label {name part} : Uses rules scanner part → Uses rules scanner (.label name part)
  | named {name part} : Uses rules scanner part → Uses rules scanner (.named name part)
  | map {f part} : Uses rules scanner part → Uses rules scanner (.map f part)
  | bind {value part} : Uses rules scanner part → Uses rules scanner (.bind value part)
  | merge {part} : Uses rules scanner part → Uses rules scanner (.merge part)
  | tight {part} : Uses rules scanner part → Uses rules scanner (.tight part)
  | rule {name definition} : rules.definition? name = some definition →
      Uses rules scanner definition → Uses rules scanner (.rule name)

-- Only scanners of some kinds are used.
def ScansOnly (rules : Rules α) (scans : Scanner → Prop) (grammar : Grammar α) : Prop :=
  ∀ scanner, Uses rules scanner grammar → scans scanner

end Grammar

-- A change of cursors, and what becomes of the failures at them.
structure Change where
  cursor : Cursor → Cursor
  failure : Failure → Failure

namespace Change

def event (change : Change) : Event → Event
  | .entered name ahead => .entered name ahead
  | .matched name ahead => .matched name ahead
  | .failed name failure => .failed name (change.failure failure)

def outcome (change : Change) (outcome : Outcome β) : Outcome β :=
  ⟨outcome.result.mapError change.failure, change.cursor outcome.cursor,
    outcome.events.map change.event⟩

-- Nothing that an attempt does shows the change, from cursors that fit and with scanners of some
-- kinds.
structure Unnoticed (change : Change) (fits : Cursor → Prop) (scans : Scanner → Prop) : Prop where
  rest_eq : ∀ cursor, (change.cursor cursor).rest = cursor.rest
  fail_eq : ∀ cursor expected,
    change.failure (cursor.fail expected) = (change.cursor cursor).fail expected
  rewind_eq : ∀ cursor start : Cursor, change.cursor (cursor.rewind start.toPlace) =
    (change.cursor cursor).rewind (change.cursor start).toPlace
  commit_eq : ∀ cursor, change.cursor cursor.commit = (change.cursor cursor).commit
  tighten_eq : ∀ cursor,
    change.cursor (cursor.withAutoSkip false) = (change.cursor cursor).withAutoSkip false
  restore_eq : ∀ cursor start : Cursor, change.cursor (cursor.withAutoSkip start.autoSkip) =
    (change.cursor cursor).withAutoSkip (change.cursor start).autoSkip
  skipBlank_eq : ∀ {cursor}, fits cursor →
    change.cursor cursor.skipBlank = (change.cursor cursor).skipBlank
  scan_eq : ∀ {α scanner cursor}, scans scanner → fits cursor →
    change.outcome (Grammar.attemptScan (α := α) scanner cursor) =
      Grammar.attemptScan scanner (change.cursor cursor)
  pos_lt_mark_iff : ∀ {start cursor}, fits start →
    ((change.cursor start).pos < (change.cursor cursor).mark ↔ start.pos < cursor.mark)
  pos_eq_iff : ∀ {start cursor}, fits start → fits cursor →
    ((change.cursor cursor).pos = (change.cursor start).pos ↔ cursor.pos = start.pos)
  isBeyond_eq : ∀ {start : Cursor} {failure other : Failure}, fits start →
    start.pos ≤ failure.pos → start.pos ≤ other.pos →
    (change.failure failure).isBeyond (change.failure other) = failure.isBeyond other
  fits_of_reaches : ∀ {cursor stop}, fits cursor → cursor.Reaches stop → fits stop
  fits_tight : ∀ {cursor}, fits cursor → fits (cursor.withAutoSkip false)

end Change

section Outcomes

variable {change : Change} {fits : Cursor → Prop} {scans : Scanner → Prop}
  {outcome : Outcome β} {start cursor : Cursor} {failure : Failure}

namespace Outcome

theorem changed_result_of_ok {value : β} (h : outcome.result = .ok value) :
    (change.outcome outcome).result = .ok value := by
  simp only [Change.outcome, h]
  rfl

theorem changed_result_of_error (h : outcome.result = .error failure) :
    (change.outcome outcome).result = .error (change.failure failure) := by
  simp only [Change.outcome, h]
  rfl

theorem changed_map (f : β → γ) (outcome : Outcome β) :
    change.outcome (outcome.map f) = (change.outcome outcome).map f := by
  obtain ⟨result, cursor, events⟩ := outcome
  cases result <;> rfl

theorem changed_after (outcome : Outcome β) (earlier : List Event) :
    change.outcome (outcome.after earlier) =
      (change.outcome outcome).after (earlier.map change.event) := by
  simp only [Change.outcome, after, List.map_append]

end Outcome

-- The computations come out alike, or neither does.
theorem bind_changed {x y : Option (Outcome β)} {f g : Outcome β → Option (Outcome γ)}
    (h : x.map change.outcome = y)
    (hf : ∀ outcome, x = some outcome →
      (f outcome).map change.outcome = g (change.outcome outcome)) :
    (x >>= f).map change.outcome = y >>= g := by
  cases x with
  | none =>
      rw [← h]
      rfl
  | some outcome =>
      rw [← h]
      exact hf outcome rfl

namespace Change.Unnoticed

variable (hchange : change.Unnoticed fits scans)

include hchange

theorem back_eq (outcome : Outcome β) (start : Cursor) :
    change.cursor (outcome.back start) =
      (change.outcome outcome).back (change.cursor start) :=
  hchange.rewind_eq outcome.cursor start

theorem committed_eq (hstart : fits start) (outcome : Outcome β) :
    (change.outcome outcome).committed (change.cursor start) = outcome.committed start := by
  rw [Bool.eq_iff_iff, Outcome.committed_iff, Outcome.committed_iff]
  exact hchange.pos_lt_mark_iff hstart

theorem further_eq {best : Option Failure} (hstart : fits start)
    (hbest : ∀ earlier ∈ best, start.pos ≤ earlier.pos) (h : start.pos ≤ failure.pos) :
    change.failure (Grammar.further best failure) =
      Grammar.further (best.map change.failure) (change.failure failure) := by
  cases best with
  | none => rfl
  | some earlier =>
      simp only [Grammar.further, Option.map_some, hchange.isBeyond_eq hstart h (hbest earlier rfl)]
      split <;> rfl

theorem nothing_eq (expected : String) (hcursor : fits cursor) :
    change.outcome (Grammar.attemptNothing (α := α) expected cursor) =
      Grammar.attemptNothing expected (change.cursor cursor) := by
  have hfail := hchange.fail_eq cursor.skipBlank expected
  rw [hchange.skipBlank_eq hcursor] at hfail
  exact congrArg (fun failure => Outcome.failed failure (change.cursor cursor)) hfail

theorem labeled_eq (name : String) (hcursor : fits cursor) {outcome : Outcome (Node α)}
    (hreaches : cursor.Reaches outcome.cursor) :
    change.outcome (Grammar.labeled name cursor outcome) =
      Grammar.labeled name (change.cursor cursor) (change.outcome outcome) := by
  have hback : fits (outcome.back cursor) :=
    hchange.fits_of_reaches hcursor (hreaches.rewind (.refl _))
  have hfail : change.failure ((outcome.back cursor).skipBlank.fail name) =
      (change.cursor (outcome.back cursor)).skipBlank.fail name := by
    rw [hchange.fail_eq, hchange.skipBlank_eq hback]
  simp only [Grammar.labeled, ← hchange.back_eq, ← hfail]
  rfl

theorem leave_eq (name : String) (outcome : Outcome (Node α)) :
    Grammar.leave name (change.outcome outcome) = change.event (Grammar.leave name outcome) := by
  have hrest : (change.outcome outcome).cursor.rest = outcome.cursor.rest :=
    hchange.rest_eq outcome.cursor
  cases hresult : outcome.result with
  | ok node => simp only [Grammar.leave, Outcome.changed_result_of_ok hresult, hresult, hrest, event]
  | error failure =>
      simp only [Grammar.leave, Outcome.changed_result_of_error hresult, hresult, event]

theorem traced_eq (name : String) (cursor : Cursor) (outcome : Outcome (Node α)) :
    change.outcome (Grammar.traced name cursor outcome) =
      Grammar.traced name (change.cursor cursor) (change.outcome outcome) := by
  have hevents : (change.outcome (Grammar.traced name cursor outcome)).events =
      change.event (Grammar.leave name outcome) ::
        (outcome.events.map change.event ++ [.entered name cursor.rest]) := by
    simp only [Grammar.traced, Change.outcome, List.map_cons, List.map_append, List.map_nil, event]
  rw [← hchange.leave_eq, ← hchange.rest_eq cursor] at hevents
  exact congrArg (fun events => Outcome.mk _ _ events) hevents

end Change.Unnoticed

end Outcomes

namespace Grammar

section Level

variable {change : Change} {fits : Cursor → Prop} {scans : Scanner → Prop} {rules : Rules α}

-- Attempts that do not show the change.
structure Unaware (change : Change) (fits : Cursor → Prop) (scans : Scanner → Prop)
    (rules : Rules α) (attempt : Attempt Option α) : Prop where
  changed : ∀ {grammar cursor}, ScansOnly rules scans grammar → fits cursor →
    (attempt grammar cursor).map change.outcome = attempt grammar (change.cursor cursor)
  reaches : ∀ {grammar cursor outcome}, attempt grammar cursor = some outcome →
    cursor.Reaches outcome.cursor
  ahead : ∀ {grammar cursor outcome failure}, attempt grammar cursor = some outcome →
    outcome.result = .error failure → cursor.pos ≤ failure.pos

variable {attempt : Attempt Option α} (hchange : change.Unnoticed fits scans)
  (hattempt : Unaware change fits scans rules attempt)

include hchange hattempt

private theorem attemptParts_changed {parts : List (Grammar α)} {cursor : Cursor}
    (hparts : ∀ part ∈ parts, ScansOnly rules scans part) (hcursor : fits cursor) :
    (attemptParts attempt parts cursor).map change.outcome =
      attemptParts attempt parts (change.cursor cursor) := by
  induction parts generalizing cursor with
  | nil => rfl
  | cons part rest ih =>
      obtain ⟨hpart, hrest⟩ := List.forall_mem_cons.mp hparts
      refine bind_changed (hattempt.changed hpart hcursor) fun outcome houtcome => ?_
      cases hresult : outcome.result with
      | error failure =>
          simp only [Outcome.changed_result_of_error hresult]
          rfl
      | ok node =>
          simp only [Outcome.changed_result_of_ok hresult]
          have hnext := hchange.fits_of_reaches hcursor (hattempt.reaches houtcome)
          refine bind_changed (ih hrest hnext) fun others _ => congrArg some ?_
          rw [Outcome.changed_after, Outcome.changed_map]
          rfl

private theorem attemptSeq_changed {parts : List (Grammar α)} {cursor : Cursor}
    (hparts : ∀ part ∈ parts, ScansOnly rules scans part) (hcursor : fits cursor) :
    (attemptSeq attempt parts cursor).map change.outcome =
      attemptSeq attempt parts (change.cursor cursor) := by
  refine bind_changed (attemptParts_changed hchange hattempt hparts hcursor) fun outcome _ => ?_
  cases hresult : outcome.result with
  | ok nodes =>
      simp only [Outcome.changed_result_of_ok hresult]
      rfl
  | error failure =>
      simp only [Outcome.changed_result_of_error hresult, hchange.committed_eq hcursor,
        ← hchange.back_eq]
      split <;> rfl

private theorem attemptAny_changed {start : Cursor} {best : Option Failure}
    {alternatives : List (Grammar α)} {cursor : Cursor}
    (halternatives : ∀ part ∈ alternatives, ScansOnly rules scans part) (hstart : fits start)
    (hreaches : start.Reaches cursor) (hplace : cursor.toPlace = start.toPlace)
    (hbest : ∀ failure ∈ best, start.pos ≤ failure.pos) :
    (attemptAny attempt start best alternatives cursor).map change.outcome =
      attemptAny attempt (change.cursor start) (best.map change.failure) alternatives
        (change.cursor cursor) := by
  induction alternatives generalizing best cursor with
  | nil =>
      cases best with
      | none =>
          have hfail := hchange.fail_eq cursor "any alternative"
          exact congrArg (fun failure => some (Outcome.failed failure (change.cursor cursor))) hfail
      | some failure => rfl
  | cons alternative rest ih =>
      obtain ⟨halternative, hrest⟩ := List.forall_mem_cons.mp halternatives
      have hcursor := hchange.fits_of_reaches hstart hreaches
      refine bind_changed (hattempt.changed halternative hcursor) fun outcome houtcome => ?_
      cases hresult : outcome.result with
      | ok node =>
          simp only [Outcome.changed_result_of_ok hresult]
          rfl
      | error failure =>
          simp only [Outcome.changed_result_of_error hresult, hchange.committed_eq hstart]
          split
          · rfl
          · -- both failures lie ahead of the start, where the change keeps their order
            have hahead := hattempt.ahead houtcome hresult
            rw [hplace] at hahead
            rw [← hchange.further_eq hstart hbest hahead, ← hchange.back_eq]
            have hback := (hreaches.trans (hattempt.reaches houtcome)).rewind (.refl _)
            have hkept := forall_mem_further hbest hahead
            refine bind_changed (ih hrest hback rfl hkept) fun others _ => congrArg some ?_
            exact Outcome.changed_after others _

omit hchange in
private theorem attemptSeparator_changed {separator : Option (Grammar α)} {cursor : Cursor}
    (hseparator : ∀ part ∈ separator, ScansOnly rules scans part) (hcursor : fits cursor) :
    (attemptSeparator attempt separator cursor).map change.outcome =
      attemptSeparator attempt separator (change.cursor cursor) := by
  cases separator with
  | none => rfl
  | some separator => exact hattempt.changed (hseparator separator rfl) hcursor

private theorem attemptItems_changed {item : Grammar α} {separator : Option (Grammar α)}
    {start : Cursor} {budget min : Nat} {cursor : Cursor} (hitem : ScansOnly rules scans item)
    (hseparator : ∀ part ∈ separator, ScansOnly rules scans part) (hcursor : fits cursor) :
    (attemptItems attempt item separator start budget min cursor).map change.outcome =
      attemptItems attempt item separator (change.cursor start) budget min
        (change.cursor cursor) := by
  induction budget generalizing min cursor with
  | zero => rfl
  | succ budget ih =>
      refine bind_changed (hattempt.changed hitem hcursor) fun outcome houtcome => ?_
      cases hresult : outcome.result with
      | error failure =>
          simp only [Outcome.changed_result_of_error hresult, hchange.committed_eq hcursor,
            ← hchange.back_eq]
          split
          · rfl
          · split <;> rfl
      | ok node =>
          simp only [Outcome.changed_result_of_ok hresult]
          have hmiddle := hchange.fits_of_reaches hcursor (hattempt.reaches houtcome)
          refine bind_changed (attemptSeparator_changed hattempt hseparator hmiddle)
            fun between hbetween => ?_
          have hevents : (change.outcome between).events ++ (change.outcome outcome).events =
              (between.events ++ outcome.events).map change.event := List.map_append.symm
          cases hseparated : between.result with
          | error failure =>
              have hcommitted := hchange.committed_eq hmiddle between
              simp only [Outcome.changed_result_of_error hseparated, hevents]
              simp only [Change.outcome] at hcommitted ⊢
              simp only [hcommitted]
              split <;> rfl
          | ok separated =>
              simp only [Outcome.changed_result_of_ok hseparated, hevents]
              have hbehind := hchange.fits_of_reaches hmiddle
                (reaches_of_attemptSeparator hattempt.reaches hbetween)
              have hstuck : (change.outcome between).cursor.pos = (change.cursor cursor).pos ↔
                  between.cursor.pos = cursor.pos := hchange.pos_eq_iff hcursor hbehind
              simp only [hstuck]
              split
              · rfl
              · refine bind_changed (ih hbehind) fun others _ => congrArg some ?_
                rw [Outcome.changed_after, Outcome.changed_map]

private theorem attemptOr_changed {recover recover' : Outcome (Node α) → Outcome (Node α)}
    {part : Grammar α} {cursor : Cursor} (hpart : ScansOnly rules scans part) (hcursor : fits cursor)
    (hrecover : ∀ outcome : Outcome (Node α), cursor.Reaches outcome.cursor →
      change.outcome (recover outcome) = recover' (change.outcome outcome)) :
    (attemptOr attempt recover part cursor).map change.outcome =
      attemptOr attempt recover' part (change.cursor cursor) := by
  refine bind_changed (hattempt.changed hpart hcursor) fun outcome houtcome => ?_
  cases hresult : outcome.result with
  | ok node =>
      simp only [Outcome.changed_result_of_ok hresult]
      rfl
  | error failure =>
      simp only [Outcome.changed_result_of_error hresult, hchange.committed_eq hcursor]
      split
      · rfl
      · exact congrArg some (hrecover outcome (hattempt.reaches houtcome))

omit hchange in
private theorem attemptMap_changed {f : Node α → Node α} {part : Grammar α} {cursor : Cursor}
    (hpart : ScansOnly rules scans part) (hcursor : fits cursor) :
    (attemptMap attempt f part cursor).map change.outcome =
      attemptMap attempt f part (change.cursor cursor) :=
  bind_changed (hattempt.changed hpart hcursor) fun outcome _ =>
    congrArg some (Outcome.changed_map f outcome)

-- A grammar does not show the change if its parts do not.
theorem attemptLevel_changed {grammar : Grammar α} {cursor : Cursor}
    (hgrammar : ScansOnly rules scans grammar) (hcursor : fits cursor) :
    (attemptLevel rules attempt grammar cursor).map change.outcome =
      attemptLevel rules attempt grammar (change.cursor cursor) := by
  cases grammar with
  | scan scanner => exact congrArg some (hchange.scan_eq (hgrammar scanner .scan) hcursor)
  | cut =>
      refine congrArg some ?_
      rw [← hchange.commit_eq]
      rfl
  | seq parts =>
      exact attemptSeq_changed hchange hattempt
        (fun part hmem scanner h => hgrammar scanner (.seq hmem h)) hcursor
  | any alternatives =>
      exact attemptAny_changed hchange hattempt
        (fun part hmem scanner h => hgrammar scanner (.any hmem h)) hcursor (.refl _) rfl nofun
  | many item separator min =>
      have hlength : (change.cursor cursor).rest.length = cursor.rest.length :=
        congrArg List.length (hchange.rest_eq cursor)
      have hitem : ScansOnly rules scans item := fun scanner h => hgrammar scanner (.item h)
      have hseparator : ∀ part ∈ separator, ScansOnly rules scans part := by
        rintro part ⟨⟩ scanner h
        exact hgrammar scanner (.separator h)
      simp only [attemptLevel, attemptMany, hlength]
      exact bind_changed (attemptItems_changed hchange hattempt hitem hseparator hcursor)
        fun outcome _ => congrArg some (Outcome.changed_map _ _)
  | maybe part =>
      have hpart : ScansOnly rules scans part := fun scanner h => hgrammar scanner (.maybe h)
      refine attemptOr_changed hchange hattempt hpart hcursor fun outcome _ => ?_
      simp only [skipped, ← hchange.back_eq]
      rfl
  | label name part =>
      have hpart : ScansOnly rules scans part := fun scanner h => hgrammar scanner (.label h)
      refine attemptOr_changed hchange hattempt hpart hcursor fun outcome hreaches => ?_
      exact hchange.labeled_eq name hcursor hreaches
  | named name part =>
      have hpart : ScansOnly rules scans part := fun scanner h => hgrammar scanner (.named h)
      exact bind_changed (hattempt.changed hpart hcursor) fun outcome _ =>
        congrArg some (hchange.traced_eq _ _ outcome)
  | map f part =>
      exact attemptMap_changed hattempt (fun scanner h => hgrammar scanner (.map h)) hcursor
  | bind value part =>
      exact attemptMap_changed hattempt (fun scanner h => hgrammar scanner (.bind h)) hcursor
  | merge part =>
      exact attemptMap_changed hattempt (fun scanner h => hgrammar scanner (.merge h)) hcursor
  | tight part =>
      have hpart : ScansOnly rules scans part := fun scanner h => hgrammar scanner (.tight h)
      have htight := hattempt.changed hpart (hchange.fits_tight hcursor)
      rw [hchange.tighten_eq] at htight
      refine bind_changed htight fun outcome _ => congrArg some ?_
      simp only [Change.outcome, hchange.restore_eq]
  | rule name =>
      simp only [attemptLevel]
      cases hdefinition : rules.definition? name with
      | none => exact congrArg some (hchange.nothing_eq name hcursor)
      | some definition =>
          have hpart : ScansOnly rules scans definition :=
            fun scanner h => hgrammar scanner (.rule hdefinition h)
          exact bind_changed (hattempt.changed hpart hcursor) fun outcome _ =>
            congrArg some (hchange.traced_eq _ _ outcome)

end Level

section Returns

variable {change : Change} {fits : Cursor → Prop} {scans : Scanner → Prop} {rules : Rules α}
  {grammar : Grammar α} {cursor : Cursor} {outcome : Outcome (Node α)}
  (hchange : change.Unnoticed fits scans) (hgrammar : ScansOnly rules scans grammar)
  (hcursor : fits cursor)

include hchange hgrammar hcursor

-- What a grammar comes to does not show the change, at any level.
theorem eval_changed (fuel : Nat) :
    (eval rules fuel grammar cursor).map change.outcome =
      eval rules fuel grammar (change.cursor cursor) := by
  induction fuel generalizing grammar cursor with
  | zero => rfl
  | succ fuel ih =>
      refine attemptLevel_changed hchange ⟨?_, reaches_of_eval, ?_⟩ hgrammar hcursor
      · intro part start hpart hstart
        exact ih hpart hstart
      · intro part start inner failure hinner hfailure
        have hreturns : Returns rules part start inner := ⟨fuel, hinner⟩
        exact Nat.le_trans hreturns.contract.reaches.pos_le
          (hreturns.reportsAhead failure hfailure).pos_le

theorem Returns.changed (h : Returns rules grammar cursor outcome) :
    Returns rules grammar (change.cursor cursor) (change.outcome outcome) := by
  obtain ⟨fuel, heval⟩ := h
  refine ⟨fuel, ?_⟩
  rw [← eval_changed hchange hgrammar hcursor, heval]
  rfl

theorem Returns.of_changed (h : Returns rules grammar (change.cursor cursor) outcome) :
    ∃ before, Returns rules grammar cursor before ∧ change.outcome before = outcome := by
  obtain ⟨fuel, heval⟩ := h
  rw [← eval_changed hchange hgrammar hcursor] at heval
  obtain ⟨before, hbefore, rfl⟩ := Option.map_eq_some_iff.mp heval
  exact ⟨before, ⟨fuel, hbefore⟩, rfl⟩

end Returns

end Grammar

end Descent
