import Descent.Proofs.Yields

namespace Descent

-- The failure that got furthest, and the first of those that got as far.
def Furthest (failures : List Failure) (failure : Failure) : Prop :=
  ∃ before after, failures = before ++ failure :: after ∧
    (∀ earlier ∈ before, earlier.pos < failure.pos) ∧ ∀ later ∈ after, later.pos ≤ failure.pos

theorem furthest_singleton (failure : Failure) : Furthest [failure] failure :=
  ⟨[], [], rfl, List.forall_mem_nil _, List.forall_mem_nil _⟩

theorem Furthest.pos_le {failures : List Failure} {failure : Failure}
    (h : Furthest failures failure) : ∀ other ∈ failures, other.pos ≤ failure.pos := by
  obtain ⟨before, after, rfl, hbefore, hafter⟩ := h
  intro other hmem
  rcases List.mem_append.mp hmem with hmem | hmem
  · exact Nat.le_of_lt (hbefore other hmem)
  · rcases List.mem_cons.mp hmem with rfl | hmem
    · exact Nat.le_refl _
    · exact hafter other hmem

theorem Furthest.mem {failures : List Failure} {failure : Failure} (h : Furthest failures failure) :
    failure ∈ failures := by
  obtain ⟨before, after, rfl, -⟩ := h
  exact List.mem_append_right _ List.mem_cons_self

theorem Furthest.unique {failures : List Failure} {failure other : Failure}
    (h : Furthest failures failure) (hother : Furthest failures other) : failure = other := by
  have hpos : failure.pos = other.pos :=
    Nat.le_antisymm (hother.pos_le failure h.mem) (h.pos_le other hother.mem)
  obtain ⟨before, after, rfl, hbefore, -⟩ := h
  obtain ⟨before', after', heq, hbefore', -⟩ := hother
  rcases List.append_eq_append_iff.mp heq with ⟨_ | ⟨c, middle⟩, rfl, hrest⟩ |
    ⟨_ | ⟨c, middle⟩, rfl, hrest⟩
  · exact (List.cons.inj hrest).1
  · have hlt := hbefore' failure (by simp [(List.cons.inj hrest).1])
    omega
  · exact (List.cons.inj hrest).1.symm
  · have hlt := hbefore other (by simp [(List.cons.inj hrest).1])
    omega

-- Whether an alternative that is tried puts an end to the search from `start`: it matches, or it
-- fails without a way back.
def Outcome.Decides {β : Type} (start : Cursor) (outcome : Outcome β) : Prop :=
  (∃ value, outcome.result = .ok value) ∨ start.pos < outcome.cursor.mark

theorem Outcome.after_after {β : Type} (outcome : Outcome β) (earlier first : List Event) :
    (outcome.after earlier).after first = outcome.after (earlier ++ first) := by
  simp only [after, List.append_assoc]

namespace Grammar

variable {α : Type}

section Failures

variable {best : Option Failure} {failures : List Failure} {failure : Failure}

-- What is kept of failures that come one after the other.
def kept (best : Option Failure) (failures : List Failure) : Option Failure :=
  failures.foldl (fun best failure => some (further best failure)) best

theorem further_concat {first : Failure} (h : Furthest failures first) (failure : Failure) :
    Furthest (failures ++ [failure]) (further (some first) failure) := by
  by_cases hbeyond : first.pos < failure.pos
  · have hfurther : further (some first) failure = failure := by
      simp [further, Failure.isBeyond, hbeyond]
    rw [hfurther]
    refine ⟨failures, [], rfl, fun earlier hmem => ?_, List.forall_mem_nil _⟩
    exact Nat.lt_of_le_of_lt (h.pos_le earlier hmem) hbeyond
  · have hfurther : further (some first) failure = first := by
      simp [further, Failure.isBeyond, hbeyond]
    rw [hfurther]
    obtain ⟨before, after, rfl, hbefore, hafter⟩ := h
    refine ⟨before, after ++ [failure], by simp, hbefore, List.forall_mem_append.mpr ⟨hafter, ?_⟩⟩
    simpa using hbeyond

theorem furthest_append_kept {earlier : List Failure} {first : Failure}
    (h : Furthest earlier first) (failures : List Failure) :
    ∃ failure, kept (some first) failures = some failure ∧
      Furthest (earlier ++ failures) failure := by
  induction failures generalizing earlier first with
  | nil => exact ⟨first, rfl, by rwa [List.append_nil]⟩
  | cons next failures ih =>
      obtain ⟨failure, hkept, hfurthest⟩ := ih (further_concat h next)
      exact ⟨failure, hkept, by rwa [List.append_assoc] at hfurthest⟩

theorem exists_furthest (hne : failures ≠ []) :
    ∃ failure, kept none failures = some failure ∧ Furthest failures failure := by
  obtain ⟨first, failures, rfl⟩ := List.exists_cons_of_ne_nil hne
  exact furthest_append_kept (furthest_singleton first) failures

end Failures

section Relations

variable (Tried : Grammar α → Cursor → Outcome (Node α) → List (Step α) → Prop)

-- Alternatives are tried one after the other from `start`, each with the mark that those before it
-- have left, and fail with a way back. These are their failures, and where the next one is tried.
inductive Exhausts (start : Cursor) :
    List (Grammar α) → Cursor → List Failure → Cursor → List (Step α) → Prop
  | nil {cursor} : Exhausts start [] cursor [] cursor []
  | cons {alternative rest cursor outcome steps failure failures again later} :
      Tried alternative cursor outcome steps → outcome.result = .error failure →
      outcome.cursor.mark ≤ start.pos →
      Exhausts start rest (outcome.back start) failures again later →
      Exhausts start (alternative :: rest) cursor (failure :: failures) again (steps ++ later)

variable {Tried} {start cursor again : Cursor} {best : Option Failure}
  {alternatives before after : List (Grammar α)} {failures : List Failure}
  {outcome : Outcome (Node α)} {steps earlier later : List (Step α)}

theorem Exhausts.toPlace_eq (h : Exhausts Tried start alternatives cursor failures again steps)
    (hplace : cursor.toPlace = start.toPlace) : again.toPlace = start.toPlace := by
  induction h with
  | nil => exact hplace
  | cons _ _ _ _ ih => exact ih rfl

theorem Exhausts.length_eq (h : Exhausts Tried start alternatives cursor failures again steps) :
    failures.length = alternatives.length := by
  induction h with
  | nil => rfl
  | cons _ _ _ _ ih => rw [List.length_cons, List.length_cons, ih]

-- The alternatives behind those that fail are tried with what is kept of the failures.
theorem Exhausts.anyRun (h : Exhausts Tried start before cursor failures again earlier)
    (hrest : AnyRun Tried start (kept best failures) after again outcome later) :
    ∃ events, AnyRun Tried start best (before ++ after) cursor (outcome.after events)
      (earlier ++ later) := by
  induction h generalizing best with
  | nil => exact ⟨[], by rwa [Outcome.after, List.append_nil]⟩
  | @cons _ _ _ first _ _ _ _ _ htried hresult hmark _ ih =>
      obtain ⟨events, hbehind⟩ := ih hrest
      refine ⟨events ++ first.events, ?_⟩
      rw [List.append_assoc, ← Outcome.after_after]
      exact .next htried hresult hmark hbehind

theorem Exhausts.anyRun_of_decides (h : Exhausts Tried start before cursor failures again earlier)
    {alternative : Grammar α} (htried : Tried alternative again outcome later)
    (hdecides : outcome.Decides start) :
    ∃ events, AnyRun Tried start best (before ++ alternative :: after) cursor
      (outcome.after events) (earlier ++ later) := by
  refine h.anyRun ?_
  cases hresult : outcome.result with
  | ok node => exact .matched htried hresult
  | error failure =>
      refine .committed htried hresult (hdecides.resolve_left ?_)
      rintro ⟨node, hnode⟩
      cases hresult.symm.trans hnode

theorem Exhausts.anyRun_of_all (h : Exhausts Tried start alternatives cursor failures again steps)
    (hne : alternatives ≠ []) :
    ∃ failure events, Furthest failures failure ∧
      AnyRun Tried start none alternatives cursor ⟨.error failure, again, events⟩ steps := by
  have hfailures : failures ≠ [] := by
    rw [← List.length_pos_iff, h.length_eq]
    exact List.length_pos_iff.mpr hne
  obtain ⟨failure, hkept, hfurthest⟩ := exists_furthest hfailures
  have hrest : AnyRun Tried start (kept none failures) [] again (.failed failure again) [] := by
    rw [hkept]
    exact .exhausted
  obtain ⟨events, hrun⟩ := h.anyRun hrest
  rw [List.append_nil, List.append_nil] at hrun
  exact ⟨failure, _, hfurthest, hrun⟩

-- The search ends with the first alternative that decides, or all of them fail.
theorem AnyRun.decides_or_exhausts
    (h : AnyRun Tried start best alternatives cursor outcome steps) :
    (∃ before alternative after failures again earlier last later,
        alternatives = before ++ alternative :: after ∧
        Exhausts Tried start before cursor failures again earlier ∧
        Tried alternative again last later ∧ last.Decides start) ∨
      ∃ failures again earlier,
        Exhausts Tried start alternatives cursor failures again earlier := by
  induction h with
  | exhausted => exact .inr ⟨[], _, [], .nil⟩
  | matched htried hresult =>
      exact .inl ⟨[], _, _, [], _, [], _, _, rfl, .nil, htried, .inl ⟨_, hresult⟩⟩
  | committed htried _ hmark =>
      exact .inl ⟨[], _, _, [], _, [], _, _, rfl, .nil, htried, .inr hmark⟩
  | next htried hresult hmark _ ih =>
      obtain ⟨before, alternative, after, failures, again, earlier, last, later, rfl, hbefore,
        hlast⟩ | ⟨failures, again, earlier, hall⟩ := ih
      · exact .inl ⟨_ :: before, alternative, after, _, again, _, last, later, rfl,
          .cons htried hresult hmark hbefore, hlast⟩
      · exact .inr ⟨_, again, _, .cons htried hresult hmark hall⟩

end Relations

section Choices

-- The search for an alternative that decides, whatever happens to named parts on the way.
inductive Chooses (rules : Rules α) (start : Cursor) :
    Option Failure → List (Grammar α) → Cursor → Except Failure (Node α) → Cursor → Prop
  | exhausted {best cursor} :
      Chooses rules start best [] cursor (.error (best.getD (cursor.fail "any alternative"))) cursor
  | matched {best alternative rest cursor node stop} :
      Yields rules alternative cursor (.ok node) stop →
      Chooses rules start best (alternative :: rest) cursor (.ok node) stop
  | committed {best alternative rest cursor failure stop} :
      Yields rules alternative cursor (.error failure) stop → start.pos < stop.mark →
      Chooses rules start best (alternative :: rest) cursor (.error failure) stop
  | next {best alternative rest cursor failure behind result stop} :
      Yields rules alternative cursor (.error failure) behind → behind.mark ≤ start.pos →
      Chooses rules start (some (further best failure)) rest (behind.rewind start.toPlace) result
        stop →
      Chooses rules start best (alternative :: rest) cursor result stop

variable {rules : Rules α} {start cursor stop : Cursor} {best : Option Failure}
  {alternatives : List (Grammar α)} {result : Except Failure (Node α)}

theorem AnyRun.chooses {outcome : Outcome (Node α)} {steps : List (Step α)}
    (h : AnyRun (Runs rules) start best alternatives cursor outcome steps) :
    Chooses rules start best alternatives cursor outcome.result outcome.cursor := by
  induction h with
  | exhausted => exact .exhausted
  | matched hruns hresult =>
      rw [hresult]
      exact .matched (hresult ▸ hruns.yields)
  | committed hruns hresult hmark =>
      rw [hresult]
      exact .committed (hresult ▸ hruns.yields) hmark
  | next hruns hresult hmark _ ih => exact .next (hresult ▸ hruns.yields) hmark ih

theorem Chooses.exists_anyRun (h : Chooses rules start best alternatives cursor result stop) :
    ∃ events steps,
      AnyRun (Runs rules) start best alternatives cursor ⟨result, stop, events⟩ steps := by
  induction h with
  | exhausted => exact ⟨_, _, .exhausted⟩
  | matched hyields =>
      obtain ⟨_, _, hruns⟩ := hyields.exists_runs
      exact ⟨_, _, .matched hruns rfl⟩
  | committed hyields hmark =>
      obtain ⟨_, _, hruns⟩ := hyields.exists_runs
      exact ⟨_, _, .committed hruns rfl hmark⟩
  | next hyields hmark _ ih =>
      obtain ⟨_, _, hruns⟩ := hyields.exists_runs
      obtain ⟨_, _, hrest⟩ := ih
      exact ⟨_, _, .next hruns rfl hmark hrest⟩

theorem yields_any_iff : Yields rules (.any alternatives) cursor result stop ↔
    Chooses rules cursor none alternatives cursor result stop := by
  constructor
  · intro h
    obtain ⟨outcome, steps, hlevel, rfl, rfl⟩ := h.exists_level
    cases hlevel with
    | any hrun => exact hrun.chooses
  · intro h
    obtain ⟨events, steps, hrun⟩ := h.exists_anyRun
    exact yields_of_level (.any hrun)

end Choices

-- What is seen of an attempt at a part, however it is made.
def Saw (attempt : Attempt (Watched (Step α)) α) (part : Grammar α) (cursor : Cursor)
    (outcome : Outcome (Node α)) (steps : List (Step α)) : Prop :=
  (attempt part cursor).seen = some (outcome, steps)

-- The first alternative that matches is taken, and the first that fails for good ends the search;
-- nothing else is tried then. If all fail otherwise, the furthest failure is reported from where
-- the search has started. Nothing is asked of the attempts at the alternatives: the runs of
-- grammars are those with `watch rules fuel`.
theorem any_takes_first_or_reports_furthest (attempt : Attempt (Watched (Step α)) α)
    (rules : Rules α) {alternatives : List (Grammar α)} (hne : alternatives ≠ [])
    (cursor : Cursor) :
    let search := attemptLevel rules attempt (.any alternatives) cursor
    (∀ before alternative after failures again earlier outcome later,
        alternatives = before ++ alternative :: after →
        Exhausts (Saw attempt) cursor before cursor failures again earlier →
        Saw attempt alternative again outcome later → outcome.Decides cursor →
        ∃ events, search.seen = some (⟨outcome.result, outcome.cursor, events⟩, earlier ++ later)) ∧
      (∀ failures again steps,
        Exhausts (Saw attempt) cursor alternatives cursor failures again steps →
        again.toPlace = cursor.toPlace ∧ ∃ failure events, Furthest failures failure ∧
          search.seen = some (⟨.error failure, again, events⟩, steps)) ∧
      ∀ outcome steps, search.seen = some (outcome, steps) →
        (∃ before alternative after failures again earlier last later,
          alternatives = before ++ alternative :: after ∧
          Exhausts (Saw attempt) cursor before cursor failures again earlier ∧
          Saw attempt alternative again last later ∧ last.Decides cursor) ∨
        ∃ failures again earlier,
          Exhausts (Saw attempt) cursor alternatives cursor failures again earlier := by
  intro search
  have hseen : ∀ part cursor outcome steps, Saw attempt part cursor outcome steps →
      (attempt part cursor).seen = some (outcome, steps) := fun _ _ _ _ => id
  refine ⟨?_, ?_, ?_⟩
  · rintro before alternative after failures again earlier outcome later rfl hbefore htried hdecides
    obtain ⟨events, hrun⟩ := hbefore.anyRun_of_decides htried hdecides
    exact ⟨_, seen_attemptAny hseen hrun⟩
  · intro failures again steps hall
    obtain ⟨failure, events, hfurthest, hrun⟩ := hall.anyRun_of_all hne
    exact ⟨hall.toPlace_eq rfl, failure, events, hfurthest, seen_attemptAny hseen hrun⟩
  · intro outcome steps hsearch
    have hlevel : LevelRun (Saw attempt) rules (.any alternatives) cursor outcome steps :=
      levelRun_of_seen hseen hsearch
    cases hlevel with
    | any hrun => exact hrun.decides_or_exhausts

-- All three fail, two of them as far as can be. The first of those is reported.
theorem any_reports_first_of_two :
    let attempt := watch ({} : Rules Unit) 2
    let alternatives : List (Grammar Unit) :=
      [.exact "d", .seq [.exact "a", .exact "b"], .seq [.exact "a", .exact "c"]]
    let start := Cursor.ofInput ['a', 'x'] .ascii
    let failures : List Failure := [⟨0, "d"⟩, ⟨1, "b"⟩, ⟨1, "c"⟩]
    alternatives ≠ [] ∧ ∃ steps,
      Exhausts (Saw attempt) start alternatives start failures start steps ∧
      ∃ events, (attemptLevel {} attempt (.any alternatives) start).seen =
        some (⟨.error ⟨1, "b"⟩, start, events⟩, steps) := by
  intro attempt alternatives start failures
  have hne : alternatives ≠ [] := List.cons_ne_nil _ _
  have hsaw (part : Grammar Unit) (outcome : Outcome (Node Unit))
      (h : eval {} 2 part start = some outcome) :
      ∃ steps, Saw attempt part start outcome steps := by
    rw [← erase_watch] at h
    obtain ⟨⟨_, steps⟩, hseen, rfl⟩ := Option.map_eq_some_iff.mp h
    exact ⟨steps, hseen⟩
  obtain ⟨_, hd⟩ := hsaw (.exact "d") (.failed ⟨0, "d"⟩ start) rfl
  obtain ⟨_, hb⟩ := hsaw (.seq [.exact "a", .exact "b"]) (.failed ⟨1, "b"⟩ start) rfl
  obtain ⟨_, hc⟩ := hsaw (.seq [.exact "a", .exact "c"]) (.failed ⟨1, "c"⟩ start) rfl
  have hmark : start.mark ≤ start.pos := Nat.le_refl 0
  have hall : ∃ steps, Exhausts (Saw attempt) start alternatives start failures start steps :=
    ⟨_, .cons hd rfl hmark (.cons hb rfl hmark (.cons hc rfl hmark .nil))⟩
  obtain ⟨steps, hall⟩ := hall
  obtain ⟨-, hfurthest, -⟩ := any_takes_first_or_reports_furthest attempt {} hne start
  obtain ⟨-, failure, events, hfailure, hsearch⟩ := hfurthest failures start steps hall
  have hfirst : Furthest failures ⟨1, "b"⟩ := ⟨[⟨0, "d"⟩], [⟨1, "c"⟩], rfl, by simp, by simp⟩
  rw [hfailure.unique hfirst] at hsearch
  exact ⟨hne, steps, hall, events, hsearch⟩

end Grammar

end Descent
