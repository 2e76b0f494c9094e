import Descent.Proofs.Levels

namespace Descent

variable {α β γ : Type}

-- What a grammar can be wrapped in without any other text being matched.
inductive Wrapper where
  | label
  | named
  | map
  | bind
  | merge
  deriving DecidableEq, Repr

namespace Wrapper

-- The node that is yielded stays as it is.
def keepsNode : Wrapper → Bool
  | label | named => true
  | map | bind | merge => false

-- The failure that is reported stays as it is.
def keepsFailure : Wrapper → Bool
  | label => false
  | named | map | bind | merge => true

-- None of these wrappers changes what is yielded.
def KeepNodes (kinds : Wrapper → Bool) : Prop := ∀ kind, kinds kind → kind.keepsNode

-- None of these wrappers changes what is reported.
def KeepFailures (kinds : Wrapper → Bool) : Prop := ∀ kind, kinds kind → kind.keepsFailure

end Wrapper

namespace Grammar

mutual

-- The grammar without any wrapper of some kinds. Two grammars come out alike if one is made from
-- the other by taking off such wrappers and putting on others, wherever it is.
def strip (kinds : Wrapper → Bool) : Grammar α → Grammar α
  | scan scanner => scan scanner
  | cut => cut
  | seq parts => seq (stripAll kinds parts)
  | any alternatives => any (stripAll kinds alternatives)
  | many item separator min => many (item.strip kinds) (stripOption kinds separator) min
  | maybe part => maybe (part.strip kinds)
  | label name part =>
    if kinds .label then part.strip kinds else label name (part.strip kinds)
  | named name part =>
    if kinds .named then part.strip kinds else named name (part.strip kinds)
  | map f part => if kinds .map then part.strip kinds else map f (part.strip kinds)
  | bind value part => if kinds .bind then part.strip kinds else bind value (part.strip kinds)
  | merge part => if kinds .merge then part.strip kinds else merge (part.strip kinds)
  | tight part => tight (part.strip kinds)
  | rule name => rule name

def stripAll (kinds : Wrapper → Bool) : List (Grammar α) → List (Grammar α)
  | [] => []
  | part :: rest => part.strip kinds :: stripAll kinds rest

def stripOption (kinds : Wrapper → Bool) : Option (Grammar α) → Option (Grammar α)
  | none => none
  | some part => some (part.strip kinds)

end

end Grammar

namespace Rules

def strip (kinds : Wrapper → Bool) (rules : Rules α) : Rules α :=
  ⟨rules.definitions.map fun (name, grammar) => (name, grammar.strip kinds)⟩

theorem definition?_strip (kinds : Wrapper → Bool) (rules : Rules α) (name : String) :
    (rules.strip kinds).definition? name = (rules.definition? name).map (Grammar.strip kinds) :=
  SortedMap.find?_map (Grammar.strip kinds) name rules.definitions

end Rules

namespace Outcome

-- Both match or both fail, and leave the cursor alike. What is yielded is the same if `nodes`
-- holds, and what is reported if `failures` does.
structure Alike (nodes failures : Prop) (outcome other : Outcome β) : Prop where
  cursor : other.cursor = outcome.cursor
  ok : ∀ value, outcome.result = .ok value →
    ∃ value', other.result = .ok value' ∧ (nodes → value' = value)
  error : ∀ failure, outcome.result = .error failure →
    ∃ failure', other.result = .error failure' ∧ (failures → failure' = failure)

namespace Alike

variable {nodes failures : Prop} {outcome other third : Outcome β}

theorem of_ok {value value' : β} {cursor : Cursor} {events events' : List Event}
    (h : nodes → value' = value) :
    Alike nodes failures ⟨.ok value, cursor, events⟩ ⟨.ok value', cursor, events'⟩ where
  cursor := rfl
  ok
    | _, rfl => ⟨value', rfl, h⟩
  error _ hfailure := by cases hfailure

theorem of_error {failure failure' : Failure} {cursor : Cursor} {events events' : List Event}
    (h : failures → failure' = failure) :
    Alike (β := β) nodes failures ⟨.error failure, cursor, events⟩
      ⟨.error failure', cursor, events'⟩ where
  cursor := rfl
  ok _ hvalue := by cases hvalue
  error
    | _, rfl => ⟨failure', rfl, h⟩

-- Events do not count.
theorem of_result (hresult : other.result = outcome.result)
    (hcursor : other.cursor = outcome.cursor) : Alike nodes failures outcome other where
  cursor := hcursor
  ok value hvalue := ⟨value, hresult.trans hvalue, fun _ => rfl⟩
  error failure hfailure := ⟨failure, hresult.trans hfailure, fun _ => rfl⟩

theorem refl (outcome : Outcome β) : Alike nodes failures outcome outcome := of_result rfl rfl

theorem trans (h : Alike nodes failures outcome other) (h' : Alike nodes failures other third) :
    Alike nodes failures outcome third where
  cursor := h'.cursor.trans h.cursor
  ok value hvalue := by
    obtain ⟨value', hvalue', hsame⟩ := h.ok value hvalue
    obtain ⟨value'', hvalue'', hsame'⟩ := h'.ok value' hvalue'
    exact ⟨value'', hvalue'', fun hnodes => (hsame' hnodes).trans (hsame hnodes)⟩
  error failure hfailure := by
    obtain ⟨failure', hfailure', hsame⟩ := h.error failure hfailure
    obtain ⟨failure'', hfailure'', hsame'⟩ := h'.error failure' hfailure'
    exact ⟨failure'', hfailure'', fun hfailures => (hsame' hfailures).trans (hsame hfailures)⟩

theorem symm (h : Alike nodes failures outcome other) : Alike nodes failures other outcome where
  cursor := h.cursor.symm
  ok value' hvalue' := by
    cases hresult : outcome.result with
    | ok value =>
        obtain ⟨value'', hother, hsame⟩ := h.ok value hresult
        cases hvalue'.symm.trans hother
        exact ⟨value, rfl, fun hnodes => (hsame hnodes).symm⟩
    | error failure =>
        obtain ⟨_, hother, -⟩ := h.error failure hresult
        cases hvalue'.symm.trans hother
  error failure' hfailure' := by
    cases hresult : outcome.result with
    | ok value =>
        obtain ⟨_, hother, -⟩ := h.ok value hresult
        cases hfailure'.symm.trans hother
    | error failure =>
        obtain ⟨failure'', hother, hsame⟩ := h.error failure hresult
        cases hfailure'.symm.trans hother
        exact ⟨failure, rfl, fun hfailures => (hsame hfailures).symm⟩

theorem map {f g : β → γ} (h : Alike nodes failures outcome other) (hfg : nodes → g = f) :
    Alike nodes failures (outcome.map f) (other.map g) where
  cursor := h.cursor
  ok value hvalue := by
    obtain ⟨inner, hinner, rfl⟩ := map_result_eq_ok_iff.mp hvalue
    obtain ⟨inner', hinner', hsame⟩ := h.ok inner hinner
    refine ⟨g inner', map_result_eq_ok_iff.mpr ⟨inner', hinner', rfl⟩, fun hnodes => ?_⟩
    rw [hsame hnodes, hfg hnodes]
  error failure hfailure := by
    obtain ⟨failure', hfailure', hsame⟩ := h.error failure (map_result_eq_error_iff.mp hfailure)
    exact ⟨failure', map_result_eq_error_iff.mpr hfailure', hsame⟩

-- Another value in place of the one that is yielded.
theorem of_map {f : β → β} (h : Alike nodes failures outcome other) (hnot : ¬nodes) :
    Alike nodes failures (outcome.map f) other where
  cursor := h.cursor
  ok value hvalue := by
    obtain ⟨inner, hinner, rfl⟩ := map_result_eq_ok_iff.mp hvalue
    obtain ⟨inner', hinner', -⟩ := h.ok inner hinner
    exact ⟨inner', hinner', fun hnodes => absurd hnodes hnot⟩
  error failure hfailure := h.error failure (map_result_eq_error_iff.mp hfailure)

end Alike

end Outcome

namespace Grammar

-- An attempt at the stripped grammar that comes out alike. A node may be another one if wrappers
-- that change nodes were stripped, and a failure if labels were.
def StripsAlike (kinds : Wrapper → Bool) (rules : Rules α) (grammar : Grammar α) (cursor : Cursor)
    (outcome : Outcome (Node α)) : Prop :=
  ∃ other, (∃ steps, Runs (rules.strip kinds) (grammar.strip kinds) cursor other steps) ∧
    outcome.Alike (Wrapper.KeepNodes kinds) (Wrapper.KeepFailures kinds) other

-- A wrapper that puts another node in place of the one of its part.
theorem StripsAlike.map {kinds : Wrapper → Bool} {kind : Wrapper} {rules : Rules α}
    {part wrapped rewrapped : Grammar α} {cursor : Cursor} {outcome : Outcome (Node α)}
    {f : Node α → Node α} (h : StripsAlike kinds rules part cursor outcome)
    (hkind : ¬kind.keepsNode)
    (hstrip : wrapped.strip kinds = if kinds kind then part.strip kinds else rewrapped)
    (hlevel : ∀ {other steps}, Runs (rules.strip kinds) (part.strip kinds) cursor other steps →
      LevelRun (Runs (rules.strip kinds)) (rules.strip kinds) rewrapped cursor (other.map f)
        steps) : StripsAlike kinds rules wrapped cursor (outcome.map f) := by
  obtain ⟨other, ⟨steps, hruns⟩, halike⟩ := h
  rw [StripsAlike, hstrip]
  split
  · rename_i hstripped
    exact ⟨other, ⟨steps, hruns⟩, halike.of_map fun hkeeps => hkind (hkeeps kind hstripped)⟩
  · exact ⟨_, exists_runs_of_level ⟨_, hlevel hruns⟩, halike.map fun _ => rfl⟩

section Level

variable {kinds : Wrapper → Bool} {rules : Rules α}
  {Tried : Grammar α → Cursor → Outcome (Node α) → List (Step α) → Prop}
  (hparts : ∀ {part cursor outcome steps}, Tried part cursor outcome steps →
    outcome.Contract cursor ∧ StripsAlike kinds rules part cursor outcome)

include hparts

theorem PartsRun.strip {parts : List (Grammar α)} {cursor : Cursor}
    {outcome : Outcome (List (Node α))} {steps : List (Step α)}
    (h : PartsRun Tried parts cursor outcome steps) :
    ∃ other steps,
      PartsRun (Runs (rules.strip kinds)) (stripAll kinds parts) cursor other steps ∧
      outcome.Alike (Wrapper.KeepNodes kinds) (Wrapper.KeepFailures kinds) other := by
  induction h with
  | nil => exact ⟨_, _, .nil, .refl _⟩
  | failed hpart hresult =>
      obtain ⟨⟨_, _, _⟩, ⟨_, hruns⟩, rfl, _, herror⟩ := (hparts hpart).2
      obtain ⟨failure', hfailure, hsame⟩ := herror _ hresult
      exact ⟨_, _, .failed hruns hfailure, .of_error hsame⟩
  | cons hpart hresult _ ih =>
      obtain ⟨⟨_, _, _⟩, ⟨_, hruns⟩, rfl, hok, _⟩ := (hparts hpart).2
      obtain ⟨node', hnode, hsame⟩ := hok _ hresult
      obtain ⟨others, _, hrest, halike⟩ := ih
      have htogether := halike.map fun hnodes => congrArg List.cons (hsame hnodes)
      exact ⟨_, _, .cons hruns hnode hrest, htogether.cursor, htogether.ok, htogether.error⟩

theorem AnyRun.strip {start : Cursor} {best best' : Option Failure}
    {alternatives : List (Grammar α)} {cursor : Cursor} {outcome : Outcome (Node α)}
    {steps : List (Step α)} (h : AnyRun Tried start best alternatives cursor outcome steps)
    (hbest : Wrapper.KeepFailures kinds → best' = best) :
    ∃ other steps,
      AnyRun (Runs (rules.strip kinds)) start best' (stripAll kinds alternatives) cursor other
        steps ∧
      outcome.Alike (Wrapper.KeepNodes kinds) (Wrapper.KeepFailures kinds) other := by
  induction h generalizing best' with
  | exhausted =>
      refine ⟨_, _, .exhausted, .of_error fun hfailures => ?_⟩
      rw [hbest hfailures]
  | matched hpart hresult =>
      obtain ⟨other, ⟨_, hruns⟩, halike⟩ := (hparts hpart).2
      obtain ⟨node', hnode, -⟩ := halike.ok _ hresult
      exact ⟨other, _, .matched hruns hnode, halike⟩
  | committed hpart hresult hmark =>
      obtain ⟨other, ⟨_, hruns⟩, halike⟩ := (hparts hpart).2
      obtain ⟨failure', hfailure, -⟩ := halike.error _ hresult
      exact ⟨other, _, .committed hruns hfailure (by rwa [halike.cursor]), halike⟩
  | @next best _ _ _ _ _ failure _ _ hpart hresult hmark _ ih =>
      obtain ⟨⟨_, _, _⟩, ⟨_, hruns⟩, rfl, _, herror⟩ := (hparts hpart).2
      obtain ⟨failure', hfailure, hsame⟩ := herror _ hresult
      have hfurther : Wrapper.KeepFailures kinds →
          some (further best' failure') = some (further best failure) := by
        intro hfailures
        rw [hbest hfailures, hsame hfailures]
      obtain ⟨others, _, hrest, halike⟩ := ih hfurther
      exact ⟨_, _, .next hruns hfailure hmark hrest, halike.cursor, halike.ok, halike.error⟩

theorem SeparatorRun.strip {separator : Option (Grammar α)} {cursor : Cursor}
    {outcome : Outcome (Node α)} {steps : List (Step α)}
    (h : SeparatorRun Tried separator cursor outcome steps) :
    ∃ other steps,
      SeparatorRun (Runs (rules.strip kinds)) (stripOption kinds separator) cursor other steps ∧
      outcome.Alike (Wrapper.KeepNodes kinds) (Wrapper.KeepFailures kinds) other := by
  cases h with
  | none => exact ⟨_, _, .none, .refl _⟩
  | some hpart =>
      obtain ⟨other, ⟨_, hruns⟩, halike⟩ := (hparts hpart).2
      exact ⟨other, _, .some hruns, halike⟩

theorem ItemsRun.strip {item : Grammar α} {separator : Option (Grammar α)} {start : Cursor}
    {min : Nat} {cursor : Cursor} {outcome : Outcome (List (Node α))} {steps : List (Step α)}
    (h : ItemsRun Tried item separator start min cursor outcome steps) :
    ∃ other steps,
      ItemsRun (Runs (rules.strip kinds)) (item.strip kinds) (stripOption kinds separator) start
        min cursor other steps ∧
      outcome.Alike (Wrapper.KeepNodes kinds) (Wrapper.KeepFailures kinds) other := by
  induction h with
  | committed hitem hresult hmark =>
      obtain ⟨⟨_, _, _⟩, ⟨_, hruns⟩, rfl, _, herror⟩ := (hparts hitem).2
      obtain ⟨failure', hfailure, hsame⟩ := herror _ hresult
      exact ⟨_, _, .committed hruns hfailure hmark, .of_error hsame⟩
  | short hitem hresult hmark hmin =>
      obtain ⟨⟨_, _, _⟩, ⟨_, hruns⟩, rfl, _, herror⟩ := (hparts hitem).2
      obtain ⟨failure', hfailure, hsame⟩ := herror _ hresult
      exact ⟨_, _, .short hruns hfailure hmark hmin, .of_error hsame⟩
  | ended hitem hresult hmark =>
      obtain ⟨⟨_, _, _⟩, ⟨_, hruns⟩, rfl, _, herror⟩ := (hparts hitem).2
      obtain ⟨failure', hfailure, -⟩ := herror _ hresult
      exact ⟨_, _, .ended hruns hfailure hmark, .of_ok fun _ => rfl⟩
  | separatorCommitted hitem hresult hseparator hseparated hmark =>
      obtain ⟨⟨_, _, _⟩, ⟨_, hruns⟩, rfl, hok, _⟩ := (hparts hitem).2
      obtain ⟨node', hnode, -⟩ := hok _ hresult
      obtain ⟨⟨_, _, _⟩, _, hseparator', rfl, _, herror⟩ := hseparator.strip hparts
      obtain ⟨failure', hfailure, hsame⟩ := herror _ hseparated
      exact ⟨_, _, .separatorCommitted hruns hnode hseparator' hfailure hmark, .of_error hsame⟩
  | separatorEnded hitem hresult hseparator hseparated hmark =>
      obtain ⟨⟨_, _, _⟩, ⟨_, hruns⟩, rfl, hok, _⟩ := (hparts hitem).2
      obtain ⟨node', hnode, hsame⟩ := hok _ hresult
      obtain ⟨⟨_, _, _⟩, _, hseparator', rfl, _, herror⟩ := hseparator.strip hparts
      obtain ⟨failure', hfailure, -⟩ := herror _ hseparated
      have hnodes := fun hkeeps => congrArg (fun node => [node]) (hsame hkeeps)
      exact ⟨_, _, .separatorEnded hruns hnode hseparator' hfailure hmark, .of_ok hnodes⟩
  | stuck hitem hresult hseparator hseparated hstuck =>
      obtain ⟨⟨_, _, _⟩, ⟨_, hruns⟩, rfl, hok, _⟩ := (hparts hitem).2
      obtain ⟨node', hnode, hsame⟩ := hok _ hresult
      obtain ⟨⟨_, _, _⟩, _, hseparator', rfl, hok', _⟩ := hseparator.strip hparts
      obtain ⟨separated', hseparated', -⟩ := hok' _ hseparated
      have hnodes := fun hkeeps => congrArg (fun node => [node]) (hsame hkeeps)
      exact ⟨_, _, .stuck hruns hnode hseparator' hseparated' hstuck, .of_ok hnodes⟩
  | next hitem hresult hseparator hseparated hmoved _ ih =>
      obtain ⟨⟨_, _, _⟩, ⟨_, hruns⟩, rfl, hok, _⟩ := (hparts hitem).2
      obtain ⟨node', hnode, hsame⟩ := hok _ hresult
      obtain ⟨⟨_, _, _⟩, _, hseparator', rfl, hok', _⟩ := hseparator.strip hparts
      obtain ⟨separated', hseparated', -⟩ := hok' _ hseparated
      obtain ⟨others, _, hrest, halike⟩ := ih
      have htogether := halike.map fun hnodes => congrArg List.cons (hsame hnodes)
      exact ⟨_, _, .next hruns hnode hseparator' hseparated' hmoved hrest, htogether.cursor,
        htogether.ok, htogether.error⟩

-- A wrapper that is stripped makes no difference but in the node or the failure.
theorem LevelRun.strip {grammar : Grammar α} {cursor : Cursor} {outcome : Outcome (Node α)}
    {inner : List (Step α)} (h : LevelRun Tried rules grammar cursor outcome inner) :
    StripsAlike kinds rules grammar cursor outcome := by
  cases h with
  | scan => exact ⟨_, exists_runs_of_level ⟨_, .scan⟩, .refl _⟩
  | cut => exact ⟨_, exists_runs_of_level ⟨_, .cut⟩, .refl _⟩
  | seq hrun hresult =>
      obtain ⟨⟨_, _, _⟩, _, hrun', rfl, hok, _⟩ := hrun.strip hparts
      obtain ⟨nodes', hnodes, hsame⟩ := hok _ hresult
      refine ⟨_, exists_runs_of_level ⟨_, .seq hrun' hnodes⟩, .of_ok fun hkeeps => ?_⟩
      rw [hsame hkeeps]
  | seqCommitted hrun hresult hmark =>
      obtain ⟨⟨_, _, _⟩, _, hrun', rfl, _, herror⟩ := hrun.strip hparts
      obtain ⟨failure', hfailure, hsame⟩ := herror _ hresult
      exact ⟨_, exists_runs_of_level ⟨_, .seqCommitted hrun' hfailure hmark⟩, .of_error hsame⟩
  | seqFailed hrun hresult hmark =>
      obtain ⟨⟨_, _, _⟩, _, hrun', rfl, _, herror⟩ := hrun.strip hparts
      obtain ⟨failure', hfailure, hsame⟩ := herror _ hresult
      exact ⟨_, exists_runs_of_level ⟨_, .seqFailed hrun' hfailure hmark⟩, .of_error hsame⟩
  | any hrun =>
      obtain ⟨other, _, hrun', halike⟩ := hrun.strip hparts fun _ => rfl
      exact ⟨other, exists_runs_of_level ⟨_, .any hrun'⟩, halike⟩
  | many hrun =>
      obtain ⟨other, _, hrun', halike⟩ := hrun.strip hparts
      exact ⟨_, exists_runs_of_level ⟨_, .many hrun'⟩, halike.map fun _ => rfl⟩
  | maybe hpart hresult =>
      obtain ⟨other, ⟨_, hruns⟩, halike⟩ := (hparts hpart).2
      obtain ⟨node', hnode, -⟩ := halike.ok _ hresult
      exact ⟨other, exists_runs_of_level ⟨_, .maybe hruns hnode⟩, halike⟩
  | maybeCommitted hpart hresult hmark =>
      obtain ⟨other, ⟨_, hruns⟩, halike⟩ := (hparts hpart).2
      obtain ⟨failure', hfailure, -⟩ := halike.error _ hresult
      rw [← halike.cursor] at hmark
      exact ⟨other, exists_runs_of_level ⟨_, .maybeCommitted hruns hfailure hmark⟩, halike⟩
  | maybeFailed hpart hresult hmark =>
      obtain ⟨⟨_, _, _⟩, ⟨_, hruns⟩, rfl, _, herror⟩ := (hparts hpart).2
      obtain ⟨failure', hfailure, -⟩ := herror _ hresult
      exact ⟨_, exists_runs_of_level ⟨_, .maybeFailed hruns hfailure hmark⟩, .of_ok fun _ => rfl⟩
  | @label name part _ _ _ _ hpart hresult =>
      obtain ⟨other, ⟨steps, hruns⟩, halike⟩ := (hparts hpart).2
      obtain ⟨node', hnode, -⟩ := halike.ok _ hresult
      refine ⟨other, ?_, halike⟩
      rw [Grammar.strip]
      split
      · exact ⟨steps, hruns⟩
      · exact exists_runs_of_level ⟨_, .label hruns hnode⟩
  | labelCommitted hpart hresult hmark =>
      obtain ⟨other, ⟨steps, hruns⟩, halike⟩ := (hparts hpart).2
      obtain ⟨failure', hfailure, -⟩ := halike.error _ hresult
      refine ⟨other, ?_, halike⟩
      rw [Grammar.strip]
      split
      · exact ⟨steps, hruns⟩
      · rw [← halike.cursor] at hmark
        exact exists_runs_of_level ⟨_, .labelCommitted hruns hfailure hmark⟩
  | @labelFailed name part _ outcome _ failure hpart hresult hmark =>
      obtain ⟨hcontract, ⟨_, _, _⟩, ⟨steps, hruns⟩, rfl, _, herror⟩ := hparts hpart
      obtain ⟨failure', hfailure, -⟩ := herror _ hresult
      rw [StripsAlike, Grammar.strip]
      split
      · rename_i hkind
        have hback : outcome.back cursor = outcome.cursor := by
          have hplace := (hcontract.back failure hresult).resolve_right (Nat.not_lt_of_le hmark)
          rw [Outcome.back, Cursor.rewind, ← hplace]
        refine ⟨_, ⟨steps, hruns⟩, ?_⟩
        simp only at hfailure
        rw [labeled, hback, hfailure]
        exact .of_error fun hkeeps => absurd (hkeeps .label hkind) (by decide)
      · exact ⟨_, exists_runs_of_level ⟨_, .labelFailed hruns hfailure hmark⟩, .of_result rfl rfl⟩
  | named hpart =>
      obtain ⟨other, ⟨steps, hruns⟩, halike⟩ := (hparts hpart).2
      rw [StripsAlike, Grammar.strip]
      split
      · exact ⟨other, ⟨steps, hruns⟩, halike.cursor, halike.ok, halike.error⟩
      · refine ⟨_, exists_runs_of_level ⟨_, .named hruns⟩, ?_⟩
        exact ⟨halike.cursor, halike.ok, halike.error⟩
  | map hpart => exact (hparts hpart).2.map (by decide) rfl fun hruns => .map hruns
  | bind hpart => exact (hparts hpart).2.map (by decide) rfl fun hruns => .bind hruns
  | merge hpart => exact (hparts hpart).2.map (by decide) rfl fun hruns => .merge hruns
  | tight hpart =>
      obtain ⟨⟨_, _, _⟩, ⟨_, hruns⟩, rfl, hok, herror⟩ := (hparts hpart).2
      have hlevel : LevelRun (Runs (rules.strip kinds)) (rules.strip kinds) _ cursor _ _ :=
        .tight hruns
      exact ⟨_, exists_runs_of_level ⟨_, hlevel⟩, rfl, hok, herror⟩
  | undefined hdefinition =>
      refine ⟨_, exists_runs_of_level ⟨_, .undefined ?_⟩, .refl _⟩
      rw [Rules.definition?_strip, hdefinition, Option.map_none]
  | rule hdefinition hpart =>
      obtain ⟨other, ⟨_, hruns⟩, halike⟩ := (hparts hpart).2
      refine ⟨_, exists_runs_of_level ⟨_, .rule ?_ hruns⟩, halike.cursor, halike.ok, halike.error⟩
      rw [Rules.definition?_strip, hdefinition, Option.map_some]

end Level

theorem Returns.strip {rules : Rules α} {grammar : Grammar α} {cursor : Cursor}
    {outcome : Outcome (Node α)} (h : Returns rules grammar cursor outcome)
    (kinds : Wrapper → Bool) :
    ∃ other, Returns (rules.strip kinds) (grammar.strip kinds) cursor other ∧
      outcome.Alike (Wrapper.KeepNodes kinds) (Wrapper.KeepFailures kinds) other := by
  obtain ⟨steps, hruns⟩ := h.exists_runs
  obtain ⟨other, ⟨_, hother⟩, halike⟩ := hruns.induction
    (P := fun grammar cursor outcome _ => StripsAlike kinds rules grammar cursor outcome)
    fun hlevel => hlevel.strip fun hpart => ⟨hpart.1.returns.contract, hpart.2⟩
  exact ⟨other, hother.returns, halike⟩

-- The grammars and their rules differ in wrappers of these kinds only.
def SameBut (kinds : Wrapper → Bool) (rules rules' : Rules α) (grammar grammar' : Grammar α) :
    Prop :=
  rules'.strip kinds = rules.strip kinds ∧ grammar'.strip kinds = grammar.strip kinds

variable {rules rules' : Rules α} {grammar grammar' : Grammar α} {cursor : Cursor}
  {outcome outcome' : Outcome (Node α)}

-- Both are compared with what the stripped grammar comes to.
theorem SameBut.alike {kinds : Wrapper → Bool} (hsame : SameBut kinds rules rules' grammar grammar')
    (h : Returns rules grammar cursor outcome) (h' : Returns rules' grammar' cursor outcome') :
    outcome.Alike (Wrapper.KeepNodes kinds) (Wrapper.KeepFailures kinds) outcome' := by
  obtain ⟨other, hother, halike⟩ := h.strip kinds
  obtain ⟨other', hother', halike'⟩ := h'.strip kinds
  rw [hsame.1, hsame.2] at hother'
  rw [hother'.unique hother] at halike'
  exact halike.trans halike'.symm

-- Which way a run takes depends neither on nodes nor on what is reported.
theorem wrappers_leave_control (hsame : SameBut (fun _ => true) rules rules' grammar grammar')
    (h : Returns rules grammar cursor outcome) (h' : Returns rules' grammar' cursor outcome') :
    ((∃ node, outcome.result = .ok node) ↔ ∃ node, outcome'.result = .ok node) ∧
    outcome'.cursor = outcome.cursor ∧
    (SameBut Wrapper.keepsNode rules rules' grammar grammar' →
      ∀ node, outcome.result = .ok node → outcome'.result = .ok node) ∧
    (SameBut Wrapper.keepsFailure rules rules' grammar grammar' →
      ∀ failure, outcome.result = .error failure → outcome'.result = .error failure) := by
  have halike := hsame.alike h h'
  refine ⟨⟨?_, ?_⟩, halike.cursor, ?_, ?_⟩
  · rintro ⟨node, hnode⟩
    obtain ⟨node', hnode', -⟩ := halike.ok node hnode
    exact ⟨node', hnode'⟩
  · rintro ⟨node, hnode⟩
    obtain ⟨node', hnode', -⟩ := halike.symm.ok node hnode
    exact ⟨node', hnode'⟩
  · intro hnodes node hnode
    obtain ⟨node', hnode', heq⟩ := (hnodes.alike h h').ok node hnode
    rw [hnode', heq fun _ hkind => hkind]
  · intro hfailures failure hfailure
    obtain ⟨failure', hfailure', heq⟩ := (hfailures.alike h h').error failure hfailure
    rw [hfailure', heq fun _ hkind => hkind]

-- The first alternative fails at another place under its label, and both go on to the second.
theorem wrappers_leave_control_behind_rule :
    let start := Cursor.ofInput ['a', 'c'] .ascii
    let stop := { start with pos := 2, rest := [] }
    let rules : Rules Unit := ⟨[("pair", .label "a pair" (.seq [.exact "a", .exact "b"]))]⟩
    let rules' : Rules Unit := ⟨[("pair", .seq [.merge (.exact "a"), .bind .null (.exact "b")])]⟩
    let listed : Node Unit → Node Unit := fun node => .value node.itemList
    let grammar : Grammar Unit := .any [.rule "pair", .map listed (.exact "ac")]
    let grammar' : Grammar Unit := .named "choice" (.any [.rule "pair", .exact "ac"])
    let outcome : Outcome (Node Unit) := run rules grammar start
    let outcome' : Outcome (Node Unit) := run rules' grammar' start
    (SameBut (fun _ => true) rules rules' grammar grammar' ∧
      Returns rules grammar start outcome ∧ Returns rules' grammar' start outcome') ∧
    (∃ node, outcome.result = .ok node) ∧ (∃ node, outcome'.result = .ok node) ∧
    outcome.cursor = stop ∧ outcome'.cursor = stop := by
  intro start stop rules rules' listed grammar grammar' outcome outcome'
  have hsame : SameBut (fun _ => true) rules rules' grammar grammar' := ⟨rfl, rfl⟩
  have h : Returns rules grammar start outcome := ⟨5, rfl⟩
  have h' : Returns rules' grammar' start outcome' := ⟨6, rfl⟩
  have hnode : ∃ node, outcome.result = .ok node := ⟨_, rfl⟩
  obtain ⟨hmatch, hcursor, -⟩ := wrappers_leave_control hsame h h'
  exact ⟨⟨hsame, h, h'⟩, hnode, hmatch.mp hnode, rfl, hcursor⟩

end Grammar

end Descent
