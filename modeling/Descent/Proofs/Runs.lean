import Descent.Proofs.Attempts

namespace Descent.Grammar

variable {α : Type}

-- The failure that is kept is the last one or one that was kept before.
theorem forall_mem_further {P : Failure → Prop} {best : Option Failure} {failure : Failure}
    (hbest : ∀ earlier ∈ best, P earlier) (h : P failure) :
    ∀ kept ∈ some (further best failure), P kept := by
  rintro _ ⟨⟩
  cases best with
  | none => exact h
  | some earlier =>
      simp only [further]
      split
      · exact h
      · exact hbest earlier rfl

section Relations

-- `Tried grammar cursor outcome steps` says how the attempts at the parts come out.
variable (Tried : Grammar α → Cursor → Outcome (Node α) → List (Step α) → Prop)

inductive PartsRun : List (Grammar α) → Cursor → Outcome (List (Node α)) → List (Step α) → Prop
  | nil {cursor} : PartsRun [] cursor (.ok [] cursor) []
  | failed {part rest cursor first steps failure} :
      Tried part cursor first steps → first.result = .error failure →
      PartsRun (part :: rest) cursor ⟨.error failure, first.cursor, first.events⟩ steps
  | cons {part rest cursor first steps node others later} :
      Tried part cursor first steps → first.result = .ok node →
      PartsRun rest first.cursor others later →
      PartsRun (part :: rest) cursor ((others.map (node :: ·)).after first.events) (steps ++ later)

inductive AnyRun (start : Cursor) :
    Option Failure → List (Grammar α) → Cursor → Outcome (Node α) → List (Step α) → Prop
  | exhausted {best cursor} :
      AnyRun start best [] cursor (.failed (best.getD (cursor.fail "any alternative")) cursor) []
  | matched {best alternative rest cursor outcome steps node} :
      Tried alternative cursor outcome steps → outcome.result = .ok node →
      AnyRun start best (alternative :: rest) cursor outcome steps
  | committed {best alternative rest cursor outcome steps failure} :
      Tried alternative cursor outcome steps → outcome.result = .error failure →
      start.pos < outcome.cursor.mark →
      AnyRun start best (alternative :: rest) cursor outcome steps
  | next {best alternative rest cursor outcome steps failure others later} :
      Tried alternative cursor outcome steps → outcome.result = .error failure →
      outcome.cursor.mark ≤ start.pos →
      AnyRun start (some (further best failure)) rest (outcome.back start) others later →
      AnyRun start best (alternative :: rest) cursor (others.after outcome.events)
        (steps ++ later)

inductive SeparatorRun : Option (Grammar α) → Cursor → Outcome (Node α) → List (Step α) → Prop
  | none {cursor} : SeparatorRun none cursor (.ok .empty cursor) []
  | some {separator cursor outcome steps} :
      Tried separator cursor outcome steps → SeparatorRun (some separator) cursor outcome steps

inductive ItemsRun (item : Grammar α) (separator : Option (Grammar α)) (start : Cursor) :
    Nat → Cursor → Outcome (List (Node α)) → List (Step α) → Prop
  -- the item fails for good
  | committed {min cursor outcome steps failure} :
      Tried item cursor outcome steps → outcome.result = .error failure →
      cursor.pos < outcome.cursor.mark →
      ItemsRun item separator start min cursor ⟨.error failure, outcome.cursor, outcome.events⟩
        steps
  -- the item fails while items are needed
  | short {min cursor outcome steps failure} :
      Tried item cursor outcome steps → outcome.result = .error failure →
      outcome.cursor.mark ≤ cursor.pos → 0 < min →
      ItemsRun item separator start min cursor ⟨.error failure, outcome.back start, outcome.events⟩
        steps
  | ended {cursor outcome steps failure} :
      Tried item cursor outcome steps → outcome.result = .error failure →
      outcome.cursor.mark ≤ cursor.pos →
      ItemsRun item separator start 0 cursor ⟨.ok [], outcome.cursor, outcome.events⟩ steps
  | separatorCommitted {min cursor outcome steps node between later failure} :
      Tried item cursor outcome steps → outcome.result = .ok node →
      SeparatorRun Tried separator outcome.cursor between later → between.result = .error failure →
      outcome.cursor.pos < between.cursor.mark →
      ItemsRun item separator start min cursor
        ⟨.error failure, between.cursor, between.events ++ outcome.events⟩ (steps ++ later)
  | separatorEnded {min cursor outcome steps node between later failure} :
      Tried item cursor outcome steps → outcome.result = .ok node →
      SeparatorRun Tried separator outcome.cursor between later → between.result = .error failure →
      between.cursor.mark ≤ outcome.cursor.pos →
      ItemsRun item separator start min cursor
        ⟨.ok [node], between.cursor, between.events ++ outcome.events⟩ (steps ++ later)
  -- nothing has been consumed
  | stuck {min cursor outcome steps node between later separated} :
      Tried item cursor outcome steps → outcome.result = .ok node →
      SeparatorRun Tried separator outcome.cursor between later → between.result = .ok separated →
      between.cursor.pos = cursor.pos →
      ItemsRun item separator start min cursor
        ⟨.ok [node], between.cursor, between.events ++ outcome.events⟩ (steps ++ later)
  | next {min cursor outcome steps node between later separated others last} :
      Tried item cursor outcome steps → outcome.result = .ok node →
      SeparatorRun Tried separator outcome.cursor between later → between.result = .ok separated →
      between.cursor.pos ≠ cursor.pos →
      ItemsRun item separator start (min - 1) between.cursor others last →
      ItemsRun item separator start min cursor
        ((others.map (node :: ·)).after (between.events ++ outcome.events)) (steps ++ later ++ last)

-- What a grammar does when its parts do as `Tried` says.
inductive LevelRun (rules : Rules α) :
    Grammar α → Cursor → Outcome (Node α) → List (Step α) → Prop
  | scan {scanner cursor} : LevelRun rules (.scan scanner) cursor (attemptScan scanner cursor) []
  | cut {cursor} : LevelRun rules .cut cursor (.ok .empty cursor.commit) []
  | seq {parts cursor outcome steps nodes} :
      PartsRun Tried parts cursor outcome steps → outcome.result = .ok nodes →
      LevelRun rules (.seq parts) cursor ⟨.ok (.children nodes), outcome.cursor, outcome.events⟩
        steps
  | seqCommitted {parts cursor outcome steps failure} :
      PartsRun Tried parts cursor outcome steps → outcome.result = .error failure →
      cursor.pos < outcome.cursor.mark →
      LevelRun rules (.seq parts) cursor ⟨.error failure, outcome.cursor, outcome.events⟩ steps
  | seqFailed {parts cursor outcome steps failure} :
      PartsRun Tried parts cursor outcome steps → outcome.result = .error failure →
      outcome.cursor.mark ≤ cursor.pos →
      LevelRun rules (.seq parts) cursor ⟨.error failure, outcome.back cursor, outcome.events⟩ steps
  | any {alternatives cursor outcome steps} :
      AnyRun Tried cursor none alternatives cursor outcome steps →
      LevelRun rules (.any alternatives) cursor outcome steps
  | many {item separator min cursor outcome steps} :
      ItemsRun Tried item separator cursor min cursor outcome steps →
      LevelRun rules (.many item separator min) cursor (outcome.map .children) steps
  | maybe {part cursor outcome steps node} :
      Tried part cursor outcome steps → outcome.result = .ok node →
      LevelRun rules (.maybe part) cursor outcome steps
  | maybeCommitted {part cursor outcome steps failure} :
      Tried part cursor outcome steps → outcome.result = .error failure →
      cursor.pos < outcome.cursor.mark → LevelRun rules (.maybe part) cursor outcome steps
  | maybeFailed {part cursor outcome steps failure} :
      Tried part cursor outcome steps → outcome.result = .error failure →
      outcome.cursor.mark ≤ cursor.pos →
      LevelRun rules (.maybe part) cursor (skipped cursor outcome) steps
  | label {name part cursor outcome steps node} :
      Tried part cursor outcome steps → outcome.result = .ok node →
      LevelRun rules (.label name part) cursor outcome steps
  | labelCommitted {name part cursor outcome steps failure} :
      Tried part cursor outcome steps → outcome.result = .error failure →
      cursor.pos < outcome.cursor.mark → LevelRun rules (.label name part) cursor outcome steps
  | labelFailed {name part cursor outcome steps failure} :
      Tried part cursor outcome steps → outcome.result = .error failure →
      outcome.cursor.mark ≤ cursor.pos →
      LevelRun rules (.label name part) cursor (labeled name cursor outcome) steps
  | named {name part cursor outcome steps} :
      Tried part cursor outcome steps →
      LevelRun rules (.named name part) cursor (traced name cursor outcome) steps
  | map {f part cursor outcome steps} :
      Tried part cursor outcome steps → LevelRun rules (.map f part) cursor (outcome.map f) steps
  | bind {value part cursor outcome steps} :
      Tried part cursor outcome steps →
      LevelRun rules (.bind value part) cursor (outcome.map fun _ => .value value) steps
  | merge {part cursor outcome steps} :
      Tried part cursor outcome steps →
      LevelRun rules (.merge part) cursor (outcome.map fun node => .token node.flatten) steps
  | tight {part cursor outcome steps} :
      Tried part (cursor.withAutoSkip false) outcome steps →
      LevelRun rules (.tight part) cursor
        { outcome with cursor := outcome.cursor.withAutoSkip cursor.autoSkip } steps
  | undefined {name cursor} :
      rules.definition? name = none →
      LevelRun rules (.rule name) cursor (attemptNothing name cursor) []
  | rule {name definition cursor outcome steps} :
      rules.definition? name = some definition → Tried definition cursor outcome steps →
      LevelRun rules (.rule name) cursor (traced name cursor outcome) steps

end Relations

theorem SeparatorRun.mono
    {Tried Tried' : Grammar α → Cursor → Outcome (Node α) → List (Step α) → Prop}
    (hmono : ∀ part cursor outcome steps, Tried part cursor outcome steps →
      Tried' part cursor outcome steps)
    {separator : Option (Grammar α)} {cursor : Cursor} {outcome : Outcome (Node α)}
    {steps : List (Step α)} (h : SeparatorRun Tried separator cursor outcome steps) :
    SeparatorRun Tried' separator cursor outcome steps := by
  cases h with
  | none => exact .none
  | some hpart => exact .some (hmono _ _ _ _ hpart)

section Inversion

private theorem lt_or_le_of_committed {β : Type} (outcome : Outcome β) (start : Cursor) :
    (outcome.committed start = true ∧ start.pos < outcome.cursor.mark) ∨
      (outcome.committed start = false ∧ outcome.cursor.mark ≤ start.pos) := by
  by_cases h : start.pos < outcome.cursor.mark
  · exact .inl ⟨Outcome.committed_iff.mpr h, h⟩
  · have hle := Nat.le_of_not_lt h
    exact .inr ⟨Outcome.committed_eq_false_iff.mpr hle, hle⟩

variable {rules : Rules α} {attempt : Attempt (Watched (Step α)) α}
  {Tried : Grammar α → Cursor → Outcome (Node α) → List (Step α) → Prop}
  (htried : ∀ part cursor outcome steps,
    (attempt part cursor).seen = some (outcome, steps) → Tried part cursor outcome steps)

include htried

private theorem partsRun_of_seen {parts : List (Grammar α)} {cursor : Cursor}
    {outcome : Outcome (List (Node α))} {steps : List (Step α)}
    (hseen : (attemptParts attempt parts cursor).seen = some (outcome, steps)) :
    PartsRun Tried parts cursor outcome steps := by
  induction parts generalizing cursor outcome steps with
  | nil =>
      cases hseen
      exact .nil
  | cons part rest ih =>
      obtain ⟨first, steps, later, hfirst, h, rfl⟩ := Watched.seen_bind_eq_some_iff.mp hseen
      cases hresult : first.result with
      | error failure =>
          simp only [hresult] at h
          cases h
          rw [List.append_nil]
          exact .failed (htried _ _ _ _ hfirst) hresult
      | ok node =>
          simp only [hresult] at h
          obtain ⟨others, hothers, rfl⟩ := Watched.seen_bind_pure_eq_some_iff.mp h
          exact .cons (htried _ _ _ _ hfirst) hresult (ih hothers)

private theorem anyRun_of_seen {start : Cursor} {best : Option Failure}
    {alternatives : List (Grammar α)} {cursor : Cursor} {outcome : Outcome (Node α)}
    {steps : List (Step α)}
    (hseen : (attemptAny attempt start best alternatives cursor).seen = some (outcome, steps)) :
    AnyRun Tried start best alternatives cursor outcome steps := by
  induction alternatives generalizing best cursor outcome steps with
  | nil =>
      cases hseen
      exact .exhausted
  | cons alternative rest ih =>
      obtain ⟨first, steps, later, hfirst, h, rfl⟩ := Watched.seen_bind_eq_some_iff.mp hseen
      cases hresult : first.result with
      | ok node =>
          simp only [hresult] at h
          cases h
          rw [List.append_nil]
          exact .matched (htried _ _ _ _ hfirst) hresult
      | error failure =>
          simp only [hresult] at h
          rcases lt_or_le_of_committed first start with ⟨hc, hmark⟩ | ⟨hc, hmark⟩
          · simp only [hc, if_true] at h
            cases h
            rw [List.append_nil]
            exact .committed (htried _ _ _ _ hfirst) hresult hmark
          · simp only [hc] at h
            obtain ⟨others, hothers, rfl⟩ := Watched.seen_bind_pure_eq_some_iff.mp h
            exact .next (htried _ _ _ _ hfirst) hresult hmark (ih hothers)

private theorem separatorRun_of_seen {separator : Option (Grammar α)} {cursor : Cursor}
    {outcome : Outcome (Node α)} {steps : List (Step α)}
    (hseen : (attemptSeparator attempt separator cursor).seen = some (outcome, steps)) :
    SeparatorRun Tried separator cursor outcome steps := by
  cases separator with
  | none =>
      cases hseen
      exact .none
  | some separator => exact .some (htried _ _ _ _ hseen)

private theorem itemsRun_of_seen {item : Grammar α} {separator : Option (Grammar α)}
    {start : Cursor} {budget min : Nat} {cursor : Cursor} {outcome : Outcome (List (Node α))}
    {steps : List (Step α)}
    (hseen : (attemptItems attempt item separator start budget min cursor).seen =
      some (outcome, steps)) :
    ItemsRun Tried item separator start min cursor outcome steps := by
  induction budget generalizing min cursor outcome steps with
  | zero => cases hseen
  | succ budget ih =>
      obtain ⟨first, steps, later, hfirst, h, rfl⟩ := Watched.seen_bind_eq_some_iff.mp hseen
      cases hresult : first.result with
      | error failure =>
          simp only [hresult] at h
          rcases lt_or_le_of_committed first cursor with ⟨hc, hmark⟩ | ⟨hc, hmark⟩
          · simp only [hc, if_true] at h
            cases h
            rw [List.append_nil]
            exact .committed (htried _ _ _ _ hfirst) hresult hmark
          · simp only [hc] at h
            cases min with
            | zero =>
                cases h
                rw [List.append_nil]
                exact .ended (htried _ _ _ _ hfirst) hresult hmark
            | succ min =>
                simp only [Nat.zero_lt_succ, if_true] at h
                cases h
                rw [List.append_nil]
                exact .short (htried _ _ _ _ hfirst) hresult hmark (Nat.zero_lt_succ min)
      | ok node =>
          simp only [hresult] at h
          obtain ⟨between, later, _, hbetween, hlater, rfl⟩ := Watched.seen_bind_eq_some_iff.mp h
          have hseparator := separatorRun_of_seen htried hbetween
          cases hseparated : between.result with
          | error failure =>
              simp only [hseparated] at hlater
              rcases lt_or_le_of_committed between first.cursor with ⟨hc, hmark⟩ | ⟨hc, hmark⟩
              · simp only [hc, if_true] at hlater
                cases hlater
                rw [List.append_nil]
                exact .separatorCommitted (htried _ _ _ _ hfirst) hresult hseparator hseparated
                  hmark
              · simp only [hc] at hlater
                cases hlater
                rw [List.append_nil]
                exact .separatorEnded (htried _ _ _ _ hfirst) hresult hseparator hseparated hmark
          | ok _ =>
              simp only [hseparated] at hlater
              by_cases hstuck : between.cursor.pos = cursor.pos
              · simp only [hstuck, if_true] at hlater
                cases hlater
                rw [List.append_nil]
                exact .stuck (htried _ _ _ _ hfirst) hresult hseparator hseparated hstuck
              · simp only [hstuck] at hlater
                obtain ⟨others, hothers, rfl⟩ := Watched.seen_bind_pure_eq_some_iff.mp hlater
                rw [← List.append_assoc]
                exact .next (htried _ _ _ _ hfirst) hresult hseparator hseparated hstuck
                  (ih hothers)

private theorem levelRun_seq_of_seen {parts : List (Grammar α)} {cursor : Cursor}
    {outcome : Outcome (Node α)} {steps : List (Step α)}
    (hseen : (attemptSeq attempt parts cursor).seen = some (outcome, steps)) :
    LevelRun Tried rules (.seq parts) cursor outcome steps := by
  obtain ⟨last, steps, _, hparts, h, rfl⟩ := Watched.seen_bind_eq_some_iff.mp hseen
  have hrun := partsRun_of_seen htried hparts
  cases hresult : last.result with
  | ok nodes =>
      simp only [hresult] at h
      cases h
      rw [List.append_nil]
      exact .seq hrun hresult
  | error failure =>
      simp only [hresult] at h
      cases h
      rw [List.append_nil]
      rcases lt_or_le_of_committed last cursor with ⟨hc, hmark⟩ | ⟨hc, hmark⟩
      · simp only [hc, if_true]
        exact .seqCommitted hrun hresult hmark
      · simp only [hc]
        exact .seqFailed hrun hresult hmark

private theorem or_of_seen {recover : Outcome (Node α) → Outcome (Node α)} {part : Grammar α}
    {cursor : Cursor} {outcome : Outcome (Node α)} {steps : List (Step α)}
    (hseen : (attemptOr attempt recover part cursor).seen = some (outcome, steps)) :
    ∃ inner, Tried part cursor inner steps ∧
      ((∃ node, inner.result = .ok node) ∧ outcome = inner ∨
        (∃ failure, inner.result = .error failure) ∧ cursor.pos < inner.cursor.mark ∧
          outcome = inner ∨
        (∃ failure, inner.result = .error failure) ∧ inner.cursor.mark ≤ cursor.pos ∧
          outcome = recover inner) := by
  obtain ⟨inner, steps, _, hinner, h, rfl⟩ := Watched.seen_bind_eq_some_iff.mp hseen
  cases hresult : inner.result with
  | ok node =>
      simp only [hresult] at h
      cases h
      rw [List.append_nil]
      exact ⟨_, htried _ _ _ _ hinner, .inl ⟨⟨node, hresult⟩, rfl⟩⟩
  | error failure =>
      simp only [hresult] at h
      rcases lt_or_le_of_committed inner cursor with ⟨hc, hmark⟩ | ⟨hc, hmark⟩
      · simp only [hc, if_true] at h
        cases h
        rw [List.append_nil]
        exact ⟨_, htried _ _ _ _ hinner, .inr (.inl ⟨⟨failure, hresult⟩, hmark, rfl⟩)⟩
      · simp only [hc] at h
        cases h
        rw [List.append_nil]
        exact ⟨inner, htried _ _ _ _ hinner, .inr (.inr ⟨⟨failure, hresult⟩, hmark, rfl⟩)⟩

theorem levelRun_of_seen {grammar : Grammar α} {cursor : Cursor} {outcome : Outcome (Node α)}
    {steps : List (Step α)}
    (hseen : (attemptLevel rules attempt grammar cursor).seen = some (outcome, steps)) :
    LevelRun Tried rules grammar cursor outcome steps := by
  cases grammar with
  | scan scanner =>
      cases hseen
      exact .scan
  | cut =>
      cases hseen
      exact .cut
  | seq parts => exact levelRun_seq_of_seen htried hseen
  | any alternatives => exact .any (anyRun_of_seen htried hseen)
  | many item separator min =>
      obtain ⟨items, hitems, rfl⟩ := Watched.seen_bind_pure_eq_some_iff.mp hseen
      exact .many (itemsRun_of_seen htried hitems)
  | maybe part =>
      obtain ⟨inner, hinner, ⟨⟨node, hresult⟩, rfl⟩ | ⟨⟨failure, hresult⟩, hmark, rfl⟩ |
        ⟨⟨failure, hresult⟩, hmark, rfl⟩⟩ := or_of_seen htried hseen
      · exact .maybe hinner hresult
      · exact .maybeCommitted hinner hresult hmark
      · exact .maybeFailed hinner hresult hmark
  | label name part =>
      obtain ⟨inner, hinner, ⟨⟨node, hresult⟩, rfl⟩ | ⟨⟨failure, hresult⟩, hmark, rfl⟩ |
        ⟨⟨failure, hresult⟩, hmark, rfl⟩⟩ := or_of_seen htried hseen
      · exact .label hinner hresult
      · exact .labelCommitted hinner hresult hmark
      · exact .labelFailed hinner hresult hmark
  | named name part =>
      obtain ⟨inner, hinner, rfl⟩ := Watched.seen_bind_pure_eq_some_iff.mp hseen
      exact .named (htried _ _ _ _ hinner)
  | map f part =>
      obtain ⟨inner, hinner, rfl⟩ := Watched.seen_bind_pure_eq_some_iff.mp hseen
      exact .map (htried _ _ _ _ hinner)
  | bind value part =>
      obtain ⟨inner, hinner, rfl⟩ := Watched.seen_bind_pure_eq_some_iff.mp hseen
      exact .bind (htried _ _ _ _ hinner)
  | merge part =>
      obtain ⟨inner, hinner, rfl⟩ := Watched.seen_bind_pure_eq_some_iff.mp hseen
      exact .merge (htried _ _ _ _ hinner)
  | tight part =>
      obtain ⟨inner, hinner, rfl⟩ := Watched.seen_bind_pure_eq_some_iff.mp hseen
      exact .tight (htried _ _ _ _ hinner)
  | rule name =>
      simp only [attemptLevel] at hseen
      cases hdefinition : rules.definition? name with
      | none =>
          simp only [hdefinition] at hseen
          cases hseen
          exact .undefined hdefinition
      | some definition =>
          simp only [hdefinition] at hseen
          obtain ⟨inner, hinner, rfl⟩ := Watched.seen_bind_pure_eq_some_iff.mp hseen
          exact .rule hdefinition (htried _ _ _ _ hinner)

end Inversion

variable {rules : Rules α} {grammar : Grammar α} {cursor : Cursor} {outcome : Outcome (Node α)}
  {steps : List (Step α)}

theorem Runs.levelRun (h : Runs rules grammar cursor outcome steps) :
    ∃ inner, LevelRun (Runs rules) rules grammar cursor outcome inner ∧
      steps = .entered grammar cursor :: (inner ++ [.left grammar cursor outcome]) := by
  obtain ⟨fuel, h⟩ := h
  cases fuel with
  | zero => cases h
  | succ fuel =>
      obtain ⟨inner, hinner, rfl⟩ := seen_watch_succ_iff.mp h
      exact ⟨inner, levelRun_of_seen (fun _ _ _ _ hpart => ⟨fuel, hpart⟩) hinner, rfl⟩

-- What holds of a run follows level by level from what holds of the runs inside.
theorem Runs.induction {P : Grammar α → Cursor → Outcome (Node α) → List (Step α) → Prop}
    (hlevel : ∀ {grammar cursor outcome inner},
      LevelRun (fun part cursor outcome steps =>
        Runs rules part cursor outcome steps ∧ P part cursor outcome steps)
        rules grammar cursor outcome inner →
      P grammar cursor outcome
        (.entered grammar cursor :: (inner ++ [.left grammar cursor outcome])))
    (h : Runs rules grammar cursor outcome steps) : P grammar cursor outcome steps := by
  obtain ⟨fuel, h⟩ := h
  induction fuel generalizing grammar cursor outcome steps with
  | zero => cases h
  | succ fuel ih =>
      obtain ⟨inner, hinner, rfl⟩ := seen_watch_succ_iff.mp h
      exact hlevel (levelRun_of_seen (fun _ _ _ _ hpart => ⟨⟨fuel, hpart⟩, ih hpart⟩) hinner)

end Descent.Grammar
