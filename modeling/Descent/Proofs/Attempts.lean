import Descent.Grammar.Watch

namespace Descent.Grammar

variable {α : Type}

section Respected

variable {m n : Type → Type} [Interruptible m] [Interruptible n]

-- A relation between two kinds of computations that holds of what is built alike from parts of
-- which it holds.
structure Respected (R : ∀ β : Type, m β → n β → Prop) : Prop where
  pure : ∀ {β : Type} (b : β), R β (pure b) (pure b)
  cutShort : ∀ {β : Type}, R β Interruptible.cutShort Interruptible.cutShort
  bind : ∀ {β γ : Type} {x : m β} {y : n β} {f : β → m γ} {g : β → n γ},
    R β x y → (∀ b, R γ (f b) (g b)) → R γ (x >>= f) (y >>= g)

variable {R : ∀ β : Type, m β → n β → Prop} {p : Attempt m α} {q : Attempt n α}

section Helpers

variable (hR : Respected R)
  (hattempt : ∀ grammar cursor, R _ (p grammar cursor) (q grammar cursor))

include hR hattempt

private theorem attemptParts_respects (parts : List (Grammar α)) (cursor : Cursor) :
    R _ (attemptParts p parts cursor) (attemptParts q parts cursor) := by
  induction parts generalizing cursor with
  | nil => exact hR.pure _
  | cons part rest ih =>
      refine hR.bind (hattempt part cursor) fun outcome => ?_
      cases outcome.result with
      | error failure => exact hR.pure _
      | ok node => exact hR.bind (ih _) fun others => hR.pure _

private theorem attemptSeq_respects (parts : List (Grammar α)) (cursor : Cursor) :
    R _ (attemptSeq p parts cursor) (attemptSeq q parts cursor) := by
  refine hR.bind (attemptParts_respects hR hattempt parts cursor) fun outcome => ?_
  cases outcome.result with
  | error failure => exact hR.pure _
  | ok nodes => exact hR.pure _

private theorem attemptAny_respects (start : Cursor) (best : Option Failure)
    (alternatives : List (Grammar α)) (cursor : Cursor) :
    R _ (attemptAny p start best alternatives cursor)
      (attemptAny q start best alternatives cursor) := by
  induction alternatives generalizing best cursor with
  | nil => exact hR.pure _
  | cons alternative rest ih =>
      refine hR.bind (hattempt alternative cursor) fun outcome => ?_
      cases outcome.result with
      | ok node => exact hR.pure _
      | error failure =>
          dsimp only
          split
          · exact hR.pure _
          · exact hR.bind (ih _ _) fun others => hR.pure _

private theorem attemptSeparator_respects (separator : Option (Grammar α)) (cursor : Cursor) :
    R _ (attemptSeparator p separator cursor) (attemptSeparator q separator cursor) := by
  cases separator with
  | none => exact hR.pure _
  | some separator => exact hattempt separator cursor

private theorem attemptItems_respects (item : Grammar α) (separator : Option (Grammar α))
    (start : Cursor) (budget min : Nat) (cursor : Cursor) :
    R _ (attemptItems p item separator start budget min cursor)
      (attemptItems q item separator start budget min cursor) := by
  induction budget generalizing min cursor with
  | zero => exact hR.cutShort
  | succ budget ih =>
      refine hR.bind (hattempt item cursor) fun outcome => ?_
      cases outcome.result with
      | error failure =>
          dsimp only
          split
          · exact hR.pure _
          · split <;> exact hR.pure _
      | ok node =>
          refine hR.bind (attemptSeparator_respects hR hattempt separator _) fun between => ?_
          cases between.result with
          | error failure =>
              dsimp only
              split <;> exact hR.pure _
          | ok _ =>
              dsimp only
              split
              · exact hR.pure _
              · exact hR.bind (ih _ _) fun others => hR.pure _

private theorem attemptOr_respects (recover : Outcome (Node α) → Outcome (Node α))
    (part : Grammar α) (cursor : Cursor) :
    R _ (attemptOr p recover part cursor) (attemptOr q recover part cursor) := by
  refine hR.bind (hattempt part cursor) fun outcome => ?_
  cases outcome.result with
  | ok node => exact hR.pure _
  | error failure =>
      dsimp only
      split <;> exact hR.pure _

-- What is respected carries over from the attempts at the parts to the attempt at the whole.
theorem attemptLevel_respects (rules : Rules α) (grammar : Grammar α) (cursor : Cursor) :
    R _ (attemptLevel rules p grammar cursor) (attemptLevel rules q grammar cursor) := by
  have hone (part : Grammar α) (cursor : Cursor) (f : Outcome (Node α) → Outcome (Node α)) :
      R _ (p part cursor >>= fun outcome => pure (f outcome))
        (q part cursor >>= fun outcome => pure (f outcome)) :=
    hR.bind (hattempt part cursor) fun _ => hR.pure _
  cases grammar with
  | scan scanner => exact hR.pure _
  | cut => exact hR.pure _
  | seq parts => exact attemptSeq_respects hR hattempt parts cursor
  | any alternatives => exact attemptAny_respects hR hattempt cursor none alternatives cursor
  | many item separator min =>
      exact hR.bind (attemptItems_respects hR hattempt item separator cursor _ min cursor)
        fun _ => hR.pure _
  | maybe part => exact attemptOr_respects hR hattempt _ part cursor
  | label name part => exact attemptOr_respects hR hattempt _ part cursor
  | named name part => exact hone _ _ _
  | map f part => exact hone _ _ _
  | bind value part => exact hone _ _ _
  | merge part => exact hone _ _ _
  | tight part => exact hone _ _ _
  | rule name =>
      simp only [attemptLevel]
      cases rules.definition? name with
      | none => exact hR.pure _
      | some definition => exact hone _ _ _

end Helpers

end Respected

variable {rules : Rules α} {grammar : Grammar α} {cursor : Cursor} {outcome : Outcome (Node α)}
  {steps : List (Step α)}

section Watching

private theorem erased_respected {σ : Type} :
    Respected (m := Watched σ) (n := Option) fun _ x y => x.erase = y where
  pure _ := rfl
  cutShort := rfl
  bind hx hf := by
    rw [Watched.erase_bind, hx]
    exact Option.bind_congr fun b _ => hf b

theorem seen_watch_succ (fuel : Nat) (grammar : Grammar α) (cursor : Cursor) :
    (watch rules (fuel + 1) grammar cursor).seen =
      (attemptLevel rules (watch rules fuel) grammar cursor).seen.map fun (outcome, inner) =>
        (outcome, .entered grammar cursor :: (inner ++ [.left grammar cursor outcome])) := by
  simp only [watch]
  rcases attemptLevel rules (watch rules fuel) grammar cursor with ⟨_ | ⟨outcome, inner⟩⟩ <;> rfl

theorem seen_watch_succ_iff {fuel : Nat} :
    (watch rules (fuel + 1) grammar cursor).seen = some (outcome, steps) ↔
      ∃ inner, (attemptLevel rules (watch rules fuel) grammar cursor).seen =
          some (outcome, inner) ∧
        steps = .entered grammar cursor :: (inner ++ [.left grammar cursor outcome]) := by
  simp only [seen_watch_succ, Option.map_eq_some_iff, Prod.exists, Prod.mk.injEq]
  constructor
  · rintro ⟨_, inner, hlevel, rfl, rfl⟩
    exact ⟨inner, hlevel, rfl⟩
  · rintro ⟨inner, hlevel, rfl⟩
    exact ⟨outcome, inner, hlevel, rfl, rfl⟩

-- Watching a run does not change it.
theorem erase_watch (fuel : Nat) (grammar : Grammar α) (cursor : Cursor) :
    (watch rules fuel grammar cursor).erase = eval rules fuel grammar cursor := by
  induction fuel generalizing grammar cursor with
  | zero => rfl
  | succ fuel ih =>
      rw [eval, ← attemptLevel_respects erased_respected ih rules grammar cursor]
      simp [Watched.erase, seen_watch_succ, Function.comp_def]

theorem eval_of_watch {fuel : Nat}
    (h : (watch rules fuel grammar cursor).seen = some (outcome, steps)) :
    eval rules fuel grammar cursor = some outcome := by
  simp [← erase_watch, Watched.erase, h]

theorem Runs.returns (h : Runs rules grammar cursor outcome steps) :
    Returns rules grammar cursor outcome := by
  obtain ⟨fuel, h⟩ := h
  exact ⟨fuel, eval_of_watch h⟩

theorem Returns.exists_runs (h : Returns rules grammar cursor outcome) :
    ∃ steps, Runs rules grammar cursor outcome steps := by
  obtain ⟨fuel, h⟩ := h
  rw [← erase_watch] at h
  obtain ⟨⟨_, steps⟩, hseen, rfl⟩ := Option.map_eq_some_iff.mp h
  exact ⟨steps, fuel, hseen⟩

end Watching

section Levels

private theorem extends_respected {σ : Type} :
    Respected (m := Watched σ) (n := Watched σ)
      fun _ x y => ∀ b seen, x.seen = some (b, seen) → y.seen = some (b, seen) where
  pure _ _ _ h := h
  cutShort _ _ h := nomatch h
  bind hx hf c seen h := by
    obtain ⟨b, first, rest, hb, hc, rfl⟩ := Watched.seen_bind_eq_some_iff.mp h
    exact Watched.seen_bind_eq_some_iff.mpr ⟨b, first, rest, hx b first hb, hf b c rest hc, rfl⟩

-- More levels than a run needs do not change it.
theorem seen_watch_succ_of_seen {fuel : Nat}
    (h : (watch rules fuel grammar cursor).seen = some (outcome, steps)) :
    (watch rules (fuel + 1) grammar cursor).seen = some (outcome, steps) := by
  induction fuel generalizing grammar cursor outcome steps with
  | zero => cases h
  | succ fuel ih =>
      obtain ⟨inner, hlevel, rfl⟩ := seen_watch_succ_iff.mp h
      refine seen_watch_succ_iff.mpr ⟨inner, ?_, rfl⟩
      exact attemptLevel_respects extends_respected (fun _ _ _ _ hpart => ih hpart) rules grammar
        cursor outcome inner hlevel

theorem seen_watch_mono {fuel more : Nat} (hle : fuel ≤ more)
    (h : (watch rules fuel grammar cursor).seen = some (outcome, steps)) :
    (watch rules more grammar cursor).seen = some (outcome, steps) := by
  induction hle with
  | refl => exact h
  | step _ ih => exact seen_watch_succ_of_seen ih

theorem Runs.unique {other : Outcome (Node α)} {otherSteps : List (Step α)}
    (h : Runs rules grammar cursor outcome steps)
    (hother : Runs rules grammar cursor other otherSteps) :
    outcome = other ∧ steps = otherSteps := by
  obtain ⟨fuel, h⟩ := h
  obtain ⟨more, hother⟩ := hother
  have hmax := seen_watch_mono (Nat.le_max_left fuel more) h
  rw [seen_watch_mono (Nat.le_max_right fuel more) hother] at hmax
  cases hmax
  exact ⟨rfl, rfl⟩

theorem Returns.unique {other : Outcome (Node α)} (h : Returns rules grammar cursor outcome)
    (hother : Returns rules grammar cursor other) : outcome = other := by
  obtain ⟨steps, hruns⟩ := h.exists_runs
  obtain ⟨otherSteps, hotherRuns⟩ := hother.exists_runs
  exact (hruns.unique hotherRuns).1

open Classical in
-- What is seen of a run with as many levels as it needs.
noncomputable def watchFully (rules : Rules α) : Attempt (Watched (Step α)) α :=
  fun grammar cursor =>
    ⟨if h : ∃ outcome steps, Runs rules grammar cursor outcome steps
      then some (h.choose, h.choose_spec.choose) else none⟩

theorem seen_watchFully_iff :
    (watchFully rules grammar cursor).seen = some (outcome, steps) ↔
      Runs rules grammar cursor outcome steps := by
  by_cases hruns : ∃ outcome steps, Runs rules grammar cursor outcome steps
  · have hchosen := hruns.choose_spec.choose_spec
    simp only [watchFully, dif_pos hruns, Option.some.injEq, Prod.mk.injEq]
    constructor
    · rintro ⟨rfl, rfl⟩
      exact hchosen
    · intro h
      exact hchosen.unique h
  · simp only [watchFully, dif_neg hruns]
    constructor
    · intro h
      cases h
    · intro h
      exact absurd ⟨outcome, steps, h⟩ hruns

instance {m : Type → Type} [Interruptible m] : Interruptible (ReaderT Nat m) where
  cutShort := fun _ => Interruptible.cutShort

private theorem approached_respected {σ : Type} :
    Respected (m := Watched σ) (n := ReaderT Nat (Watched σ))
      fun _ x y => ∀ b seen, x.seen = some (b, seen) →
        ∃ fuel, ∀ more, fuel ≤ more → (y more).seen = some (b, seen) where
  pure _ _ _ h := ⟨0, fun _ _ => h⟩
  cutShort _ _ h := nomatch h
  bind {β γ x y f g} hx hf c seen h := by
    obtain ⟨b, first, rest, hb, hc, rfl⟩ := Watched.seen_bind_eq_some_iff.mp h
    obtain ⟨fuel, hfirst⟩ := hx b first hb
    obtain ⟨fuel', hrest⟩ := hf b c rest hc
    refine ⟨max fuel fuel', fun more hle => ?_⟩
    change (y more >>= fun b => g b more).seen = _
    rw [Watched.seen_bind_eq_some_iff]
    exact ⟨b, first, rest, hfirst more (by omega), hrest more (by omega), rfl⟩

private theorem read_respected {σ : Type} (fuel : Nat) :
    Respected (m := ReaderT Nat (Watched σ)) (n := Watched σ) fun _ x y => x fuel = y where
  pure _ := rfl
  cutShort := rfl
  bind {β γ x y f g} hx hf := by
    change (x fuel >>= fun b => f b fuel) = _
    rw [hx]
    exact congrArg (y >>= ·) (funext hf)

-- A level over parts that are watched to their end needs only some of their levels.
theorem runs_of_seen_watchFully {inner : List (Step α)}
    (h : (attemptLevel rules (watchFully rules) grammar cursor).seen = some (outcome, inner)) :
    Runs rules grammar cursor outcome
      (.entered grammar cursor :: (inner ++ [.left grammar cursor outcome])) := by
  have happroach (part : Grammar α) (start : Cursor) (result : Outcome (Node α))
      (seen : List (Step α)) (hpart : (watchFully rules part start).seen = some (result, seen)) :
      ∃ fuel, ∀ more, fuel ≤ more → (watch rules more part start).seen = some (result, seen) := by
    obtain ⟨fuel, hfuel⟩ := seen_watchFully_iff.mp hpart
    exact ⟨fuel, fun more hle => seen_watch_mono hle hfuel⟩
  let leveled : Attempt (ReaderT Nat (Watched (Step α))) α :=
    fun part start fuel => watch rules fuel part start
  obtain ⟨fuel, hfuel⟩ := attemptLevel_respects (q := leveled) approached_respected happroach
    rules grammar cursor outcome inner h
  have hread := attemptLevel_respects (p := leveled) (q := watch rules fuel) (read_respected fuel)
    (fun _ _ => rfl) rules grammar cursor
  refine ⟨fuel + 1, seen_watch_succ_iff.mpr ⟨inner, ?_, rfl⟩⟩
  rw [← hread]
  exact hfuel fuel (Nat.le_refl fuel)

end Levels

end Descent.Grammar
