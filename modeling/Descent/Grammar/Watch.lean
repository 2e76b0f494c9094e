import Descent.Grammar.Eval

namespace Descent

-- A computation that may be cut short, together with what was seen on the way, in order.
structure Watched (σ β : Type) where
  seen : Option (β × List σ)

namespace Watched

variable {σ β γ : Type}

instance : Interruptible (Watched σ) where
  pure b := ⟨some (b, [])⟩
  bind x f := ⟨x.seen.bind fun (b, first) => (f b).seen.map fun (c, rest) => (c, first ++ rest)⟩
  cutShort := ⟨none⟩

def note (step : σ) : Watched σ Unit := ⟨some ((), [step])⟩

-- What a computation comes to, whatever was seen.
def erase (x : Watched σ β) : Option β := x.seen.map Prod.fst

@[simp] theorem seen_pure (b : β) : (pure b : Watched σ β).seen = some (b, []) := rfl

theorem seen_bind_eq_some_iff {x : Watched σ β} {f : β → Watched σ γ} {c : γ} {steps : List σ} :
    (x >>= f).seen = some (c, steps) ↔
      ∃ b first rest, x.seen = some (b, first) ∧ (f b).seen = some (c, rest) ∧
        steps = first ++ rest := by
  change (x.seen.bind fun (b, first) => (f b).seen.map fun (c, rest) => (c, first ++ rest)) =
    _ ↔ _
  simp only [Option.bind_eq_some_iff, Option.map_eq_some_iff, Prod.exists, Prod.mk.injEq]
  constructor
  · rintro ⟨b, first, hx, c, rest, hf, rfl, rfl⟩
    exact ⟨b, first, rest, hx, hf, rfl⟩
  · rintro ⟨b, first, rest, hx, hf, rfl⟩
    exact ⟨b, first, hx, c, rest, hf, rfl, rfl⟩

theorem seen_bind_of_seen {x : Watched σ β} {f : β → Watched σ γ} {b : β} {c : γ}
    {first rest : List σ} (hx : x.seen = some (b, first)) (hf : (f b).seen = some (c, rest)) :
    (x >>= f).seen = some (c, first ++ rest) :=
  seen_bind_eq_some_iff.mpr ⟨b, first, rest, hx, hf, rfl⟩

theorem seen_bind_of_eq_pure {x : Watched σ β} {f : β → Watched σ γ} {b : β} {c : γ}
    {steps : List σ} (hx : x.seen = some (b, steps)) (hf : f b = pure c) :
    (x >>= f).seen = some (c, steps) := by
  rw [← List.append_nil steps]
  exact seen_bind_of_seen hx (by rw [hf, seen_pure])

-- What follows without being watched adds nothing to what is seen.
theorem seen_bind_pure_eq_some_iff {x : Watched σ β} {f : β → γ} {c : γ} {steps : List σ} :
    (x >>= fun b => pure (f b)).seen = some (c, steps) ↔
      ∃ b, x.seen = some (b, steps) ∧ c = f b := by
  rw [seen_bind_eq_some_iff]
  constructor
  · rintro ⟨b, steps, _, hx, hend, rfl⟩
    cases hend
    exact ⟨b, by rwa [List.append_nil], rfl⟩
  · rintro ⟨b, hx, rfl⟩
    exact ⟨b, steps, [], hx, rfl, (List.append_nil steps).symm⟩

theorem erase_bind (x : Watched σ β) (f : β → Watched σ γ) :
    (x >>= f).erase = x.erase.bind fun b => (f b).erase := by
  change Option.map _ (Option.bind x.seen _) = Option.bind (Option.map _ x.seen) _
  cases x.seen with
  | none => rfl
  | some first => simp [erase, Function.comp_def]

end Watched

-- What is seen of a run: a grammar is tried at a cursor, and later it is left with an outcome.
inductive Step (α : Type) where
  | entered (grammar : Grammar α) (start : Cursor)
  | left (grammar : Grammar α) (start : Cursor) (outcome : Outcome (Node α))

namespace Step

variable {α : Type}

-- Which grammar is tried, and where.
def tried : Step α → Grammar α × Cursor
  | entered grammar start | left grammar start _ => (grammar, start)

-- The attempts that are under way behind some steps, the innermost first, if those were under
-- way before them.
def pending : List (Grammar α × Cursor) → List (Step α) → List (Grammar α × Cursor)
  | around, [] => around
  | around, entered grammar start :: rest => pending ((grammar, start) :: around) rest
  | around, left _ _ _ :: rest => pending around.tail rest

end Step

namespace Grammar

variable {α : Type}

-- Tries a grammar as `eval` does, watching every attempt.
def watch (rules : Rules α) : Nat → Attempt (Watched (Step α)) α
  | 0 => fun _ _ => Interruptible.cutShort
  | fuel + 1 => fun grammar cursor => do
    Watched.note (.entered grammar cursor)
    let outcome ← attemptLevel rules (watch rules fuel) grammar cursor
    Watched.note (.left grammar cursor outcome)
    pure outcome

-- Trying the grammar ends with this outcome, and these are the steps of the run.
def Runs (rules : Rules α) (grammar : Grammar α) (cursor : Cursor) (outcome : Outcome (Node α))
    (steps : List (Step α)) : Prop :=
  ∃ fuel, (watch rules fuel grammar cursor).seen = some (outcome, steps)

end Grammar

end Descent
