import Descent.Proofs.Runs

namespace Descent

namespace Place

-- The second place is the first one or lies behind it in the same text.
def Reaches (start stop : Place) : Prop :=
  ∃ text, start.rest = text ++ stop.rest ∧ stop.pos = start.pos + Text.byteSize text

theorem Reaches.refl (place : Place) : place.Reaches place := ⟨[], by simp⟩

theorem Reaches.trans {first second third : Place} (h : first.Reaches second)
    (h' : second.Reaches third) : first.Reaches third := by
  obtain ⟨text, hrest, hpos⟩ := h
  obtain ⟨text', hrest', hpos'⟩ := h'
  refine ⟨text ++ text', by simp [hrest, hrest'], ?_⟩
  rw [hpos', hpos, Text.byteSize_append, Nat.add_assoc]

theorem Reaches.pos_le {start stop : Place} (h : start.Reaches stop) : start.pos ≤ stop.pos := by
  obtain ⟨text, _, hpos⟩ := h
  omega

theorem Reaches.rest_length_le {start stop : Place} (h : start.Reaches stop) :
    stop.rest.length ≤ start.rest.length := by
  obtain ⟨text, hrest, -⟩ := h
  simp [hrest]

theorem Reaches.rest_length_lt {start stop : Place} (h : start.Reaches stop)
    (hmoved : stop.pos ≠ start.pos) : stop.rest.length < start.rest.length := by
  obtain ⟨text, hrest, hpos⟩ := h
  cases text with
  | nil => simp [hpos] at hmoved
  | cons c text =>
      rw [hrest, List.length_append, List.length_cons]
      omega

theorem reaches_after {place : Place} {text rest : List Char} (h : place.rest = text ++ rest) :
    place.Reaches (place.after text rest) := ⟨text, h, rfl⟩

end Place

namespace Cursor

-- What every move of a cursor keeps. A mark that is new has been set ahead of the start.
structure Reaches (start stop : Cursor) : Prop where
  place : start.toPlace.Reaches stop.toPlace
  input : stop.input = start.input
  policy : stop.policy = start.policy
  autoSkip : stop.autoSkip = start.autoSkip
  mark_le : start.mark ≤ stop.mark
  mark_new : stop.mark = start.mark ∨ start.pos ≤ stop.mark

namespace Reaches

variable {start middle stop : Cursor}

theorem refl (cursor : Cursor) : cursor.Reaches cursor :=
  ⟨.refl _, rfl, rfl, rfl, Nat.le_refl _, .inl rfl⟩

theorem pos_le (h : start.Reaches stop) : start.pos ≤ stop.pos := h.place.pos_le

theorem trans (h : start.Reaches middle) (h' : middle.Reaches stop) : start.Reaches stop where
  place := h.place.trans h'.place
  input := h'.input.trans h.input
  policy := h'.policy.trans h.policy
  autoSkip := h'.autoSkip.trans h.autoSkip
  mark_le := Nat.le_trans h.mark_le h'.mark_le
  mark_new := by
    cases h'.mark_new with
    | inl hmark =>
        rw [hmark]
        exact h.mark_new
    | inr hmark => exact .inr (Nat.le_trans h.pos_le hmark)

-- Going back to the start, or to any place behind it that was reached.
theorem rewind (h : start.Reaches stop) {place : Place} (hplace : start.toPlace.Reaches place) :
    start.Reaches (stop.rewind place) :=
  ⟨hplace, h.input, h.policy, h.autoSkip, h.mark_le, h.mark_new⟩

end Reaches

-- Where no mark has been set, going back undoes everything.
theorem Reaches.rewind_eq {start stop : Cursor} (h : start.Reaches stop)
    (hmark : stop.mark = start.mark) : stop.rewind start.toPlace = start := by
  rw [Cursor.rewind, h.input, h.policy, h.autoSkip, hmark]

theorem reaches_skipBlank (cursor : Cursor) : cursor.Reaches cursor.skipBlank :=
  (Reaches.refl cursor).rewind (Place.reaches_after List.takeWhile_append_dropWhile.symm)

theorem reaches_commit (cursor : Cursor) : cursor.Reaches cursor.commit where
  place := .refl _
  input := rfl
  policy := rfl
  autoSkip := rfl
  mark_le := Nat.le_max_left _ _
  mark_new := .inr (Nat.le_max_right _ _)

end Cursor

-- The contract of an attempt: one that fails goes back to its start, unless a cut has been
-- crossed since.
structure Outcome.Contract {β : Type} (start : Cursor) (outcome : Outcome β) : Prop where
  reaches : start.Reaches outcome.cursor
  back : ∀ failure, outcome.result = .error failure →
    outcome.cursor.toPlace = start.toPlace ∨ start.pos < outcome.cursor.mark

namespace Outcome.Contract

variable {β : Type} {start : Cursor} {outcome : Outcome β}

theorem of_back (hreaches : start.Reaches outcome.cursor)
    (hplace : outcome.cursor.toPlace = start.toPlace) : outcome.Contract start :=
  ⟨hreaches, fun _ _ => .inl hplace⟩

theorem of_ok {value : β} (hreaches : start.Reaches outcome.cursor)
    (hresult : outcome.result = .ok value) : outcome.Contract start :=
  ⟨hreaches, fun failure hfailure => by simp [hresult] at hfailure⟩

theorem of_committed (hreaches : start.Reaches outcome.cursor)
    (hmark : start.pos < outcome.cursor.mark) : outcome.Contract start :=
  ⟨hreaches, fun _ _ => .inr hmark⟩

theorem after (h : outcome.Contract start) (earlier : List Event) :
    (outcome.after earlier).Contract start := ⟨h.reaches, h.back⟩

theorem map {γ : Type} (h : outcome.Contract start) (f : β → γ) :
    (outcome.map f).Contract start :=
  ⟨h.reaches, fun failure hfailure => h.back failure (map_result_eq_error_iff.mp hfailure)⟩

end Outcome.Contract

namespace Grammar

variable {α : Type}

theorem reaches_scanStart (scanner : Scanner) (cursor : Cursor) :
    cursor.Reaches (scanStart scanner cursor) := by
  unfold scanStart
  split
  · exact .refl cursor
  · exact cursor.reaches_skipBlank

theorem attemptScan_contract (scanner : Scanner) (cursor : Cursor) :
    (attemptScan scanner cursor : Outcome (Node α)).Contract cursor := by
  simp only [attemptScan]
  cases hlex : scanner.lex (α := α) cursor.policy (scanStart scanner cursor).rest with
  | ok lexeme =>
      have hstart := reaches_scanStart scanner cursor
      have hplace := Place.reaches_after (Scanner.consumed_append_of_lex hlex).symm
      exact .of_ok (hstart.rewind (hstart.place.trans hplace)) rfl
  | error miss => exact .of_back (.refl cursor) rfl

section Level

variable {Tried : Grammar α → Cursor → Outcome (Node α) → List (Step α) → Prop}
  (hparts : ∀ {part cursor outcome steps}, Tried part cursor outcome steps →
    outcome.Contract cursor)

include hparts

theorem PartsRun.reaches {parts : List (Grammar α)} {cursor : Cursor}
    {outcome : Outcome (List (Node α))} {steps : List (Step α)}
    (h : PartsRun Tried parts cursor outcome steps) : cursor.Reaches outcome.cursor := by
  induction h with
  | nil => exact .refl _
  | failed hpart _ => exact (hparts hpart).reaches
  | cons hpart _ _ ih => exact (hparts hpart).reaches.trans ih

theorem AnyRun.contract {start : Cursor} {best : Option Failure}
    {alternatives : List (Grammar α)} {cursor : Cursor} {outcome : Outcome (Node α)}
    {steps : List (Step α)} (h : AnyRun Tried start best alternatives cursor outcome steps)
    (hstart : start.Reaches cursor) (hplace : cursor.toPlace = start.toPlace) :
    outcome.Contract start := by
  induction h with
  | exhausted => exact .of_back hstart hplace
  | matched hpart hresult => exact .of_ok (hstart.trans (hparts hpart).reaches) hresult
  | committed hpart _ hmark =>
      exact .of_committed (hstart.trans (hparts hpart).reaches) hmark
  | next hpart _ _ _ ih =>
      have hreaches := hstart.trans (hparts hpart).reaches
      exact .after (ih (hreaches.rewind (.refl _)) rfl) _

theorem SeparatorRun.contract {separator : Option (Grammar α)} {cursor : Cursor}
    {outcome : Outcome (Node α)} {steps : List (Step α)}
    (h : SeparatorRun Tried separator cursor outcome steps) : outcome.Contract cursor := by
  cases h with
  | none => exact .of_ok (.refl _) rfl
  | some hpart => exact hparts hpart

theorem ItemsRun.contract {item : Grammar α} {separator : Option (Grammar α)} {start : Cursor}
    {min : Nat} {cursor : Cursor} {outcome : Outcome (List (Node α))} {steps : List (Step α)}
    (h : ItemsRun Tried item separator start min cursor outcome steps)
    (hstart : start.Reaches cursor) : outcome.Contract start := by
  induction h with
  | committed hitem _ hmark =>
      have hpos := hstart.pos_le
      exact .of_committed (hstart.trans (hparts hitem).reaches) (by simp only; omega)
  | short hitem =>
      exact .of_back ((hstart.trans (hparts hitem).reaches).rewind (.refl _)) rfl
  | ended hitem => exact .of_ok (hstart.trans (hparts hitem).reaches) rfl
  | separatorCommitted hitem _ hseparator _ hmark =>
      have hmiddle := hstart.trans (hparts hitem).reaches
      have hpos := hmiddle.pos_le
      exact .of_committed (hmiddle.trans (hseparator.contract hparts).reaches)
        (by simp only; omega)
  | separatorEnded hitem _ hseparator | stuck hitem _ hseparator =>
      have hmiddle := hstart.trans (hparts hitem).reaches
      exact .of_ok (hmiddle.trans (hseparator.contract hparts).reaches) rfl
  | next hitem _ hseparator _ _ _ ih =>
      have hmiddle := hstart.trans (hparts hitem).reaches
      exact .after (.map (ih (hmiddle.trans (hseparator.contract hparts).reaches)) _) _

-- A grammar keeps the contract if its parts do.
theorem LevelRun.contract {rules : Rules α} {grammar : Grammar α} {cursor : Cursor}
    {outcome : Outcome (Node α)} {steps : List (Step α)}
    (h : LevelRun Tried rules grammar cursor outcome steps) : outcome.Contract cursor := by
  cases h with
  | scan => exact attemptScan_contract _ cursor
  | cut => exact .of_ok cursor.reaches_commit rfl
  | seq hrun => exact .of_ok (hrun.reaches hparts) rfl
  | seqCommitted hrun _ hmark => exact .of_committed (hrun.reaches hparts) hmark
  | seqFailed hrun => exact .of_back ((hrun.reaches hparts).rewind (.refl _)) rfl
  | any hrun => exact hrun.contract hparts (.refl cursor) rfl
  | many hrun => exact (hrun.contract hparts (.refl cursor)).map _
  | maybe hpart | label hpart => exact hparts hpart
  | maybeCommitted hpart | labelCommitted hpart => exact hparts hpart
  | maybeFailed hpart | labelFailed hpart =>
      exact .of_back ((hparts hpart).reaches.rewind (.refl _)) rfl
  | named hpart | rule _ hpart => exact ⟨(hparts hpart).reaches, (hparts hpart).back⟩
  | map hpart | bind hpart | merge hpart => exact (hparts hpart).map _
  | tight hpart =>
      obtain ⟨⟨hplace, hinput, hpolicy, _, hle, hnew⟩, hback⟩ := hparts hpart
      exact ⟨⟨hplace, hinput, hpolicy, rfl, hle, hnew⟩, hback⟩
  | undefined => exact .of_back (.refl cursor) rfl

end Level

theorem Returns.contract {rules : Rules α} {grammar : Grammar α} {cursor : Cursor}
    {outcome : Outcome (Node α)} (h : Returns rules grammar cursor outcome) :
    outcome.Contract cursor := by
  obtain ⟨steps, hruns⟩ := h.exists_runs
  exact hruns.induction fun hlevel => hlevel.contract fun hpart => hpart.2

theorem reaches_of_eval {rules : Rules α} {fuel : Nat} {grammar : Grammar α} {cursor : Cursor}
    {outcome : Outcome (Node α)} (h : eval rules fuel grammar cursor = some outcome) :
    cursor.Reaches outcome.cursor := by
  have hreturns : Returns rules grammar cursor outcome := ⟨fuel, h⟩
  exact hreturns.contract.reaches

theorem reaches_of_attemptSeparator {attempt : Attempt Option α}
    (hattempt : ∀ {part cursor outcome}, attempt part cursor = some outcome →
      cursor.Reaches outcome.cursor)
    {separator : Option (Grammar α)} {cursor : Cursor} {outcome : Outcome (Node α)}
    (h : attemptSeparator attempt separator cursor = some outcome) :
    cursor.Reaches outcome.cursor := by
  cases separator with
  | none =>
      cases h
      exact .refl cursor
  | some part => exact hattempt h

theorem returns_backtracks_or_commits {rules : Rules α} {grammar : Grammar α} {cursor : Cursor}
    {outcome : Outcome (Node α)} (h : Returns rules grammar cursor outcome) :
    cursor.pos ≤ outcome.cursor.pos ∧ cursor.mark ≤ outcome.cursor.mark ∧
      outcome.cursor.input = cursor.input ∧ outcome.cursor.policy = cursor.policy ∧
      outcome.cursor.autoSkip = cursor.autoSkip ∧
      ∀ failure, outcome.result = .error failure →
        (outcome.cursor.toPlace = cursor.toPlace ∨ cursor.pos < outcome.cursor.mark) ∧
        (outcome.cursor.mark ≤ cursor.pos →
          outcome.cursor.mark = cursor.mark ∨ outcome.cursor.mark = cursor.pos) := by
  obtain ⟨hreaches, hback⟩ := h.contract
  refine ⟨hreaches.pos_le, hreaches.mark_le, hreaches.input, hreaches.policy, hreaches.autoSkip, ?_⟩
  intro failure hfailure
  refine ⟨hback failure hfailure, fun hmark => ?_⟩
  exact hreaches.mark_new.imp_right fun hle => Nat.le_antisymm hmark hle

-- The first alternative fails behind its cut, so the second, which would match, is not tried.
theorem backtracks_or_commits_behind_cut :
    let start := Cursor.ofInput [' ', 'a', 'c'] .ascii
    let stop : Outcome (Node Unit) :=
      ⟨.error ⟨2, "b"⟩, { start with pos := 2, rest := ['c'], mark := 2 }, []⟩
    Returns {} (.any [.seq [.exact "a", .cut, .exact "b"], .exact "ac"]) start stop ∧
      start.pos ≤ stop.cursor.pos ∧ start.mark ≤ stop.cursor.mark ∧
      stop.cursor.input = start.input ∧ stop.cursor.policy = start.policy ∧
      stop.cursor.autoSkip = start.autoSkip ∧
      ∀ failure, stop.result = .error failure →
        (stop.cursor.toPlace = start.toPlace ∨ start.pos < stop.cursor.mark) ∧
        (stop.cursor.mark ≤ start.pos →
          stop.cursor.mark = start.mark ∨ stop.cursor.mark = start.pos) := by
  intro start stop
  have hreturns : Returns {} (.any [.seq [.exact "a", .cut, .exact "b"], .exact "ac"]) start stop :=
    ⟨3, rfl⟩
  exact ⟨hreturns, returns_backtracks_or_commits hreturns⟩

end Grammar

end Descent
