import Descent.Proofs.Reports

namespace Descent

open Text

namespace Text

-- A character starts at this offset of the text, or the text ends there.
def IsBoundary (text : List Char) (n : Nat) : Prop :=
  ∃ before after, text = before ++ after ∧ n = byteSize before

-- `part` is what stands between the two offsets of the text, whole characters all of it.
def IsSlice (text : List Char) (start stop : Nat) (part : List Char) : Prop :=
  ∃ before after, text = before ++ (part ++ after) ∧ start = byteSize before ∧
    stop = start + byteSize part

variable {text before after part : List Char} {start stop n : Nat}

theorem isBoundary_zero (text : List Char) : IsBoundary text 0 := ⟨[], text, rfl, rfl⟩

theorem IsBoundary.le (h : IsBoundary text n) : n ≤ byteSize text := by
  obtain ⟨before, after, rfl, rfl⟩ := h
  rw [byteSize_append]
  exact Nat.le_add_right _ _

theorem IsBoundary.append (h : IsBoundary after n) :
    IsBoundary (before ++ after) (byteSize before + n) := by
  obtain ⟨middle, last, rfl, rfl⟩ := h
  refine ⟨before ++ middle, last, ?_, ?_⟩
  · rw [List.append_assoc]
  · rw [byteSize_append]

theorem IsSlice.isBoundary_stop (h : IsSlice text start stop part) : IsBoundary text stop := by
  obtain ⟨before, after, rfl, rfl, rfl⟩ := h
  exact IsBoundary.append ⟨part, after, rfl, rfl⟩

-- Of two beginnings of a text the one with fewer bytes is a beginning of the other.
theorem prefix_of_byteSize_le {longer rest : List Char} (h : before ++ after = longer ++ rest)
    (hle : byteSize before ≤ byteSize longer) : before <+: longer := by
  cases List.prefix_or_prefix_of_prefix ⟨after, h⟩ ⟨rest, rfl⟩ with
  | inl hprefix => exact hprefix
  | inr hprefix =>
      obtain ⟨part, rfl⟩ := hprefix
      rw [byteSize_append] at hle
      have hnil : part = [] := byteSize_eq_zero_iff.mp (by omega)
      simp [hnil]

end Text

-- A scanner misses what it expects between two characters of the text it looks at.
theorem Scanner.isBoundary_of_lex {α : Type} {policy : Whitespace} {text : List Char}
    {scanner : Scanner} {miss : Miss} (h : lex (α := α) policy text scanner = .error miss) :
    IsBoundary text miss.offset := by
  by_cases hquoted : ∃ quotes, scanner = .quoted quotes
  · obtain ⟨quotes, rfl⟩ := hquoted
    obtain hoffset | ⟨quote, literal, more, -, -, rfl, hoffset, -⟩ := Quoted.offset_of_scan h
    · rw [hoffset]
      exact isBoundary_zero text
    · exact ⟨quote :: literal, more, rfl, hoffset⟩
  · have hoffset := offset_eq_zero_of_lex (fun quotes heq => hquoted ⟨quotes, heq⟩) h
    rw [hoffset]
    exact isBoundary_zero text

-- The cursor and its mark both stand between two characters of this input.
structure Cursor.Within (input : List Char) (cursor : Cursor) : Prop where
  input_eq : cursor.input = input
  sound : cursor.Sound
  mark : IsBoundary input cursor.mark

namespace Cursor.Within

variable {input : List Char} {cursor start : Cursor}

theorem pos (h : cursor.Within input) : IsBoundary input cursor.pos := by
  obtain ⟨rfl, ⟨before, hinput, hpos⟩, -⟩ := h
  exact ⟨before, cursor.rest, hinput, hpos⟩

-- What is ahead is what follows the offset, to the end of the input.
theorem rest (h : cursor.Within input) :
    IsSlice input cursor.pos (byteSize input) cursor.rest ∧
      cursor.rest = dropBytes input cursor.pos := by
  obtain ⟨rfl, ⟨before, hinput, hpos⟩, -⟩ := h
  refine ⟨⟨before, [], ?_, hpos, ?_⟩, ?_⟩
  · rw [hinput, List.append_nil]
  · rw [hinput, hpos, byteSize_append]
  · rw [hinput, hpos, dropBytes_append]

theorem ahead (h : cursor.Within input) {part after : List Char}
    (hrest : cursor.rest = part ++ after) :
    IsSlice input cursor.pos (cursor.pos + byteSize part) part := by
  obtain ⟨rfl, ⟨before, hinput, hpos⟩, -⟩ := h
  exact ⟨before, after, hrest ▸ hinput, hpos, rfl⟩

theorem isBoundary_ahead (h : cursor.Within input) {n : Nat} (hn : IsBoundary cursor.rest n) :
    IsBoundary input (cursor.pos + n) := by
  obtain ⟨part, after, hrest, rfl⟩ := hn
  exact (h.ahead hrest).isBoundary_stop

theorem rewind (h : cursor.Within input) (hstart : start.Within input) :
    (cursor.rewind start.toPlace).Within input := by
  obtain ⟨before, hinput, hpos⟩ := hstart.sound
  refine ⟨h.input_eq, ⟨before, ?_, hpos⟩, h.mark⟩
  exact h.input_eq.trans (hstart.input_eq.symm.trans hinput)

theorem moveTo (h : cursor.Within input) {n : Nat} (hn : IsBoundary input n) :
    (cursor.moveTo n).Within input := by
  obtain ⟨rfl, -, hmark⟩ := h
  obtain ⟨before, after, hinput, rfl⟩ := hn
  refine ⟨rfl, ⟨before, ?_, rfl⟩, hmark⟩
  change cursor.input = before ++ dropBytes cursor.input (byteSize before)
  rw [hinput, dropBytes_append]

theorem skipWhile (h : cursor.Within input) (accepts : Char → Bool) :
    (cursor.skipWhile accepts).Within input := by
  obtain ⟨rfl, hsound, hmark⟩ := h
  have hplace := Place.reaches_after
    (List.takeWhile_append_dropWhile (p := accepts) (l := cursor.rest)).symm
  exact ⟨rfl, hsound.of_reaches ((Reaches.refl cursor).rewind hplace), hmark⟩

theorem skipBlank (h : cursor.Within input) : cursor.skipBlank.Within input := h.skipWhile _

theorem commit (h : cursor.Within input) : cursor.commit.Within input := by
  refine ⟨h.input_eq, h.sound, ?_⟩
  cases Nat.le_total cursor.mark cursor.pos with
  | inl hle =>
      rw [Cursor.commit, Nat.max_eq_right hle]
      exact h.pos
  | inr hle =>
      rw [Cursor.commit, Nat.max_eq_left hle]
      exact h.mark

theorem withAutoSkip (h : cursor.Within input) (on : Bool) :
    (cursor.withAutoSkip on).Within input := ⟨h.input_eq, h.sound, h.mark⟩

end Cursor.Within

-- Where the cursor is left, and where a failure lies.
structure Outcome.Within {β : Type} (input : List Char) (outcome : Outcome β) : Prop where
  cursor : outcome.cursor.Within input
  failure : ∀ failure, outcome.result = .error failure → IsBoundary input failure.pos

namespace Outcome.Within

variable {β γ : Type} {input : List Char} {outcome : Outcome β} {start : Cursor}

theorem of_ok {value : β} (hcursor : outcome.cursor.Within input)
    (hresult : outcome.result = .ok value) : outcome.Within input := by
  refine ⟨hcursor, fun failure hfailure => ?_⟩
  cases hresult.symm.trans hfailure

theorem of_error {failure : Failure} {cursor : Cursor} {events : List Event}
    (hcursor : cursor.Within input) (hfailure : IsBoundary input failure.pos) :
    Within (β := β) input ⟨.error failure, cursor, events⟩ := by
  refine ⟨hcursor, ?_⟩
  rintro _ ⟨⟩
  exact hfailure

theorem map (h : outcome.Within input) (f : β → γ) : (outcome.map f).Within input :=
  ⟨h.cursor, fun failure hfailure => h.failure failure (map_result_eq_error_iff.mp hfailure)⟩

theorem after (h : outcome.Within input) (earlier : List Event) :
    (outcome.after earlier).Within input := ⟨h.cursor, h.failure⟩

theorem back (h : outcome.Within input) (hstart : start.Within input) :
    (outcome.back start).Within input := h.cursor.rewind hstart

end Outcome.Within

def Step.Within {α : Type} (input : List Char) : Step α → Prop
  | .entered _ cursor => cursor.Within input
  | .left _ _ outcome => outcome.Within input

namespace Grammar

variable {α : Type} {input : List Char}

theorem scanStart_within {scanner : Scanner} {cursor : Cursor} (h : cursor.Within input) :
    (scanStart scanner cursor).Within input := by
  unfold scanStart
  split
  · exact h
  · exact h.skipBlank

theorem attemptScan_within {scanner : Scanner} {cursor : Cursor} (h : cursor.Within input) :
    (attemptScan scanner cursor : Outcome (Node α)).Within input := by
  have hstart : (scanStart scanner cursor).Within input := scanStart_within h
  simp only [attemptScan]
  cases hlex : scanner.lex (α := α) cursor.policy (scanStart scanner cursor).rest with
  | ok lexeme =>
      have hplace := Place.reaches_after (Scanner.consumed_append_of_lex hlex).symm
      have hreaches := (Cursor.Reaches.refl (scanStart scanner cursor)).rewind hplace
      exact .of_ok ⟨hstart.input_eq, hstart.sound.of_reaches hreaches, hstart.mark⟩ rfl
  | error miss => exact .of_error h (hstart.isBoundary_ahead (Scanner.isBoundary_of_lex hlex))

section Level

variable {Tried : Grammar α → Cursor → Outcome (Node α) → List (Step α) → Prop}
  (hparts : ∀ {part cursor outcome steps}, Tried part cursor outcome steps →
    cursor.Within input → outcome.Within input ∧ ∀ step ∈ steps, step.Within input)

include hparts

theorem PartsRun.within {parts : List (Grammar α)} {cursor : Cursor}
    {outcome : Outcome (List (Node α))} {steps : List (Step α)}
    (h : PartsRun Tried parts cursor outcome steps) (hcursor : cursor.Within input) :
    outcome.Within input ∧ ∀ step ∈ steps, step.Within input := by
  induction h with
  | nil => exact ⟨.of_ok hcursor rfl, nofun⟩
  | failed hpart hresult =>
      obtain ⟨hfirst, hsteps⟩ := hparts hpart hcursor
      exact ⟨.of_error hfirst.cursor (hfirst.failure _ hresult), hsteps⟩
  | cons hpart _ _ ih =>
      obtain ⟨hfirst, hsteps⟩ := hparts hpart hcursor
      obtain ⟨hothers, hlater⟩ := ih hfirst.cursor
      exact ⟨(hothers.map _).after _, List.forall_mem_append.mpr ⟨hsteps, hlater⟩⟩

theorem AnyRun.within {start : Cursor} {best : Option Failure} {alternatives : List (Grammar α)}
    {cursor : Cursor} {outcome : Outcome (Node α)} {steps : List (Step α)}
    (h : AnyRun Tried start best alternatives cursor outcome steps) (hstart : start.Within input)
    (hcursor : cursor.Within input) (hbest : ∀ failure ∈ best, IsBoundary input failure.pos) :
    outcome.Within input ∧ ∀ step ∈ steps, step.Within input := by
  induction h with
  | @exhausted best cursor =>
      refine ⟨.of_error hcursor ?_, nofun⟩
      cases best with
      | none => exact hcursor.pos
      | some failure => exact hbest failure rfl
  | matched hpart | committed hpart => exact hparts hpart hcursor
  | next hpart hresult _ _ ih =>
      obtain ⟨hfirst, hsteps⟩ := hparts hpart hcursor
      have hkept := forall_mem_further hbest (hfirst.failure _ hresult)
      obtain ⟨hothers, hlater⟩ := ih (hfirst.back hstart) hkept
      exact ⟨hothers.after _, List.forall_mem_append.mpr ⟨hsteps, hlater⟩⟩

theorem SeparatorRun.within {separator : Option (Grammar α)} {cursor : Cursor}
    {outcome : Outcome (Node α)} {steps : List (Step α)}
    (h : SeparatorRun Tried separator cursor outcome steps) (hcursor : cursor.Within input) :
    outcome.Within input ∧ ∀ step ∈ steps, step.Within input := by
  cases h with
  | none => exact ⟨.of_ok hcursor rfl, nofun⟩
  | some hpart => exact hparts hpart hcursor

theorem ItemsRun.within {item : Grammar α} {separator : Option (Grammar α)} {start : Cursor}
    {min : Nat} {cursor : Cursor} {outcome : Outcome (List (Node α))} {steps : List (Step α)}
    (h : ItemsRun Tried item separator start min cursor outcome steps)
    (hstart : start.Within input) (hcursor : cursor.Within input) :
    outcome.Within input ∧ ∀ step ∈ steps, step.Within input := by
  induction h with
  | committed hitem hresult =>
      obtain ⟨hfirst, hsteps⟩ := hparts hitem hcursor
      exact ⟨.of_error hfirst.cursor (hfirst.failure _ hresult), hsteps⟩
  | short hitem hresult =>
      obtain ⟨hfirst, hsteps⟩ := hparts hitem hcursor
      exact ⟨.of_error (hfirst.back hstart) (hfirst.failure _ hresult), hsteps⟩
  | ended hitem =>
      obtain ⟨hfirst, hsteps⟩ := hparts hitem hcursor
      exact ⟨.of_ok hfirst.cursor rfl, hsteps⟩
  | separatorCommitted hitem _ hseparator hseparated =>
      obtain ⟨hfirst, hsteps⟩ := hparts hitem hcursor
      obtain ⟨hbetween, hlater⟩ := hseparator.within hparts hfirst.cursor
      exact ⟨.of_error hbetween.cursor (hbetween.failure _ hseparated),
        List.forall_mem_append.mpr ⟨hsteps, hlater⟩⟩
  | separatorEnded hitem _ hseparator | stuck hitem _ hseparator =>
      obtain ⟨hfirst, hsteps⟩ := hparts hitem hcursor
      obtain ⟨hbetween, hlater⟩ := hseparator.within hparts hfirst.cursor
      exact ⟨.of_ok hbetween.cursor rfl, List.forall_mem_append.mpr ⟨hsteps, hlater⟩⟩
  | next hitem _ hseparator _ _ _ ih =>
      obtain ⟨hfirst, hsteps⟩ := hparts hitem hcursor
      obtain ⟨hbetween, hlater⟩ := hseparator.within hparts hfirst.cursor
      obtain ⟨hothers, hlast⟩ := ih hbetween.cursor
      refine ⟨(hothers.map _).after _, List.forall_mem_append.mpr ⟨?_, hlast⟩⟩
      exact List.forall_mem_append.mpr ⟨hsteps, hlater⟩

theorem LevelRun.within {rules : Rules α} {grammar : Grammar α} {cursor : Cursor}
    {outcome : Outcome (Node α)} {inner : List (Step α)}
    (h : LevelRun Tried rules grammar cursor outcome inner) (hcursor : cursor.Within input) :
    outcome.Within input ∧ ∀ step ∈ inner, step.Within input := by
  cases h with
  | scan => exact ⟨attemptScan_within hcursor, nofun⟩
  | cut => exact ⟨.of_ok hcursor.commit rfl, nofun⟩
  | seq hrun =>
      obtain ⟨hlast, hsteps⟩ := hrun.within hparts hcursor
      exact ⟨.of_ok hlast.cursor rfl, hsteps⟩
  | seqCommitted hrun hresult =>
      obtain ⟨hlast, hsteps⟩ := hrun.within hparts hcursor
      exact ⟨.of_error hlast.cursor (hlast.failure _ hresult), hsteps⟩
  | seqFailed hrun hresult =>
      obtain ⟨hlast, hsteps⟩ := hrun.within hparts hcursor
      exact ⟨.of_error (hlast.back hcursor) (hlast.failure _ hresult), hsteps⟩
  | any hrun => exact hrun.within hparts hcursor hcursor nofun
  | many hrun =>
      obtain ⟨hlast, hsteps⟩ := hrun.within hparts hcursor hcursor
      exact ⟨hlast.map _, hsteps⟩
  | maybe hpart | maybeCommitted hpart | label hpart | labelCommitted hpart =>
      exact hparts hpart hcursor
  | maybeFailed hpart =>
      obtain ⟨hlast, hsteps⟩ := hparts hpart hcursor
      exact ⟨.of_ok (hlast.back hcursor) rfl, hsteps⟩
  | labelFailed hpart =>
      obtain ⟨hlast, hsteps⟩ := hparts hpart hcursor
      have hback := hlast.back hcursor
      exact ⟨.of_error hback hback.skipBlank.pos, hsteps⟩
  | named hpart | rule _ hpart =>
      obtain ⟨hlast, hsteps⟩ := hparts hpart hcursor
      exact ⟨⟨hlast.cursor, hlast.failure⟩, hsteps⟩
  | map hpart | bind hpart | merge hpart =>
      obtain ⟨hlast, hsteps⟩ := hparts hpart hcursor
      exact ⟨hlast.map _, hsteps⟩
  | tight hpart =>
      obtain ⟨hlast, hsteps⟩ := hparts hpart (hcursor.withAutoSkip false)
      exact ⟨⟨hlast.cursor.withAutoSkip _, hlast.failure⟩, hsteps⟩
  | undefined => exact ⟨.of_error hcursor hcursor.skipBlank.pos, nofun⟩

end Level

-- Every cursor of a run and every failure in it lies between two characters of the input.
theorem Runs.within {rules : Rules α} {grammar : Grammar α} {cursor : Cursor}
    {outcome : Outcome (Node α)} {steps : List (Step α)}
    (h : Runs rules grammar cursor outcome steps) (hcursor : cursor.Within input) :
    outcome.Within input ∧ ∀ step ∈ steps, step.Within input := by
  refine h.induction (P := fun _ cursor outcome steps => cursor.Within input →
    outcome.Within input ∧ ∀ step ∈ steps, step.Within input) ?_ hcursor
  intro grammar cursor outcome inner hlevel hcursor
  obtain ⟨houtcome, hinner⟩ := hlevel.within (fun hpart => hpart.2) hcursor
  refine ⟨houtcome, List.forall_mem_cons.mpr ⟨hcursor, List.forall_mem_append.mpr ⟨hinner, ?_⟩⟩⟩
  exact List.forall_mem_singleton.mpr houtcome

end Grammar

end Descent
