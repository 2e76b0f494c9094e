import Descent.Proofs.Layouts.Lexemes

namespace Descent

open Text

variable {α β γ : Type} {text other : List Char}

-- The offsets of places that are counterparts of each other.
def Aligned (text other : List Char) (n n' : Nat) : Prop :=
  ∃ place place' : Place, place.Counterpart text other place' ∧ n = place.pos ∧ n' = place'.pos

namespace Aligned

variable {n n' later later' : Nat}

theorem symm (h : Aligned text other n n') : Aligned other text n' n := by
  obtain ⟨place, place', hplace, hn, hn'⟩ := h
  exact ⟨place', place, hplace.symm, hn', hn⟩

theorem lt_iff (h : Aligned text other n n') (hlater : Aligned text other later later') :
    n < later ↔ n' < later' := by
  obtain ⟨place, place', hplace, rfl, rfl⟩ := h
  obtain ⟨behind, behind', hbehind, rfl, rfl⟩ := hlater
  exact hplace.pos_lt_iff hbehind

theorem max (h : Aligned text other n n') (hlater : Aligned text other later later') :
    Aligned text other (max n later) (max n' later') := by
  have hlt := h.lt_iff hlater
  by_cases hle : n < later
  · rw [Nat.max_eq_right (Nat.le_of_lt hle), Nat.max_eq_right (Nat.le_of_lt (hlt.mp hle))]
    exact hlater
  · rw [Nat.max_eq_left (Nat.le_of_not_lt hle), Nat.max_eq_left (Nat.le_of_not_lt (hle ∘ hlt.mpr))]
    exact h

end Aligned

-- The cursors stand at counterparts and have committed to counterparts, and both skip blanks.
structure Cursor.Twin (text other : List Char) (cursor cursor' : Cursor) : Prop where
  place : cursor.toPlace.Counterpart text other cursor'.toPlace
  mark : Aligned text other cursor.mark cursor'.mark
  skips : cursor.policy = .ascii ∧ cursor.autoSkip = true
  skips' : cursor'.policy = .ascii ∧ cursor'.autoSkip = true

namespace Cursor.Twin

variable {cursor cursor' start start' stop stop' : Cursor}

theorem symm (h : cursor.Twin text other cursor') : cursor'.Twin other text cursor :=
  ⟨h.place.symm, h.mark.symm, h.skips', h.skips⟩

theorem pos (h : cursor.Twin text other cursor') : Aligned text other cursor.pos cursor'.pos :=
  ⟨_, _, h.place, rfl, rfl⟩

theorem pos_lt_mark_iff (h : start.Twin text other start') (hstop : stop.Twin text other stop') :
    start.pos < stop.mark ↔ start'.pos < stop'.mark := h.pos.lt_iff hstop.mark

theorem mark_le_pos_iff (h : start.Twin text other start') (hstop : stop.Twin text other stop') :
    stop.mark ≤ start.pos ↔ stop'.mark ≤ start'.pos := by
  rw [← Nat.not_lt, h.pos_lt_mark_iff hstop, Nat.not_lt]

theorem pos_eq_iff (h : start.Twin text other start') (hstop : stop.Twin text other stop') :
    stop.pos = start.pos ↔ stop'.pos = start'.pos := hstop.place.pos_eq_iff h.place

theorem rewind (h : cursor.Twin text other cursor') {place place' : Place}
    (hplace : place.Counterpart text other place') :
    (cursor.rewind place).Twin text other (cursor'.rewind place') :=
  ⟨hplace, h.mark, h.skips, h.skips'⟩

theorem commit (h : cursor.Twin text other cursor') :
    cursor.commit.Twin text other cursor'.commit :=
  ⟨h.place, h.mark.max h.pos, h.skips, h.skips'⟩

theorem skips_eq (h : cursor.policy = .ascii ∧ cursor.autoSkip = true) :
    cursor.skips = isAsciiBlank := by
  funext c
  rw [Cursor.skips, h.1, h.2]
  rfl

theorem skipBlank (h : cursor.Twin text other cursor') :
    cursor.skipBlank.Twin text other cursor'.skipBlank := by
  rw [Cursor.skipBlank, Cursor.skipBlank, skips_eq h.skips, skips_eq h.skips']
  have hsplit (rest : List Char) :=
    (List.takeWhile_append_dropWhile (p := isAsciiBlank) (l := rest)).symm
  refine h.rewind ⟨?_, ?_, h.place.rest.significant⟩
  · exact h.place.joint.after_of_startsSolid (hsplit _) (startsSolid_significant _)
  · exact h.place.joint'.after_of_startsSolid (hsplit _) (startsSolid_significant _)

end Cursor.Twin

structure Failure.Twin (text other : List Char) (failure failure' : Failure) : Prop where
  pos : Aligned text other failure.pos failure'.pos
  expected : failure'.expected = failure.expected

-- Both yield the same, or both fail for the same reason.
structure Outcome.Twin (text other : List Char) (outcome outcome' : Outcome β) : Prop where
  cursor : outcome.cursor.Twin text other outcome'.cursor
  ok : ∀ value, outcome.result = .ok value → outcome'.result = .ok value
  error : ∀ failure, outcome.result = .error failure →
    ∃ failure', outcome'.result = .error failure' ∧ failure.Twin text other failure'

namespace Outcome.Twin

variable {outcome outcome' : Outcome β} {cursor cursor' start start' : Cursor}

theorem of_ok {value : β} {events events' : List Event} (h : cursor.Twin text other cursor') :
    Twin text other ⟨.ok value, cursor, events⟩ ⟨.ok value, cursor', events'⟩ where
  cursor := h
  ok
    | _, rfl => rfl
  error _ hfailure := by cases hfailure

theorem of_error {failure failure' : Failure} {events events' : List Event}
    (h : cursor.Twin text other cursor') (hfailure : failure.Twin text other failure') :
    Twin (β := β) text other ⟨.error failure, cursor, events⟩
      ⟨.error failure', cursor', events'⟩ where
  cursor := h
  ok _ hvalue := by cases hvalue
  error
    | _, rfl => ⟨failure', rfl, hfailure⟩

theorem committed (h : outcome.Twin text other outcome') {failure : Failure}
    (hresult : outcome.result = .error failure) (hstart : start.Twin text other start')
    (hmark : start.pos < outcome.cursor.mark) :
    ∃ failure', outcome'.result = .error failure' ∧ failure.Twin text other failure' ∧
      start'.pos < outcome'.cursor.mark := by
  obtain ⟨failure', hresult', hfailure⟩ := h.error failure hresult
  exact ⟨failure', hresult', hfailure, (hstart.pos_lt_mark_iff h.cursor).mp hmark⟩

theorem withdrawn (h : outcome.Twin text other outcome') {failure : Failure}
    (hresult : outcome.result = .error failure) (hstart : start.Twin text other start')
    (hmark : outcome.cursor.mark ≤ start.pos) :
    ∃ failure', outcome'.result = .error failure' ∧ failure.Twin text other failure' ∧
      outcome'.cursor.mark ≤ start'.pos := by
  obtain ⟨failure', hresult', hfailure⟩ := h.error failure hresult
  exact ⟨failure', hresult', hfailure, (hstart.mark_le_pos_iff h.cursor).mp hmark⟩

theorem map (h : outcome.Twin text other outcome') (f : β → γ) :
    (outcome.map f).Twin text other (outcome'.map f) where
  cursor := h.cursor
  ok value hvalue := by
    obtain ⟨inner, hinner, rfl⟩ := map_result_eq_ok_iff.mp hvalue
    exact map_result_eq_ok_iff.mpr ⟨inner, h.ok inner hinner, rfl⟩
  error failure hfailure := by
    obtain ⟨failure', hfailure', htwin⟩ := h.error failure (map_result_eq_error_iff.mp hfailure)
    exact ⟨failure', map_result_eq_error_iff.mpr hfailure', htwin⟩

-- Events do not count.
theorem after (h : outcome.Twin text other outcome') (earlier earlier' : List Event) :
    (outcome.after earlier).Twin text other (outcome'.after earlier') := ⟨h.cursor, h.ok, h.error⟩

theorem back (h : outcome.Twin text other outcome') (hstart : start.Twin text other start') :
    (outcome.back start).Twin text other (outcome'.back start') := h.cursor.rewind hstart.place

end Outcome.Twin

namespace Grammar

-- Scanners of words, and combinators that leave skipping on.
inductive BlankFree : Grammar α → Prop
  | scan {scanner : Scanner} : scanner.BlankFree → BlankFree (.scan scanner)
  | cut : BlankFree .cut
  | seq {parts} : (∀ part ∈ parts, BlankFree part) → BlankFree (.seq parts)
  | any {alternatives} :
      (∀ alternative ∈ alternatives, BlankFree alternative) → BlankFree (.any alternatives)
  | many {item separator min} :
      BlankFree item → (∀ part ∈ separator, BlankFree part) →
      BlankFree (.many item separator min)
  | maybe {part} : BlankFree part → BlankFree (.maybe part)
  | label {name part} : BlankFree part → BlankFree (.label name part)
  | named {name part} : BlankFree part → BlankFree (.named name part)
  | map {f part} : BlankFree part → BlankFree (.map f part)
  | bind {value part} : BlankFree part → BlankFree (.bind value part)
  | merge {part} : BlankFree part → BlankFree (.merge part)
  | rule {name} : BlankFree (.rule name)

end Grammar

def Rules.BlankFree (rules : Rules α) : Prop :=
  ∀ name definition, rules.definition? name = some definition → definition.BlankFree

namespace Grammar

theorem scanStart_eq_skipBlank {scanner : Scanner} (hscanner : scanner.BlankFree)
    {cursor : Cursor} (hskips : cursor.policy = .ascii ∧ cursor.autoSkip = true) :
    scanStart scanner cursor = cursor.skipBlank := by
  have hkeeps : scanner.keepsBlank cursor.skips = false := by
    refine hscanner.keepsBlank_eq_false fun c hc => ?_
    rwa [Cursor.Twin.skips_eq hskips] at hc
  rw [scanStart, hkeeps, if_neg Bool.false_ne_true]

theorem attemptScan_twin {scanner : Scanner} (hscanner : scanner.BlankFree)
    {cursor cursor' : Cursor} (h : cursor.Twin text other cursor') :
    (attemptScan scanner cursor : Outcome (Node α)).Twin text other
      (attemptScan scanner cursor') := by
  have hstart := h.skipBlank
  simp only [attemptScan, scanStart_eq_skipBlank hscanner h.skips,
    scanStart_eq_skipBlank hscanner h.skips', h.skips.1, h.skips'.1]
  cases hlex : scanner.lex (α := α) .ascii cursor.skipBlank.rest with
  | ok lexeme =>
      obtain ⟨rest', hsolid, hrest, hlex'⟩ := Scanner.exists_lexeme hscanner hstart.place.rest hlex
      have hbehind := hstart.place.joint.after_solid
        (Scanner.consumed_append_of_lex hlex).symm hsolid
      have hbehind' := hstart.place.joint'.after_solid
        (Scanner.consumed_append_of_lex hlex').symm hsolid
      rw [hlex']
      exact .of_ok (hstart.rewind ⟨hbehind, hbehind', hrest⟩)
  | error miss =>
      obtain ⟨hlex', hoffset⟩ := Scanner.lex_eq_error hscanner hstart.place.rest hlex
      simp only [hlex', hoffset, Nat.add_zero]
      exact .of_error h ⟨hstart.pos, rfl⟩

theorem further_twin {best best' : Option Failure} {failure failure' : Failure}
    (hbest : Option.Rel (Failure.Twin text other) best best')
    (h : failure.Twin text other failure') :
    (further best failure).Twin text other (further best' failure') := by
  cases hbest with
  | none => exact h
  | @some earlier earlier' hearlier =>
      have hbeyond : failure'.isBeyond earlier' = failure.isBeyond earlier := by
        rw [Failure.isBeyond, Failure.isBeyond, decide_eq_decide]
        exact (hearlier.pos.lt_iff h.pos).symm
      rw [further, further, hbeyond]
      split
      · exact h
      · exact hearlier

-- What comes of the grammar in the one text comes of it in the other.
def HasTwin (rules : Rules α) (text other : List Char) (grammar : Grammar α) (cursor : Cursor)
    (outcome : Outcome (Node α)) : Prop :=
  grammar.BlankFree → ∀ ⦃cursor'⦄, cursor.Twin text other cursor' →
    ∃ outcome' steps', Runs rules grammar cursor' outcome' steps' ∧
      outcome.Twin text other outcome'

section Level

variable {rules : Rules α} {Tried : Grammar α → Cursor → Outcome (Node α) → List (Step α) → Prop}
  (hparts : ∀ {part cursor outcome steps}, Tried part cursor outcome steps →
    HasTwin rules text other part cursor outcome)

include hparts

theorem PartsRun.twin {parts : List (Grammar α)} {cursor cursor' : Cursor}
    {outcome : Outcome (List (Node α))} {steps : List (Step α)}
    (h : PartsRun Tried parts cursor outcome steps) (hfree : ∀ part ∈ parts, part.BlankFree)
    (hcursor : cursor.Twin text other cursor') :
    ∃ outcome' steps', PartsRun (Runs rules) parts cursor' outcome' steps' ∧
      outcome.Twin text other outcome' := by
  induction h generalizing cursor' with
  | nil => exact ⟨_, _, .nil, .of_ok hcursor⟩
  | failed hpart hresult =>
      have hfirst := hfree _ List.mem_cons_self
      obtain ⟨first', _, hruns, htwin⟩ := hparts hpart hfirst hcursor
      obtain ⟨failure', hfailure, hsame⟩ := htwin.error _ hresult
      exact ⟨_, _, .failed hruns hfailure, .of_error htwin.cursor hsame⟩
  | cons hpart hresult _ ih =>
      obtain ⟨hfirst, hrest⟩ := List.forall_mem_cons.mp hfree
      obtain ⟨first', _, hruns, htwin⟩ := hparts hpart hfirst hcursor
      obtain ⟨others', _, hothers, htogether⟩ := ih hrest htwin.cursor
      exact ⟨_, _, .cons hruns (htwin.ok _ hresult) hothers, (htogether.map _).after _ _⟩

theorem AnyRun.twin {start start' : Cursor} {best best' : Option Failure}
    {alternatives : List (Grammar α)} {cursor cursor' : Cursor} {outcome : Outcome (Node α)}
    {steps : List (Step α)} (h : AnyRun Tried start best alternatives cursor outcome steps)
    (hfree : ∀ alternative ∈ alternatives, alternative.BlankFree)
    (hstart : start.Twin text other start') (hcursor : cursor.Twin text other cursor')
    (hbest : Option.Rel (Failure.Twin text other) best best') :
    ∃ outcome' steps', AnyRun (Runs rules) start' best' alternatives cursor' outcome' steps' ∧
      outcome.Twin text other outcome' := by
  induction h generalizing cursor' best' with
  | exhausted =>
      refine ⟨_, _, .exhausted, .of_error hcursor ?_⟩
      cases hbest with
      | none => exact ⟨hcursor.pos, rfl⟩
      | some htwin => exact htwin
  | matched hpart hresult =>
      obtain ⟨outcome', _, hruns, htwin⟩ := hparts hpart (hfree _ List.mem_cons_self) hcursor
      exact ⟨outcome', _, .matched hruns (htwin.ok _ hresult), htwin⟩
  | committed hpart hresult hmark =>
      obtain ⟨outcome', _, hruns, htwin⟩ := hparts hpart (hfree _ List.mem_cons_self) hcursor
      obtain ⟨failure', hfailure, -, hmark'⟩ := htwin.committed hresult hstart hmark
      exact ⟨outcome', _, .committed hruns hfailure hmark', htwin⟩
  | next hpart hresult hmark _ ih =>
      obtain ⟨hfirst, hrest⟩ := List.forall_mem_cons.mp hfree
      obtain ⟨outcome', _, hruns, htwin⟩ := hparts hpart hfirst hcursor
      obtain ⟨failure', hfailure, hsame, hmark'⟩ := htwin.withdrawn hresult hstart hmark
      obtain ⟨others', _, hothers, htogether⟩ :=
        ih hrest (htwin.back hstart) (.some (further_twin hbest hsame))
      exact ⟨_, _, .next hruns hfailure hmark' hothers, htogether.after _ _⟩

theorem SeparatorRun.twin {separator : Option (Grammar α)} {cursor cursor' : Cursor}
    {outcome : Outcome (Node α)} {steps : List (Step α)}
    (h : SeparatorRun Tried separator cursor outcome steps)
    (hfree : ∀ part ∈ separator, part.BlankFree) (hcursor : cursor.Twin text other cursor') :
    ∃ outcome' steps', SeparatorRun (Runs rules) separator cursor' outcome' steps' ∧
      outcome.Twin text other outcome' := by
  cases h with
  | none => exact ⟨_, _, .none, .of_ok hcursor⟩
  | some hpart =>
      obtain ⟨outcome', _, hruns, htwin⟩ := hparts hpart (hfree _ rfl) hcursor
      exact ⟨outcome', _, .some hruns, htwin⟩

theorem ItemsRun.twin {item : Grammar α} {separator : Option (Grammar α)} {start start' : Cursor}
    {min : Nat} {cursor cursor' : Cursor} {outcome : Outcome (List (Node α))}
    {steps : List (Step α)} (h : ItemsRun Tried item separator start min cursor outcome steps)
    (hitem : item.BlankFree) (hseparator : ∀ part ∈ separator, part.BlankFree)
    (hstart : start.Twin text other start') (hcursor : cursor.Twin text other cursor') :
    ∃ outcome' steps', ItemsRun (Runs rules) item separator start' min cursor' outcome' steps' ∧
      outcome.Twin text other outcome' := by
  induction h generalizing cursor' with
  | committed hpart hresult hmark =>
      obtain ⟨first', _, hruns, htwin⟩ := hparts hpart hitem hcursor
      obtain ⟨failure', hfailure, hsame, hmark'⟩ := htwin.committed hresult hcursor hmark
      exact ⟨_, _, .committed hruns hfailure hmark', .of_error htwin.cursor hsame⟩
  | short hpart hresult hmark hmin =>
      obtain ⟨first', _, hruns, htwin⟩ := hparts hpart hitem hcursor
      obtain ⟨failure', hfailure, hsame, hmark'⟩ := htwin.withdrawn hresult hcursor hmark
      exact ⟨_, _, .short hruns hfailure hmark' hmin, .of_error (htwin.back hstart) hsame⟩
  | ended hpart hresult hmark =>
      obtain ⟨first', _, hruns, htwin⟩ := hparts hpart hitem hcursor
      obtain ⟨failure', hfailure, -, hmark'⟩ := htwin.withdrawn hresult hcursor hmark
      exact ⟨_, _, .ended hruns hfailure hmark', .of_ok htwin.cursor⟩
  | separatorCommitted hpart hresult hseparates hseparated hmark =>
      obtain ⟨first', _, hruns, htwin⟩ := hparts hpart hitem hcursor
      obtain ⟨between', _, hbetween, htwin'⟩ := hseparates.twin hparts hseparator htwin.cursor
      obtain ⟨failure', hfailure, hsame, hmark'⟩ := htwin'.committed hseparated htwin.cursor hmark
      exact ⟨_, _, .separatorCommitted hruns (htwin.ok _ hresult) hbetween hfailure hmark',
        .of_error htwin'.cursor hsame⟩
  | separatorEnded hpart hresult hseparates hseparated hmark =>
      obtain ⟨first', _, hruns, htwin⟩ := hparts hpart hitem hcursor
      obtain ⟨between', _, hbetween, htwin'⟩ := hseparates.twin hparts hseparator htwin.cursor
      obtain ⟨failure', hfailure, -, hmark'⟩ := htwin'.withdrawn hseparated htwin.cursor hmark
      exact ⟨_, _, .separatorEnded hruns (htwin.ok _ hresult) hbetween hfailure hmark',
        .of_ok htwin'.cursor⟩
  | stuck hpart hresult hseparates hseparated hstuck =>
      obtain ⟨first', _, hruns, htwin⟩ := hparts hpart hitem hcursor
      obtain ⟨between', _, hbetween, htwin'⟩ := hseparates.twin hparts hseparator htwin.cursor
      have hstuck' := (hcursor.pos_eq_iff htwin'.cursor).mp hstuck
      exact ⟨_, _, .stuck hruns (htwin.ok _ hresult) hbetween (htwin'.ok _ hseparated) hstuck',
        .of_ok htwin'.cursor⟩
  | next hpart hresult hseparates hseparated hmoved _ ih =>
      obtain ⟨first', _, hruns, htwin⟩ := hparts hpart hitem hcursor
      obtain ⟨between', _, hbetween, htwin'⟩ := hseparates.twin hparts hseparator htwin.cursor
      have hmoved' := hmoved ∘ (hcursor.pos_eq_iff htwin'.cursor).mpr
      obtain ⟨others', _, hothers, htogether⟩ := ih htwin'.cursor
      exact ⟨_, _, .next hruns (htwin.ok _ hresult) hbetween (htwin'.ok _ hseparated) hmoved'
        hothers, (htogether.map _).after _ _⟩

theorem LevelRun.twin {grammar : Grammar α} {cursor cursor' : Cursor} {outcome : Outcome (Node α)}
    {inner : List (Step α)} (h : LevelRun Tried rules grammar cursor outcome inner)
    (hrules : rules.BlankFree) (hfree : grammar.BlankFree)
    (hcursor : cursor.Twin text other cursor') :
    ∃ outcome' inner', LevelRun (Runs rules) rules grammar cursor' outcome' inner' ∧
      outcome.Twin text other outcome' := by
  cases h with
  | scan =>
      cases hfree with
      | scan hscanner =>
          exact ⟨_, _, .scan, attemptScan_twin hscanner hcursor⟩
  | cut => exact ⟨_, _, .cut, .of_ok hcursor.commit⟩
  | seq hrun hresult =>
      cases hfree with
      | seq hfree =>
          obtain ⟨last', _, hlast, htwin⟩ := hrun.twin hparts hfree hcursor
          exact ⟨_, _, .seq hlast (htwin.ok _ hresult), .of_ok htwin.cursor⟩
  | seqCommitted hrun hresult hmark =>
      cases hfree with
      | seq hfree =>
          obtain ⟨last', _, hlast, htwin⟩ := hrun.twin hparts hfree hcursor
          obtain ⟨failure', hfailure, hsame, hmark'⟩ := htwin.committed hresult hcursor hmark
          exact ⟨_, _, .seqCommitted hlast hfailure hmark', .of_error htwin.cursor hsame⟩
  | seqFailed hrun hresult hmark =>
      cases hfree with
      | seq hfree =>
          obtain ⟨last', _, hlast, htwin⟩ := hrun.twin hparts hfree hcursor
          obtain ⟨failure', hfailure, hsame, hmark'⟩ := htwin.withdrawn hresult hcursor hmark
          exact ⟨_, _, .seqFailed hlast hfailure hmark', .of_error (htwin.back hcursor) hsame⟩
  | any hrun =>
      cases hfree with
      | any hfree =>
          obtain ⟨outcome', _, hany, htwin⟩ := hrun.twin hparts hfree hcursor hcursor .none
          exact ⟨outcome', _, .any hany, htwin⟩
  | many hrun =>
      cases hfree with
      | many hitem hseparator =>
          obtain ⟨last', _, hlast, htwin⟩ := hrun.twin hparts hitem hseparator hcursor hcursor
          exact ⟨_, _, .many hlast, htwin.map _⟩
  | maybe hpart hresult =>
      cases hfree with
      | maybe hfree =>
          obtain ⟨outcome', _, hruns, htwin⟩ := hparts hpart hfree hcursor
          exact ⟨outcome', _, .maybe hruns (htwin.ok _ hresult), htwin⟩
  | maybeCommitted hpart hresult hmark =>
      cases hfree with
      | maybe hfree =>
          obtain ⟨outcome', _, hruns, htwin⟩ := hparts hpart hfree hcursor
          obtain ⟨failure', hfailure, -, hmark'⟩ := htwin.committed hresult hcursor hmark
          exact ⟨outcome', _, .maybeCommitted hruns hfailure hmark', htwin⟩
  | maybeFailed hpart hresult hmark =>
      cases hfree with
      | maybe hfree =>
          obtain ⟨outcome', _, hruns, htwin⟩ := hparts hpart hfree hcursor
          obtain ⟨failure', hfailure, -, hmark'⟩ := htwin.withdrawn hresult hcursor hmark
          exact ⟨_, _, .maybeFailed hruns hfailure hmark', .of_ok (htwin.back hcursor)⟩
  | label hpart hresult =>
      cases hfree with
      | label hfree =>
          obtain ⟨outcome', _, hruns, htwin⟩ := hparts hpart hfree hcursor
          exact ⟨outcome', _, .label hruns (htwin.ok _ hresult), htwin⟩
  | labelCommitted hpart hresult hmark =>
      cases hfree with
      | label hfree =>
          obtain ⟨outcome', _, hruns, htwin⟩ := hparts hpart hfree hcursor
          obtain ⟨failure', hfailure, -, hmark'⟩ := htwin.committed hresult hcursor hmark
          exact ⟨outcome', _, .labelCommitted hruns hfailure hmark', htwin⟩
  | labelFailed hpart hresult hmark =>
      cases hfree with
      | label hfree =>
          obtain ⟨outcome', _, hruns, htwin⟩ := hparts hpart hfree hcursor
          obtain ⟨failure', hfailure, -, hmark'⟩ := htwin.withdrawn hresult hcursor hmark
          have hback := htwin.back hcursor
          exact ⟨_, _, .labelFailed hruns hfailure hmark',
            .of_error hback ⟨hback.skipBlank.pos, rfl⟩⟩
  | named hpart =>
      cases hfree with
      | named hfree =>
          obtain ⟨outcome', _, hruns, htwin⟩ := hparts hpart hfree hcursor
          exact ⟨_, _, .named hruns, htwin.cursor, htwin.ok, htwin.error⟩
  | map hpart =>
      cases hfree with
      | map hfree =>
          obtain ⟨outcome', _, hruns, htwin⟩ := hparts hpart hfree hcursor
          exact ⟨_, _, .map hruns, htwin.map _⟩
  | bind hpart =>
      cases hfree with
      | bind hfree =>
          obtain ⟨outcome', _, hruns, htwin⟩ := hparts hpart hfree hcursor
          exact ⟨_, _, .bind hruns, htwin.map _⟩
  | merge hpart =>
      cases hfree with
      | merge hfree =>
          obtain ⟨outcome', _, hruns, htwin⟩ := hparts hpart hfree hcursor
          exact ⟨_, _, .merge hruns, htwin.map _⟩
  | tight => cases hfree
  | undefined hdefinition =>
      exact ⟨_, _, .undefined hdefinition, .of_error hcursor ⟨hcursor.skipBlank.pos, rfl⟩⟩
  | rule hdefinition hpart =>
      obtain ⟨outcome', _, hruns, htwin⟩ := hparts hpart (hrules _ _ hdefinition) hcursor
      exact ⟨_, _, .rule hdefinition hruns, htwin.cursor, htwin.ok, htwin.error⟩

end Level

-- Whatever a run comes to in one layout, there is one that comes to the same in the other.
theorem Returns.twin {rules : Rules α} (hrules : rules.BlankFree) {grammar : Grammar α}
    (hfree : grammar.BlankFree) {cursor cursor' : Cursor} (hcursor : cursor.Twin text other cursor')
    {outcome : Outcome (Node α)} (h : Returns rules grammar cursor outcome) :
    ∃ outcome', Returns rules grammar cursor' outcome' ∧ outcome.Twin text other outcome' := by
  obtain ⟨steps, hruns⟩ := h.exists_runs
  have hhas : HasTwin rules text other grammar cursor outcome := by
    refine hruns.induction
      (P := fun grammar cursor outcome _ => HasTwin rules text other grammar cursor outcome) ?_
    intro grammar cursor outcome inner hlevel hfree cursor' hcursor
    obtain ⟨outcome', inner', hlevel', htwin⟩ :=
      hlevel.twin (fun hpart => hpart.2) hrules hfree hcursor
    exact ⟨outcome', _, runs_iff.mpr ⟨inner', hlevel', rfl⟩, htwin⟩
  obtain ⟨outcome', _, hruns', htwin⟩ := hhas hfree hcursor
  exact ⟨outcome', hruns'.returns, htwin⟩

end Grammar

end Descent
