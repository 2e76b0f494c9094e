import Descent.Answer
import Descent.Proofs.Layouts.Runs
import Descent.Proofs.Visits

namespace Descent

open Text

variable {α : Type} {text other : List Char}

theorem Text.Relaid.isEmpty_eq (h : Relaid text other) : text.isEmpty = other.isEmpty := by
  cases h with
  | nil | solid => rfl
  | blank _ _ hne hne' =>
      rw [List.isEmpty_eq_false_iff.mpr (List.append_ne_nil_of_left_ne_nil hne _),
        List.isEmpty_eq_false_iff.mpr (List.append_ne_nil_of_left_ne_nil hne' _)]

-- The errors are of one kind, at counterparts, and what was expected there is the same.
inductive ParseError.Twin (text other : List Char) : ParseError → ParseError → Prop
  | unmatched {failure failure'} :
      failure.Twin text other failure' → Twin text other (.unmatched failure) (.unmatched failure')
  | unparsed {place place' : Place} :
      place.Counterpart text other place' →
      Twin text other (.unparsed place.pos (String.ofList place.rest))
        (.unparsed place'.pos (String.ofList place'.rest))

-- The answers tell the same of texts that differ in their blanks only.
structure Answer.Twin (text other : List Char) (answer answer' : Answer α) : Prop where
  node : answer'.node = answer.node
  remaining : ∃ place place' : Place, place.Counterpart text other place' ∧
    answer.remaining = place.rest ∧ answer'.remaining = place'.rest
  error : Option.Rel (ParseError.Twin text other) answer.error answer'.error

theorem Cursor.twin_ofInput (h : Relaid text other) :
    (ofInput text .ascii).Twin text other (ofInput other .ascii) := by
  have hstart : Place.Counterpart text other ⟨0, text⟩ ⟨0, other⟩ :=
    ⟨Place.isJoint_start text, Place.isJoint_start other, h⟩
  exact ⟨hstart, ⟨_, _, hstart, rfl, rfl⟩, ⟨rfl, rfl⟩, ⟨rfl, rfl⟩⟩

theorem Answer.twin_ofOutcome {outcome outcome' : Outcome (Node α)}
    (h : outcome.Twin text other outcome') :
    (ofOutcome outcome).Twin text other (ofOutcome outcome') := by
  cases hresult : outcome.result with
  | ok node =>
      have hstop := h.cursor.skipBlank
      have hend : outcome'.cursor.skipBlank.atEnd = outcome.cursor.skipBlank.atEnd :=
        hstop.place.rest.isEmpty_eq.symm
      simp only [ofOutcome, hresult, h.ok node hresult, hend]
      refine ⟨rfl, ⟨_, _, hstop.place, rfl, rfl⟩, ?_⟩
      split
      · exact .none
      · exact .some (.unparsed hstop.place)
  | error failure =>
      obtain ⟨failure', hresult', hfailure⟩ := h.error failure hresult
      simp only [ofOutcome, hresult, hresult']
      exact ⟨rfl, ⟨_, _, h.cursor.place, rfl, rfl⟩, .some (.unmatched hfailure)⟩

namespace Grammar

variable {rules : Rules α} {grammar : Grammar α}

theorem exists_returns_iff_twin (hrules : rules.BlankFree) (hfree : grammar.BlankFree)
    {cursor cursor' : Cursor} (hcursor : cursor.Twin text other cursor') :
    (∃ outcome, Returns rules grammar cursor outcome) ↔
      ∃ outcome, Returns rules grammar cursor' outcome := by
  constructor
  · rintro ⟨outcome, h⟩
    obtain ⟨outcome', h', -⟩ := h.twin hrules hfree hcursor
    exact ⟨outcome', h'⟩
  · rintro ⟨outcome, h⟩
    obtain ⟨outcome', h', -⟩ := h.twin hrules hfree hcursor.symm
    exact ⟨outcome', h'⟩

theorem run_twin (hrules : rules.BlankFree) (hfree : grammar.BlankFree) {cursor cursor' : Cursor}
    (hcursor : cursor.Twin text other cursor') (hmark : cursor.mark ≤ cursor.pos) :
    (run rules grammar cursor).Twin text other (run rules grammar cursor') := by
  have hmark' := (hcursor.mark_le_pos_iff hcursor).mp hmark
  by_cases hreturns : ∃ outcome, Returns rules grammar cursor outcome
  · obtain ⟨outcome, h⟩ := hreturns
    obtain ⟨outcome', h', htwin⟩ := h.twin hrules hfree hcursor
    rw [run_eq_of_returns h hmark, run_eq_of_returns h' hmark']
    exact htwin
  · have hreturns' := mt (exists_returns_iff_twin hrules hfree hcursor).mpr hreturns
    rw [run_eq_endless (not_exists.mp hreturns), run_eq_endless (not_exists.mp hreturns')]
    exact .of_error hcursor ⟨hcursor.pos, rfl⟩

-- Which blanks there are between words, and how many, is of no account: every place that is not
-- inside of a run of blanks has a counterpart, and the answers differ in nothing else.
theorem layouts_parse_alike (hrules : rules.BlankFree) (hfree : grammar.BlankFree)
    (h : Relaid text other) :
    (∀ place : Place, place.IsJoint text → ∃! place', place.Counterpart text other place') ∧
    ((∃ outcome, Returns rules grammar (Cursor.ofInput text .ascii).skipBlank outcome) ↔
      ∃ outcome, Returns rules grammar (Cursor.ofInput other .ascii).skipBlank outcome) ∧
    (parse rules grammar .ascii text).Twin text other (parse rules grammar .ascii other) := by
  have hstart := (Cursor.twin_ofInput h).skipBlank
  refine ⟨fun place => Place.existsUnique_counterpart h, ?_, ?_⟩
  · exact exists_returns_iff_twin hrules hfree hstart
  · exact Answer.twin_ofOutcome (run_twin hrules hfree hstart (Nat.zero_le _))

theorem layouts_parse_alike_behind_cut :
    let sum : Grammar Unit :=
      .many (.any [.number, .chars "a-z"]) (some (.seq [.exact "+", .cut])) 1
    let rules : Rules Unit := ⟨[("sum", .seq [.exact "(", .label "sum" sum, .exact ")"])]⟩
    let text := ['(', '1', ' ', '+', ' ', 'x', ';']
    let other := ['(', '1', '\n', '\t', '+', ' ', 'x', ';']
    (rules.BlankFree ∧ (Grammar.rule "sum" : Grammar Unit).BlankFree ∧ Relaid text other) ∧
    (∀ place : Place, place.IsJoint text → ∃! place', place.Counterpart text other place') ∧
    ((∃ outcome, Returns rules (.rule "sum") (Cursor.ofInput text .ascii).skipBlank outcome) ↔
      ∃ outcome, Returns rules (.rule "sum") (Cursor.ofInput other .ascii).skipBlank outcome) ∧
    (parse rules (.rule "sum") .ascii text).Twin text other
      (parse rules (.rule "sum") .ascii other) := by
  intro sum rules text other
  have hsum : sum.BlankFree := by
    refine .many (.any ?_) ?_
    · exact List.forall_mem_cons.mpr
        ⟨.scan (by decide), List.forall_mem_singleton.mpr (.scan (by decide))⟩
    · rintro _ ⟨⟩
      exact .seq (List.forall_mem_cons.mpr
        ⟨.scan (by decide), List.forall_mem_singleton.mpr .cut⟩)
  have hrules : rules.BlankFree := by
    intro name definition hdefinition
    simp only [Rules.definition?, SortedMap.find?, rules] at hdefinition
    split at hdefinition
    · cases hdefinition
      exact .seq (by simpa using ⟨.scan (by decide), .label hsum, .scan (by decide)⟩)
    · cases hdefinition
  have hrelaid : Relaid text other := by
    refine .solid rfl (.solid rfl ?_)
    refine @Relaid.blank [' '] ['\n', '\t'] _ _ (by decide) (by decide) (by decide) (by decide)
      (startsSolid_cons rfl _) (startsSolid_cons rfl _) (.solid rfl ?_)
    exact @Relaid.blank [' '] [' '] _ _ (by decide) (by decide) (by decide) (by decide)
      (startsSolid_cons rfl _) (startsSolid_cons rfl _) (.solid rfl (.solid rfl .nil))
  exact ⟨⟨hrules, .rule, hrelaid⟩, layouts_parse_alike hrules .rule hrelaid⟩

end Grammar

end Descent
