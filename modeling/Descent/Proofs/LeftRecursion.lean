import Descent.Proofs.Levels

namespace Descent

variable {α : Type}

-- A scanner that can match without consuming anything.
def Scanner.IsPassable : Scanner → Prop
  | .exact literal => literal = ""
  | .run _ _ min _ => min = 0
  | .blank _ => True
  | .regex _ | .quoted _ | .number | .upTo _ => False

theorem Scanner.isPassable_of_lex {policy : Whitespace} {text : List Char} {scanner : Scanner}
    {lexeme : Lexeme α} (h : lex policy text scanner = .ok lexeme)
    (hnil : lexeme.consumed = []) : scanner.IsPassable := by
  have hconsumed := consumed_append_of_lex h
  cases scanner with
  | exact literal =>
      simp only [lex] at h
      split at h
      · obtain rfl := Except.ok.inj h
        exact String.toList_eq_nil_iff.mp hnil
      · simp at h
  | run matcher negated min max =>
      simp only [lex] at h
      split at h
      · simp at h
      · rename_i hmin
        obtain rfl := Except.ok.inj h
        simp only [Lexeme.token] at hnil
        simpa [hnil, IsPassable] using hmin
  | blank chosen => trivial
  | regex pattern =>
      simp only [lex] at h
      split at h
      · rename_i n hlongest
        obtain rfl := Except.ok.inj h
        have hle := Regex.Expr.longest_le hlongest
        have hlength := congrArg List.length hnil
        simp only [Lexeme.token, List.length_take, List.length_nil] at hlength
        omega
      · simp at h
  | quoted quotes =>
      simp only [lex, Quoted.scan] at h
      split at h
      · simp at h
      · rename_i quote body
        split at h
        · simp at h
        · split at h
          · rename_i value rest hread
            obtain rfl := Except.ok.inj h
            rw [hnil, List.nil_append] at hconsumed
            have hle := (Quoted.isSuffix_of_read hread).length_le
            have hlength := congrArg List.length hconsumed
            simp only [List.length_cons] at hlength
            omega
          all_goals simp at h
  | number =>
      simp only [lex] at h
      split at h
      · rename_i value hvalue
        obtain rfl := Except.ok.inj h
        exact Numeral.text_ne_nil_of_value? hvalue hnil
      · simp at h
  | upTo terminators =>
      simp only [lex] at h
      split at h
      · simp at h
      · rename_i hfound
        obtain rfl := Except.ok.inj h
        exact hfound hnil

namespace Grammar

-- A grammar that can match without any of its scanners consuming something. A repetition can
-- match without any items, whatever it needs.
inductive Passable (rules : Rules α) : Grammar α → Prop
  | scan {scanner : Scanner} : scanner.IsPassable → Passable rules (.scan scanner)
  | cut : Passable rules .cut
  | seq {parts} : (∀ part ∈ parts, Passable rules part) → Passable rules (.seq parts)
  | any {alternatives alternative} :
      alternative ∈ alternatives → Passable rules alternative → Passable rules (.any alternatives)
  | many {item separator min} : Passable rules (.many item separator min)
  | maybe {part} : Passable rules (.maybe part)
  | label {name part} : Passable rules part → Passable rules (.label name part)
  | named {name part} : Passable rules part → Passable rules (.named name part)
  | map {f part} : Passable rules part → Passable rules (.map f part)
  | bind {value part} : Passable rules part → Passable rules (.bind value part)
  | merge {part} : Passable rules part → Passable rules (.merge part)
  | tight {part} : Passable rules part → Passable rules (.tight part)
  | rule {name definition} :
      rules.definition? name = some definition → Passable rules definition →
      Passable rules (.rule name)

-- A path through the grammar comes to the rule before any scanner on it has consumed something.
inductive LeftReaches (rules : Rules α) : Grammar α → String → Prop
  | rule {name} : LeftReaches rules (.rule name) name
  | seq {before part after name} :
      (∀ earlier ∈ before, Passable rules earlier) → LeftReaches rules part name →
      LeftReaches rules (.seq (before ++ part :: after)) name
  | any {alternatives alternative name} :
      alternative ∈ alternatives → LeftReaches rules alternative name →
      LeftReaches rules (.any alternatives) name
  | item {item separator min name} :
      LeftReaches rules item name → LeftReaches rules (.many item separator min) name
  | separator {item separator min name} :
      Passable rules item → LeftReaches rules separator name →
      LeftReaches rules (.many item (some separator) min) name
  | maybe {part name} : LeftReaches rules part name → LeftReaches rules (.maybe part) name
  | label {label part name} :
      LeftReaches rules part name → LeftReaches rules (.label label part) name
  | named {outer part name} :
      LeftReaches rules part name → LeftReaches rules (.named outer part) name
  | map {f part name} : LeftReaches rules part name → LeftReaches rules (.map f part) name
  | bind {value part name} :
      LeftReaches rules part name → LeftReaches rules (.bind value part) name
  | merge {part name} : LeftReaches rules part name → LeftReaches rules (.merge part) name
  | tight {part name} : LeftReaches rules part name → LeftReaches rules (.tight part) name

-- The way to a rule goes through the first part, or past it.
theorem LeftReaches.of_seq_cons {rules : Rules α} {part : Grammar α} {rest : List (Grammar α)}
    {name : String} (h : LeftReaches rules (.seq (part :: rest)) name) :
    LeftReaches rules part name ∨ Passable rules part ∧ LeftReaches rules (.seq rest) name := by
  generalize hparts : Grammar.seq (part :: rest) = whole at h
  cases h with
  | @seq before reached after _ hbefore hreached =>
      cases before with
      | nil =>
          cases hparts
          exact .inl hreached
      | cons first before =>
          cases hparts
          have hfirst := hbefore part List.mem_cons_self
          exact .inr ⟨hfirst, .seq (fun earlier hmem => hbefore earlier (.tail _ hmem)) hreached⟩
  | _ => cases hparts

theorem not_leftReaches_seq_nil {rules : Rules α} {name : String} :
    ¬ LeftReaches rules (.seq []) name := by
  intro h
  generalize hparts : Grammar.seq [] = whole at h
  cases h with
  | seq => simp at hparts
  | _ => cases hparts

theorem not_passable_seq_scan {rules : Rules α} {scanner : Scanner}
    (hscanner : ¬ scanner.IsPassable) (rest : List (Grammar α)) :
    ¬ Passable rules (.seq (.scan scanner :: rest)) := by
  rintro (_ | _ | hparts)
  cases hparts _ List.mem_cons_self with
  | scan hpassable => exact hscanner hpassable

-- Behind a scanner that consumes something no rule is reached.
theorem not_leftReaches_seq_scan {rules : Rules α} {scanner : Scanner}
    (hscanner : ¬ scanner.IsPassable) (rest : List (Grammar α)) (name : String) :
    ¬ LeftReaches rules (.seq (.scan scanner :: rest)) name := by
  intro hseq
  cases hseq.of_seq_cons with
  | inl hfirst => cases hfirst
  | inr hrest =>
      obtain ⟨⟨hpassable⟩, -⟩ := hrest
      exact hscanner hpassable

section Level

variable {rules : Rules α} {Tried : Grammar α → Cursor → Outcome (Node α) → List (Step α) → Prop}
  (hparts : ∀ {part cursor outcome steps}, Tried part cursor outcome steps →
    outcome.Contract cursor ∧ ∀ node, outcome.result = .ok node →
      outcome.cursor.pos = cursor.pos → Passable rules part)

include hparts

theorem PartsRun.passable {parts : List (Grammar α)} {cursor : Cursor}
    {outcome : Outcome (List (Node α))} {steps : List (Step α)}
    (h : PartsRun Tried parts cursor outcome steps) {nodes : List (Node α)}
    (hresult : outcome.result = .ok nodes) (hpos : outcome.cursor.pos = cursor.pos) :
    ∀ part ∈ parts, Passable rules part := by
  induction h generalizing nodes with
  | nil => simp
  | failed => simp at hresult
  | @cons part rest cursor first steps node others later hpart hfirst hrest ih =>
      have hle := (hparts hpart).1.reaches.pos_le
      have hle' := (hrest.reaches fun h => (hparts h).1).pos_le
      simp only [Outcome.after, Outcome.map] at hpos hresult
      cases hothers : others.result with
      | error failure => simp [hothers, Except.map] at hresult
      | ok tail =>
          intro other hmem
          cases List.mem_cons.mp hmem with
          | inl heq =>
              rw [heq]
              exact (hparts hpart).2 node hfirst (by omega)
          | inr hmem => exact ih hothers (by omega) other hmem

theorem AnyRun.passable {start : Cursor} {best : Option Failure} {alternatives : List (Grammar α)}
    {cursor : Cursor} {outcome : Outcome (Node α)} {steps : List (Step α)}
    (h : AnyRun Tried start best alternatives cursor outcome steps)
    (hstart : start.pos = cursor.pos) {node : Node α} (hresult : outcome.result = .ok node)
    (hpos : outcome.cursor.pos = start.pos) :
    ∃ alternative ∈ alternatives, Passable rules alternative := by
  induction h with
  | exhausted => simp [Outcome.failed] at hresult
  | matched hpart _ =>
      exact ⟨_, List.mem_cons_self, (hparts hpart).2 node hresult (hpos.trans hstart)⟩
  | committed _ hfailure => simp [hresult] at hfailure
  | next _ _ _ _ ih =>
      obtain ⟨alternative, hmem, hpassable⟩ := ih rfl hresult hpos
      exact ⟨alternative, List.mem_cons_of_mem _ hmem, hpassable⟩

theorem LevelRun.passable {grammar : Grammar α} {cursor : Cursor} {outcome : Outcome (Node α)}
    {steps : List (Step α)} (h : LevelRun Tried rules grammar cursor outcome steps)
    {node : Node α} (hresult : outcome.result = .ok node)
    (hpos : outcome.cursor.pos = cursor.pos) : Passable rules grammar := by
  cases h with
  | @scan scanner =>
      refine .scan ?_
      simp only [attemptScan] at hresult hpos
      cases hlex : scanner.lex (α := α) cursor.policy (scanStart scanner cursor).rest with
      | error miss => simp [hlex, Outcome.failed] at hresult
      | ok lexeme =>
          have hle := (reaches_scanStart scanner cursor).pos_le
          simp only [hlex, Outcome.ok, Cursor.rewind, Place.after] at hpos
          have hsize : Text.byteSize lexeme.consumed = 0 := by omega
          exact Scanner.isPassable_of_lex hlex (Text.byteSize_eq_zero_iff.mp hsize)
  | cut => exact .cut
  | seq hrun hnodes => exact .seq (hrun.passable hparts hnodes hpos)
  | seqCommitted | seqFailed => simp at hresult
  | any hrun =>
      obtain ⟨alternative, hmem, hpassable⟩ := hrun.passable hparts rfl hresult hpos
      exact .any hmem hpassable
  | many => exact .many
  | maybe | maybeCommitted | maybeFailed => exact .maybe
  | label hpart => exact .label ((hparts hpart).2 node hresult hpos)
  | labelCommitted _ hfailure => simp [hresult] at hfailure
  | labelFailed => simp [labeled] at hresult
  | named hpart => exact .named ((hparts hpart).2 node hresult hpos)
  | map hpart =>
      obtain ⟨inner, hinner, -⟩ := Outcome.map_result_eq_ok_iff.mp hresult
      exact .map ((hparts hpart).2 inner hinner hpos)
  | bind hpart =>
      obtain ⟨inner, hinner, -⟩ := Outcome.map_result_eq_ok_iff.mp hresult
      exact .bind ((hparts hpart).2 inner hinner hpos)
  | merge hpart =>
      obtain ⟨inner, hinner, -⟩ := Outcome.map_result_eq_ok_iff.mp hresult
      exact .merge ((hparts hpart).2 inner hinner hpos)
  | tight hpart => exact .tight ((hparts hpart).2 node hresult hpos)
  | undefined => simp [attemptNothing, Outcome.failed] at hresult
  | rule hdefinition hpart => exact .rule hdefinition ((hparts hpart).2 node hresult hpos)

end Level

theorem Returns.passable {rules : Rules α} {grammar : Grammar α} {cursor : Cursor}
    {outcome : Outcome (Node α)} (h : Returns rules grammar cursor outcome) {node : Node α}
    (hresult : outcome.result = .ok node) (hpos : outcome.cursor.pos = cursor.pos) :
    Passable rules grammar := by
  obtain ⟨steps, hruns⟩ := h.exists_runs
  refine hruns.induction (P := fun grammar cursor outcome _ => ∀ node, outcome.result = .ok node →
    outcome.cursor.pos = cursor.pos → Passable rules grammar) ?_ node hresult hpos
  intro grammar cursor outcome inner hlevel node hresult hpos
  exact hlevel.passable (fun hpart => ⟨hpart.1.returns.contract, hpart.2⟩) hresult hpos

end Grammar

-- The rank falls from every rule to the rules that its definition can come to before anything is
-- consumed.
def Rules.RankedBy (rules : Rules α) (rank : String → Nat) : Prop :=
  ∀ name definition, rules.definition? name = some definition →
    ∀ other, Grammar.LeftReaches rules definition other → rank other < rank name

end Descent
