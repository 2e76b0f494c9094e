import Descent.Proofs.Calc.Dialect

namespace Descent.Calc

open Grammar Scanner Text
open Json (Token StartsWith Delimited significant)

variable {Item : List Char → Float → Prop} {operators name : String} {length : Nat}
  {cursor stop : Cursor} {rest : List Char}

def floatNode (x : Float) : Node Empty := .value (.float x)

def stepNode (step : Char × Float) : Node Empty :=
  .children [.token (String.ofList [step.1]), floatNode step.2]

-- An operator and the operand behind it, as the grammar has it.
def step (operators name : String) : Expression := .seq [oneOf operators, .rule name]

theorem definition?_value : rules.definition? "value" = some (.any [.map Node.widen .number,
    .map (·.child 1) (.seq [.exact "(", .rule "sum", .exact ")"])]) := rfl

theorem definition?_product : rules.definition? "prod" = some (chain "*/" "value") := rfl

theorem definition?_sum : rules.definition? "sum" = some (chain "+-" "prod") := rfl

section Values

theorem apply_ofList (operator : Char) (left right : Float) :
    apply (some (String.ofList [operator])) left right = operation operator left right := by
  have hchar (other : Char) (h : some (String.ofList [operator]) = some (String.ofList [other])) :
      operator = other := by
    simpa using congrArg String.toList (Option.some.inj h)
  unfold apply
  split
  · rename_i h
    rw [hchar '+' h, operation]
  · rename_i h
    rw [hchar '-' h, operation]
  · rename_i h
    rw [hchar '*' h, operation]
  · rename_i h
    rw [hchar '/' h, operation]
  · rename_i hplus hminus hstar hslash
    rw [operation]
    all_goals rintro rfl
    · exact hplus rfl
    · exact hminus rfl
    · exact hstar rfl
    · exact hslash rfl

theorem fold_children (first : Float) (steps : List (Char × Float)) :
    fold (.children [floatNode first, .children (steps.map stepNode)]) =
      floatNode (workOff first steps) := by
  have hstep (left : Float) (step : Char × Float) :
      apply ((stepNode step).child 0).token? left (operand ((stepNode step).child 1)) =
        operation step.1 left step.2 := apply_ofList step.1 left step.2
  have hfold : (steps.map stepNode).foldl (fun left step =>
      apply (step.child 0).token? left (operand (step.child 1))) first = workOff first steps := by
    rw [List.foldl_map, workOff]
    simp only [hstep]
  exact congrArg floatNode hfold

-- A number is widened to a float.
theorem widen_value {numeral : Numeral} {value : Value Empty} (h : numeral.Denotes value) :
    ∃ x, value.float? = some x ∧ Node.widen (.value value) = floatNode x := by
  cases h with
  | integer => exact ⟨_, rfl, rfl⟩
  | decimal => exact ⟨_, rfl, rfl⟩

end Values

section Operators

-- The notation of the set is a list of its characters, and none of them is a blank or part of a
-- number that has been read.
structure Operators (operators : String) : Prop where
  contains : ∀ c, (CharSet.ofString operators).contains c = operators.toList.contains c
  solid : ∀ c ∈ operators.toList, isAsciiBlank c = false
  delimits : ∀ c ∈ operators.toList, Numeral.prolongs c = false

theorem operators_product : Operators "*/" where
  contains c := by
    have hset : CharSet.ofString "*/" = ⟨['*', '/'], []⟩ := rfl
    rw [hset]
    simp [CharSet.contains]
  solid := by simp [isAsciiBlank]
  delimits := by simp [Numeral.prolongs]

theorem operators_sum : Operators "+-" where
  contains c := by
    have hset : CharSet.ofString "+-" = ⟨['+', '-'], []⟩ := rfl
    rw [hset]
    simp [CharSet.contains]
  solid := by simp [isAsciiBlank]
  delimits := by simp [Numeral.prolongs]

variable (hoperators : Operators operators)

include hoperators

theorem lex_oneOf_eq_ok_iff {α : Type} {policy : Whitespace} {text : List Char}
    {lexeme : Lexeme α} :
    lex policy text (.run operators false 1 (some 1)) = .ok lexeme ↔
      ∃ c rest, c ∈ operators.toList ∧ text = c :: rest ∧ lexeme = .token [c] rest := by
  constructor
  · intro h
    cases text with
    | nil => cases h
    | cons c rest =>
        by_cases hmem : c ∈ operators.toList
        · simp [lex, prefixOf, hoperators.contains, hmem] at h
          exact ⟨c, rest, hmem, rfl, h.symm⟩
        · simp [lex, prefixOf, hoperators.contains, hmem] at h
  · rintro ⟨c, rest, hmem, rfl, rfl⟩
    simp [lex, prefixOf, hoperators.contains, hmem]

theorem opens_oneOf :
    Opens Empty operators.toList.contains (.run operators false 1 (some 1)) := by
  intro text lexeme hlex
  obtain ⟨c, rest, hmem, rfl, -⟩ := (lex_oneOf_eq_ok_iff hoperators).mp hlex
  exact ⟨c, rfl, List.contains_iff_mem.mpr hmem⟩

theorem exists_token_of_oneOf (hready : Ready cursor) {node : Node Empty}
    (h : Yields rules (oneOf operators) cursor (.ok node) stop) :
    ∃ c literal, c ∈ operators.toList ∧ Token [c] literal ∧ cursor.rest = literal ++ stop.rest ∧
      node = .token (String.ofList [c]) := by
  obtain ⟨lexeme, literal, hlex, htoken, hrest, rfl⟩ := hready.exists_token rfl h
  obtain ⟨c, rest, hmem, -, rfl⟩ := (lex_oneOf_eq_ok_iff hoperators).mp hlex
  exact ⟨c, literal, hmem, htoken, hrest, rfl⟩

theorem yields_oneOf (hready : Ready cursor) {c : Char} {literal : List Char}
    (hmem : c ∈ operators.toList) (htoken : Token [c] literal)
    (hrest : cursor.rest = literal ++ rest) :
    ∃ stop, Yields rules (oneOf operators) cursor (.ok (.token (String.ofList [c]))) stop ∧
      stop.rest = rest ∧ Ready stop := by
  obtain ⟨hblank⟩ := htoken
  have hsignificant : significant cursor.rest = c :: rest := by
    rw [hrest, List.append_assoc]
    refine Json.significant_append hblank ?_
    rintro _ ⟨⟩
    exact hoperators.solid c hmem
  exact hready.yields_scan rfl
    ((lex_oneOf_eq_ok_iff hoperators).mpr ⟨c, rest, hmem, hsignificant, rfl⟩)

end Operators

section Sound

theorem sound_step (hoperators : Operators operators)
    (h : Sound rules Item floatNode (.rule name) length) :
    Sound rules (Step operators Item) stepNode (step operators name) length := by
  intro cursor node stop hlength hready hyields
  obtain ⟨nodes, rfl, hfollow⟩ := hyields.follow
  obtain ⟨_, middle, _, rfl, hoperator, hfollow⟩ := hfollow.of_cons
  obtain ⟨_, _, _, rfl, hoperand, hfollow⟩ := hfollow.of_cons
  obtain ⟨rfl, rfl⟩ := hfollow.of_nil
  obtain ⟨c, literal, hmem, htoken, hrest, rfl⟩ :=
    exists_token_of_oneOf hoperators hready hoperator
  have hle := hoperator.reaches.place.rest_length_le
  obtain ⟨text, x, hx, rfl, hlast⟩ :=
    h _ _ _ (by omega) (hready.of_yields hoperator) hoperand
  refine ⟨_, (c, x), .mk hmem htoken hx, rfl, ?_⟩
  rw [hrest, hlast, List.append_assoc]

theorem sound_chain (hoperators : Operators operators)
    (h : Sound rules Item floatNode (.rule name) length) :
    Sound rules (Chain operators Item) floatNode (chain operators name) length := by
  intro cursor node stop hlength hready hyields
  obtain ⟨inner, hseq, rfl⟩ := hyields.of_map
  obtain ⟨nodes, rfl, hfollow⟩ := hseq.follow
  obtain ⟨_, middle, _, rfl, hfirst, hfollow⟩ := hfollow.of_cons
  obtain ⟨_, _, _, rfl, hmany, hfollow⟩ := hfollow.of_cons
  obtain ⟨rfl, rfl⟩ := hfollow.of_nil
  obtain ⟨text, first, hitem, rfl, hrest⟩ := h _ _ _ hlength hready hfirst
  obtain ⟨nodes, rfl, hrepeats⟩ := hmany.of_many
  have hle := hfirst.reaches.place.rest_length_le
  obtain ⟨later, steps, hsteps, rfl, hlast⟩ :=
    (sound_step hoperators h).row hrepeats (hready.of_yields hfirst) (by omega) rfl
  refine ⟨_, _, .mk hitem hsteps, fold_children first steps, ?_⟩
  rw [hrest, hlast, List.append_assoc]

theorem sound_number : Sound rules Operand floatNode (.map Node.widen .number) length := by
  intro cursor node stop _ hready hyields
  obtain ⟨inner, hnumber, rfl⟩ := hyields.of_map
  obtain ⟨numeral, value, literal, hformed, hvalue, htoken, hrest, rfl⟩ :=
    hready.exists_token_of_number hnumber
  obtain ⟨x, hx, hwiden⟩ := widen_value hvalue
  exact ⟨literal, x, .number hformed hvalue hx htoken, hwiden, hrest⟩

theorem startsWith_opening : StartsWith "(" '(' := ⟨rfl, rfl⟩

theorem startsWith_closing : StartsWith ")" ')' := ⟨rfl, rfl⟩

theorem sound_group (h : Sound rules Sum floatNode (.rule "sum") length) :
    Sound rules Operand floatNode
      (.map (·.child 1) (.seq [.exact "(", .rule "sum", .exact ")"])) (length + 1) := by
  intro cursor node stop hlength hready hyields
  obtain ⟨inner, hseq, rfl⟩ := hyields.of_map
  obtain ⟨nodes, rfl, hfollow⟩ := hseq.follow
  obtain ⟨_, inside, _, rfl, hopen, hfollow⟩ := hfollow.of_cons
  obtain ⟨_, outside, _, rfl, hsum, hfollow⟩ := hfollow.of_cons
  obtain ⟨_, _, _, rfl, hclose, hfollow⟩ := hfollow.of_cons
  obtain ⟨rfl, rfl⟩ := hfollow.of_nil
  obtain ⟨opener, hopener, hrest, -⟩ := hready.exists_token_of_exact startsWith_opening hopen
  have hinside := hready.of_yields hopen
  have hshorter := Nat.lt_of_lt_of_le ((consumes_exact startsWith_opening).rest_length_lt hopen)
    (Nat.le_of_lt_succ hlength)
  obtain ⟨body, x, hx, rfl, hinner⟩ := h _ _ _ hshorter hinside hsum
  obtain ⟨closer, hcloser, hlast, -⟩ :=
    (hinside.of_yields hsum).exists_token_of_exact startsWith_closing hclose
  refine ⟨_, x, .group hopener hx hcloser, rfl, ?_⟩
  rw [hrest, hinner, hlast]
  simp

theorem sound_operand (h : Sound rules Sum floatNode (.rule "sum") length) :
    Sound rules Operand floatNode (.rule "value") (length + 1) := by
  refine Sound.rule (Sound.any fun alternative hmem => ?_) definition?_value
  simp only [List.mem_cons, List.not_mem_nil, or_false] at hmem
  rcases hmem with rfl | rfl
  · exact sound_number
  · exact sound_group h

theorem sound_product (h : Sound rules Sum floatNode (.rule "sum") length) :
    Sound rules Product floatNode (.rule "prod") (length + 1) :=
  (sound_chain operators_product (sound_operand h)).rule definition?_product

-- Every sum that is read is one of the dialect, and it comes to what is worked out.
theorem sound_sum (length : Nat) : Sound rules Sum floatNode (.rule "sum") length := by
  refine Sound.of_step (fun length ih => ?_) length
  exact (sound_chain operators_sum (sound_product ih)).rule definition?_sum

end Sound

section Complete

-- The text goes on neither with a number that has been read nor, behind blanks, with one of these
-- operators.
structure Closed (operators : List Char) (rest : List Char) : Prop where
  delimited : Delimited rest
  head_notMem : ∀ c ∈ (significant rest).head?, c ∉ operators

variable {inner : List Char}

theorem Closed.of_token {c : Char} {literal : List Char} (htoken : Token [c] literal)
    (hsolid : isAsciiBlank c = false) (hdelimits : Numeral.prolongs c = false) (hc : c ∉ inner)
    (rest : List Char) : Closed inner (literal ++ rest) := by
  have hword : StartsWith (String.ofList [c]) c := ⟨by rw [String.toList_ofList]; rfl, hsolid⟩
  rw [← String.toList_ofList (l := [c])] at htoken
  refine ⟨htoken.delimited hword hdelimits rest, fun other hother => ?_⟩
  cases (htoken.head?_significant hword rest).symm.trans hother
  exact hc

theorem complete_step (hoperators : Operators operators)
    (h : Complete rules Item floatNode (.rule name) (Closed inner) length) :
    Complete rules (Step operators Item) stepNode (step operators name) (Closed inner) length := by
  intro cursor text item rest hitem hlength hready hrest hclosed
  obtain ⟨hmem, htoken, hx⟩ := hitem
  rw [List.append_assoc] at hrest
  rw [List.length_append] at hlength
  obtain ⟨middle, hoperator, hmiddle, hready⟩ := yields_oneOf hoperators hready hmem htoken hrest
  obtain ⟨stop, hoperand, hstop⟩ := h middle _ _ rest hx (by omega) hready hmiddle hclosed
  exact ⟨stop, (Follow.cons hoperator (.cons hoperand .nil)).yields_seq, hstop⟩

theorem not_isPassable_oneOf (operators : String) :
    ¬ (Scanner.run operators false 1 (some 1)).IsPassable := Nat.one_ne_zero

theorem consumes_step : Consumes rules (step operators name) :=
  consumes_of_not_passable (not_passable_seq_scan (not_isPassable_oneOf operators) _)

theorem complete_chain (hoperators : Operators operators)
    (hnew : ∀ c ∈ operators.toList, c ∉ inner)
    (h : Complete rules Item floatNode (.rule name) (Closed inner) length) :
    Complete rules (Chain operators Item) floatNode (chain operators name)
      (Closed (inner ++ operators.toList)) length := by
  intro cursor text x rest hchain hlength hready hrest hclosed
  cases hchain with
  | @mk text first later steps hitem hsteps =>
      rw [List.append_assoc] at hrest
      rw [List.length_append] at hlength
      have hbetween (text : List Char) (step : Char × Float) (rest : List Char)
          (hstep : Step operators Item text step) : Closed inner (text ++ rest) := by
        obtain ⟨hmem, htoken, -⟩ := hstep
        rw [List.append_assoc]
        exact .of_token htoken (hoperators.solid _ hmem) (hoperators.delimits _ hmem)
          (hnew _ hmem) _
      have hbehind : Closed inner rest := by
        refine ⟨hclosed.delimited, fun c hc hmem => ?_⟩
        exact hclosed.head_notMem c hc (List.mem_append_left _ hmem)
      have hmisses (cursor : Cursor) (hready : Ready cursor) (hrest : cursor.rest = rest) :
          Misses rules (step operators name) cursor := by
        refine Misses.seq (hready.misses_scan rfl (opens_oneOf hoperators) fun c hc => ?_)
          hready.mark_le
        have hc := hclosed.head_notMem c (hrest ▸ hc)
        simpa using fun hmem => hc (List.mem_append_right _ hmem)
      have hfollows : Closed inner (later ++ rest) := by
        cases hsteps with
        | nil => exact hbehind
        | cons hnext _ =>
            rw [List.append_assoc]
            exact hbetween _ _ _ hnext
      obtain ⟨middle, hfirst, hmiddle, hready⟩ :=
        h cursor text first _ hitem (by omega) hready hrest hfollows
      obtain ⟨stop, hrepeats, hstop⟩ := (complete_step hoperators h).row consumes_step hbetween
        hbehind hmisses hsteps (by omega) hready hmiddle
      have hmany := yields_many_iff.mpr ⟨_, hrepeats, rfl⟩
      have hseq := (Follow.cons hfirst (.cons hmany .nil)).yields_seq
      have hmap := yields_map_iff.mpr ⟨_, hseq, congrArg Except.ok (fold_children first steps)⟩
      exact ⟨stop, hmap, hstop⟩

theorem complete_number (hready : Ready cursor) {numeral : Numeral} {value : Value Empty}
    {text : List Char} {x : Float} (hformed : numeral.WellFormed) (hvalue : numeral.Denotes value)
    (hx : value.float? = some x) (htoken : Token numeral.text text)
    (hrest : cursor.rest = text ++ rest) (hdelimited : Delimited rest) :
    ∃ stop, Yields rules (.rule "value") cursor (.ok (floatNode x)) stop ∧ stop.rest = rest ∧
      Ready stop := by
  obtain ⟨stop, hnumber, hstop⟩ := hready.yields_number hformed hvalue htoken hrest hdelimited
  obtain ⟨other, hother, hwiden⟩ := widen_value hvalue
  obtain rfl : x = other := Option.some.inj (hx.symm.trans hother)
  have hmap : Yields rules (.map Node.widen .number) cursor (.ok (floatNode x)) stop :=
    yields_map_iff.mpr ⟨_, hnumber, congrArg Except.ok hwiden⟩
  obtain ⟨c, more, htext, hc⟩ := Numeral.exists_text_eq_cons hformed hvalue
  obtain ⟨hblank⟩ := htoken
  have hhead : (significant cursor.rest).head? = some c := by
    rw [hrest, htext, List.append_assoc]
    exact hblank.head?_significant (Json.not_isAsciiBlank_of_continues hc)
  have hne : (c == '(') = false := by
    refine beq_eq_false_iff_ne.mpr ?_
    rintro rfl
    cases hc
  refine ⟨stop, (yields_rule_iff definition?_value).mpr ?_, hstop⟩
  refine hmap.any hready.mark_le List.mem_cons_self fun alternative hmem => ?_
  simp only [List.mem_cons, List.not_mem_nil, or_false] at hmem
  rcases hmem with rfl | rfl
  · exact .inl rfl
  · exact .inr ((hready.misses_exact ⟨rfl, rfl⟩ hhead hne).seq hready.mark_le).map

theorem complete_group {forbidden : List Char} (hnew : ')' ∉ forbidden)
    (h : Complete rules Sum floatNode (.rule "sum") (Closed forbidden) length)
    (hready : Ready cursor) {opener body closer : List Char} {x : Float}
    (hopener : Token ['('] opener) (hbody : Sum body x) (hcloser : Token [')'] closer)
    (hlength : body.length < length) (hrest : cursor.rest = opener ++ (body ++ (closer ++ rest))) :
    ∃ stop, Yields rules (.rule "value") cursor (.ok (floatNode x)) stop ∧ stop.rest = rest ∧
      Ready stop := by
  have hhead : (significant cursor.rest).head? = some '(' :=
    hrest ▸ hopener.head?_significant startsWith_opening _
  have hmisses : Misses rules .number cursor := hready.misses_of_head hhead rfl opens_number rfl
  have hmark := hready.mark_le
  have hclosed : Closed forbidden (closer ++ rest) := .of_token hcloser rfl rfl hnew rest
  obtain ⟨inside, hopen, hinside, hready⟩ := hready.yields_exact startsWith_opening hopener hrest
  obtain ⟨outside, hsum, houtside, hready⟩ := h inside body x _ hbody hlength hready hinside hclosed
  obtain ⟨stop, hclose, hstop⟩ := hready.yields_exact startsWith_closing hcloser houtside
  have hseq := (Follow.cons hopen (.cons hsum (.cons hclose .nil))).yields_seq
  have hmap : Yields rules (.map (·.child 1) (.seq [.exact "(", .rule "sum", .exact ")"])) cursor
      (.ok (floatNode x)) stop := yields_map_iff.mpr ⟨_, hseq, rfl⟩
  refine ⟨stop, (yields_rule_iff definition?_value).mpr ?_, hstop⟩
  refine hmap.any hmark (.tail _ List.mem_cons_self) fun alternative hmem => ?_
  simp only [List.mem_cons, List.not_mem_nil, or_false] at hmem
  rcases hmem with rfl | rfl
  · exact .inr hmisses.map
  · exact .inl rfl

theorem complete_operand {forbidden : List Char} (hnew : ')' ∉ forbidden)
    (h : Complete rules Sum floatNode (.rule "sum") (Closed forbidden) length) :
    Complete rules Operand floatNode (.rule "value") (Closed []) (length + 1) := by
  intro cursor text x rest hitem hlength hready hrest hclosed
  cases hitem with
  | number hformed hvalue hx htoken =>
      exact complete_number hready hformed hvalue hx htoken hrest hclosed.delimited
  | group hopener hbody hcloser =>
      have hle := hopener.length_le
      simp only [List.length_append, List.length_singleton] at hlength hle
      simp only [List.append_assoc] at hrest
      exact complete_group hnew h hready hopener hbody hcloser (by omega) hrest

-- Every sum of the dialect is read, where no operator follows it.
theorem complete_sum (length : Nat) :
    Complete rules Sum floatNode (.rule "sum") (Closed ['*', '/', '+', '-']) length := by
  refine Complete.of_step (fun length ih => ?_) length
  have hoperand := complete_operand (by simp) ih
  have hproduct : Complete rules Product floatNode (.rule "prod") (Closed ['*', '/'])
      (length + 1) :=
    (complete_chain operators_product (by simp) hoperand).rule definition?_product
  exact (complete_chain operators_sum (by simp) hproduct).rule definition?_sum

end Complete

end Descent.Calc
