import Descent.Proofs.Calc.Evaluation

namespace Descent.Calc

open Grammar Scanner Text
open Json (Blank token_self)

variable {Item : List Char → Float → Prop} {operators name : String} {length : Nat}

-- The number one completes what lacks an operand.
theorem operand_one {blank : List Char} (h : Blank blank) :
    Operand (blank ++ ['1']) (Decimal.ofInt 1) := by
  have hdigits : Numeral.IsDigits ['1'] := by simp [Numeral.IsDigits]
  have hformed : Numeral.WellFormed ⟨[], ['1'], none, none⟩ := ⟨.inl rfl, hdigits, nofun, nofun⟩
  have hvalue : Numeral.Denotes (α := Empty) ⟨[], ['1'], none, none⟩ (.int 1) :=
    .integer nofun (by decide) (by decide)
  exact .number hformed hvalue rfl (.mk h)

theorem chain_of_operand {text : List Char} {x : Float} (h : Item text x) :
    Chain operators Item text x := by
  rw [← List.append_nil text]
  exact .mk h .nil

theorem failsViably_step {c : Char} (hoperators : Operators operators) (hmem : c ∈ operators.toList)
    (hsome : Stands Item ['1']) (h : FailsViably rules Item (.rule name) length) :
    FailsViably rules (Step operators Item) (step operators name) length := by
  intro cursor failure stop hlength hready hyields
  obtain ⟨_, hfollow, -⟩ := hyields.follow_of_error
  obtain hoperator | ⟨_, middle, hoperator, hfollow⟩ := hfollow.of_cons_error
  · obtain ⟨x, hx⟩ := hsome
    refine hready.viable_of_scan hoperator rfl nofun fun blank hblank => ?_
    have hstep : Step operators Item (blank ++ [c] ++ ['1']) (c, x) := .mk hmem (.mk hblank) hx
    exact ⟨[c] ++ ['1'], _, by rwa [← List.append_assoc]⟩
  obtain ⟨operator, literal, hmem, htoken, hrest, -⟩ :=
    exists_token_of_oneOf hoperators hready hoperator
  obtain hoperand | ⟨_, _, -, hfollow⟩ := hfollow.of_cons_error
  · have hle := hoperator.reaches.place.rest_length_le
    have hfails := h _ _ _ (by omega) (hready.of_yields hoperator) hoperand
    refine hfails.behind hoperator.reaches hrest ?_
    rintro text ⟨x, hx⟩
    exact exists_completion ⟨(operator, x), .mk hmem htoken hx⟩
  · cases hfollow

theorem failsViably_chain {c : Char} (hoperators : Operators operators)
    (hmem : c ∈ operators.toList) (hsome : Stands Item ['1'])
    (hsound : Sound rules Item floatNode (.rule name) length)
    (h : FailsViably rules Item (.rule name) length) :
    FailsViably rules (Chain operators Item) (chain operators name) length := by
  intro cursor failure stop hlength hready hyields
  obtain ⟨_, hfollow, -⟩ := hyields.of_map_error.follow_of_error
  obtain hfirst | ⟨_, middle, hfirst, hfollow⟩ := hfollow.of_cons_error
  · refine (h _ _ _ hlength hready hfirst).mono ?_
    rintro text ⟨x, hx⟩
    exact exists_completion ⟨x, chain_of_operand hx⟩
  obtain ⟨text, first, hitem, -, hrest⟩ := hsound _ _ _ hlength hready hfirst
  obtain hmany | ⟨_, _, -, hfollow⟩ := hfollow.of_cons_error
  · have hle := hfirst.reaches.place.rest_length_le
    have hfails := (failsViably_step hoperators hmem hsome h).row (sound_step hoperators hsound)
      hmany.of_many_error (hready.of_yields hfirst) (by omega) rfl
    refine hfails.behind hfirst.reaches hrest ?_
    rintro later ⟨steps, hsteps⟩
    exact exists_completion ⟨_, .mk hitem hsteps⟩
  · cases hfollow

theorem failsViably_number : FailsViably rules Operand (.map Node.widen .number) length := by
  intro cursor failure stop _ hready hyields
  exact hready.viable_of_scan hyields.of_map_error rfl nofun fun blank hblank =>
    ⟨['1'], _, operand_one hblank⟩

theorem failsViably_group (h : FailsViably rules Sum (.rule "sum") length) :
    FailsViably rules Operand
      (.map (·.child 1) (.seq [.exact "(", .rule "sum", .exact ")"])) (length + 1) := by
  intro cursor failure stop hlength hready hyields
  obtain ⟨_, hfollow, -⟩ := hyields.of_map_error.follow_of_error
  obtain hopen | ⟨_, inside, hopen, hfollow⟩ := hfollow.of_cons_error
  · exact hready.viable_of_scan hopen (keepsBlank_exact startsWith_opening) nofun
      fun _ hblank => ⟨['1'], _, operand_one hblank⟩
  obtain ⟨opener, hopener, hrest, -⟩ := hready.exists_token_of_exact startsWith_opening hopen
  have hinside := hready.of_yields hopen
  have hshorter := Nat.lt_of_lt_of_le ((consumes_exact startsWith_opening).rest_length_lt hopen)
    (Nat.le_of_lt_succ hlength)
  obtain hsum | ⟨_, outside, hsum, hfollow⟩ := hfollow.of_cons_error
  · refine (h _ _ _ hshorter hinside hsum).behind hopen.reaches hrest ?_
    rintro body ⟨x, hbody⟩
    refine ⟨[')'], x, ?_⟩
    rw [List.append_assoc]
    exact .group hopener hbody (token_self _)
  obtain ⟨body, x, hbody, -, hinner⟩ := sound_sum _ _ _ _ hshorter hinside hsum
  obtain hclose | ⟨_, _, -, hfollow⟩ := hfollow.of_cons_error
  · have hcloser := (hinside.of_yields hsum).viable_of_exact startsWith_closing hclose
    rw [hinner, ← List.append_assoc] at hrest
    refine hcloser.behind (hopen.reaches.trans hsum.reaches) hrest fun closer hcloser => ?_
    refine exists_completion ⟨x, ?_⟩
    rw [List.append_assoc]
    exact .group hopener hbody hcloser
  · cases hfollow

theorem failsViably_operand (h : FailsViably rules Sum (.rule "sum") length) :
    FailsViably rules Operand (.rule "value") (length + 1) := by
  refine FailsViably.rule (FailsViably.any (List.cons_ne_nil _ _) fun alternative hmem => ?_)
    definition?_value
  simp only [List.mem_cons, List.not_mem_nil, or_false] at hmem
  rcases hmem with rfl | rfl
  · exact failsViably_number
  · exact failsViably_group h

-- Whatever is wrong with a text, what has been read of a sum by then can be completed to one.
theorem failsViably_sum (length : Nat) : FailsViably rules Sum (.rule "sum") length := by
  refine FailsViably.of_step (fun length ih => ?_) length
  have hone := operand_one Json.blank_nil
  have hsound := sound_sum length
  have hproduct : FailsViably rules Product (.rule "prod") (length + 1) :=
    (failsViably_chain operators_product (List.mem_cons_self) ⟨_, hone⟩
      (sound_operand hsound) (failsViably_operand ih)).rule definition?_product
  exact (failsViably_chain operators_sum (List.mem_cons_self) ⟨_, chain_of_operand hone⟩
    (sound_product hsound) hproduct).rule definition?_sum

theorem hasViablePrefix_of_eval {input : String} {error : ParseError}
    (h : eval input = .error error) : HasViablePrefix eval input error :=
  hasViablePrefix_of_lengths rules_rankedBy padded_sum.pad sound_sum failsViably_sum
    eval_of_isExpression (parseAll_eq_error_of_map h)

end Descent.Calc
