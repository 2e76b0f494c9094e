import Descent.Proofs.Calc.Reading

namespace Descent.Calc

open Grammar Scanner Text
open Json (Blank)

variable {Item : List Char → Float → Prop} {operators name : String}

-- A chain starts with its operand, which is not empty.
theorem leftReaches_chain {other : String}
    (h : LeftReaches rules (chain operators name) other) : other = name := by
  cases h with
  | map hseq =>
      cases hseq.of_seq_cons with
      | inl hfirst =>
          cases hfirst
          rfl
      | inr hrest =>
          cases hrest.2.of_seq_cons with
          | inl hmany =>
              cases hmany with
              | item hstep =>
                  exact absurd hstep (not_leftReaches_seq_scan (not_isPassable_oneOf operators) _ _)
          | inr hnil => exact absurd hnil.2 not_leftReaches_seq_nil

def rank (name : String) : Nat := if name = "sum" then 2 else if name = "prod" then 1 else 0

-- A sum starts with a product, and a product with a value; a value does not start with a sum,
-- because a parenthesis stands before it.
theorem rules_rankedBy : rules.RankedBy rank := by
  intro name definition hdefinition other hother
  have hmem := SortedMap.mem_of_find? hdefinition
  simp only [rules, List.mem_cons, List.not_mem_nil, or_false, Prod.mk.injEq] at hmem
  rcases hmem with ⟨rfl, rfl⟩ | ⟨rfl, rfl⟩ | ⟨rfl, rfl⟩
  · cases hother with
    | any hmem hreached =>
        simp only [List.mem_cons, List.not_mem_nil, or_false] at hmem
        rcases hmem with rfl | rfl
        · cases hreached with
          | map hnumber => cases hnumber
        · cases hreached with
          | map hseq =>
              exact absurd hseq (not_leftReaches_seq_scan (by simp [Scanner.IsPassable]) _ _)
  · rw [leftReaches_chain hother]
    decide
  · rw [leftReaches_chain hother]
    decide

section Blanks

-- Blanks before an item belong to it, however many there are.
structure Padded (Item : List Char → Float → Prop) : Prop where
  pad : ∀ {blank text x}, Blank blank → Item text x → Item (blank ++ text) x
  strip : ∀ {text x}, Item text x → ∃ blank inner c more, Blank blank ∧ text = blank ++ inner ∧
    Item inner x ∧ inner = c :: more ∧ isAsciiBlank c = false

theorem padded_operand : Padded Operand where
  pad hblank hitem := by
    cases hitem with
    | number hformed hvalue hx htoken =>
        exact .number hformed hvalue hx (htoken.of_blank hblank)
    | group hopener hbody hcloser =>
        rw [← List.append_assoc]
        exact .group (hopener.of_blank hblank) hbody hcloser
  strip hitem := by
    cases hitem with
    | number hformed hvalue hx htoken =>
        obtain ⟨c, more, htext, hc⟩ := Numeral.exists_text_eq_cons hformed hvalue
        obtain ⟨hblank⟩ := htoken
        exact ⟨_, _, c, more, hblank, rfl, .number hformed hvalue hx (Json.token_self _), htext,
          Json.not_isAsciiBlank_of_continues hc⟩
    | group hopener hbody hcloser =>
        obtain ⟨hblank⟩ := hopener
        refine ⟨_, _, '(', _, hblank, List.append_assoc _ _ _, ?_, rfl, rfl⟩
        exact .group (Json.token_self _) hbody hcloser

theorem Padded.chain (h : Padded Item) : Padded (Chain operators Item) where
  pad hblank hchain := by
    obtain ⟨hfirst, hsteps⟩ := hchain
    rw [← List.append_assoc]
    exact .mk (h.pad hblank hfirst) hsteps
  strip hchain := by
    obtain ⟨hfirst, hsteps⟩ := hchain
    obtain ⟨blank, inner, c, more, hblank, rfl, hinner, rfl, hc⟩ := h.strip hfirst
    exact ⟨blank, _, c, more ++ _, hblank, List.append_assoc _ _ _, .mk hinner hsteps, rfl, hc⟩

theorem padded_sum : Padded Sum := padded_operand.chain.chain

end Blanks

-- A text is evaluated where a sum is read and nothing but blanks is left.
theorem eval_eq_ok_iff {input : String} {x : Float} :
    eval input = .ok x ↔
      ∃ node stop, Yields rules (.rule "sum") (textStart input.toList) (.ok node) stop ∧
        Blank stop.rest ∧ operand node = x :=
  parseAll_map_eq_ok_iff rules_rankedBy

theorem Closed.of_blank {blank forbidden : List Char} (h : Blank blank) :
    Closed forbidden blank := by
  refine ⟨h.delimited, ?_⟩
  rw [Json.significant_eq_nil_iff.mpr h]
  rintro _ ⟨⟩

theorem eval_of_isExpression {input : String} {x : Float} (h : IsExpression input.toList x) :
    eval input = .ok x := by
  obtain ⟨body, last, hinput, hsum, hlast⟩ := h
  obtain ⟨blank, inner, c, more, hblank, rfl, hinner, hcons, hc⟩ := padded_sum.strip hsum
  have hrest : (textStart input.toList).rest = inner ++ last := by
    rw [rest_textStart, hinput, List.append_assoc]
    refine Json.significant_append hblank ?_
    rw [hcons]
    rintro _ ⟨⟩
    exact hc
  obtain ⟨stop, hyields, hstop, -⟩ := complete_sum _ _ _ _ _ hinner (Nat.lt_succ_self _)
    (ready_textStart _) hrest (.of_blank hlast)
  exact eval_eq_ok_iff.mpr ⟨_, stop, hyields, hstop ▸ hlast, rfl⟩

end Descent.Calc
