import Descent.Proofs.Regex.Matches
import Descent.Regex

namespace Descent.Regex

namespace Expr

variable {exprs : List Expr}

theorem wellFormed_seqAll (h : ∀ expr ∈ exprs, expr.WellFormed) : (seqAll exprs).WellFormed := by
  fun_induction seqAll exprs with
  | case1 => trivial
  | case2 expr => exact h expr List.mem_cons_self
  | case3 expr others _ ih =>
      obtain ⟨hexpr, hothers⟩ := List.forall_mem_cons.mp h
      exact ⟨hexpr, ih hothers⟩

theorem wellFormed_altAll (h : ∀ expr ∈ exprs, expr.WellFormed) : (altAll exprs).WellFormed := by
  fun_induction altAll exprs with
  | case1 => trivial
  | case2 expr => exact h expr List.mem_cons_self
  | case3 expr others _ ih =>
      obtain ⟨hexpr, hothers⟩ := List.forall_mem_cons.mp h
      exact ⟨hexpr, ih hothers⟩

end Expr

-- All of these pieces are well formed.
def Piece.AllWellFormed (pieces : List Piece) : Prop := ∀ piece ∈ pieces, piece.expr.WellFormed

namespace Piece

variable {pieces : List Piece}

theorem AllWellFormed.exprs (h : AllWellFormed pieces) :
    ∀ expr ∈ pieces.map (·.expr), expr.WellFormed := by
  intro expr hmem
  obtain ⟨piece, hpiece, rfl⟩ := List.mem_map.mp hmem
  exact h piece hpiece

theorem wellFormed_seqAll (h : AllWellFormed pieces) : (seqAll pieces).expr.WellFormed := by
  unfold seqAll
  split
  · trivial
  · exact h _ List.mem_cons_self
  · exact Expr.wellFormed_seqAll h.exprs

theorem wellFormed_altAll (h : AllWellFormed pieces) : (altAll pieces).expr.WellFormed := by
  unfold altAll
  split
  · trivial
  · exact h _ List.mem_cons_self
  · exact Expr.wellFormed_altAll h.exprs

theorem allWellFormed_repeatLatest? {least : Nat} {most : Option Nat} {lazy : Bool}
    {repeated : List Piece} (h : AllWellFormed pieces) (hmost : ∀ m ∈ most, least ≤ m)
    (hrepeat : repeatLatest? least most lazy pieces = some repeated) : AllWellFormed repeated := by
  unfold repeatLatest? at hrepeat
  split at hrepeat
  · obtain rfl := Option.some.inj hrepeat
    obtain ⟨hlatest, hearlier⟩ := List.forall_mem_cons.mp h
    exact List.forall_mem_cons.mpr ⟨⟨hlatest, hmost⟩, hearlier⟩
  · cases hrepeat

end Piece

namespace Reader

-- What has been read of a group is well formed.
structure Progress.WellFormed (progress : Progress) : Prop where
  alternatives : Piece.AllWellFormed progress.alternatives
  pieces : Piece.AllWellFormed progress.pieces

namespace Progress

variable {progress : Progress} {names : List String}

theorem WellFormed.push {piece : Piece} (h : progress.WellFormed) (hpiece : piece.expr.WellFormed) :
    (progress.push piece).WellFormed :=
  ⟨h.alternatives, List.forall_mem_cons.mpr ⟨hpiece, h.pieces⟩⟩

theorem WellFormed.split (h : progress.WellFormed) : progress.split.WellFormed := by
  refine ⟨List.forall_mem_cons.mpr ⟨?_, h.alternatives⟩, List.forall_mem_nil _⟩
  exact Piece.wellFormed_seqAll fun piece hmem => h.pieces piece (List.mem_reverse.mp hmem)

theorem WellFormed.whole (h : progress.WellFormed) : progress.whole.expr.WellFormed :=
  Piece.wellFormed_altAll fun piece hmem =>
    h.split.alternatives piece (List.mem_reverse.mp hmem)

theorem WellFormed.repeat? {least : Nat} {most : Option Nat} {lazy : Bool} {repeated : Progress}
    (h : progress.WellFormed) (hmost : ∀ m ∈ most, least ≤ m)
    (hrepeat : progress.repeat? least most lazy = some repeated) : repeated.WellFormed := by
  obtain ⟨pieces, hpieces, rfl⟩ := Option.map_eq_some_iff.mp hrepeat
  exact ⟨h.alternatives, Piece.allWellFormed_repeatLatest? h.pieces hmost hpieces⟩

end Progress

end Reader

end Descent.Regex
