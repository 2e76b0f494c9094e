import Descent.Proofs.Calc.Failures
import Descent.Proofs.Html.Failures
import Descent.Proofs.Json.Failures

namespace Descent

open Grammar

-- Where a document, an expression or a tag is rejected, nothing is wrong with what precedes the
-- place of the error: with something else behind it, it is accepted.
theorem rejected_behind_viable_prefix :
    (∀ input error, Json.decode input = .error error →
      HasViablePrefix Json.decode input error) ∧
    (∀ input error, Calc.eval input = .error error →
      HasViablePrefix Calc.eval input error) ∧
    ∀ input error, Html.parse input = .error error →
      HasViablePrefix Html.parse input error :=
  ⟨fun _ _ => Json.hasViablePrefix_of_decode, fun _ _ => Calc.hasViablePrefix_of_eval,
    fun _ _ => Html.hasViablePrefix_of_parse⟩

-- A value is missing behind a comma, which may stand there, a parenthesis has not been opened, and
-- a tag breaks off behind its name.
theorem rejected_behind_viable_prefix_of_damaged_texts :
    let document : ParseError := .unmatched ⟨3, "]"⟩
    let expression : ParseError := .unparsed 3 ")"
    let markup : ParseError := .unmatched ⟨7, ">"⟩
    (Json.decode "[1," = .error document ∧ HasViablePrefix Json.decode "[1," document) ∧
    (Calc.eval "1+2)" = .error expression ∧ HasViablePrefix Calc.eval "1+2)" expression) ∧
    Html.parse "<a>x <b" = .error markup ∧ HasViablePrefix Html.parse "<a>x <b" markup := by
  intro document expression markup
  obtain ⟨hdocuments, hexpressions, hmarkups⟩ := rejected_behind_viable_prefix
  have hdocument : Json.decode "[1," = .error document := by
    have hparse : parseAll Json.rules (.rule "value") "[1,".toList = .error document :=
      Answer.toExcept_eq_error_iff.mpr (by decide +kernel)
    rw [Json.decode, hparse]
    rfl
  have hexpression : Calc.eval "1+2)" = .error expression := by
    have hparse : parseAll Calc.rules (.rule "sum") "1+2)".toList = .error expression :=
      Answer.toExcept_eq_error_iff.mpr (by decide +kernel)
    rw [Calc.eval, hparse]
    rfl
  have hmarkup : Html.parse "<a>x <b" = .error markup := by
    have hparse : parseAll Html.rules (.rule "tag") "<a>x <b".toList = .error markup :=
      Answer.toExcept_eq_error_iff.mpr (by decide +kernel)
    unfold Html.parse
    rw [hparse]
  exact ⟨⟨hdocument, hdocuments _ _ hdocument⟩, ⟨hexpression, hexpressions _ _ hexpression⟩,
    hmarkup, hmarkups _ _ hmarkup⟩

end Descent
