import Descent.Proofs.Html.Soundness

namespace Descent.Html

open Grammar Scanner Text
open Json (Token significant)

variable {length : Nat} {cursor stop : Cursor} {text rest : List Char} {item : Element}
  {items : List Element}

theorem consumes_property : Consumes rules property := by
  have hname : ¬ (Scanner.regex attributeName).IsPassable := not_false
  exact consumes_of_not_passable (not_passable_seq_scan hname _)

theorem complete_property :
    Complete rules Attribute attributeNode property (fun _ => True) length := by
  intro cursor text entry rest hitem _ hready hrest _
  cases hitem with
  | @mk name word equals quote body value literal hformed hword hequals hquote hspells hliteral =>
      simp only [List.append_assoc] at hrest
      have hsolid : ∀ quote ∈ "\"'".toList, isAsciiBlank quote = false := by simp [isAsciiBlank]
      have hbehind := hequals.head?_append startsWith_equals
        (fun _ => letterDigitOrHyphen_of_isAsciiBlank) rfl (literal ++ rest)
      obtain ⟨named, hname, hnamed, hready⟩ :=
        yields_name expr_attributeName hready hformed hword hrest hbehind
      obtain ⟨joined, hjoin, hjoined, hready⟩ :=
        hready.yields_exact startsWith_equals hequals hnamed
      obtain ⟨stop, hvalue, hstop⟩ :=
        hready.yields_quoted (by decide) hquote (hsolid quote hquote) hspells hliteral hjoined
      exact ⟨stop, (Follow.cons hname (.cons hjoin (.cons hvalue .nil))).yields_seq, hstop⟩

theorem misses_property (hready : Ready cursor)
    (hhead : (significant cursor.rest).head? = some '>') : Misses rules property cursor :=
  (hready.misses_of_head hhead rfl (opens_name expr_attributeName) rfl).seq hready.mark_le

theorem complete_opening :
    Complete rules Opening openingNode opening (fun _ => True) length := by
  intro cursor text parts rest hitem _ hready hrest _
  cases hitem with
  | @mk opener name word body entries closer hopener hformed hword hbody hhead hcloser =>
      simp only [List.append_assoc] at hrest
      have hbehind : ∀ c ∈ (body ++ (closer ++ rest)).head?, letterOrDigit.contains c = false := by
        cases body with
        | nil =>
            exact hcloser.head?_append startsWith_end (fun _ => letterOrDigit_of_isAsciiBlank) rfl
              rest
        | cons c body => exact hhead
      obtain ⟨opened, hopen, hopened, hready⟩ :=
        hready.yields_exact startsWith_opening hopener hrest
      obtain ⟨named, hname, hnamed, hready⟩ :=
        yields_name expr_tagName hready hformed hword hopened hbehind
      have hready := hready.commit
      obtain ⟨described, hrepeats, hdescribed, hready⟩ :=
        complete_property.row consumes_property (fun _ _ _ _ => trivial) trivial
          (fun cursor hready hrest => misses_property hready
            (hrest ▸ hcloser.head?_significant startsWith_end rest))
          hbody (Nat.lt_succ_self _) hready hnamed
      have hmany := yields_many_iff.mpr ⟨_, hrepeats, rfl⟩
      have hattributes : Yields rules attributes named.commit (.ok _) described :=
        yields_map_iff.mpr ⟨_, hmany, rfl⟩
      obtain ⟨stop, hclose, hstop⟩ := hready.yields_exact startsWith_end hcloser hdescribed
      have hfollow := Follow.cons hopen (.cons hname (.cons yields_cut (.cons hattributes
        (.cons hclose .nil))))
      exact ⟨stop, hfollow.yields_seq, hstop⟩

theorem complete_closing :
    Complete rules Closing closingNode closing (fun _ => True) length := by
  intro cursor text name rest hitem _ hready hrest _
  cases hitem with
  | @mk opener name word closer hopener hformed hword hcloser =>
      simp only [List.append_assoc] at hrest
      have hbehind := hcloser.head?_append startsWith_end
        (fun _ => letterOrDigit_of_isAsciiBlank) rfl rest
      obtain ⟨opened, hopen, hopened, hready⟩ :=
        hready.yields_exact startsWith_closing hopener hrest
      obtain ⟨named, hname, hnamed, hready⟩ :=
        yields_name expr_tagName hready.commit hformed hword hopened hbehind
      obtain ⟨stop, hclose, hstop⟩ := hready.yields_exact startsWith_end hcloser hnamed
      have hfollow := Follow.cons hopen (.cons yields_cut (.cons hname (.cons hclose .nil)))
      exact ⟨stop, hfollow.yields_seq, hstop⟩

-- Behind an opening bracket without a name no tag starts, and nothing has been committed to.
theorem misses_tag {opener : List Char} (hready : Ready cursor) (hopener : Token ['<'] opener)
    (hrest : cursor.rest = opener ++ rest)
    (hhead : ∀ c ∈ (significant rest).head?, letter.contains c = false) :
    Misses rules (.rule "tag") cursor := by
  obtain ⟨opened, hopen, hopened, hopenedReady⟩ :=
    hready.yields_exact startsWith_opening hopener hrest
  have hname : Misses rules (.scan (.regex tagName)) opened :=
    hopenedReady.misses_scan rfl (opens_name expr_tagName) (hopened ▸ hhead)
  have hopening : Misses rules opening cursor := .seq_behind_scan hopen hname hready.mark_le
  exact (hopening.seq hready.mark_le).map.rule definition?_tag

theorem misses_content (hready : Ready cursor)
    (hhead : (significant cursor.rest).head? = some '<') :
    Misses rules (.map textOf (.notChars "<>")) cursor :=
  (hready.misses_of_head hhead rfl opens_content rfl).map

-- The elements of a tag end where its closing part begins.
theorem misses_element {name : String} (hready : Ready cursor) (hclosing : Closing text name)
    (hrest : cursor.rest = text ++ rest) : Misses rules element cursor := by
  refine .any hready.mark_le fun alternative hmem => ?_
  cases hclosing with
  | @mk opener name word closer hopener _ _ _ =>
      simp only [List.mem_cons, List.not_mem_nil, or_false] at hmem
      rcases hmem with rfl | rfl
      · rw [List.append_assoc] at hrest
        exact misses_content hready (hrest ▸ hopener.head?_significant startsWith_closing _)
      · obtain @⟨blank, hblank⟩ := hopener
        have hrest : cursor.rest = blank ++ ['<'] ++ '/' :: (word ++ closer ++ rest) := by
          simpa using hrest
        refine misses_tag hready (.mk hblank) hrest ?_
        rintro _ ⟨⟩
        rfl

theorem Body.ne_nil (h : Body Written text items) : text ≠ [] := by
  induction h with
  | closing hclosing =>
      obtain ⟨⟨_⟩, _, _, _⟩ := hclosing
      simp
  | cons _ _ ih => simp [ih]

section Bodies

variable (hcomplete : Complete rules Written tagNode (.rule "tag") (fun _ => True) length)

include hcomplete

theorem complete_element (hpart : Part Written text item rest) (hlength : text.length < length)
    (hready : Ready cursor) (hrest : cursor.rest = text ++ rest) :
    ∃ stop, Yields rules element cursor (.ok (elementNode item)) stop ∧ stop.rest = rest ∧
      Ready stop := by
  cases hpart with
  | @text blank content _ hblank hcontent hbare =>
      obtain ⟨c, hc, hsolid⟩ := hcontent.head
      have hplain := hcontent.plain c (List.mem_of_mem_head? hc)
      have hhead : (significant cursor.rest).head? = some c := by
        obtain ⟨more, rfl⟩ := List.head?_eq_some_iff.mp hc
        rw [hrest, List.append_assoc]
        exact hblank.head?_significant hsolid
      obtain ⟨stop, hscan, hstop⟩ := yields_content hready hcontent hblank hrest hbare
      have hmap : Yields rules (.map textOf (.notChars "<>")) cursor
          (.ok (elementNode (.text (String.ofList content)))) stop :=
        yields_map_iff.mpr ⟨_, hscan, rfl⟩
      refine ⟨stop, hmap.any hready.mark_le List.mem_cons_self fun other hmem => ?_, hstop⟩
      simp only [List.mem_cons, List.not_mem_nil, or_false] at hmem
      rcases hmem with rfl | rfl
      · exact .inl rfl
      · have hne : (c == '<') = false := by
          refine beq_eq_false_iff_ne.mpr ?_
          rintro rfl
          cases hplain
        have hopening : Misses rules opening cursor :=
          (hready.misses_exact startsWith_opening hhead hne).seq hready.mark_le
        exact .inr ((hopening.seq hready.mark_le).map.rule definition?_tag)
  | @tag _ tag _ htag =>
      obtain ⟨stop, hyields, hstop⟩ := hcomplete _ _ _ _ htag hlength hready hrest trivial
      refine ⟨stop, hyields.any hready.mark_le (.tail _ List.mem_cons_self) fun other hmem => ?_,
        hstop⟩
      simp only [List.mem_cons, List.not_mem_nil, or_false] at hmem
      rcases hmem with rfl | rfl
      · obtain ⟨⟨hopener, _, _, _, _, _⟩, _⟩ := htag
        simp only [List.append_assoc] at hrest
        exact .inr (misses_content hready
          (hrest ▸ hopener.head?_significant startsWith_opening _))
      · exact .inl rfl

theorem complete_body (h : Body Written text items) (hlength : text.length < length)
    (hready : Ready cursor) (hrest : cursor.rest = text ++ rest) :
    ∃ name middle stop, Repeats rules element none cursor (.ok (items.map elementNode)) middle ∧
      Yields rules closing middle (.ok (closingNode name)) stop ∧ stop.rest = rest ∧
      Ready stop := by
  induction h generalizing cursor with
  | @closing text name hclosing =>
      obtain ⟨failure, hmisses⟩ := misses_element hready hclosing hrest
      obtain ⟨stop, hyields, hstop⟩ :=
        complete_closing _ _ _ _ hclosing (Nat.lt_succ_self _) hready hrest trivial
      exact ⟨name, cursor, stop, .ended hmisses hready.mark_le, hyields, hstop⟩
  | cons hpart hbody ih =>
      rw [List.append_assoc] at hrest
      rw [List.length_append] at hlength
      obtain ⟨middle, hitem, hmiddle, hready⟩ :=
        complete_element hcomplete (hpart.append hbody.ne_nil rest) (by omega) hready hrest
      obtain ⟨name, filled, stop, hrepeats, hclosing⟩ := ih (by omega) hready hmiddle
      have hseparates : Separates rules none middle (.ok .empty) middle := ⟨rfl, rfl⟩
      have hmoved := Nat.ne_of_gt (consumes_element _ _ _ hitem)
      exact ⟨name, filled, stop, .next hitem hseparates hmoved hrepeats, hclosing⟩

end Bodies

-- Every tag of the dialect is read, whatever follows it.
theorem complete_tag (length : Nat) :
    Complete rules Written tagNode (.rule "tag") (fun _ => True) length := by
  refine Complete.of_step (fun length ih => ?_) length
  refine Complete.rule ?_ definition?_tag
  intro cursor text tag rest hitem hlength hready hrest _
  cases hitem with
  | @mk opener name entries body items hopening hbody =>
      rw [List.append_assoc] at hrest
      have hshorter : body.length < length := by
        obtain ⟨hopener, _, _, _, _, _⟩ := hopening
        have hle := hopener.length_le
        simp only [List.length_append, List.length_singleton] at hlength hle
        omega
      obtain ⟨opened, hopen, hopened, hready⟩ :=
        complete_opening _ _ _ _ hopening (Nat.lt_succ_self _) hready hrest trivial
      obtain ⟨name, filled, stop, hrepeats, hclose, hstop⟩ :=
        complete_body ih hbody hshorter hready.commit hopened
      have hmany := yields_many_iff.mpr ⟨_, hrepeats, rfl⟩
      have helements : Yields rules elements opened.commit (.ok _) filled :=
        yields_map_iff.mpr ⟨_, hmany, rfl⟩
      have hseq := (Follow.cons hopen (.cons yields_cut (.cons helements
        (.cons hclose .nil)))).yields_seq
      exact ⟨stop, yields_map_iff.mpr ⟨_, hseq, congrArg Except.ok (tagOf_children _ _ _)⟩, hstop⟩

end Descent.Html
