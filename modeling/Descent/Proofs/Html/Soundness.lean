import Descent.Proofs.Html.Tokens

namespace Descent.Html

open Grammar Scanner Text
open Json (StartsWith)

variable {length : Nat} {cursor middle stop : Cursor} {node : Node Tag}

def property : Markup := .seq [.scan (.regex attributeName), .exact "=", .quoted "\"'"]

def element : Markup := .any [.map textOf (.notChars "<>"), .rule "tag"]

theorem definition?_tag : rules.definition? "tag" = some tag := rfl

theorem expr_tagName : tagName.expr = word letterOrDigit := rfl

theorem expr_attributeName : attributeName.expr = word letterDigitOrHyphen := rfl

theorem startsWith_opening : StartsWith "<" '<' := ⟨rfl, rfl⟩

theorem startsWith_closing : StartsWith "</" '<' := ⟨rfl, rfl⟩

theorem startsWith_end : StartsWith ">" '>' := ⟨rfl, rfl⟩

theorem startsWith_equals : StartsWith "=" '=' := ⟨rfl, rfl⟩

section Nodes

def attributeNode (entry : String × String) : Node Tag :=
  .children [.token entry.1, .token "=", .value (.str entry.2)]

def openingNode (parts : String × List (String × String)) : Node Tag :=
  .children [.token "<", .token parts.1, .empty,
    attributesOf (.children (parts.2.map attributeNode)), .token ">"]

def closingNode (name : String) : Node Tag :=
  .children [.token "</", .empty, .token name, .token ">"]

def tagNode (tag : Tag) : Node Tag := .value (.custom tag)

def elementNode : Element → Node Tag
  | .text content => .value (.str content)
  | .tag name attributes body => tagNode ⟨name, attributes, body⟩

theorem attributesOf_children (entries : List (String × String)) :
    attributesOf (.children (entries.map attributeNode)) =
      .value (.map ((SortedMap.ofEntries entries).map fun (name, text) => (name, .str text))) := by
  rw [← SortedMap.ofEntries_map, attributesOf, Node.toChildren, List.filterMap_map]
  refine congrArg (fun entries => Node.value (.ofEntries entries)) ?_
  exact congrFun (List.filterMap_eq_map' (f := fun entry => (entry.1, Value.str entry.2))) entries

-- The attributes go through a map of values and the elements through a list of them. Nothing is
-- lost on the way.
theorem tagOf_children (parts : String × List (String × String)) (items : List Element)
    (closing : Node Tag) :
    tagOf (.children [openingNode parts, .empty,
      listOf (.children (items.map elementNode)), closing]) =
      tagNode ⟨parts.1, SortedMap.ofEntries parts.2, items⟩ := by
  have hattributes : ((SortedMap.ofEntries parts.2).map fun entry => (entry.1,
      (Value.str entry.2 : Value Tag))).filterMap (fun entry =>
        entry.2.str?.map fun text => (entry.1, text)) = SortedMap.ofEntries parts.2 := by
    rw [List.filterMap_map]
    exact List.filterMap_some
  have hbody : ((items.map elementNode).filterMap Node.value?).filterMap toElement? = items := by
    induction items with
    | nil => rfl
    | cons item items ih =>
        cases item with
        | text content => exact congrArg (Element.text content :: ·) ih
        | tag name attributes body => exact congrArg (Element.tag name attributes body :: ·) ih
  rw [openingNode, attributesOf_children]
  refine congrArg tagNode ?_
  rw [Tag.mk.injEq]
  exact ⟨rfl, hattributes, hbody⟩

end Nodes

theorem sound_attribute : Sound rules Attribute attributeNode property length := by
  intro cursor node stop _ hready hyields
  obtain ⟨nodes, rfl, hfollow⟩ := hyields.follow
  obtain ⟨_, named, _, rfl, hname, hfollow⟩ := hfollow.of_cons
  obtain ⟨_, joined, _, rfl, hequals, hfollow⟩ := hfollow.of_cons
  obtain ⟨_, _, _, rfl, hvalue, hfollow⟩ := hfollow.of_cons
  obtain ⟨rfl, rfl⟩ := hfollow.of_nil
  have hready' := hready.of_yields hname
  obtain ⟨name, word, hformed, hword, hrest, rfl, -⟩ :=
    exists_token_of_name expr_attributeName hready hname
  obtain ⟨equals, htoken, hmore, rfl⟩ := hready'.exists_token_of_exact startsWith_equals hequals
  obtain ⟨quote, body, value, literal, hquote, hspells, hliteral, hlast, rfl⟩ :=
    (hready'.of_yields hequals).exists_token_of_quoted (by decide) hvalue
  refine ⟨_, _, .mk hformed hword htoken hquote hspells hliteral, rfl, ?_⟩
  rw [hrest, hmore, hlast]
  simp

theorem sound_opening : Sound rules Opening openingNode opening length := by
  intro cursor node stop _ hready hyields
  obtain ⟨nodes, rfl, hfollow⟩ := hyields.follow
  obtain ⟨_, opened, _, rfl, hopen, hfollow⟩ := hfollow.of_cons
  obtain ⟨_, named, _, rfl, hname, hfollow⟩ := hfollow.of_cons
  obtain ⟨_, hlater, rfl⟩ := hfollow.of_cut
  obtain ⟨_, described, _, rfl, hattributes, hfollow⟩ := hlater.of_cons
  obtain ⟨_, _, _, rfl, hclose, hfollow⟩ := hfollow.of_cons
  obtain ⟨rfl, rfl⟩ := hfollow.of_nil
  have hopened := hready.of_yields hopen
  have hnamed := (hopened.of_yields hname).commit
  obtain ⟨opener, hopener, hrest, rfl⟩ := hready.exists_token_of_exact startsWith_opening hopen
  obtain ⟨name, word, hformed, hword, hmore, rfl, hbehind⟩ :=
    exists_token_of_name expr_tagName hopened hname
  obtain ⟨inner, hmany, rfl⟩ := hattributes.of_map
  obtain ⟨nodes, rfl, hrepeats⟩ := hmany.of_many
  obtain ⟨body, entries, hbody, rfl, hinner⟩ :=
    sound_attribute.row hrepeats hnamed (Nat.lt_succ_self _) rfl
  obtain ⟨closer, hcloser, hlast, rfl⟩ :=
    (hnamed.of_yields hattributes).exists_token_of_exact startsWith_end hclose
  have hinner : named.rest = body ++ described.rest := hinner
  rw [hinner] at hbehind
  refine ⟨_, (String.ofList name, entries),
    .mk hopener hformed hword hbody (eq_false_of_head?_append hbehind) hcloser, rfl, ?_⟩
  rw [hrest, hmore, hinner, hlast]
  simp

theorem sound_closing : Sound rules Closing closingNode closing length := by
  intro cursor node stop _ hready hyields
  obtain ⟨nodes, rfl, hfollow⟩ := hyields.follow
  obtain ⟨_, opened, _, rfl, hopen, hfollow⟩ := hfollow.of_cons
  obtain ⟨_, hlater, rfl⟩ := hfollow.of_cut
  obtain ⟨_, named, _, rfl, hname, hfollow⟩ := hlater.of_cons
  obtain ⟨_, _, _, rfl, hclose, hfollow⟩ := hfollow.of_cons
  obtain ⟨rfl, rfl⟩ := hfollow.of_nil
  have hopened := (hready.of_yields hopen).commit
  obtain ⟨opener, hopener, hrest, rfl⟩ := hready.exists_token_of_exact startsWith_closing hopen
  obtain ⟨name, word, hformed, hword, hmore, rfl, -⟩ :=
    exists_token_of_name expr_tagName hopened hname
  obtain ⟨closer, hcloser, hlast, rfl⟩ :=
    (hopened.of_yields hname).exists_token_of_exact startsWith_end hclose
  have hmore : opened.rest = word ++ named.rest := hmore
  refine ⟨_, String.ofList name, .mk hopener hformed hword hcloser, rfl, ?_⟩
  rw [hrest, hmore, hlast]
  simp

theorem not_passable_opening : ¬ Passable rules opening :=
  not_passable_seq_scan (by simp [Scanner.IsPassable]) _

theorem consumes_opening : Consumes rules opening :=
  consumes_of_not_passable not_passable_opening

theorem not_passable_tag : ¬ Passable rules tag := by
  intro hpassable
  cases hpassable with
  | map hseq =>
      cases hseq with
      | seq hparts => exact not_passable_opening (hparts _ List.mem_cons_self)

theorem consumes_element : Consumes rules element := by
  refine consumes_of_not_passable fun hpassable => ?_
  cases hpassable with
  | any hmem hpassable =>
      simp only [List.mem_cons, List.not_mem_nil, or_false] at hmem
      rcases hmem with rfl | rfl
      · cases hpassable with
        | map hscan =>
            cases hscan with
            | scan hempty => exact absurd hempty Nat.one_ne_zero
      · cases hpassable with
        | rule hdefinition htag =>
            cases definition?_tag.symm.trans hdefinition
            exact not_passable_tag htag

section Bodies

variable (hsound : Sound rules Written tagNode (.rule "tag") length)

include hsound

theorem sound_element (hready : Ready cursor) (hlength : cursor.rest.length < length)
    (h : Yields rules element cursor (.ok node) stop) :
    ∃ text item, Part Written text item stop.rest ∧ node = elementNode item ∧
      cursor.rest = text ++ stop.rest := by
  obtain ⟨alternative, hmem, again, hreaches, hplace, hmark, hyields⟩ := h.of_any hready.mark_le
  have hready := hready.of_reaches hreaches hmark
  rw [← hplace] at hlength ⊢
  simp only [List.mem_cons, List.not_mem_nil, or_false] at hmem
  rcases hmem with rfl | rfl
  · obtain ⟨inner, hscan, rfl⟩ := hyields.of_map
    obtain ⟨content, blank, hcontent, hblank, hrest, rfl, hbare⟩ :=
      exists_token_of_content hready hscan
    exact ⟨_, _, .text hblank hcontent hbare, rfl, hrest⟩
  · obtain ⟨text, tag, htag, rfl, hrest⟩ := hsound _ _ _ hlength hready hyields
    exact ⟨text, _, .tag htag, rfl, hrest⟩

-- Elements as long as there are any, and then the closing part.
theorem sound_body {result : Except Failure (List (Node Tag))} {nodes : List (Node Tag)}
    (h : Repeats rules element none cursor result middle) (hresult : result = .ok nodes)
    (hclosing : Yields rules closing middle (.ok node) stop) (hready : Ready cursor)
    (hlength : cursor.rest.length < length) :
    ∃ text items, Body Written text items ∧ nodes = items.map elementNode ∧
      cursor.rest = text ++ stop.rest := by
  induction h generalizing nodes with
  | committed | separatorCommitted => cases hresult
  | ended hitem hmark =>
      cases hresult
      have hplace := hitem.toPlace_eq hmark
      obtain ⟨text, name, htext, -, hrest⟩ := sound_closing _ _ _ (Nat.lt_succ_self _)
        (hready.of_yields_error hitem hmark) hclosing
      rw [hplace] at hrest
      exact ⟨text, [], .closing htext, rfl, hrest⟩
  | separatorEnded _ hseparates => cases hseparates.1
  | stuck hitem hseparates hstuck =>
      obtain ⟨-, rfl⟩ := hseparates
      exact absurd hstuck (Nat.ne_of_gt (consumes_element _ _ _ hitem))
  | @next _ _ _ _ _ result _ hitem hseparates _ _ ih =>
      obtain ⟨-, rfl⟩ := hseparates
      cases result with
      | error failure => cases hresult
      | ok others =>
          cases hresult
          obtain ⟨text, item, hpart, rfl, hrest⟩ := sound_element hsound hready hlength hitem
          have hle := hitem.reaches.place.rest_length_le
          obtain ⟨later, items, hlater, rfl, hlast⟩ :=
            ih rfl hclosing (hready.of_yields hitem) (by omega)
          rw [hlast] at hpart
          refine ⟨_, item :: items, .cons hpart.of_append hlater, rfl, ?_⟩
          rw [hrest, hlast, List.append_assoc]

end Bodies

-- Every tag that is read is one of the dialect, and it is read as what it stands for.
theorem sound_tag (length : Nat) : Sound rules Written tagNode (.rule "tag") length := by
  refine Sound.of_step (fun length ih => ?_) length
  refine Sound.rule ?_ definition?_tag
  intro cursor node stop hlength hready hyields
  obtain ⟨inner, hseq, rfl⟩ := hyields.of_map
  obtain ⟨nodes, rfl, hfollow⟩ := hseq.follow
  obtain ⟨_, opened, _, rfl, hopening, hfollow⟩ := hfollow.of_cons
  obtain ⟨_, hlater, rfl⟩ := hfollow.of_cut
  obtain ⟨_, filled, _, rfl, helements, hfollow⟩ := hlater.of_cons
  obtain ⟨_, _, _, rfl, hclosing, hfollow⟩ := hfollow.of_cons
  obtain ⟨rfl, rfl⟩ := hfollow.of_nil
  have hshorter := Nat.lt_of_lt_of_le (consumes_opening.rest_length_lt hopening)
    (Nat.le_of_lt_succ hlength)
  have hopened := (hready.of_yields hopening).commit
  obtain ⟨opener, parts, hopener, rfl, hrest⟩ :=
    sound_opening _ _ _ (Nat.lt_succ_self _) hready hopening
  obtain ⟨inner, hmany, rfl⟩ := helements.of_map
  obtain ⟨nodes, rfl, hrepeats⟩ := hmany.of_many
  obtain ⟨body, items, hbody, rfl, hinner⟩ :=
    sound_body ih hrepeats rfl hclosing hopened hshorter
  have hinner : opened.rest = body ++ _ := hinner
  refine ⟨_, ⟨parts.1, SortedMap.ofEntries parts.2, items⟩, .mk hopener hbody,
    tagOf_children parts items _, ?_⟩
  rw [hrest, hinner, List.append_assoc]

end Descent.Html
