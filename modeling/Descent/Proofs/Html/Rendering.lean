import Mathlib.Data.List.Chain
import Descent.Proofs.Html.Parsing

-- How tags are written, and which tags are read back from what is written.
namespace Descent.Html

open Scanner Text
open Grammar (Row ready_textStart)
open Json (Blank Token blank_nil token_self)

section Render

-- Between double quotes a backslash stands before what would have a meaning of its own.
def escape (text : List Char) : List Char :=
  text.flatMap fun c => if c = '"' ∨ c = '\\' then ['\\', c] else [c]

def renderAttribute (entry : String × String) : List Char :=
  ' ' :: (entry.1.toList ++ ('=' :: '"' :: (escape entry.2.toList ++ ['"'])))

def renderOpening (name : String) (attributes : List (String × String)) : List Char :=
  '<' :: (name.toList ++ (attributes.flatMap renderAttribute ++ ['>']))

def renderClosing (name : String) : List Char := '<' :: '/' :: (name.toList ++ ['>'])

mutual

def Element.render : Element → List Char
  | text content => content.toList
  | tag name attributes body =>
    renderOpening name attributes ++ (renderAll body ++ renderClosing name)

def Element.renderAll : List Element → List Char
  | [] => []
  | element :: rest => element.render ++ renderAll rest

end

def Tag.toElement (tag : Tag) : Element := .tag tag.name tag.attributes tag.body

def Tag.render (tag : Tag) : String := String.ofList tag.toElement.render

end Render

section WellFormed

def Element.isText : Element → Bool
  | text _ => true
  | tag _ _ _ => false

-- Two texts side by side would be read as one.
def Apart (element next : Element) : Prop := ¬(element.isText ∧ next.isText)

-- Names are spelled as they have to be, and there is one attribute of a name. A text is not empty,
-- has no angle brackets in it and does not start with a blank, and no text stands beside another.
inductive Element.WellFormed : Element → Prop
  | text {content} : IsContent content.toList → WellFormed (.text content)
  | tag {name attributes body} :
      IsName letterOrDigit name.toList →
      (∀ entry ∈ attributes, IsName letterDigitOrHyphen entry.1.toList) →
      SortedMap.Sorted attributes → (∀ element ∈ body, WellFormed element) →
      body.IsChain Apart → WellFormed (.tag name attributes body)

def Tag.WellFormed (tag : Tag) : Prop := tag.toElement.WellFormed

end WellFormed

section Written

theorem spells_escape (text : List Char) : Quoted.Spells '"' (escape text) text := by
  induction text with
  | nil => exact .nil
  | cons c rest ih =>
      rw [escape, List.flatMap_cons]
      split
      · rename_i hc
        refine .escaped ?_ ih
        rintro rfl
        simp at hc
      · rename_i hc
        rw [not_or] at hc
        exact .plain hc.1 hc.2 ih

theorem attribute_render {entry : String × String}
    (hname : IsName letterDigitOrHyphen entry.1.toList) :
    Attribute (renderAttribute entry) entry := by
  have hblank : Blank [' '] := by simp [Blank, isAsciiBlank]
  have hquote : '"' ∈ "\"'".toList := by simp
  have hattribute := Attribute.mk hname (.mk hblank) (token_self ['=']) hquote
    (spells_escape entry.2.toList) (token_self _)
  rwa [String.ofList_toList, String.ofList_toList] at hattribute

theorem row_render {attributes : List (String × String)}
    (h : ∀ entry ∈ attributes, IsName letterDigitOrHyphen entry.1.toList) :
    Row Attribute (attributes.flatMap renderAttribute) attributes := by
  induction attributes with
  | nil => exact .nil
  | cons entry rest ih =>
      obtain ⟨hfirst, hrest⟩ := List.forall_mem_cons.mp h
      exact .cons (attribute_render hfirst) (ih hrest)

theorem opening_render {name : String} {attributes : List (String × String)}
    (hname : IsName letterOrDigit name.toList)
    (h : ∀ entry ∈ attributes, IsName letterDigitOrHyphen entry.1.toList) :
    Opening (renderOpening name attributes) (name, attributes) := by
  have hhead : ∀ c ∈ (attributes.flatMap renderAttribute).head?,
      letterOrDigit.contains c = false := by
    cases attributes with
    | nil => exact nofun
    | cons entry rest =>
        rintro _ ⟨⟩
        rfl
  have hopening := Opening.mk (token_self ['<']) hname (token_self _) (row_render h) hhead
    (token_self ['>'])
  rwa [String.ofList_toList] at hopening

theorem closing_render {name : String} (hname : IsName letterOrDigit name.toList) :
    Closing (renderClosing name) name := by
  have hclosing := Closing.mk (token_self ['<', '/']) hname (token_self _) (token_self ['>'])
  rwa [String.ofList_toList] at hclosing

theorem bare_renderAll {elements : List Element} {element : Element} (htext : element.isText)
    (h : (element :: elements).IsChain Apart) (name : String) :
    Bare (Element.renderAll elements ++ renderClosing name) := by
  cases elements with
  | nil =>
      rintro _ ⟨⟩
      rfl
  | cons next rest =>
      cases next with
      | text content => exact absurd ⟨htext, rfl⟩ h.rel
      | tag =>
          rintro _ ⟨⟩
          rfl

-- Each element stands where it may, because what follows a text begins with a bracket.
theorem body_render {elements : List Element} {name : String}
    (hname : IsName letterOrDigit name.toList)
    (h : ∀ element ∈ elements, ∀ rest, (element.isText → Bare rest) →
      Part Written element.render element rest) (hapart : elements.IsChain Apart) :
    Body Written (Element.renderAll elements ++ renderClosing name) elements := by
  induction elements with
  | nil => exact .closing (closing_render hname)
  | cons element rest ih =>
      obtain ⟨hfirst, hrest⟩ := List.forall_mem_cons.mp h
      rw [Element.renderAll, List.append_assoc]
      refine .cons (hfirst _ ?_) (ih hrest hapart.tail)
      exact fun htext => bare_renderAll htext hapart name

theorem written_render_of_parts {name : String} {attributes : List (String × String)}
    {body : List Element} (hname : IsName letterOrDigit name.toList)
    (hattributes : ∀ entry ∈ attributes, IsName letterDigitOrHyphen entry.1.toList)
    (hsorted : SortedMap.Sorted attributes) (hapart : body.IsChain Apart)
    (h : ∀ element ∈ body, ∀ rest, (element.isText → Bare rest) →
      Part Written element.render element rest) :
    Written (Element.tag name attributes body).render ⟨name, attributes, body⟩ := by
  have hwritten := Written.mk (opening_render hname hattributes) (body_render hname h hapart)
  rwa [SortedMap.ofEntries_eq_self hsorted] at hwritten

theorem part_render {element : Element} (h : element.WellFormed) (rest : List Char)
    (hbare : element.isText → Bare rest) : Part Written element.render element rest := by
  induction h generalizing rest with
  | @text content hcontent =>
      have hpart : Part Written ([] ++ content.toList) (.text (.ofList content.toList)) rest :=
        .text blank_nil hcontent (hbare rfl)
      rwa [String.ofList_toList] at hpart
  | tag hname hattributes hsorted _ hapart ih =>
      exact .tag (written_render_of_parts hname hattributes hsorted hapart ih)

theorem written_render {tag : Tag} (h : tag.WellFormed) : Written tag.toElement.render tag := by
  cases h with
  | tag hname hattributes hsorted hbody hapart =>
      refine written_render_of_parts hname hattributes hsorted hapart ?_
      exact fun element hmem => part_render (hbody element hmem)

theorem parse_render {tag : Tag} (h : tag.WellFormed) : parse tag.render = .ok tag := by
  refine parse_of_isDocument ⟨_, [], ?_, written_render h, blank_nil⟩
  rw [Tag.render, String.toList_ofList, List.append_nil]

example : Tag.render ⟨"p", [("k", "a\"b")], [.text "x ", .tag "b" [] [.text "y"]]⟩ =
    "<p k=\"a\\\"b\">x <b>y</b></p>" := rfl

end Written

section Read

variable {length : Nat} {text rest : List Char} {element : Element} {tag : Tag}

theorem isPlain_of_isAsciiBlank {c : Char} (h : isAsciiBlank c) : isPlain c :=
  isAsciiBlank_cases h ⟨rfl, rfl, rfl, rfl, rfl, rfl⟩

-- Where a text is read another one cannot have ended.
theorem not_bare_of_text {content : String} (h : Part Written text (.text content) rest)
    (more : List Char) : ¬Bare (text ++ more) := by
  cases h with
  | @text blank content _ hblank hcontent _ =>
      obtain ⟨first, hfirst, -⟩ := hcontent.head
      obtain ⟨later, rfl⟩ := List.head?_eq_some_iff.mp hfirst
      intro hbare
      cases blank with
      | nil => cases (hcontent.plain first List.mem_cons_self).symm.trans (hbare first rfl)
      | cons c blank =>
          have hplain := isPlain_of_isAsciiBlank (hblank c List.mem_cons_self)
          cases hplain.symm.trans (hbare c rfl)

-- A text goes on up to a bracket, so no other one follows it.
theorem apart_of_parts {next : Element} {later after : List Char}
    (h : Part Written text element (later ++ rest)) (hnext : Part Written later next after) :
    Apart element next := by
  rintro ⟨htext, hnexttext⟩
  cases h with
  | tag => cases htext
  | text _ _ hbare =>
      cases next with
      | tag => cases hnexttext
      | text content => exact not_bare_of_text hnext rest hbare

theorem apart_of_body {elements : List Element} {more : List Char}
    (h : Part Written more element text) (hbody : Body Written text elements) :
    ∀ next ∈ elements.head?, Apart element next := by
  cases hbody with
  | closing => exact nofun
  | cons hnext _ =>
      rintro next ⟨⟩
      exact apart_of_parts h hnext

theorem isName_of_row {entries : List (String × String)} (h : Row Attribute text entries) :
    ∀ entry ∈ entries, IsName letterDigitOrHyphen entry.1.toList := by
  induction h with
  | nil => exact nofun
  | cons hattribute _ ih =>
      obtain ⟨hname, -⟩ := hattribute
      refine List.forall_mem_cons.mpr ⟨?_, ih⟩
      rwa [String.toList_ofList]

theorem isName_of_opening {name : String} {entries : List (String × String)}
    (h : Opening text (name, entries)) :
    IsName letterOrDigit name.toList ∧
      ∀ entry ∈ entries, IsName letterDigitOrHyphen entry.1.toList := by
  cases h with
  | mk _ hname _ hrow _ _ =>
      rw [String.toList_ofList]
      exact ⟨hname, isName_of_row hrow⟩

theorem length_pos_of_opening {parts : String × List (String × String)} (h : Opening text parts) :
    0 < text.length := by
  cases h with
  | mk hopener =>
      have hlength := hopener.length_le
      simp only [List.length_append, List.length_singleton] at hlength ⊢
      omega

-- The induction is on the length of the text: a tag in the body of another one is shorter.
theorem wellFormed_body (hnested : ∀ text tag, text.length < length → Written text tag →
    tag.WellFormed) {elements : List Element} (h : Body Written text elements)
    (hlength : text.length < length) :
    (∀ element ∈ elements, element.WellFormed) ∧ elements.IsChain Apart := by
  induction h with
  | closing => exact ⟨nofun, .nil⟩
  | @cons text element rest elements hpart hbody ih =>
      rw [List.length_append] at hlength
      obtain ⟨hwellFormed, hapart⟩ := ih (by omega)
      refine ⟨List.forall_mem_cons.mpr ⟨?_, hwellFormed⟩,
        List.isChain_cons.mpr ⟨apart_of_body hpart hbody, hapart⟩⟩
      cases hpart with
      | text _ hcontent _ =>
          refine .text ?_
          rwa [String.toList_ofList]
      | tag htag => exact hnested _ _ (by omega) htag

theorem wellFormed_of_written (length : Nat) :
    ∀ text tag, text.length < length → Written text tag → tag.WellFormed := by
  induction length with
  | zero => exact fun _ _ hlength => absurd hlength (Nat.not_lt_zero _)
  | succ length ih =>
      rintro _ _ hlength ⟨hopening, hbody⟩
      rw [List.length_append] at hlength
      have hpos := length_pos_of_opening hopening
      obtain ⟨hname, hentries⟩ := isName_of_opening hopening
      obtain ⟨hwellFormed, hapart⟩ := wellFormed_body ih hbody (by omega)
      refine .tag hname ?_ (SortedMap.sorted_ofEntries _) hwellFormed hapart
      exact fun entry hmem => hentries entry (SortedMap.mem_of_mem_ofEntries hmem)

theorem wellFormed_of_parse {input : String} (h : parse input = .ok tag) : tag.WellFormed := by
  obtain ⟨stop, hyields, -⟩ := parse_eq_ok_iff.mp h
  obtain ⟨text, other, hwritten, hnode, -⟩ :=
    sound_tag _ _ _ _ (Nat.lt_succ_self _) (ready_textStart _) hyields
  cases hnode
  exact wellFormed_of_written _ _ _ (Nat.lt_succ_self _) hwritten

end Read

-- A well-formed tag is read back from how it is written, and only well-formed tags are read. What
-- the grammar yields is always a tag, so that none has to be asked for in vain.
theorem parse_render_and_wellFormed :
    (∀ tag : Tag, tag.WellFormed → parse tag.render = .ok tag) ∧
    (∀ input tag, parse input = .ok tag → tag.WellFormed) ∧
    ∀ (input : String) node, Grammar.parseAll rules (.rule "tag") input.toList = .ok node →
      ∃ tag, node.value?.bind Value.payload? = some tag ∧ parse input = .ok tag := by
  refine ⟨fun tag => parse_render, fun input tag => wellFormed_of_parse, ?_⟩
  intro input node hparse
  obtain ⟨tag, rfl⟩ := exists_tagNode_of_parseAll hparse
  exact ⟨tag, rfl, parse_eq_ok_iff_parseAll.mpr hparse⟩

end Descent.Html
