import Descent.Proofs.Json.Soundness

namespace Descent.Json

open Grammar Scanner Text

variable {β : Type} {Item : List Char → β → Prop} {nodeOf : β → Node Empty} {item : Document}
  {length : Nat} {cursor stop : Cursor} {node : Node Empty} {rest : List Char}

theorem yields_string (h : Ready cursor) {body text literal : List Char}
    (hspells : Quoted.Spells '"' body text) (htoken : Token ('"' :: (body ++ ['"'])) literal)
    (hrest : cursor.rest = literal ++ rest) :
    ∃ stop, Yields rules (.quoted "\"") cursor (.ok (.value (.str (String.ofList text)))) stop ∧
      stop.rest = rest ∧ Ready stop :=
  h.yields_quoted (by decide) (by simp) rfl hspells htoken hrest

theorem startsWith_comma : StartsWith "," ',' := ⟨rfl, rfl⟩

theorem separates_comma (h : Ready cursor) {literal : List Char} (htoken : Token [','] literal)
    (hrest : cursor.rest = literal ++ rest) :
    ∃ stop, Separates rules (some comma) cursor (.ok (.token ",")) stop ∧ stop.rest = rest ∧
      Ready stop :=
  h.yields_exact startsWith_comma htoken hrest

theorem delimited_comma {literal : List Char} (h : Token [','] literal) (rest : List Char) :
    Delimited (literal ++ rest) :=
  Token.delimited startsWith_comma h rfl rest

theorem misses_string {c : Char} (hready : Ready cursor)
    (hhead : (significant cursor.rest).head? = some c) (hc : (c == '"') = false) :
    Misses rules (.quoted "\"") cursor :=
  hready.misses_of_head hhead rfl (opens_quoted (by decide)) (by simpa using hc)

-- What ends a list: neither an item nor a comma nor more of a number.
structure Closing (item : Document) (last : Char) : Prop where
  misses : ∀ cursor, Ready cursor → (significant cursor.rest).head? = some last →
    Misses rules item cursor
  ne_comma : last ≠ ','
  delimited : Numeral.prolongs last = false

section Contents

variable (hcomplete : Complete rules Item nodeOf item Delimited length) {tail : List Char}

include hcomplete

-- The last item has to be followed by what ends the list.
theorem Complete.listed {text : List Char} {items : List β} (h : Listed Item text items)
    (hlast : ∀ cursor text x, Item text x → text.length < length → Ready cursor →
      cursor.rest = text ++ tail → ∃ stop,
        Repeats rules item (some comma) cursor (.ok [nodeOf x]) stop ∧ stop.rest = rest ∧
          Ready stop)
    (hlength : text.length < length) (hready : Ready cursor) (hrest : cursor.rest = text ++ tail) :
    ∃ stop, Repeats rules item (some comma) cursor (.ok (items.map nodeOf)) stop ∧
      stop.rest = rest ∧ Ready stop := by
  induction h generalizing cursor with
  | one hitem => exact hlast cursor _ _ hitem hlength hready hrest
  | @cons text x literal later items hitem hcomma _ ih =>
      simp only [List.append_assoc] at hrest
      simp only [List.length_append] at hlength
      obtain ⟨middle, hyields, hmiddle, hready'⟩ :=
        hcomplete cursor text x _ hitem (by omega) hready hrest (delimited_comma hcomma _)
      obtain ⟨behind, hseparates, hbehind, hready''⟩ :=
        separates_comma hready' hcomma hmiddle
      obtain ⟨stop, hrepeats, hstop⟩ := ih (by omega) hready'' hbehind
      have hle := hyields.reaches.pos_le
      have hlt := consumes_comma _ _ _ hseparates
      exact ⟨stop, .next hyields hseparates (by omega) hrepeats, hstop⟩

theorem Complete.contents {last : Char} (hclosing : Closing item last)
    (hlast : (significant tail).head? = some last) (htail : Delimited tail) {text : List Char}
    {items : List β} (h : Contents Item text items) (hlength : text.length < length)
    (hready : Ready cursor) (hrest : cursor.rest = text ++ tail) :
    ∃ stop, Repeats rules item (some comma) cursor (.ok (items.map nodeOf)) stop ∧
      stop.rest = tail ∧ Ready stop := by
  have hended (cursor : Cursor) (hready : Ready cursor) (hrest : cursor.rest = tail) :
      Repeats rules item (some comma) cursor (.ok []) cursor := by
    obtain ⟨failure, hmisses⟩ := hclosing.misses cursor hready (hrest ▸ hlast)
    exact .ended hmisses hready.mark_le
  cases h with
  | empty => exact ⟨cursor, hended cursor hready hrest, hrest, hready⟩
  | listed hlisted =>
      refine Complete.listed hcomplete hlisted ?_ hlength hready hrest
      intro cursor text x hitem hlength hready hrest
      obtain ⟨stop, hyields, hstop, hready'⟩ :=
        hcomplete cursor text x tail hitem hlength hready hrest htail
      obtain ⟨failure, hmisses⟩ : Misses rules comma stop :=
        hready'.misses_exact startsWith_comma (hstop ▸ hlast) (by simpa using hclosing.ne_comma)
      exact ⟨stop, .separatorEnded hyields hmisses hready'.mark_le, hstop, hready'⟩
  | trailing hlisted hcomma =>
      rw [List.append_assoc] at hrest
      rw [List.length_append] at hlength
      refine Complete.listed hcomplete hlisted ?_ (by omega) hready hrest
      intro cursor text x hitem hlength hready hrest
      obtain ⟨middle, hyields, hmiddle, hready'⟩ :=
        hcomplete cursor text x _ hitem hlength hready hrest (delimited_comma hcomma tail)
      obtain ⟨stop, hseparates, hstop, hready''⟩ := separates_comma hready' hcomma hmiddle
      have hle := hyields.reaches.pos_le
      have hlt := consumes_comma _ _ _ hseparates
      have hrepeats := Repeats.next hyields hseparates (by omega) (hended stop hready'' hstop)
      exact ⟨stop, hrepeats, hstop, hready''⟩

-- The node of the brackets is not the node of what stands between them, but it has it as a part.
theorem Complete.brackets {opening closing : String} {first last : Char}
    (hopening : StartsWith opening first) (hclosing : StartsWith closing last)
    (hends : Closing item last) {opener body closer : List Char} {items : List β}
    (hopener : Token opening.toList opener) (hbody : Contents Item body items)
    (hcloser : Token closing.toList closer) (hlength : body.length < length)
    (hready : Ready cursor) (hrest : cursor.rest = opener ++ (body ++ (closer ++ rest))) :
    ∃ node stop, Yields rules
        (.seq [.exact opening, .cut, .many item (some comma) 0, .exact closing]) cursor (.ok node)
        stop ∧
      (node.child 2).toChildren = items.map nodeOf ∧ stop.rest = rest ∧ Ready stop := by
  obtain ⟨inside, hopen, hinside, hready⟩ := hready.yields_exact hopening hopener hrest
  have hready := hready.commit
  have hlast := hcloser.head?_significant hclosing rest
  have htail := hcloser.delimited hclosing hends.delimited rest
  obtain ⟨outside, hrepeats, houtside, hready⟩ :=
    Complete.contents hcomplete hends hlast htail hbody hlength hready hinside
  have hmany := yields_many_iff.mpr ⟨_, hrepeats, rfl⟩
  obtain ⟨stop, hclose, hstop, hready⟩ := hready.yields_exact hclosing hcloser houtside
  have hfollow := Follow.cons hopen (.cons yields_cut (.cons hmany (.cons hclose .nil)))
  exact ⟨_, stop, hfollow.yields_seq, rfl, hstop, hready⟩

end Contents

-- The alternatives of a value with the characters that they start with.
def openings : List ((Char → Bool) × Document) :=
  [((· == 'n'), .bind .null (.exact "null")), ((· == 't'), .bind (.bool true) (.exact "true")),
    ((· == 'f'), .bind (.bool false) (.exact "false")), ((· == '"'), .quoted "\""),
    (Numeral.continues, .number), ((· == '['), array), ((· == '\x7b'), object)]

theorem definition?_value_eq :
    rules.definition? "value" = some (.any (openings.map Prod.snd)) := rfl

section Openings

variable {c : Char} (hready : Ready cursor)
  (hhead : (significant cursor.rest).head? = some c)

include hready hhead

theorem misses_of_opening {opens : Char → Bool} {alternative : Document}
    (hmem : (opens, alternative) ∈ openings) (hc : opens c = false) :
    Misses rules alternative cursor := by
  simp only [openings, List.mem_cons, Prod.mk.injEq, List.not_mem_nil, or_false] at hmem
  rcases hmem with ⟨rfl, rfl⟩ | ⟨rfl, rfl⟩ | ⟨rfl, rfl⟩ | ⟨rfl, rfl⟩ | ⟨rfl, rfl⟩ | ⟨rfl, rfl⟩ |
    ⟨rfl, rfl⟩
  · exact (hready.misses_exact ⟨rfl, rfl⟩ hhead hc).bind
  · exact (hready.misses_exact ⟨rfl, rfl⟩ hhead hc).bind
  · exact (hready.misses_exact ⟨rfl, rfl⟩ hhead hc).bind
  · exact misses_string hready hhead hc
  · exact hready.misses_of_head hhead rfl opens_number hc
  · exact ((hready.misses_exact ⟨rfl, rfl⟩ hhead hc).seq hready.mark_le).map
  · exact ((hready.misses_exact ⟨rfl, rfl⟩ hhead hc).seq hready.mark_le).map

theorem misses_value (hnone : openings.filter (fun entry => entry.1 c) = []) :
    Misses rules (.rule "value") cursor := by
  refine .rule definition?_value_eq (.any hready.mark_le fun alternative hmem => ?_)
  obtain ⟨⟨opens, alternative⟩, hentry, rfl⟩ := List.mem_map.mp hmem
  refine misses_of_opening hready hhead hentry ?_
  simpa using List.filter_eq_nil_iff.mp hnone _ hentry

-- The first character tells which alternative it is.
theorem yields_value {opens : Char → Bool} {alternative : Document}
    (honly : openings.filter (fun entry => entry.1 c) = [(opens, alternative)])
    (hyields : Yields rules alternative cursor (.ok node) stop) :
    Yields rules (.rule "value") cursor (.ok node) stop := by
  have hmem : (opens, alternative) ∈ openings.filter fun entry => entry.1 c :=
    honly ▸ List.mem_singleton_self _
  refine (yields_rule_iff definition?_value_eq).mpr (hyields.any hready.mark_le ?_ ?_)
  · exact List.mem_map.mpr ⟨_, (List.mem_filter.mp hmem).1, rfl⟩
  · intro other hother
    obtain ⟨⟨opens', other⟩, hentry, rfl⟩ := List.mem_map.mp hother
    cases hc : opens' c with
    | false => exact .inr (misses_of_opening hready hhead hentry hc)
    | true =>
        have hsame : (opens', other) ∈ openings.filter fun entry => entry.1 c :=
          List.mem_filter.mpr ⟨hentry, hc⟩
        rw [honly, List.mem_singleton] at hsame
        cases hsame
        exact .inl rfl

end Openings

theorem closing_value : Closing (.rule "value") ']' :=
  ⟨fun _ hready hhead => misses_value hready hhead rfl, by decide, rfl⟩

theorem closing_property : Closing property '\x7d' :=
  ⟨fun _ hready hhead => (misses_string hready hhead rfl).seq hready.mark_le, by decide, rfl⟩

theorem complete_property (h : Complete rules (Spaced Written) .value (.rule "value") Delimited length) :
    Complete rules (Property Written) propertyNode property Delimited length := by
  intro cursor text x rest hitem hlength hready hrest hdelimited
  cases hitem with
  | mk hspells hliteral hcolon hitem =>
      simp only [List.append_assoc] at hrest
      simp only [List.length_append] at hlength
      obtain ⟨keyed, hkey, hkeyed, hready⟩ := yields_string hready hspells hliteral hrest
      have hready := hready.commit
      obtain ⟨separated, hseparated, hmiddle, hready⟩ :=
        hready.yields_exact (⟨rfl, rfl⟩ : StartsWith ":" ':') hcolon hkeyed
      obtain ⟨stop, hvalue, hstop⟩ :=
        h separated _ _ rest hitem (by omega) hready hmiddle hdelimited
      have hfollow := Follow.cons hkey (.cons yields_cut (.cons hseparated (.cons hvalue .nil)))
      exact ⟨stop, hfollow.yields_seq, hstop⟩

theorem complete_keyword {word : String} {first : Char} {x : Value Empty}
    (hword : StartsWith word first)
    (honly : openings.filter (fun entry => entry.1 first) =
      [((· == first), .bind x (.exact word))])
    (hready : Ready cursor) {literal : List Char} (htoken : Token word.toList literal)
    (hrest : cursor.rest = literal ++ rest) :
    ∃ stop, Yields rules (.rule "value") cursor (.ok (.value x)) stop ∧ stop.rest = rest ∧
      Ready stop := by
  have hhead : (significant cursor.rest).head? = some first :=
    hrest ▸ htoken.head?_significant hword rest
  obtain ⟨stop, hexact, hstop⟩ := hready.yields_exact hword htoken hrest
  have hbind : Yields rules (.bind x (.exact word)) cursor (.ok (.value x)) stop :=
    yields_bind_iff.mpr ⟨_, hexact, rfl⟩
  exact ⟨stop, yields_value hready hhead honly hbind, hstop⟩

theorem openings_of_continues {c : Char} (h : Numeral.continues c) :
    openings.filter (fun entry => entry.1 c) = [(Numeral.continues, .number)] := by
  have hne (other : Char) (hother : Numeral.continues other = false) : (c == other) = false := by
    refine beq_eq_false_iff_ne.mpr ?_
    rintro rfl
    cases h.symm.trans hother
  simp only [openings, List.filter, h, hne 'n' rfl, hne 't' rfl, hne 'f' rfl, hne '"' rfl,
    hne '[' rfl, hne '\x7b' rfl]

theorem complete_number (hready : Ready cursor) {numeral : Numeral} {x : Value Empty}
    (hformed : numeral.WellFormed) (hvalue : numeral.Denotes x) {blank : List Char}
    (hblank : Blank blank) (hrest : cursor.rest = blank ++ numeral.text ++ rest)
    (hdelimited : Delimited rest) :
    ∃ stop, Yields rules (.rule "value") cursor (.ok (.value x)) stop ∧ stop.rest = rest ∧
      Ready stop := by
  obtain ⟨stop, hnumber, hstop⟩ :=
    hready.yields_number hformed hvalue (.mk hblank) hrest hdelimited
  obtain ⟨c, text, htext, hc⟩ := Numeral.exists_text_eq_cons hformed hvalue
  rw [htext, List.append_assoc] at hrest
  have hhead : (significant cursor.rest).head? = some c :=
    hrest ▸ hblank.head?_significant (not_isAsciiBlank_of_continues hc)
  exact ⟨stop, yields_value hready hhead (openings_of_continues hc) hnumber, hstop⟩

-- What stands between brackets is read as a value if its node is one.
theorem Complete.map_brackets (hcomplete : Complete rules Item nodeOf item Delimited length)
    {opening closing : String} {first last : Char} (hopening : StartsWith opening first)
    (hclosing : StartsWith closing last) (hends : Closing item last) {opens : Char → Bool}
    {f : Node Empty → Node Empty} (honly : openings.filter (fun entry => entry.1 first) =
      [(opens, .map f (.seq [.exact opening, .cut, .many item (some comma) 0, .exact closing]))])
    {opener body closer : List Char} {items : List β} {x : Value Empty}
    (hopener : Token opening.toList opener) (hbody : Contents Item body items)
    (hcloser : Token closing.toList closer)
    (hf : ∀ node, (node.child 2).toChildren = items.map nodeOf → f node = .value x)
    (hlength : body.length < length) (hready : Ready cursor)
    (hrest : cursor.rest = opener ++ (body ++ (closer ++ rest))) :
    ∃ stop, Yields rules (.rule "value") cursor (.ok (.value x)) stop ∧ stop.rest = rest ∧
      Ready stop := by
  have hhead : (significant cursor.rest).head? = some first :=
    hrest ▸ hopener.head?_significant hopening _
  obtain ⟨node, stop, hseq, hitems, hstop⟩ :=
    Complete.brackets hcomplete hopening hclosing hends hopener hbody hcloser hlength hready hrest
  have hmap := yields_map_iff.mpr ⟨_, hseq, congrArg Except.ok (hf node hitems)⟩
  exact ⟨stop, yields_value hready hhead honly hmap, hstop⟩

-- Every value of the dialect is read.
theorem complete_value (length : Nat) :
    Complete rules (Spaced Written) .value (.rule "value") Delimited length := by
  refine Complete.of_step (fun length ih => ?_) length
  intro cursor text x rest hitem hlength hready hrest hdelimited
  obtain ⟨hblank, hwritten⟩ := hitem
  cases hwritten with
  | null => exact complete_keyword ⟨rfl, rfl⟩ rfl hready (.mk hblank) hrest
  | true => exact complete_keyword ⟨rfl, rfl⟩ rfl hready (.mk hblank) hrest
  | false => exact complete_keyword ⟨rfl, rfl⟩ rfl hready (.mk hblank) hrest
  | string hspells =>
      obtain ⟨stop, hquoted, hstop⟩ := yields_string hready hspells (.mk hblank) hrest
      rw [List.append_assoc] at hrest
      have hhead : (significant cursor.rest).head? = some '"' :=
        hrest ▸ hblank.head?_significant rfl
      exact ⟨stop, yields_value hready hhead rfl hquoted, hstop⟩
  | number hformed hvalue =>
      exact complete_number hready hformed hvalue hblank hrest hdelimited
  | array hbody hcloser =>
      simp only [List.length_append, List.length_cons] at hlength
      simp only [List.append_assoc, List.cons_append] at hrest
      rw [List.append_cons] at hrest
      exact Complete.map_brackets ih (⟨rfl, rfl⟩ : StartsWith "[" '[')
        (⟨rfl, rfl⟩ : StartsWith "]" ']') closing_value rfl (.mk hblank) hbody hcloser
        (fun _ => listOf_eq) (by omega) hready hrest
  | @object _ _ properties entries hbody hcloser hsorted hfind =>
      simp only [List.length_append, List.length_cons] at hlength
      simp only [List.append_assoc, List.cons_append] at hrest
      rw [List.append_cons] at hrest
      have hmap (node : Node Empty)
          (hnode : (node.child 2).toChildren = properties.map propertyNode) :
          mapOf node = .value (.map entries) := by
        rw [mapOf_eq hnode, SortedMap.eq_ofEntries_iff.mpr ⟨hsorted, hfind⟩, Value.ofEntries]
      exact Complete.map_brackets (complete_property ih) (⟨rfl, rfl⟩ : StartsWith "\x7b" '\x7b')
        (⟨rfl, rfl⟩ : StartsWith "\x7d" '\x7d') closing_property rfl (.mk hblank) hbody hcloser
        hmap (by omega) hready hrest

end Descent.Json
