import Descent.Proofs.Dialects

namespace Descent.Json

open Grammar Scanner Text

variable {β : Type} {Item : List Char → β → Prop} {nodeOf : β → Node Empty} {item : Document}
  {length : Nat} {cursor stop : Cursor} {node : Node Empty}

theorem definition?_value : rules.definition? "value" = some value := rfl

theorem consumes_comma : Consumes rules comma := by
  refine consumes_of_not_passable ?_
  rintro ⟨hempty⟩
  simp [IsPassable] at hempty

theorem exists_token_of_string (h : Ready cursor)
    (hyields : Yields rules (.quoted "\"") cursor (.ok node) stop) :
    ∃ body text literal, Quoted.Spells '"' body text ∧ Token ('"' :: (body ++ ['"'])) literal ∧
      cursor.rest = literal ++ stop.rest ∧ node = .value (.str (String.ofList text)) := by
  obtain ⟨quote, body, text, literal, hquote, hread⟩ :=
    h.exists_token_of_quoted (by decide) hyields
  obtain rfl : quote = '"' := by simpa using hquote
  exact ⟨body, text, literal, hread⟩

theorem Contents.cons {text comma rest : List Char} {x : β} {items : List β} (hitem : Item text x)
    (hcomma : Token [','] comma) (h : Contents Item rest items) :
    Contents Item (text ++ comma ++ rest) (x :: items) := by
  cases h with
  | empty =>
      rw [List.append_nil]
      exact .trailing (.one hitem) hcomma
  | listed hlisted => exact .listed (.cons hitem hcomma hlisted)
  | trailing hlisted hlast =>
      rw [← List.append_assoc]
      exact .trailing (.cons hitem hcomma hlisted) hlast

-- What is read between brackets, item by item. The comma at the end is read as any other, and then
-- there is no item.
theorem Sound.contents (hsound : Sound rules Item nodeOf item length)
    {result : Except Failure (List (Node Empty))}
    (h : Repeats rules item (some comma) cursor result stop) (hready : Ready cursor)
    (hlength : cursor.rest.length < length) {nodes : List (Node Empty)}
    (hresult : result = .ok nodes) :
    ∃ text items, Contents Item text items ∧ nodes = items.map nodeOf ∧
      cursor.rest = text ++ stop.rest := by
  induction h generalizing nodes with
  | committed | separatorCommitted => cases hresult
  | ended hitem hmark =>
      cases hresult
      refine ⟨[], [], .empty, rfl, ?_⟩
      rw [← hitem.rewind hmark]
      rfl
  | separatorEnded hitem hseparates hmark =>
      cases hresult
      obtain ⟨text, x, hx, rfl, hrest⟩ := hsound _ _ _ hlength hready hitem
      refine ⟨text, [x], .listed (.one hx), rfl, ?_⟩
      rw [hrest, ← Yields.rewind hseparates hmark]
      rfl
  | stuck hitem hseparates hstuck =>
      have hle := hitem.reaches.pos_le
      have hlt := consumes_comma _ _ _ hseparates
      omega
  | @next _ _ _ _ _ result _ hitem hseparates _ _ ih =>
      cases result with
      | error failure => cases hresult
      | ok others =>
          cases hresult
          obtain ⟨text, x, hx, rfl, hrest⟩ := hsound _ _ _ hlength hready hitem
          have hmiddle := hready.of_yields hitem
          obtain ⟨comma, hcomma, hmore, -⟩ := hmiddle.exists_token_of_exact ⟨rfl, rfl⟩ hseparates
          have hle := (hitem.reaches.trans hseparates.reaches).place.rest_length_le
          obtain ⟨later, items, hlater, rfl, hlast⟩ :=
            ih (hmiddle.of_yields hseparates) (by omega) rfl
          refine ⟨_, x :: items, hlater.cons hx hcomma, rfl, ?_⟩
          rw [hrest, hmore, hlast]
          simp

-- Brackets with a cut behind the opening one.
theorem Sound.brackets (hsound : Sound rules Item nodeOf item length) {opening closing : String}
    {first last : Char} (hopening : StartsWith opening first) (hclosing : StartsWith closing last)
    (hready : Ready cursor) (hlength : cursor.rest.length < length + 1)
    (h : Yields rules (.seq [.exact opening, .cut, .many item (some comma) 0, .exact closing])
      cursor (.ok node) stop) :
    ∃ opener body closer items, Token opening.toList opener ∧ Contents Item body items ∧
      Token closing.toList closer ∧ (node.child 2).toChildren = items.map nodeOf ∧
      cursor.rest = opener ++ (body ++ closer) ++ stop.rest := by
  obtain ⟨nodes, rfl, hfollow⟩ := h.follow
  obtain ⟨_, inside, _, rfl, hopen, hfollow⟩ := hfollow.of_cons
  obtain ⟨_, hlater, rfl⟩ := hfollow.of_cut
  obtain ⟨_, outside, _, rfl, hmany, hfollow⟩ := hlater.of_cons
  obtain ⟨_, _, _, rfl, hclose, hfollow⟩ := hfollow.of_cons
  obtain ⟨rfl, rfl⟩ := hfollow.of_nil
  obtain ⟨opener, hopener, hrest, -⟩ := hready.exists_token_of_exact hopening hopen
  have hinside := (hready.of_yields hopen).commit
  have hshorter := Nat.lt_of_lt_of_le ((consumes_exact hopening).rest_length_lt hopen)
    (Nat.le_of_lt_succ hlength)
  obtain ⟨nodes, rfl, hrepeats⟩ := hmany.of_many
  obtain ⟨body, items, hbody, rfl, hinner⟩ := Sound.contents hsound hrepeats hinside hshorter rfl
  obtain ⟨closer, hcloser, hlast, -⟩ :=
    (hinside.of_yields hmany).exists_token_of_exact hclosing hclose
  refine ⟨opener, body, closer, items, hopener, hbody, hcloser, rfl, ?_⟩
  have hinner : inside.rest = body ++ outside.rest := hinner
  rw [hrest, hinner, hlast]
  simp

def propertyNode (property : String × Value Empty) : Node Empty :=
  .children [.value (.str property.1), .empty, .token ":", .value property.2]

theorem listOf_eq {values : List (Value Empty)}
    (h : (node.child 2).toChildren = values.map .value) : listOf node = .value (.list values) := by
  have hvalue : valueOf ∘ Node.value = id := rfl
  rw [listOf, h, List.map_map, hvalue, List.map_id]

theorem mapOf_eq {properties : List (String × Value Empty)}
    (h : (node.child 2).toChildren = properties.map propertyNode) :
    mapOf node = .value (.ofEntries properties) := by
  rw [mapOf, h, List.filterMap_map]
  exact congrArg (fun entries => Node.value (.ofEntries entries)) List.filterMap_some

theorem sound_property (h : Sound rules (Spaced Written) .value (.rule "value") length) :
    Sound rules (Property Written) propertyNode property length := by
  intro cursor node stop hlength hready hyields
  obtain ⟨nodes, rfl, hfollow⟩ := hyields.follow
  obtain ⟨_, keyed, _, rfl, hkey, hfollow⟩ := hfollow.of_cons
  obtain ⟨_, hlater, rfl⟩ := hfollow.of_cut
  obtain ⟨_, separated, _, rfl, hcolon, hfollow⟩ := hlater.of_cons
  obtain ⟨_, _, _, rfl, hvalue, hfollow⟩ := hfollow.of_cons
  obtain ⟨rfl, rfl⟩ := hfollow.of_nil
  have hreaches := (hkey.reaches.trans keyed.reaches_commit).trans hcolon.reaches
  have hle := hreaches.place.rest_length_le
  have hcommitted := (hready.of_yields hkey).commit
  obtain ⟨body, key, literal, hspells, hliteral, hrest, rfl⟩ := exists_token_of_string hready hkey
  obtain ⟨colon, htoken, hmore, rfl⟩ := hcommitted.exists_token_of_exact ⟨rfl, rfl⟩ hcolon
  obtain ⟨text, x, hx, rfl, hlast⟩ :=
    h _ _ _ (by omega) (hcommitted.of_yields hcolon) hvalue
  have hmore : keyed.rest = colon ++ separated.rest := hmore
  refine ⟨_, (String.ofList key, x), .mk hspells hliteral htoken hx, rfl, ?_⟩
  rw [hrest, hmore, hlast]
  simp

theorem Token.spaced {literal text : List Char} {x : β} (h : Token literal text)
    (hitem : Item literal x) : Spaced Item text x := by
  obtain ⟨hblank⟩ := h
  exact .mk hblank hitem

theorem Token.spaced_append {c : Char} {opener rest : List Char} {x : β} (h : Token [c] opener)
    (hitem : Item (c :: rest) x) : Spaced Item (opener ++ rest) x := by
  obtain ⟨hblank⟩ := h
  rw [List.append_assoc]
  exact .mk hblank hitem

-- What stands between brackets, with another node in place of that of the brackets.
theorem Sound.map_brackets (hsound : Sound rules Item nodeOf item length) {opening closing : String}
    {first last : Char} (hopening : StartsWith opening first) (hclosing : StartsWith closing last)
    (honly : opening.toList = [first]) {f : Node Empty → Node Empty}
    (hf : ∀ node body closer items, Contents Item body items → Token closing.toList closer →
      (node.child 2).toChildren = items.map nodeOf →
        ∃ x, f node = .value x ∧ Written (first :: (body ++ closer)) x) :
    Sound rules (Spaced Written) .value
      (.map f (.seq [.exact opening, .cut, .many item (some comma) 0, .exact closing]))
      (length + 1) := by
  intro cursor node stop hlength hready hyields
  obtain ⟨inner, hseq, rfl⟩ := hyields.of_map
  obtain ⟨opener, body, closer, items, hopener, hbody, hcloser, hitems, hrest⟩ :=
    Sound.brackets hsound hopening hclosing hready hlength hseq
  obtain ⟨x, hx, hwritten⟩ := hf inner body closer items hbody hcloser hitems
  rw [honly] at hopener
  exact ⟨_, x, hopener.spaced_append hwritten, hx, hrest⟩

theorem sound_array (h : Sound rules (Spaced Written) .value (.rule "value") length) :
    Sound rules (Spaced Written) .value array (length + 1) := by
  refine Sound.map_brackets h ⟨rfl, rfl⟩ ⟨rfl, rfl⟩ rfl ?_
  intro node body closer items hbody hcloser hitems
  exact ⟨.list items, listOf_eq hitems, .array hbody hcloser⟩

theorem written_ofEntries {body closer : List Char} {properties : List (String × Value Empty)}
    (hbody : Contents (Property Written) body properties) (hcloser : Token ['\x7d'] closer) :
    Written ('\x7b' :: (body ++ closer)) (.ofEntries properties) :=
  .object hbody hcloser (SortedMap.sorted_ofEntries properties) fun key =>
    SortedMap.find?_ofEntries key properties

theorem sound_object (h : Sound rules (Spaced Written) .value (.rule "value") length) :
    Sound rules (Spaced Written) .value object (length + 1) := by
  refine Sound.map_brackets (sound_property h) ⟨rfl, rfl⟩ ⟨rfl, rfl⟩ rfl ?_
  intro node body closer properties hbody hcloser hproperties
  exact ⟨.ofEntries properties, mapOf_eq hproperties, written_ofEntries hbody hcloser⟩

theorem sound_keyword {word : String} {first : Char} {x : Value Empty}
    (hword : StartsWith word first) (hwritten : Written word.toList x) :
    Sound rules (Spaced Written) .value (.bind x (.exact word)) length := by
  intro cursor node stop _ hready hyields
  obtain ⟨inner, hexact, rfl⟩ := hyields.of_bind
  obtain ⟨literal, htoken, hrest, -⟩ := hready.exists_token_of_exact hword hexact
  exact ⟨_, _, htoken.spaced hwritten, rfl, hrest⟩

theorem sound_quoted : Sound rules (Spaced Written) .value (.quoted "\"") length := by
  intro cursor node stop _ hready hyields
  obtain ⟨body, text, literal, hspells, htoken, hrest, rfl⟩ := exists_token_of_string hready hyields
  exact ⟨_, _, htoken.spaced (.string hspells), rfl, hrest⟩

theorem sound_number : Sound rules (Spaced Written) .value .number length := by
  intro cursor node stop _ hready hyields
  obtain ⟨numeral, x, literal, hformed, hvalue, htoken, hrest, rfl⟩ :=
    hready.exists_token_of_number hyields
  exact ⟨_, _, htoken.spaced (.number hformed hvalue), rfl, hrest⟩

-- Every value that is read is one of the dialect, and it is read as what it stands for.
theorem sound_value (length : Nat) : Sound rules (Spaced Written) .value (.rule "value") length := by
  refine Sound.of_step (fun length ih => ?_) length
  refine Sound.rule (Sound.any fun alternative hmem => ?_) definition?_value
  simp only [List.mem_cons, List.not_mem_nil, or_false] at hmem
  rcases hmem with rfl | rfl | rfl | rfl | rfl | rfl | rfl
  · exact sound_keyword ⟨rfl, rfl⟩ .null
  · exact sound_keyword ⟨rfl, rfl⟩ .true
  · exact sound_keyword ⟨rfl, rfl⟩ .false
  · exact sound_quoted
  · exact sound_number
  · exact sound_array ih
  · exact sound_object ih

end Descent.Json
