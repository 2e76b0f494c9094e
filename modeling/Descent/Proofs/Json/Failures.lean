import Descent.Proofs.Json.Decode

namespace Descent.Json

open Grammar Scanner Text

variable {β : Type} {Item : List Char → β → Prop} {nodeOf : β → Node Empty} {item : Document}
  {length : Nat} {cursor stop : Cursor} {failure : Failure}

-- What stands between brackets, with them.
inductive Bracketed (Item : List Char → β → Prop) (opening closing : String) : List Char → Prop
  | mk {opener body closer items} :
      Token opening.toList opener → Contents Item body items → Token closing.toList closer →
      Bracketed Item opening closing (opener ++ (body ++ closer))

section Brackets

variable (hsound : Sound rules Item nodeOf item length)
variable (hviable : FailsViably rules Item item length)

include hsound hviable

-- A list fails with an item that has committed itself. The items before it stay, and so does a
-- comma; the rest of the item can be added.
theorem FailsViably.contents {result : Except Failure (List (Node Empty))}
    (h : Repeats rules item (some comma) cursor result stop) (hready : Ready cursor)
    (hlength : cursor.rest.length < length) (hresult : result = .error failure) :
    Viable (Stands (Contents Item)) cursor failure := by
  induction h with
  | committed hitem =>
      cases hresult
      refine (hviable _ _ _ hlength hready hitem).mono ?_
      rintro text ⟨x, hx⟩
      exact exists_completion ⟨[x], .listed (.one hx)⟩
  | ended | separatorEnded | stuck => cases hresult
  | separatorCommitted hitem hseparates hmark =>
      have hmiddle := hready.of_yields hitem
      obtain ⟨-, -, -, -, -, -, rfl⟩ :=
        hmiddle.exists_miss (keepsBlank_exact startsWith_comma) hseparates
      exact absurd hmiddle.mark_le (Nat.not_le_of_lt hmark)
  | @next _ _ _ _ behind result _ hitem hseparates _ _ ih =>
      cases result with
      | ok _ => cases hresult
      | error _ =>
          cases hresult
          obtain ⟨text, x, hx, -, hrest⟩ := hsound _ _ _ hlength hready hitem
          have hmiddle := hready.of_yields hitem
          obtain ⟨comma, hcomma, hmore, -⟩ :=
            hmiddle.exists_token_of_exact startsWith_comma hseparates
          have hreaches := hitem.reaches.trans hseparates.reaches
          have hle := hreaches.place.rest_length_le
          have hlater := ih (hmiddle.of_yields hseparates) (by omega) rfl
          rw [hmore, ← List.append_assoc] at hrest
          refine hlater.behind hreaches hrest ?_
          rintro later ⟨items, hitems⟩
          exact exists_completion ⟨x :: items, hitems.cons hx hcomma⟩

theorem FailsViably.brackets {opening closing : String} {first last : Char}
    (hopening : StartsWith opening first) (hclosing : StartsWith closing last)
    (hready : Ready cursor) (hlength : cursor.rest.length < length + 1)
    (h : Yields rules (.seq [.exact opening, .cut, .many item (some comma) 0, .exact closing])
      cursor (.error failure) stop) :
    Viable (Bracketed Item opening closing) cursor failure := by
  obtain ⟨_, hfollow, -⟩ := h.follow_of_error
  obtain hopen | ⟨_, inside, hopen, hfollow⟩ := hfollow.of_cons_error
  · refine hready.viable_of_scan hopen (keepsBlank_exact hopening) nofun fun blank hblank => ?_
    refine ⟨opening.toList ++ closing.toList, ?_⟩
    rw [← List.append_assoc]
    exact .mk (.mk hblank) .empty (token_self _)
  obtain ⟨opener, hopener, hrest, -⟩ := hready.exists_token_of_exact hopening hopen
  have hinside := (hready.of_yields hopen).commit
  have hreaches := hopen.reaches.trans inside.reaches_commit
  have hshorter := Nat.lt_of_lt_of_le ((consumes_exact hopening).rest_length_lt hopen)
    (Nat.le_of_lt_succ hlength)
  obtain hmany | ⟨_, outside, hmany, hfollow⟩ := hfollow.of_cut_error.of_cons_error
  · have hinner :=
      FailsViably.contents hsound hviable hmany.of_many_error hinside hshorter rfl
    refine hinner.behind hreaches hrest ?_
    rintro body ⟨items, hbody⟩
    refine ⟨closing.toList, ?_⟩
    rw [List.append_assoc]
    exact .mk hopener hbody (token_self _)
  obtain hclose | ⟨_, _, -, hfollow⟩ := hfollow.of_cons_error
  · obtain ⟨nodes, -, hrepeats⟩ := hmany.of_many
    obtain ⟨body, items, hbody, -, hinner⟩ := Sound.contents hsound hrepeats hinside hshorter rfl
    have houtside := hinside.of_yields hmany
    have hcloser := houtside.viable_of_exact hclosing hclose
    have hinner : inside.rest = body ++ outside.rest := hinner
    rw [hinner, ← List.append_assoc] at hrest
    refine hcloser.behind (hreaches.trans hmany.reaches) hrest fun closer hcloser => ?_
    refine exists_completion ?_
    rw [List.append_assoc]
    exact .mk hopener hbody hcloser
  · cases hfollow

end Brackets

-- A string between quotes, with the blanks before it.
def IsString (text : List Char) : Prop :=
  ∃ body value, Quoted.Spells '"' body value ∧ Token ('"' :: (body ++ ['"'])) text

-- A string fails before it starts, or behind the marker of a code.
theorem viable_string (hready : Ready cursor)
    (h : Yields rules (.quoted "\"") cursor (.error failure) stop) :
    Viable IsString cursor failure := by
  obtain ⟨blank, miss, hblank, hrest, hlex, hpos, -⟩ := hready.exists_miss rfl h
  obtain hoffset | ⟨quote, literal, more, value, hquote, htext, hoffset, hspells⟩ :=
    Quoted.offset_of_scan hlex
  · refine ⟨blank, _, ['"', '"'], hrest, ?_, [], [], .nil, .mk hblank⟩
    rw [hpos, hoffset, Nat.add_zero]
  · obtain rfl : quote = '"' := by simpa using hquote
    refine ⟨blank ++ '"' :: literal, more, ['0', '0', '0', '0', '"'], ?_, ?_, _, value, hspells, ?_⟩
    · rw [hrest, htext]
      simp
    · rw [hpos, hoffset, byteSize_append, Nat.add_assoc]
    · have htoken : Token ('"' :: (literal ++ ['0', '0', '0', '0'] ++ ['"'])) _ := .mk hblank
      simpa using htoken

theorem spaced_null {blank : List Char} (h : Blank blank) :
    Spaced Written (blank ++ "null".toList) .null := .mk h .null

theorem failsViably_property (h : FailsViably rules (Spaced Written) (.rule "value") length) :
    FailsViably rules (Property Written) property length := by
  intro cursor failure stop hlength hready hyields
  obtain ⟨_, hfollow, -⟩ := hyields.follow_of_error
  obtain hkey | ⟨_, keyed, hkey, hfollow⟩ := hfollow.of_cons_error
  · refine (viable_string hready hkey).mono ?_
    rintro text ⟨body, key, hspells, htoken⟩
    have hproperty := Property.mk hspells htoken (token_self [':']) (spaced_null blank_nil)
    rw [List.append_assoc] at hproperty
    exact ⟨_, _, hproperty⟩
  obtain ⟨body, key, literal, hspells, hliteral, hrest, -⟩ := exists_token_of_string hready hkey
  have hcommitted := (hready.of_yields hkey).commit
  have hreaches := hkey.reaches.trans keyed.reaches_commit
  obtain hcolon | ⟨_, separated, hcolon, hfollow⟩ := hfollow.of_cut_error.of_cons_error
  · have hmissed := hcommitted.viable_of_exact ⟨rfl, rfl⟩ hcolon
    refine hmissed.behind hreaches hrest fun colon hcolon => ?_
    exact ⟨_, _, .mk hspells hliteral hcolon (spaced_null blank_nil)⟩
  obtain ⟨colon, htoken, hmore, -⟩ := hcommitted.exists_token_of_exact ⟨rfl, rfl⟩ hcolon
  have hreaches := hreaches.trans hcolon.reaches
  obtain hvalue | ⟨_, _, -, hfollow⟩ := hfollow.of_cons_error
  · have hmore : keyed.rest = colon ++ separated.rest := hmore
    have hle := hreaches.place.rest_length_le
    have hfails := h _ _ _ (by omega) (hcommitted.of_yields hcolon) hvalue
    rw [hmore, ← List.append_assoc] at hrest
    refine hfails.behind hreaches hrest ?_
    rintro text ⟨x, hx⟩
    exact exists_completion ⟨_, .mk hspells hliteral htoken hx⟩
  · cases hfollow

theorem failsViably_keyword {word : String} {first : Char} {x : Value Empty}
    (hword : StartsWith word first) :
    FailsViably rules (Spaced Written) (.bind x (.exact word)) length := by
  intro cursor failure stop _ hready hyields
  exact hready.viable_of_scan hyields.of_bind_error (keepsBlank_exact hword) nofun
    fun blank hblank => ⟨"null".toList, .null, spaced_null hblank⟩

theorem failsViably_string : FailsViably rules (Spaced Written) (.quoted "\"") length := by
  intro cursor failure stop _ hready hyields
  refine (viable_string hready hyields).mono ?_
  rintro text ⟨body, value, hspells, htoken⟩
  exact exists_completion ⟨_, htoken.spaced (.string hspells)⟩

theorem failsViably_number : FailsViably rules (Spaced Written) .number length := by
  intro cursor failure stop _ hready hyields
  exact hready.viable_of_scan hyields rfl nofun fun blank hblank =>
    ⟨"null".toList, .null, spaced_null hblank⟩

theorem failsViably_array (h : FailsViably rules (Spaced Written) (.rule "value") length) :
    FailsViably rules (Spaced Written) array (length + 1) := by
  intro cursor failure stop hlength hready hyields
  have hbrackets := FailsViably.brackets (sound_value length) h (⟨rfl, rfl⟩ : StartsWith "[" '[')
    (⟨rfl, rfl⟩ : StartsWith "]" ']') hready hlength hyields.of_map_error
  refine hbrackets.mono ?_
  rintro _ ⟨hopener, hbody, hcloser⟩
  exact exists_completion ⟨_, Token.spaced_append hopener (.array hbody hcloser)⟩

theorem failsViably_object (h : FailsViably rules (Spaced Written) (.rule "value") length) :
    FailsViably rules (Spaced Written) object (length + 1) := by
  intro cursor failure stop hlength hready hyields
  have hbrackets := FailsViably.brackets (sound_property (sound_value length))
    (failsViably_property h) (⟨rfl, rfl⟩ : StartsWith "\x7b" '\x7b')
    (⟨rfl, rfl⟩ : StartsWith "\x7d" '\x7d') hready hlength hyields.of_map_error
  refine hbrackets.mono ?_
  rintro _ ⟨hopener, hbody, hcloser⟩
  exact exists_completion ⟨_, Token.spaced_append hopener (written_ofEntries hbody hcloser)⟩

-- Whatever is wrong with a text, what has been read of a value by then can be completed to one.
theorem failsViably_value (length : Nat) :
    FailsViably rules (Spaced Written) (.rule "value") length := by
  refine FailsViably.of_step (fun length ih => ?_) length
  refine FailsViably.rule (FailsViably.any (List.cons_ne_nil _ _) fun alternative hmem => ?_)
    definition?_value
  simp only [List.mem_cons, List.not_mem_nil, or_false] at hmem
  rcases hmem with rfl | rfl | rfl | rfl | rfl | rfl | rfl
  · exact failsViably_keyword ⟨rfl, rfl⟩
  · exact failsViably_keyword ⟨rfl, rfl⟩
  · exact failsViably_keyword ⟨rfl, rfl⟩
  · exact failsViably_string
  · exact failsViably_number
  · exact failsViably_array ih
  · exact failsViably_object ih

theorem Spaced.pad {blank text : List Char} {x : β} (hblank : Blank blank)
    (h : Spaced Item text x) : Spaced Item (blank ++ text) x := by
  obtain ⟨hinner, hitem⟩ := h
  rw [← List.append_assoc]
  exact .mk (hblank.append hinner) hitem

theorem hasViablePrefix_of_decode {input : String} {error : ParseError}
    (h : decode input = .error error) : HasViablePrefix decode input error :=
  hasViablePrefix_of_lengths rules_rankedBy Spaced.pad sound_value failsViably_value
    decode_of_isDocument (parseAll_eq_error_of_map h)

end Descent.Json
