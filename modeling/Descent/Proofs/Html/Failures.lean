import Descent.Proofs.Html.Parsing
import Descent.Proofs.ViablePrefixes

namespace Descent.Html

open Grammar Scanner Text
open Json (Blank Token token_self)

variable {length : Nat} {cursor middle stop : Cursor} {failure : Failure}

-- A name with the blanks before it.
def IsWord (others : Regex.CharClass) (text : List Char) : Prop :=
  ∃ name, IsName others name ∧ Token name text

theorem isWord_of_blank {blank : List Char} (others : Regex.CharClass) (h : Blank blank) :
    IsWord others (blank ++ ['a']) :=
  ⟨['a'], .mk rfl nofun, .mk h⟩

theorem viable_name {pattern : Regex} (others : Regex.CharClass) (hready : Ready cursor)
    (h : Yields rules (.scan (.regex pattern)) cursor (.error failure) stop) :
    Viable (IsWord others) cursor failure :=
  hready.viable_of_scan h rfl nofun fun _ hblank => ⟨['a'], isWord_of_blank others hblank⟩

theorem opening_of_word {opener word : List Char} (hopener : Token ['<'] opener)
    (hword : IsWord letterOrDigit word) : Stands Opening (opener ++ (word ++ ['>'])) := by
  obtain ⟨name, hname, htoken⟩ := hword
  exact ⟨_, .mk hopener hname htoken .nil nofun (token_self ['>'])⟩

theorem closing_of_word {opener word : List Char} (hopener : Token ['<', '/'] opener)
    (hword : IsWord letterOrDigit word) : Stands Closing (opener ++ (word ++ ['>'])) := by
  obtain ⟨name, hname, htoken⟩ := hword
  exact ⟨_, .mk hopener hname htoken (token_self ['>'])⟩

-- A body without elements can always be added.
theorem body_of_blank {blank : List Char} (h : Blank blank) :
    Stands (Body Written) (blank ++ ['<', '/', 'a', '>']) := by
  obtain ⟨name, hclosing⟩ := closing_of_word (.mk h) (isWord_of_blank _ Json.blank_nil)
  rw [List.append_assoc] at hclosing
  exact ⟨[], .closing hclosing⟩

theorem failsViably_opening : FailsViably rules Opening opening length := by
  intro cursor failure stop _ hready hyields
  obtain ⟨_, hfollow, -⟩ := hyields.follow_of_error
  obtain hopen | ⟨_, opened, hopen, hfollow⟩ := hfollow.of_cons_error
  · refine (hready.viable_of_exact startsWith_opening hopen).mono fun opener hopener => ?_
    exact ⟨_, opening_of_word hopener (isWord_of_blank _ Json.blank_nil)⟩
  obtain ⟨opener, hopener, hrest, -⟩ := hready.exists_token_of_exact startsWith_opening hopen
  have hopened := hready.of_yields hopen
  obtain hname | ⟨_, named, hname, hfollow⟩ := hfollow.of_cons_error
  · refine (viable_name letterOrDigit hopened hname).behind hopen.reaches hrest fun word hword => ?_
    refine ⟨['>'], ?_⟩
    rw [List.append_assoc]
    exact opening_of_word hopener hword
  obtain ⟨name, word, hformed, hword, hmore, -, hbehind⟩ :=
    exists_token_of_name expr_tagName hopened hname
  have hnamed := (hopened.of_yields hname).commit
  have hreaches := (hopen.reaches.trans hname.reaches).trans named.reaches_commit
  obtain hattributes | ⟨_, described, hattributes, hfollow⟩ := hfollow.of_cut_error.of_cons_error
  · have hwithdraws : Withdraws rules property := withdraws_seq_of_scans
      [.regex attributeName, .exact "=", .quoted "\"'"]
    exact absurd rfl (hwithdraws.not_repeats_error hnamed.mark_le
      hattributes.of_map_error.of_many_error)
  obtain hclose | ⟨_, _, -, hfollow⟩ := hfollow.of_cons_error
  · obtain ⟨inner, hmany, -⟩ := hattributes.of_map
    obtain ⟨nodes, -, hrepeats⟩ := hmany.of_many
    obtain ⟨body, entries, hbody, -, hinner⟩ :=
      sound_attribute.row hrepeats hnamed (Nat.lt_succ_self _) rfl
    have hinner : named.rest = body ++ described.rest := hinner
    rw [hinner] at hbehind
    have hhead := eq_false_of_head?_append hbehind
    rw [hmore, hinner, ← List.append_assoc, ← List.append_assoc] at hrest
    refine ((hnamed.of_yields hattributes).viable_of_exact startsWith_end hclose).behind
      (hreaches.trans hattributes.reaches) hrest fun closer hcloser => ?_
    refine exists_completion ⟨(String.ofList name, entries), ?_⟩
    rw [List.append_assoc, List.append_assoc]
    exact .mk hopener hformed hword hbody hhead hcloser
  · cases hfollow

theorem failsViably_closing : FailsViably rules Closing closing length := by
  intro cursor failure stop _ hready hyields
  obtain ⟨_, hfollow, -⟩ := hyields.follow_of_error
  obtain hopen | ⟨_, opened, hopen, hfollow⟩ := hfollow.of_cons_error
  · refine (hready.viable_of_exact startsWith_closing hopen).mono fun opener hopener => ?_
    exact ⟨_, closing_of_word hopener (isWord_of_blank _ Json.blank_nil)⟩
  obtain ⟨opener, hopener, hrest, -⟩ := hready.exists_token_of_exact startsWith_closing hopen
  have hopened := (hready.of_yields hopen).commit
  have hreaches := hopen.reaches.trans opened.reaches_commit
  obtain hname | ⟨_, named, hname, hfollow⟩ := hfollow.of_cut_error.of_cons_error
  · refine (viable_name letterOrDigit hopened hname).behind hreaches hrest fun word hword => ?_
    refine ⟨['>'], ?_⟩
    rw [List.append_assoc]
    exact closing_of_word hopener hword
  obtain ⟨name, word, hformed, hword, hmore, -, -⟩ :=
    exists_token_of_name expr_tagName hopened hname
  obtain hclose | ⟨_, _, -, hfollow⟩ := hfollow.of_cons_error
  · have hmore : opened.rest = word ++ named.rest := hmore
    rw [hmore, ← List.append_assoc] at hrest
    refine ((hopened.of_yields hname).viable_of_exact startsWith_end hclose).behind
      (hreaches.trans hname.reaches) hrest fun closer hcloser => ?_
    refine exists_completion ⟨String.ofList name, ?_⟩
    rw [List.append_assoc]
    exact .mk hopener hformed hword hcloser
  · cases hfollow

theorem failsViably_element (h : FailsViably rules Written (.rule "tag") length) :
    FailsViably rules (Body Written) element length := by
  refine FailsViably.any (List.cons_ne_nil _ _) fun alternative hmem => ?_
  simp only [List.mem_cons, List.not_mem_nil, or_false] at hmem
  rcases hmem with rfl | rfl
  · intro cursor failure stop _ hready hyields
    exact hready.viable_of_scan hyields.of_map_error rfl nofun fun _ hblank =>
      ⟨_, body_of_blank hblank⟩
  · intro cursor failure stop hlength hready hyields
    refine (h _ _ _ hlength hready hyields).mono ?_
    rintro text ⟨tag, htag⟩
    obtain ⟨items, hbody⟩ := body_of_blank Json.blank_nil
    exact ⟨_, _, .cons (.tag htag) hbody⟩

-- Where no text goes on, the beginning can be completed so that none does.
theorem Viable.bare (h : Viable (Stands (Body Written)) cursor failure) (hbare : Bare cursor.rest) :
    Viable (fun text => Stands (Body Written) text ∧ Bare text) cursor failure := by
  obtain ⟨text, more, completion, hrest, hpos, hbody⟩ := h
  cases text with
  | nil =>
      have hclosing : Bare ['<', '/', 'a', '>'] := by
        rintro _ ⟨⟩
        rfl
      exact ⟨[], more, _, hrest, hpos, body_of_blank Json.blank_nil, hclosing⟩
  | cons c text =>
      rw [hrest] at hbare
      exact ⟨c :: text, more, completion, hrest, hpos, hbody, hbare⟩

-- A body fails with a tag that has committed itself, or at its closing part. The elements before
-- that stay.
theorem viable_body {result : Except Failure (List (Node Tag))}
    (hviable : FailsViably rules Written (.rule "tag") length)
    (h : Repeats rules element none cursor result middle)
    (herror : ∀ other, result = .error other → other = failure)
    (hclosing : ∀ nodes, result = .ok nodes →
      ∃ stop, Yields rules closing middle (.error failure) stop)
    (hready : Ready cursor) (hlength : cursor.rest.length < length) :
    Viable (Stands (Body Written)) cursor failure := by
  induction h with
  | committed hitem =>
      obtain rfl := herror _ rfl
      exact failsViably_element hviable _ _ _ hlength hready hitem
  | ended hitem hmark =>
      obtain ⟨stop, hyields⟩ := hclosing _ rfl
      have hfails := failsViably_closing _ _ _ (Nat.lt_succ_self _)
        (hready.of_yields_error hitem hmark) hyields
      refine (hfails.of_place_eq (hitem.toPlace_eq hmark)).mono ?_
      rintro text ⟨name, htext⟩
      exact exists_completion ⟨[], .closing htext⟩
  | separatorCommitted _ hseparates | separatorEnded _ hseparates => cases hseparates.1
  | stuck hitem hseparates hstuck =>
      obtain ⟨-, rfl⟩ := hseparates
      exact absurd hstuck (Nat.ne_of_gt (consumes_element _ _ _ hitem))
  | @next _ _ _ _ behind result _ hitem hseparates _ _ ih =>
      obtain ⟨-, rfl⟩ := hseparates
      obtain ⟨text, item, hpart, -, hrest⟩ := sound_element (sound_tag length) hready hlength hitem
      have hle := hitem.reaches.place.rest_length_le
      have hlater : Viable (Stands (Body Written)) behind failure := by
        refine ih (fun other hother => ?_) (fun nodes hnodes => ?_) (hready.of_yields hitem)
          (by omega)
        · exact herror other (by rw [hother]; rfl)
        · exact hclosing _ (by rw [hnodes]; rfl)
      cases hpart with
      | text hblank hcontent hbare =>
          refine (Viable.bare hlater hbare).behind hitem.reaches hrest ?_
          rintro later ⟨⟨items, hitems⟩, hlaterBare⟩
          exact exists_completion ⟨_, .cons (.text hblank hcontent hlaterBare) hitems⟩
      | tag htag =>
          refine hlater.behind hitem.reaches hrest ?_
          rintro later ⟨items, hitems⟩
          exact exists_completion ⟨_, .cons (.tag htag) hitems⟩

-- Whatever is wrong with a text, what has been read of a tag by then can be completed to one.
theorem failsViably_tag (length : Nat) : FailsViably rules Written (.rule "tag") length := by
  refine FailsViably.of_step (fun length ih => ?_) length
  refine FailsViably.rule ?_ definition?_tag
  intro cursor failure stop hlength hready hyields
  obtain ⟨_, hfollow, -⟩ := hyields.of_map_error.follow_of_error
  obtain hopening | ⟨_, opened, hopening, hfollow⟩ := hfollow.of_cons_error
  · refine (failsViably_opening _ _ _ (Nat.lt_succ_self _) hready hopening).mono ?_
    rintro opener ⟨parts, hopener⟩
    obtain ⟨items, hbody⟩ := body_of_blank Json.blank_nil
    exact ⟨_, _, .mk hopener hbody⟩
  obtain ⟨opener, parts, hopener, -, hrest⟩ :=
    sound_opening _ _ _ (Nat.lt_succ_self _) hready hopening
  have hshorter := Nat.lt_of_lt_of_le (consumes_opening.rest_length_lt hopening)
    (Nat.le_of_lt_succ hlength)
  have hopened := (hready.of_yields hopening).commit
  have hbody : Viable (Stands (Body Written)) opened.commit failure := by
    obtain helements | ⟨_, filled, helements, hfollow⟩ := hfollow.of_cut_error.of_cons_error
    · refine viable_body ih helements.of_map_error.of_many_error ?_ nofun hopened hshorter
      rintro _ ⟨⟩
      rfl
    · obtain ⟨inner, hmany, -⟩ := helements.of_map
      obtain ⟨nodes, -, hrepeats⟩ := hmany.of_many
      refine viable_body ih hrepeats nofun (fun _ _ => ?_) hopened hshorter
      obtain hclosing | ⟨_, _, -, hfollow⟩ := hfollow.of_cons_error
      · exact ⟨_, hclosing⟩
      · cases hfollow
  refine hbody.behind (hopening.reaches.trans opened.reaches_commit) hrest ?_
  rintro body ⟨items, hitems⟩
  exact exists_completion ⟨_, .mk hopener hitems⟩

theorem hasViablePrefix_of_parse {input : String} {error : ParseError}
    (h : parse input = .error error) : HasViablePrefix parse input error :=
  hasViablePrefix_of_lengths rules_rankedBy Written.pad sound_tag failsViably_tag
    parse_of_isDocument (parseAll_eq_error_of_parse h)

end Descent.Html
