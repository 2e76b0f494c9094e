import Descent.Proofs.Json.Dialect
import Descent.Proofs.Places
import Descent.Proofs.Yields

namespace Descent.Json

open Scanner Text

variable {blank literal text rest : List Char}

-- What follows the blanks ahead.
def significant (text : List Char) : List Char := text.dropWhile isAsciiBlank

theorem exists_blank_append_significant (text : List Char) :
    ∃ blank, Blank blank ∧ text = blank ++ significant text :=
  ⟨text.takeWhile isAsciiBlank, List.all_eq_true.mp List.all_takeWhile,
    List.takeWhile_append_dropWhile.symm⟩

theorem significant_append (hblank : Blank blank)
    (hhead : ∀ c ∈ text.head?, isAsciiBlank c = false) : significant (blank ++ text) = text :=
  dropWhile_append_of_head hblank hhead

theorem significant_eq_nil_iff : significant text = [] ↔ Blank text := by
  constructor
  · intro h
    obtain ⟨blank, hblank, happend⟩ := exists_blank_append_significant text
    rwa [happend, h, List.append_nil]
  · intro h
    rw [← List.append_nil text]
    exact significant_append h nofun

theorem blank_nil : Blank [] := nofun

theorem Blank.append (h : Blank blank) (htext : Blank text) : Blank (blank ++ text) :=
  fun c hc => (List.mem_append.mp hc).elim (h c) (htext c)

theorem Blank.head?_significant {c : Char} (h : Blank blank) (hc : isAsciiBlank c = false) :
    (significant (blank ++ c :: text)).head? = some c := by
  rw [significant_append h]
  · rfl
  · rintro _ ⟨⟩
    exact hc

theorem Token.length_le (h : Token literal text) : literal.length ≤ text.length := by
  obtain ⟨hblank⟩ := h
  simp

theorem token_self (literal : List Char) : Token literal literal := .mk blank_nil

theorem Token.of_blank (h : Token literal text) (hblank : Blank blank) :
    Token literal (blank ++ text) := by
  obtain ⟨hinner⟩ := h
  rw [← List.append_assoc]
  exact .mk (hblank.append hinner)

-- What follows does not go on with a number.
def Delimited (rest : List Char) : Prop := ∀ c ∈ rest.head?, Numeral.prolongs c = false

-- Blanks are not in any number.
theorem not_continues_of_isAsciiBlank {c : Char} (h : isAsciiBlank c) :
    Numeral.continues c = false :=
  isAsciiBlank_cases h ⟨rfl, rfl, rfl, rfl, rfl, rfl⟩

theorem not_isAsciiBlank_of_continues {c : Char} (h : Numeral.continues c) :
    isAsciiBlank c = false :=
  isAsciiBlank_eq_false (fun _ => not_continues_of_isAsciiBlank) h

theorem not_prolongs_of_isAsciiBlank {c : Char} (h : isAsciiBlank c) :
    Numeral.prolongs c = false :=
  isAsciiBlank_cases h ⟨rfl, rfl, rfl, rfl, rfl, rfl⟩

-- Blanks do not go on with anything that has no blanks in it.
theorem Blank.head?_append {accepts : Char → Bool} (h : Blank blank)
    (hsolid : ∀ c, isAsciiBlank c → accepts c = false)
    (hrest : ∀ c ∈ rest.head?, accepts c = false) :
    ∀ c ∈ (blank ++ rest).head?, accepts c = false := by
  cases blank with
  | nil => exact hrest
  | cons first blank =>
      rintro c ⟨⟩
      exact hsolid first (h first List.mem_cons_self)

theorem Blank.delimited_append (h : Blank blank) (hrest : Delimited rest) :
    Delimited (blank ++ rest) :=
  h.head?_append (fun _ => not_prolongs_of_isAsciiBlank) hrest

theorem Blank.delimited (h : Blank blank) : Delimited blank := by
  rw [← List.append_nil blank]
  refine h.delimited_append ?_
  rintro _ ⟨⟩

-- The literal starts with this character, and it is no blank.
structure StartsWith (word : String) (first : Char) : Prop where
  head : word.toList.head? = some first
  solid : isAsciiBlank first = false

section Literals

variable {word : String} {first : Char} (hword : StartsWith word first)

include hword

theorem exists_toList_eq : ∃ text, word.toList = first :: text :=
  List.head?_eq_some_iff.mp hword.head

theorem Token.head?_significant (h : Token word.toList literal) (rest : List Char) :
    (significant (literal ++ rest)).head? = some first := by
  obtain ⟨hblank⟩ := h
  obtain ⟨text, htext⟩ := exists_toList_eq hword
  rw [List.append_assoc, htext]
  exact hblank.head?_significant hword.solid

theorem Token.head?_append {accepts : Char → Bool} (h : Token word.toList literal)
    (hsolid : ∀ c, isAsciiBlank c → accepts c = false) (hfirst : accepts first = false)
    (rest : List Char) : ∀ c ∈ (literal ++ rest).head?, accepts c = false := by
  obtain ⟨hblank⟩ := h
  obtain ⟨text, htext⟩ := exists_toList_eq hword
  rw [List.append_assoc, htext]
  refine hblank.head?_append hsolid ?_
  rintro _ ⟨⟩
  exact hfirst

theorem Token.delimited (h : Token word.toList literal) (hfirst : Numeral.prolongs first = false)
    (rest : List Char) : Delimited (literal ++ rest) :=
  h.head?_append hword (fun _ => not_prolongs_of_isAsciiBlank) hfirst rest

end Literals

end Descent.Json

namespace Descent.Grammar

open Scanner Text
open Json (Blank Token StartsWith Delimited significant exists_blank_append_significant
  significant_append not_isAsciiBlank_of_continues)

variable {α : Type} {rules : Rules α} {cursor stop : Cursor} {scanner : Scanner} {node : Node α}
  {failure : Failure} {literal rest : List Char}

-- ASCII blanks are skipped here, and the cursor is at its mark or behind it.
structure Ready (cursor : Cursor) : Prop where
  policy : cursor.policy = .ascii
  autoSkip : cursor.autoSkip = true
  mark_le : cursor.mark ≤ cursor.pos

theorem Ready.of_reaches (h : Ready cursor) (hreaches : cursor.Reaches stop)
    (hmark : stop.mark ≤ stop.pos) : Ready stop :=
  ⟨hreaches.policy.trans h.policy, hreaches.autoSkip.trans h.autoSkip, hmark⟩

theorem Ready.of_yields {grammar : Grammar α} (h : Ready cursor)
    (hyields : Yields rules grammar cursor (.ok node) stop) : Ready stop :=
  h.of_reaches hyields.reaches (hyields.mark_le h.mark_le)

theorem Ready.of_yields_error {grammar : Grammar α} (h : Ready cursor)
    (hyields : Yields rules grammar cursor (.error failure) stop)
    (hmark : stop.mark ≤ cursor.pos) : Ready stop := by
  have hpos : stop.pos = cursor.pos := congrArg Place.pos (hyields.toPlace_eq hmark)
  exact h.of_reaches hyields.reaches (hpos ▸ hmark)

theorem Ready.commit (h : Ready cursor) : Ready cursor.commit :=
  ⟨h.policy, h.autoSkip, Nat.max_le.mpr ⟨h.mark_le, Nat.le_refl _⟩⟩

theorem Ready.skips_eq (h : Ready cursor) : cursor.skips = isAsciiBlank := by
  funext c
  simp [Cursor.skips, h.policy, h.autoSkip, Whitespace.accepts]

theorem Ready.skipBlank (h : Ready cursor) : Ready cursor.skipBlank :=
  h.of_reaches cursor.reaches_skipBlank
    (Nat.le_trans h.mark_le cursor.reaches_skipBlank.pos_le)

theorem Ready.rest_skipBlank (h : Ready cursor) :
    cursor.skipBlank.rest = significant cursor.rest := by
  rw [Cursor.skipBlank, h.skips_eq]
  rfl

section Scan

variable (h : Ready cursor) (hkeeps : scanner.keepsBlank isAsciiBlank = false)

include h hkeeps

theorem Ready.scanStart_eq : scanStart scanner cursor = cursor.skipBlank := by
  simp [scanStart, h.skips_eq, hkeeps]

-- A scanner that matches reads a token.
theorem Ready.exists_token (hyields : Yields rules (.scan scanner) cursor (.ok node) stop) :
    ∃ lexeme literal, scanner.lex .ascii (significant cursor.rest) = .ok lexeme ∧
      Token lexeme.consumed literal ∧ cursor.rest = literal ++ stop.rest ∧ lexeme.node = node := by
  obtain ⟨hresult, hstop⟩ := yields_scan_iff.mp hyields
  simp only [attemptScan, h.policy, h.scanStart_eq hkeeps, h.rest_skipBlank] at hresult hstop
  cases hlex : scanner.lex (α := α) .ascii (significant cursor.rest) with
  | error miss => simp [hlex, Outcome.failed] at hresult
  | ok lexeme =>
      rw [hlex] at hresult hstop
      obtain ⟨blank, hblank, hrest⟩ := exists_blank_append_significant cursor.rest
      rw [← Scanner.consumed_append_of_lex hlex, ← List.append_assoc] at hrest
      refine ⟨lexeme, _, rfl, .mk hblank, ?_, ?_⟩
      · rw [hrest, ← hstop]
        rfl
      · simpa [Outcome.ok] using hresult

theorem Ready.yields_scan {lexeme : Lexeme α}
    (hlex : scanner.lex .ascii (significant cursor.rest) = .ok lexeme) :
    ∃ stop, Yields rules (.scan scanner) cursor (.ok lexeme.node) stop ∧
      stop.rest = lexeme.rest ∧ Ready stop := by
  obtain ⟨stop, hscan, hrest⟩ : ∃ stop,
      attemptScan (α := α) scanner cursor = .ok lexeme.node stop ∧ stop.rest = lexeme.rest := by
    simp only [attemptScan, h.policy, h.scanStart_eq hkeeps, h.rest_skipBlank, hlex]
    exact ⟨_, rfl, rfl⟩
  have hyields : Yields rules (.scan scanner) cursor (.ok lexeme.node) stop := by
    rw [yields_scan_iff, hscan]
    exact ⟨rfl, rfl⟩
  exact ⟨stop, hyields, hrest, h.of_yields hyields⟩

theorem Ready.rest_eq_of_lex {lexeme : Lexeme α}
    (hyields : Yields rules (.scan scanner) cursor (.ok node) stop)
    (hlex : scanner.lex .ascii (significant cursor.rest) = .ok lexeme) :
    stop.rest = lexeme.rest := by
  obtain ⟨other, hother, hrest, -⟩ := h.yields_scan hkeeps hlex
  obtain ⟨-, rfl⟩ := hyields.unique hother
  exact hrest

-- A scanner that fails reports a place behind the blanks ahead, and the cursor stays.
theorem Ready.exists_miss (hyields : Yields rules (.scan scanner) cursor (.error failure) stop) :
    ∃ blank miss, Blank blank ∧ cursor.rest = blank ++ significant cursor.rest ∧
      scanner.lex (α := α) .ascii (significant cursor.rest) = .error miss ∧
      failure.pos = cursor.pos + byteSize blank + miss.offset ∧ stop = cursor := by
  obtain ⟨hresult, hstop⟩ := yields_scan_iff.mp hyields
  have hpos : cursor.skipBlank.pos = cursor.pos + byteSize (cursor.rest.takeWhile isAsciiBlank) := by
    rw [Cursor.skipBlank, h.skips_eq]
    rfl
  simp only [attemptScan, h.policy, h.scanStart_eq hkeeps, h.rest_skipBlank, hpos] at hresult hstop
  cases hlex : scanner.lex (α := α) .ascii (significant cursor.rest) with
  | ok lexeme => simp [hlex, Outcome.ok] at hresult
  | error miss =>
      rw [hlex] at hresult hstop
      cases hresult
      exact ⟨_, miss, List.all_eq_true.mp List.all_takeWhile,
        List.takeWhile_append_dropWhile.symm, rfl, rfl, hstop.symm⟩

end Scan

-- The scanner matches only where one of these characters is.
def Opens (α : Type) (opens : Char → Bool) (scanner : Scanner) : Prop :=
  ∀ text (lexeme : Lexeme α), scanner.lex .ascii text = .ok lexeme → ∃ c ∈ text.head?, opens c

-- Where another character is, or none, it fails and the cursor stays.
theorem Ready.misses_scan {opens : Char → Bool} (h : Ready cursor)
    (hkeeps : scanner.keepsBlank isAsciiBlank = false) (hopens : Opens α opens scanner)
    (hhead : ∀ c ∈ (significant cursor.rest).head?, opens c = false) :
    Misses rules (.scan scanner) cursor := by
  obtain ⟨failure, hscan⟩ : ∃ failure,
      attemptScan (α := α) scanner cursor = .failed failure cursor := by
    simp only [attemptScan, h.policy, h.scanStart_eq hkeeps, h.rest_skipBlank]
    cases hlex : scanner.lex (α := α) .ascii (significant cursor.rest) with
    | error miss => exact ⟨_, rfl⟩
    | ok lexeme =>
        obtain ⟨first, hfirst, hopen⟩ := hopens _ _ hlex
        cases (hhead first hfirst).symm.trans hopen
  refine ⟨failure, ?_⟩
  rw [yields_scan_iff, hscan]
  exact ⟨rfl, rfl⟩

theorem Ready.misses_of_head {opens : Char → Bool} {c : Char} (h : Ready cursor)
    (hhead : (significant cursor.rest).head? = some c)
    (hkeeps : scanner.keepsBlank isAsciiBlank = false) (hopens : Opens α opens scanner)
    (hc : opens c = false) : Misses rules (.scan scanner) cursor := by
  refine h.misses_scan hkeeps hopens fun other hother => ?_
  cases hhead.symm.trans hother
  exact hc

section Literals

variable {word : String} {first : Char} (hword : StartsWith word first)

include hword

theorem opens_exact : Opens α (· == first) (.exact word) := by
  intro text lexeme hlex
  have happend := Scanner.consumed_append_of_lex hlex
  rw [eq_token_of_lex_exact hlex] at happend
  refine ⟨first, ?_, beq_self_eq_true first⟩
  rw [← happend, Lexeme.token, List.head?_append, hword.head]
  rfl

theorem consumes_exact : Consumes rules (.exact word) := by
  refine consumes_of_not_passable ?_
  rintro ⟨hempty⟩
  obtain ⟨text, htext⟩ := Json.exists_toList_eq hword
  have hnil : word.toList = [] := congrArg String.toList hempty
  cases htext.symm.trans hnil

theorem keepsBlank_exact : (Scanner.exact word).keepsBlank isAsciiBlank = false := by
  simp [Scanner.keepsBlank, hword.head, hword.solid]

theorem Ready.exists_token_of_exact (h : Ready cursor)
    (hyields : Yields rules (.exact word) cursor (.ok node) stop) :
    ∃ literal, Token word.toList literal ∧ cursor.rest = literal ++ stop.rest ∧
      node = .token word := by
  obtain ⟨lexeme, literal, hlex, htoken, hrest, hnode⟩ :=
    h.exists_token (keepsBlank_exact hword) hyields
  rw [eq_token_of_lex_exact hlex] at htoken hnode
  refine ⟨literal, htoken, hrest, ?_⟩
  rw [← hnode, Lexeme.token, String.ofList_toList]

theorem Ready.misses_exact {c : Char} (h : Ready cursor)
    (hhead : (significant cursor.rest).head? = some c) (hc : (c == first) = false) :
    Misses rules (.exact word) cursor :=
  h.misses_of_head hhead (keepsBlank_exact hword) (opens_exact hword) hc

theorem Ready.yields_exact (h : Ready cursor) (htoken : Token word.toList literal)
    (hrest : cursor.rest = literal ++ rest) :
    ∃ stop, Yields rules (.exact word) cursor (.ok (.token word)) stop ∧ stop.rest = rest ∧
      Ready stop := by
  obtain ⟨hblank⟩ := htoken
  have hsignificant : significant cursor.rest = word.toList ++ rest := by
    rw [hrest, List.append_assoc]
    refine significant_append hblank fun c hc => ?_
    rw [List.head?_append, hword.head] at hc
    cases hc
    exact hword.solid
  have hlex : lex (α := α) .ascii (significant cursor.rest) (.exact word) = _ :=
    hsignificant ▸ lex_exact_append word rest
  obtain ⟨stop, hyields, hstop⟩ := h.yields_scan (keepsBlank_exact hword) hlex
  rw [Lexeme.token, String.ofList_toList] at hyields
  exact ⟨stop, hyields, hstop⟩

end Literals

section Quoted

variable {quotes : String} (hquotes : '\\' ∉ quotes.toList)

include hquotes

theorem opens_quoted : Opens α quotes.toList.contains (.quoted quotes) := by
  intro text lexeme hlex
  obtain ⟨quote, body, value, rest, hmem, -, rfl, -⟩ := (Quoted.scan_eq_ok_iff hquotes).mp hlex
  exact ⟨quote, rfl, List.contains_iff_mem.mpr hmem⟩

theorem Ready.exists_token_of_quoted (h : Ready cursor)
    (hyields : Yields rules (.quoted quotes) cursor (.ok node) stop) :
    ∃ quote body text literal, quote ∈ quotes.toList ∧ Quoted.Spells quote body text ∧
      Token (quote :: (body ++ [quote])) literal ∧ cursor.rest = literal ++ stop.rest ∧
      node = .value (.str (String.ofList text)) := by
  obtain ⟨lexeme, literal, hlex, htoken, hrest, rfl⟩ := h.exists_token rfl hyields
  obtain ⟨quote, body, value, rest, hmem, hspells, -, rfl⟩ :=
    (Quoted.scan_eq_ok_iff hquotes).mp hlex
  exact ⟨quote, body, value, literal, hmem, hspells, htoken, hrest, rfl⟩

theorem Ready.yields_quoted (h : Ready cursor) {quote : Char} {body text : List Char}
    (hmem : quote ∈ quotes.toList) (hsolid : isAsciiBlank quote = false)
    (hspells : Quoted.Spells quote body text) (htoken : Token (quote :: (body ++ [quote])) literal)
    (hrest : cursor.rest = literal ++ rest) :
    ∃ stop,
      Yields rules (.quoted quotes) cursor (.ok (.value (.str (String.ofList text)))) stop ∧
        stop.rest = rest ∧ Ready stop := by
  obtain ⟨hblank⟩ := htoken
  have hsignificant : significant cursor.rest = quote :: (body ++ quote :: rest) := by
    rw [hrest, List.append_assoc, significant_append hblank]
    · simp
    · rintro c ⟨⟩
      exact hsolid
  have hlex : lex (α := α) .ascii (significant cursor.rest) (.quoted quotes) = .ok _ :=
    (Quoted.scan_eq_ok_iff hquotes).mpr ⟨quote, body, text, rest, hmem, hspells, hsignificant, rfl⟩
  exact h.yields_scan rfl hlex

end Quoted

theorem opens_number : Opens α Numeral.continues .number := by
  intro text lexeme hlex
  have happend := Scanner.consumed_append_of_lex hlex
  obtain ⟨numeral, value, hformed, hvalue, hconsumed, -⟩ := denotes_of_lex_number hlex
  obtain ⟨c, rest, htext, hcontinues⟩ := Numeral.exists_text_eq_cons hformed hvalue
  rw [← happend, hconsumed, htext]
  exact ⟨c, rfl, hcontinues⟩

theorem Ready.exists_token_of_number (h : Ready cursor)
    (hyields : Yields rules .number cursor (.ok node) stop) :
    ∃ (numeral : Numeral) (value : Value α) (literal : List Char),
      numeral.WellFormed ∧ numeral.Denotes value ∧ Token numeral.text literal ∧
        cursor.rest = literal ++ stop.rest ∧ node = .value value := by
  obtain ⟨lexeme, literal, hlex, htoken, hrest, rfl⟩ := h.exists_token rfl hyields
  obtain ⟨numeral, value, hformed, hvalue, hconsumed, hnode⟩ := denotes_of_lex_number hlex
  exact ⟨numeral, value, literal, hformed, hvalue, hconsumed ▸ htoken, hrest, hnode⟩

theorem Ready.yields_number (h : Ready cursor) {numeral : Numeral} {value : Value α}
    (hformed : numeral.WellFormed) (hvalue : numeral.Denotes value)
    (htoken : Token numeral.text literal) (hrest : cursor.rest = literal ++ rest)
    (hdelimited : Delimited rest) :
    ∃ stop, Yields rules .number cursor (.ok (.value value)) stop ∧ stop.rest = rest ∧
      Ready stop := by
  obtain ⟨hblank⟩ := htoken
  obtain ⟨c, text, htext, hcontinues⟩ := Numeral.exists_text_eq_cons hformed hvalue
  have hsignificant : significant cursor.rest = numeral.text ++ rest := by
    rw [hrest, List.append_assoc, significant_append hblank]
    rw [htext]
    rintro _ ⟨⟩
    exact not_isAsciiBlank_of_continues hcontinues
  have hlex : lex .ascii (significant cursor.rest) .number = _ :=
    hsignificant ▸ lex_number_append hformed hvalue hdelimited
  exact h.yields_scan rfl hlex

end Descent.Grammar
