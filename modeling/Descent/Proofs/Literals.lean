import Descent.Proofs.Lexemes
import Descent.Proofs.Yields

namespace Descent

namespace Scanner.Quoted

open Text

-- What stands between the quotes of a literal, one character that it stands for after the other.
inductive Piece where
  | plain (c : Char)
  -- a character behind a backslash
  | escaped (c : Char)
  -- four hexadecimal digits behind `\u`
  | code (a b c d : Char)
  deriving DecidableEq, Repr

-- The hexadecimal digits, in the order of what they stand for. Letters may be of either case.
def hexDigits : List Char :=
  ['0', '1', '2', '3', '4', '5', '6', '7', '8', '9', 'a', 'b', 'c', 'd', 'e', 'f']

def digitValue (c : Char) : Nat := hexDigits.idxOf c.toLower

def codePoint (a b c d : Char) : Nat :=
  4096 * digitValue a + 256 * digitValue b + 16 * digitValue c + digitValue d

namespace Piece

def text : Piece → List Char
  | plain c => [c]
  | escaped c => ['\\', c]
  | code a b c d => ['\\', 'u', a, b, c, d]

-- Whether it can stand between such quotes.
def Fits (quote : Char) : Piece → Prop
  | plain c => c ≠ quote ∧ c ≠ '\\'
  | escaped c => c ≠ 'u'
  | code a b c d => ∀ digit ∈ [a, b, c, d], digit.toLower ∈ hexDigits

-- The character that it stands for. The code points of surrogates are no characters.
def meaning : Piece → Char
  | plain c | escaped c => c
  | code a b c d =>
    if 0xd800 ≤ codePoint a b c d ∧ codePoint a b c d ≤ 0xdfff then '\ufffd'
    else Char.ofNat (codePoint a b c d)

end Piece

-- How pieces are written, one after the other.
def written (pieces : List Piece) : List Char := pieces.flatMap Piece.text

-- What the scanner misses where the reading of a literal comes to a fault.
def Fault.miss (quote : Char) : Fault → Miss
  | shortCode offset => ⟨offset, "[a-f0-9]\x7b4\x7d"⟩
  | badCode offset => ⟨offset, "[a-f0-9]"⟩
  | unclosed => ⟨0, quote.toString⟩

-- The text behind the opening quote begins with these pieces.
structure Begins (quote : Char) (body : List Char) (pieces : List Piece) (tail : List Char) :
    Prop where
  fits : ∀ piece ∈ pieces, piece.Fits quote
  body_eq : body = written pieces ++ tail

-- Why there is no closing quote for a literal that opens at `opened`, told by the place behind its
-- last piece.
inductive Breaks (quote : Char) (opened : Nat) : Place → Failure → Prop
  | shortCode {pos more} : more.length < 4 →
      Breaks quote opened ⟨pos, '\\' :: 'u' :: more⟩ ⟨pos + 2, "[a-f0-9]\x7b4\x7d"⟩
  | badCode {pos a b c d more} : (¬∀ digit ∈ [a, b, c, d], digit.toLower ∈ hexDigits) →
      Breaks quote opened ⟨pos, '\\' :: 'u' :: a :: b :: c :: d :: more⟩ ⟨pos + 2, "[a-f0-9]"⟩
  | unclosed {pos} : Breaks quote opened ⟨pos, []⟩ ⟨opened, quote.toString⟩
  | loneBackslash {pos} : Breaks quote opened ⟨pos, ['\\']⟩ ⟨opened, quote.toString⟩

section Digits

-- Beyond ASCII there are no cases and no digits, below it everything can be looked at.
private theorem digits_of_ascii :
    (List.range 128).all fun n =>
      (isHexDigit (Char.ofNat n) == hexDigits.contains (Char.ofNat n).toLower) &&
        (!isHexDigit (Char.ofNat n) || hexValue (Char.ofNat n) == digitValue (Char.ofNat n)) := by
  decide +kernel

private theorem toLower_eq_self {c : Char} (h : 128 ≤ c.toNat) : c.toLower = c := by
  refine dif_neg fun hupper => ?_
  have hle : c.toNat ≤ 90 := UInt32.le_iff_toNat_le.mp hupper.2
  omega

private theorem toNat_lt_of_mem_hexDigits {c : Char} (h : c.toLower ∈ hexDigits) :
    c.toNat < 128 := by
  refine Nat.lt_of_not_le fun hle => ?_
  have hascii : hexDigits.all fun digit => decide (digit.toNat < 128) := rfl
  rw [toLower_eq_self hle] at h
  have hlt := List.all_eq_true.mp hascii c h
  simp only [decide_eq_true_eq] at hlt
  omega

private theorem toNat_lt_of_isHexDigit {c : Char} (h : isHexDigit c) : c.toNat < 128 := by
  have hle : c.toNat ≤ 102 := UInt32.le_iff_toNat_le.mp (le_of_isHexDigit h)
  omega

private theorem digit_of_ascii {c : Char} (h : c.toNat < 128) :
    (isHexDigit c ↔ c.toLower ∈ hexDigits) ∧ (isHexDigit c → hexValue c = digitValue c) := by
  have hall := List.all_eq_true.mp digits_of_ascii c.toNat (List.mem_range.mpr h)
  rw [Char.ofNat_toNat] at hall
  cases hdigit : isHexDigit c <;> simp_all

theorem isHexDigit_iff {c : Char} : isHexDigit c ↔ c.toLower ∈ hexDigits :=
  ⟨fun h => (digit_of_ascii (toNat_lt_of_isHexDigit h)).1.mp h,
    fun h => (digit_of_ascii (toNat_lt_of_mem_hexDigits h)).1.mpr h⟩

theorem hexValue_eq {c : Char} (h : c.toLower ∈ hexDigits) : hexValue c = digitValue c :=
  (digit_of_ascii (toNat_lt_of_mem_hexDigits h)).2 (isHexDigit_iff.mpr h)

theorem digitValue_lt {c : Char} (h : c.toLower ∈ hexDigits) : digitValue c < 16 :=
  List.idxOf_lt_length_of_mem h

theorem all_isHexDigit_iff {digits : List Char} :
    digits.all isHexDigit ↔ ∀ digit ∈ digits, digit.toLower ∈ hexDigits := by
  simp only [List.all_eq_true, isHexDigit_iff]

theorem decode_eq_meaning {quote a b c d : Char} (h : (Piece.code a b c d).Fits quote) :
    decode [a, b, c, d] = (Piece.code a b c d).meaning := by
  have hdigits : ∀ digit ∈ [a, b, c, d],
      hexValue digit = digitValue digit ∧ digitValue digit < 16 :=
    fun digit hmem => ⟨hexValue_eq (h digit hmem), digitValue_lt (h digit hmem)⟩
  simp only [List.forall_mem_cons] at hdigits
  obtain ⟨⟨ha, ha'⟩, ⟨hb, hb'⟩, ⟨hc, hc'⟩, ⟨hd, hd'⟩, -⟩ := hdigits
  have hcode : [a, b, c, d].foldl (fun n c => 16 * n + hexValue c) 0 = codePoint a b c d := by
    simp only [List.foldl_cons, List.foldl_nil, codePoint, ha, hb, hc, hd]
    omega
  have hlt : codePoint a b c d < 0x10000 := by
    simp only [codePoint]
    omega
  simp only [decode, hcode, Piece.meaning]
  by_cases hsurrogate : 0xd800 ≤ codePoint a b c d ∧ codePoint a b c d ≤ 0xdfff
  · rw [if_pos hsurrogate, if_neg]
    simp only [Nat.isValidChar]
    omega
  · rw [if_neg hsurrogate, if_pos]
    simp only [Nat.isValidChar]
    omega

end Digits

section Pieces

variable {quote : Char} {piece : Piece} {pieces : List Piece}

@[simp] theorem written_nil : written [] = [] := rfl

@[simp] theorem written_cons (piece : Piece) (pieces : List Piece) :
    written (piece :: pieces) = piece.text ++ written pieces := List.flatMap_cons

theorem byteSize_code {a b c d : Char} (h : (Piece.code a b c d).Fits quote) :
    byteSize (Piece.code a b c d).text = 6 := by
  have hdigits := byteSize_of_hexDigits (all_isHexDigit_iff.mpr h)
  have hmarker : byteSize ['\\', 'u'] = 2 := rfl
  have htext : (Piece.code a b c d).text = ['\\', 'u'] ++ [a, b, c, d] := rfl
  rw [htext, byteSize_append, hmarker, hdigits]
  rfl

-- A piece tells by itself where it ends.
theorem Piece.Fits.eq_of_text_append {other : Piece} {tail tail' : List Char}
    (h : piece.Fits quote) (hother : other.Fits quote)
    (heq : piece.text ++ tail = other.text ++ tail') : piece = other ∧ tail = tail' := by
  cases piece <;> cases other <;> grind [Piece.text, Piece.Fits]

theorem Piece.Fits.text_append_ne (h : piece.Fits quote) (hquote : '\\' ≠ quote)
    (tail rest : List Char) : piece.text ++ tail ≠ quote :: rest := by
  cases piece with
  | plain c => simp [Piece.text, h.1]
  | escaped c => simp [Piece.text, hquote]
  | code a b c d => simp [Piece.text, hquote]

theorem begins_self (quote : Char) (body : List Char) : Begins quote body [] body :=
  ⟨List.forall_mem_nil _, rfl⟩

theorem Begins.cons {body tail : List Char} (h : Begins quote body pieces tail)
    (hpiece : piece.Fits quote) : Begins quote (piece.text ++ body) (piece :: pieces) tail := by
  refine ⟨List.forall_mem_cons.mpr ⟨hpiece, h.fits⟩, ?_⟩
  rw [written_cons, List.append_assoc, ← h.body_eq]

-- There is one closing quote, and one way to read what stands before it.
theorem Begins.unique {body rest rest' : List Char} {others : List Piece}
    (hquote : '\\' ≠ quote) (h : Begins quote body pieces (quote :: rest))
    (hother : Begins quote body others (quote :: rest')) : pieces = others ∧ rest = rest' := by
  obtain ⟨hfits, rfl⟩ := h
  obtain ⟨hfits', heq⟩ := hother
  induction pieces generalizing others with
  | nil =>
      cases others with
      | nil => exact ⟨rfl, (List.cons.inj heq).2⟩
      | cons other others =>
          rw [written_cons, List.append_assoc] at heq
          have hother := hfits' other List.mem_cons_self
          exact absurd heq.symm (Piece.Fits.text_append_ne hother hquote _ _)
  | cons piece pieces ih =>
      obtain ⟨hpiece, hpieces⟩ := List.forall_mem_cons.mp hfits
      rw [written_cons, List.append_assoc] at heq
      cases others with
      | nil => exact absurd heq (Piece.Fits.text_append_ne hpiece hquote _ _)
      | cons other others =>
          obtain ⟨hother, hothers⟩ := List.forall_mem_cons.mp hfits'
          rw [written_cons, List.append_assoc] at heq
          obtain ⟨rfl, hbehind⟩ := Piece.Fits.eq_of_text_append hpiece hother heq
          obtain ⟨rfl, hrest⟩ := ih hpieces hothers hbehind
          exact ⟨rfl, hrest⟩

-- Reading goes on piece by piece, to a closing quote or to a fault.
theorem exists_begins (quote : Char) (offset : Nat) (body : List Char) :
    ∃ pieces tail, Begins quote body pieces tail ∧
      ((∃ rest, tail = quote :: rest) ∨
        ∀ opened pos, ∃ failure, Breaks quote opened ⟨pos, tail⟩ failure) := by
  fun_induction read quote offset body with
  | case1 => exact ⟨[], [], begins_self quote [], .inr fun _ _ => ⟨_, .unclosed⟩⟩
  | case2 offset rest => exact ⟨[], _, begins_self quote _, .inl ⟨rest, rfl⟩⟩
  | case3 offset c rest hne hplain ih =>
      have hpiece : (Piece.plain c).Fits quote := ⟨hne, hplain⟩
      obtain ⟨pieces, tail, hbegins, htail⟩ := ih
      exact ⟨_, tail, hbegins.cons hpiece, htail⟩
  | case4 offset backslash _ hbackslash a b c d rest hdigits ih =>
      have hpiece : (Piece.code a b c d).Fits quote := all_isHexDigit_iff.mp hdigits
      obtain rfl := Decidable.not_not.mp hbackslash
      obtain ⟨pieces, tail, hbegins, htail⟩ := ih
      exact ⟨_, tail, hbegins.cons hpiece, htail⟩
  | case5 offset backslash _ hbackslash a b c d rest hdigits =>
      obtain rfl := Decidable.not_not.mp hbackslash
      rw [all_isHexDigit_iff] at hdigits
      exact ⟨[], _, begins_self quote _, .inr fun _ _ => ⟨_, .badCode hdigits⟩⟩
  | case6 offset backslash _ hbackslash rest hshort =>
      obtain rfl := Decidable.not_not.mp hbackslash
      have hlength : rest.length < 4 := by
        rcases rest with _ | ⟨a, _ | ⟨b, _ | ⟨c, _ | ⟨d, more⟩⟩⟩⟩
        · simp
        · simp
        · simp
        · simp
        · exact absurd rfl (hshort a b c d more)
      exact ⟨[], _, begins_self quote _, .inr fun _ _ => ⟨_, .shortCode hlength⟩⟩
  | case7 offset backslash _ hbackslash c rest _ hne ih =>
      have hpiece : (Piece.escaped c).Fits quote := hne
      obtain rfl := Decidable.not_not.mp hbackslash
      obtain ⟨pieces, tail, hbegins, htail⟩ := ih
      exact ⟨_, tail, hbegins.cons hpiece, htail⟩
  | case8 offset backslash _ hbackslash =>
      obtain rfl := Decidable.not_not.mp hbackslash
      exact ⟨[], _, begins_self quote _, .inr fun _ _ => ⟨_, .loneBackslash⟩⟩

end Pieces

section Scanning

variable {quote : Char} (hquote : '\\' ≠ quote) {pieces : List Piece}

include hquote

theorem read_piece {piece : Piece} (h : piece.Fits quote) (offset : Nat) (tail : List Char) :
    read quote offset (piece.text ++ tail) =
      (read quote (offset + byteSize piece.text) tail).map (keep piece.meaning) := by
  cases piece with
  | plain c => exact read_plain h.1 h.2 offset tail
  | escaped c =>
      have hsize : offset + byteSize (Piece.escaped c).text = offset + 1 + c.utf8Size :=
        (Nat.add_assoc offset 1 c.utf8Size).symm
      rw [hsize]
      exact read_escaped hquote h offset tail
  | code a b c d =>
      rw [byteSize_code h, ← decode_eq_meaning h]
      exact read_code hquote (all_isHexDigit_iff.mpr h) offset tail

theorem Begins.read_eq {body tail : List Char} (h : Begins quote body pieces tail) (offset : Nat) :
    read quote offset body =
      (read quote (offset + byteSize (written pieces)) tail).map fun found =>
        (pieces.map Piece.meaning ++ found.1, found.2) := by
  obtain ⟨hfits, rfl⟩ := h
  induction pieces generalizing offset with
  | nil =>
      change read quote offset tail = _
      rw [written_nil, byteSize_nil, Nat.add_zero]
      cases read quote offset tail <;> rfl
  | cons piece pieces ih =>
      obtain ⟨hpiece, hpieces⟩ := List.forall_mem_cons.mp hfits
      rw [written_cons, List.append_assoc, read_piece hquote hpiece, ih _ hpieces, byteSize_append,
        Nat.add_assoc]
      cases read quote (offset + (byteSize piece.text + byteSize (written pieces))) tail <;> rfl

theorem read_shortCode {more : List Char} (h : more.length < 4) (offset : Nat) :
    read quote offset ('\\' :: 'u' :: more) = .error (.shortCode (offset + 2)) := by
  rw [read.eq_def]
  simp only [hquote, if_false, ne_eq, not_true_eq_false]
  split
  · rename_i heq
    obtain rfl := (List.cons.inj heq).2
    simp only [List.length_cons] at h
    omega
  · rfl
  · rename_i hne heq
    exact absurd (List.cons.inj heq).1.symm hne
  · rename_i heq
    cases heq

theorem read_badCode {a b c d : Char} (h : [a, b, c, d].all isHexDigit = false) (offset : Nat)
    (more : List Char) :
    read quote offset ('\\' :: 'u' :: a :: b :: c :: d :: more) =
      .error (.badCode (offset + 2)) := by
  rw [read.eq_def]
  simp only [hquote, h, if_false, ne_eq, not_true_eq_false]
  rfl

theorem Breaks.exists_fault {opened offset : Nat} {place : Place} {failure : Failure}
    (h : Breaks quote opened place failure) (hpos : place.pos = opened + offset) :
    ∃ fault, read quote offset place.rest = .error fault ∧
      failure = ⟨opened + (fault.miss quote).offset, (fault.miss quote).expected⟩ := by
  cases h with
  | @shortCode pos more hlength =>
      obtain rfl : pos = opened + offset := hpos
      exact ⟨.shortCode (offset + 2), read_shortCode hquote hlength offset, rfl⟩
  | @badCode pos a b c d more hdigit =>
      have hall : [a, b, c, d].all isHexDigit = false := by
        rwa [Bool.eq_false_iff, ne_eq, all_isHexDigit_iff]
      obtain rfl : pos = opened + offset := hpos
      exact ⟨.badCode (offset + 2), read_badCode hquote hall offset more, rfl⟩
  | unclosed => exact ⟨.unclosed, rfl, rfl⟩
  | loneBackslash =>
      refine ⟨.unclosed, ?_, rfl⟩
      rw [read.eq_def]
      simp only [hquote, if_false, ne_eq, not_true_eq_false]

end Scanning

section Literals

variable {α : Type} {quotes : String} {quote : Char} (hmem : quote ∈ quotes.toList)
  {body : List Char}

include hmem

theorem scan_of_read_error {fault : Fault} (h : read quote quote.utf8Size body = .error fault) :
    scan (α := α) quotes (quote :: body) = .error (fault.miss quote) := by
  have hquote : (!quotes.toList.contains quote) = false := by simpa using hmem
  simp only [scan, hquote, h]
  cases fault <;> rfl

variable (hquote : '\\' ≠ quote) {pieces : List Piece}

include hquote

theorem Begins.scan_eq {rest : List Char} (h : Begins quote body pieces (quote :: rest)) :
    scan (α := α) quotes (quote :: body) =
      .ok ⟨quote :: (written pieces ++ [quote]), rest,
        .value (.str (String.ofList (pieces.map Piece.meaning)))⟩ := by
  have hread := h.read_eq hquote quote.utf8Size
  rw [read_quote] at hread
  simp only [Except.map, List.append_nil] at hread
  obtain ⟨-, rfl⟩ := h
  exact scan_of_read hmem hread

end Literals

end Scanner.Quoted

namespace Grammar

open Scanner.Quoted

variable {α : Type} {rules : Rules α} {quotes : String} {quote : Char} {cursor : Cursor}
  {body tail rest : List Char} {pieces : List Piece} {failure : Failure}

theorem returns_quoted_of_begins (hmem : quote ∈ quotes.toList) (hquote : '\\' ≠ quote)
    (hbody : cursor.skipBlank.rest = quote :: body) (h : Begins quote body pieces (quote :: rest)) :
    Returns rules (.quoted quotes) cursor
      (.ok (.value (.str (String.ofList (pieces.map Piece.meaning))))
        (cursor.skipBlank.rewind
          (cursor.skipBlank.toPlace.after (quote :: (written pieces ++ [quote])) rest))) := by
  refine ⟨1, congrArg some ?_⟩
  have hlex : Scanner.lex (α := α) cursor.policy cursor.skipBlank.rest (.quoted quotes) = _ :=
    hbody ▸ h.scan_eq hmem hquote
  simp only [attemptScan, scanStart, Scanner.keepsBlank, Bool.false_eq_true, if_false, hlex]

theorem returns_quoted_of_breaks (hmem : quote ∈ quotes.toList) (hquote : '\\' ≠ quote)
    (hbody : cursor.skipBlank.rest = quote :: body) (h : Begins quote body pieces tail)
    (hbreaks : Breaks quote cursor.skipBlank.pos
      (cursor.skipBlank.toPlace.after (quote :: written pieces) tail) failure) :
    Returns rules (.quoted quotes) cursor (.failed failure cursor) := by
  obtain ⟨fault, hread, rfl⟩ := hbreaks.exists_fault hquote rfl
  refine ⟨1, congrArg some ?_⟩
  have hfault : read quote quote.utf8Size body = .error fault := by
    rw [h.read_eq hquote, ← Text.byteSize_cons]
    exact congrArg (Except.map _) hread
  have hlex : Scanner.lex (α := α) cursor.policy cursor.skipBlank.rest (.quoted quotes) = _ :=
    hbody ▸ scan_of_read_error hmem hfault
  simp only [attemptScan, scanStart, Scanner.keepsBlank, Bool.false_eq_true, if_false, hlex]

-- A literal is read if and only if its quote closes behind pieces that fit. There is one way to
-- read it; otherwise the first fault is told, where reading comes to it.
theorem quoted_reads_its_literals (rules : Rules α) (hmem : quote ∈ quotes.toList)
    (hquote : quote ≠ '\\') (hbody : cursor.skipBlank.rest = quote :: body) :
    let opened := cursor.skipBlank
    ((∃ node stop, Yields rules (.quoted quotes) cursor (.ok node) stop) ↔
        ∃ pieces rest, Begins quote body pieces (quote :: rest)) ∧
      (∀ pieces rest, Begins quote body pieces (quote :: rest) →
        Returns rules (.quoted quotes) cursor
          (.ok (.value (.str (String.ofList (pieces.map Piece.meaning))))
            (opened.rewind (opened.toPlace.after (quote :: (written pieces ++ [quote])) rest))) ∧
        ∀ others rest', Begins quote body others (quote :: rest') →
          others = pieces ∧ rest' = rest) ∧
      ((¬∃ pieces rest, Begins quote body pieces (quote :: rest)) →
        ∃ pieces tail failure, Begins quote body pieces tail ∧
          Breaks quote opened.pos (opened.toPlace.after (quote :: written pieces) tail) failure ∧
          Returns rules (.quoted quotes) cursor (.failed failure cursor)) := by
  intro opened
  have hne : '\\' ≠ quote := hquote.symm
  have hcloses {pieces rest} (h : Begins quote body pieces (quote :: rest)) :
      Returns rules (.quoted quotes) cursor _ := returns_quoted_of_begins hmem hne hbody h
  have hscan : (∃ pieces rest, Begins quote body pieces (quote :: rest)) ∨
      ∃ pieces tail failure, Begins quote body pieces tail ∧
        Breaks quote opened.pos (opened.toPlace.after (quote :: written pieces) tail) failure ∧
        Returns rules (.quoted quotes) cursor (.failed failure cursor) := by
    obtain ⟨pieces, tail, hbegins, ⟨rest, rfl⟩ | hbreaks⟩ := exists_begins quote 0 body
    · exact .inl ⟨pieces, rest, hbegins⟩
    · obtain ⟨failure, hbreaks⟩ := hbreaks opened.pos _
      exact .inr ⟨pieces, tail, failure, hbegins, hbreaks,
        returns_quoted_of_breaks hmem hne hbody hbegins hbreaks⟩
  refine ⟨⟨?_, ?_⟩, ?_, hscan.resolve_left⟩
  · rintro ⟨node, stop, hyields⟩
    refine hscan.resolve_right ?_
    rintro ⟨pieces, tail, failure, -, -, hreturns⟩
    cases (hyields.unique hreturns.yields).1
  · rintro ⟨pieces, rest, hbegins⟩
    exact ⟨_, _, (hcloses hbegins).yields⟩
  · intro pieces rest hbegins
    exact ⟨hcloses hbegins, fun others rest' hothers => hothers.unique hne hbegins⟩

-- The code is that of a surrogate, and both kinds of quotes stand in the literal.
theorem reads_literal_with_surrogate :
    let start := Cursor.ofInput
      [' ', '"', 'é', '\\', '"', '\\', 'u', 'd', '8', '3', 'D', '\'', '"', '!'] .ascii
    let pieces : List Piece := [.plain 'é', .escaped '"', .code 'd' '8' '3' 'D', .plain '\'']
    '"' ∈ "'\"".toList ∧ '"' ≠ '\\' ∧ start.skipBlank.rest = '"' :: start.rest.drop 2 ∧
      Begins '"' (start.rest.drop 2) pieces ['"', '!'] ∧
      Returns ({} : Rules Unit) (.quoted "'\"") start
        (.ok (.value (.str "é\"\ufffd'")) { start with pos := 14, rest := ['!'] }) := by
  intro start pieces
  have hmem : '"' ∈ "'\"".toList := by simp
  have hquote : '"' ≠ '\\' := by decide
  have hbody : start.skipBlank.rest = '"' :: start.rest.drop 2 := rfl
  have hbegins : Begins '"' (start.rest.drop 2) pieces ['"', '!'] := by
    refine ⟨?_, rfl⟩
    simp [pieces, Piece.Fits, hexDigits]
  have hreads := quoted_reads_its_literals ({} : Rules Unit) hmem hquote hbody
  exact ⟨hmem, hquote, hbody, hbegins, (hreads.2.1 pieces ['!'] hbegins).1⟩

end Grammar

end Descent
