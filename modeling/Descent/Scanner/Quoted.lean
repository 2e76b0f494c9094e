import Descent.Scanner.Lexeme
import Descent.Text.Bytes

namespace Descent.Scanner.Quoted

-- Why a text is no quoted literal.
inductive Fault where
  -- fewer than four characters follow `\u`, which ends at this byte
  | shortCode (offset : Nat)
  -- four characters follow it, but not all of them are hexadecimal digits
  | badCode (offset : Nat)
  | unclosed
  deriving DecidableEq, Repr

def isHexDigit (c : Char) : Bool :=
  ('0' ≤ c && c ≤ '9') || ('a' ≤ c && c ≤ 'f') || ('A' ≤ c && c ≤ 'F')

def hexValue (c : Char) : Nat :=
  if c ≤ '9' then c.toNat - 48 else if c ≤ 'F' then c.toNat - 55 else c.toNat - 87

-- The character with a code of hexadecimal digits. The codes of surrogates stand for none and
-- give the replacement character.
def decode (digits : List Char) : Char :=
  let code := digits.foldl (fun n c => 16 * n + hexValue c) 0
  if code.isValidChar then Char.ofNat code else '\ufffd'

-- A character in front of the text that has been read.
def keep (c : Char) (found : List Char × List Char) : List Char × List Char :=
  (c :: found.1, found.2)

-- Reads up to the closing quote: the text that the literal stands for, and what follows the
-- literal. `offset` counts the bytes that have been read.
def read (quote : Char) (offset : Nat) : List Char → Except Fault (List Char × List Char)
  | [] => .error .unclosed
  | c :: rest =>
    if c = quote then .ok ([], rest)
    else if c ≠ '\\' then (read quote (offset + c.utf8Size) rest).map (keep c)
    else
      match rest with
      | 'u' :: a :: b :: c :: d :: rest =>
        if [a, b, c, d].all isHexDigit then
          (read quote (offset + 6) rest).map (keep (decode [a, b, c, d]))
        else .error (.badCode (offset + 2))
      | 'u' :: _ => .error (.shortCode (offset + 2))
      | c :: rest => (read quote (offset + 1 + c.utf8Size) rest).map (keep c)
      | [] => .error .unclosed

-- A literal opens with one of the quotes and closes with the same one. In it `\u` and four
-- hexadecimal digits stand for a character by its code, and a backslash before any other
-- character stands for that character.
def scan {α : Type} (quotes : String) (text : List Char) : Except Miss (Lexeme α) :=
  match text with
  | [] => .error ⟨0, quotes⟩
  | quote :: body =>
    if !quotes.toList.contains quote then .error ⟨0, quotes⟩
    else
      match read quote quote.utf8Size body with
      | .ok (value, rest) =>
        .ok ⟨text.take (text.length - rest.length), rest, .value (.str (String.ofList value))⟩
      | .error (.shortCode offset) => .error ⟨offset, "[a-f0-9]\x7b4\x7d"⟩
      | .error (.badCode offset) => .error ⟨offset, "[a-f0-9]"⟩
      | .error .unclosed => .error ⟨0, quote.toString⟩

theorem keep_eq_ok {c : Char} {found : Except Fault (List Char × List Char)}
    {value rest : List Char} (h : found.map (keep c) = .ok (value, rest)) :
    ∃ others, found = .ok (others, rest) ∧ value = c :: others := by
  cases found with
  | error fault => simp [Except.map] at h
  | ok found =>
    simp only [Except.map, keep, Except.ok.injEq, Prod.mk.injEq] at h
    exact ⟨found.1, by simp [← h.2], h.1.symm⟩

-- What follows a literal is an end of the text that was read.
theorem isSuffix_of_read {quote : Char} {offset : Nat} {body value rest : List Char}
    (h : read quote offset body = .ok (value, rest)) : rest <:+ body := by
  fun_induction read quote offset body generalizing value with
  | case1 => simp at h
  | case2 => simp_all
  | case3 offset c tail _ _ ih =>
    obtain ⟨others, hread, _⟩ := keep_eq_ok h
    exact (ih hread).trans (List.suffix_cons c tail)
  | case4 offset _ _ _ a b c d tail _ ih =>
    obtain ⟨others, hread, _⟩ := keep_eq_ok h
    exact (ih hread).trans (List.suffix_append [_, _, a, b, c, d] tail)
  | case5 => simp at h
  | case6 => simp at h
  | case7 offset _ _ _ c tail _ _ ih =>
    obtain ⟨others, hread, _⟩ := keep_eq_ok h
    exact (ih hread).trans (List.suffix_append [_, c] tail)
  | case8 => simp at h

-- A literal as it is written and what follows it make up the text.
theorem consumed_append_of_scan {α : Type} {quotes : String} {text : List Char}
    {lexeme : Lexeme α} (h : scan quotes text = .ok lexeme) :
    lexeme.consumed ++ lexeme.rest = text := by
  unfold scan at h
  split at h
  · simp at h
  · rename_i quote body
    split at h
    · simp at h
    · split at h
      · rename_i value rest hread
        obtain ⟨literal, rfl⟩ := isSuffix_of_read hread
        obtain rfl := Except.ok.inj h
        have hlength : (quote :: (literal ++ rest)).length - rest.length =
            (quote :: literal).length := by
          simp
          omega
        simp only [hlength]
        simp
      all_goals simp at h

end Descent.Scanner.Quoted
