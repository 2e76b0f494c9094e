namespace Descent.Text

-- Space, tab, line feed, vertical tab, form feed and carriage return.
def isAsciiBlank (c : Char) : Bool :=
  c = ' ' || c = '\t' || c = '\n' || c = '\x0b' || c = '\x0c' || c = '\r'

-- The characters with the Unicode property White_Space.
def isBlank (c : Char) : Bool :=
  isAsciiBlank c || c = '\x85' || c = '\xa0' || c = '\u1680' ||
    ('\u2000' ≤ c && c ≤ '\u200a') || c = '\u2028' || c = '\u2029' || c = '\u202f' ||
    c = '\u205f' || c = '\u3000'

theorem isBlank_of_isAsciiBlank {c : Char} (h : isAsciiBlank c) : isBlank c := by
  simp [isBlank, h]

theorem forall_isAsciiBlank_iff {P : Char → Prop} :
    (∀ c, isAsciiBlank c → P c) ↔
      P ' ' ∧ P '\t' ∧ P '\n' ∧ P '\x0b' ∧ P '\x0c' ∧ P '\r' := by
  simp [isAsciiBlank, or_assoc, or_imp, forall_and]

@[elab_as_elim]
theorem isAsciiBlank_cases {P : Char → Prop} {c : Char} (h : isAsciiBlank c)
    (hblanks : P ' ' ∧ P '\t' ∧ P '\n' ∧ P '\x0b' ∧ P '\x0c' ∧ P '\r') : P c :=
  forall_isAsciiBlank_iff.mpr hblanks c h

theorem isAsciiBlank_eq_false {accepts : Char → Bool}
    (hblank : ∀ c, isAsciiBlank c → accepts c = false) {c : Char} (h : accepts c) :
    isAsciiBlank c = false := by
  cases hc : isAsciiBlank c with
  | false => rfl
  | true => cases (hblank c hc).symm.trans h

end Descent.Text
