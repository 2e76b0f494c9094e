import Descent.Proofs.Contract

namespace Descent

open Text

-- Nothing is lost between two places: the end of the text is as far from the one as from the other.
theorem Place.Reaches.pos_add_eq {start stop : Place} (h : start.Reaches stop) :
    stop.pos + byteSize stop.rest = start.pos + byteSize start.rest := by
  obtain ⟨text, hrest, hpos⟩ := h
  rw [hrest, hpos, byteSize_append, Nat.add_assoc]

theorem Place.Reaches.pos_eq {start stop : Place} {text : List Char} (h : start.Reaches stop)
    (hrest : start.rest = text ++ stop.rest) : stop.pos = start.pos + byteSize text := by
  have hend := h.pos_add_eq
  rw [hrest, byteSize_append] at hend
  omega

namespace Cursor

-- The cursor stands in its input: its offset counts the bytes of what precedes it there.
def Sound (cursor : Cursor) : Prop :=
  ∃ before, cursor.input = before ++ cursor.rest ∧ cursor.pos = byteSize before

variable {cursor start stop : Cursor} {text : List Char}

theorem sound_ofInput (input : List Char) (policy : Whitespace) : (ofInput input policy).Sound :=
  ⟨[], rfl, rfl⟩

theorem Sound.of_reaches (h : start.Sound) (hreaches : start.Reaches stop) : stop.Sound := by
  obtain ⟨before, hinput, hpos⟩ := h
  obtain ⟨text, hrest, hstop⟩ := hreaches.place
  refine ⟨before ++ text, ?_, ?_⟩
  · rw [hreaches.input, hinput, hrest, List.append_assoc]
  · rw [hstop, hpos, byteSize_append]

theorem Sound.pos_add_eq (h : cursor.Sound) :
    cursor.pos + byteSize cursor.rest = byteSize cursor.input := by
  obtain ⟨before, hinput, hpos⟩ := h
  rw [hinput, hpos, byteSize_append]

theorem Sound.pos_le (h : cursor.Sound) : cursor.pos ≤ byteSize cursor.input := by
  have := h.pos_add_eq
  omega

-- What lies between two places is what has been consumed from the one to the other.
theorem Sound.slice_eq (h : start.Sound) (hrest : start.rest = text ++ stop.rest)
    (hpos : stop.pos = start.pos + byteSize text) : start.slice start.pos stop.pos = text := by
  obtain ⟨before, hinput, hstart⟩ := h
  rw [slice, hinput, hstart, dropBytes_append, ← hstart, hpos, Nat.add_sub_cancel_left, hrest,
    takeBytes_append]

end Cursor

end Descent
