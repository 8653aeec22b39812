import Pippin.Native.CaretRuns

/-! Which part of a text is shown: as many characters as there are columns, and the caret among
them. The start is the first place that keeps the caret in sight, but no later than needed to
fill the field. -/

namespace Pippin.Native
open Checked

/-- The caret is at one of the `maxChars + 1` places of the part from `start` on, the part ends with the text at
the latest, and it starts with a text that fits. -/
structure CaretShown (length cursor maxChars start : Nat) : Prop where
  start_le : start ≤ cursor
  cursor_le : cursor ≤ start + maxChars
  filled : start + maxChars ≤ max length maxChars
  fits : length ≤ maxChars → start = 0

namespace Compositor

variable {s : Compositor} {w : Window} {r : Row} {i : Nat} {rect : Rect} {p : FieldPaint}

theorem editVisibleStart_shows {length cursor maxChars : Nat} (hcursor : cursor ≤ length) (hmax : 1 ≤ maxChars) :
    CaretShown length cursor maxChars (editVisibleStart length cursor maxChars) := by
  unfold editVisibleStart
  split
  · rename_i hfits
    -- the right edge: all of the text is in sight
    exact ⟨Nat.zero_le _, by omega, by omega, fun _ => rfl⟩
  · rename_i hlong
    exact ⟨by omega, by omega, by omega, fun hfits => absurd hfits hlong⟩

/-- What a field shows of its text: the characters from `start` on, one a column, and the caret in front of the
one it is at. -/
structure PaintsSlice (text : List UInt8) (cursor maxChars : Nat) (p : FieldPaint) : Prop where
  columns : 1 ≤ maxChars
  shows : CaretShown text.length cursor maxChars p.start
  value : ∀ j < p.value.length, p.value[j]? = text[p.start + j]?
  unclamped : cursor - p.start ≤ maxChars
  among : p.start ≤ cursor ∧ cursor ≤ p.start + p.value.length
  caret : ∀ frame, p.caret = some frame → frame.1 = p.cell (cursor - p.start)
  whole : text.length ≤ maxChars → p.value = text
  no_waste : p.value.length < text.length → p.value.length = maxChars

theorem paintChars_pos (width label : Int) (h : width - 32 - label < 2 ^ 31) : 1 ≤ paintChars width label := by
  unfold paintChars
  rw [Int.tdiv_eq_ediv_of_nonneg (by omega), asUsize_eq (by omega) (by omega)]
  omega

theorem paintField_slice (hcursor : (s.editSnapshot w.id i).2 ≤ (s.editSnapshot w.id i).1.length)
    (hp : s.paintField w r i rect = .ok p) : PaintsSlice (s.editSnapshot w.id i).1 (s.editSnapshot w.id i).2
      (paintChars rect.2.2.1 (labelWidth r)) p := by
  obtain ⟨-, -, hroom, hstart, hvalue, hcaret⟩ := paintField_of_ok hp
  have hone := paintChars_pos _ _ hroom.2
  generalize paintChars rect.2.2.1 (labelWidth r) = n at *
  generalize (s.editSnapshot w.id i).1 = text at *
  generalize (s.editSnapshot w.id i).2 = cursor at *
  rw [Nat.max_eq_left hone] at hstart
  have hshows : CaretShown text.length cursor n p.start := hstart ▸ editVisibleStart_shows hcursor hone
  have hle := hshows.start_le
  have hge := hshows.cursor_le
  have hfilled := hshows.filled
  have hlength : p.value.length = min (p.start + n) text.length - p.start := by
    rw [hvalue, List.length_drop, List.length_take]
  refine ⟨hone, hshows, fun j hj => ?_, by omega, ⟨hle, by omega⟩, fun frame hframe => ?_, fun hfit => ?_,
    fun hlt => by omega⟩
  · rw [hvalue, List.getElem?_drop, List.getElem?_take_of_lt (by omega)]
  · rw [hcaret frame hframe, Nat.min_eq_left (by omega)]
    unfold FieldPaint.cell
    omega
  · rw [hvalue, hshows.fits hfit, List.drop_zero, List.take_of_length_le (by omega)]

/-- The caret stays in the visible slice: for every text and cursor, and in every field that is painted. -/
theorem caret_in_slice (s : Compositor) (w : Window) (r : Row) (i : Nat) (rect : Rect) :
    (∀ length cursor maxChars, cursor ≤ length → 1 ≤ maxChars →
      CaretShown length cursor maxChars (editVisibleStart length cursor maxChars)) ∧
    ((s.editSnapshot w.id i).2 ≤ (s.editSnapshot w.id i).1.length →
      Ensures (s.paintField w r i rect) (PaintsSlice (s.editSnapshot w.id i).1 (s.editSnapshot w.id i).2
        (paintChars rect.2.2.1 (labelWidth r)))) :=
  ⟨fun _ _ _ => editVisibleStart_shows, fun hcursor _ => paintField_slice hcursor⟩

/-- The caret at the end of a text that is one longer than the field. -/
example : editVisibleStart 41 41 40 = 1 := rfl

end Compositor

end Pippin.Native
