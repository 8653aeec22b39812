import Pippin.Client.Representation
import Pippin.Native.Drawing
import Pippin.Native.Frames

/-! When a shape is drawn without overflow. Filled rectangles saturate, the other shapes add to
the place they are given: a text once for every bit that it draws. -/

namespace Pippin.Native
open Checked Raster
open Pippin.Client (Pixels glyph toAsciiUppercase WIDTH HEIGHT length_glyph)

def BorderRoom (x y width height : Int) : Prop :=
  -2 ^ 31 ≤ x + width - 2 ∧ x + width < 2 ^ 31 ∧ -2 ^ 31 ≤ y + height - 2 ∧ y + height < 2 ^ 31

/-- The corners of a small rectangle are not stepped. -/
def RoundedRoom (x y width height : Int) : Prop :=
  (width < 8 ∨ height < 8 → BorderRoom x y width height) ∧
  (8 ≤ width ∧ 8 ≤ height → -2 ^ 31 ≤ x ∧ x + 4 < 2 ^ 31 ∧ width < 2 ^ 31 ∧
    -2 ^ 31 ≤ y ∧ y + height < 2 ^ 31 ∧ height < 2 ^ 31)

/-- The square of every bit of every glyph has an i32 place. -/
def TextRoom (x y : Int) (label : List UInt8) (scale : Int) : Prop :=
  ∀ p ∈ label.zipIdx, ∀ q ∈ (glyph (toAsciiUppercase p.1)).zipIdx, ∀ column ∈ List.range 5,
    q.1 &&& ((1 : UInt8) <<< UInt8.ofNat (4 - column)) ≠ 0 →
    x + p.2 * 6 * scale + column * scale < 2 ^ 31 ∧ y + q.2 * scale < 2 ^ 31

instance (x y : Int) (label : List UInt8) (scale : Int) : Decidable (TextRoom x y label scale) :=
  inferInstanceAs (Decidable (∀ p ∈ label.zipIdx, _))

/-- A shape that the drawing routines have room for. -/
def Draw.Room : Draw → Prop
  | .fill .. => True
  | .border x y width height _ => BorderRoom x y width height
  | .rounded x y width height _ _ => RoundedRoom x y width height
  | .text x y label scale _ => -2 ^ 31 ≤ x ∧ -2 ^ 31 ≤ y ∧ (0 < scale ∧ scale ≤ 2) ∧ label.length ≤ 256 ∧
    TextRoom x y label scale

variable {x y width height scale : Int} {label : List UInt8} {color borderColor : UInt32} {pixels : Pixels}
  {fill : Fill}

theorem textRoom_nil : TextRoom x y [] scale := nofun

theorem TextRoom.of_right (hscale : 0 < scale ∧ scale ≤ 2) (hx : x + 6 * scale * label.length ≤ 2 ^ 31)
    (hy : y + 7 * scale ≤ 2 ^ 31) : TextRoom x y label scale := by
  intro p hp q hq column hcolumn _
  have hindex := List.snd_lt_of_mem_zipIdx hp
  have hrow := List.snd_lt_of_mem_zipIdx hq
  rw [length_glyph] at hrow
  have hcolumn := List.mem_range.mp hcolumn
  obtain rfl | rfl : scale = 1 ∨ scale = 2 := by omega
  · omega
  · omega

def Rooms (draws : List Draw) : Prop := ∀ d ∈ draws, d.Room

theorem Rooms.nil : Rooms [] := nofun

theorem Rooms.cons {d : Draw} {draws : List Draw} (hd : d.Room) (h : Rooms draws) : Rooms (d :: draws) :=
  List.forall_mem_cons.mpr ⟨hd, h⟩

theorem Rooms.append {draws more : List Draw} (h : Rooms draws) (hmore : Rooms more) : Rooms (draws ++ more) :=
  List.forall_mem_append.mpr ⟨h, hmore⟩

theorem Rooms.flatten {draws : List (List Draw)} (h : ∀ ds ∈ draws, Rooms ds) : Rooms draws.flatten := by
  intro d hd
  obtain ⟨ds, hds, hd⟩ := List.mem_flatten.mp hd
  exact h ds hds d hd

/-! ## Shapes around the screen -/

theorem roundedNear (hx : -2 ^ 20 ≤ x ∧ x ≤ 2 ^ 20) (hy : -2 ^ 20 ≤ y ∧ y ≤ 2 ^ 20)
    (hwidth : 0 ≤ width ∧ width ≤ 2 ^ 20) (hheight : 0 ≤ height ∧ height ≤ 2 ^ 20) :
    Draw.Room (.rounded x y width height color borderColor) := by
  unfold Draw.Room RoundedRoom BorderRoom
  omega

theorem textNear (hx : -2 ^ 20 ≤ x ∧ x ≤ 2 ^ 20) (hy : -2 ^ 20 ≤ y ∧ y ≤ 2 ^ 20) (hscale : 0 < scale ∧ scale ≤ 2)
    (hlabel : label.length ≤ 256) : Draw.Room (.text x y label scale color) := by
  have hright : 6 * scale * label.length ≤ 12 * label.length := Int.mul_le_mul_of_nonneg_right (by omega) (by omega)
  exact ⟨by omega, by omega, hscale, hlabel, .of_right hscale (by omega) (by omega)⟩

/-! ## Rectangles that never fault -/

/-- Every rectangle is filled, and the screen keeps its size. -/
def Fill.Total (fill : Fill) : Prop :=
  ∀ x y width height color p, p.size = screenSize → Yields (fill x y width height color p) (·.size = screenSize)

theorem fillRect_total : Fill.Total fillRect := fun _ _ _ _ _ _ hp =>
  (fillRect_fills hp).mono fun _ hq => hq.size.trans hp

theorem intersect_yields {c : ClipRect} (hc : IsI32 (c.right - c.left) ∧ IsI32 (c.bottom - c.top)) :
    Yields (c.intersect x y width height) fun q => q.isNone = false → 0 < width ∧ y < c.bottom := by
  unfold IsI32 at hc
  unfold ClipRect.intersect
  split
  · exact yields_ok nofun
  · dsimp only
    split
    · exact yields_ok nofun
    · rw [i32_eq (by omega) (by omega), ok_bind, i32_eq (by omega) (by omega)]
      exact yields_ok fun _ => by omega

theorem fillRectClipped_total {c : ClipRect} (hc : IsI32 (c.right - c.left) ∧ IsI32 (c.bottom - c.top)) :
    Fill.Total (fillRectClipped c) := by
  intro x y width height color p hp
  refine (intersect_yields hc).bind fun q _ => ?_
  cases q with
  | none => exact yields_ok hp
  | some part => exact fillRect_total _ _ _ _ _ _ hp

/-! ## Shapes with room -/

namespace Fill.Total

variable (h : fill.Total) (hp : pixels.size = screenSize)
include h hp

theorem border (hroom : BorderRoom x y width height) :
    Yields (fill.border x y width height color pixels) (·.size = screenSize) := by
  obtain ⟨hright, hright', hbottom, hbottom'⟩ := hroom
  unfold Fill.border
  refine (h _ _ _ _ _ _ hp).bind fun p hp => ?_
  rw [i32_eq (by omega) (by omega), ok_bind, i32_eq (by omega) (by omega), ok_bind]
  refine (h _ _ _ _ _ _ hp).bind fun p hp => (h _ _ _ _ _ _ hp).bind fun p hp => ?_
  rw [i32_eq (by omega) (by omega), ok_bind, i32_eq (by omega) (by omega), ok_bind]
  exact h _ _ _ _ _ _ hp

section

variable (hx : -2 ^ 31 ≤ x ∧ x + 4 < 2 ^ 31) (hy : -2 ^ 31 ≤ y ∧ y + height < 2 ^ 31)
  (hwidth : 8 ≤ width ∧ width < 2 ^ 31) (hheight : 8 ≤ height ∧ height < 2 ^ 31)
include hx hy hwidth hheight

theorem outline : Yields (fill.outline x y width height color pixels) (·.size = screenSize) := by
  unfold Fill.outline
  simp (disch := omega) only [i32_eq, ok_bind]
  refine (h _ _ _ _ _ _ hp).bind fun p hp => (h _ _ _ _ _ _ hp).bind fun p hp => (h _ _ _ _ _ _ hp).bind fun p hp => ?_
  refine (h _ _ _ _ _ _ hp).bind fun p hp => (h _ _ _ _ _ _ hp).bind fun p hp => (h _ _ _ _ _ _ hp).bind fun p hp => ?_
  exact h _ _ _ _ _ _ hp

theorem inner : Yields (fill.inner x y width height color pixels) (·.size = screenSize) := by
  unfold Fill.inner
  simp (disch := omega) only [i32_eq, ok_bind]
  refine (h _ _ _ _ _ _ hp).bind fun p hp => (h _ _ _ _ _ _ hp).bind fun p hp => ?_
  exact h _ _ _ _ _ _ hp

end

theorem rounded (hroom : RoundedRoom x y width height) :
    Yields (fill.rounded x y width height color borderColor pixels) (·.size = screenSize) := by
  obtain ⟨hsmall, hstepped⟩ := hroom
  unfold Fill.rounded
  split
  · rename_i hsize
    exact (h _ _ _ _ _ _ hp).bind fun p hp => h.border hp (hsmall hsize)
  · rename_i hsize
    obtain ⟨hx, hx', hwidth, hy, hy', hheight⟩ := hstepped (by omega)
    refine (h.outline hp ⟨hx, hx'⟩ ⟨hy, hy'⟩ ⟨by omega, hwidth⟩ ⟨by omega, hheight⟩).bind fun p hp => ?_
    exact h.inner hp ⟨hx, hx'⟩ ⟨hy, hy'⟩ ⟨by omega, hwidth⟩ ⟨by omega, hheight⟩

theorem text (hx : -2 ^ 31 ≤ x) (hy : -2 ^ 31 ≤ y) (hscale : 0 < scale ∧ scale ≤ 2) (hlabel : label.length ≤ 256)
    (hroom : TextRoom x y label scale) :
    Yields (fill.text x y label scale color pixels) (·.size = screenSize) := by
  unfold Fill.text
  refine yields_foldlM _ _ (fun p hp pair hpair => ?_) _ hp
  obtain ⟨byte, index⟩ := pair
  refine yields_foldlM _ _ (fun p hp line hline => ?_) _ hp
  obtain ⟨bits, row⟩ := line
  refine yields_foldlM _ _ (fun p hp column hcolumn => ?_) _ hp
  have hsquare := hroom (byte, index) hpair (bits, row) hline column hcolumn
  have hindex : index < label.length + 0 := List.snd_lt_of_mem_zipIdx hpair
  have hrow : row < (glyph (toAsciiUppercase byte)).length + 0 := List.snd_lt_of_mem_zipIdx hline
  rw [length_glyph] at hrow
  have hcolumn := List.mem_range.mp hcolumn
  dsimp only at hsquare
  split
  · rename_i hbit
    obtain ⟨hleft, htop⟩ := hsquare hbit
    obtain rfl | rfl : scale = 1 ∨ scale = 2 := by omega
    all_goals
      rw [i32_eq (by omega) (by omega), ok_bind, i32_eq (by omega) (by omega), ok_bind, i32_eq (by omega) (by omega),
        ok_bind, i32_eq (by omega) (by omega), ok_bind, i32_eq (by omega) (by omega), ok_bind,
        i32_eq (by omega) (by omega), ok_bind, i32_eq (by omega) (by omega), ok_bind]
      exact h _ _ _ _ _ _ hp
  · exact yields_ok hp

theorem on {d : Draw} (hroom : d.Room) : Yields (d.on fill pixels) (·.size = screenSize) := by
  cases d with
  | fill => exact h _ _ _ _ _ _ hp
  | border => exact h.border hp hroom
  | rounded => exact h.rounded hp hroom
  | text =>
    obtain ⟨hx, hy, hscale, hlabel, hroom⟩ := hroom
    exact h.text hp hx hy hscale hlabel hroom

theorem paint {draws : List Draw} (hroom : Rooms draws) :
    Yields (paint fill draws pixels) (·.size = screenSize) :=
  yields_foldlM _ _ (fun _ hp d hd => h.on hp (hroom d hd)) _ hp

end Fill.Total

end Pippin.Native
