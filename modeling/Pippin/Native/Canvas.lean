import Pippin.Client.Paint
import Pippin.Lib.Raster
import Pippin.Native.Caret

/-! The drawing routines of the native compositor on the pixel buffer. Each shape is made of
filled rectangles; its clipped form is the same shape of clipped rectangles. -/

namespace Pippin.Native
open Checked Raster
open Pippin.Client (Pixels glyph toAsciiUppercase WIDTH HEIGHT)

def screenSize : Nat := WIDTH * HEIGHT

def setPixel (x y : Int) (color : UInt32) (pixels : Pixels) : Checked Pixels :=
  if x ≥ 0 ∧ y ≥ 0 ∧ x < WIDTH ∧ y < HEIGHT then set pixels (asUsize y * WIDTH + asUsize x) color else .ok pixels

def fillRect (x y width height : Int) (color : UInt32) (pixels : Pixels) : Checked Pixels :=
  if width ≤ 0 ∨ height ≤ 0 then .ok pixels
  else
    let left := asUsize (min (max x 0) WIDTH)
    let top := asUsize (min (max y 0) HEIGHT)
    let right := asUsize (min (max (saturate (x + width)) 0) WIDTH)
    let bottom := asUsize (min (max (saturate (y + height)) 0) HEIGHT)
    fillRows WIDTH pixels left top right bottom color

def fillRectClipped (clip : ClipRect) (x y width height : Int) (color : UInt32) (pixels : Pixels) : Checked Pixels := do
  match ← clip.intersect x y width height with
  | some (x, y, width, height) => fillRect x y width height color pixels
  | none => return pixels

/-! ## Shapes -/

abbrev Fill := Int → Int → Int → Int → UInt32 → Pixels → Checked Pixels

def Fill.border (fill : Fill) (x y width height : Int) (color : UInt32) (pixels : Pixels) : Checked Pixels := do
  let pixels ← fill x y width 2 color pixels
  let pixels ← fill x (← i32 ((← i32 (y + height)) - 2)) width 2 color pixels
  let pixels ← fill x y 2 height color pixels
  fill (← i32 ((← i32 (x + width)) - 2)) y 2 height color pixels

def Fill.outline (fill : Fill) (x y width height : Int) (color : UInt32) (pixels : Pixels) : Checked Pixels := do
  let pixels ← fill (← i32 (x + 4)) y (← i32 (width - 8)) 1 color pixels
  let pixels ← fill (← i32 (x + 2)) (← i32 (y + 1)) (← i32 (width - 4)) 1 color pixels
  let pixels ← fill (← i32 (x + 1)) (← i32 (y + 2)) (← i32 (width - 2)) 1 color pixels
  let pixels ← fill x (← i32 (y + 3)) width (← i32 (height - 6)) color pixels
  let pixels ← fill (← i32 (x + 1)) (← i32 ((← i32 (y + height)) - 3)) (← i32 (width - 2)) 1 color pixels
  let pixels ← fill (← i32 (x + 2)) (← i32 ((← i32 (y + height)) - 2)) (← i32 (width - 4)) 1 color pixels
  fill (← i32 (x + 4)) (← i32 ((← i32 (y + height)) - 1)) (← i32 (width - 8)) 1 color pixels

def Fill.inner (fill : Fill) (x y width height : Int) (color : UInt32) (pixels : Pixels) : Checked Pixels := do
  let pixels ← fill (← i32 (x + 4)) (← i32 (y + 1)) (← i32 (width - 8)) (← i32 (height - 2)) color pixels
  let pixels ← fill (← i32 (x + 2)) (← i32 (y + 2)) (← i32 (width - 4)) (← i32 (height - 4)) color pixels
  fill (← i32 (x + 1)) (← i32 (y + 3)) (← i32 (width - 2)) (← i32 (height - 6)) color pixels

def Fill.rounded (fill : Fill) (x y width height : Int) (color borderColor : UInt32) (pixels : Pixels) :
    Checked Pixels :=
  if width < 8 ∨ height < 8 then do
    fill.border x y width height borderColor (← fill x y width height color pixels)
  else do
    fill.inner x y width height color (← fill.outline x y width height borderColor pixels)

def Fill.text (fill : Fill) (x y : Int) (label : List UInt8) (scale : Int) (color : UInt32) (pixels : Pixels) :
    Checked Pixels :=
  label.zipIdx.foldlM (fun pixels (byte, index) =>
    (glyph (toAsciiUppercase byte)).zipIdx.foldlM (fun pixels (bits, row) =>
      (List.range 5).foldlM (fun pixels column =>
        if bits &&& ((1 : UInt8) <<< UInt8.ofNat (4 - column)) ≠ 0 then do
          let left ← i32 ((← i32 (x + (← i32 ((← i32 (index * 6)) * scale)))) + (← i32 (column * scale)))
          let top ← i32 (y + (← i32 (row * scale)))
          fill left top scale scale color pixels
        else .ok pixels) pixels) pixels) pixels

def border := Fill.border fillRect
def borderClipped (clip : ClipRect) := Fill.border (fillRectClipped clip)
def roundedRect := Fill.rounded fillRect
def roundedRectClipped (clip : ClipRect) := Fill.rounded (fillRectClipped clip)
def text := Fill.text fillRect
def textClipped (clip : ClipRect) := Fill.text (fillRectClipped clip)

/-! ## What a rectangle fills -/

def inRect (x y width height : Int) : Region := fun px py => x ≤ px ∧ px < x + width ∧ y ≤ py ∧ py < y + height

def ClipRect.region (clip : ClipRect) : Region := fun px py =>
  clip.left ≤ px ∧ px < clip.right ∧ clip.top ≤ py ∧ py < clip.bottom

structure ClipRect.Half (clip : ClipRect) : Prop where
  left : -2 ^ 30 ≤ clip.left ∧ clip.left < 2 ^ 30
  top : -2 ^ 30 ≤ clip.top ∧ clip.top < 2 ^ 30
  right : -2 ^ 30 ≤ clip.right ∧ clip.right < 2 ^ 30
  bottom : -2 ^ 30 ≤ clip.bottom ∧ clip.bottom < 2 ^ 30

variable {x y width height : Int} {color : UInt32} {clip : ClipRect} {pixels : Pixels} {R : Region}

theorem fillRect_fills (hsize : pixels.size = screenSize) :
    Yields (fillRect x y width height color pixels) (Fills WIDTH (inRect x y width height) color pixels) := by
  unfold screenSize WIDTH HEIGHT at *
  unfold fillRect inRect
  split
  · rename_i hempty
    refine yields_ok ⟨.refl pixels, fun px py _ _ hin => ?_⟩
    omega
  · rename_i hsome
    dsimp only
    unfold WIDTH HEIGHT saturate
    rw [Compositor.asUsize_eq (by omega) (by omega), Compositor.asUsize_eq (by omega) (by omega),
      Compositor.asUsize_eq (by omega) (by omega), Compositor.asUsize_eq (by omega) (by omega)]
    refine (fillRows_fills color (by omega) (by omega) (by omega)).mono fun q hq => hq.congr fun px py hpx hpy => ?_
    omega

theorem fillRectClipped_fills (hsize : pixels.size = screenSize) (hclip : clip.Half) :
    Yields (fillRectClipped clip x y width height color pixels)
      (Fills WIDTH (fun px py => inRect x y width height px py ∧ clip.region px py) color pixels) := by
  obtain ⟨hleft, htop, hright, hbottom⟩ := hclip
  unfold fillRectClipped ClipRect.intersect saturate
  have none : (∀ px py : Nat, ¬(inRect x y width height px py ∧ clip.region px py)) →
      Fills WIDTH (fun px py => inRect x y width height px py ∧ clip.region px py) color pixels pixels :=
    fun h => ⟨.refl pixels, fun px py _ _ hin => absurd hin (h px py)⟩
  unfold inRect ClipRect.region at none
  dsimp only
  split
  · exact yields_ok (none fun px py => by omega)
  · split
    · exact yields_ok (none fun px py => by omega)
    · rw [i32_eq (by omega) (by omega), ok_bind, i32_eq (by omega) (by omega)]
      refine (fillRect_fills hsize).mono fun q hq => hq.congr fun px py hpx hpy => ?_
      unfold inRect ClipRect.region
      unfold screenSize WIDTH HEIGHT at *
      omega

theorem fillRectClipped_draws (clip : ClipRect) (x y width height : Int) (color : UInt32) :
    Draws WIDTH screenSize clip.region (fillRectClipped clip x y width height color) := by
  intro p hp
  refine ensures_bind fun part hpart => ?_
  cases part with
  | none => exact ensures_ok (.refl p)
  | some part =>
    intro q hq
    refine ((fillRect_fills hp).of_eq hq).toWithin.mono fun px py hin => ?_
    unfold ClipRect.intersect at hpart
    dsimp only at hpart
    split at hpart
    · cases hpart
    · split at hpart
      · cases hpart
      · obtain ⟨w, hw, hpart⟩ := bind_eq_ok hpart
        obtain ⟨h, hh, hpart⟩ := bind_eq_ok hpart
        obtain ⟨rfl, -⟩ := i32_of_ok hw
        obtain ⟨rfl, -⟩ := i32_of_ok hh
        cases hpart
        unfold inRect at hin
        unfold ClipRect.region
        dsimp only at hin
        omega

/-! ## Shapes stay within what their rectangles do -/

def Fill.Stays (R : Region) (fill : Fill) : Prop :=
  ∀ x y width height color, Draws WIDTH screenSize R (fill x y width height color)

theorem clipped_stays (clip : ClipRect) : Fill.Stays clip.region (fillRectClipped clip) := fillRectClipped_draws clip

section

variable {fill : Fill} (h : fill.Stays R)
include h

theorem Fill.Stays.border (x y width height : Int) (color : UInt32) :
    Draws WIDTH screenSize R (fill.border x y width height color) :=
  (h _ _ _ _ _).bind <| draws_of_value fun _ _ => draws_of_value fun _ _ => (h _ _ _ _ _).bind <|
    (h _ _ _ _ _).bind <| draws_of_value fun _ _ => draws_of_value fun _ _ => h _ _ _ _ _

theorem Fill.Stays.outline (x y width height : Int) (color : UInt32) :
    Draws WIDTH screenSize R (fill.outline x y width height color) := by
  refine draws_of_value fun _ _ => draws_of_value fun _ _ => (h _ _ _ _ _).bind ?_
  refine draws_of_value fun _ _ => draws_of_value fun _ _ => draws_of_value fun _ _ => (h _ _ _ _ _).bind ?_
  refine draws_of_value fun _ _ => draws_of_value fun _ _ => draws_of_value fun _ _ => (h _ _ _ _ _).bind ?_
  refine draws_of_value fun _ _ => draws_of_value fun _ _ => (h _ _ _ _ _).bind ?_
  refine draws_of_value fun _ _ => draws_of_value fun _ _ => draws_of_value fun _ _ => draws_of_value fun _ _ => ?_
  refine (h _ _ _ _ _).bind ?_
  refine draws_of_value fun _ _ => draws_of_value fun _ _ => draws_of_value fun _ _ => draws_of_value fun _ _ => ?_
  refine (h _ _ _ _ _).bind ?_
  refine draws_of_value fun _ _ => draws_of_value fun _ _ => draws_of_value fun _ _ => draws_of_value fun _ _ => ?_
  exact h _ _ _ _ _

theorem Fill.Stays.inner (x y width height : Int) (color : UInt32) :
    Draws WIDTH screenSize R (fill.inner x y width height color) := by
  refine draws_of_value fun _ _ => draws_of_value fun _ _ => draws_of_value fun _ _ => draws_of_value fun _ _ => ?_
  refine (h _ _ _ _ _).bind ?_
  refine draws_of_value fun _ _ => draws_of_value fun _ _ => draws_of_value fun _ _ => draws_of_value fun _ _ => ?_
  refine (h _ _ _ _ _).bind ?_
  refine draws_of_value fun _ _ => draws_of_value fun _ _ => draws_of_value fun _ _ => draws_of_value fun _ _ => ?_
  exact h _ _ _ _ _

theorem Fill.Stays.rounded (x y width height : Int) (color borderColor : UInt32) :
    Draws WIDTH screenSize R (fill.rounded x y width height color borderColor) :=
  .ite ((h _ _ _ _ _).bind (h.border _ _ _ _ _)) ((h.outline _ _ _ _ _).bind (h.inner _ _ _ _ _))

theorem Fill.Stays.text (x y : Int) (label : List UInt8) (scale : Int) (color : UInt32) :
    Draws WIDTH screenSize R (fill.text x y label scale color) := by
  refine Draws.foldlM fun byte _ => Draws.foldlM fun bits _ => Draws.foldlM fun column _ => .ite ?_ draws_ok
  refine draws_of_value fun _ _ => draws_of_value fun _ _ => draws_of_value fun _ _ => draws_of_value fun _ _ => ?_
  refine draws_of_value fun _ _ => draws_of_value fun _ _ => draws_of_value fun _ _ => ?_
  exact h _ _ _ _ _

end

end Pippin.Native
