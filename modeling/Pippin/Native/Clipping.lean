import Pippin.Native.Command
import Pippin.Native.Drawing

/-! Clipped drawing. A shape of clipped rectangles changes nothing outside the clip, and the
content of a framed surface nothing but the inside of its frame. What a drawing does to one pixel
is the same drawing on a picture of one pixel. -/

namespace Pippin.Native
open Checked Raster
open Pippin.Client (Pixels WIDTH HEIGHT)

/-- Below the title bar and inside the outermost pixel line of the frame. -/
def Window.interior (w : Window) : Region := fun px py =>
  w.x + 1 ≤ px ∧ px < w.x + w.width - 1 ∧ w.y + headerHeight < py ∧ py < w.y + w.height - 1

variable {w : Window} {R : Region} {fill : Fill}

theorem Fill.Stays.on (h : fill.Stays R) (d : Draw) : Draws WIDTH screenSize R (d.on fill) := by
  cases d with
  | fill => exact h _ _ _ _ _
  | border => exact h.border _ _ _ _ _
  | rounded => exact h.rounded _ _ _ _ _ _
  | text => exact h.text _ _ _ _ _

theorem Fill.Stays.paint (h : fill.Stays R) (draws : List Draw) : Draws WIDTH screenSize R (paint fill draws) :=
  Draws.foldlM fun d _ => h.on d

/-! ## One pixel -/

instance (x y width height px py : Int) : Decidable (inRect x y width height px py) :=
  inferInstanceAs (Decidable (_ ∧ _ ∧ _ ∧ _))

instance (clip : ClipRect) (px py : Int) : Decidable (clip.region px py) :=
  inferInstanceAs (Decidable (_ ∧ _ ∧ _ ∧ _))

def spot (hits : Int → Int → Int → Int → Bool) : Fill := fun x y width height color c =>
  .ok (if hits x y width height then #[color] else c)

/-- The one pixel has the colour of a pixel of the screen. -/
def Displays (px py : Nat) (p q : Pixels) : Prop := p.size = screenSize ∧ p[py * WIDTH + px]? = q[0]?

/-- Rectangles that do to the pictures of a relation what others do. -/
def Fill.Follows (Rel : Pixels → Pixels → Prop) (fill fill' : Fill) : Prop :=
  ∀ x y width height color, Raster.Follows Rel (fill x y width height color) (fill' x y width height color)

section

variable {Rel : Pixels → Pixels → Prop} {fill' : Fill} (h : fill.Follows Rel fill')
include h

theorem Fill.Follows.border (x y width height : Int) (color : UInt32) :
    Raster.Follows Rel (fill.border x y width height color) (fill'.border x y width height color) :=
  (h _ _ _ _ _).bind <| follows_of_value fun _ => follows_of_value fun _ => (h _ _ _ _ _).bind <|
    (h _ _ _ _ _).bind <| follows_of_value fun _ => follows_of_value fun _ => h _ _ _ _ _

theorem Fill.Follows.outline (x y width height : Int) (color : UInt32) :
    Raster.Follows Rel (fill.outline x y width height color) (fill'.outline x y width height color) := by
  refine follows_of_value fun _ => follows_of_value fun _ => (h _ _ _ _ _).bind ?_
  refine follows_of_value fun _ => follows_of_value fun _ => follows_of_value fun _ => (h _ _ _ _ _).bind ?_
  refine follows_of_value fun _ => follows_of_value fun _ => follows_of_value fun _ => (h _ _ _ _ _).bind ?_
  refine follows_of_value fun _ => follows_of_value fun _ => (h _ _ _ _ _).bind ?_
  refine follows_of_value fun _ => follows_of_value fun _ => follows_of_value fun _ => follows_of_value fun _ => ?_
  refine (h _ _ _ _ _).bind ?_
  refine follows_of_value fun _ => follows_of_value fun _ => follows_of_value fun _ => follows_of_value fun _ => ?_
  refine (h _ _ _ _ _).bind ?_
  refine follows_of_value fun _ => follows_of_value fun _ => follows_of_value fun _ => follows_of_value fun _ => ?_
  exact h _ _ _ _ _

theorem Fill.Follows.inner (x y width height : Int) (color : UInt32) :
    Raster.Follows Rel (fill.inner x y width height color) (fill'.inner x y width height color) := by
  refine follows_of_value fun _ => follows_of_value fun _ => follows_of_value fun _ => follows_of_value fun _ => ?_
  refine (h _ _ _ _ _).bind ?_
  refine follows_of_value fun _ => follows_of_value fun _ => follows_of_value fun _ => follows_of_value fun _ => ?_
  refine (h _ _ _ _ _).bind ?_
  refine follows_of_value fun _ => follows_of_value fun _ => follows_of_value fun _ => follows_of_value fun _ => ?_
  exact h _ _ _ _ _

theorem Fill.Follows.on (d : Draw) : Raster.Follows Rel (d.on fill) (d.on fill') := by
  cases d with
  | fill => exact h _ _ _ _ _
  | border => exact h.border _ _ _ _ _
  | rounded =>
    exact .ite ((h _ _ _ _ _).bind (h.border _ _ _ _ _)) ((h.outline _ _ _ _ _).bind (h.inner _ _ _ _ _))
  | text =>
    refine Raster.Follows.foldlM fun byte => Raster.Follows.foldlM fun bits => Raster.Follows.foldlM fun column =>
      .ite ?_ follows_ok
    refine follows_of_value fun _ => follows_of_value fun _ => follows_of_value fun _ => follows_of_value fun _ => ?_
    refine follows_of_value fun _ => follows_of_value fun _ => follows_of_value fun _ => ?_
    exact h _ _ _ _ _

theorem Fill.Follows.paint (draws : List Draw) : Raster.Follows Rel (paint fill draws) (paint fill' draws) :=
  Raster.Follows.foldlM fun d => h.on d

end

section

variable {px py : Nat} (hx : px < WIDTH) (hy : py < HEIGHT)
include hx hy

theorem displays_of_fills {m : Checked Pixels} {color : UInt32} {p c : Pixels} {hit : Bool} (hrel : Displays px py p c)
    (hhit : hit = true ↔ R px py) (h : Yields m (Fills WIDTH R color p)) :
    Yields m fun q => Displays px py q (if hit then #[color] else c) := by
  refine h.mono fun q hq => ⟨hq.size.trans hrel.1, ?_⟩
  cases hit with
  | true =>
    refine hq.inside px py hx ?_ (hhit.mp rfl)
    rw [hrel.1]
    unfold screenSize WIDTH HEIGHT at *
    omega
  | false => exact (hq.same px py hx fun hin => nomatch hhit.mpr hin).trans hrel.2

theorem fillRect_follows : Fill.Follows (Displays px py) fillRect
    (spot fun x y width height => decide (inRect x y width height px py)) := by
  rintro x y width height color p c hrel c' ⟨⟩
  exact displays_of_fills hx hy hrel decide_eq_true_iff (fillRect_fills hrel.1)

theorem fillRectClipped_follows {clip : ClipRect} (hclip : clip.Half) :
    Fill.Follows (Displays px py) (fillRectClipped clip)
      (spot fun x y width height => decide (inRect x y width height px py ∧ clip.region px py)) := by
  rintro x y width height color p c hrel c' ⟨⟩
  exact displays_of_fills hx hy hrel decide_eq_true_iff (fillRectClipped_fills hrel.1 hclip)

end

theorem contentClip_region {clip : ClipRect} (hw : w.role.framed = true) (h : w.contentClip = .ok clip) :
    clip.region = w.interior := by
  unfold Window.contentClip at h
  simp only [hw, if_true] at h
  obtain ⟨top, htop, h⟩ := bind_eq_ok h
  obtain ⟨below, hbelow, htop⟩ := bind_eq_ok htop
  obtain ⟨left, hleft, h⟩ := bind_eq_ok h
  obtain ⟨edge, hedge, h⟩ := bind_eq_ok h
  obtain ⟨right, hright, h⟩ := bind_eq_ok h
  obtain ⟨base, hbase, h⟩ := bind_eq_ok h
  obtain ⟨bottom, hbottom, h⟩ := bind_eq_ok h
  cases h
  obtain ⟨rfl, -⟩ := i32_of_ok hbelow
  obtain ⟨rfl, -⟩ := i32_of_ok htop
  obtain ⟨rfl, -⟩ := i32_of_ok hleft
  obtain ⟨rfl, -⟩ := i32_of_ok hedge
  obtain ⟨rfl, -⟩ := i32_of_ok hright
  obtain ⟨rfl, -⟩ := i32_of_ok hbase
  obtain ⟨rfl, -⟩ := i32_of_ok hbottom
  funext px py
  unfold ClipRect.region Window.interior
  refine propext ?_
  dsimp only
  omega

namespace Compositor

variable {s : Compositor} {focused : Bool} {d : Drawing}

theorem windowDraws_clip (hw : w.role.framed = true) (h : s.windowDraws w focused = .ok d) :
    w.contentClip = .ok d.clip := by
  unfold windowDraws at h
  cases hrole : w.role with
  | P => rw [hrole] at hw; cases hw
  | D => rw [hrole] at hw; cases hw
  | N => rw [hrole] at hw; cases hw
  | W | L =>
    rw [hrole] at h
    obtain ⟨clip, hclip, h⟩ := bind_eq_ok h
    obtain ⟨shapes, -, h⟩ := bind_eq_ok h
    obtain ⟨content, -, h⟩ := bind_eq_ok h
    cases h
    exact hclip

/-- Clipped rectangles fill what is in the rectangle, the clip and the screen; the shapes made of
them stay in the clip, and the content of a framed surface stays inside its frame. -/
theorem clipped_drawing {p : Pixels} (hp : p.size = screenSize) (clip : ClipRect) :
    (clip.Half → ∀ x y width height color, Yields (fillRectClipped clip x y width height color p)
      (Fills WIDTH (fun px py => inRect x y width height px py ∧ clip.region px py) color p)) ∧
    (∀ x y label scale color, Ensures (textClipped clip x y label scale color p) (Within WIDTH clip.region p)) ∧
    (∀ x y width height color, Ensures (borderClipped clip x y width height color p) (Within WIDTH clip.region p)) ∧
    (∀ x y width height color borderColor,
      Ensures (roundedRectClipped clip x y width height color borderColor p) (Within WIDTH clip.region p)) ∧
    ∀ (s : Compositor) (w : Window) (focused : Bool) (d : Drawing), w.role.framed = true →
      s.windowDraws w focused = .ok d →
      Ensures (paint (fillRectClipped d.clip) d.content p) (Within WIDTH w.interior p) := by
  have hstays := clipped_stays clip
  refine ⟨fun hclip x y width height color => fillRectClipped_fills hp hclip, ?_, ?_, ?_, ?_⟩
  · exact fun x y label scale color => hstays.text x y label scale color p hp
  · exact fun x y width height color => hstays.border x y width height color p hp
  · exact fun x y width height color borderColor => hstays.rounded x y width height color borderColor p hp
  · intro s w focused d hw h
    rw [← contentClip_region hw (windowDraws_clip hw h)]
    exact (clipped_stays d.clip).paint d.content p hp

theorem clipped_drawing_blank :
    Ensures (textClipped ⟨0, 0, 9, 9⟩ 4 4 (Str.bytes "E".toList) 1 CHROME_INK (.replicate screenSize 0))
    (Within WIDTH (ClipRect.region ⟨0, 0, 9, 9⟩) (.replicate screenSize 0)) :=
  (clipped_drawing Array.size_replicate ⟨0, 0, 9, 9⟩).2.1 4 4 (Str.bytes "E".toList) 1 CHROME_INK

def labelled : Window where
  id := "a".toList
  role := .W
  x := 0
  y := 0
  width := 100
  height := 73
  title := "t".toList
  rows := [plainRow "EEEEEE".toList [] kindLabel]
  native := false
  maximized := false
  minimized := false
  scrollY := 0
  restore := none

/-- The label runs over the stepped corner of the border. -/
theorem label_over_border : ∃ s d, (new []).command "S|a|W|0|0|100|73|t|EEEEEE".toList = .ok (s, true) ∧
    labelled ∈ s.windows ∧ s.windowDraws labelled true = .ok d ∧
    ∃ q r, paint fillRect d.shapes (.replicate screenSize 0) = .ok q ∧
      paint (fillRectClipped d.clip) d.content q = .ok r ∧
      q[70 * WIDTH + 98]? = some CHROME_BORDER ∧ r[70 * WIDTH + 98]? = some CHROME_INK := by
  have hcommand : (new []).command "S|a|W|0|0|100|73|t|EEEEEE".toList =
    .ok ({ new [] with windows := [labelled] }, true) := by
    decide +kernel
  -- the drawing on the one pixel (98, 70)
  have hspot : (do
      let d ← ({ new [] with windows := [labelled] } : Compositor).windowDraws labelled true
      let q ← paint (spot fun x y width height => decide (inRect x y width height 98 70)) d.shapes #[0]
      let r ← paint (spot fun x y width height =>
        decide (inRect x y width height 98 70 ∧ ClipRect.region ⟨1, 45, 99, 72⟩ 98 70)) d.content q
      return (q, r) : Checked (Pixels × Pixels)) = .ok (#[CHROME_BORDER], #[CHROME_INK]) := by
    decide +kernel
  obtain ⟨d, hd, hspot⟩ := bind_eq_ok hspot
  obtain ⟨q, hq, hspot⟩ := bind_eq_ok hspot
  obtain ⟨r, hr, hspot⟩ := bind_eq_ok hspot
  cases hspot
  have hclip : d.clip = ⟨1, 45, 99, 72⟩ := Except.ok.inj ((windowDraws_clip rfl hd).symm.trans (by decide))
  rw [← hclip] at hr
  have hx : 98 < WIDTH := by decide
  have hy : 70 < HEIGHT := by decide
  have hblank : Displays 98 70 (.replicate screenSize 0) #[0] := by
    refine ⟨Array.size_replicate, ?_⟩
    rw [Array.getElem?_replicate, if_pos (by decide)]
    rfl
  obtain ⟨q, hframe, hshown⟩ := (fillRect_follows hx hy).paint d.shapes _ _ hblank _ hq
  have hhalf : d.clip.Half := hclip ▸ ⟨by decide, by decide, by decide, by decide⟩
  obtain ⟨r, hcontent, hover⟩ := (fillRectClipped_follows hx hy hhalf).paint d.content _ _ hshown _ hr
  exact ⟨_, d, hcommand, List.mem_singleton_self _, hd, q, r, hframe, hcontent, hshown.2, hover.2⟩

end Compositor

end Pippin.Native
