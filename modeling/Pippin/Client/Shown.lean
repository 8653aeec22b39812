import Pippin.Client.Focus
import Pippin.Lib.Raster

/-! What a client hears of a press is what the user saw: the client is told the pixel of its surface that was
painted under the pointer. Only a shadow can hide that pixel. -/

namespace Pippin.Client
open Checked Keyed Raster

def inRect (x y width height : Int) : Region := fun px py => x ≤ px ∧ px < x + width ∧ y ≤ py ∧ py < y + height

namespace Window

def frame (w : Window) : Region := inRect w.x w.y (w.width + 2) (w.height + 45)

def shadow (w : Window) : Region := fun px py =>
  inRect (w.x + 4) (w.y + 5) (w.width + 2) (w.height + 45) px py ∨
    inRect (w.x + 8) (w.y + 10) (w.width + 2) (w.height + 45) px py

def corner (w : Window) : Region := inRect (w.x + w.width - 12) (w.y + w.height + 31) 14 14

def content (w : Window) : Region := inRect (w.x + 1) (w.y + 44) w.width w.height

end Window

section Painting

variable {pixels : Pixels} {color : UInt32} {w : Window} {x y width height : Int}

theorem set_draws {row col : Int} (hr : 0 ≤ row) (hc : 0 ≤ col ∧ col < WIDTH) :
    Draws WIDTH (WIDTH * HEIGHT) (fun px py => px = col ∧ py = row)
      fun p => set p (row.toNat * WIDTH + col.toNat) color := by
  intro p _ q hq
  change set p _ color = _ at hq
  unfold Checked.set at hq
  split_ifs at hq with hlt
  cases hq
  refine ⟨Array.size_set hlt, fun px py hpx hout => ?_⟩
  refine Array.getElem?_set_ne hlt fun he => hout ?_
  unfold WIDTH at *
  omega

theorem set_puts (p : Pixels) (i : Nat) : Ensures (set p i color) fun q => q.size = p.size ∧ q[i]? = some color := by
  intro q hq
  unfold Checked.set at hq
  split_ifs at hq with hlt
  cases hq
  exact ⟨Array.size_set hlt, Array.getElem?_set_self hlt⟩

theorem fill_draws (x y width height : Int) (color : UInt32) :
    Draws WIDTH (WIDTH * HEIGHT) (inRect x y width height) fun p => fill p x y width height color := by
  unfold fill
  refine draws_of_value fun bottom hbottom => Draws.foldlM fun row hrow => ?_
  refine draws_of_value fun right hright => Draws.foldlM fun col hcol => ?_
  obtain ⟨rfl, -⟩ := i32_of_ok hbottom
  obtain ⟨rfl, -⟩ := i32_of_ok hright
  rw [mem_range] at hrow hcol
  refine (set_draws (by omega) (by omega)).mono fun px py hat => ?_
  unfold inRect
  omega

theorem text_draws (x y : Int) (label : List UInt8) (color : UInt32) (maxChars : Nat) :
    Draws WIDTH (WIDTH * HEIGHT) (inRect x y (7 * min label.length maxChars : Nat) 7)
      fun p => text p x y label color maxChars := by
  unfold text
  refine Draws.foldlM fun b hb => Draws.foldlM fun r hr => Draws.foldlM fun col hcol => ?_
  have hindex := List.snd_lt_of_mem_zipIdx hb
  have hrow := List.snd_lt_of_mem_zipIdx hr
  rw [List.length_take] at hindex
  rw [length_glyph] at hrow
  rw [List.mem_range] at hcol
  refine Draws.ite ?_ draws_ok
  refine draws_of_value fun shift hshift => draws_of_value fun left hleft => draws_of_value fun px hpx =>
    draws_of_value fun py hpy => ?_
  obtain ⟨rfl, -⟩ := i32_of_ok hshift
  obtain ⟨rfl, -⟩ := i32_of_ok hleft
  obtain ⟨rfl, -⟩ := i32_of_ok hpx
  obtain ⟨rfl, -⟩ := i32_of_ok hpy
  refine (fill_draws _ _ _ _ _).mono fun px py hin => ?_
  unfold inRect at *
  omega

def paintRow (w : Window) (sy : Int) (pixels : Pixels) : Checked Pixels := do
  let dy ← i32 ((← i32 (w.y + 44)) + sy)
  if dy < 0 ∨ dy ≥ HEIGHT then return pixels
  else
    (range 0 w.width).foldlM (fun pixels sx => do
      let dx ← i32 ((← i32 (w.x + 1)) + sx)
      if dx ≥ 0 ∧ dx < WIDTH then
        set pixels (dy.toNat * WIDTH + dx.toNat) (← get w.surface (sy.toNat * w.width.toNat + sx.toNat))
      else return pixels) pixels

theorem paintSurface_eq (w : Window) :
    paintSurface w = fun p => (range 0 w.height).foldlM (fun p sy => paintRow w sy p) p := rfl

theorem pixel_draws {sx sy : Int} (hon : ¬(w.y + 44 + sy < 0 ∨ w.y + 44 + sy ≥ HEIGHT)) :
    Draws WIDTH (WIDTH * HEIGHT) (fun px py => px = w.x + 1 + sx ∧ py = w.y + 44 + sy) fun p => do
      let dx ← i32 ((← i32 (w.x + 1)) + sx)
      if dx ≥ 0 ∧ dx < WIDTH then
        set p ((w.y + 44 + sy).toNat * WIDTH + dx.toNat) (← get w.surface (sy.toNat * w.width.toNat + sx.toNat))
      else return p := by
  refine draws_of_value fun left hleft => draws_of_value fun dx hdx => ?_
  obtain ⟨rfl, -⟩ := i32_of_ok hleft
  obtain ⟨rfl, -⟩ := i32_of_ok hdx
  by_cases hcol : w.x + 1 + sx ≥ 0 ∧ w.x + 1 + sx < WIDTH
  · simp only [if_pos hcol]
    exact draws_of_value fun color _ => set_draws (by omega) hcol
  · simp only [if_neg hcol]
    exact draws_ok

/-! ## A window -/

section

variable (hw : w.Ok)

include hw

theorem paintFrame_draws (focused : Bool) : Draws WIDTH (WIDTH * HEIGHT) (fun px py => w.frame px py ∨ w.shadow px py)
    fun p => paintFrame w focused (w.width + 2) (w.height + 45) p := by
  have h1 := hw.width
  have h2 := hw.height
  have h3 := hw.x
  have h4 := hw.y
  unfold paintFrame titleHeight Window.frame Window.shadow
  simp (disch := omega) only [i32_eq, ok_bind]
  refine ((fill_draws _ _ _ _ _).mono fun px py hin => Or.inr (Or.inr hin)).bind ?_
  refine ((fill_draws _ _ _ _ _).mono fun px py hin => Or.inr (Or.inl hin)).bind ?_
  refine ((fill_draws _ _ _ _ _).mono fun px py hin => Or.inl hin).bind ?_
  refine ((fill_draws _ _ _ _ _).mono fun px py hin => Or.inl ?_).bind ?_
  · unfold inRect at *
    omega
  refine ((fill_draws _ _ _ _ _).mono fun px py hin => Or.inl ?_).bind ?_
  · unfold inRect at *
    omega
  refine (fill_draws _ _ _ _ _).mono fun px py hin => Or.inl ?_
  unfold inRect at *
  omega

theorem paintTitle_draws (focused : Bool) : Draws WIDTH (WIDTH * HEIGHT) w.frame
    fun p => paintTitle w focused (w.width + 2) p := by
  have h1 := hw.width
  have h2 := hw.height
  have h3 := hw.x
  have h4 := hw.y
  have h5 := hw.title
  have hchars : 7 * (max ((w.width + 2 - 88).tdiv 7) 0).toNat ≤ 516 ∧
      ((7 * (max ((w.width + 2 - 88).tdiv 7) 0).toNat : Nat) : Int) ≤ max (w.width - 86) 0 := by
    rcases Int.le_total 0 (w.width + 2 - 88) with hroom | hnone
    · rw [Int.tdiv_eq_ediv_of_nonneg hroom]
      omega
    · have hneg := Int.tdiv_nonneg (Int.neg_nonneg_of_nonpos hnone) (by decide : (0 : Int) ≤ 7)
      rw [Int.neg_tdiv] at hneg
      omega
  unfold paintTitle Window.frame
  simp (disch := omega) only [i32_eq, ok_bind]
  generalize (max ((w.width + 2 - 88).tdiv 7) 0).toNat = chars at hchars ⊢
  refine ((fill_draws _ _ _ _ _).mono fun px py hin => ?_).bind ?_
  · unfold inRect at *
    omega
  refine ((fill_draws _ _ _ _ _).mono fun px py hin => ?_).bind ?_
  · unfold inRect at *
    omega
  refine ((text_draws _ _ _ _ _).mono fun px py hin => ?_).bind ?_
  · unfold inRect at *
    have hone : 7 * min ([88] : List UInt8).length 1 = 7 := rfl
    rw [hone] at hin
    omega
  have hhalf : (w.width + 2 - (min w.title.len chars : Nat) * 7).tdiv 2 =
      (w.width + 2 - (min w.title.len chars : Nat) * 7) / 2 := Int.tdiv_eq_ediv_of_nonneg (by omega)
  rw [hhalf, i32_eq (by omega) (by omega)]
  simp only [ok_bind]
  refine (text_draws _ _ _ _ _).mono fun px py hin => ?_
  have hlen : w.title.len = (Str.bytes w.title).length := rfl
  unfold inRect at *
  omega

section

variable {sy : Int} (hsy : 0 ≤ sy ∧ sy < w.height)

include hsy

theorem paintRow_eq (p : Pixels) : paintRow w sy p =
    if w.y + 44 + sy < 0 ∨ w.y + 44 + sy ≥ HEIGHT then .ok p
    else (range 0 w.width).foldlM (fun p sx => do
      let dx ← i32 ((← i32 (w.x + 1)) + sx)
      if dx ≥ 0 ∧ dx < WIDTH then
        set p ((w.y + 44 + sy).toNat * WIDTH + dx.toNat) (← get w.surface (sy.toNat * w.width.toNat + sx.toNat))
      else return p) p := by
  have h1 := hw.height
  have h2 := hw.y
  unfold paintRow
  rw [i32_eq (by omega) (by omega), ok_bind, i32_eq (by omega) (by omega), ok_bind]
  rfl

theorem paintRow_draws : Draws WIDTH (WIDTH * HEIGHT)
    (fun px py => w.x + 1 ≤ px ∧ px < w.x + 1 + w.width ∧ py = w.y + 44 + sy) fun p => paintRow w sy p := by
  simp only [paintRow_eq hw hsy]
  by_cases hon : w.y + 44 + sy < 0 ∨ w.y + 44 + sy ≥ HEIGHT
  · simp only [if_pos hon]
    exact draws_ok
  · simp only [if_neg hon]
    refine Draws.foldlM fun sx hsx => (pixel_draws hon).mono fun px py hat => ?_
    rw [mem_range] at hsx
    omega

end

theorem paintSurface_draws : Draws WIDTH (WIDTH * HEIGHT) w.content fun p => paintSurface w p := by
  rw [paintSurface_eq]
  refine Draws.foldlM fun sy hsy => ?_
  rw [mem_range] at hsy
  refine (paintRow_draws hw hsy).mono fun px py hat => ?_
  unfold Window.content inRect
  omega

theorem paintWindow_eq (focused : Bool) (p : Pixels) : paintWindow w focused p = (do
    let p ← paintFrame w focused (w.width + 2) (w.height + 45) p
    let p ← paintTitle w focused (w.width + 2) p
    let p ← fill p (w.x + 1) (w.y + 44) w.width w.height SURFACE
    let p ← paintSurface w p
    let p ← fill p (w.x + w.width - 9) (w.y + w.height + 40) 7 1 0x009aa2a8
    fill p (w.x + w.width - 6) (w.y + w.height + 37) 4 1 0x009aa2a8) := by
  have h1 := hw.width
  have h2 := hw.height
  have h3 := hw.x
  have h4 := hw.y
  have hx9 : w.x + (w.width + 2) - 11 = w.x + w.width - 9 := by ring
  have hy40 : w.y + (w.height + 45) - 5 = w.y + w.height + 40 := by ring
  have hx6 : w.x + (w.width + 2) - 8 = w.x + w.width - 6 := by ring
  have hy37 : w.y + (w.height + 45) - 8 = w.y + w.height + 37 := by ring
  unfold paintWindow border titleHeight
  rw [Window.frameWidth_eq hw, Window.frameHeight_eq hw]
  simp (disch := omega) only [i32_eq, ok_bind, hx9, hy40, hx6, hy37]

theorem paintWindow_draws (focused : Bool) : Draws WIDTH (WIDTH * HEIGHT) (fun px py => w.frame px py ∨ w.shadow px py)
    fun p => paintWindow w focused p := by
  have h1 := hw.width
  have h2 := hw.height
  simp only [paintWindow_eq hw]
  refine (paintFrame_draws hw focused).bind ?_
  refine ((paintTitle_draws hw focused).mono fun px py => Or.inl).bind ?_
  refine ((fill_draws _ _ _ _ _).mono fun px py hin => Or.inl ?_).bind ?_
  · unfold Window.frame inRect at *
    omega
  refine ((paintSurface_draws hw).mono fun px py hin => Or.inl ?_).bind ?_
  · unfold Window.content Window.frame inRect at *
    omega
  refine ((fill_draws _ _ _ _ _).mono fun px py hin => Or.inl ?_).bind ?_
  · unfold Window.frame inRect at *
    omega
  refine (fill_draws _ _ _ _ _).mono fun px py hin => Or.inl ?_
  unfold Window.frame inRect at *
  omega

section

variable {px py : Nat} {a : UInt32} (hx : px < WIDTH) (hy : py < HEIGHT) (hin : w.content px py)
  (ha : w.surface[(py - w.y - 44).toNat * w.width.toNat + (px - w.x - 1).toNat]? = some a)

include hx hy hin ha

theorem paintRow_puts : Puts WIDTH (WIDTH * HEIGHT) px py a fun p => paintRow w (py - w.y - 44) p := by
  have h1 := hw.width
  have h2 := hw.x
  obtain ⟨hx0, hx1, hy0, hy1⟩ := hin
  have hon : ¬(w.y + 44 + (py - w.y - 44) < 0 ∨ w.y + 44 + (py - w.y - 44) ≥ HEIGHT) := by omega
  simp only [paintRow_eq hw (show 0 ≤ py - w.y - 44 ∧ py - w.y - 44 < w.height by omega), if_neg hon]
  refine Puts.foldlM hx (getElem?_range (show 0 ≤ px - w.x - 1 ∧ px - w.x - 1 < w.width by omega)) ?_ ?_ ?_
  · -- the pixel itself
    intro p hp
    have hcol : w.x + 1 + (px - w.x - 1) ≥ 0 ∧ w.x + 1 + (px - w.x - 1) < WIDTH := by omega
    have hi : (w.y + 44 + (py - w.y - 44)).toNat * WIDTH + (w.x + 1 + (px - w.x - 1)).toNat = py * WIDTH + px := by
      have hrow : (w.y + 44 + (py - w.y - 44)).toNat = py := by omega
      have hcol : (w.x + 1 + (px - w.x - 1)).toNat = px := by omega
      rw [hrow, hcol]
    unfold WIDTH at hx
    dsimp only
    rw [i32_eq (by omega) (by omega), ok_bind, i32_eq (by omega) (by omega), ok_bind, if_pos hcol, get_eq ha, ok_bind,
      hi, ← hp]
    exact set_puts p _
  · exact fun sx hsx => (pixel_draws hon).mono fun px py _ => trivial
  · intro j hj sx hsx
    refine (pixel_draws hon).mono fun qx qy hat heq => ?_
    have := of_getElem?_range hsx
    omega

theorem paintSurface_puts : Puts WIDTH (WIDTH * HEIGHT) px py a fun p => paintSurface w p := by
  have hrow := hin.2.2
  rw [paintSurface_eq]
  refine Puts.foldlM hx (getElem?_range (show 0 ≤ py - w.y - 44 ∧ py - w.y - 44 < w.height by omega)) ?_ ?_ ?_
  · exact paintRow_puts hw hx hy hin ha
  · intro sy hsy
    rw [mem_range] at hsy
    exact (paintRow_draws hw hsy).mono fun px py _ => trivial
  · intro j hj sy hsy
    have hmem := List.mem_of_getElem? hsy
    rw [mem_range] at hmem
    refine (paintRow_draws hw hmem).mono fun qx qy hat heq => ?_
    have := of_getElem?_range hsy
    omega

theorem paintWindow_puts (hcorner : ¬w.corner px py) (focused : Bool) :
    Puts WIDTH (WIDTH * HEIGHT) px py a fun p => paintWindow w focused p := by
  simp only [paintWindow_eq hw]
  refine (paintFrame_draws hw focused).puts ?_
  refine (paintTitle_draws hw focused).puts ?_
  refine (fill_draws _ _ _ _ _).puts ?_
  refine (paintSurface_puts hw hx hy hin ha).keep (R := w.corner) ?_ hx hcorner
  refine ((fill_draws _ _ _ _ _).mono fun qx qy hat => ?_).bind ((fill_draws _ _ _ _ _).mono fun qx qy hat => ?_)
  · unfold Window.corner inRect at *
    omega
  · unfold Window.corner inRect at *
    omega

end

end

end Painting

/-! ## The screen -/

namespace WindowServer

variable {s t : WindowServer} {w : Window} {below above : List Window} {id : UInt32} {x y lx ly : Int} {a : UInt32}
  {left wasLeft owned : Bool} {events : List Event} {index : Nat}

/-- A repaint of the whole screen leaves the colour at the point. -/
def ShowsAt (s : WindowServer) (x y : Int) (a : UInt32) : Prop := ∀ pixels, Screen pixels →
  Yields (s.paint pixels) fun p => p[y.toNat * WIDTH + x.toNat]? = some a

theorem showsAt (hs : s.Inv) (hx : 0 ≤ x ∧ x ≤ 1023) (hy : 0 ≤ y ∧ y ≤ 767) (hlist : s.windows = below ++ w :: above)
    (hvis : w.visible = true) (hin : w.content x y) (hcorner : ¬w.corner x y)
    (ha : w.surface[(y - w.y - 44).toNat * w.width.toNat + (x - w.x - 1).toNat]? = some a)
    (hclear : ∀ v ∈ above, v.visible = true → ¬v.frame x y ∧ ¬v.shadow x y) : s.ShowsAt x y a := by
  obtain ⟨px, rfl⟩ := Int.eq_ofNat_of_zero_le hx.1
  obtain ⟨py, rfl⟩ := Int.eq_ofNat_of_zero_le hy.1
  have hpx : px < WIDTH := by
    unfold WIDTH
    omega
  have hpy : py < HEIGHT := by
    unfold HEIGHT
    omega
  have hok : ∀ v ∈ s.windows, v.Ok := hs.windows
  have hw : w ∈ s.windows := hlist ▸ List.mem_append_right below List.mem_cons_self
  have hputs : Puts WIDTH (WIDTH * HEIGHT) px py a fun p => s.paint p := by
    unfold paint
    -- the window puts the pixel there, and no window painted later touches it
    refine Puts.foldlM (i := below.length) (b := w) hpx ?_ ?_ ?_ ?_
    · rw [hlist, List.getElem?_append_right (Nat.le_refl _), Nat.sub_self, List.getElem?_cons_zero]
    · simp only [hvis, Bool.not_true, Bool.false_eq_true, if_false]
      exact paintWindow_puts (hok w hw) hpx hpy hin ha hcorner _
    · intro v hv
      refine Draws.ite draws_ok ((paintWindow_draws (hok v hv) _).mono fun _ _ _ => trivial)
    · intro j hj v hv
      have hv' : v ∈ above := by
        rw [hlist, List.getElem?_append_right (Nat.le_of_lt hj)] at hv
        obtain ⟨k, hk⟩ := Nat.exists_eq_succ_of_ne_zero (Nat.sub_ne_zero_of_lt hj)
        rw [hk, List.getElem?_cons_succ] at hv
        exact List.mem_of_getElem? hv
      have hmem : v ∈ s.windows := hlist ▸ List.mem_append_right below (List.mem_cons_of_mem w hv')
      by_cases hshown : v.visible = true
      · simp only [hshown, Bool.not_true, Bool.false_eq_true, if_false]
        obtain ⟨hframe, hshadow⟩ := hclear v hv' hshown
        refine (paintWindow_draws (hok v hmem) _).mono fun qx qy hat => ?_
        rintro ⟨rfl, rfl⟩
        exact hat.elim hframe hshadow
      · simp only [hshown, Bool.not_false, if_true]
        exact draws_ok
  intro pixels hp
  obtain ⟨p, hpaint, -⟩ := paint_yields hs hp
  exact ⟨p, hpaint, (hputs pixels hp p hpaint).2⟩

/-! ## The press -/

theorem resizeCorner_eq {localX localY : Int} (hw : w.Ok) : w.resizeCorner localX localY =
    .ok (decide (w.width - 12 ≤ localX ∧ w.height + 31 ≤ localY)) := by
  have hwidth := hw.width
  have hheight := hw.height
  have hx12 : w.width + 2 - 14 = w.width - 12 := by ring
  have hy31 : w.height + 45 - 14 = w.height + 31 := by ring
  unfold Window.resizeCorner
  rw [Window.frameWidth_eq hw, Window.frameHeight_eq hw, ok_bind, ok_bind, hx12, hy31, i32_eq (by omega) (by omega),
    i32_eq (by omega) (by omega), ok_bind, ok_bind]
  by_cases hx : w.width - 12 ≤ localX
  · simp only [ge_iff_le, hx, if_true, true_and]
    rfl
  · simp only [ge_iff_le, hx, if_false, false_and, decide_false]
    rfl

theorem press_down (hs : s.Inv) (hx : 0 ≤ x ∧ x ≤ 1023) (hy : 0 ≤ y ∧ y ≤ 767) (hw : s.windows[index]? = some w)
    (hc : w.covers x y = true) (h : press s x y index = .ok (t, events))
    (he : ⟨id, .MouseDown, lx, ly⟩ ∈ events) : t.windows = raise Window.id w.id s.windows ∧ w.id = id ∧
      lx = x - w.x - 1 ∧ ly = y - w.y - 44 ∧ w.content x y ∧ ¬w.corner x y := by
  have hmem := List.mem_of_getElem? hw
  have hok := hs.windows w hmem
  simp only [Window.covers, Bool.and_eq_true, decide_eq_true_eq] at hc
  have hwx := hok.x
  have hwy := hok.y
  have hwidth := hok.width
  have hheight := hok.height
  have hfocus : ⟨id, .MouseDown, lx, ly⟩ ∉ s.focusEvents w.id := fun hmem => by
    rcases focusEvents_kind hmem with h | h <;> cases h
  unfold press at h
  rw [get_eq hw, ok_bind] at h
  dsimp only at h
  rw [focus_eq hs.distinct hmem, ok_bind] at h
  dsimp only at h
  rw [raise_eq hs.distinct hmem, List.getLast?_concat, ← raise_eq hs.distinct hmem] at h
  simp only [unwrap, ok_bind, Window.frameWidth_eq hok, resizeCorner_eq hok, Window.localPoint_eq hok hx hy] at h
  simp (disch := omega) only [i32_eq, ok_bind] at h
  -- the grip starts a resize, so a press is passed on only below the title and off the grip
  by_cases hgrip : w.width - 12 ≤ x - w.x ∧ w.height + 31 ≤ y - w.y
  · rw [decide_eq_true hgrip] at h
    dsimp only at h
    split_ifs at h with htitle hclose
    · cases h
      rcases List.mem_append.mp he with he | he
      · exact absurd he hfocus
      · cases List.mem_singleton.mp he
    · cases h
      exact absurd he hfocus
    · cases h
      exact absurd he hfocus
  · rw [decide_eq_false hgrip] at h
    dsimp only at h
    split_ifs at h with htitle hclose hbody
    · cases h
      rcases List.mem_append.mp he with he | he
      · exact absurd he hfocus
      · cases List.mem_singleton.mp he
    · cases h
      exact absurd he hfocus
    · cases h
      rcases List.mem_append.mp he with he | he
      · exact absurd he hfocus
      · cases List.mem_singleton.mp he
        -- the only branch with a `MouseDown` of the window itself
        refine ⟨rfl, rfl, rfl, rfl, ?_, ?_⟩
        · unfold Window.content inRect
          omega
        · unfold Window.corner inRect
          omega
    · cases h
      exact absurd he hfocus

theorem hover_not_down {hit : Option Nat} (h : hover s x y hit = .ok (owned, t, events)) :
    ⟨id, .MouseDown, lx, ly⟩ ∉ events := by
  unfold hover at h
  cases hit with
  | none =>
    cases h
    exact List.not_mem_nil
  | some index =>
    obtain ⟨w, -, h⟩ := bind_eq_ok h
    obtain ⟨p, -, h⟩ := bind_eq_ok h
    dsimp only at h
    split_ifs at h with hin
    · cases h
      simp
    · cases h
      exact List.not_mem_nil

theorem release_not_down {i : UInt32} (h : release s x y i = .ok (t, events)) :
    ⟨id, .MouseDown, lx, ly⟩ ∉ events := by
  unfold release at h
  split at h
  · obtain ⟨p, -, h⟩ := bind_eq_ok h
    cases h
    simp
  · cases h
    exact List.not_mem_nil

theorem track_down (h : track s x y left wasLeft = .ok (owned, t, events)) (he : ⟨id, .MouseDown, lx, ly⟩ ∈ events) :
    left = true ∧ ∃ index, rposition (·.contains x y) s.windows = .ok (some index) ∧
      press s x y index = .ok (t, events) := by
  obtain ⟨hit, hhit, h⟩ := bind_eq_ok h
  split_ifs at h with hdown hup
  · rw [Bool.and_eq_true] at hdown
    refine ⟨hdown.1, ?_⟩
    cases hit with
    | none =>
      cases h
      exact absurd he List.not_mem_nil
    | some index =>
      obtain ⟨r, hpress, h⟩ := bind_eq_ok h
      cases h
      exact ⟨index, hhit, hpress⟩
  · cases hp : s.pressed with
    | none =>
      rw [hp] at h
      exact absurd he (hover_not_down h)
    | some i =>
      rw [hp] at h
      obtain ⟨r, hrelease, h⟩ := bind_eq_ok h
      cases h
      exact absurd he (release_not_down hrelease)
  · exact absurd he (hover_not_down h)

theorem pointer_down (hs : s.Inv) (hx : 0 ≤ x ∧ x ≤ 1023) (hy : 0 ≤ y ∧ y ≤ 767)
    (h : s.pointer x y left wasLeft = .ok (owned, t, events)) (he : ⟨id, .MouseDown, lx, ly⟩ ∈ events) :
    ∃ index, rposition (·.contains x y) s.windows = .ok (some index) ∧ press s x y index = .ok (t, events) := by
  unfold pointer at h
  split at h
  · rename_i g hg
    obtain ⟨es, hdrag, hgeometry⟩ := drag_follows hs hx hy hg
    rw [hdrag] at h
    cases h
    rcases (hgeometry _ he).2 with h | h | h <;> cases h
  · exact (track_down h he).2
  · cases (track_down h he).1

/-- The client hears of the pixel that is under the pointer: after the press it is on the screen, and before it
unless it is in the shadow of a window further up. -/
theorem pressed_pixel_shown (hs : Reachable s) (hx : 0 ≤ x ∧ x ≤ 1023) (hy : 0 ≤ y ∧ y ≤ 767)
    (h : s.pointer x y left wasLeft = .ok (owned, t, events)) (he : ⟨id, .MouseDown, lx, ly⟩ ∈ events) :
    ∃ below w above, s.windows = below ++ w :: above ∧ w.id = id ∧ (0 ≤ lx ∧ lx < w.width) ∧ (0 ≤ ly ∧ ly < w.height) ∧
      ∃ a, w.surface[(ly * w.width + lx).toNat]? = some a ∧ t.ShowsAt x y a ∧
        ((∀ v ∈ above, v.visible = true → ¬v.shadow x y) → s.ShowsAt x y a) := by
  have hinv := hs.inv
  have hinv' : t.Inv := (Reachable.pointer left wasLeft hx hy hs h).inv
  obtain ⟨index, hhit, hpress⟩ := pointer_down hinv hx hy h he
  obtain ⟨⟨w, hw, hc⟩, habove⟩ := rposition_some hhit
  have hmem := List.mem_of_getElem? hw
  have hok := hinv.windows w hmem
  rw [Window.contains_eq hok, Except.ok.injEq] at hc
  have hvis : w.visible = true := by
    simp only [Window.covers, Bool.and_eq_true] at hc
    exact hc.1.1.1.1
  obtain ⟨hraise, rfl, rfl, rfl, hin, hcorner⟩ := press_down hinv hx hy hw hc hpress he
  have hwidth := hok.width
  have hheight := hok.height
  have hlocal := hin
  unfold Window.content inRect at hlocal
  have hcol : 0 ≤ x - w.x - 1 ∧ x - w.x - 1 < w.width := by omega
  have hrow : 0 ≤ y - w.y - 44 ∧ y - w.y - 44 < w.height := by omega
  have ha := List.getElem?_eq_getElem (surface_index_lt hok hcol hrow)
  have hindex : ((y - w.y - 44) * w.width + (x - w.x - 1)).toNat =
      (y - w.y - 44).toNat * w.width.toNat + (x - w.x - 1).toNat := by
    rw [Int.toNat_add (Int.mul_nonneg hrow.1 (by omega)) hcol.1, Int.toNat_mul hrow.1 (by omega)]
  have hlist : s.windows = s.windows.take index ++ w :: s.windows.drop (index + 1) := by
    obtain ⟨hlt, rfl⟩ := List.getElem?_eq_some_iff.mp hw
    rw [← List.drop_eq_getElem_cons hlt, List.take_append_drop]
  refine ⟨_, w, _, hlist, rfl, hcol, hrow, _, (congrArg (w.surface[·]?) hindex).trans ha, ?_, fun hshadow => ?_⟩
  · have htop : t.windows = without Window.id w.id s.windows ++ w :: [] := by rw [hraise, raise_eq hinv.distinct hmem]
    exact showsAt hinv' hx hy htop hvis hin hcorner ha fun v hv => absurd hv List.not_mem_nil
  · refine showsAt hinv hx hy hlist hvis hin hcorner ha fun v hv hshown => ⟨fun hframe => ?_, hshadow v hv hshown⟩
    -- a window further up that covers the point would have been hit
    obtain ⟨k, hk⟩ := List.mem_iff_getElem?.mp hv
    rw [List.getElem?_drop] at hk
    have hmiss := habove (index + 1 + k) (by omega) v hk
    rw [Window.contains_eq (hinv.windows v (List.mem_of_getElem? hk)), Except.ok.injEq] at hmiss
    unfold Window.frame inRect at hframe
    unfold Window.covers at hmiss
    simp only [hshown, Bool.true_and, Bool.and_eq_false_iff, decide_eq_false_iff_not] at hmiss
    omega

theorem pressed_pixel_shown_one : ∃ below w above, one.windows = below ++ w :: above ∧ w.id = 1 ∧
    (0 ≤ (19 : Int) ∧ 19 < w.width) ∧ (0 ≤ (16 : Int) ∧ 16 < w.height) ∧
      ∃ a, w.surface[(16 * w.width + 19).toNat]? = some a ∧ ShowsAt { one with pressed := some 1 } 20 60 a ∧
        ((∀ v ∈ above, v.visible = true → ¬v.shadow 20 60) → one.ShowsAt 20 60 a) := by
  have h : one.pointer 20 60 true false =
    .ok (true, { one with pressed := some 1 }, [⟨1, .MouseDown, 19, 16⟩]) := rfl
  exact pressed_pixel_shown (reachable_single.command _ command_one) (by decide) (by decide) h List.mem_cons_self

end WindowServer

end Pippin.Client
