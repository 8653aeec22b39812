import Pippin.Native.HitTest
import Pippin.Native.Frames

/-! Painting the rows of a window, and what the hit test has to do with it: painting subtracts
the scroll offset from the frame of a row, the hit test adds it to the pointer. -/

namespace Pippin.Native
open Checked

abbrev Rect := Int × Int × Int × Int

def Rect.Holds (f : Rect) (x y : Int) : Prop :=
  f.1 ≤ x ∧ x < f.1 + f.2.2.1 ∧ f.2.1 ≤ y ∧ y < f.2.1 + f.2.2.2

instance (f : Rect) (x y : Int) : Decidable (f.Holds x y) := inferInstanceAs (Decidable (_ ∧ _))

def ClipRect.intersect (c : ClipRect) (x y width height : Int) : Checked (Option Rect) := do
  if width ≤ 0 ∨ height ≤ 0 then return none
  let left := max x c.left
  let top := max y c.top
  let right := min (saturate (x + width)) c.right
  let bottom := min (saturate (y + height)) c.bottom
  if right ≤ left ∨ bottom ≤ top then return none
  return some (left, top, ← i32 (right - left), ← i32 (bottom - top))

namespace Compositor

def layoutFrame (s : Compositor) (w : Window) (row : Row × Nat) : Checked Rect :=
  if row.1.laidOut then s.filteredFrame w row.2 row.1
  else do return (24, ← i32 (60 + (← i32 (row.2 * 42))), ← i32 (w.width - 48), 34)

/-- The rectangle painted for a row: rows that the search hides or that are outside the clip
are not painted. -/
def paintRow (s : Compositor) (w : Window) (clip : ClipRect) (row : Row × Nat) : Checked (Option Rect) := do
  if !s.rowMatchesSearch w row.1 then return none
  let (layoutX, layoutY, width, height) ← s.layoutFrame w row
  let x ← i32 (w.x + layoutX)
  let y ← i32 ((← i32 (w.y + layoutY)) - if row.1.laidOut && w.role.framed then w.scrollY else 0)
  if (← clip.intersect x y width height).isNone then return none
  return some (x, y, width, height)

/-- `window`: the rows of a framed window, in order. -/
def paintRows (s : Compositor) (w : Window) : Checked (List (Option Rect)) := do
  let clip ← w.contentClip
  w.rows.zipIdx.mapM (s.paintRow w clip)

end Compositor

/-! ## Reflow -/

variable {s t : Compositor} {w : Window} {r : Row} {i index : Nat} {x y : Int} {f : Rect}

namespace Compositor

structure Reflow.Sound (f : Reflow) : Prop where
  firstX : 0 ≤ f.firstX
  lastRight : f.lastRight < 2 ^ 31
  gap : 0 ≤ f.gap
  visible : f.visibleBefore ≤ f.visibleTotal

def Counts (s : Compositor) (w : Window) (r : Row) : Prop :=
  r.structural = false ∧ r.action.isEmpty = false ∧ s.rowMatchesSearch w r = true

theorem saturate_lt (v : Int) : saturate v < 2 ^ 31 := by
  unfold saturate
  omega

theorem reflow_next {f : Reflow} {p : Row × Nat} (hf : f.Sound) (hr : p.1.Fits) :
    Ensures (Reflow.next s w index f p) fun g => g.Sound ∧
      (f.visibleBefore < f.visibleTotal → g.visibleBefore < g.visibleTotal) ∧
      (p.2 = index → s.Counts w p.1 → g.visibleBefore < g.visibleTotal) := by
  unfold Reflow.next
  dsimp only
  split
  · rename_i hskip
    refine ensures_ok ⟨hf, id, fun _ hc => ?_⟩
    rw [hc.1, hc.2.1] at hskip
    cases hskip
  · refine ensures_bind fun gap hgap => ensures_ok ⟨⟨?_, ?_, ?_, ?_⟩, ?_, ?_⟩
    · exact Int.le_min.mpr ⟨hf.firstX, hr.x⟩
    · exact Int.max_lt.mpr ⟨hf.lastRight, saturate_lt _⟩
    · split at hgap
      · obtain ⟨v, -, hgap⟩ := bind_eq_ok hgap
        cases hgap
        exact Int.le_max_right _ _
      · cases hgap
        exact hf.gap
    · have hle := hf.visible
      cases s.rowMatchesSearch w p.1 with
      | false => exact hle
      | true =>
        simp only [Bool.true_and, if_true]
        split_ifs <;> omega
    · intro hlt
      cases s.rowMatchesSearch w p.1 with
      | false => exact hlt
      | true =>
        simp only [Bool.true_and, if_true]
        split_ifs <;> omega
    · rintro rfl ⟨-, -, hhit⟩
      rw [hhit]
      simp only [Bool.true_and, if_true, Nat.lt_irrefl, decide_false, Bool.false_eq_true, if_false]
      exact Nat.lt_succ_of_le hf.visible

theorem reflow_fold {l : List (Row × Nat)} {f : Reflow} (hf : f.Sound) (hl : ∀ p ∈ l, p.1.Fits) :
    Ensures (l.foldlM (Reflow.next s w index) f) fun g => g.Sound ∧
      (f.visibleBefore < f.visibleTotal ∨ (∃ p ∈ l, p.2 = index ∧ s.Counts w p.1) →
        g.visibleBefore < g.visibleTotal) := by
  induction l generalizing f with
  | nil => exact ensures_ok ⟨hf, fun h => h.resolve_right fun ⟨_, hp, _⟩ => (nomatch hp)⟩
  | cons p l ih =>
    rw [List.foldlM_cons]
    refine ensures_bind fun g hg k hk => ?_
    obtain ⟨hsound, hkeep, hself⟩ := reflow_next hf (hl p List.mem_cons_self) g hg
    obtain ⟨hk, hstrict⟩ := ih hsound (fun q hq => hl q (List.mem_cons_of_mem p hq)) k hk
    refine ⟨hk, fun h => hstrict ?_⟩
    rcases h with hlt | ⟨q, hq, hi, hc⟩
    · exact Or.inl (hkeep hlt)
    · rcases List.mem_cons.mp hq with rfl | hq
      · exact Or.inl (hself hi hc)
      · exact Or.inr ⟨q, hq, hi, hc⟩

theorem reflow_start : Reflow.start.Sound := by
  unfold Reflow.start
  exact ⟨by decide, by decide, by decide, Nat.le_refl 0⟩

theorem reflow_width {span gap width : Int} {total : Nat} (hgap : 0 ≤ gap) (hspan : 0 < span) (hlt : span < 2 ^ 31)
    (htotal : 0 < total)
    (hw : width = max ((span - saturate (gap * (total - 1 : Nat))).tdiv total) 1) :
    0 < width ∧ (total = 1 → width = span) ∧ (1 < total → width ≤ 2 ^ 30) := by
  refine ⟨by omega, fun h => ?_, fun h => ?_⟩
  · subst h
    rw [hw, Nat.sub_self, Int.natCast_zero, Int.mul_zero, Int.natCast_one, Int.tdiv_one]
    unfold saturate
    omega
  · have hgaps : 0 ≤ saturate (gap * (total - 1 : Nat)) := by
      have hmul : 0 ≤ gap * (total - 1 : Nat) := Int.mul_nonneg hgap (Int.natCast_nonneg _)
      unfold saturate
      omega
    generalize saturate (gap * (total - 1 : Nat)) = gaps at hw hgaps
    have hdiv : (span - gaps).tdiv total ≤ span.tdiv total := Int.tdiv_le_tdiv (by omega) (by omega)
    rw [Int.tdiv_eq_ediv_of_nonneg (Int.le_of_lt hspan)] at hdiv
    have hhalf : span / total < 2 ^ 30 := Int.ediv_lt_of_lt_mul (by omega) (by omega)
    omega

/-- The frame of a laid-out row under any query: the row's own height, and within the number
range whenever it starts left of the screen's right edge. -/
theorem filteredFrame_spec (hrows : ∀ r ∈ w.rows, r.Fits) (hr : w.rows[i]? = some r) (hlaid : r.laidOut = true)
    (hmatch : s.rowMatchesSearch w r = true) : Ensures (s.filteredFrame w i r) fun f =>
      f.2.1 = r.y ∧ f.2.2.2 = r.height ∧ 0 ≤ f.1 ∧ 0 < f.2.2.1 ∧ (f.1 ≤ 1023 → f.1 + f.2.2.1 < 2 ^ 31) := by
  have hfits := hrows r (List.mem_of_getElem? hr)
  have hlaid' := hfits.laidOut hlaid
  have own : r.frame.2.1 = r.y ∧ r.frame.2.2.2 = r.height ∧ 0 ≤ r.frame.1 ∧ 0 < r.frame.2.2.1 ∧
      (r.frame.1 ≤ 1023 → r.frame.1 + r.frame.2.2.1 < 2 ^ 31) := by
    unfold Row.frame
    exact ⟨rfl, rfl, hfits.x, hlaid'.1, fun _ => by dsimp only; omega⟩
  unfold filteredFrame
  split
  · exact ensures_ok own
  · rename_i hsearch
    simp only [Bool.or_eq_true, not_or, Bool.not_eq_true, Bool.not_eq_true', Bool.not_eq_false] at hsearch
    refine ensures_bind fun g hg => ?_
    have hall : ∀ p ∈ w.rows.zipIdx, p.1.Fits := fun p hp => by
      obtain ⟨k, hk⟩ := List.mem_iff_getElem?.mp hp
      exact hrows p.1 (List.mem_of_getElem? (getElem?_zipIdx hk).2)
    obtain ⟨hsound, hstrict⟩ := reflow_fold reflow_start hall g hg
    have hvisible := hstrict (Or.inr ⟨(r, i), List.mem_of_getElem? (zipIdx_getElem? hr), rfl,
      hsearch.1.1.2, hsearch.1.2, hmatch⟩)
    split
    · exact ensures_ok own
    · rename_i hgroup
      refine ensures_bind fun span hspan => ensures_bind fun room hroom => ensures_bind fun step hstep => ?_
      refine ensures_bind fun offset hoffset => ensures_bind fun x hx => ensures_ok ?_
      obtain ⟨rfl, -, hlt⟩ := i32_of_ok hspan
      obtain ⟨rfl, -⟩ := i32_of_ok hroom
      have htotal : 0 < g.visibleTotal := Nat.zero_lt_of_lt hvisible
      obtain ⟨hpos, hone, hmany⟩ := reflow_width hsound.gap (by omega) hlt htotal rfl
      generalize max ((g.lastRight - g.firstX - saturate (g.gap * (g.visibleTotal - 1 : Nat))).tdiv g.visibleTotal) 1 =
        width at hpos hone hmany hstep ⊢
      obtain ⟨rfl, -⟩ := i32_of_ok hstep
      obtain ⟨rfl, -⟩ := i32_of_ok hoffset
      obtain ⟨rfl, -⟩ := i32_of_ok hx
      have hgap := hsound.gap
      have hoff : 0 ≤ (g.visibleBefore : Int) * (width + g.gap) := Int.mul_nonneg (Int.natCast_nonneg _) (by omega)
      have hfirst := hsound.firstX
      refine ⟨rfl, rfl, by dsimp only; omega, hpos, fun hx => ?_⟩
      dsimp only at hx ⊢
      -- one result starts at the group's left edge and fills it
      rcases Nat.lt_or_ge 1 g.visibleTotal with hlt | hle
      · have := hmany hlt
        omega
      · have hsingle : g.visibleTotal = 1 := by omega
        have hbefore : g.visibleBefore = 0 := by omega
        have hlast := hsound.lastRight
        rw [hone hsingle, hbefore, Int.natCast_zero, Int.zero_mul]
        omega

end Compositor

/-! ## One window -/

/-- A window on the screen whose frame holds the point. -/
def Window.Spans (w : Window) (x y : Int) : Prop :=
  w.minimized = false ∧ Rect.Holds (w.x, w.y, w.width, w.height) x y

instance (w : Window) (x y : Int) : Decidable (w.Spans x y) := inferInstanceAs (Decidable (_ ∧ _))

theorem within_true (h : within x y f = .ok true) : f.Holds x y := by
  unfold within at h
  split at h
  · cases h
  · obtain ⟨right, hright, h⟩ := bind_eq_ok h
    obtain ⟨rfl, -⟩ := i32_of_ok hright
    split at h
    · cases h
    · split at h
      · cases h
      · obtain ⟨bottom, hbottom, h⟩ := bind_eq_ok h
        obtain ⟨rfl, -⟩ := i32_of_ok hbottom
        have hlt := of_decide_eq_true (Except.ok.inj h)
        unfold Rect.Holds
        omega

theorem within_eq (hx : f.1 ≤ x → IsI32 (f.1 + f.2.2.1)) (hy : f.2.1 ≤ y → IsI32 (f.2.1 + f.2.2.2)) :
    within x y f = .ok (decide (f.Holds x y)) := by
  have miss : ¬f.Holds x y → (.ok false : Checked Bool) = .ok (decide (f.Holds x y)) := fun h => by
    rw [decide_eq_false h]
  unfold within
  split
  · exact miss fun h => by
      unfold Rect.Holds at h
      omega
  · obtain ⟨hl, hu⟩ := hx (by omega)
    rw [i32_eq hl hu, ok_bind]
    split
    · exact miss fun h => by
        unfold Rect.Holds at h
        omega
    · split
      · exact miss fun h => by
          unfold Rect.Holds at h
          omega
      · obtain ⟨hl, hu⟩ := hy (by omega)
        rw [i32_eq hl hu, ok_bind]
        refine congrArg Except.ok (decide_eq_decide.mpr ?_)
        unfold Rect.Holds
        omega

theorem under_eq (hw : w.Fits) (hx : x ≤ 1023) (hy : y ≤ 767) : w.under x y = .ok (decide (w.Spans x y)) := by
  obtain ⟨hwx, hwy, hwidth, hheight⟩ := hw.frame
  have hcovers : w.covers x y = .ok (decide (Rect.Holds (w.x, w.y, w.width, w.height) x y)) := by
    refine within_eq (f := (w.x, w.y, w.width, w.height)) (fun hle => ?_) (fun hle => ?_) <;>
      unfold IsI32 <;> dsimp only at hle ⊢ <;> omega
  unfold Window.under
  cases hmin : w.minimized with
  | true =>
    refine congrArg Except.ok (decide_eq_false fun h => ?_).symm
    cases hmin.symm.trans h.1
  | false =>
    rw [if_neg Bool.false_ne_true, hcovers]
    refine congrArg Except.ok (decide_eq_decide.mpr ?_)
    exact ⟨fun h => ⟨hmin, h⟩, fun h => h.2⟩

def Window.clip (w : Window) : ClipRect := ⟨w.x + 1, w.y + 44 + 1, w.x + w.width - 1, w.y + w.height - 1⟩

structure Window.At (w : Window) (x y : Int) : Prop where
  fits : w.Fits
  framed : w.role.framed = true
  screenX : 0 ≤ x ∧ x ≤ 1023
  screenY : 0 ≤ y ∧ y ≤ 767
  column : w.x ≤ x ∧ x < w.x + w.width
  line : w.y ≤ y ∧ y < w.y + w.height

theorem Window.At.contentClip (h : w.At x y) : w.contentClip = .ok w.clip := by
  have hwidth := h.fits.frame.width
  have hheight := h.fits.frame.height
  obtain ⟨-, hframed, hx, hy, hcolumn, hline⟩ := h
  unfold Window.contentClip headerHeight
  dsimp only
  rw [if_pos hframed, if_pos hframed]
  rw [i32_eq (v := w.y + 44) (by omega) (by omega), ok_bind, i32_eq (v := w.y + 44 + 1) (by omega) (by omega), ok_bind,
    i32_eq (v := w.x + 1) (by omega) (by omega), ok_bind, i32_eq (v := w.x + w.width) (by omega) (by omega), ok_bind,
    i32_eq (v := w.x + w.width - 1) (by omega) (by omega), ok_bind, i32_eq (v := w.y + w.height) (by omega) (by omega),
    ok_bind, i32_eq (v := w.y + w.height - 1) (by omega) (by omega)]
  rfl

theorem Window.At.localX (h : w.At x y) : i32 (x - w.x) = .ok (x - w.x) := by
  have hwidth := h.fits.frame.width
  have hcolumn := h.column
  exact i32_eq (by omega) (by omega)

theorem Window.At.localY (h : w.At x y) : w.localContentY y = .ok (y - w.y + w.scrollY) := by
  have hheight := h.fits.frame.height
  have hscroll := h.fits.scroll
  have hline := h.line
  unfold Window.localContentY
  rw [i32_eq (by omega) (by omega), ok_bind, if_pos h.framed]
  refine congrArg Except.ok ?_
  unfold saturate
  omega

theorem intersect_some {c : ClipRect} (hx : x ≤ 1023) (hy : y ≤ 767) (hin : c.contains x y = true)
    (hwide : c.right - c.left < 2 ^ 31) (hhigh : c.bottom - c.top < 2 ^ 31) (hf : f.Holds x y) :
    ∃ part, c.intersect f.1 f.2.1 f.2.2.1 f.2.2.2 = .ok (some part) := by
  unfold ClipRect.contains at hin
  simp only [Bool.and_eq_true, decide_eq_true_eq] at hin
  obtain ⟨h1, h2, h3, h4⟩ := hf
  unfold ClipRect.intersect saturate
  dsimp only
  rw [if_neg (by omega), if_neg (by omega), i32_eq (by omega) (by omega), ok_bind, i32_eq (by omega) (by omega)]
  exact ⟨_, rfl⟩

namespace Compositor

def onScreen (w : Window) (f : Rect) : Rect := (w.x + f.1, w.y + f.2.1 - w.scrollY, f.2.2.1, f.2.2.2)

theorem onScreen_holds : (onScreen w f).Holds x y ↔ f.Holds (x - w.x) (y - w.y + w.scrollY) := by
  unfold onScreen Rect.Holds
  dsimp only
  omega

theorem paintRow_shown {clip : ClipRect} {rect : Rect} (h : s.paintRow w clip (r, i) = .ok (some rect)) :
    s.rowMatchesSearch w r = true := by
  unfold paintRow at h
  cases hmatch : s.rowMatchesSearch w r with
  | true => rfl
  | false =>
    rw [hmatch] at h
    cases h

theorem paintRow_laidOut {clip : ClipRect} (hrole : w.role.framed = true) (hlaid : r.laidOut = true)
    (hmatch : s.rowMatchesSearch w r = true) : Ensures (s.paintRow w clip (r, i)) fun q =>
      ∃ f, s.filteredFrame w i r = .ok f ∧ ∀ rect, q = some rect → rect = onScreen w f := by
  unfold paintRow layoutFrame
  simp only [hmatch, hlaid, hrole, Bool.not_true, Bool.false_eq_true, if_false, if_true, Bool.and_self]
  refine ensures_bind fun f hf => ensures_bind fun x hx => ensures_bind fun y hy => ?_
  refine ensures_bind fun y' hy' => ensures_bind fun part _ => ?_
  obtain ⟨rfl, -⟩ := i32_of_ok hx
  obtain ⟨rfl, -⟩ := i32_of_ok hy
  obtain ⟨rfl, -⟩ := i32_of_ok hy'
  split
  · exact ensures_ok ⟨f, hf, nofun⟩
  · refine ensures_ok ⟨f, hf, fun rect hrect => ?_⟩
    cases hrect
    rfl

theorem paintRow_hit (h : w.At x y) (hin : w.clip.contains x y = true) (hr : w.rows[i]? = some r)
    (hlaid : r.laidOut = true) (hmatch : s.rowMatchesSearch w r = true) (hf : s.filteredFrame w i r = .ok f)
    (hhit : f.Holds (x - w.x) (y - w.y + w.scrollY)) : s.paintRow w w.clip (r, i) = .ok (some (onScreen w f)) := by
  obtain ⟨htop, -, hleft, -⟩ := filteredFrame_spec h.fits.rows hr hlaid hmatch f hf
  have hry := (h.fits.rows r (List.mem_of_getElem? hr)).y
  have hlaid' := (h.fits.rows r (List.mem_of_getElem? hr)).laidOut hlaid
  have hwidth := h.fits.frame.width
  have hheight := h.fits.frame.height
  have hscroll := h.fits.scroll
  obtain ⟨-, hframed, hx, hy, hcolumn, hline⟩ := h
  have hholds := onScreen_holds.mpr hhit
  obtain ⟨part, hpart⟩ := intersect_some hx.2 hy.2 hin (by unfold Window.clip; dsimp only; omega)
    (by unfold Window.clip; dsimp only; omega) hholds
  obtain ⟨hbefore, -⟩ := hhit
  obtain ⟨left, top, width, height⟩ := f
  dsimp only at htop hleft hbefore
  unfold paintRow layoutFrame
  simp only [hmatch, hlaid, hframed, Bool.not_true, Bool.false_eq_true, if_false, if_true, Bool.and_self]
  rw [hf, ok_bind]
  dsimp only
  rw [i32_eq (by omega) (by omega), ok_bind, i32_eq (by omega) (by omega), ok_bind,
    i32_eq (by omega) (by omega), ok_bind]
  unfold onScreen at hpart
  rw [hpart]
  rfl

/-- The hit test on a row that painting got through does not fault, and is membership. -/
theorem controlUnder_painted (h : w.At x y) {clip : ClipRect} {q : Option Rect} (hr : w.rows[i]? = some r)
    (hpaint : s.paintRow w clip (r, i) = .ok q) : ∃ b, s.controlUnder w (x - w.x) (y - w.y + w.scrollY) (r, i) = .ok b ∧
      ∀ rect, q = some rect → r.laidOut = true → r.disabled = false → r.action.isEmpty = false →
        rect.Holds x y → b = true := by
  unfold controlUnder
  dsimp only
  split
  · rename_i hskip
    refine ⟨false, rfl, ?_⟩
    rintro rect rfl hlaid hdisabled haction -
    rw [hlaid, hdisabled, haction, paintRow_shown hpaint] at hskip
    cases hskip
  · rename_i hskip
    simp only [Bool.or_eq_true, Bool.not_eq_true', not_or, Bool.not_eq_false, Bool.not_eq_true] at hskip
    obtain ⟨⟨⟨hlaid, -⟩, -⟩, hmatch⟩ := hskip
    obtain ⟨f, hf, hrect⟩ := paintRow_laidOut h.framed hlaid hmatch q hpaint
    obtain ⟨htop, hhigh, hleft, hwide, hright⟩ := filteredFrame_spec h.fits.rows hr hlaid hmatch f hf
    have hry := (h.fits.rows r (List.mem_of_getElem? hr)).y
    have hlaid' := (h.fits.rows r (List.mem_of_getElem? hr)).laidOut hlaid
    have hwidth := h.fits.frame.width
    have hcolumn := h.column
    rw [hf, ok_bind]
    refine ⟨_, within_eq (fun hle => ?_) (fun _ => ?_), fun rect hq _ _ _ hholds => ?_⟩
    · have := hright (by omega)
      unfold IsI32
      omega
    · unfold IsI32
      omega
    · rw [hrect rect hq] at hholds
      exact decide_eq_true (onScreen_holds.mp hholds)

/-! ## The stack -/

def Topmost (s : Compositor) (x y : Int) (w : Window) : Prop :=
  ∃ index : Nat, s.windows[index]? = some w ∧ w.Spans x y ∧
    ∀ j > index, ∀ v : Window, s.windows[j]? = some v → ¬v.Spans x y

theorem topAt_eq (hs : s.Fits) (hx : x ≤ 1023) (hy : y ≤ 767) (h : s.Topmost x y w) :
    ∃ index, s.topAt x y = .ok (some index) ∧ s.windows[index]? = some w := by
  obtain ⟨index, hw, hspans, habove⟩ := h
  refine ⟨index, rposition_eq hw ?_ fun j hj v hv => ?_, hw⟩
  · rw [under_eq (hs w (List.mem_of_getElem? hw)) hx hy, decide_eq_true hspans]
  · rw [under_eq (hs v (List.mem_of_getElem? hv)) hx hy, decide_eq_false (habove j hj v hv)]

theorem controlAt_painted (htop : s.topAt x y = .ok (some index)) (hwindow : s.windows[index]? = some w)
    (h : w.At x y) {c : Control} (hc : s.controlAt x y = .ok (some c)) :
    c.1 = w.id ∧ w.clip.contains x y = true ∧ ∃ r rect, w.rows[c.2]? = some r ∧
      s.paintRow w w.clip (r, c.2) = .ok (some rect) ∧ rect.Holds x y := by
  obtain ⟨r, hid, hr, hunder, -⟩ := controlAt_under htop hwindow h.localX h.localY hc
  obtain ⟨hlaid, -, -, hmatch, hshown⟩ := (controlUnder_iff s w _ _ c.2 r).mp hunder
  obtain ⟨f, hf, hwithin⟩ := bind_eq_ok hshown
  have hhit := within_true hwithin
  have hin : w.clip.contains x y = true := by
    rcases controlAt_cases hc with ⟨-, hnone⟩ | ⟨_, v, clip, htop', hv, hclip, ⟨-, hnone⟩ | ⟨hin, -⟩⟩
    · cases hnone
    · cases hnone
    · cases htop.symm.trans htop'
      cases hwindow.symm.trans hv
      cases h.contentClip.symm.trans hclip
      exact hin
  exact ⟨hid, hin, r, onScreen w f, hr, paintRow_hit h hin hr hlaid hmatch hf hhit,
    onScreen_holds.mpr hhit⟩

theorem painted_controlAt (htop : s.topAt x y = .ok (some index)) (hwindow : s.windows[index]? = some w)
    (h : w.At x y) {rects : List (Option Rect)} (hrects : w.rows.zipIdx.mapM (s.paintRow w w.clip) = .ok rects)
    (hin : w.clip.contains x y = true) (hr : w.rows[i]? = some r) (hlaid : r.laidOut = true)
    (hdisabled : r.disabled = false) (haction : r.action.isEmpty = false) {rect : Rect}
    (hrect : rects[i]? = some (some rect)) (hholds : rect.Holds x y) :
    ∃ j, s.controlAt x y = .ok (some (w.id, j)) := by
  have hreturns : ∃ found, position (s.controlUnder w (x - w.x) (y - w.y + w.scrollY)) w.rows.zipIdx = .ok found := by
    refine position_returns fun p hp => ?_
    obtain ⟨k, hk⟩ := List.mem_iff_getElem?.mp hp
    obtain ⟨rfl, hrow⟩ := getElem?_zipIdx hk
    obtain ⟨q, -, hq⟩ := mapM_getElem? hrects hk
    obtain ⟨b, hb, -⟩ := controlUnder_painted h hrow hq
    exact ⟨b, hb⟩
  obtain ⟨found, hfound⟩ := hreturns
  have hcontrol : s.controlAt x y = .ok (found.map fun j => (w.id, j)) := by
    unfold controlAt
    rw [htop, ok_bind]
    dsimp only
    rw [get_eq hwindow, ok_bind, h.contentClip, ok_bind, hin, h.localX, h.localY]
    simp only [Bool.not_true, Bool.false_eq_true, if_false, ok_bind]
    rw [hfound]
    rfl
  cases found with
  | some j => exact ⟨j, hcontrol⟩
  | none =>
    -- the row itself satisfies the test
    obtain ⟨q, hq, hpaint⟩ := mapM_getElem? hrects (zipIdx_getElem? hr)
    cases hrect.symm.trans hq
    obtain ⟨b, hb, htrue⟩ := controlUnder_painted h hr hpaint
    rw [htrue rect rfl hlaid hdisabled haction hholds] at hb
    cases (position_none hfound (r, i) (List.mem_of_getElem? (zipIdx_getElem? hr))).symm.trans hb

/-- The hit test is painting seen from the pointer, in every state of every run, for every text
in the search fields and every scroll offset. -/
theorem hit_matches_paint {shell : List ShellSurface} (hshell : ∀ surface ∈ shell, surface.Word)
    (hs : Reachable shell s) (hview : List.Forall₂ Window.Shift s.windows t.windows) (hx : 0 ≤ x ∧ x ≤ 1023)
    (hy : 0 ≤ y ∧ y ≤ 767) (htop : t.Topmost x y w) (hrole : w.role.framed = true) :
    ∃ clip, w.contentClip = .ok clip ∧
      (∀ c, t.controlAt x y = .ok (some c) → c.1 = w.id ∧ clip.contains x y = true ∧
        ∃ r rect, w.rows[c.2]? = some r ∧ t.paintRow w clip (r, c.2) = .ok (some rect) ∧ rect.Holds x y) ∧
      (∀ rects, t.paintRows w = .ok rects → clip.contains x y = true →
        ∀ (i : Nat) (r : Row) (rect : Rect), w.rows[i]? = some r → r.laidOut = true → r.disabled = false →
          r.action.isEmpty = false → rects[i]? = some (some rect) → rect.Holds x y →
          ∃ j rect', t.controlAt x y = .ok (some (w.id, j)) ∧ rects[j]? = some (some rect') ∧ rect'.Holds x y) := by
  have ht : t.Fits := Fits.shifted hshell (hs.fits hshell) hview
  obtain ⟨index, htopAt, hwindow⟩ := topAt_eq ht hx.2 hy.2 htop
  have hat : w.At x y := by
    obtain ⟨-, -, ⟨-, h1, h2, h3, h4⟩, -⟩ := htop
    exact ⟨ht w (List.mem_of_getElem? hwindow), hrole, hx, hy, ⟨h1, h2⟩, h3, h4⟩
  refine ⟨w.clip, hat.contentClip, fun c hc => controlAt_painted htopAt hwindow hat hc, ?_⟩
  intro rects hrects hin i r rect hr hlaid hdisabled haction hrect hholds
  unfold paintRows at hrects
  rw [hat.contentClip, ok_bind] at hrects
  obtain ⟨j, hj⟩ := painted_controlAt htopAt hwindow hat hrects hin hr hlaid hdisabled haction hrect hholds
  obtain ⟨-, -, r', rect', hr', hpaint, hholds'⟩ := controlAt_painted htopAt hwindow hat hj
  obtain ⟨q, hq, hpaint'⟩ := mapM_getElem? hrects (zipIdx_getElem? hr')
  cases hpaint.symm.trans hpaint'
  exact ⟨j, rect', hj, hq, hholds'⟩

theorem hit_matches_paint_search : ∃ clip, launcherWindow.contentClip = .ok clip ∧ clip.contains 385 324 = true ∧
    ∃ r rect, launcherWindow.rows[4]? = some r ∧
      searching.paintRow launcherWindow clip (r, 4) = .ok (some rect) ∧ rect.Holds 385 324 := by
  have hword : ∀ surface ∈ [launcher], surface.Word := by
    intro surface hin
    cases List.mem_singleton.mp hin
    exact ⟨⟨by decide, by decide⟩, by decide, by decide⟩
  have htop : searching.Topmost 385 324 launcherWindow := by
    refine ⟨0, rfl, by decide, fun j hj v hv => ?_⟩
    rw [List.getElem?_eq_none (by exact hj)] at hv
    cases hv
  have hcontrol : searching.controlAt 385 324 = .ok (some ("launcher".toList, 4)) := by decide +kernel
  obtain ⟨clip, hclip, hpainted, -⟩ := hit_matches_paint hword reachable_searching (forall₂_shift_refl _)
    ⟨by decide, by decide⟩ ⟨by decide, by decide⟩ htop rfl
  exact ⟨clip, hclip, (hpainted _ hcontrol).2⟩

end Compositor

end Pippin.Native
