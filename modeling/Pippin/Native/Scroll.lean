import Pippin.Native.Frames

/-! The scroll offset of a surface and its scrollbar. -/

namespace Pippin.Native
open Checked
open Pippin.Client (clamp)

namespace Window

/-- The track of the scrollbar and the thumb in it, as an offset from its top. -/
structure Scrollbar where
  trackTop : Int
  trackHeight : Int
  thumbOffset : Int
  thumbHeight : Int
deriving DecidableEq, Repr

def asI32 (v : Int) : Int := (v + 2 ^ 31) % 2 ^ 32 - 2 ^ 31

/-- The scrollbar that `window` paints; products and quotients are made in 64 bits. -/
def scrollbar (w : Window) : Checked (Option Scrollbar) := do
  let contentClip ← w.contentClip
  let maxScroll ← w.maxScroll
  if maxScroll > 0 then
    let trackTop ← i32 (contentClip.top + 6)
    let trackHeight := max (← i32 ((← i32 (contentClip.bottom - contentClip.top)) - 12)) 24
    let viewportHeight := max (← i32 (contentClip.bottom - contentClip.top)) 1
    let contentHeight := saturate (viewportHeight + maxScroll)
    let thumbHeight := clamp (asI32 ((trackHeight * viewportHeight).tdiv contentHeight)) 24 trackHeight
    let travel := max (← i32 (trackHeight - thumbHeight)) 0
    let thumbOffset := if maxScroll = 0 then 0 else asI32 ((travel * w.scrollY).tdiv maxScroll)
    return some ⟨trackTop, trackHeight, thumbOffset, thumbHeight⟩
  else return none

variable {w v : Window}

structure InRange (w : Window) : Prop where
  nonneg : 0 ≤ w.scrollY
  le : Ensures w.maxScroll fun m => w.scrollY ≤ m

theorem InRange.start (h : w.scrollY = 0) : w.InRange := by
  refine ⟨Int.le_of_eq h.symm, fun m hm => ?_⟩
  rw [h]
  exact maxScroll_nonneg m hm

theorem InRange.shift (h : w.InRange) (hs : w.Shift v) : v.InRange := by
  obtain ⟨x, y, scrollY, rfl, -, hscroll⟩ := hs
  rcases hscroll with rfl | ⟨hlo, hhi⟩
  · exact ⟨h.nonneg, h.le⟩
  · exact ⟨hlo, hhi⟩

theorem inRange_clampScroll : Ensures w.clampScroll InRange := by
  refine ensures_bind fun m hm => ensures_ok ?_
  obtain ⟨hlo, hhi⟩ := clamp_bounds (v := w.scrollY) (maxScroll_nonneg m hm)
  refine ⟨hlo, fun m' hm' => ?_⟩
  have hm' : w.maxScroll = .ok m' := hm'
  cases hm.symm.trans hm'
  exact hhi

theorem maxScroll_unframed (h : w.role.framed = false) : w.maxScroll = .ok 0 := by
  unfold maxScroll
  rw [h]
  rfl

/-! ## The thumb -/

theorem part_bounds {travel offset m : Int} (htravel : 0 ≤ travel) (hoffset : 0 ≤ offset) (hle : offset ≤ m)
    (hm : 0 < m) : 0 ≤ (travel * offset).tdiv m ∧ (travel * offset).tdiv m ≤ travel := by
  have hprod : 0 ≤ travel * offset := Int.mul_nonneg htravel hoffset
  rw [Int.tdiv_eq_ediv_of_nonneg hprod]
  refine ⟨Int.ediv_nonneg hprod (Int.le_of_lt hm), ?_⟩
  refine Int.ediv_le_of_le_mul hm ?_
  exact Int.mul_le_mul_of_nonneg_left hle htravel

theorem asI32_eq {v : Int} (hl : -2 ^ 31 ≤ v) (hu : v < 2 ^ 31) : asI32 v = v := by
  unfold asI32
  omega

structure Scrollbar.Inside (b : Scrollbar) : Prop where
  track : 24 ≤ b.trackHeight
  offset : 0 ≤ b.thumbOffset
  height : 24 ≤ b.thumbHeight
  bottom : b.thumbOffset + b.thumbHeight ≤ b.trackHeight

theorem clamp_within {v lo hi : Int} (h : lo ≤ hi) : lo ≤ clamp v lo hi ∧ clamp v lo hi ≤ hi := by
  unfold clamp
  split_ifs <;> omega

theorem InRange.scrollbar (h : w.InRange) : Ensures w.scrollbar fun b => ∀ bar, b = some bar → bar.Inside := by
  unfold Window.scrollbar
  refine ensures_bind fun clip _ => ensures_bind fun m hm => ?_
  split
  · rename_i hpos
    refine ensures_bind fun top _ => ensures_bind fun height _ => ensures_bind fun inner hinner => ?_
    refine ensures_bind fun viewport _ => ensures_bind fun travel htravel => ensures_ok ?_
    rintro bar ⟨⟩
    obtain ⟨rfl, hl, hu⟩ := i32_of_ok hinner
    obtain ⟨rfl, -, hu'⟩ := i32_of_ok htravel
    have htrack : 24 ≤ max (height - 12) 24 := Int.le_max_right _ _
    obtain ⟨hlow, hhigh⟩ := clamp_within (v := asI32 ((max (height - 12) 24 * max viewport 1).tdiv
      (saturate (max viewport 1 + m)))) htrack
    generalize clamp (asI32 ((max (height - 12) 24 * max viewport 1).tdiv (saturate (max viewport 1 + m)))) 24
      (max (height - 12) 24) = thumb at hlow hhigh hu' ⊢
    generalize max (height - 12) 24 = track at htrack hlow hhigh hu' ⊢
    obtain ⟨hzero, hpart⟩ := part_bounds (Int.le_max_right (track - thumb) 0) h.nonneg (h.le m hm) hpos
    refine ⟨htrack, ?_, hlow, ?_⟩
    · dsimp only
      rw [if_neg (by omega), asI32_eq (by omega) (by omega)]
      exact hzero
    · dsimp only
      rw [if_neg (by omega), asI32_eq (by omega) (by omega)]
      omega
  · exact ensures_ok nofun

end Window

namespace Compositor

variable {s : Compositor} {shell : List ShellSurface}

theorem inRange_rule : WindowRule shell Window.InRange where
  new surface _ w hw := by
    refine Window.InRange.start ?_
    unfold ShellSurface.window? at hw
    split at hw
    · cases hw
    · obtain ⟨role, -, rfl⟩ := Option.map_eq_some_iff.mp hw
      rfl
  shift _ _ h hv := h.shift hv
  minimized _ _ h := ⟨h.nonneg, h.le⟩
  toggled _ _ := Window.inRange_clampScroll
  replaced _ _ _ _ _ _ _ _ _ _ _ _ := Window.inRange_clampScroll
  added _ _ _ _ _ _ _ _ _ _ := Window.InRange.start rfl
  test _ _ _ _ _ := Window.InRange.start rfl

/-- Scroll range invariant: in every run the offset of every surface lies between 0 and what
its content asks for, 0 without a header bar. The thumb lies inside its track, and neither the
offset nor the thumb is ever clamped to an empty range. -/
theorem scroll_range (hshell : ∀ surface ∈ shell, surface.Word) (h : Reachable shell s) :
    (∀ w ∈ s.windows, (∃ m, w.maxScroll = .ok m ∧ 0 ≤ w.scrollY ∧ w.scrollY ≤ m) ∧
      (w.role = .P ∨ w.role = .D ∨ w.role = .N → w.scrollY = 0) ∧
      ∀ bar, w.scrollbar = .ok (some bar) → bar.Inside) ∧
    ∀ w : Window, ∀ m, w.maxScroll = .ok m → 0 ≤ m := by
  refine ⟨fun w hw => ?_, fun w m hm => Window.maxScroll_nonneg m hm⟩
  have hrange := inRange_rule.reachable h w hw
  have hfits := h.fits hshell w hw
  obtain ⟨m, hm, -⟩ := Window.maxScroll_yields hfits.rows hfits.frame.height
  refine ⟨⟨m, hm, hrange.nonneg, hrange.le m hm⟩, fun hrole => ?_, fun bar hbar => hrange.scrollbar _ hbar bar rfl⟩
  have hunframed : w.role.framed = false := by
    rcases hrole with hr | hr | hr <;> rw [hr] <;> rfl
  have hzero := hrange.le 0 (Window.maxScroll_unframed hunframed)
  exact Int.le_antisymm hzero hrange.nonneg

def page : ShellSurface where
  id := "page".toList
  role := 87
  visible := false
  x := 10
  y := 60
  width := 300
  height := 200
  title := "Page".toList
  items := [⟨"Top".toList, "page.top".toList, 98, 0, flagFocusable, 20, 60, 100, 30⟩,
    ⟨"Bottom".toList, "page.bottom".toList, 98, 0, flagFocusable, 20, 160, 100, 40⟩]

def pageWindow (scrollY : Int) : Window where
  id := page.id
  role := .W
  x := 10
  y := 60
  width := 300
  height := 200
  title := page.title
  rows := page.items.map ShellItem.row
  native := false
  maximized := false
  minimized := false
  scrollY := scrollY
  restore := none

def reading (scrollY : Int) : Compositor :=
  { new [page] with windows := [pageWindow scrollY], focusScope := .Window page.id }

theorem command_reading : (new [page]).command "R|page".toList = .ok (reading 0, true) := by decide +kernel

theorem end_reading : (reading 0).keyScancode 0x4f none false true = .ok (reading 21, none, []) := by decide +kernel

theorem reachable_reading : Reachable [page] (reading 21) :=
  .key 0x4f none false true (.command _ .new command_reading) end_reading

theorem word_page : ∀ surface ∈ [page], surface.Word := by
  intro surface h
  rw [List.mem_singleton.mp h]
  exact ⟨⟨by decide, by decide⟩, by decide, by decide⟩

theorem scroll_range_page : (pageWindow 21).maxScroll = .ok 21 ∧
    (pageWindow 21).scrollbar = .ok (some ⟨111, 142, 18, 124⟩) ∧ Window.Scrollbar.Inside ⟨111, 142, 18, 124⟩ := by
  have hbar : (pageWindow 21).scrollbar = .ok (some ⟨111, 142, 18, 124⟩) := by decide +kernel
  have hin : pageWindow 21 ∈ (reading 21).windows := List.mem_cons_self
  exact ⟨by decide +kernel, hbar, ((scroll_range word_page reachable_reading).1 _ hin).2.2 _ hbar⟩

end Compositor

end Pippin.Native
