import Pippin.Native.Scroll

/-! Scrolling the focused control into view. -/

namespace Pippin.Native
open Checked
open Pippin.Client (clamp)

variable {w : Window} {r : Row} {m : Int}

namespace Window

theorem le_contentBottom (hr : r ∈ w.rows) (hlaid : r.laidOut = true) :
    saturate (r.y + r.height) ≤ w.contentBottom := by
  have hmem : saturate (r.y + r.height) ∈ (w.rows.filter Row.laidOut).map fun r => saturate (r.y + r.height) :=
    List.mem_map.mpr ⟨r, List.mem_filter.mpr ⟨hr, hlaid⟩, rfl⟩
  unfold contentBottom
  cases hmax : ((w.rows.filter Row.laidOut).map fun r => saturate (r.y + r.height)).max? with
  | none =>
    rw [List.max?_eq_none_iff.mp hmax] at hmem
    cases hmem
  | some b => exact (List.max?_eq_some_iff.mp hmax).2 _ hmem

theorem maxScroll_lt : Ensures w.maxScroll fun m => m < 2 ^ 31 := by
  unfold maxScroll
  split_ifs
  · exact ensures_ok (by decide)
  · refine ensures_bind fun _ _ => ensures_ok ?_
    unfold saturate
    omega

theorem le_maxScroll (hframed : w.role.framed = true) (hheight : 46 ≤ w.height) (hm : w.maxScroll = .ok m)
    (hr : r ∈ w.rows) (hlaid : r.laidOut = true) (hbottom : r.y + r.height < 2 ^ 31) (hlow : 0 ≤ r.y + r.height) :
    r.y + r.height - (w.height - 1) ≤ m := by
  have hcontent := le_contentBottom hr hlaid
  unfold maxScroll at hm
  rw [hframed] at hm
  obtain ⟨bottom, hheight', hm⟩ := bind_eq_ok hm
  obtain ⟨rfl, -⟩ := i32_of_ok hheight'
  cases hm
  unfold headerHeight contentBottomPadding
  unfold saturate at hcontent ⊢
  omega

end Window

namespace Compositor

variable {s : Compositor} {i index : Nat}

/-- The surface whose row has the focus: the first visible one with a header bar under the id. -/
def FocusedRow (s : Compositor) (index : Nat) (w : Window) (r : Row) : Prop :=
  ∃ id i, s.focusedControl = some (id, i) ∧
    (s.windows.findIdx? fun w => !w.minimized && w.id == id && w.role.framed) = some index ∧
    s.windows[index]? = some w ∧ w.rows[i]? = some r

/-- The row lies between header bar and bottom edge at an offset. -/
def InView (w : Window) (r : Row) (scrollY : Int) : Prop :=
  45 ≤ r.y - scrollY ∧ r.y + r.height - scrollY ≤ w.height - 1

instance (w : Window) (r : Row) (scrollY : Int) : Decidable (InView w r scrollY) := inferInstanceAs (Decidable (_ ∧ _))

def revealed (w : Window) (r : Row) : Int :=
  if r.y - w.scrollY < 45 then r.y - 45
  else if r.y + r.height - w.scrollY > w.height - 1 then r.y + r.height - (w.height - 1)
  else w.scrollY

theorem findIdx?_framed {id : Str}
    (hfind : (s.windows.findIdx? fun w => !w.minimized && w.id == id && w.role.framed) = some index)
    (hw : s.windows[index]? = some w) : w.role.framed = true := by
  obtain ⟨hlt, htest, -⟩ := List.findIdx?_eq_some_iff_getElem.mp hfind
  obtain ⟨_, rfl⟩ := List.getElem?_eq_some_iff.mp hw
  simp only [Bool.and_eq_true] at htest
  exact htest.2

theorem ensureFocusedVisible_eq (h : s.FocusedRow index w r) (hlaid : r.laidOut = true) (hy : 45 ≤ r.y)
    (hh : 1 ≤ r.height ∧ r.height ≤ w.height - 46) (hword : w.height < 2 ^ 31) (hbottom : r.y + r.height < 2 ^ 31)
    (hm : w.maxScroll = .ok m) (hscroll : 0 ≤ w.scrollY ∧ w.scrollY ≤ m) :
    s.ensureFocusedVisible =
      .ok { s with windows := s.windows.modify index fun _ => { w with scrollY := revealed w r } } ∧
      0 ≤ revealed w r ∧ revealed w r ≤ m := by
  obtain ⟨id, i, hfocus, hfind, hw, hrow⟩ := h
  have hframed := findIdx?_framed hfind hw
  have hreach := Window.le_maxScroll hframed (by omega) hm (List.mem_of_getElem? hrow) hlaid hbottom (by omega)
  have hrange : 0 ≤ revealed w r ∧ revealed w r ≤ m := by
    unfold revealed
    split_ifs <;> omega
  refine ⟨?_, hrange⟩
  have hmax := Window.maxScroll_lt m hm
  have hlt : index < s.windows.length := (List.getElem?_eq_some_iff.mp hw).1
  have htarget : (if r.y - w.scrollY < headerHeight + 1 then i32 (r.y - (headerHeight + 1))
      else if r.y + r.height - w.scrollY > w.height - 1 then i32 (r.y + r.height - (w.height - 1))
      else pure w.scrollY) = .ok (revealed w r) := by
    have htop : headerHeight + 1 = 45 := rfl
    unfold revealed
    rw [htop]
    split_ifs
    · exact i32_eq (by omega) (by omega)
    · exact i32_eq (by omega) (by omega)
    · rfl
  -- the new offset is in range already, so clamping keeps it
  have hclamp : ({ w with scrollY := revealed w r } : Window).clampScroll = .ok { w with scrollY := revealed w r } := by
    have hm' : ({ w with scrollY := revealed w r } : Window).maxScroll = .ok m := hm
    unfold Window.clampScroll
    rw [hm', ok_bind]
    dsimp only
    unfold clamp
    rw [if_neg (by omega), if_neg (by omega)]
    rfl
  unfold ensureFocusedVisible
  rw [hfocus]
  dsimp only
  rw [hfind]
  dsimp only
  rw [get_eq hw, ok_bind, hrow]
  dsimp only
  rw [hlaid, i32_eq (v := w.height - 1) (by omega) (by omega), ok_bind,
    i32_eq (v := r.y - w.scrollY) (by omega) (by omega), ok_bind, i32_eq (v := r.y + r.height) (by omega) (by omega),
    ok_bind, i32_eq (v := r.y + r.height - w.scrollY) (by omega) (by omega), ok_bind, htarget, ok_bind, hclamp,
    ok_bind]
  unfold setWindow
  rw [modify_eq _ hlt, ← hfocus]
  rfl

/-- The focused control is scrolled into view: a focused row that is laid out below the header
bar and fits in the viewport lies wholly inside it afterwards, the offset stays in range, and
a row that was wholly visible is not moved. -/
theorem focused_in_view (h : s.FocusedRow index w r) (hwidth : 1 ≤ r.width) (hy : 45 ≤ r.y)
    (hh : 1 ≤ r.height ∧ r.height ≤ w.height - 46) (hword : w.height < 2 ^ 31) (hbottom : r.y + r.height < 2 ^ 31)
    (hm : w.maxScroll = .ok m) (hscroll : 0 ≤ w.scrollY ∧ w.scrollY ≤ m) : ∃ offset,
    s.ensureFocusedVisible = .ok { s with windows := s.windows.modify index fun _ => { w with scrollY := offset } } ∧
      InView w r offset ∧ (0 ≤ offset ∧ offset ≤ m) ∧ (InView w r w.scrollY → offset = w.scrollY) := by
  have hlaid : r.laidOut = true := by
    unfold Row.laidOut
    rw [decide_eq_true (by omega), decide_eq_true (by omega)]
    rfl
  obtain ⟨heq, hrange⟩ := ensureFocusedVisible_eq h hlaid hy hh hword hbottom hm hscroll
  refine ⟨revealed w r, heq, ?_, hrange, fun hin => ?_⟩
  · unfold InView revealed
    split_ifs <;> omega
  · unfold InView at hin
    unfold revealed
    rw [if_neg (by omega), if_neg (by omega)]

def bottomRow : Row := ⟨"Bottom".toList, "page.bottom".toList, 98, 0, flagFocusable, 20, 160, 100, 40⟩

theorem focused_in_view_page : ∃ offset, ({ reading 0 with focusedControl := some (page.id, 1) } :
    Compositor).ensureFocusedVisible = .ok { reading offset with focusedControl := some (page.id, 1) } ∧
      ¬InView (pageWindow 0) bottomRow 0 ∧ InView (pageWindow 0) bottomRow offset := by
  have hrow : ({ reading 0 with focusedControl := some (page.id, 1) } : Compositor).FocusedRow 0 (pageWindow 0)
      bottomRow := ⟨page.id, 1, rfl, by decide +kernel, rfl, rfl⟩
  obtain ⟨offset, heq, hin, -, -⟩ := focused_in_view (m := 21) hrow (by decide) (by decide) (by decide) (by decide)
    (by decide) (by decide +kernel) (by decide)
  exact ⟨offset, heq, by decide, hin⟩

def single (r : Row) : Compositor :=
  { reading 0 with windows := [{ pageWindow 0 with rows := [r] }], focusedControl := some (page.id, 0) }

theorem focusedRow_single (r : Row) : (single r).FocusedRow 0 { pageWindow 0 with rows := [r] } r :=
  ⟨page.id, 0, rfl, rfl, rfl, rfl⟩

/-- A row without a width is left where it is, and a row whose bottom edge is no i32 is an
overflow. -/
theorem focused_in_view_flat :
    (¬∀ s index w r m, FocusedRow s index w r → 45 ≤ r.y → 1 ≤ r.height ∧ r.height ≤ w.height - 46 → w.height < 2 ^ 31 →
      r.y + r.height < 2 ^ 31 → w.maxScroll = .ok m → 0 ≤ w.scrollY ∧ w.scrollY ≤ m → ∃ offset, s.ensureFocusedVisible =
        .ok { s with windows := s.windows.modify index fun _ => { w with scrollY := offset } } ∧ InView w r offset) ∧
    ¬∀ s index w r m, FocusedRow s index w r → 1 ≤ r.width → 45 ≤ r.y → 1 ≤ r.height ∧ r.height ≤ w.height - 46 →
      w.height < 2 ^ 31 → r.y < 2 ^ 31 → w.maxScroll = .ok m → 0 ≤ w.scrollY ∧ w.scrollY ≤ m → ∃ offset,
        s.ensureFocusedVisible =
          .ok { s with windows := s.windows.modify index fun _ => { w with scrollY := offset } } ∧
          InView w r offset := by
  refine ⟨fun h => ?_, fun h => ?_⟩
  · obtain ⟨offset, heq, hin⟩ :=
      h _ _ _ _ 0 (focusedRow_single ⟨[], [], 98, 0, flagFocusable, 20, 300, 0, 30⟩) (by decide)
      (by decide) (by decide) (by decide) (by decide +kernel) (by decide)
    have hsame : (single ⟨[], [], 98, 0, flagFocusable, 20, 300, 0, 30⟩).ensureFocusedVisible =
        .ok (single ⟨[], [], 98, 0, flagFocusable, 20, 300, 0, 30⟩) := by decide +kernel
    rw [hsame] at heq
    have hoffset : (0 : Int) = offset :=
      congrArg (fun c => ((Compositor.windows c).map Window.scrollY).headD 0) (Except.ok.inj heq)
    rw [← hoffset] at hin
    revert hin
    decide
  · obtain ⟨offset, heq, -⟩ := h _ _ _ _ 2147483448
      (focusedRow_single ⟨[], [], 98, 0, flagFocusable, 20, 2147483640, 10, 30⟩)
      (by decide) (by decide) (by decide) (by decide) (by decide) (by decide +kernel) (by decide)
    have hfault : (single ⟨[], [], 98, 0, flagFocusable, 20, 2147483640, 10, 30⟩).ensureFocusedVisible =
        .error .overflow := by decide +kernel
    rw [hfault] at heq
    cases heq

end Compositor

end Pippin.Native
