import Pippin.Native.WindowInvariant

/-! The frames of surfaces and rows. Sizes come from checked sources, the shell model and `S|`
lines; moving, maximizing and scrolling keep them in range. -/

namespace Pippin.Native
open Checked
open Pippin.Client (WIDTH HEIGHT)

def IsI32 (v : Int) : Prop := -2 ^ 31 ≤ v ∧ v < 2 ^ 31

def ShellSurface.Word (surface : ShellSurface) : Prop := IsI32 surface.x ∧ IsI32 surface.y

/-- A frame that was accepted once: a 32-bit place and a size the screen has room for. -/
structure FrameFits (x y width height : Int) : Prop where
  x : -2 ^ 31 ≤ x
  y : -2 ^ 31 ≤ y
  width : 0 < width ∧ width ≤ 1024
  height : 0 < height ∧ height ≤ 768

/-- A row that is laid out is laid out on a surface of the screen's size. -/
structure Row.Fits (r : Row) : Prop where
  x : 0 ≤ r.x
  y : 0 ≤ r.y
  width : 0 ≤ r.width
  laidOut : r.laidOut = true → 0 < r.width ∧ 0 < r.height ∧ r.x + r.width ≤ 1024 ∧ r.y + r.height ≤ 768

namespace Window

variable {w v : Window}

structure Fits (w : Window) : Prop where
  frame : FrameFits w.x w.y w.width w.height
  restore : ∀ x y width height, w.restore = some (x, y, width, height) → FrameFits x y width height
  rows : ∀ r ∈ w.rows, r.Fits
  scroll : 0 ≤ w.scrollY ∧ w.scrollY ≤ 788

theorem saturate_le {v hi : Int} (h : v ≤ hi) (hlo : -2 ^ 31 ≤ hi) : saturate v ≤ hi := by
  unfold saturate
  omega

theorem contentBottom_le (h : ∀ r ∈ w.rows, r.Fits) : w.contentBottom ≤ 768 := by
  unfold contentBottom
  cases hmax : ((w.rows.filter Row.laidOut).map fun r => saturate (r.y + r.height)).max? with
  | none =>
    unfold headerHeight
    decide
  | some m =>
    obtain ⟨r, hr, rfl⟩ := List.mem_map.mp (List.max?_mem hmax)
    obtain ⟨hin, hlaid⟩ := List.mem_filter.mp hr
    exact saturate_le ((h r hin).laidOut hlaid).2.2.2 (by decide)

theorem maxScroll_yields (hrows : ∀ r ∈ w.rows, r.Fits) (hh : 0 < w.height ∧ w.height ≤ 768) :
    Yields w.maxScroll fun m => m ≤ 788 := by
  unfold maxScroll
  split_ifs
  · exact yields_ok (by decide)
  · rw [i32_eq (by omega) (by omega), ok_bind]
    refine yields_ok ?_
    have hbottom := contentBottom_le hrows
    unfold headerHeight contentBottomPadding saturate
    omega

theorem Fits.shift (h : w.Fits) (hs : w.Shift v) : v.Fits := by
  obtain ⟨x, y, scrollY, rfl, hplace, hscroll⟩ := hs
  refine ⟨?_, h.restore, h.rows, ?_⟩
  · rcases hplace with ⟨rfl, rfl⟩ | ⟨hx, hy⟩
    · exact h.frame
    · refine ⟨?_, ?_, h.frame.width, h.frame.height⟩ <;> dsimp only <;> omega
  · rcases hscroll with rfl | ⟨hlo, hhi⟩
    · exact h.scroll
    · obtain ⟨m, hm, hle⟩ := maxScroll_yields h.rows h.frame.height
      exact ⟨hlo, Int.le_trans (hhi m hm) hle⟩

theorem Fits.clampScroll (h : w.Fits) : Ensures w.clampScroll Fits :=
  fun v hv => h.shift (clampScroll_scroll w.scrollY v hv).shift

theorem Fits.minimized (h : w.Fits) (minimized : Bool) : { w with minimized }.Fits :=
  ⟨h.frame, h.restore, h.rows, h.scroll⟩

theorem Fits.toggled (h : w.Fits) : w.toggleMaximized.Fits := by
  unfold toggleMaximized
  split
  · split
    · rename_i x y width height hrestore
      exact ⟨h.restore x y width height hrestore, nofun, h.rows, h.scroll⟩
    · exact ⟨h.frame, h.restore, h.rows, h.scroll⟩
  · have hscreen : FrameFits 8 58 (WIDTH - 16) (HEIGHT - 116) :=
      ⟨by decide, by decide, by decide, by decide⟩
    refine ⟨hscreen, ?_, h.rows, h.scroll⟩
    rintro x y width height ⟨⟩
    exact h.frame

end Window

namespace Compositor

variable {s t : Compositor} {w : Window} {index : Nat} {shell : List ShellSurface}

def Fits (s : Compositor) : Prop := ∀ w ∈ s.windows, w.Fits

/-! ## Commands -/

theorem parseI32_ge {text : Str} {v : Int} (h : Str.parseI32 text = some v) : -2 ^ 31 ≤ v := by
  unfold Str.parseI32 at h
  split at h
  · obtain ⟨m, hm, rfl⟩ := Option.map_eq_some_iff.mp h
    obtain ⟨n, hn, hm⟩ := Option.bind_eq_some_iff.mp hm
    cases hm
    obtain ⟨-, hle⟩ := Option.filter_eq_some_iff.mp hn
    rw [decide_eq_true_eq] at hle
    omega
  · obtain ⟨m, hm, rfl⟩ := Option.map_eq_some_iff.mp h
    obtain ⟨n, -, hm⟩ := Option.bind_eq_some_iff.mp hm
    cases hm
    exact Int.le_trans (by decide) (Int.natCast_nonneg n)

theorem plainRow_fits (text action : Str) (kind : UInt8) : (plainRow text action kind).Fits :=
  ⟨Int.le_refl 0, Int.le_refl 0, Int.le_refl 0, nofun⟩

theorem parseRow_plain {part : Str} {r : Row} (h : parseRow part = some r) :
    ∃ text action kind, r = plainRow text action kind := by
  unfold parseRow at h
  dsimp only at h
  split at h
  · cases h
  · cases h
    exact ⟨_, _, _, rfl⟩

theorem mem_of_mapM {α β : Type} {f : α → Option β} {l : List α} {r : List β} (h : l.mapM f = some r) :
    ∀ b ∈ r, ∃ a ∈ l, f a = some b := by
  induction l generalizing r with
  | nil =>
    cases h
    exact fun _ hb => (nomatch hb)
  | cons a l ih =>
    rw [List.mapM_cons] at h
    obtain ⟨b, hb, h⟩ := Option.bind_eq_some_iff.mp h
    obtain ⟨r', hr, h⟩ := Option.bind_eq_some_iff.mp h
    cases h
    intro c hc
    rcases List.mem_cons.mp hc with rfl | hc
    · exact ⟨a, List.mem_cons_self, hb⟩
    · obtain ⟨d, hd, hcd⟩ := ih hr c hc
      exact ⟨d, List.mem_cons_of_mem a hd, hcd⟩

theorem parseRows_plain {text : Str} {rows : List Row} (h : parseRows text = some rows) :
    ∀ r ∈ rows, ∃ text action kind, r = plainRow text action kind := by
  intro r hr
  obtain ⟨part, -, hpart⟩ := mem_of_mapM h r hr
  exact parseRow_plain hpart

theorem parseSurface_window {payload id title : Str} {role : Role} {x y width height : Int} {rows : List Row}
    (h : parseSurface payload = some (.window id role x y width height title rows)) :
    FrameFits x y width height ∧ ∀ r ∈ rows, ∃ text action kind, r = plainRow text action kind := by
  obtain ⟨⟨_, hx⟩, ⟨_, hy⟩, ⟨_, hrows⟩, hsize⟩ := parseSurface_reads h
  simp only [WIDTH, HEIGHT] at hsize
  refine ⟨⟨parseI32_ge hx, parseI32_ge hy, ?_, ?_⟩, parseRows_plain hrows⟩ <;> omega

/-! ## Runs -/

theorem surface_items {surface : ShellSurface} (h : surface.valid = true) :
    surface.items.all (·.valid surface) = true := by
  unfold ShellSurface.valid at h
  simp only [Bool.and_eq_true] at h
  exact h.1.2

theorem item_fits {surface : ShellSurface} {item : ShellItem} (h : item.valid surface = true)
    (hw : surface.width ≤ 1024) (hh : surface.height ≤ 768) : item.row.Fits := by
  unfold ShellItem.valid at h
  simp only [Bool.and_eq_true, Bool.not_eq_true', Bool.or_eq_false_iff, Bool.and_eq_false_iff, decide_eq_false_iff_not,
    bne_eq_false_iff_eq] at h
  obtain ⟨⟨-, hpos⟩, hin⟩ := h
  refine ⟨?_, ?_, ?_, fun hlaid => ?_⟩
  · show 0 ≤ item.x
    omega
  · show 0 ≤ item.y
    omega
  · show 0 ≤ item.width
    omega
  · unfold Row.laidOut at hlaid
    simp only [Bool.and_eq_true, decide_eq_true_eq] at hlaid
    unfold ShellItem.row at hlaid ⊢
    dsimp only at hlaid ⊢
    omega

theorem window?_fits {surface : ShellSurface} (hword : surface.Word) (hwindow : surface.window? = some w) : w.Fits := by
  obtain ⟨hx, hy⟩ := hword
  unfold ShellSurface.window? at hwindow
  split at hwindow
  · cases hwindow
  · rename_i hvalid
    obtain ⟨role, -, rfl⟩ := Option.map_eq_some_iff.mp hwindow
    simp only [WIDTH, HEIGHT, not_or, Bool.not_eq_true', Bool.not_eq_false] at hvalid
    obtain ⟨hvalid, hsize⟩ := hvalid
    have hitems := List.all_eq_true.mp (surface_items hvalid)
    refine ⟨⟨hx.1, hy.1, ?_, ?_⟩, nofun, fun r hr => ?_, Int.le_refl 0, Int.zero_le_ofNat 788⟩
    · dsimp only
      omega
    · dsimp only
      omega
    · obtain ⟨item, hitem, rfl⟩ := List.mem_map.mp hr
      exact item_fits (hitems item (List.mem_of_mem_take hitem)) (by omega) (by omega)

theorem fits_rule (hshell : ∀ surface ∈ shell, surface.Word) : WindowRule shell Window.Fits where
  new surface hin w hw := window?_fits (hshell surface hin) hw
  shift w v h hv := h.shift hv
  minimized w minimized h := h.minimized minimized
  toggled w h := h.toggled.clampScroll
  replaced w payload id role x y width height title rows hp h := by
    obtain ⟨hframe, hplain⟩ := parseSurface_window hp
    refine Window.Fits.clampScroll ⟨hframe, h.restore, fun r hr => ?_, h.scroll⟩
    obtain ⟨text, action, kind, rfl⟩ := hplain r hr
    exact plainRow_fits text action kind
  added payload id role x y width height title rows hp := by
    obtain ⟨hframe, hplain⟩ := parseSurface_window hp
    refine ⟨hframe, nofun, fun r hr => ?_, Int.le_refl 0, Int.zero_le_ofNat 788⟩
    obtain ⟨text, action, kind, rfl⟩ := hplain r hr
    exact plainRow_fits text action kind
  test id x y hx hy := by
    refine ⟨⟨hx, hy, (by decide : (0 : Int) < 440 ∧ (440 : Int) ≤ 1024),
        (by decide : (0 : Int) < 300 ∧ (300 : Int) ≤ 768)⟩,
      nofun, fun r hr => ?_, Int.le_refl 0, Int.zero_le_ofNat 788⟩
    simp only [testWindow, List.mem_cons, List.not_mem_nil, or_false] at hr
    rcases hr with rfl | rfl <;> exact plainRow_fits _ _ _

theorem Reachable.fits (hshell : ∀ surface ∈ shell, surface.Word) (h : Reachable shell s) : s.Fits :=
  (fits_rule hshell).reachable h

theorem Fits.shifted (hshell : ∀ surface ∈ shell, surface.Word) (h : s.Fits)
    (hs : List.Forall₂ Window.Shift s.windows t.windows) : t.Fits := (fits_rule hshell).shifted h hs

end Compositor

end Pippin.Native
