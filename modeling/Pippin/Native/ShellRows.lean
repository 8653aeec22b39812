import Pippin.Native.Focus
import Pippin.Native.Frames

/-! Rows that take the focus are rows of the shell model: the rows of the host and of test windows
have no flags, and nothing else gives a surface new rows. -/

namespace Pippin.Native
open Checked

/-- Every row of the surface that takes the focus is one of the shell surface with its id. -/
def Window.OfShell (shell : List ShellSurface) (w : Window) : Prop := ∀ r ∈ w.rows, r.focusable = true →
  w.native = false ∧ ∃ surface ∈ shell, surface.id = w.id ∧ ∃ item ∈ surface.items, item.row = r

variable {s : Compositor} {w v : Window} {shell : List ShellSurface}

theorem Window.OfShell.congr (h : w.OfShell shell) (hrows : v.rows = w.rows) (hid : v.id = w.id)
    (hnative : v.native = w.native) : v.OfShell shell := by
  unfold OfShell
  rw [hrows, hid, hnative]
  exact h

namespace Compositor

theorem toggleMaximized_native : w.toggleMaximized.native = w.native := by
  unfold Window.toggleMaximized
  split
  · split <;> rfl
  · rfl

theorem clampScroll_native : Ensures w.clampScroll fun v => v.native = w.native :=
  ensures_bind fun _ _ => ensures_ok rfl

theorem plainRow_unfocusable (text action : Str) (kind : UInt8) : (plainRow text action kind).focusable = false := by
  show ((0 : UInt8) &&& flagFocusable != 0) = false
  decide

theorem ofShell_plain (h : ∀ r ∈ w.rows, ∃ text action kind, r = plainRow text action kind) : w.OfShell shell := by
  intro r hr hfocus
  obtain ⟨text, action, kind, rfl⟩ := h r hr
  cases (plainRow_unfocusable text action kind).symm.trans hfocus

theorem ofShell_rule : WindowRule shell (Window.OfShell shell) where
  new surface hin w hw := by
    unfold ShellSurface.window? at hw
    split at hw
    · cases hw
    · obtain ⟨role, -, rfl⟩ := Option.map_eq_some_iff.mp hw
      intro r hr _
      obtain ⟨item, hitem, hrow⟩ := List.mem_map.mp hr
      exact ⟨rfl, surface, hin, rfl, item, List.mem_of_mem_take hitem, hrow⟩
  shift w v h hv := by
    obtain ⟨x, y, scrollY, rfl, -⟩ := hv
    exact h
  minimized w minimized h := h
  toggled w h v hv := by
    obtain ⟨hid, hrows, -⟩ := clampScroll_content v hv
    exact h.congr (hrows.trans toggleMaximized_content.1) (hid.trans toggleMaximized_id)
      ((clampScroll_native v hv).trans toggleMaximized_native)
  replaced w payload id role x y width height title rows hp _ v hv := by
    -- the old rows are gone, whatever they were
    refine ofShell_plain fun r hr => ?_
    rw [(clampScroll_content v hv).2.1] at hr
    exact (parseSurface_window hp).2 r hr
  added payload id role x y width height title rows hp := ofShell_plain (parseSurface_window hp).2
  test id x y _ _ := ofShell_plain fun r hr => by
    simp only [testWindow, List.mem_cons, List.not_mem_nil, or_false] at hr
    rcases hr with rfl | rfl
    · exact ⟨_, _, _, rfl⟩
    · exact ⟨_, _, _, rfl⟩

theorem nextName_not_mem (h : ∀ id ∈ shell.map ShellSurface.id, id.head? ≠ some 'n') (u : Compositor) :
    u.nextName ∉ shell.map ShellSurface.id := fun hin => h u.nextName hin rfl

theorem Reachable.count_of_focusable (hshell : (shell.map ShellSurface.id).Nodup)
    (hnames : ∀ u : Compositor, u.nextName ∉ shell.map ShellSurface.id) (h : Reachable shell s) (hw : w ∈ s.windows)
    {r : Row} (hr : r ∈ w.rows) (hfocus : r.focusable = true) : s.ids.count w.id ≤ 1 := by
  obtain ⟨-, surface, hin, hid, -⟩ := ofShell_rule.reachable h w hw r hr hfocus
  refine h.count_le hshell fun u hname => hnames u ?_
  rw [hname, ← hid]
  exact List.mem_map_of_mem hin

end Compositor

end Pippin.Native
