import Pippin.Native.Clicks
import Pippin.Native.Painting

/-! Surfaces of the host. The rows of an `S|` line have no frame: they are painted, and pressed,
at fixed places, but a click goes through the hit test, which looks at laid-out rows only. -/

namespace Pippin.Native
open Checked

namespace Compositor

variable {s t u : Compositor} {w : Window} {rows : List Row} {r : Row} {press release : UInt32}

/-- The button goes down over a painted row that has an action, with no other window in between,
and comes up later. `t` is the state that sees the press. -/
structure ClickOnRow (s t : Compositor) (w : Window) (r : Row) (press release : UInt32) : Prop where
  tracked : ∃ events, s.trackPointer press = .ok (t, false, events)
  down : press &&& 1 ≠ 0 ∧ s.leftDown = false
  up : release &&& 1 = 0
  top : t.UnderPointer w
  framed : w.role.framed = true
  action : r.action ≠ []
  painted : ∃ clip i rect, w.contentClip = .ok clip ∧ clip.contains t.cursorX t.cursorY = true ∧
    w.rows[i]? = some r ∧ t.paintRow w clip (r, i) = .ok (some rect) ∧ rect.Holds t.cursorX t.cursorY

/-! ## The surface of a line -/

theorem command_surface {payload id title : Str} {role : Role} {x y width height : Int}
    (hparse : parseSurface payload = some (.window id role x y width height title rows))
    (h : s.command ('S' :: '|' :: payload) = .ok (t, true)) :
    ∃ w, t.windows.getLast? = some w ∧ w.id = id ∧ w.role = role ∧ w.rows = rows ∧ w.minimized = false := by
  rw [command_surfaceLine, hparse] at h
  obtain ⟨result, hr, h⟩ := bind_eq_ok h
  cases result with
  | none => cases h
  | some t' =>
    cases h
    unfold surfaceCommand at hr
    dsimp only at hr
    split at hr
    · rename_i index hfind
      obtain ⟨⟨w, rest⟩, hremove, hr⟩ := bind_eq_ok hr
      obtain ⟨v, hv, hr⟩ := bind_eq_ok hr
      cases hr
      obtain ⟨hid, hrows, hrole, hmin⟩ := clampScroll_content v hv
      refine ⟨v, ?_, ?_, hrole, hrows, hmin⟩
      · rw [repairFocusScope_windows, List.getLast?_concat]
      · obtain ⟨hlt, hp, -⟩ := List.findIdx?_eq_some_iff_getElem.mp hfind
        obtain ⟨_, he⟩ := List.getElem?_eq_some_iff.mp (remove_of_ok hremove).1
        rw [he, decide_eq_true_eq] at hp
        exact hid.trans hp
    · split at hr
      · cases hr
      · cases hr
        exact ⟨_, by rw [repairFocusScope_windows, List.getLast?_concat], rfl, rfl, rfl, rfl⟩

/-! ## The click -/

theorem controlAt_plain {c : Option Control} (htop : s.UnderPointer w) (hrows : ∀ r ∈ w.rows, r.laidOut = false)
    (h : s.controlAt s.cursorX s.cursorY = .ok c) : c = none := by
  obtain ⟨index, htop, hw⟩ := htop
  rcases controlAt_cases h with ⟨-, hc⟩ | ⟨_, v, _, htop', hv, -, ⟨-, hc⟩ | ⟨-, localX, localY, row, hx, hy, -, hc⟩⟩
  · exact hc
  · exact hc
  · cases htop.symm.trans htop'
    cases hw.symm.trans hv
    cases c with
    | none => rfl
    | some c =>
      obtain ⟨r, -, hr, hunder, -⟩ := controlAt_under htop hw hx hy h
      cases (hrows r (List.mem_of_getElem? hr)).symm.trans ((controlUnder_iff s w _ _ c.2 r).mp hunder).1

theorem titleButton_above {clip : ClipRect} {x y : Int} {button : TitleButton} (hclip : w.contentClip = .ok clip)
    (hin : clip.contains x y = true) : w.titleButton x y ≠ .ok (some button) := by
  intro h
  unfold Window.titleButton at h
  unfold Window.contentClip headerHeight at hclip
  cases hrole : w.role.framed with
  | false =>
    rw [hrole] at h
    cases h
  | true =>
    rw [hrole] at h hclip
    obtain ⟨top, htop, hclip⟩ := bind_eq_ok hclip
    obtain ⟨bar, hbar, htop⟩ := bind_eq_ok htop
    obtain ⟨rfl, -⟩ := i32_of_ok hbar
    obtain ⟨rfl, -⟩ := i32_of_ok htop
    obtain ⟨left, -, hclip⟩ := bind_eq_ok hclip
    obtain ⟨_, -, hclip⟩ := bind_eq_ok hclip
    obtain ⟨right, -, hclip⟩ := bind_eq_ok hclip
    obtain ⟨_, -, hclip⟩ := bind_eq_ok hclip
    obtain ⟨bottom, -, hclip⟩ := bind_eq_ok hclip
    cases hclip
    unfold ClipRect.contains at hin
    simp only [Bool.and_eq_true, decide_eq_true_eq] at hin
    obtain ⟨upper, -, h⟩ := bind_eq_ok h
    split at h
    · cases h
    · obtain ⟨lower, hlower, h⟩ := bind_eq_ok h
      obtain ⟨rfl, -⟩ := i32_of_ok hlower
      rw [if_pos (by omega)] at h
      cases h

theorem release_nothing {b : Option Str} {events : List Client.Event} (hs : s.pressedControl = none)
    (hup : release &&& 1 = 0) (h : s.pointerPacket release = .ok (t, b, events)) : b = none := by
  obtain ⟨s₁, s₂, s₃, handled, h₁, h₂, -, -⟩ := pointerPacket_parts h
  have hpressed : s₁.pressedControl = none := (trackPointer_tracked h₁).framed.pressedControl.trans hs
  rcases pressOrRelease_cases h₂ with ⟨-, hleft, -⟩ | ⟨-, -, -, ⟨-, hb⟩ | ⟨-, hr⟩⟩ | ⟨-, hb, -⟩
  · rw [hup] at hleft
    cases hleft
  · exact hb
  · unfold releaseControl at hr
    rw [hpressed] at hr
    cases hr
    rfl
  · exact hb

theorem press_plain {a : Option Str} {events : List Client.Event} (h : ClickOnRow s u w r press release)
    (hrows : ∀ r ∈ w.rows, r.laidOut = false) (hp : s.pointerPacket press = .ok (t, a, events)) :
    a = none ∧ t.pressedControl = none := by
  obtain ⟨s₁, s₂, s₃, handled, h₁, h₂, h₃, rfl⟩ := pointerPacket_parts hp
  obtain ⟨_, htracked⟩ := h.tracked
  cases htracked.symm.trans h₁
  have htrack := trackPointer_tracked h₁
  have hhovered : u.hoveredControl = none := controlAt_plain h.top hrows (htrack.hovered rfl)
  obtain ⟨clip, i, rect, hclip, hin, -⟩ := h.painted
  rcases pressOrRelease_cases h₂ with ⟨-, -, -, hdown⟩ | ⟨hleft, -⟩ | ⟨-, -, htaken, -⟩
  · have hpressed : s₂.pressedControl = none := (pointerDown_keeps _ hdown).2.pressedControl.trans hhovered
    refine ⟨?_, h₃.pressedControl.trans hpressed⟩
    cases a with
    | none => rfl
    | some action =>
      obtain ⟨v, ⟨index, htop, hv⟩, hbutton, -⟩ := pointerDown_action _ hdown action rfl
      obtain ⟨index', htop', hw⟩ := h.top
      cases htop'.symm.trans htop
      cases hw.symm.trans hv
      exact absurd hbutton (titleButton_above hclip hin)
  · exact absurd (by simpa using hleft) h.down.1
  · cases htaken (by simpa using h.down.1) (htrack.framed.leftDown.trans h.down.2)

/-- No row of a host surface can be clicked: whatever the line, the state it is clicked in and the
point of the row, neither packet returns an action. -/
theorem host_rows_dead {payload id title : Str} {role : Role} {x y width height : Int}
    (hparse : parseSurface payload = some (.window id role x y width height title rows)) :
    (∀ s t : Compositor, s.command ('S' :: '|' :: payload) = .ok (t, true) → ∃ w, t.windows.getLast? = some w ∧
      w.id = id ∧ w.role = role ∧ w.rows = rows ∧ w.minimized = false) ∧
    ∀ (s t u v : Compositor) (w : Window) (r : Row) (press release : UInt32) (a b : Option Str)
      (events events' : List Client.Event), w.rows = rows → ClickOnRow s t w r press release →
      s.pointerPacket press = .ok (u, a, events) → u.pointerPacket release = .ok (v, b, events') →
      a = none ∧ b = none := by
  refine ⟨fun s t h => command_surface hparse h, ?_⟩
  intro s t u v w r press release a b events events' hrows hclick hpress hrelease
  have hplain : ∀ r ∈ w.rows, r.laidOut = false := by
    intro r hr
    obtain ⟨text, action, kind, rfl⟩ := (parseSurface_window hparse).2 r (hrows ▸ hr)
    rfl
  obtain ⟨ha, hpressed⟩ := press_plain hclick hplain hpress
  exact ⟨ha, release_nothing hpressed hclick.up hrelease⟩

def demoWindow : Window where
  id := "demo".toList
  role := .W
  x := 400
  y := 300
  width := 300
  height := 200
  title := "Demo".toList
  rows := [plainRow "Go".toList "go".toList 98]
  native := false
  maximized := false
  minimized := false
  scrollY := 0
  restore := none

def demo : Compositor := { new [] with windows := [demoWindow] }

def demoLine : Str := "demo|W|400|300|300|200|Demo|b:Go@go".toList

theorem command_demo : (new []).command ('S' :: '|' :: demoLine) = .ok (demo, true) := by decide +kernel

theorem parse_demo : parseSurface demoLine =
    some (.window "demo".toList .W 400 300 300 200 "Demo".toList demoWindow.rows) := by rfl

theorem click_demo : ClickOnRow demo demo demoWindow (plainRow "Go".toList "go".toList 98) 1 0 where
  tracked := ⟨[], by decide +kernel⟩
  down := by decide
  up := by decide
  top := ⟨0, by decide +kernel, rfl⟩
  framed := rfl
  action := by decide
  painted :=
    ⟨⟨401, 345, 699, 499⟩, 0, (424, 360, 252, 34), by decide +kernel, by decide, rfl, by decide +kernel, by decide⟩

def demoClicked (down : Bool) : Compositor := { demo with leftDown := down, focusScope := .Window "demo".toList }

theorem press_demo : demo.pointerPacket 1 = .ok (demoClicked true, none, []) := by decide +kernel

theorem release_demo : (demoClicked true).pointerPacket 0 = .ok (demoClicked false, none, []) := by decide +kernel

theorem host_rows_dead_demo : ∃ (t u : Compositor) (a b : Option Str), demo.pointerPacket 1 = .ok (t, a, []) ∧
    t.pointerPacket 0 = .ok (u, b, []) ∧ a = none ∧ b = none :=
  ⟨_, _, _, _, press_demo, release_demo,
    (host_rows_dead parse_demo).2 _ _ _ _ _ _ _ _ _ _ _ _ rfl click_demo press_demo release_demo⟩

/-- The button of the demo window is clicked and nothing comes of it. -/
theorem host_row_unclickable : ¬∀ (payload id title : Str) (role : Role) (x y width height : Int) (rows : List Row),
    parseSurface payload = some (.window id role x y width height title rows) →
    ∀ (s t u : Compositor) (w : Window) (r : Row) (press release : UInt32), Reachable [] s →
      s.command ('S' :: '|' :: payload) = .ok (t, true) → t.windows.getLast? = some w →
      ClickOnRow t u w r press release → ∃ v v' a events events',
        t.pointerPacket press = .ok (v, a, events) ∧ v.pointerPacket release = .ok (v', some r.action, events') := by
  intro h
  obtain ⟨v, v', a, events, events', hpress, hrelease⟩ :=
    h _ _ _ _ _ _ _ _ _ parse_demo _ _ _ _ _ _ _ .new command_demo rfl click_demo
  rw [press_demo] at hpress
  cases hpress
  rw [release_demo] at hrelease
  cases hrelease

end Compositor

end Pippin.Native
