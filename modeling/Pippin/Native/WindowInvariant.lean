import Pippin.Native.Table

/-! Invariants of single surfaces. Whatever a run does to a surface is one of a few changes; a
property that these keep holds of every surface in every run. -/

namespace Pippin.Native
open Checked

namespace Compositor

/-- The window of `open_test_window`. -/
def testWindow (id : Str) (x y : Int) : Window where
  id := id
  role := .W
  x := x
  y := y
  width := 440
  height := 300
  title := "WINDOW TEST".toList
  rows := [plainRow "RUST COMPOSITOR".toList [] kindLabel, plainRow "DRAG TITLE BAR".toList [] kindLabel]
  native := true
  maximized := false
  minimized := false
  scrollY := 0
  restore := none

/-- A surface that an accepted `S|` line adds. -/
def hostWindow (id : Str) (role : Role) (x y width height : Int) (title : Str) (rows : List Row) : Window where
  id := id
  role := role
  x := x
  y := y
  width := width
  height := height
  title := title
  rows := rows
  native := false
  maximized := false
  minimized := false
  scrollY := 0
  restore := none

structure WindowRule (shell : List ShellSurface) (P : Window → Prop) : Prop where
  new : ∀ surface ∈ shell, ∀ w, surface.window? = some w → P w
  shift : ∀ w v, P w → w.Shift v → P v
  minimized : ∀ w minimized, P w → P { w with minimized }
  toggled : ∀ w, P w → Ensures w.toggleMaximized.clampScroll P
  replaced : ∀ w payload id role x y width height title rows,
    parseSurface payload = some (.window id role x y width height title rows) → P w →
      Ensures { w with role, x, y, width, height, title, rows, minimized := false }.clampScroll P
  added : ∀ payload id role x y width height title rows,
    parseSurface payload = some (.window id role x y width height title rows) →
      P (hostWindow id role x y width height title rows)
  test : ∀ id x y, -2 ^ 31 ≤ x → -2 ^ 31 ≤ y → P (testWindow id x y)

variable {s t : Compositor} {w : Window} {index : Nat} {shell : List ShellSurface} {P : Window → Prop}

theorem forall_removed {rest : List Window} (h : ∀ v ∈ s.windows, P v) (hr : remove s.windows index = .ok (w, rest)) :
    P w ∧ ∀ v ∈ rest, P v := by
  have hperm := remove_perm hr
  exact ⟨h w (hperm.mem_iff.mp List.mem_cons_self), fun v hv => h v (hperm.mem_iff.mp (List.mem_cons_of_mem _ hv))⟩

theorem forall_append {rest : List Window} (h : ∀ v ∈ rest, P v) (hw : P w) : ∀ v ∈ rest ++ [w], P v := by
  intro v hv
  rcases List.mem_append.mp hv with hv | hv
  · exact h v hv
  · cases List.mem_singleton.mp hv
    exact hw

theorem forall_related {R : Window → Window → Prop} (hP : ∀ w v, P w → R w v → P v) {ws vs : List Window}
    (h : ∀ w ∈ ws, P w) (hs : List.Forall₂ R ws vs) : ∀ v ∈ vs, P v := by
  induction hs with
  | nil => exact h
  | cons hw _ ih =>
    intro v hv
    rcases List.mem_cons.mp hv with rfl | hv
    · exact hP _ _ (h _ List.mem_cons_self) hw
    · exact ih (fun w hw => h w (List.mem_cons_of_mem _ hw)) v hv

theorem forall_repair (h : ∀ w ∈ s.windows, P w) : ∀ w ∈ s.repairFocusScope.windows, P w := by
  rw [repairFocusScope_windows]
  exact h

structure CommandRule (s : Compositor) (line : Str) (P : Window → Prop) : Prop where
  minimized : ∀ w minimized, P w → P { w with minimized }
  replaced : ∀ w ∈ s.windows, ∀ payload role x y width height title rows, line = 'S' :: '|' :: payload →
    parseSurface payload = some (.window w.id role x y width height title rows) → P w →
      Ensures { w with role, x, y, width, height, title, rows, minimized := false }.clampScroll P
  added : ∀ payload id role x y width height title rows, line = 'S' :: '|' :: payload →
    parseSurface payload = some (.window id role x y width height title rows) →
      P (hostWindow id role x y width height title rows)

namespace CommandRule

variable {line : Str} (hP : CommandRule s line P)
include hP

theorem surfaceCommand (h : ∀ v ∈ s.windows, P v) {surface : Surface} {payload : Str}
    (hline : line = 'S' :: '|' :: payload)
    (hp : parseSurface payload = some surface) :
    Ensures (s.surfaceCommand surface) fun r => ∀ t, r = some t → ∀ v ∈ t.windows, P v := by
  cases surface with
  | wallpaper color =>
    refine ensures_ok fun t ht => ?_
    cases ht
    exact h
  | window id role x y width height title rows =>
    unfold Compositor.surfaceCommand
    dsimp only
    split
    · rename_i index hfind
      refine ensures_bind fun r hr => ensures_bind fun v hv => ensures_ok ?_
      obtain ⟨hw, hrest⟩ := forall_removed h hr
      have hin := (remove_of_ok hr).1
      obtain ⟨hlt, htest, -⟩ := List.findIdx?_eq_some_iff_getElem.mp hfind
      obtain ⟨_, hget⟩ := List.getElem?_eq_some_iff.mp hin
      have hid : r.1.id = id := by
        rw [← hget]
        exact of_decide_eq_true htest
      subst hid
      have hnew : P v := hP.replaced r.1
        (List.mem_of_getElem? hin) payload role x y width height title rows hline hp hw v hv
      rintro t ⟨⟩
      exact forall_repair (forall_append hrest hnew)
    · split
      · exact ensures_ok (by rintro t ⟨⟩)
      · refine ensures_ok ?_
        rintro t ⟨⟩
        exact forall_repair (forall_append h (hP.added payload id role x y width height title rows hline hp))

theorem command (h : ∀ v ∈ s.windows, P v) : Ensures (s.command line) fun r => ∀ v ∈ r.1.windows, P v := by
  unfold Compositor.command
  split
  · refine ensures_bind fun t ht => ensures_ok ?_
    unfold restoreCommand at ht
    split at ht
    · cases ht
      exact h
    · obtain ⟨r, hr, ht⟩ := bind_eq_ok ht
      cases ht
      obtain ⟨hw, hrest⟩ := forall_removed h hr
      rw [setFocusScope_windows]
      exact forall_append hrest (hP.minimized r.1 false hw)
  · refine ensures_bind fun t ht => ensures_ok ?_
    unfold minimizeCommand at ht
    split at ht
    · cases ht
      exact h
    · obtain ⟨ws, hws, ht⟩ := bind_eq_ok ht
      cases ht
      refine forall_repair fun w hw => ?_
      rcases Keyed.mem_modify (modify_of_ok hws ▸ hw) with hold | ⟨v, hv, rfl⟩
      · exact h w hold
      · exact hP.minimized v true (h v (List.mem_of_getElem? hv))
  · exact ensures_ok (forall_repair fun w hw => h w (List.mem_filter.mp hw).1)
  · split
    · exact ensures_ok h
    · rename_i surface hp
      refine ensures_bind fun r hr => ?_
      cases r with
      | none => exact ensures_ok h
      | some t => exact ensures_ok (hP.surfaceCommand h rfl hp _ hr t rfl)
  · exact ensures_ok h

end CommandRule

/-- A property that keys and packets keep. A header button is pressed at a point of the screen. -/
structure PacketRule (P : Window → Prop) : Prop where
  scroll : ∀ w v, P w → w.Scroll v → P v
  moved : ∀ w x y, P w → (0 ≤ x ∧ x ≤ 984) → (0 ≤ y ∧ y ≤ 732) → P { w with x, y }
  minimized : ∀ w minimized, P w → P { w with minimized }
  toggled : ∀ w x y, P w → (0 ≤ x ∧ x ≤ 1023) → (0 ≤ y ∧ y ≤ 767) → w.titleButton x y = .ok (some .maximize) →
    Ensures w.toggleMaximized.clampScroll P

structure CursorOn (s : Compositor) : Prop where
  x : 0 ≤ s.cursorX ∧ s.cursorX ≤ 1023
  y : 0 ≤ s.cursorY ∧ s.cursorY ≤ 767

theorem trackPointer_cursor {packet : UInt32} {handled : Bool} {events : List Client.Event}
    (h : s.trackPointer packet = .ok (t, handled, events)) : t.CursorOn := by
  obtain ⟨x, -, h⟩ := bind_eq_ok h
  obtain ⟨y, -, h⟩ := bind_eq_ok h
  obtain ⟨⟨handled', clients, events'⟩, -, h⟩ := bind_eq_ok h
  obtain ⟨s₁, h₁, h⟩ := bind_eq_ok h
  obtain ⟨s₂, h₂, h⟩ := bind_eq_ok h
  cases h
  have hcursor : s₁.CursorOn := by
    rw [(wheelScroll_scrolled _ _ s₁ h₁).rest]
    exact ⟨clamp_bounds (by decide), clamp_bounds (by decide)⟩
  unfold hover at h₂
  split at h₂
  · cases h₂
    exact ⟨hcursor.x, hcursor.y⟩
  · obtain ⟨c, -, h₂⟩ := bind_eq_ok h₂
    cases h₂
    exact ⟨hcursor.x, hcursor.y⟩

namespace PacketRule

variable (hP : PacketRule P)
include hP

theorem still (h : ∀ w ∈ s.windows, P w) (hs : Still s t) : ∀ w ∈ t.windows, P w :=
  forall_related hP.scroll h hs.windows

theorem titlePress (h : ∀ v ∈ s.windows, P v) (hw : P w) (hcursor : s.CursorOn) {button : TitleButton}
    (hbutton : w.titleButton s.cursorX s.cursorY = .ok (some button)) :
    Ensures (s.titlePress w button) fun r => ∀ v ∈ r.1.windows, P v := by
  have raised : ∀ minimized, ∀ v ∈ (repairFocusScope { s with windows := s.windows ++ [{ w with minimized }] }).windows,
      P v := fun minimized => forall_repair (forall_append h (hP.minimized w minimized hw))
  cases button with
  | close =>
    unfold Compositor.titlePress
    dsimp only
    split
    · exact ensures_ok (forall_repair h)
    · exact ensures_ok (raised true)
  | minimize => exact ensures_ok (raised true)
  | maximize =>
    refine ensures_bind fun v hv => ensures_ok ?_
    exact forall_append h (hP.toggled w _ _ hw hcursor.x hcursor.y hbutton v hv)

theorem pointerDown (h : ∀ v ∈ s.windows, P v) (hcursor : s.CursorOn) :
    Ensures s.pointerDown fun r => ∀ v ∈ r.1.windows, P v := by
  unfold Compositor.pointerDown
  refine ensures_bind fun top _ => ?_
  cases top with
  | none => exact ensures_ok (hP.still h (setFocusScope_still _))
  | some index =>
    refine ensures_bind fun r hr => ?_
    obtain ⟨w, rest⟩ := r
    obtain ⟨hw, hrest⟩ := forall_removed h hr
    dsimp only
    have hsame : ∀ u : Compositor, (u.setFocusScope w.scopeForWindow).cursorX = u.cursorX ∧
        (u.setFocusScope w.scopeForWindow).cursorY = u.cursorY := fun u => by
      unfold setFocusScope
      split <;> exact ⟨rfl, rfl⟩
    obtain ⟨hx, hy⟩ := hsame { s with windows := rest }
    generalize hu : setFocusScope { s with windows := rest } w.scopeForWindow = u at hx hy ⊢
    have hrest : ∀ v ∈ u.windows, P v := by
      rw [← hu, setFocusScope_windows]
      exact hrest
    have hcursor : u.CursorOn := ⟨hx ▸ hcursor.x, hy ▸ hcursor.y⟩
    refine ensures_bind fun button hbutton => ?_
    cases button with
    | some button => exact hP.titlePress hrest hw hcursor hbutton
    | none =>
      refine ensures_bind fun _ _ => ensures_bind fun _ _ => ensures_bind fun _ _ => ensures_bind fun t ht => ?_
      refine ensures_bind fun _ _ => ensures_ok ?_
      obtain ⟨hwindows, -⟩ := focusRow_windows _ _ _ t ht
      exact forall_append (fun v hv => hrest v (hwindows ▸ hv)) hw

theorem dragOrDrop (h : ∀ v ∈ s.windows, P v) (left handled : Bool) :
    Ensures (s.dragOrDrop left handled) fun t => ∀ v ∈ t.windows, P v := by
  unfold Compositor.dragOrDrop
  split
  · unfold Compositor.dragWindow
    split
    · exact ensures_ok h
    · split
      · exact ensures_ok h
      · refine ensures_bind fun x _ => ensures_bind fun y _ => ensures_bind fun ws hws => ensures_ok fun v hv => ?_
        rcases Keyed.mem_modify (modify_of_ok hws ▸ hv) with hold | ⟨w, hw, rfl⟩
        · exact h v hold
        · exact hP.moved w _ _ (h w (List.mem_of_getElem? hw)) (clamp_bounds (by decide)) (clamp_bounds (by decide))
  · exact ensures_ok h

theorem pointerPacket (h : ∀ v ∈ s.windows, P v) (packet : UInt32) :
    Ensures (s.pointerPacket packet) fun r => ∀ v ∈ r.1.windows, P v := by
  refine ensures_bind fun r₁ h₁ => ensures_bind fun r₂ h₂ => ensures_bind fun s₃ h₃ => ensures_ok ?_
  obtain ⟨s₁, handled, events⟩ := r₁
  have hf₁ : ∀ v ∈ s₁.windows, P v := forall_related hP.scroll h (trackPointer_still h₁).windows
  have hcursor := trackPointer_cursor h₁
  have hf₂ := pressOrRelease_rule (P := fun t => ∀ v ∈ t.windows, P v)
    (fun _ => hP.pointerDown (s := { s₁ with pressedControl := s₁.hoveredControl }) hf₁ ⟨hcursor.x, hcursor.y⟩)
    (fun _ => hf₁) r₂ h₂
  exact hP.dragOrDrop hf₂ _ _ s₃ h₃

theorem keyScancode (h : ∀ v ∈ s.windows, P v) (scan : UInt8) (text : Option UInt8) (reverseFocus extended : Bool) :
    Ensures (s.keyScancode scan text reverseFocus extended) fun r => ∀ v ∈ r.1.windows, P v :=
  fun r hr => hP.still h (keyScancode_still scan text reverseFocus extended r hr)

end PacketRule

namespace WindowRule

variable (hP : WindowRule shell P)
include hP

theorem shifted {ws vs : List Window} (h : ∀ w ∈ ws, P w) (hs : List.Forall₂ Window.Shift ws vs) : ∀ v ∈ vs, P v :=
  forall_related hP.shift h hs

theorem packetRule : PacketRule P where
  scroll w v h hv := hP.shift w v h hv.shift
  moved w x y h hx hy := hP.shift w _ h ⟨x, y, w.scrollY, rfl, Or.inr ⟨hx.1, hy.1⟩, Or.inl rfl⟩
  minimized := hP.minimized
  toggled w _ _ h _ _ _ := hP.toggled w h

/-! ## Commands -/

theorem commandRule (s : Compositor) (line : Str) : CommandRule s line P where
  minimized := hP.minimized
  replaced w _ payload role x y width height title rows _ hp h :=
    hP.replaced w payload w.id role x y width height title rows hp h
  added payload id role x y width height title rows _ hp := hP.added payload id role x y width height title rows hp

theorem openTestWindow (h : ∀ v ∈ s.windows, P v) : Ensures s.openTestWindow fun t => ∀ v ∈ t.windows, P v := by
  unfold Compositor.openTestWindow
  split
  · exact ensures_ok h
  · refine ensures_bind fun offset hoffset => ensures_bind fun x hx => ensures_bind fun y hy => ensures_ok ?_
    obtain ⟨rfl, hx, -⟩ := i32_of_ok hx
    obtain ⟨rfl, hy, -⟩ := i32_of_ok hy
    exact forall_append h (hP.test _ _ _ hx hy)

/-! ## Runs -/

theorem start : ∀ w ∈ (Compositor.new shell).windows, P w := by
  intro w hw
  obtain ⟨surface, hin, hwindow⟩ := List.mem_filterMap.mp hw
  exact hP.new surface (List.mem_of_mem_take hin) w hwindow

theorem step {input : Input} {action : Option Str} {events : List Client.Event} (h : ∀ w ∈ s.windows, P w)
    (hstep : s.step input = .ok (t, action, events)) : ∀ w ∈ t.windows, P w := by
  cases input with
  | command line =>
    obtain ⟨r, hr, heq⟩ := bind_eq_ok hstep
    cases heq
    exact (hP.commandRule s line).command h _ hr
  | clientCommand line =>
    obtain ⟨r, hr, heq⟩ := bind_eq_ok hstep
    cases heq
    exact fun w hw => h w (clientCommand_windows hr ▸ hw)
  | key scan text reverseFocus extended => exact hP.packetRule.keyScancode h scan text reverseFocus extended _ hstep
  | pointer packet => exact hP.packetRule.pointerPacket h packet _ hstep
  | testWindow =>
    obtain ⟨r, hr, heq⟩ := bind_eq_ok hstep
    cases heq
    exact hP.openTestWindow h _ hr

theorem reachable (h : Reachable shell s) : ∀ w ∈ s.windows, P w := by
  have hrun := run_of_reachable h
  clear h
  induction hrun with
  | new => exact hP.start
  | step input _ _ hstep ih => exact hP.step ih hstep

end WindowRule

end Compositor

end Pippin.Native
