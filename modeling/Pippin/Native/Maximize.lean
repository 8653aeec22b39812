import Pippin.Native.WindowInvariant

/-! Maximizing a surface. Its frame, the flag and the frame it had before are three fields that
the header button, dragging and `S|` lines write. -/

namespace Pippin.Native
open Checked
open Pippin.Client (WIDTH HEIGHT)

abbrev Frame := Int × Int × Int × Int

def fullFrame : Frame := (8, 58, 1008, 652)

namespace Window

variable {w v : Window} {f : Frame} {grabbed : Option Str}

def frame (w : Window) : Frame := (w.x, w.y, w.width, w.height)

/-- The three fields agree, with `f` the frame of the surface before it was maximized. A
maximized surface is not grabbed. -/
structure Consistent (w : Window) (f : Frame) (grabbed : Option Str) : Prop where
  full : w.maximized = true → w.frame = fullFrame ∧ w.restore = some f
  free : w.maximized = false → w.restore = none
  held : w.maximized = true → grabbed ≠ some w.id

theorem Consistent.congr (h : w.Consistent f grabbed) (hid : v.id = w.id) (hmax : v.maximized = w.maximized)
    (hrestore : v.restore = w.restore) (hframe : w.maximized = true → v.frame = w.frame) : v.Consistent f grabbed := by
  refine ⟨fun hv => ?_, fun hv => ?_, fun hv => ?_⟩
  · rw [hmax] at hv
    rw [hframe hv, hrestore]
    exact h.full hv
  · rw [hrestore]
    exact h.free (hmax ▸ hv)
  · rw [hid]
    exact h.held (hmax ▸ hv)

theorem Consistent.scroll (h : w.Consistent f grabbed) (hs : w.Scroll v) : v.Consistent f grabbed := by
  obtain ⟨_, rfl, -⟩ := hs
  exact h.congr rfl rfl rfl fun _ => rfl

theorem Consistent.dropped (h : w.Consistent f grabbed) : w.Consistent f none := ⟨h.full, h.free, nofun⟩

theorem Consistent.start (hmax : w.maximized = false) (hrestore : w.restore = none) : w.Consistent f grabbed := by
  have hno : ¬w.maximized = true := fun h => nomatch hmax.symm.trans h
  exact ⟨fun h => absurd h hno, fun _ => hrestore, fun h => absurd h hno⟩

theorem Consistent.toggled (h : w.Consistent f none) (hf : w.maximized = false → w.frame = f) :
    w.toggleMaximized.Consistent f none ∧ w.toggleMaximized.maximized = !w.maximized ∧
      w.toggleMaximized.frame = if w.maximized then f else fullFrame := by
  unfold toggleMaximized
  cases hmax : w.maximized with
  | true =>
    obtain ⟨-, hrestore⟩ := h.full hmax
    obtain ⟨x, y, width, height⟩ := f
    rw [hrestore]
    exact ⟨.start rfl rfl, rfl, rfl⟩
  | false => exact ⟨⟨fun _ => ⟨rfl, congrArg some (hf hmax)⟩, nofun, nofun⟩, rfl, rfl⟩

theorem clampScroll_scrolled : Ensures w.clampScroll w.Scroll := clampScroll_scroll w.scrollY

end Window

namespace Compositor

variable {s t : Compositor} {w : Window} {index : Nat} {shell : List ShellSurface} {g : Str → Frame}

def remember (g : Str → Frame) (s : Compositor) : Str → Frame := fun id =>
  ((s.windows.find? fun w => w.id == id && !w.maximized).map Window.frame).getD (g id)

inductive FrameRun (shell : List ShellSurface) (ok : Compositor → Input → Prop) :
    Compositor → (Str → Frame) → Prop where
  | new : FrameRun shell ok (new shell) (remember (fun _ => fullFrame) (new shell))
  | step {s t : Compositor} {g : Str → Frame} {action : Option Str} {events : List Client.Event} (input : Input)
      (hs : FrameRun shell ok s g) (hok : ok s input) (h : s.step input = .ok (t, action, events)) :
      FrameRun shell ok t (remember g t)

/-- An `S|` line gives no maximized surface another frame than the full one. -/
def KeepsFull (s : Compositor) (input : Input) : Prop := ∀ payload id role x y width height title rows,
  input = .command ('S' :: '|' :: payload) →
    parseSurface payload = some (.window id role x y width height title rows) →
      ∀ w ∈ s.windows, w.id = id → w.maximized = true → (x, y, width, height) = fullFrame

def grabbedId (s : Compositor) : Option Str := s.drag.map Prod.fst

def Consistent (s : Compositor) (g : Str → Frame) : Prop := ∀ w ∈ s.windows, w.Consistent (g w.id) s.grabbedId

/-- The frames of the surfaces that are not maximized. -/
def Known (s : Compositor) (g : Str → Frame) : Prop := ∀ w ∈ s.windows, w.maximized = false → w.frame = g w.id

structure MaxInv (s : Compositor) (g : Str → Frame) : Prop where
  nodup : s.ids.Nodup
  consistent : s.Consistent g
  known : s.Known g
  /-- A window is dragged with the button down only. -/
  released : s.leftDown = false → s.drag = none

theorem eq_of_ids (hn : s.ids.Nodup) {v : Window} (hw : w ∈ s.windows) (hv : v ∈ s.windows)
    (hid : w.id = v.id) : w = v :=
  List.inj_on_of_nodup_map hn hw hv hid

theorem remember_free (hn : s.ids.Nodup) (hw : w ∈ s.windows) (hmax : w.maximized = false) :
    remember g s w.id = w.frame := by
  unfold remember
  cases hfind : s.windows.find? fun v => v.id == w.id && !v.maximized with
  | none =>
    have hno := List.find?_eq_none.mp hfind w hw
    simp [hmax] at hno
  | some v =>
    have htest := List.find?_some hfind
    simp only [Bool.and_eq_true, beq_iff_eq] at htest
    rw [eq_of_ids hn (List.mem_of_find?_eq_some hfind) hw htest.1]
    rfl

theorem remember_full (hn : s.ids.Nodup) (hw : w ∈ s.windows) (hmax : w.maximized = true) :
    remember g s w.id = g w.id := by
  unfold remember
  cases hfind : s.windows.find? fun v => v.id == w.id && !v.maximized with
  | none => rfl
  | some v =>
    have htest := List.find?_some hfind
    simp only [Bool.and_eq_true, beq_iff_eq, Bool.not_eq_true'] at htest
    rw [eq_of_ids hn (List.mem_of_find?_eq_some hfind) hw htest.1, hmax] at htest
    cases htest.2

theorem maxInv_remember (hn : s.ids.Nodup) (hc : s.Consistent g) (hreleased : s.leftDown = false → s.drag = none) :
    s.MaxInv (remember g s) := by
  refine ⟨hn, fun w hw => ⟨fun hmax => ?_, (hc w hw).free, (hc w hw).held⟩, fun w hw hmax => ?_, hreleased⟩
  · rw [remember_full hn hw hmax]
    exact (hc w hw).full hmax
  · exact (remember_free hn hw hmax).symm

theorem Consistent.still (h : s.Consistent g) (hs : Still s t) : t.Consistent g := by
  intro v hv
  unfold grabbedId
  rw [hs.drag]
  exact forall_related (P := fun w => w.Consistent (g w.id) s.grabbedId) (fun w v hw hs => by
    have hid : v.id = w.id := by
      obtain ⟨_, rfl, -⟩ := hs
      rfl
    rw [hid]
    exact hw.scroll hs) h hs.windows v hv

theorem Known.still (h : s.Known g) (hs : Still s t) : t.Known g :=
  forall_related (P := fun w => w.maximized = false → w.frame = g w.id) (fun w v hw hs => by
    obtain ⟨_, rfl, -⟩ := hs
    exact hw) h hs.windows

/-! ## Commands -/

theorem command_drag (line : Str) : Ensures (s.command line) fun r => r.1.drag = s.drag :=
  fun r hr => congrArg (fun p => p.2.2) (command_pointer line r hr)

theorem consistent_rule {line : Str} (hk : s.KeepsFull (.command line)) :
    CommandRule s line fun w => w.Consistent (g w.id) s.grabbedId where
  minimized w minimized h := h.congr rfl rfl rfl fun _ => rfl
  replaced w hw payload role x y width height title rows hline hp h := by
    intro v hv
    have hscroll := Window.clampScroll_scrolled v hv
    have hid : v.id = w.id := by
      obtain ⟨_, rfl, -⟩ := hscroll
      rfl
    rw [hid]
    refine Window.Consistent.scroll
      (w := { w with role, x, y, width, height, title, rows, minimized := false }) ?_ hscroll
    refine h.congr rfl rfl rfl fun hmax => ?_
    rw [(h.full hmax).1]
    exact hk payload w.id role x y width height title rows (congrArg Input.command hline) hp w hw rfl hmax
  added _ _ _ _ _ _ _ _ _ _ _ := Window.Consistent.start rfl rfl

/-! ## Packets -/

theorem titlePress_consistent (h : ∀ v ∈ s.windows, v.Consistent (g v.id) none) (hw : w.Consistent (g w.id) none)
    (hknown : w.maximized = false → w.frame = g w.id) (hd : s.drag = none) (button : TitleButton) :
    Ensures (s.titlePress w button) fun r => (∀ v ∈ r.1.windows, v.Consistent (g v.id) none) ∧ r.1.drag = none := by
  have raised : ∀ minimized, ∀ v ∈ (repairFocusScope { s with windows := s.windows ++ [{ w with minimized }] }).windows,
      v.Consistent (g v.id) none := fun minimized =>
    forall_repair (forall_append h (Window.Consistent.congr hw rfl rfl rfl fun _ => rfl))
  cases button with
  | close =>
    unfold titlePress
    dsimp only
    split
    · exact ensures_ok ⟨forall_repair h, repairFocusScope_still.drag.trans hd⟩
    · exact ensures_ok ⟨raised true, repairFocusScope_still.drag.trans hd⟩
  | minimize => exact ensures_ok ⟨raised true, repairFocusScope_still.drag.trans hd⟩
  | maximize =>
    refine ensures_bind fun v hv => ensures_ok ⟨forall_append h ?_, hd⟩
    have hscroll := Window.clampScroll_scrolled v hv
    have hid : v.id = w.id := by
      obtain ⟨_, rfl, -⟩ := hscroll
      exact toggleMaximized_id
    rw [hid]
    exact (hw.toggled hknown).1.scroll hscroll

theorem maximizePress_toggles {f : Frame} (h : w.Consistent f none) (hknown : w.maximized = false → w.frame = f) :
    Ensures (s.titlePress w .maximize) fun r => ∃ v ∈ r.1.windows, v.id = w.id ∧ v.maximized = (!w.maximized) ∧
      v.frame = if w.maximized then f else fullFrame := by
  refine ensures_bind fun v hv => ensures_ok ⟨v, List.mem_append_right _ List.mem_cons_self, ?_⟩
  obtain ⟨_, rfl, -⟩ := Window.clampScroll_scrolled v hv
  exact ⟨toggleMaximized_id, (h.toggled hknown).2⟩

theorem grabbed_spec (s : Compositor) (w : Window) : Ensures (s.grabbed w) fun d =>
    d = s.drag ∨ w.maximized = false ∧ d.map Prod.fst = some w.id := by
  unfold grabbed
  split
  · exact ensures_ok (Or.inl rfl)
  · rename_i hfree
    simp only [Bool.or_eq_true, not_or, Bool.not_eq_true] at hfree
    refine ensures_bind fun _ _ => ?_
    split
    · exact ensures_ok (Or.inl rfl)
    · exact ensures_bind fun _ _ => ensures_bind fun _ _ => ensures_ok (Or.inr ⟨hfree.2, rfl⟩)

theorem pointerDown_consistent (hn : s.ids.Nodup) (h : s.Consistent g) (hk : s.Known g) (hd : s.drag = none) :
    Ensures s.pointerDown fun r => r.1.Consistent g := by
  have hnone : ∀ v ∈ s.windows, v.Consistent (g v.id) none := fun v hv => (h v hv).dropped
  unfold pointerDown
  refine ensures_bind fun top _ => ?_
  cases top with
  | none => exact ensures_ok (h.still (setFocusScope_still _))
  | some index =>
    refine ensures_bind fun r hr => ?_
    obtain ⟨w, rest⟩ := r
    have hin : w ∈ s.windows := List.mem_of_getElem? (remove_of_ok hr).1
    obtain ⟨hw, hrest⟩ := forall_removed hnone hr
    dsimp only
    have hscoped : (setFocusScope { s with windows := rest } w.scopeForWindow).windows = rest := setFocusScope_windows _
    have hdrag : (setFocusScope { s with windows := rest } w.scopeForWindow).drag = none :=
      (setFocusScope_still _).drag.trans hd
    refine ensures_bind fun button _ => ?_
    -- a press in the title may maximize or restore, any other may only grab
    cases button with
    | some button =>
      intro r hr'
      obtain ⟨hc, hd'⟩ := titlePress_consistent (by rw [hscoped]; exact hrest) hw (hk w hin) hdrag button r hr'
      intro v hv
      unfold grabbedId
      rw [hd']
      exact hc v hv
    | none =>
      refine ensures_bind fun _ _ => ensures_bind fun _ _ => ensures_bind fun _ _ => ensures_bind fun t ht => ?_
      refine ensures_bind fun drag hgrab => ensures_ok fun v hv => ?_
      obtain ⟨_, _, rfl⟩ := focusRow_parts _ _ _ t ht
      have hv : v ∈ rest ++ [w] := hscoped ▸ hv
      have hvin : v ∈ s.windows := by
        refine (remove_perm hr).mem_iff.mp ?_
        rcases List.mem_append.mp hv with hv | hv
        · exact List.mem_cons_of_mem _ hv
        · rw [List.mem_singleton.mp hv]
          exact List.mem_cons_self
      have hbase := hnone v hvin
      refine ⟨hbase.full, hbase.free, fun hmax hheld => ?_⟩
      -- only a surface that is not maximized is grabbed
      rcases grabbed_spec _ w drag hgrab with hsame | ⟨hfree, hid⟩
      · have hdrag : drag = none := hsame.trans hdrag
        have hheld : drag.map Prod.fst = some v.id := hheld
        rw [hdrag] at hheld
        cases hheld
      · have hid' : w.id = v.id := Option.some.inj (hid.symm.trans hheld)
        rw [eq_of_ids hn hin hvin hid', hmax] at hfree
        cases hfree

theorem dragWindow_consistent (h : s.Consistent g) : Ensures s.dragWindow fun t => t.Consistent g := by
  unfold dragWindow
  split
  · exact ensures_ok h
  · rename_i id dx dy hdrag
    split
    · exact ensures_ok h
    · rename_i index hfind
      refine ensures_bind fun x _ => ensures_bind fun y _ => ensures_bind fun ws hws => ensures_ok fun v hv => ?_
      rcases Keyed.mem_modify (modify_of_ok hws ▸ hv) with hold | ⟨w, hw, rfl⟩
      · exact h v hold
      · have hold := h w (List.mem_of_getElem? hw)
        obtain ⟨hlt, htest, -⟩ := List.findIdx?_eq_some_iff_getElem.mp hfind
        obtain ⟨_, rfl⟩ := List.getElem?_eq_some_iff.mp hw
        refine Window.Consistent.congr hold rfl rfl rfl fun hmax => absurd ?_ (hold.held hmax)
        unfold grabbedId
        rw [hdrag, of_decide_eq_true htest]
        rfl

theorem dragOrDrop_consistent (h : s.Consistent g) (left handled : Bool) : Ensures (s.dragOrDrop left handled) fun t =>
    t.Consistent g ∧ (left = false → t.drag = none) := by
  unfold dragOrDrop
  split
  · rename_i hleft
    refine fun t ht => ⟨dragWindow_consistent h t ht, fun hup => ?_⟩
    rw [hup] at hleft
    cases hleft
  · exact ensures_ok ⟨fun w hw => (h w hw).dropped, fun _ => rfl⟩

theorem pointerPacket_consistent (h : s.MaxInv g) (packet : UInt32) : Ensures (s.pointerPacket packet) fun r =>
    r.1.Consistent g ∧ (r.1.leftDown = false → r.1.drag = none) := by
  refine ensures_bind fun r₁ h₁ => ensures_bind fun r₂ h₂ => ensures_bind fun s₃ h₃ => ensures_ok ?_
  obtain ⟨s₁, handled, events⟩ := r₁
  have hstill := trackPointer_still h₁
  have hc₁ : s₁.Consistent g := Consistent.still (s := { s with clients := s₁.clients }) h.consistent hstill
  have hk₁ : s₁.Known g := Known.still (s := { s with clients := s₁.clients }) h.known hstill
  have hn₁ : s₁.ids.Nodup := hstill.framed.ids ▸ h.nodup
  have hc₂ : r₂.1.Consistent g := by
    refine pressOrRelease_rule (P := fun t => t.Consistent g) (fun hup => ?_) (fun _ => hc₁) r₂ h₂
    have hup : s.leftDown = false := hstill.leftDown ▸ hup
    exact pointerDown_consistent (s := { s₁ with pressedControl := s₁.hoveredControl }) hn₁ hc₁ hk₁
      (hstill.drag.trans (h.released hup))
  have hlast := dragOrDrop_consistent hc₂ _ _ s₃ h₃
  exact hlast

/-! ## Runs -/

theorem MaxInv.step {input : Input} {action : Option Str} {events : List Client.Event} (h : s.MaxInv g)
    (hn : t.ids.Nodup) (hk : s.KeepsFull input) (hstep : s.step input = .ok (t, action, events)) :
    t.MaxInv (remember g t) := by
  -- a command that breaks the condition is excluded, a key moves nothing, a packet keeps what is held
  cases input with
  | command line =>
    obtain ⟨r, hr, heq⟩ := bind_eq_ok hstep
    cases heq
    have hdrag := command_drag line r hr
    refine maxInv_remember hn (fun w hw => ?_) fun hup => ?_
    · unfold grabbedId
      rw [hdrag]
      exact (consistent_rule hk).command h.consistent r hr w hw
    · rw [hdrag]
      exact h.released ((command_held line r hr).leftDown ▸ hup)
  | clientCommand line =>
    obtain ⟨r, hr, heq⟩ := bind_eq_ok hstep
    cases heq
    rcases clientCommand_cases hr with ⟨-, rfl, -⟩ | ⟨-, -, ht, -⟩
    · exact maxInv_remember hn h.consistent h.released
    · rw [ht] at hn ⊢
      exact maxInv_remember hn h.consistent h.released
  | key scan text reverseFocus extended =>
    have hstill := keyScancode_still _ _ _ _ _ hstep
    refine maxInv_remember hn (h.consistent.still hstill) fun hup => ?_
    have hup' : s.leftDown = false := hstill.leftDown.symm.trans hup
    exact hstill.drag.trans (h.released hup')
  | pointer packet =>
    obtain ⟨hc, hreleased⟩ := pointerPacket_consistent h packet _ hstep
    exact maxInv_remember hn hc hreleased
  | testWindow =>
    obtain ⟨r, hr, heq⟩ := bind_eq_ok hstep
    cases heq
    unfold openTestWindow at hr
    split at hr
    · cases hr
      exact maxInv_remember hn h.consistent h.released
    · obtain ⟨_, -, hr⟩ := bind_eq_ok hr
      obtain ⟨_, -, hr⟩ := bind_eq_ok hr
      obtain ⟨_, -, hr⟩ := bind_eq_ok hr
      cases hr
      exact maxInv_remember hn (forall_append h.consistent (Window.Consistent.start rfl rfl)) h.released

/-- What keeps the three fields in step: distinct names, and no `S|` line that gives a maximized
surface another frame. -/
def KeepsMaximized (s : Compositor) (input : Input) : Prop := s.FreshNames input ∧ s.KeepsFull input

theorem FrameRun.run {ok : Compositor → Input → Prop} (h : FrameRun shell ok s g) : Run shell ok s := by
  induction h with
  | new => exact .new
  | step input _ hok h ih => exact .step input ih hok h

theorem Run.mono {ok ok' : Compositor → Input → Prop} (h : Run shell ok s)
    (himp : ∀ s input, ok s input → ok' s input) :
    Run shell ok' s := by
  induction h with
  | new => exact .new
  | step input _ hok h ih => exact .step input ih (himp _ _ hok) h

theorem FrameRun.maxInv (hshell : (shell.map ShellSurface.id).Nodup) (h : FrameRun shell KeepsMaximized s g) :
    s.MaxInv g := by
  induction h with
  | new =>
    refine maxInv_remember (hshell.sublist (ids_new_sublist shell)) (fun w hw => ?_) fun _ => rfl
    obtain ⟨surface, -, hwindow⟩ := List.mem_filterMap.mp hw
    unfold ShellSurface.window? at hwindow
    split at hwindow
    · cases hwindow
    · obtain ⟨role, -, rfl⟩ := Option.map_eq_some_iff.mp hwindow
      exact Window.Consistent.start rfl rfl
  | step input hs hok h ih =>
    have hrun : Run shell FreshNames _ := (FrameRun.run (.step input hs hok h)).mono fun _ _ hok => hok.1
    exact ih.step (hrun.nodup hshell) hok.2 h

theorem surface_breaks (hn : s.ids.Nodup) {payload : Str} {role : Role} {x y width height : Int} {title : Str}
    {rows : List Row} (hp : parseSurface payload = some (.window w.id role x y width height title rows))
    (hw : w ∈ s.windows) (hmax : w.maximized = true) : Ensures (s.command ('S' :: '|' :: payload)) fun r =>
      ∃ v ∈ r.1.windows, v.maximized = true ∧ v.frame = (x, y, width, height) := by
  rw [command_surfaceLine, hp]
  unfold surfaceCommand
  dsimp only
  cases hfind : s.windows.findIdx? fun v => decide (v.id = w.id) with
  | none =>
    have hno := List.findIdx?_eq_none_iff.mp hfind w hw
    simp at hno
  | some index =>
    dsimp only
    refine ensures_bind fun t ht => ?_
    obtain ⟨r, hr, ht⟩ := bind_eq_ok ht
    obtain ⟨v, hv, ht⟩ := bind_eq_ok ht
    cases ht
    refine ensures_ok ⟨v, ?_, ?_⟩
    · rw [repairFocusScope_windows]
      exact List.mem_append_right _ List.mem_cons_self
    · have hin := (remove_of_ok hr).1
      obtain ⟨hlt, htest, -⟩ := List.findIdx?_eq_some_iff_getElem.mp hfind
      obtain ⟨_, hget⟩ := List.getElem?_eq_some_iff.mp hin
      have hsame : r.1 = w := eq_of_ids hn (List.mem_of_getElem? hin) hw (hget ▸ of_decide_eq_true htest)
      obtain ⟨_, rfl, -⟩ := Window.clampScroll_scrolled v hv
      exact ⟨hsame ▸ hmax, rfl⟩

/-- Maximise state: in every run whose `S|` lines leave the frame of maximized surfaces alone,
a maximized surface has the full frame and remembers the one it had last, every other one
remembers none, and the header button goes from one to the other. Any other line breaks it. -/
theorem maximize_state (hshell : (shell.map ShellSurface.id).Nodup) (h : FrameRun shell KeepsMaximized s g) :
    (∀ w ∈ s.windows, (w.maximized = true → w.frame = (8, 58, 1008, 652) ∧ w.restore = some (g w.id)) ∧
      (w.maximized = false → w.restore = none ∧ w.frame = g w.id) ∧
      ∀ rest r, titlePress rest w .maximize = .ok r → ∃ v ∈ r.1.windows, v.id = w.id ∧ v.maximized = (!w.maximized) ∧
        v.frame = if w.maximized then g w.id else (8, 58, 1008, 652)) ∧
    ∀ line t accepted, s.command line = .ok (t, accepted) → ¬s.KeepsFull (.command line) →
      ∃ v ∈ t.windows, v.maximized = true ∧ v.frame ≠ (8, 58, 1008, 652) := by
  have hinv := h.maxInv hshell
  refine ⟨fun w hw => ?_, fun line t accepted hc hbad => ?_⟩
  · have hc := hinv.consistent w hw
    exact ⟨hc.full, fun hfree => ⟨hc.free hfree, hinv.known w hw hfree⟩, fun rest r hr =>
      maximizePress_toggles hc.dropped (hinv.known w hw) r hr⟩
  · unfold KeepsFull at hbad
    push Not at hbad
    obtain ⟨payload, id, role, x, y, width, height, title, rows, hline, hp, w, hw, rfl, hmax, hframe⟩ := hbad
    cases hline
    obtain ⟨v, hv, hvmax, hvframe⟩ := surface_breaks hinv.nodup hp hw hmax _ hc
    exact ⟨v, hv, hvmax, hvframe ▸ hframe⟩

def panel (f : Frame) (restore : Option Frame) : Window where
  id := "t".toList
  role := .W
  x := f.1
  y := f.2.1
  width := f.2.2.1
  height := f.2.2.2
  title := "T".toList
  rows := []
  native := false
  maximized := restore.isSome
  minimized := false
  scrollY := 0
  restore := restore

def floating : Compositor := { new [] with windows := [panel (432, 364, 300, 200) none] }

def filling : Compositor :=
  { new [] with
    windows := [panel fullFrame (some (432, 364, 300, 200))]
    leftDown := true
    focusScope := .Window "t".toList }

def reshaped : Compositor := { filling with windows := [panel (50, 60, 200, 150) (some (432, 364, 300, 200))] }

theorem step_open : (new []).step (.command "S|t|W|432|364|300|200|T|".toList) = .ok (floating, none, []) := by
  decide +kernel

theorem step_maximize : floating.step (.pointer 1) = .ok (filling, none, []) := by decide +kernel

theorem step_reshape : filling.step (.command "S|t|W|50|60|200|150|T|".toList) = .ok (reshaped, none, []) := by
  decide +kernel

theorem frameRun_filling :
    FrameRun [] KeepsMaximized filling (remember (remember (remember (fun _ => fullFrame) (new []))
    floating) filling) := by
  have hopen : KeepsMaximized (new []) (.command "S|t|W|432|364|300|200|T|".toList) := by
    refine ⟨nofun, ?_⟩
    intro _ _ _ _ _ _ _ _ _ _ _ w hw
    cases hw
  have hpress : KeepsMaximized floating (.pointer 1) := ⟨nofun, nofun⟩
  exact .step _ (.step _ .new hopen step_open) hpress step_maximize

def behind : Compositor := { filling with windows := [] }

def returned : Compositor := { filling with windows := [panel (432, 364, 300, 200) none] }

theorem maximize_state_pressed : behind.titlePress (panel fullFrame (some (432, 364, 300, 200))) .maximize =
    .ok (returned, none) ∧ ∃ v ∈ returned.windows, v.frame = (432, 364, 300, 200) := by
  have hpress : behind.titlePress (panel fullFrame (some (432, 364, 300, 200))) .maximize = .ok (returned, none) := by
    decide +kernel
  have hin : panel fullFrame (some (432, 364, 300, 200)) ∈ filling.windows := List.mem_cons_self
  obtain ⟨v, hv, -, -, hframe⟩ := ((maximize_state (by decide) frameRun_filling).1 _ hin).2.2 behind _ hpress
  exact ⟨hpress, v, hv, hframe⟩

/-- The host sends a smaller frame for the maximized surface. -/
theorem maximize_state_reshaped : ¬∀ shell s g, (shell.map ShellSurface.id).Nodup →
    FrameRun shell (fun _ _ => True) s g → ∀ w ∈ s.windows,
      (w.maximized = true → w.frame = (8, 58, 1008, 652) ∧ w.restore = some (g w.id)) ∧
        (w.maximized = false → w.restore = none) := by
  intro h
  have hrun : FrameRun [] (fun _ _ => True) reshaped _ :=
    .step _ (.step _ (.step _ .new trivial step_open) trivial step_maximize) trivial step_reshape
  have hframe := ((h [] reshaped _ (by decide) hrun _ List.mem_cons_self).1 rfl).1
  cases hframe

end Compositor

end Pippin.Native
