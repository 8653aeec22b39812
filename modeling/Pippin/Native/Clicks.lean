import Pippin.Native.Focus

/-! Clicks. A control acts when the button is released on it; the press it was pressed by may
be many inputs earlier. The most recent press is followed beside the run. -/

namespace Pippin.Native
open Checked

namespace Compositor

variable {s t : Compositor} {w : Window} {shell : List ShellSurface} {packet : UInt32}

/-- A press: whether a client window took it, and the control under the pointer. -/
structure Press where
  handled : Bool
  control : Checked (Option Control)

/-- The press of a packet whose button goes down, else the one before. -/
def nextPress (s : Compositor) (last : Option Press) : Input → Option Press
  | .pointer packet =>
    if packet &&& 1 != 0 && !s.leftDown then
      match s.trackPointer packet with
      | .ok (t, handled, _) => some ⟨handled, t.controlAt t.cursorX t.cursorY⟩
      | _ => none
    else last
  | _ => last

inductive PressRun (shell : List ShellSurface) : Option Press → Compositor → Prop where
  | new : PressRun shell none (new shell)
  | step {last : Option Press} {s t : Compositor} {action : Option Str} {events : List Client.Event} (input : Input)
      (hs : PressRun shell last s) (h : s.step input = .ok (t, action, events)) :
      PressRun shell (s.nextPress last input) t

/-- While the button is down, the control of an unhandled press is remembered. -/
structure PressInv (last : Option Press) (s : Compositor) : Prop where
  up : s.leftDown = false → s.pressedControl = none
  down : s.leftDown = true → ∃ p, last = some p ∧
    ((p.handled = true ∧ s.pressedControl = none) ∨ (p.handled = false ∧ p.control = .ok s.pressedControl))

theorem PressInv.held {last : Option Press} (h : PressInv last s) (hk : Held s t) : PressInv last t := by
  refine ⟨fun hup => ?_, fun hdown => ?_⟩
  · rw [hk.pressedControl]
    exact h.up (hk.leftDown ▸ hup)
  · rw [hk.pressedControl]
    exact h.down (hk.leftDown ▸ hdown)

/-! ## One packet -/

theorem pressOrRelease_cases {left handled : Bool} {action : Option Str}
    (h : s.pressOrRelease left handled = .ok (t, action)) :
    (handled = false ∧ left = true ∧ s.leftDown = false ∧
      pointerDown { s with pressedControl := s.hoveredControl } = .ok (t, action)) ∨
    (left = false ∧ s.leftDown = true ∧ t = { s with pressedControl := none } ∧
      ((handled = true ∧ action = none) ∨ (handled = false ∧ s.releaseControl = .ok action))) ∨
    (t = s ∧ action = none ∧ (left = true → s.leftDown = false → handled = true) ∧
      (left = false → s.leftDown = false)) := by
  unfold pressOrRelease at h
  split at h
  · rename_i hc
    simp only [Bool.and_eq_true, Bool.not_eq_true'] at hc
    exact Or.inl ⟨hc.1.1, hc.1.2, hc.2, h⟩
  · rename_i hpress
    split at h
    · rename_i hc
      simp only [Bool.and_eq_true, Bool.not_eq_true'] at hc
      obtain ⟨released, hr, h⟩ := bind_eq_ok h
      cases h
      refine Or.inr (Or.inl ⟨hc.1, hc.2, rfl, ?_⟩)
      cases handled with
      | true =>
        cases hr
        exact Or.inl ⟨rfl, rfl⟩
      | false => exact Or.inr ⟨rfl, hr⟩
    · rename_i hrelease
      cases h
      refine Or.inr (Or.inr ⟨rfl, rfl, fun hl hd => ?_, fun hl => ?_⟩)
      · simpa [hl, hd] using hpress
      · simpa [hl] using hrelease

theorem titlePress_action (button : TitleButton) : Ensures (s.titlePress w button) fun r => ∀ action,
    r.2 = some action → button = .close ∧ action = w.id ++ ".close".toList := by
  cases button with
  | close =>
    unfold titlePress
    dsimp only
    split
    · exact ensures_ok fun _ h => (nomatch h)
    · refine ensures_ok fun action h => ⟨rfl, ?_⟩
      exact (Option.some.inj h).symm
  | minimize => exact ensures_ok fun _ h => (nomatch h)
  | maximize => exact ensures_bind fun _ _ => ensures_ok fun _ h => (nomatch h)

theorem setFocusScope_cursor (scope : FocusScope) :
    (s.setFocusScope scope).cursorX = s.cursorX ∧ (s.setFocusScope scope).cursorY = s.cursorY := by
  unfold setFocusScope
  split <;> exact ⟨rfl, rfl⟩

theorem pointerDown_action : Ensures s.pointerDown fun r => ∀ action, r.2 = some action →
    ∃ w, s.UnderPointer w ∧ w.titleButton s.cursorX s.cursorY = .ok (some .close) ∧
      action = w.id ++ ".close".toList := by
  unfold pointerDown
  refine ensures_bind fun top htop => ?_
  cases top with
  | none => exact ensures_ok fun _ h => (nomatch h)
  | some index =>
    refine ensures_bind fun r hr => ?_
    obtain ⟨w, rest⟩ := r
    have hcursor := setFocusScope_cursor (s := { s with windows := rest }) w.scopeForWindow
    dsimp only
    refine ensures_bind fun button hbutton => ?_
    rw [hcursor.1, hcursor.2] at hbutton
    cases button with
    | some button =>
      intro r h action haction
      obtain ⟨rfl, he⟩ := titlePress_action button r h action haction
      exact ⟨w, ⟨index, htop, (remove_of_ok hr).1⟩, hbutton, he⟩
    | none =>
      refine ensures_bind fun _ _ => ensures_bind fun _ _ => ensures_bind fun _ _ => ensures_bind fun _ _ => ?_
      exact ensures_bind fun _ _ => ensures_ok fun _ h => (nomatch h)

def Acts (s : Compositor) (c : Control) (action : Str) : Prop :=
  ∃ w r, s.shown c.1 = some w ∧ w.rows[c.2]? = some r ∧ r.disabled = false ∧ r.editable = false ∧ r.action = action

theorem releaseControl_action {action : Str} (h : s.releaseControl = .ok (some action)) : ∃ c,
    s.pressedControl = some c ∧ s.controlAt s.cursorX s.cursorY = .ok (some c) ∧ s.Acts c action := by
  unfold releaseControl at h
  split at h
  · cases h
  · rename_i c hc
    obtain ⟨hovered, hhovered, h⟩ := bind_eq_ok h
    split at h
    · cases h
    · rename_i hsame
      rw [ne_eq, not_not] at hsame
      subst hsame
      refine ⟨c, hc, hhovered, ?_⟩
      have h := Except.ok.inj h
      obtain ⟨w, hw, h⟩ := Option.bind_eq_some_iff.mp h
      obtain ⟨r, hr, h⟩ := Option.bind_eq_some_iff.mp h
      split at h
      · cases h
      · rename_i hflags
        simp only [Bool.or_eq_true, not_or, Bool.not_eq_true] at hflags
        exact ⟨w, r, hw, hr, hflags.1.1, hflags.2, Option.some.inj h⟩

theorem pointerPacket_parts {action : Option Str} {events : List Client.Event}
    (h : s.pointerPacket packet = .ok (t, action, events)) : ∃ s₁ s₂ s₃ handled,
      s.trackPointer packet = .ok (s₁, handled, events) ∧
      s₁.pressOrRelease (packet &&& 1 != 0) handled = .ok (s₂, action) ∧ Held s₂ s₃ ∧
      t = { s₃ with leftDown := packet &&& 1 != 0 } := by
  obtain ⟨⟨s₁, handled, _⟩, h₁, h⟩ := bind_eq_ok h
  obtain ⟨⟨s₂, _⟩, h₂, h⟩ := bind_eq_ok h
  obtain ⟨s₃, h₃, h⟩ := bind_eq_ok h
  cases h
  exact ⟨s₁, s₂, s₃, handled, h₁, h₂, (dragOrDrop_framed _ _ s₃ h₃).toHeld, rfl⟩

theorem pointerPacket_pressed {last : Option Press} {action : Option Str} {events : List Client.Event}
    (hs : PressInv last s) (h : s.pointerPacket packet = .ok (t, action, events)) :
    PressInv (s.nextPress last (.pointer packet)) t := by
  obtain ⟨s₁, s₂, s₃, handled, h₁, h₂, h₃, rfl⟩ := pointerPacket_parts h
  have htrack := trackPointer_tracked h₁
  have hdown : s₁.leftDown = s.leftDown := htrack.framed.leftDown
  have hpressed : s₁.pressedControl = s.pressedControl := htrack.framed.pressedControl
  have hlast : s.nextPress last (.pointer packet) = if packet &&& 1 != 0 && !s.leftDown then
      some ⟨handled, s₁.controlAt s₁.cursorX s₁.cursorY⟩ else last := by
    unfold nextPress
    dsimp only
    rw [h₁]
  rw [hlast]
  rcases pressOrRelease_cases h₂ with ⟨hfree, hleft, hup, hp⟩ | ⟨hleft, -, rfl, -⟩ | ⟨rfl, -, hfree, hidle⟩
  · -- an unhandled press
    refine ⟨fun hup' => absurd (hleft.symm.trans hup') nofun, fun _ => ?_⟩
    rw [hleft, ← hdown, hup]
    refine ⟨_, rfl, Or.inr ⟨hfree, ?_⟩⟩
    have hcontrol : s₂.pressedControl = s₁.hoveredControl := (pointerDown_keeps _ hp).2.pressedControl
    show s₁.controlAt s₁.cursorX s₁.cursorY = .ok s₃.pressedControl
    rw [h₃.pressedControl, hcontrol]
    exact htrack.hovered hfree
  · -- a release
    exact ⟨fun _ => h₃.pressedControl, fun hdown' => absurd (hleft.symm.trans hdown') nofun⟩
  · have hcontrol : s₃.pressedControl = s.pressedControl := h₃.pressedControl.trans hpressed
    refine ⟨fun hleft => ?_, fun hleft => ?_⟩
    · exact hcontrol.trans (hs.up (hdown.symm.trans (hidle hleft)))
    · have hleft : (packet &&& 1 != 0) = true := hleft
      show ∃ p : Press, _ ∧ ((p.handled = true ∧ s₃.pressedControl = none) ∨
        (p.handled = false ∧ p.control = .ok s₃.pressedControl))
      rw [hcontrol, hleft]
      cases hd : s.leftDown with
      | true => exact hs.down hd
      | false => exact ⟨_, rfl, Or.inl ⟨hfree hleft (hdown.trans hd), hs.up hd⟩⟩

/-! ## Runs -/

theorem step_pressed {last : Option Press} {action : Option Str} {events : List Client.Event} {input : Input}
    (hs : PressInv last s) (h : s.step input = .ok (t, action, events)) : PressInv (s.nextPress last input) t := by
  cases input with
  | command line =>
    obtain ⟨⟨u, accepted⟩, hr, h⟩ := bind_eq_ok h
    cases h
    exact hs.held (command_held line _ hr)
  | clientCommand line =>
    obtain ⟨r, hr, h⟩ := bind_eq_ok h
    cases h
    rcases clientCommand_cases hr with ⟨-, he, -⟩ | ⟨-, -, he, -⟩ <;> rw [he]
    · exact hs
    · exact ⟨hs.up, hs.down⟩
  | key scan text reverseFocus extended => exact hs.held (keyScancode_framed _ _ _ _ _ h).toHeld
  | pointer packet => exact pointerPacket_pressed hs h
  | testWindow =>
    obtain ⟨r, hr, h⟩ := bind_eq_ok h
    cases h
    exact hs.held (openTestWindow_held _ hr)

theorem PressRun.inv {last : Option Press} (h : PressRun shell last s) : PressInv last s := by
  induction h with
  | new => exact ⟨fun _ => rfl, nofun⟩
  | step input _ h ih => exact step_pressed ih h

/-- Click semantics, for the packet after any run. -/
theorem click_semantics {last : Option Press} (hs : PressRun shell last s) {action : Option Str}
    {events : List Client.Event} (h : s.pointerPacket packet = .ok (t, action, events)) :
    ∃ s₁ handled, s.trackPointer packet = .ok (s₁, handled, events) ∧
      (∀ a, action = some a → handled = false ∧
        ((packet &&& 1 ≠ 0 ∧ s.leftDown = false ∧ ∃ w, s₁.UnderPointer w ∧
            w.titleButton s₁.cursorX s₁.cursorY = .ok (some .close) ∧ a = w.id ++ ".close".toList) ∨
          (packet &&& 1 = 0 ∧ s.leftDown = true ∧ ∃ c, last = some ⟨false, .ok (some c)⟩ ∧
            s₁.controlAt s₁.cursorX s₁.cursorY = .ok (some c) ∧ s₁.Acts c a))) ∧
      (packet &&& 1 = 0 → (∀ c, last = some ⟨false, .ok (some c)⟩ →
        s₁.controlAt s₁.cursorX s₁.cursorY ≠ .ok (some c)) → action = none) := by
  obtain ⟨s₁, s₂, s₃, handled, h₁, h₂, -, -⟩ := pointerPacket_parts h
  have htrack := trackPointer_tracked h₁
  have hdown : s₁.leftDown = s.leftDown := htrack.framed.leftDown
  have hpressed : s₁.pressedControl = s.pressedControl := htrack.framed.pressedControl
  -- a release that acts is on the control of the last press
  have released : ∀ a, s.leftDown = true → s₁.releaseControl = .ok (some a) → ∃ c,
      last = some ⟨false, .ok (some c)⟩ ∧ s₁.controlAt s₁.cursorX s₁.cursorY = .ok (some c) ∧ s₁.Acts c a := by
    intro a hleft hr
    obtain ⟨c, hc, hat, hacts⟩ := releaseControl_action hr
    rw [hpressed] at hc
    obtain ⟨⟨taken, control⟩, hp, ⟨-, hnone⟩ | ⟨hfree, hcontrol⟩⟩ := hs.inv.down hleft
    · cases hnone.symm.trans hc
    · rw [hc] at hcontrol
      dsimp only at hfree hcontrol
      subst hfree hcontrol
      exact ⟨c, hp, hat, hacts⟩
  refine ⟨s₁, handled, h₁, ?_⟩
  rcases pressOrRelease_cases h₂ with ⟨hfree, hleft, hup, hp⟩ | ⟨hleft, hd, -, hr⟩ | ⟨-, hnone, -⟩
  · have hbit : packet &&& 1 ≠ 0 := by simpa using hleft
    refine ⟨fun a ha => ⟨hfree, Or.inl ⟨hbit, hdown.symm.trans hup, ?_⟩⟩, fun hoff => absurd hoff hbit⟩
    exact pointerDown_action _ hp a ha
  · have hbit : packet &&& 1 = 0 := by simpa using hleft
    rcases hr with ⟨-, hnone⟩ | ⟨hfree, hr⟩
    · exact ⟨fun a ha => (nomatch hnone.symm.trans ha), fun _ _ => hnone⟩
    · refine ⟨fun a ha => ⟨hfree, Or.inr ⟨hbit, hdown.symm.trans hd, ?_⟩⟩, fun _ helse => ?_⟩
      · exact released a (hdown.symm.trans hd) (ha ▸ hr)
      · cases action with
        | none => rfl
        | some a =>
          obtain ⟨c, hc, hat, -⟩ := released a (hdown.symm.trans hd) hr
          exact absurd hat (helse c hc)
  · exact ⟨fun a ha => (nomatch hnone.symm.trans ha), fun _ _ => hnone⟩

theorem click_semantics_files : ∃ (s₁ : Compositor) (c : Control),
    (opened.pressed 2 2).trackPointer 0 = .ok (s₁, false, []) ∧
      s₁.controlAt s₁.cursorX s₁.cursorY = .ok (some c) ∧ s₁.Acts c "files.open".toList := by
  have hpress : opened.pointerPacket 0x003c8101 = .ok (opened.pressed 2 2, none, []) := by decide +kernel
  have hrelease : ∃ t, (opened.pressed 2 2).pointerPacket 0 = .ok (t, some "files.open".toList, []) :=
    ⟨{ opened.pressed 2 2 with leftDown := false, pressedControl := none }, by decide +kernel⟩
  have hopened : PressRun [launcher] none opened :=
    .step (.command "R|launcher".toList) .new (by rw [step, command_opened]; rfl)
  have hrun := hopened.step (.pointer 0x003c8101) hpress
  obtain ⟨t, ht⟩ := hrelease
  obtain ⟨s₁, handled, htrack, hacts, -⟩ := click_semantics hrun ht
  obtain ⟨rfl, ⟨hleft, -⟩ | ⟨-, -, c, hc, hat, hacts⟩⟩ := hacts _ rfl
  · exact absurd rfl hleft
  · exact ⟨s₁, c, htrack, hat, hacts⟩

end Compositor

end Pippin.Native
