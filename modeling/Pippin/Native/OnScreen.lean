import Pippin.Native.CaretRuns
import Pippin.Native.Clicks

/-! Surfaces that stay on the screen. A surface leaves it by its own `M|` or `X|` line or by a button
in its title bar, and by nothing else. -/

namespace Pippin.Native
open Checked
open Pippin.Client (Event)

namespace Compositor

def OnScreen (s : Compositor) (id : Str) : Prop := ∃ w ∈ s.windows, w.minimized = false ∧ w.id = id

/-- The table has a place for a surface with this id. -/
def Takes (s : Compositor) (id : Str) : Prop := (∃ w ∈ s.windows, w.id = id) ∨ s.windows.length < maxWindows

variable {s t u : Compositor} {w v : Window} {rest : List Window} {id : Str} {index : Nat} {packet : UInt32}

theorem OnScreen.subset (h : s.OnScreen id) (hs : s.windows ⊆ t.windows) : t.OnScreen id :=
  h.imp fun _ h => ⟨hs h.1, h.2⟩

theorem OnScreen.congr (h : s.OnScreen id) (hw : t.windows = s.windows) : t.OnScreen id :=
  h.subset (hw ▸ List.Subset.refl _)

theorem OnScreen.repaired (h : s.OnScreen id) : s.repairFocusScope.OnScreen id := h.congr repairFocusScope_windows

theorem OnScreen.shifted (h : s.OnScreen id) (hs : List.Forall₂ Window.Shift s.windows t.windows) : t.OnScreen id := by
  obtain ⟨w, hw, hmin, hid⟩ := h
  obtain ⟨v, hv, x, y, scrollY, rfl, -⟩ := exists_related hs hw
  exact ⟨_, hv, hmin, hid⟩

theorem OnScreen.raised (h : s.OnScreen id) (hr : remove s.windows index = .ok (w, rest))
    (hv : w.minimized = false → w.id = id → v.minimized = false ∧ v.id = id) (ht : t.windows = rest ++ [v]) :
    t.OnScreen id := by
  obtain ⟨u, hu, hmin, hid⟩ := h
  unfold OnScreen
  rw [ht]
  rcases List.mem_cons.mp ((remove_perm hr).mem_iff.mpr hu) with rfl | hu
  · exact ⟨v, List.mem_append_right _ List.mem_cons_self, hv hmin hid⟩
  · exact ⟨u, List.mem_append_left _ hu, hmin, hid⟩

/-! ## Lines of the host -/

theorem mem_findIdx? (h : s.windows.findIdx? (fun w => w.id = id) = some index) (hw : s.windows[index]? = some w) :
    w.id = id := by
  have hspec : ∃ w, s.windows[index]? = some w ∧ w.id = id := Keyed.findIdx?_spec h
  obtain ⟨v, hv, hid⟩ := hspec
  cases hw.symm.trans hv
  exact hid

theorem surfaceCommand_onScreen (h : s.OnScreen id) (surface : Surface) : Ensures (s.surfaceCommand surface) fun r =>
    ∀ t, r = some t → t.OnScreen id := by
  cases surface with
  | wallpaper color =>
    refine ensures_ok ?_
    rintro t ⟨⟩
    exact h.congr rfl
  | window id' role x y width height title rows =>
    unfold surfaceCommand
    dsimp only
    split
    · refine ensures_bind fun r hr => ensures_bind fun v hv => ensures_ok fun t ht => ?_
      obtain ⟨w, rest⟩ := r
      obtain ⟨hid, -, -, hmin⟩ := clampScroll_content v hv
      rw [← Option.some.inj ht]
      refine OnScreen.repaired (h.raised (v := v) hr (fun _ hid' => ⟨hmin, hid.trans hid'⟩) ?_)
      rfl
    · split
      · refine ensures_ok fun t ht => ?_
        cases ht
      · refine ensures_ok fun t ht => ?_
        rw [← Option.some.inj ht]
        refine OnScreen.repaired (h.subset ?_)
        exact List.subset_append_left _ _

theorem command_onScreen (h : s.OnScreen id) {line : Str} (hmin : line ≠ 'M' :: '|' :: id)
    (hclose : line ≠ 'X' :: '|' :: id) :
    Ensures (s.command line) fun r => r.1.OnScreen id := by
  unfold command
  split
  · refine ensures_bind fun t ht => ensures_ok ?_
    unfold restoreCommand at ht
    split at ht
    · cases ht
      exact h
    · obtain ⟨⟨w, rest⟩, hr, ht⟩ := bind_eq_ok ht
      cases ht
      have hraised : OnScreen { s with windows := rest ++ [{ w with minimized := false }] } id :=
        h.raised (v := { w with minimized := false }) hr (fun _ hid => ⟨rfl, hid⟩) rfl
      exact hraised.congr (setFocusScope_windows _)
  -- neither `M|` nor `X|` names the surface, and `S|` puts a surface on the screen
  · rename_i id'
    refine ensures_bind fun t ht => ensures_ok ?_
    unfold minimizeCommand at ht
    split at ht
    · cases ht
      exact h
    · rename_i index hfind
      obtain ⟨ws, hws, ht⟩ := bind_eq_ok ht
      cases ht
      refine OnScreen.repaired ?_
      obtain ⟨w, hw, hshown, hid⟩ := h
      -- the surface that is minimized has another id
      obtain ⟨k, hk⟩ := List.mem_iff_getElem?.mp hw
      have hne : index ≠ k := by
        rintro rfl
        exact hmin (by rw [← hid, mem_findIdx? hfind hk])
      refine ⟨w, List.mem_of_getElem? (i := k) ?_, hshown, hid⟩
      show ws[k]? = some w
      rw [modify_of_ok hws, List.getElem?_modify_ne _ _ hne, hk]
  · rename_i id'
    refine ensures_ok ?_
    unfold closeCommand
    obtain ⟨w, hw, hshown, hid⟩ := h
    refine OnScreen.repaired ⟨w, List.mem_filter.mpr ⟨hw, ?_⟩, hshown, hid⟩
    exact decide_eq_true fun heq => hclose (by rw [← hid, heq])
  · split
    · exact ensures_ok h
    · rename_i surface hp
      refine ensures_bind fun r hr => ?_
      cases r with
      | none => exact ensures_ok h
      | some t => exact ensures_ok (surfaceCommand_onScreen h surface _ hr t rfl)
  · exact ensures_ok h

theorem command_shows {payload title : Str} {role : Role} {x y width height : Int} {rows : List Row}
    (hp : parseSurface payload = some (.window id role x y width height title rows)) (htakes : s.Takes id) :
    Ensures (s.command ('S' :: '|' :: payload)) fun r => r.1.OnScreen id := by
  have hsurface : Ensures (s.surfaceCommand (.window id role x y width height title rows)) fun r =>
      ∃ t, r = some t ∧ t.OnScreen id := by
    unfold surfaceCommand
    dsimp only
    split
    · rename_i index hfind
      refine ensures_bind fun r hr => ensures_bind fun v hv => ensures_ok ⟨_, rfl, OnScreen.repaired ?_⟩
      obtain ⟨hid, -, -, hmin⟩ := clampScroll_content v hv
      have hold : r.1.id = id := mem_findIdx? hfind (remove_of_ok hr).1
      exact ⟨v, List.mem_append_right _ List.mem_cons_self, hmin, hid.trans hold⟩
    · rename_i hfind
      rw [List.findIdx?_eq_none_iff] at hfind
      have hroom : s.windows.length < maxWindows := htakes.resolve_left fun ⟨w, hw, hid⟩ =>
        absurd (hfind w hw) (by rw [hid, decide_eq_true rfl]; exact nofun)
      rw [if_neg (Nat.not_le_of_lt hroom)]
      exact ensures_ok ⟨_, rfl, OnScreen.repaired ⟨_, List.mem_append_right _ List.mem_cons_self, rfl, rfl⟩⟩
  intro r hr
  simp only [command, hp] at hr
  obtain ⟨o, ho, hr⟩ := bind_eq_ok hr
  obtain ⟨t, rfl, ht⟩ := hsurface o ho
  cases hr
  exact ht

theorem openTestWindow_onScreen (h : s.OnScreen id) : Ensures s.openTestWindow fun t => t.OnScreen id := by
  unfold openTestWindow
  split
  · exact ensures_ok h
  · refine ensures_bind fun _ _ => ensures_bind fun _ _ => ensures_bind fun _ _ => ensures_ok (h.subset ?_)
    exact List.subset_append_left _ _

/-! ## Keys and packets -/

theorem keyScancode_onScreen (h : s.OnScreen id) (scan : UInt8) (text : Option UInt8) (reverseFocus extended : Bool) :
    Ensures (s.keyScancode scan text reverseFocus extended) fun r => r.1.OnScreen id :=
  fun r hr => h.shifted (keyScancode_still scan text reverseFocus extended r hr).framed.windows

/-- Enter submits a text field, and Enter and space activate a control; no other key has an action. -/
theorem keyScancode_action (scan : UInt8) (text : Option UInt8) (reverseFocus extended : Bool) :
    Ensures (s.keyScancode scan text reverseFocus extended) fun r =>
      ∀ action, r.2.1 = some action → scan = 0x1c ∨ scan = 0x39 := by
  -- an edited field has an action only for the enter key
  have edit : ∀ (action : Str) (kind : UInt8) (e : EditState),
    Ensures (editKey action kind scan text extended e) fun r =>
      ∀ q, r = some q → ∀ a, q.2 = some a → scan = 0x1c := by
    intro action kind e
    unfold editKey
    refine ensures_bind fun o _ => ?_
    cases o with
    | some e =>
      refine ensures_ok ?_
      rintro q ⟨⟩ a ha
      cases ha
    | none =>
      dsimp only
      split
      · refine ensures_bind fun e' _ => ensures_ok ?_
        rintro q ⟨⟩ a ha
        cases ha
      · split
        · rename_i hscan
          exact ensures_ok fun _ _ _ _ => hscan
        · refine ensures_bind fun o _ => ensures_ok fun q hq a ha => ?_
          obtain ⟨e', -, rfl⟩ := Option.map_eq_some_iff.mp hq
          cases ha
  unfold keyScancode
  split
  · exact ensures_ok fun _ h => (nomatch h)
  · have handled : Ensures (s.handleEditKey scan text extended) fun r => ∀ a, r.2.2 = some a → scan = 0x1c := by
      unfold handleEditKey
      split
      · exact ensures_ok fun _ h => (nomatch h)
      · refine ensures_bind fun e _ => ensures_bind fun o ho => ?_
        cases o with
        | none => exact ensures_ok fun _ h => (nomatch h)
        | some q =>
          refine ensures_bind fun u _ => ensures_ok fun a ha => ?_
          exact edit _ _ _ _ ho q rfl a ha
    -- the key goes to the edited field, then to scrolling, then to the focused control
    refine ensures_bind fun r hr => ?_
    obtain ⟨s₁, edited, action⟩ := r
    cases edited with
    | true => exact ensures_bind fun u _ => ensures_ok fun a ha => Or.inl (handled _ hr a ha)
    | false =>
      refine ensures_bind fun r _ => ?_
      obtain ⟨s₂, scrolled⟩ := r
      cases scrolled with
      | true => exact ensures_bind fun u _ => ensures_ok fun _ h => (nomatch h)
      | false =>
        dsimp only
        unfold plainKey
        split
        · exact ensures_bind fun u _ => ensures_ok fun _ h => (nomatch h)
        · split
          · rename_i hscan
            exact ensures_ok fun _ _ => hscan
          · exact ensures_ok fun _ h => (nomatch h)

theorem titlePress_onScreen (h : s.OnScreen id) (hr : remove s.windows index = .ok (w, rest)) (hu : u.windows = rest)
    {button : TitleButton} (hbutton : w.id = id → button = .maximize) :
    Ensures (u.titlePress w button) fun r => r.1.OnScreen id := by
  have other : button ≠ .maximize → u.OnScreen id := fun hne => by
    obtain ⟨v, hv, hshown, hid⟩ := h
    rcases List.mem_cons.mp ((remove_perm hr).mem_iff.mpr hv) with rfl | hv
    · exact absurd (hbutton hid) hne
    · exact ⟨v, hu ▸ hv, hshown, hid⟩
  have raised : ∀ v, u.OnScreen id → (repairFocusScope { u with windows := u.windows ++ [v] }).OnScreen id :=
    fun v hother =>
    OnScreen.repaired (hother.subset (List.subset_append_left _ _))
  cases button with
  | close =>
    unfold titlePress
    dsimp only
    split
    · exact ensures_ok (other nofun).repaired
    · exact ensures_ok (raised _ (other nofun))
  | minimize => exact ensures_ok (raised _ (other nofun))
  | maximize =>
    refine ensures_bind fun v hv => ensures_ok ?_
    obtain ⟨hid, -, -, hmin⟩ := clampScroll_content v hv
    obtain ⟨-, -, hmin'⟩ := toggleMaximized_content (w := w)
    refine h.raised (v := v) hr
      (fun hshown hid' => ⟨hmin.trans (hmin'.trans hshown), hid.trans (toggleMaximized_id.trans hid')⟩) ?_
    rw [← hu]

theorem pointerDown_onScreen (h : s.OnScreen id)
    (hbutton : ∀ w, s.UnderPointer w → w.id = id → ∀ button, w.titleButton s.cursorX s.cursorY = .ok (some button) →
      button = .maximize) : Ensures s.pointerDown fun r => r.1.OnScreen id := by
  unfold pointerDown
  refine ensures_bind fun top htop => ?_
  cases top with
  | none => exact ensures_ok (h.congr (setFocusScope_windows _))
  | some index =>
    refine ensures_bind fun r hr => ?_
    obtain ⟨w, rest⟩ := r
    have hrest : (setFocusScope { s with windows := rest } w.scopeForWindow).windows = rest := setFocusScope_windows _
    have hcursor := setFocusScope_cursor (s := { s with windows := rest }) w.scopeForWindow
    dsimp only
    refine ensures_bind fun button hpress => ?_
    rw [hcursor.1, hcursor.2] at hpress
    cases button with
    | some button =>
      exact titlePress_onScreen h hr hrest fun hid => hbutton w ⟨index, htop, (remove_of_ok hr).1⟩ hid button hpress
    | none =>
      refine ensures_bind fun _ _ => ensures_bind fun _ _ => ensures_bind fun _ _ => ensures_bind fun t ht => ?_
      refine ensures_bind fun _ _ => ensures_ok ?_
      obtain ⟨hwindows, -⟩ := focusRow_windows _ _ _ t ht
      refine h.raised (v := w) hr (fun hshown hid => ⟨hshown, hid⟩) ?_
      rw [← hrest, ← hwindows]

/-- The packet does not press the close or the minimize button of a surface with this id. -/
def Spares (s : Compositor) (packet : UInt32) (id : Str) : Prop :=
  ∀ s₁ events, s.trackPointer packet = .ok (s₁, false, events) → packet &&& 1 ≠ 0 → s.leftDown = false →
    ∀ w, s₁.UnderPointer w → w.id = id → ∀ button, w.titleButton s₁.cursorX s₁.cursorY = .ok (some button) →
      button = .maximize

theorem pointerPacket_onScreen (h : s.OnScreen id) (hspares : s.Spares packet id) :
    Ensures (s.pointerPacket packet) fun r => r.1.OnScreen id := by
  refine ensures_bind fun r₁ h₁ => ensures_bind fun r₂ h₂ => ensures_bind fun s₃ h₃ => ensures_ok ?_
  obtain ⟨s₁, handled, events⟩ := r₁
  obtain ⟨s₂, action⟩ := r₂
  have htrack := trackPointer_tracked h₁
  have hs₁ : s₁.OnScreen id := h.shifted htrack.framed.windows
  have hs₂ : s₂.OnScreen id := by
    rcases pressOrRelease_cases h₂ with ⟨rfl, hleft, hup, hdown⟩ | ⟨-, -, rfl, -⟩ | ⟨rfl, -⟩
    · have hpressed : OnScreen { s₁ with pressedControl := s₁.hoveredControl } id := hs₁.congr rfl
      refine pointerDown_onScreen hpressed ?_ _ hdown
      refine hspares s₁ events h₁ ?_ (htrack.framed.leftDown.symm.trans hup)
      exact fun hzero => by
        rw [hzero] at hleft
        cases hleft
    · exact hs₁.congr rfl
    · exact hs₁
  exact (hs₂.shifted (dragOrDrop_framed _ _ s₃ h₃).windows).congr rfl

end Compositor

end Pippin.Native
