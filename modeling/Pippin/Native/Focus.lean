import Pippin.Native.HitTest
import Pippin.Native.Table

/-! Native keyboard focus. Scope and control name windows by id and rows by index; whatever
happens to the windows, they name something on the screen that takes the focus. -/

namespace Pippin.Native
open Checked

namespace Compositor

variable {s t : Compositor} {w : Window} {id : Str} {i index : Nat} {shell : List ShellSurface}

structure FocusInv (s : Compositor) : Prop where
  scope : ∀ id, s.focusScope = .Window id → ∃ w ∈ s.windows, w.minimized = false ∧ w.id = id
  control : ∀ id i, s.focusedControl = some (id, i) → ∃ w ∈ s.windows, w.minimized = false ∧ w.id = id ∧
    ∃ r, w.rows[i]? = some r ∧ r.focusable = true ∧ r.disabled = false

def Shows (s t : Compositor) : Prop := ∀ w ∈ s.windows, w.minimized = false →
  ∃ v ∈ t.windows, v.minimized = false ∧ v.id = w.id ∧ v.rows = w.rows

theorem shows_of_subset (h : s.windows ⊆ t.windows) : Shows s t := fun w hw hmin => ⟨w, h hw, hmin, rfl, rfl⟩

theorem shown_spec (h : s.shown id = some w) : w ∈ s.windows ∧ w.minimized = false ∧ w.id = id := by
  have hp := List.find?_some h
  simp only [Bool.and_eq_true, Bool.not_eq_true', beq_iff_eq] at hp
  exact ⟨List.mem_of_find?_eq_some h, hp⟩

theorem FocusInv.of_shows (h : s.FocusInv) (hshow : Shows s t) (hscope : t.focusScope = s.focusScope)
    (hfocus : t.focusedControl = none ∨ t.focusedControl = s.focusedControl) : t.FocusInv := by
  refine ⟨fun id hid => ?_, fun id i hid => ?_⟩
  · obtain ⟨w, hw, hmin, rfl⟩ := h.scope id (hscope ▸ hid)
    obtain ⟨v, hv, hvmin, hvid, -⟩ := hshow w hw hmin
    exact ⟨v, hv, hvmin, hvid⟩
  · rcases hfocus with hnone | hsame
    · cases hnone.symm.trans hid
    · obtain ⟨w, hw, hmin, rfl, hrow⟩ := h.control id i (hsame ▸ hid)
      obtain ⟨v, hv, hvmin, hvid, hrows⟩ := hshow w hw hmin
      exact ⟨v, hv, hvmin, hvid, hrows ▸ hrow⟩

theorem FocusInv.congr (h : s.FocusInv) (hw : t.windows = s.windows) (hscope : t.focusScope = s.focusScope)
    (hfocus : t.focusedControl = s.focusedControl) : t.FocusInv :=
  h.of_shows (shows_of_subset (hw ▸ List.Subset.refl _)) hscope (Or.inr hfocus)

theorem shows_of_shifted (h : Shifted s t) : Shows s t := by
  have key : ∀ ws vs : List Window, List.Forall₂ Window.Shift ws vs → ∀ w ∈ ws, w.minimized = false →
      ∃ v ∈ vs, v.minimized = false ∧ v.id = w.id ∧ v.rows = w.rows := by
    intro ws vs hf
    induction hf with
    | nil => exact fun _ hw => (nomatch hw)
    | cons hv _ ih =>
      intro w hw hmin
      rcases List.mem_cons.mp hw with rfl | hw
      · obtain ⟨x, y, scrollY, rfl, -⟩ := hv
        exact ⟨_, List.mem_cons_self, hmin, rfl, rfl⟩
      · obtain ⟨v, hv, hspec⟩ := ih w hw hmin
        exact ⟨v, List.mem_cons_of_mem _ hv, hspec⟩
  exact key _ _ h.windows

theorem FocusInv.shifted (h : s.FocusInv) (hs : Shifted s t) : t.FocusInv :=
  h.of_shows (shows_of_shifted hs) (by rw [hs.rest]) (Or.inr (by rw [hs.rest]))

/-! ## Changing the scope -/

theorem setFocusScope_scope (scope : FocusScope) : (s.setFocusScope scope).focusScope = scope := by
  unfold setFocusScope
  split
  · rfl
  · rename_i h
    exact not_not.mp h

theorem setFocusScope_control (scope : FocusScope) : (s.setFocusScope scope).focusedControl = none ∨
    (s.setFocusScope scope).focusedControl = s.focusedControl ∧ s.focusScope = scope := by
  unfold setFocusScope
  split
  · exact Or.inl rfl
  · rename_i h
    exact Or.inr ⟨rfl, not_not.mp h⟩

theorem focusInv_checked (hscope : ∀ id, s.focusScope = .Window id → ∃ w ∈ s.windows, w.minimized = false ∧ w.id = id) :
    (if s.focusedControl.any s.keepsFocus then s else { s with focusedControl := none }).FocusInv := by
  split
  · rename_i hkeep
    refine ⟨hscope, fun id i hid => ?_⟩
    rw [hid, Option.any_some] at hkeep
    obtain ⟨w, hw, hk⟩ := (Option.any_eq_true _ _).mp hkeep
    obtain ⟨hin, hmin, rfl⟩ := shown_spec hw
    simp only [Bool.and_eq_true] at hk
    obtain ⟨r, hr, hflags⟩ := (Option.any_eq_true _ _).mp hk.2
    simp only [Bool.and_eq_true, Bool.not_eq_true'] at hflags
    exact ⟨w, hin, hmin, rfl, r, hr, hflags.1.1.1, hflags.1.1.2⟩
  · exact ⟨hscope, fun _ _ h => (nomatch h)⟩

theorem focusInv_repair (s : Compositor) : s.repairFocusScope.FocusInv := by
  unfold repairFocusScope
  dsimp only
  by_cases hvalid : s.scopeValid = true
  · rw [if_pos hvalid]
    refine focusInv_checked fun id hid => ?_
    unfold scopeValid at hvalid
    rw [hid] at hvalid
    obtain ⟨w, hw, hspec⟩ := List.any_eq_true.mp hvalid
    simp only [Bool.and_eq_true, Bool.not_eq_true', beq_iff_eq] at hspec
    exact ⟨w, hw, hspec⟩
  · rw [if_neg hvalid]
    refine focusInv_checked fun id hid => ?_
    rw [setFocusScope_scope] at hid
    rw [setFocusScope_windows]
    cases hfind : s.windows.reverse.find? fun w => !w.minimized && w.role.framed with
    | none =>
      rw [hfind] at hid
      cases hid
    | some w =>
      have hspec := List.find?_some hfind
      simp only [Bool.and_eq_true, Bool.not_eq_true'] at hspec
      rw [hfind] at hid
      have hid : w.scopeForWindow = .Window id := hid
      unfold Window.scopeForWindow at hid
      rw [if_pos hspec.2] at hid
      cases hid
      exact ⟨w, List.mem_reverse.mp (List.mem_of_find?_eq_some hfind), hspec.1, rfl⟩

theorem FocusInv.select (h : s.FocusInv) {u : Compositor} (hshow : Shows s t) (hw : w ∈ t.windows)
    (hmin : w.minimized = false) (hfocus : u.focusedControl = s.focusedControl)
    (ht : t.focusScope = (u.setFocusScope w.scopeForWindow).focusScope)
    (hcontrol : t.focusedControl = (u.setFocusScope w.scopeForWindow).focusedControl) : t.FocusInv := by
  rw [setFocusScope_scope] at ht
  refine ⟨fun id hid => ?_, fun id i hid => ?_⟩
  · rw [ht] at hid
    unfold Window.scopeForWindow at hid
    split at hid
    · cases hid
      exact ⟨w, hw, hmin, rfl⟩
    · cases hid
  · rw [hcontrol] at hid
    rcases setFocusScope_control (s := u) w.scopeForWindow with hnone | ⟨hsame, -⟩
    · cases hnone.symm.trans hid
    · have hold : s.focusedControl = some (id, i) := hfocus.symm.trans (hsame.symm.trans hid)
      obtain ⟨v, hv, hvmin, rfl, hrow⟩ := h.control id i hold
      obtain ⟨v', hv', hmin', hid', hrows⟩ := hshow v hv hvmin
      exact ⟨v', hv', hmin', hid', hrows ▸ hrow⟩

/-! ## Commands -/

theorem shows_raised {rest : List Window} {v : Window} (hr : remove s.windows index = .ok (w, rest))
    (hmin : v.minimized = false) (hid : v.id = w.id) (hrows : v.rows = w.rows) (ht : t.windows = rest ++ [v]) :
    Shows s t := by
  intro u hu humin
  rw [ht]
  rcases List.mem_cons.mp ((remove_perm hr).mem_iff.mpr hu) with rfl | hu
  · exact ⟨v, List.mem_append_right _ List.mem_cons_self, hmin, hid, hrows⟩
  · exact ⟨u, List.mem_append_left _ hu, humin, rfl, rfl⟩

theorem restoreCommand_focus (h : s.FocusInv) (id : Str) : Ensures (s.restoreCommand id) FocusInv := by
  unfold restoreCommand
  split
  · exact ensures_ok h
  · refine ensures_bind fun r hr => ensures_ok ?_
    obtain ⟨w, rest⟩ := r
    let v : Window := { w with minimized := false }
    let u : Compositor := { s with windows := rest ++ [v] }
    have hwindows : (u.setFocusScope v.scopeForWindow).windows = rest ++ [v] := setFocusScope_windows _
    have hv : v ∈ (u.setFocusScope v.scopeForWindow).windows := by
      rw [hwindows]
      exact List.mem_append_right _ List.mem_cons_self
    exact h.select (u := u) (shows_raised (v := v) hr rfl rfl rfl hwindows) hv rfl rfl rfl rfl

theorem minimizeCommand_focus (h : s.FocusInv) (id : Str) : Ensures (s.minimizeCommand id) FocusInv := by
  unfold minimizeCommand
  split
  · exact ensures_ok h
  · exact ensures_bind fun _ _ => ensures_ok (focusInv_repair _)

theorem surfaceCommand_focus (h : s.FocusInv) (surface : Surface) :
    Ensures (s.surfaceCommand surface) fun r => ∀ t, r = some t → t.FocusInv := by
  cases surface with
  | wallpaper color =>
    refine ensures_ok fun t ht => ?_
    cases ht
    exact h.congr rfl rfl rfl
  | window id role x y width height title rows =>
    unfold surfaceCommand
    dsimp only
    split
    · refine ensures_bind fun _ _ => ensures_bind fun _ _ => ensures_ok ?_
      rintro t ⟨⟩
      exact focusInv_repair _
    · split
      · exact ensures_ok (by rintro t ⟨⟩)
      · refine ensures_ok ?_
        rintro t ⟨⟩
        exact focusInv_repair _

theorem command_focus (h : s.FocusInv) (line : Str) : Ensures (s.command line) fun r => r.1.FocusInv := by
  unfold command
  split
  · exact ensures_bind fun t ht => ensures_ok (restoreCommand_focus h _ t ht)
  · exact ensures_bind fun t ht => ensures_ok (minimizeCommand_focus h _ t ht)
  · exact ensures_ok (focusInv_repair _)
  · split
    · exact ensures_ok h
    · refine ensures_bind fun r hr => ?_
      cases r with
      | none => exact ensures_ok h
      | some t => exact ensures_ok (surfaceCommand_focus h _ _ hr t rfl)
  · exact ensures_ok h

/-! ## Keys -/

theorem FocusInv.edited (h : s.FocusInv) (he : EditsOnly s t) : t.FocusInv := by
  obtain ⟨edits, rfl⟩ := he
  exact h.congr rfl rfl rfl

theorem rehover_focus (h : s.FocusInv) : Ensures s.rehover FocusInv :=
  ensures_bind fun _ _ => ensures_ok (h.congr rfl rfl rfl)

def tabStop (s : Compositor) (w : Window) (r : Row) : Bool :=
  r.laidOut && r.focusable && !r.disabled && !r.action.isEmpty && s.rowMatchesSearch w r

theorem mem_tabControls_iff {c : Control} : c ∈ s.tabControls ↔ ∃ w ∈ s.windows, w.minimized = false ∧
    s.focusScopeAccepts w = true ∧ w.id = c.1 ∧ ∃ r, w.rows[c.2]? = some r ∧ s.tabStop w r = true := by
  unfold tabControls
  refine List.mem_flatMap.trans (exists_congr fun w => and_congr_right fun _ => ?_)
  split
  · rename_i hskip
    simp only [Bool.or_eq_true, Bool.not_eq_true'] at hskip
    refine iff_of_false List.not_mem_nil fun h => ?_
    rcases hskip with hmin | hout
    · exact nomatch hmin.symm.trans h.1
    · exact nomatch hout.symm.trans h.2.1
  · rename_i hskip
    simp only [Bool.or_eq_true, Bool.not_eq_true', not_or, Bool.not_eq_true, Bool.not_eq_false] at hskip
    refine List.mem_map.trans ⟨fun h => ?_, fun h => ?_⟩
    · obtain ⟨⟨r, k⟩, hr, rfl⟩ := h
      obtain ⟨hin, hstop⟩ := List.mem_filter.mp hr
      obtain ⟨j, hj⟩ := List.mem_iff_getElem?.mp hin
      obtain ⟨rfl, hrow⟩ := getElem?_zipIdx hj
      exact ⟨hskip.1, hskip.2, rfl, r, hrow, hstop⟩
    · obtain ⟨-, -, hid, r, hr, hstop⟩ := h
      exact ⟨(r, c.2), List.mem_filter.mpr ⟨List.mem_of_getElem? (zipIdx_getElem? hr), hstop⟩, Prod.ext hid rfl⟩

theorem mem_tabControls {c : Control} (h : c ∈ s.tabControls) : ∃ w ∈ s.windows, w.minimized = false ∧ w.id = c.1 ∧
    ∃ r, w.rows[c.2]? = some r ∧ r.focusable = true ∧ r.disabled = false := by
  obtain ⟨w, hw, hmin, -, hid, r, hr, hstop⟩ := mem_tabControls_iff.mp h
  unfold tabStop at hstop
  simp only [Bool.and_eq_true, Bool.not_eq_true'] at hstop
  exact ⟨w, hw, hmin, hid, r, hr, hstop.1.1.1.2, hstop.1.1.2⟩

theorem focusNext_focus (reverse : Bool) : Ensures (s.focusNext reverse) FocusInv := by
  have hrep := focusInv_repair s
  unfold focusNext
  dsimp only
  split_ifs
  · exact ensures_ok ⟨hrep.scope, fun _ _ h => (nomatch h)⟩
  all_goals
    refine ensures_bind fun c hc => ensures_ok ⟨hrep.scope, fun id i hid => ?_⟩
    cases hid
    exact mem_tabControls (List.mem_of_getElem? (get_of_ok hc))

theorem plainKey_focus (h : s.FocusInv) (scan : UInt8) (text : Option UInt8) (reverseFocus : Bool) :
    Ensures (s.plainKey scan text reverseFocus) fun r => r.1.FocusInv := by
  unfold plainKey
  split
  · refine ensures_bind fun t ht => ensures_ok ?_
    obtain ⟨s₁, h₁, ht⟩ := bind_eq_ok ht
    obtain ⟨s₂, h₂, ht⟩ := bind_eq_ok ht
    have hfocus : s₂.FocusInv := (focusNext_focus _ s₁ h₁).shifted (ensureFocusedVisible_scrolled s₂ h₂).shifted
    exact rehover_focus hfocus t ht
  · split
    · refine ensures_ok ?_
      unfold activateKey
      split <;> exact focusInv_repair s
    · exact ensures_ok h

theorem keyScancode_focus (h : s.FocusInv) (scan : UInt8) (text : Option UInt8) (reverseFocus extended : Bool) :
    Ensures (s.keyScancode scan text reverseFocus extended) fun r => r.1.FocusInv := by
  unfold keyScancode
  split
  · exact ensures_ok h
  · refine ensures_bind fun r hr => ?_
    obtain ⟨s₁, edited, action⟩ := r
    have h₁ : s₁.FocusInv := h.edited (handleEditKey_edits _ _ _ _ hr)
    cases edited with
    | true => exact ensures_bind fun t ht => ensures_ok (rehover_focus (focusInv_repair s₁) t ht)
    | false =>
      refine ensures_bind fun r hr => ?_
      obtain ⟨s₂, handled⟩ := r
      have h₂ : s₂.FocusInv := by
        cases extended with
        | true => exact h₁.shifted (navigate_scrolled scan _ hr).shifted
        | false =>
          cases hr
          exact h₁
      cases handled with
      | true => exact ensures_bind fun t ht => ensures_ok (rehover_focus h₂ t ht)
      | false => exact plainKey_focus h₂ _ _ _

/-! ## Packets -/

theorem under_shown {x y : Int} (h : w.under x y = .ok true) : w.minimized = false := by
  unfold Window.under at h
  cases hm : w.minimized with
  | false => rfl
  | true =>
    rw [hm] at h
    cases h

theorem topAt_shown {x y : Int} (h : s.topAt x y = .ok (some index)) (hw : s.windows[index]? = some w) :
    w.minimized = false := by
  obtain ⟨⟨v, hv, hu⟩, -⟩ := rposition_some h
  rw [hw] at hv
  cases hv
  exact under_shown hu

theorem toggleMaximized_content : w.toggleMaximized.rows = w.rows ∧ w.toggleMaximized.role = w.role ∧
    w.toggleMaximized.minimized = w.minimized := by
  unfold Window.toggleMaximized
  split
  · split <;> exact ⟨rfl, rfl, rfl⟩
  · exact ⟨rfl, rfl, rfl⟩

theorem clampScroll_content : Ensures w.clampScroll fun v =>
    v.id = w.id ∧ v.rows = w.rows ∧ v.role = w.role ∧ v.minimized = w.minimized :=
  ensures_bind fun _ _ => ensures_ok ⟨rfl, rfl, rfl, rfl⟩

theorem focusRow_scope (localX : Int) (row : Option Nat) (inRows : Bool) :
    Ensures (s.focusRow w localX row inRows) fun t => t.focusScope = s.focusScope := by
  intro t ht
  obtain ⟨_, _, rfl⟩ := focusRow_parts _ _ _ t ht
  rfl

theorem setFocusScope_desktop_focus (h : s.FocusInv) : (s.setFocusScope .Desktop).FocusInv := by
  refine ⟨fun id hid => ?_, fun id i hid => ?_⟩
  · rw [setFocusScope_scope] at hid
    cases hid
  · rw [setFocusScope_windows]
    rcases setFocusScope_focused (s := s) .Desktop with hnone | hsame
    · cases hnone.symm.trans hid
    · exact h.control id i (hsame.symm.trans hid)

theorem FocusInv.press (h : s.FocusInv) {rest : List Window} {v : Window}
    (hr : remove s.windows index = .ok (w, rest)) (hmin : w.minimized = false) (hid : v.id = w.id)
    (hrows : v.rows = w.rows) (hrole : v.role = w.role) (hvmin : v.minimized = w.minimized)
    (ht : t.windows = rest ++ [v])
    (hscope : t.focusScope = (setFocusScope { s with windows := rest } w.scopeForWindow).focusScope)
    (hcontrol : t.focusedControl = (setFocusScope { s with windows := rest } w.scopeForWindow).focusedControl) :
    t.FocusInv := by
  have hv : v.scopeForWindow = w.scopeForWindow := by
    unfold Window.scopeForWindow
    rw [hrole, hid]
  have hin : v ∈ t.windows := by
    rw [ht]
    exact List.mem_append_right _ List.mem_cons_self
  exact h.select (u := { s with windows := rest }) (shows_raised hr (hvmin.trans hmin) hid hrows ht) hin
    (hvmin.trans hmin) rfl (hv ▸ hscope) (hv ▸ hcontrol)

theorem pointerDown_focus (h : s.FocusInv) : Ensures s.pointerDown fun r => r.1.FocusInv := by
  unfold pointerDown
  refine ensures_bind fun top htop => ?_
  cases top with
  | none => exact ensures_ok (setFocusScope_desktop_focus h)
  | some index =>
    refine ensures_bind fun r hr => ?_
    obtain ⟨w, rest⟩ := r
    have hmin : w.minimized = false := topAt_shown htop (remove_of_ok hr).1
    have hrest : (setFocusScope { s with windows := rest } w.scopeForWindow).windows = rest := setFocusScope_windows _
    dsimp only
    generalize hs' : setFocusScope { s with windows := rest } w.scopeForWindow = s' at hrest ⊢
    refine ensures_bind fun button _ => ?_
    cases button with
    | some button =>
      cases button with
      | close =>
        unfold titlePress
        dsimp only
        split <;> exact ensures_ok (focusInv_repair _)
      | minimize => exact ensures_ok (focusInv_repair _)
      -- maximizing moves the frame only, so the press is like any other to the focus
      | maximize =>
        refine ensures_bind fun v hv => ensures_ok ?_
        obtain ⟨hid, hrows, hrole, hvmin⟩ := clampScroll_content v hv
        obtain ⟨hrows', hrole', hmin'⟩ := toggleMaximized_content (w := w)
        refine h.press hr hmin (hid.trans toggleMaximized_id) (hrows.trans hrows') (hrole.trans hrole')
          (hvmin.trans hmin') (congrArg (· ++ [v]) hrest) ?_ ?_ <;> rw [hs']
    | none =>
      refine ensures_bind fun localX _ => ensures_bind fun localY _ => ensures_bind fun row _ => ?_
      refine ensures_bind fun t ht => ensures_bind fun drag _ => ensures_ok ?_
      obtain ⟨hwindows, -⟩ := focusRow_windows _ _ _ t ht
      have hscope := focusRow_scope _ _ _ t ht
      -- the window back on top, before the press moves the focus
      have hpress : FocusInv { s' with windows := rest ++ [w] } :=
        h.press hr hmin rfl rfl rfl rfl rfl (by rw [hs']) (by rw [hs'])
      have htop : t.windows ++ [w] = rest ++ [w] := by rw [hwindows, hrest]
      refine ⟨fun id hid => ?_, fun id i hid => ?_⟩
      · obtain ⟨v, hv, hspec⟩ := hpress.scope id (hscope.symm.trans hid)
        exact ⟨v, htop ▸ hv, hspec⟩
      · rcases focusRow_focused ht with ⟨hnone, -⟩ | ⟨hsame, -⟩ | ⟨k, r, -, -, hr, hd, hf, hset⟩
        · cases hnone.symm.trans hid
        · obtain ⟨v, hv, hspec⟩ := hpress.control id i (hsame.symm.trans hid)
          exact ⟨v, htop ▸ hv, hspec⟩
        · cases hset.symm.trans hid
          exact ⟨w, List.mem_append_right _ List.mem_cons_self, hmin, rfl, r, hr, hf, hd⟩

theorem pointerPacket_focus (h : s.FocusInv) (packet : UInt32) :
    Ensures (s.pointerPacket packet) fun r => r.1.FocusInv := by
  refine ensures_bind fun r₁ h₁ => ensures_bind fun r₂ h₂ => ensures_bind fun s₃ h₃ => ensures_ok ?_
  obtain ⟨s₁, handled, events⟩ := r₁
  obtain ⟨s₂, action⟩ := r₂
  have track : s₁.FocusInv := by
    obtain ⟨x, -, h₁⟩ := bind_eq_ok h₁
    obtain ⟨y, -, h₁⟩ := bind_eq_ok h₁
    obtain ⟨⟨handled', clients, events'⟩, -, h₁⟩ := bind_eq_ok h₁
    obtain ⟨u, hu, h₁⟩ := bind_eq_ok h₁
    obtain ⟨v, hv, h₁⟩ := bind_eq_ok h₁
    cases h₁
    have hwheel : u.FocusInv := by
      refine FocusInv.shifted ?_ (wheelScroll_scrolled _ _ u hu).shifted
      exact h.congr rfl rfl rfl
    unfold hover at hv
    split at hv
    · cases hv
      exact hwheel.congr rfl rfl rfl
    · exact rehover_focus hwheel _ hv
  have hsame : ∀ pressedControl, FocusInv { s₁ with pressedControl } := fun _ => track.congr rfl rfl rfl
  have press : s₂.FocusInv :=
    pressOrRelease_rule (P := FocusInv) (fun _ => pointerDown_focus (hsame _)) hsame _ h₂
  have drop : s₃.FocusInv := by
    unfold dragOrDrop at h₃
    split at h₃
    · exact press.shifted (dragWindow_shifted _ h₃)
    · cases h₃
      exact press.congr rfl rfl rfl
  exact drop.congr rfl rfl rfl

theorem openTestWindow_focus (h : s.FocusInv) : Ensures s.openTestWindow FocusInv := by
  unfold openTestWindow
  split
  · exact ensures_ok h
  · refine ensures_bind fun _ _ => ensures_bind fun _ _ => ensures_bind fun _ _ => ensures_ok ?_
    exact h.of_shows (shows_of_subset (List.subset_append_left _ _)) rfl (Or.inr rfl)

theorem Reachable.focus (h : Reachable shell s) : s.FocusInv := by
  induction h with
  | new => exact ⟨fun _ h => (nomatch h), fun _ _ h => (nomatch h)⟩
  | command line _ h ih => exact command_focus ih line _ h
  | clientCommand line _ h ih =>
    rcases clientCommand_cases h with ⟨-, rfl, -⟩ | ⟨-, -, ht, -⟩
    · exact ih
    · rw [ht]
      exact ih.congr rfl rfl rfl
  | key scan text reverseFocus extended _ h ih => exact keyScancode_focus ih _ _ _ _ _ h
  | pointer packet _ h ih => exact pointerPacket_focus ih packet _ h
  | testWindow _ h ih => exact openTestWindow_focus ih _ h

/-! ## Activation -/

/-- A row of a window on the screen that takes the focus, inside the focus scope and shown by
the search, and carries the action. -/
structure Activates (s : Compositor) (w : Window) (i : Nat) (action : Str) : Prop where
  window : w ∈ s.windows ∧ w.minimized = false
  focused : s.focusedControl = some (w.id, i)
  scope : s.focusScopeAccepts w = true
  row : ∃ r, w.rows[i]? = some r ∧ r.focusable = true ∧ r.disabled = false ∧ r.action = action ∧
    s.rowMatchesSearch w r = true

theorem focusedAction_spec {action : Str} (h : s.focusedAction = some action) : ∃ w i, s.Activates w i action := by
  obtain ⟨⟨id, i⟩, hc, h₁⟩ := Option.bind_eq_some_iff.mp h
  obtain ⟨w, hw, h₂⟩ := Option.bind_eq_some_iff.mp h₁
  obtain ⟨hin, hmin, rfl⟩ := shown_spec hw
  dsimp only at h₂
  split at h₂
  · cases h₂
  · rename_i hscope
    simp only [Bool.not_eq_true', Bool.not_eq_false] at hscope
    obtain ⟨r, hr, h₃⟩ := Option.bind_eq_some_iff.mp h₂
    split at h₃
    · cases h₃
    · rename_i hflags
      simp only [Bool.or_eq_true, Bool.not_eq_true', not_or, Bool.not_eq_true, Bool.not_eq_false] at hflags
      cases h₃
      exact ⟨w, i, ⟨hin, hmin⟩, hc, hscope, r, hr, hflags.1.1.2, hflags.1.1.1, rfl, hflags.2⟩

theorem activation {scan : UInt8} {text : Option UInt8} {reverseFocus extended : Bool} {action : Str}
    {events : List Client.Event} (hscan : scan = 0x1c ∨ scan = 0x39) (hfield : s.editableFocus = none)
    (h : s.keyScancode scan text reverseFocus extended = .ok (t, some action, events)) :
    ∃ w i, t.Activates w i action := by
  have hnav : (if extended = true then s.navigate scan else .ok (s, false)) = .ok (s, false) := by
    cases extended <;> rcases hscan with rfl | rfl <;> rfl
  have hplain : s.plainKey scan text reverseFocus = .ok (s.activateKey scan text) := by
    rcases hscan with rfl | rfl <;> rfl
  unfold keyScancode at h
  split at h
  · cases h
  · unfold handleEditKey at h
    rw [hfield] at h
    dsimp only [ok_bind] at h
    rw [hnav, ok_bind] at h
    dsimp only at h
    rw [hplain] at h
    unfold activateKey at h
    cases hact : s.repairFocusScope.focusedAction with
    | none =>
      rw [hact] at h
      cases h
    | some a =>
      rw [hact] at h
      cases h
      exact focusedAction_spec hact

def onFiles : Compositor :=
  { opened with focusedControl := some ("launcher".toList, 2), edits := [⟨"launcher".toList, 1, [], 0⟩] }

theorem tab_onFiles : ({ opened with focusedControl := some ("launcher".toList, 1) } : Compositor).keyScancode
    0x0f none false false = .ok (onFiles, none, []) := by decide +kernel

theorem reachable_onFiles : Reachable [launcher] onFiles :=
  .key _ _ _ _ (.key _ _ _ _ reachable_opened tab_opened) tab_onFiles

/-- Native focus: in every run the scope and the focused control name a window on the screen
and a row of it that takes the focus, and what Enter or space activate is such a row in the
scope that the search shows. -/
theorem native_focus (h : Reachable shell s) :
    (∀ id, s.focusScope = .Window id → ∃ w ∈ s.windows, w.minimized = false ∧ w.id = id) ∧
    (∀ id i, s.focusedControl = some (id, i) → ∃ w ∈ s.windows, w.minimized = false ∧ w.id = id ∧
      ∃ r, w.rows[i]? = some r ∧ r.focusable = true ∧ r.disabled = false) ∧
    ∀ scan text reverseFocus extended t action events, scan = 0x1c ∨ scan = 0x39 → s.editableFocus = none →
      s.keyScancode scan text reverseFocus extended = .ok (t, some action, events) →
      ∃ w i, t.Activates w i action :=
  ⟨h.focus.scope, h.focus.control, fun _ _ _ _ _ _ _ => activation⟩

theorem native_focus_files : onFiles.keyScancode 0x1c none false false = .ok (onFiles, some "files.open".toList, []) ∧
    ∃ w i, onFiles.Activates w i "files.open".toList := by
  have hkey : onFiles.keyScancode 0x1c none false false = .ok (onFiles, some "files.open".toList, []) := by
    decide +kernel
  exact ⟨hkey, (native_focus reachable_onFiles).2.2 _ _ _ _ _ _ _ (Or.inl rfl) (by decide +kernel) hkey⟩

end Compositor

end Pippin.Native
