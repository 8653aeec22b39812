import Pippin.Native.TextRuns

/-! Where the texts are in a run. A text belongs to a row of a surface of the shell model that is
still there, so that a row with a text takes the focus and is laid out, and a press in it is a
press on what is painted. -/

namespace Pippin.Native
open Checked

structure Window.Same (w v : Window) : Prop where
  id : v.id = w.id
  rows : v.rows = w.rows
  native : v.native = w.native

variable {s t u : Compositor} {w v : Window} {r : Row} {c : Control} {i index : Nat} {shell : List ShellSurface}
  {rest : List Window} {packet : UInt32} {action : Option Str} {events : List Client.Event} {input : Input} {e : Edit}

theorem Window.Same.refl (w : Window) : w.Same w := ⟨rfl, rfl, rfl⟩

theorem Window.Same.symm (h : w.Same v) : v.Same w := ⟨h.id.symm, h.rows.symm, h.native.symm⟩

theorem Window.Shift.same (h : w.Shift v) : w.Same v := by
  obtain ⟨x, y, scrollY, rfl, -⟩ := h
  exact ⟨rfl, rfl, rfl⟩

namespace Compositor

/-- The text field of a surface that is not a test window. -/
def HasField (s : Compositor) (c : Control) : Prop := ∃ w ∈ s.windows, w.native = false ∧ w.id = c.1 ∧
  ∃ r, w.rows[c.2]? = some r ∧ r.editable = true ∧ r.focusable = true

theorem HasField.of (h : s.HasField c)
    (hs : ∀ w ∈ s.windows, w.native = false → w.id = c.1 → ∃ v ∈ t.windows, w.Same v) : t.HasField c := by
  obtain ⟨w, hw, hnative, hid, hrow⟩ := h
  obtain ⟨v, hv, hsame⟩ := hs w hw hnative hid
  exact ⟨v, hv, hsame.native.trans hnative, hsame.id.trans hid, hsame.rows ▸ hrow⟩

theorem HasField.subset (h : s.HasField c) (hs : s.windows ⊆ t.windows) : t.HasField c :=
  h.of fun w hw _ _ => ⟨w, hs hw, .refl w⟩

theorem HasField.congr (h : s.HasField c) (hs : t.windows = s.windows) : t.HasField c :=
  h.subset (hs ▸ List.Subset.refl _)

theorem exists_related {R : Window → Window → Prop} {ws vs : List Window} (h : List.Forall₂ R ws vs) (hw : w ∈ ws) :
    ∃ v ∈ vs, R w v := by
  induction h with
  | nil => cases hw
  | cons hv _ ih =>
    rcases List.mem_cons.mp hw with rfl | hw
    · exact ⟨_, List.mem_cons_self, hv⟩
    · obtain ⟨v, hv, hR⟩ := ih hw
      exact ⟨v, List.mem_cons_of_mem _ hv, hR⟩

theorem HasField.shifted (h : s.HasField c) (hs : List.Forall₂ Window.Shift s.windows t.windows) : t.HasField c := by
  refine h.of fun w hw _ _ => ?_
  obtain ⟨v, hv, hshift⟩ := exists_related hs hw
  exact ⟨v, hv, hshift.same⟩

theorem HasField.unshifted (h : t.HasField c) (hs : List.Forall₂ Window.Shift s.windows t.windows) : s.HasField c := by
  refine h.of fun v hv _ _ => ?_
  obtain ⟨w, hw, hshift⟩ := exists_related hs.flip hv
  exact ⟨w, hw, (Window.Shift.same hshift).symm⟩

theorem HasField.raised (h : s.HasField c) (hr : remove s.windows index = .ok (w, rest)) (hv : w.Same v)
    (ht : t.windows = rest ++ [v]) : t.HasField c := by
  refine h.of fun u hu _ _ => ?_
  rw [ht]
  rcases List.mem_cons.mp ((remove_perm hr).mem_iff.mpr hu) with rfl | hu
  · exact ⟨v, List.mem_append_right _ List.mem_cons_self, hv⟩
  · exact ⟨u, List.mem_append_left _ hu, .refl u⟩

/-! ## Packets -/

theorem toggleMaximized_same : Ensures w.toggleMaximized.clampScroll w.Same := by
  intro v hv
  obtain ⟨hid, hrows, -⟩ := clampScroll_content v hv
  exact ⟨hid.trans toggleMaximized_id, hrows.trans toggleMaximized_content.1,
    (clampScroll_native v hv).trans toggleMaximized_native⟩

theorem titlePress_hasField (h : s.HasField c) (hr : remove s.windows index = .ok (w, rest)) (hu : u.windows = rest)
    (button : TitleButton) : Ensures (u.titlePress w button) fun r => r.1.HasField c := by
  have raised : ∀ minimized,
    (repairFocusScope { u with windows := u.windows ++ [{ w with minimized }] }).HasField c := by
    intro minimized
    refine h.raised hr (v := { w with minimized }) ⟨rfl, rfl, rfl⟩ ?_
    rw [repairFocusScope_windows, hu]
  cases button with
  | close =>
    unfold titlePress
    dsimp only
    split
    · rename_i hclosed
      refine ensures_ok (h.of fun v hv hnative _ => ?_)
      rw [repairFocusScope_windows, hu]
      rcases List.mem_cons.mp ((remove_perm hr).mem_iff.mpr hv) with rfl | hv
      · -- the closed window is a test window, which has no fields
        cases hclosed.symm.trans hnative
      · exact ⟨v, hv, .refl v⟩
    · exact ensures_ok (raised true)
  | minimize => exact ensures_ok (raised true)
  | maximize =>
    refine ensures_bind fun v hv => ensures_ok (h.raised hr (toggleMaximized_same v hv) ?_)
    rw [← hu]

theorem pointerDown_hasField (h : s.HasField c) : Ensures s.pointerDown fun r => r.1.HasField c := by
  unfold pointerDown
  refine ensures_bind fun top _ => ?_
  cases top with
  | none => exact ensures_ok (h.congr (setFocusScope_windows _))
  | some index =>
    refine ensures_bind fun r hr => ?_
    obtain ⟨w, rest⟩ := r
    have hrest : (setFocusScope { s with windows := rest } w.scopeForWindow).windows = rest := setFocusScope_windows _
    dsimp only
    refine ensures_bind fun button _ => ?_
    cases button with
    | some button => exact titlePress_hasField h hr hrest button
    | none =>
      refine ensures_bind fun _ _ => ensures_bind fun _ _ => ensures_bind fun _ _ => ensures_bind fun t ht => ?_
      refine ensures_bind fun _ _ => ensures_ok ?_
      obtain ⟨hwindows, -⟩ := focusRow_windows _ _ _ t ht
      refine h.raised hr (.refl w) ?_
      rw [← hrest, ← hwindows]

theorem pointerPacket_hasField (h : s.HasField c) (hpacket : s.pointerPacket packet = .ok (t, action, events)) :
    t.HasField c := by
  obtain ⟨⟨s₁, handled, _⟩, h₁, hpacket⟩ := bind_eq_ok hpacket
  obtain ⟨r₂, h₂, hpacket⟩ := bind_eq_ok hpacket
  obtain ⟨s₃, h₃, hpacket⟩ := bind_eq_ok hpacket
  cases hpacket
  have hf₁ : s₁.HasField c := h.shifted (trackPointer_tracked h₁).framed.windows
  have hsame : ∀ pressedControl, HasField { s₁ with pressedControl } c := fun _ => hf₁.congr rfl
  have hf₂ : r₂.1.HasField c :=
    pressOrRelease_rule (P := fun t => t.HasField c) (fun _ => pointerDown_hasField (hsame _)) hsame r₂ h₂
  exact (hf₂.shifted (dragOrDrop_framed _ _ s₃ h₃).windows).congr rfl

theorem packetEdit_field {op : Buffer → Buffer} (hs : ∀ w ∈ s.windows, w.OfShell shell)
    (h : s.packetEdit packet = .ok (.field c op)) : s.HasField c := by
  obtain ⟨⟨s₁, handled, _⟩, h₁, h⟩ := bind_eq_ok h
  have hwindows := (trackPointer_tracked h₁).framed.windows
  have hshell : ∀ w ∈ s₁.windows, w.OfShell shell := ofShell_rule.shifted hs hwindows
  dsimp only at h
  split at h
  · obtain ⟨top, htop, h⟩ := bind_eq_ok h
    cases top with
    | none => cases h
    | some index =>
      obtain ⟨⟨w, rest⟩, hremove, h⟩ := bind_eq_ok h
      obtain ⟨button, -, h⟩ := bind_eq_ok h
      -- a press outside the title buttons may put the caret into a field
      cases button with
      | some button => cases h
      | none =>
        obtain ⟨localX, -, h⟩ := bind_eq_ok h
        obtain ⟨_, -, h⟩ := bind_eq_ok h
        obtain ⟨⟨row, inRows⟩, -, h⟩ := bind_eq_ok h
        have hedit : focusEdit w localX row inRows = .field c op := Except.ok.inj h
        unfold focusEdit at hedit
        split at hedit
        · rename_i r i hhit
          split at hedit
          · rename_i hflags
            cases hedit
            rw [Bool.and_eq_true] at hflags
            have hin : w ∈ s₁.windows := List.mem_of_getElem? (remove_of_ok hremove).1
            split at hhit
            · obtain ⟨k, -, hhit⟩ := Option.bind_eq_some_iff.mp hhit
              obtain ⟨r', hr, heq⟩ := Option.map_eq_some_iff.mp hhit
              cases heq
              have hnative := (hshell w hin r (List.mem_of_getElem? hr) hflags.1).1
              have hfield : s₁.HasField (w.id, i) := ⟨w, hin, hnative, rfl, r, hr, hflags.2, hflags.1⟩
              exact hfield.unshifted hwindows
            · cases hhit
          · cases hedit
        · cases hedit
  · cases h

/-! ## Commands and keys -/

theorem surfaceCommand_hasField (h : s.HasField c) {id title : Str} {role : Role} {x y width height : Int}
    {rows : List Row} (hkept : c.1 ∈ s.ids → c.1 ≠ id) :
    Ensures (s.surfaceCommand (.window id role x y width height title rows)) fun r => (r.getD s).HasField c := by
  have hne : c.1 ≠ id := by
    obtain ⟨w, hw, -, hid, -⟩ := h
    exact hkept (hid ▸ List.mem_map_of_mem hw)
  unfold surfaceCommand
  dsimp only
  split
  · rename_i index hfind
    refine ensures_bind fun r hr => ensures_bind fun v hv => ensures_ok (h.of fun u hu _ hid => ?_)
    have hspec : ∃ w, s.windows[index]? = some w ∧ w.id = id := Keyed.findIdx?_spec hfind
    obtain ⟨w, hw, hwid⟩ := hspec
    rw [Option.getD_some, repairFocusScope_windows]
    rcases List.mem_cons.mp ((remove_perm hr).mem_iff.mpr hu) with rfl | hu
    · -- the window that is replaced has another id
      cases hw.symm.trans (remove_of_ok hr).1
      exact absurd (hid.symm.trans hwid) hne
    · exact ⟨u, List.mem_append_left _ hu, .refl u⟩
  · split
    · exact ensures_ok h
    · refine ensures_ok (h.subset ?_)
      rw [Option.getD_some, repairFocusScope_windows]
      exact List.subset_append_left _ _

theorem command_hasField (h : s.HasField c) {line : Str} (hkept : s.commandEdit line ≠ .drop c.1) :
    Ensures (s.command line) fun r => r.1.HasField c := by
  unfold command
  split
  · refine ensures_bind fun t ht => ensures_ok ?_
    unfold restoreCommand at ht
    split at ht
    · cases ht
      exact h
    · obtain ⟨r, hr, ht⟩ := bind_eq_ok ht
      cases ht
      exact h.raised hr (v := { r.1 with minimized := false }) ⟨rfl, rfl, rfl⟩ (setFocusScope_windows _)
  · refine ensures_bind fun t ht => ensures_ok ?_
    unfold minimizeCommand at ht
    split at ht
    · cases ht
      exact h
    · rename_i index _
      obtain ⟨ws, hws, ht⟩ := bind_eq_ok ht
      cases ht
      refine h.of fun w hw _ _ => ?_
      rw [repairFocusScope_windows, modify_of_ok hws]
      obtain ⟨i, hi⟩ := List.mem_iff_getElem?.mp hw
      refine ⟨if index = i then { w with minimized := true } else w, List.mem_iff_getElem?.mpr ⟨i, ?_⟩, ?_⟩
      · rw [List.getElem?_modify, hi]
        rfl
      · split
        · exact ⟨rfl, rfl, rfl⟩
        · exact .refl w
  -- closing the field's own window is the drop that is excluded
  · rename_i id
    have hne : c.1 ≠ id := fun he => hkept (congrArg Edit.drop he.symm)
    refine ensures_ok (h.of fun w hw _ hid => ⟨w, ?_, .refl w⟩)
    have hwindows : (s.closeCommand id).windows = s.windows.filter fun w => w.id ≠ id := repairFocusScope_windows
    rw [hwindows]
    exact List.mem_filter.mpr ⟨hw, decide_eq_true (hid.trans_ne hne)⟩
  · rename_i payload
    have hedit : s.commandEdit ('S' :: '|' :: payload) = s.surfaceEdit (parseSurface payload) := rfl
    rw [hedit] at hkept
    cases hparse : parseSurface payload with
    | none => exact ensures_ok h
    | some surface =>
      rw [hparse] at hkept
      refine ensures_bind fun r hr => ?_
      cases surface with
      | wallpaper color =>
        cases hr
        exact ensures_ok (h.congr rfl)
      | window id role x y width height title rows =>
        -- so is a surface that replaces it
        have hne : c.1 ∈ s.ids → c.1 ≠ id := by
          rintro hin rfl
          exact hkept (if_pos hin)
        have hfield := surfaceCommand_hasField h hne r hr
        cases r with
        | none => exact ensures_ok hfield
        | some t => exact ensures_ok hfield
  · exact ensures_ok h

theorem eq_of_count (hw : w ∈ s.windows) (hv : v ∈ s.windows) (hid : w.id = v.id)
    (h : s.ids.count v.id ≤ 1) : w = v := by
  have hfindw : s.windows.find? (fun u => u.id = w.id) = some w := Keyed.find?_of_count hw (hid ▸ h)
  have hfindv : s.windows.find? (fun u => u.id = v.id) = some v := Keyed.find?_of_count hv h
  rw [hid, hfindv] at hfindw
  exact (Option.some.inj hfindw).symm

theorem keyEdit_field {scan : UInt8} {text : Option UInt8} {extended : Bool} {op : Buffer → Buffer}
    (hs : ∀ w ∈ s.windows, w.OfShell shell) (hfocus : s.FocusInv) (hu : s.FocusUnique)
    (h : s.keyEdit scan text extended = .field c op) : s.HasField c := by
  unfold keyEdit at h
  split at h
  · cases h
  · rename_i c' r hfield
    have hc : c' = c := by
      split at h
      · cases h
      · cases h
        rfl
    subst hc
    unfold focusedField at hfield
    obtain ⟨⟨id, i⟩, hcontrol, hfield⟩ := Option.bind_eq_some_iff.mp hfield
    obtain ⟨w, hw, hfield⟩ := Option.bind_eq_some_iff.mp hfield
    obtain ⟨r', hr, hfield⟩ := Option.bind_eq_some_iff.mp hfield
    split at hfield
    · rename_i hedit
      cases hfield
      obtain ⟨hin, -, hid⟩ := shown_spec hw
      obtain ⟨v, hv, -, rfl, q, hq, hqfocus, -⟩ := hfocus.control id i hcontrol
      -- the surface that the focus is kept for is the one that is shown
      have hsame : w = v := eq_of_count hin hv hid (hu _ hcontrol)
      subst hsame
      cases hr.symm.trans hq
      exact ⟨w, hin, (hs w hin r (List.mem_of_getElem? hr) hqfocus).1, rfl, r, hr, hedit, hqfocus⟩
    · cases hfield

/-! ## Runs -/

theorem step_hasField (h : s.HasField c) (he : s.inputEdit input = .ok e) (hkept : e ≠ .drop c.1)
    (hstep : s.step input = .ok (t, action, events)) : t.HasField c := by
  cases input with
  | command line =>
    obtain ⟨r, hr, heq⟩ := bind_eq_ok hstep
    cases heq
    cases he
    exact command_hasField h hkept r hr
  | clientCommand line =>
    obtain ⟨r, hr, heq⟩ := bind_eq_ok hstep
    cases heq
    exact h.congr (clientCommand_windows hr)
  | key scan text reverseFocus extended => exact h.shifted (keyScancode_framed _ _ _ _ _ hstep).windows
  | pointer packet => exact pointerPacket_hasField h hstep
  | testWindow =>
    obtain ⟨r, hr, heq⟩ := bind_eq_ok hstep
    cases heq
    rcases openTestWindow_cases hr with ⟨-, rfl⟩ | ⟨-, v, -, hv⟩
    · exact h
    · exact h.subset (hv ▸ List.subset_append_left _ _)

theorem inputEdit_field {op : Buffer → Buffer} (hs : ∀ w ∈ s.windows, w.OfShell shell) (hfocus : s.FocusInv)
    (hu : s.FocusUnique) (he : s.inputEdit input = .ok (.field c op)) : s.HasField c := by
  cases input with
  | command line =>
    have hedit : s.commandEdit line = .field c op := Except.ok.inj he
    unfold commandEdit surfaceEdit at hedit
    split at hedit
    · cases hedit
    · split at hedit
      · split at hedit <;> cases hedit
      · cases hedit
    · cases hedit
  | clientCommand line => cases he
  | key scan text reverseFocus extended =>
    have hedit : s.keyInput scan text extended = .field c op := Except.ok.inj he
    unfold keyInput at hedit
    split at hedit
    · cases hedit
    · exact keyEdit_field hs hfocus hu hedit
  | pointer packet => exact packetEdit_field hs he
  | testWindow => cases he

/-- Every text is the text of a field that is there. -/
def Owned (s : Compositor) : Prop := ∀ c, s.field c ≠ .empty → s.HasField c

theorem Owned.step (ho : s.Owned) (hs : ∀ w ∈ s.windows, w.OfShell shell) (hfocus : s.FocusInv) (hu : s.FocusUnique)
    (hsound : s.FieldsSound) (hstep : s.step input = .ok (t, action, events)) : t.Owned := by
  obtain ⟨e, he, hedited⟩ := step_edited hu hsound hstep
  intro c hc
  rw [hedited.field] at hc
  cases e with
  | none => exact step_hasField (ho c hc) he nofun hstep
  | field c' op =>
    -- the edited field is there before the input, the others by the invariant
    have hfield : s.HasField c := by
      by_cases hsame : c = c'
      · subst hsame
        exact inputEdit_field hs hfocus hu he
      · have hother : (Edit.field c' op).apply s.field c = s.field c := Function.update_of_ne hsame _ _
        exact ho c (hother ▸ hc)
    exact step_hasField hfield he nofun hstep
  | drop id =>
    have happly : (Edit.drop id).apply s.field c = if c.1 = id then .empty else s.field c := rfl
    rw [happly] at hc
    by_cases hid : c.1 = id
    · rw [if_pos hid] at hc
      exact absurd rfl hc
    · rw [if_neg hid] at hc
      refine step_hasField (ho c hc) he (fun h => hid ?_) hstep
      cases h
      rfl

theorem Reachable.owned (hshell : (shell.map ShellSurface.id).Nodup)
    (hnames : ∀ u : Compositor, u.nextName ∉ shell.map ShellSurface.id) (h : Reachable shell s) : s.Owned := by
  have hrun := run_of_reachable h
  clear h
  induction hrun with
  | new => exact fun c hc => absurd SplitBuffer.split_nil hc
  | step input hr _ h ih =>
    have hs := hr.reachable
    exact ih.step (ofShell_rule.reachable hs) hs.focus (hs.focusUnique hshell hnames) (hs.fieldsSound hshell hnames) h

theorem Reachable.text_row (hshell : (shell.map ShellSurface.id).Nodup)
    (hnames : ∀ u : Compositor, u.nextName ∉ shell.map ShellSurface.id)
    (hlaid : ∀ surface ∈ shell, ∀ item ∈ surface.items, item.row.editable = true → item.row.focusable = true →
      item.row.laidOut = true) (h : Reachable shell s) (hw : w ∈ s.windows) (hr : w.rows[i]? = some r)
    (htext : (s.editSnapshot w.id i).1 ≠ []) : r.laidOut = true ∧ r.focusable = true := by
  have hfield : s.field (w.id, i) ≠ .empty := fun hempty => by
    have hsnapshot := (h.fieldsSound hshell hnames).snapshot (w.id, i)
    rw [hempty] at hsnapshot
    exact htext (congrArg Prod.fst hsnapshot)
  -- the surface that owns the text is `w` itself, as no other has its id
  obtain ⟨v, hv, -, hid, q, hq, hedit, hfocus⟩ := h.owned hshell hnames _ hfield
  have hcount := h.count_of_focusable hshell hnames hv (List.mem_of_getElem? hq) hfocus
  have hsame : w = v := eq_of_count hw hv hid.symm hcount
  subst hsame
  cases hq.symm.trans hr
  obtain ⟨-, surface, hsurface, -, item, hitem, rfl⟩ :=
    ofShell_rule.reachable h w hw r (List.mem_of_getElem? hr) hfocus
  exact ⟨hlaid surface hsurface item hitem hedit hfocus, hfocus⟩

/-- Click-to-place caret, for every row of text, every text and every caret: a press on a painted
character puts the caret in front of it, for all characters that are painted, if and only if the
columns agree. A row with a text must take the focus and be laid out; in a run it does. -/
theorem caret_click {clip : ClipRect} {rect : Rect} {p : FieldPaint} (hr : w.rows[i]? = some r)
    (hedit : r.editable = true)
    (hword : r.width < 2 ^ 31) (hu : u.edits = s.edits) (hrow : s.paintRow w clip (r, i) = .ok (some rect))
    (hp : s.paintField w r i rect = .ok p) :
    (((s.editSnapshot w.id i).1 ≠ [] → r.laidOut = true ∧ r.focusable = true) →
      (CaretFollows s u w r i p ↔ s.ColumnsAgree w r i)) ∧
    ∀ shell : List ShellSurface, (shell.map ShellSurface.id).Nodup →
      (∀ u : Compositor, u.nextName ∉ shell.map ShellSurface.id) →
      (∀ surface ∈ shell, ∀ item ∈ surface.items, item.row.editable = true → item.row.focusable = true →
        item.row.laidOut = true) →
      Reachable shell s → w ∈ s.windows → (CaretFollows s u w r i p ↔ s.ColumnsAgree w r i) := by
  have held : ((s.editSnapshot w.id i).1 ≠ [] → r.laidOut = true ∧ r.focusable = true) →
      (CaretFollows s u w r i p ↔ s.ColumnsAgree w r i) := by
    intro hheld
    by_cases htext : (s.editSnapshot w.id i).1 = []
    · -- nothing is painted
      have hnone : p.value = [] := by
        rw [(paintField_of_ok hp).2.2.2.2.1, htext, List.take_nil, List.drop_nil]
      refine ⟨fun _ => Or.inr (Or.inl ?_), fun _ j localX hj => ?_⟩
      · rw [htext]
        exact Nat.zero_le _
      · rw [hnone] at hj
        cases hj
    · obtain ⟨hlaid, hfocus⟩ := hheld htext
      exact caretFollows_iff hr hedit hlaid hfocus hword hrow hp hu
  exact ⟨held, fun shell hshell hnames hlaid h hw => held fun htext => h.text_row hshell hnames hlaid hw hr htext⟩

/-! ## The terminal -/

def terminal : ShellSurface where
  id := "terminal".toList
  role := 87
  visible := false
  x := 192
  y := 132
  width := 640
  height := 420
  title := "Terminal".toList
  items := [⟨"Pippin Terminal".toList, [], 104, 0, 0, 24, 64, 592, 30⟩,
    ⟨"Native C++ shell online.".toList, [], kindLabel, 0, 0, 24, 104, 592, 28⟩,
    ⟨"pippin> ".toList, "terminal.input".toList, kindEdit, 1, flagFocusable, 24, 142, 592, 38⟩]

def terminalWindow : Window where
  id := terminal.id
  role := .W
  x := 192
  y := 132
  width := 640
  height := 420
  title := terminal.title
  rows := terminal.items.map ShellItem.row
  native := false
  maximized := false
  minimized := false
  scrollY := 0
  restore := none

def inputRow : Row := ⟨"pippin> ".toList, "terminal.input".toList, kindEdit, 1, flagFocusable, 24, 142, 592, 38⟩

/-- The terminal with `n` letters typed. -/
def typed (n : Nat) : Compositor :=
  { new [terminal] with
    windows := [terminalWindow]
    focusScope := .Window "terminal".toList
    focusedControl := some ("terminal".toList, 2)
    edits := [⟨"terminal".toList, 2, List.replicate n 97, n⟩] }

theorem typed_succ : ∀ n : Fin 39, (typed n).keyScancode 0x1e (some 97) false false =
    .ok (typed (n + 1), none, []) := by
  decide +kernel

theorem reachable_typed {n : Nat} (h : n ≤ 39) : Reachable [terminal] (typed n) := by
  induction n with
  | zero =>
    have hopen : (new [terminal]).command "R|terminal".toList =
        .ok ({ typed 0 with focusedControl := none, edits := [] }, true) := by decide +kernel
    have htab : ({ typed 0 with focusedControl := none, edits := [] } : Compositor).keyScancode 0x0f none false false =
        .ok ({ typed 0 with edits := [] }, none, []) := by decide +kernel
    have hback : ({ typed 0 with edits := [] } : Compositor).keyScancode 0x0e none false false =
        .ok (typed 0, none, []) := by decide +kernel
    exact .key _ _ _ _ (.key _ _ _ _ (.command _ .new hopen) htab) hback
  | succ n ih => exact .key _ _ _ _ (ih (by omega)) (typed_succ ⟨n, by omega⟩)

def terminalClip : ClipRect := ⟨193, 177, 831, 551⟩

theorem caret_click_short : ∃ t, (typed 2).focusRow terminalWindow 150 (some 2) true = .ok t ∧
    t.editSnapshot terminalWindow.id 2 = ([97, 97], 1) := by
  have hrow : (typed 2).paintRow terminalWindow terminalClip (inputRow, 2) = .ok (some (216, 274, 592, 38)) := by
    decide +kernel
  have hp : (typed 2).paintField terminalWindow inputRow 2 (216, 274, 592, 38) =
      .ok ⟨230, 286, true, 326, 0, [97, 97], some (350, 282, 2, 22)⟩ := by decide +kernel
  have hagree : (typed 2).ColumnsAgree terminalWindow inputRow 2 := Or.inr (Or.inl (by decide +kernel))
  have hlaid : ∀ surface ∈ [terminal], ∀ item ∈ surface.items, item.row.editable = true → item.row.focusable = true →
      item.row.laidOut = true := by decide +kernel
  have hnames : ∀ u : Compositor, u.nextName ∉ [terminal].map ShellSurface.id := nextName_not_mem (by decide)
  have hclick := caret_click (s := typed 2) (u := typed 2) rfl rfl (by decide) rfl hrow hp
  have hfollows :=
    (hclick.2 [terminal] (by decide) hnames hlaid (reachable_typed (by decide)) List.mem_cons_self).mpr hagree
  exact hfollows 1 150 (by decide) (by decide) (by decide) ⟨by decide, by decide⟩

/-- With 39 letters all but the first are painted, and a press on the second puts the caret in
front of the first. -/
theorem caret_click_typed : ¬∀ (shell : List ShellSurface) (s : Compositor) (w : Window) r i clip rect p,
    Reachable shell s → w ∈ s.windows → w.rows[i]? = some r → r.editable = true →
    s.paintRow w clip (r, i) = .ok (some rect) →
    s.paintField w r i rect = .ok p → CaretFollows s s w r i p := by
  intro h
  have hrow : (typed 39).paintRow terminalWindow terminalClip (inputRow, 2) = .ok (some (216, 274, 592, 38)) := by
    decide +kernel
  have hp : (typed 39).paintField terminalWindow inputRow 2 (216, 274, 592, 38) =
      .ok ⟨230, 286, true, 326, 1, List.replicate 38 97, some (782, 282, 2, 22)⟩ := by decide +kernel
  obtain ⟨t, ht, hcaret⟩ := h [terminal] (typed 39) terminalWindow inputRow 2 terminalClip _ _
    (reachable_typed (by decide)) List.mem_cons_self rfl rfl hrow hp 0 134 (by decide) (by decide)
    (by decide) ⟨by decide, by decide⟩
  have hpress : (typed 39).focusRow terminalWindow 134 (some 2) true =
      .ok { typed 39 with edits := [⟨"terminal".toList, 2, List.replicate 39 97, 0⟩] } := by decide +kernel
  cases ht.symm.trans hpress
  have hcursor := congrArg Prod.snd hcaret
  revert hcursor
  decide

end Compositor

end Pippin.Native
