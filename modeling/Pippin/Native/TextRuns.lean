import Pippin.Native.Caret
import Pippin.Native.ShellRows
import Pippin.Native.TabCycle

/-! Runs of text editing. Every input does one thing to the texts: a key or a press edits one
field, a host command drops the fields of a window, and everything else leaves them alone. -/

namespace Pippin.Native
open Checked

namespace Compositor

variable {s t u : Compositor} {w : Window} {r : Row} {c : Control} {i index : Nat} {shell : List ShellSurface}
  {scan : UInt8} {text : Option UInt8} {reverseFocus extended : Bool} {packet : UInt32} {action : Option Str}
  {events : List Client.Event}

/-! ## Keys -/

theorem Scrolled.edits (h : Scrolled s t) : t.edits = s.edits := by rw [h.rest]

theorem rehover_edits : Ensures s.rehover fun t => t.edits = s.edits := ensures_bind fun _ _ => ensures_ok rfl

theorem focusNext_edits (reverse : Bool) : Ensures (s.focusNext reverse) fun t => t.edits = s.edits := by
  rw [focusNext_eq]
  exact ensures_ok repairFocusScope_edits

theorem tabKey_edits (reverse : Bool) : Ensures (s.tabKey reverse) fun t => t.edits = s.edits := by
  intro t ht
  obtain ⟨s₁, h₁, ht⟩ := bind_eq_ok ht
  obtain ⟨s₂, h₂, ht⟩ := bind_eq_ok ht
  rw [rehover_edits t ht, (ensureFocusedVisible_scrolled s₂ h₂).edits, focusNext_edits _ s₁ h₁]

theorem plainKey_edits (scan : UInt8) (text : Option UInt8) (reverseFocus : Bool) :
    Ensures (s.plainKey scan text reverseFocus) fun r => r.1.edits = s.edits := by
  unfold plainKey
  split
  · exact ensures_bind fun t ht => ensures_ok (tabKey_edits _ t ht)
  · split
    · refine ensures_ok ?_
      unfold activateKey
      split <;> exact repairFocusScope_edits
    · exact ensures_ok rfl

theorem keyScancode_texts (hclient : s.clients.isActive = false) (hdown : scan &&& 0x80 = 0)
    (h : s.keyScancode scan text reverseFocus extended = .ok (t, action, events)) : ∃ r,
    s.handleEditKey scan text extended = .ok r ∧ t.edits = r.1.edits ∧ (r.2.1 = true → action = r.2.2) := by
  unfold keyScancode at h
  rw [hclient, hdown, if_neg (by decide)] at h
  obtain ⟨⟨s₁, consumed, payload⟩, hr, h⟩ := bind_eq_ok h
  refine ⟨_, hr, ?_⟩
  cases consumed with
  | true =>
    -- the query may have changed, so that the scope is repaired and the hover found again
    obtain ⟨v, hv, h⟩ := bind_eq_ok h
    cases h
    exact ⟨(rehover_edits _ hv).trans repairFocusScope_edits, fun _ => rfl⟩
  | false =>
    refine ⟨?_, nofun⟩
    obtain ⟨⟨s₂, handled⟩, hn, h⟩ := bind_eq_ok h
    have hs₂ : s₂.edits = s₁.edits := by
      cases extended with
      | true => exact (navigate_scrolled scan _ hn).edits
      | false =>
        cases hn
        rfl
    cases handled with
    | true =>
      obtain ⟨v, hv, h⟩ := bind_eq_ok h
      cases h
      exact (rehover_edits _ hv).trans hs₂
    | false => exact (plainKey_edits _ _ _ _ h).trans hs₂

/-! ## Packets -/

/-- What a press at `localX` of a window does to the texts: it places the caret of a text field
that takes the focus. -/
def focusEdit (w : Window) (localX : Int) (row : Option Nat) (inRows : Bool) : Edit :=
  match (if inRows then row.bind fun i => (w.rows[i]?).map fun r => (r, i) else none) with
  | some (r, i) =>
    if r.focusable && r.editable then .field (w.id, i) (pressOp (localX - r.x) r.width (labelWidth r)) else .none
  | none => .none

/-- The press of `pointerDown`: nothing is edited on the desktop or by a header button. -/
def downEdit (s : Compositor) : Checked Edit := do
  match ← s.topAt s.cursorX s.cursorY with
  | none => return .none
  | some index =>
    let (w, windows) ← remove s.windows index
    let s := { s with windows }.setFocusScope w.scopeForWindow
    match ← w.titleButton s.cursorX s.cursorY with
    | some _ => return .none
    | none =>
      let localX ← i32 (s.cursorX - w.x)
      let localY ← w.localContentY s.cursorY
      let (row, inRows) ← s.pressedRow w localX localY
      return focusEdit w localX row inRows

def packetEdit (s : Compositor) (packet : UInt32) : Checked Edit := do
  let (s, handled, _) ← s.trackPointer packet
  if !handled && packet &&& 1 != 0 && !s.leftDown then downEdit { s with pressedControl := s.hoveredControl }
  else return .none

/-- A state with sound fields that are those of `s` after an edit. -/
structure Edited (s : Compositor) (e : Edit) (t : Compositor) : Prop where
  sound : t.FieldsSound
  field : t.field = e.apply s.field

theorem Edited.same (h : s.FieldsSound) (he : t.edits = s.edits) : Edited s .none t := ⟨h.congr he, field_congr he⟩

theorem Edited.congr {e : Edit} (h : Edited s e t) (he : u.edits = t.edits) : Edited s e u :=
  ⟨h.sound.congr he, (field_congr he).trans h.field⟩

theorem Edited.of_congr {e : Edit} (h : Edited u e t) (he : u.edits = s.edits) : Edited s e t :=
  ⟨h.sound, h.field.trans (by rw [field_congr he])⟩

theorem editPress_edited (h : s.FieldsSound) (hedit : r.editable = true) (localX : Int) :
    Ensures (s.editPress w localX r i)
    (Edited s (.field (w.id, i) (pressOp (localX - r.x) r.width (labelWidth r)))) := by
  intro t ht
  unfold editPress at ht
  rw [filteredFrame_editable hedit, ok_bind] at ht
  obtain ⟨label, hlabel, ht⟩ := bind_eq_ok ht
  obtain ⟨x, hx, ht⟩ := bind_eq_ok ht
  obtain ⟨rfl, -⟩ := i32_of_ok hx
  have hlabel : label = labelWidth r := by
    unfold labelWidth
    split at hlabel
    · rename_i hkind
      rw [if_pos hkind, (i32_of_ok hlabel).1]
    · rename_i hkind
      cases hlabel
      rw [if_neg hkind]
  subst hlabel
  obtain ⟨hsound, hfield⟩ := placeEditCursor_spec h _ _ _ _ _ t ht
  exact ⟨hsound, hfield⟩

theorem focusRow_edited (h : s.FieldsSound) (localX : Int) (row : Option Nat) (inRows : Bool) :
    Ensures (s.focusRow w localX row inRows) (Edited s (focusEdit w localX row inRows)) := by
  unfold focusRow focusEdit
  cases inRows with
  | false => exact ensures_ok (.same h rfl)
  | true =>
    rw [if_pos rfl]
    simp only [Bool.not_true, Bool.false_eq_true, if_false]
    cases row.bind fun i => (w.rows[i]?).map fun r => (r, i) with
    | none => exact ensures_ok (.same h rfl)
    | some hit =>
      obtain ⟨control, i⟩ := hit
      dsimp only
      by_cases hfocus : control.disabled || !control.focusable
      · -- such a row drops the focus and is not edited
        have hnone : (control.focusable && control.editable) = false := by
          unfold Row.editable
          revert hfocus
          cases control.disabled <;> cases control.focusable <;> simp
        rw [if_pos hfocus, hnone]
        exact ensures_ok (.same h rfl)
      · have hfocusable : control.focusable = true := by
          revert hfocus
          cases control.disabled <;> cases control.focusable <;> decide
        rw [if_neg hfocus, hfocusable, Bool.true_and]
        cases hedit : control.editable with
        | false => exact ensures_ok (.same h rfl)
        | true =>
          let u : Compositor := { s with focusedControl := some (w.id, i) }
          have hu : u.FieldsSound := h.congr rfl
          exact fun t ht => (editPress_edited hu hedit localX t ht).of_congr rfl

theorem titlePress_edits (button : TitleButton) : Ensures (s.titlePress w button) fun r => r.1.edits = s.edits := by
  cases button with
  | close =>
    unfold titlePress
    dsimp only
    split <;> exact ensures_ok repairFocusScope_edits
  | minimize => exact ensures_ok repairFocusScope_edits
  | maximize => exact ensures_bind fun _ _ => ensures_ok rfl

theorem pointerDown_edited (h : s.FieldsSound) :
    Ensures s.pointerDown fun r => ∃ e, s.downEdit = .ok e ∧ Edited s e r.1 := by
  intro result hdown
  obtain ⟨top, htop, hdown⟩ := bind_eq_ok hdown
  unfold downEdit
  rw [htop, ok_bind]
  cases top with
  | none =>
    cases hdown
    exact ⟨_, rfl, .same h (setFocusScope_edits _)⟩
  | some index =>
    obtain ⟨⟨w, rest⟩, hremove, hdown⟩ := bind_eq_ok hdown
    dsimp only at hdown ⊢
    rw [hremove, ok_bind]
    have hedits : (setFocusScope { s with windows := rest } w.scopeForWindow).edits = s.edits := setFocusScope_edits _
    obtain ⟨button, hbutton, hdown⟩ := bind_eq_ok hdown
    dsimp only at hbutton ⊢
    rw [hbutton, ok_bind]
    cases button with
    | some button => exact ⟨_, rfl, .same h ((titlePress_edits button _ hdown).trans hedits)⟩
    | none =>
      obtain ⟨localX, hx, hdown⟩ := bind_eq_ok hdown
      obtain ⟨localY, hy, hdown⟩ := bind_eq_ok hdown
      obtain ⟨⟨row, inRows⟩, hrow, hdown⟩ := bind_eq_ok hdown
      obtain ⟨t, ht, hdown⟩ := bind_eq_ok hdown
      obtain ⟨_, -, hdown⟩ := bind_eq_ok hdown
      cases hdown
      dsimp only
      rw [hx, ok_bind, hy, ok_bind, hrow, ok_bind]
      exact ⟨_, rfl, ((focusRow_edited (h.congr hedits) localX row inRows t ht).of_congr hedits).congr rfl⟩

theorem trackPointer_edits {handled : Bool} (h : s.trackPointer packet = .ok (t, handled, events)) :
    t.edits = s.edits := by
  obtain ⟨x, -, h⟩ := bind_eq_ok h
  obtain ⟨y, -, h⟩ := bind_eq_ok h
  obtain ⟨⟨handled', clients, events'⟩, -, h⟩ := bind_eq_ok h
  obtain ⟨s₁, h₁, h⟩ := bind_eq_ok h
  obtain ⟨s₂, h₂, h⟩ := bind_eq_ok h
  cases h
  have hwheel := (wheelScroll_scrolled _ _ s₁ h₁).edits
  unfold hover at h₂
  split at h₂
  · cases h₂
    exact hwheel
  · exact (rehover_edits _ h₂).trans hwheel

theorem dragOrDrop_edits (left handled : Bool) : Ensures (s.dragOrDrop left handled) fun t => t.edits = s.edits := by
  unfold dragOrDrop
  split
  · unfold dragWindow
    split
    · exact ensures_ok rfl
    · split
      · exact ensures_ok rfl
      · exact ensures_bind fun _ _ => ensures_bind fun _ _ => ensures_bind fun _ _ => ensures_ok rfl
  · exact ensures_ok rfl

theorem pointerPacket_edited (h : s.FieldsSound) (hpacket : s.pointerPacket packet = .ok (t, action, events)) :
    ∃ e, s.packetEdit packet = .ok e ∧ Edited s e t := by
  obtain ⟨⟨s₁, handled, _⟩, h₁, hpacket⟩ := bind_eq_ok hpacket
  obtain ⟨r₂, h₂, hpacket⟩ := bind_eq_ok hpacket
  obtain ⟨s₃, h₃, hpacket⟩ := bind_eq_ok hpacket
  cases hpacket
  have hedits := trackPointer_edits h₁
  have hdrop := dragOrDrop_edits _ _ s₃ h₃
  unfold packetEdit
  rw [h₁, ok_bind]
  unfold pressOrRelease at h₂
  dsimp only at h₂ ⊢
  split at h₂
  · rename_i hpress
    rw [if_pos hpress]
    let u : Compositor := { s₁ with pressedControl := s₁.hoveredControl }
    have hu : u.FieldsSound := h.congr hedits
    obtain ⟨e, he, hedited⟩ := pointerDown_edited hu r₂ h₂
    exact ⟨e, he, (hedited.of_congr hedits).congr hdrop⟩
  · rename_i hpress
    rw [if_neg hpress]
    have hsame : r₂.1.edits = s₁.edits := by
      split at h₂
      · obtain ⟨_, -, h₂⟩ := bind_eq_ok h₂
        cases h₂
        rfl
      · cases h₂
        rfl
    exact ⟨_, rfl, .same h (hdrop.trans (hsame.trans hedits))⟩

/-! ## Commands -/

def surfaceEdit (s : Compositor) : Option Surface → Edit
  | some (.window id ..) => if id ∈ s.ids then .drop id else .none
  | _ => .none

/-- `X|` drops the texts of a window, and so may an `S|` line. -/
def commandEdit (s : Compositor) (line : Str) : Edit :=
  match line with
  | 'X' :: '|' :: id => .drop id
  | 'S' :: '|' :: payload => s.surfaceEdit (parseSurface payload)
  | _ => .none

theorem Edited.drop {id : Str} (h : s.FieldsSound) (ht : t.edits = s.edits.filter fun e => e.windowId ≠ id) :
    Edited s (.drop id) t := by
  refine ⟨⟨?_, fun e he => h.sound e (List.mem_of_mem_filter (ht ▸ he))⟩, funext fun c => ?_⟩
  · rw [ht]
    exact List.Nodup.sublist (List.filter_sublist.map _) h.unique
  · have happly : (Edit.drop id).apply s.field c = if c.1 = id then .empty else s.field c := rfl
    rw [happly, field_eq, field_eq, ht, List.find?_filter]
    by_cases hc : c.1 = id
    · rw [if_pos hc, List.find?_eq_none.mpr fun e _ => ?_]
      · rfl
      · subst hc
        by_cases hid : e.windowId = c.1
        · simp [hid]
        · simp [EditState.control, Prod.ext_iff, hid]
    · rw [if_neg hc]
      refine congrArg (fun p => ((s.edits.find? p).map EditState.buffer).getD .empty) (funext fun e => ?_)
      by_cases he : e.control = c
      · subst he
        have hid : e.windowId ≠ id := hc
        simp [hid]
      · simp [he]

theorem surfaceCommand_edited (h : s.FieldsSound) {id title : Str} {role : Role} {x y width height : Int}
    {rows : List Row} :
    Ensures (s.surfaceCommand (.window id role x y width height title rows)) fun r =>
      Edited s (s.surfaceEdit (some (.window id role x y width height title rows))) (r.getD s) := by
  unfold surfaceCommand surfaceEdit
  dsimp only
  cases hfind : s.windows.findIdx? fun w => w.id = id with
  | some index =>
    have hspec : ∃ w, s.windows[index]? = some w ∧ w.id = id := Keyed.findIdx?_spec hfind
    obtain ⟨w, hw, hid⟩ := hspec
    have hin : id ∈ s.ids := List.mem_map.mpr ⟨w, List.mem_of_getElem? hw, hid⟩
    rw [if_pos hin]
    exact ensures_bind fun _ _ => ensures_bind fun _ _ => ensures_ok (.drop h repairFocusScope_edits)
  | none =>
    have hnew : id ∉ s.ids := fun hin => by
      obtain ⟨w, hw, hid⟩ := List.mem_map.mp hin
      exact of_decide_eq_false (List.findIdx?_eq_none_iff.mp hfind w hw) hid
    rw [if_neg hnew]
    dsimp only
    split
    · exact ensures_ok (.same h rfl)
    · exact ensures_ok (.same h repairFocusScope_edits)

theorem command_edited (h : s.FieldsSound) (line : Str) :
    Ensures (s.command line) fun r => Edited s (s.commandEdit line) r.1 := by
  -- only closing a surface and replacing one drop text states
  unfold command
  split
  · refine ensures_bind fun t ht => ensures_ok (.same h ?_)
    unfold restoreCommand at ht
    split at ht
    · cases ht
      rfl
    · obtain ⟨_, -, ht⟩ := bind_eq_ok ht
      cases ht
      exact setFocusScope_edits _
  · refine ensures_bind fun t ht => ensures_ok (.same h ?_)
    unfold minimizeCommand at ht
    split at ht
    · cases ht
      rfl
    · obtain ⟨_, -, ht⟩ := bind_eq_ok ht
      cases ht
      exact repairFocusScope_edits
  · exact ensures_ok (.drop h repairFocusScope_edits)
  · rename_i payload
    have hedit : s.commandEdit ('S' :: '|' :: payload) = s.surfaceEdit (parseSurface payload) := rfl
    rw [hedit]
    cases hparse : parseSurface payload with
    | none => exact ensures_ok (.same h rfl)
    | some surface =>
      refine ensures_bind fun r hr => ?_
      cases surface with
      | wallpaper color =>
        cases hr
        exact ensures_ok (.same h rfl)
      | window id role x y width height title rows =>
        have hedited := surfaceCommand_edited h r hr
        cases r with
        | none => exact ensures_ok hedited
        | some t => exact ensures_ok hedited
  · rename_i hr hm hx hs
    have hnone : s.commandEdit line = .none := by
      unfold commandEdit
      split
      · rename_i id
        exact absurd rfl (hx id)
      · rename_i payload
        exact absurd rfl (hs payload)
      · rfl
    rw [hnone]
    exact ensures_ok (.same h rfl)

/-! ## Inputs -/

def keyInput (s : Compositor) (scan : UInt8) (text : Option UInt8) (extended : Bool) : Edit :=
  if s.clients.isActive || scan &&& 0x80 != 0 then .none else s.keyEdit scan text extended

def inputEdit (s : Compositor) : Input → Checked Edit
  | .command line => return s.commandEdit line
  | .clientCommand _ => return .none
  | .key scan text _ extended => return s.keyInput scan text extended
  | .pointer packet => s.packetEdit packet
  | .testWindow => return .none

theorem key_edited (hu : s.FocusUnique) (h : s.FieldsSound)
    (hkey : s.keyScancode scan text reverseFocus extended = .ok (t, action, events)) :
    Edited s (s.keyInput scan text extended) t ∧
      (s.keyInput scan text extended ≠ .none → action = s.keySubmission scan) := by
  unfold keyInput
  by_cases hrouted : (s.clients.isActive || scan &&& 0x80 != 0) = true
  · unfold keyScancode at hkey
    rw [if_pos hrouted] at hkey ⊢
    cases hkey
    exact ⟨.same h rfl, fun hne => absurd rfl hne⟩
  · rw [if_neg hrouted]
    simp only [Bool.or_eq_true, not_or, Bool.not_eq_true, bne_eq_false_iff_eq] at hrouted
    obtain ⟨r, hr, hsame, hconsumed⟩ := keyScancode_texts hrouted.1 hrouted.2 hkey
    obtain ⟨r', hr', hsound, hfield, hidle, hsubmit⟩ := handleEditKey_spec hu h scan text extended
    cases hr.symm.trans hr'
    refine ⟨Edited.congr ⟨hsound, hfield⟩ hsame, fun hne => ?_⟩
    have htrue : r.2.1 = true := by
      cases hc : r.2.1 with
      | true => rfl
      | false => exact absurd (hidle hc) hne
    rw [hconsumed htrue, hsubmit htrue]

theorem step_edited {input : Input} (hu : s.FocusUnique) (h : s.FieldsSound)
    (hstep : s.step input = .ok (t, action, events)) : ∃ e, s.inputEdit input = .ok e ∧ Edited s e t := by
  cases input with
  | command line =>
    obtain ⟨r, hr, heq⟩ := bind_eq_ok hstep
    cases heq
    exact ⟨_, rfl, command_edited h line r hr⟩
  | clientCommand line =>
    obtain ⟨r, hr, heq⟩ := bind_eq_ok hstep
    cases heq
    refine ⟨_, rfl, .same h ?_⟩
    rcases clientCommand_cases hr with ⟨-, rfl, -⟩ | ⟨-, -, ht, -⟩
    · rfl
    · rw [ht]
  | key scan text reverseFocus extended => exact ⟨_, rfl, (key_edited hu h hstep).1⟩
  | pointer packet => exact pointerPacket_edited h hstep
  | testWindow =>
    obtain ⟨r, hr, heq⟩ := bind_eq_ok hstep
    cases heq
    refine ⟨_, rfl, .same h ?_⟩
    unfold openTestWindow at hr
    split at hr
    · cases hr
      rfl
    · obtain ⟨_, -, hr⟩ := bind_eq_ok hr
      obtain ⟨_, -, hr⟩ := bind_eq_ok hr
      obtain ⟨_, -, hr⟩ := bind_eq_ok hr
      cases hr
      rfl

/-! ## Runs -/

theorem Reachable.focusUnique (hshell : (shell.map ShellSurface.id).Nodup)
    (hnames : ∀ u : Compositor, u.nextName ∉ shell.map ShellSurface.id) (h : Reachable shell s) : s.FocusUnique := by
  rintro ⟨id, i⟩ hc
  obtain ⟨w, hw, -, rfl, r, hr, hfocus, -⟩ := h.focus.control id i hc
  exact h.count_of_focusable hshell hnames hw (List.mem_of_getElem? hr) hfocus

theorem Reachable.fieldsSound (hshell : (shell.map ShellSurface.id).Nodup)
    (hnames : ∀ u : Compositor, u.nextName ∉ shell.map ShellSurface.id) (h : Reachable shell s) : s.FieldsSound := by
  have hrun := run_of_reachable h
  clear h
  -- that the focus is unambiguous comes from the run, not from the fields
  induction hrun with
  | new => exact ⟨List.nodup_nil, fun _ he => (nomatch he)⟩
  | step input hr _ h ih =>
    obtain ⟨_, -, hedited⟩ := step_edited (hr.reachable.focusUnique hshell hnames) ih h
    exact hedited.sound

inductive Edits : Compositor → List Edit → Compositor → Prop where
  | nil (s : Compositor) : Edits s [] s
  | cons {s t u : Compositor} {e : Edit} {es : List Edit} {action : Option Str} {events : List Client.Event}
      (input : Input) (he : s.inputEdit input = .ok e) (h : s.step input = .ok (t, action, events))
      (hr : Edits t es u) : Edits s (e :: es) u

def replay (es : List Edit) (fields : Control → Buffer) : Control → Buffer :=
  es.foldl (fun fields e => e.apply fields) fields

theorem Edits.field (hshell : (shell.map ShellSurface.id).Nodup)
    (hnames : ∀ u : Compositor, u.nextName ∉ shell.map ShellSurface.id) {es : List Edit} (h : Edits s es t) :
    Reachable shell s → t.field = replay es s.field := by
  induction h with
  | nil => exact fun _ => rfl
  | cons input he h _ ih =>
    intro hs
    obtain ⟨e', he', hedited⟩ := step_edited (hs.focusUnique hshell hnames) (hs.fieldsSound hshell hnames) h
    cases he.symm.trans he'
    rw [ih (hs.step h), hedited.field]
    rfl

theorem FieldsSound.snapshot (h : s.FieldsSound) (c : Control) :
    s.editSnapshot c.1 c.2 = ((s.field c).text, (s.field c).left.length) := by
  have hcursor : (s.editSnapshot c.1 c.2).2 ≤ (s.editSnapshot c.1 c.2).1.length := by
    unfold editSnapshot
    cases hfind : (s.editIndex c.1 c.2).bind fun index => s.edits[index]? with
    | none => exact Nat.le_refl 0
    | some e =>
      obtain ⟨index, -, he⟩ := Option.bind_eq_some_iff.mp hfind
      exact (h.sound e (List.mem_of_getElem? he)).cursor
  unfold Compositor.field
  rw [SplitBuffer.text_split, SplitBuffer.left_length_split hcursor]

/-- Text editing in every run: one bounded printable text with a caret for every field, and every
input does to the texts of all fields what a split buffer does, with what Enter submits. Nothing
but the arithmetic of coordinates can fault. -/
theorem text_fields (hshell : (shell.map ShellSurface.id).Nodup)
    (hnames : ∀ u : Compositor, u.nextName ∉ shell.map ShellSurface.id) (h : Reachable shell s) :
    (s.edits.map fun e => (e.windowId, e.row)).Nodup ∧
    (∀ e ∈ s.edits, (∀ b ∈ e.value, 0x20 ≤ b ∧ b ≤ 0x7e) ∧ e.value.length ≤ 64 ∧ e.cursor ≤ e.value.length) ∧
    (∀ c, s.editSnapshot c.1 c.2 = ((s.field c).text, (s.field c).left.length)) ∧
    (∀ es t, Edits s es t → t.field = replay es s.field) ∧
    (∀ input t action events, s.step input = .ok (t, action, events) → ∃ e, s.inputEdit input = .ok e ∧
      t.field = e.apply s.field ∧
        ∀ c op c', e = .field c op → c' ≠ c → t.editSnapshot c'.1 c'.2 = s.editSnapshot c'.1 c'.2) ∧
    (∀ scan text reverseFocus extended t action events,
      s.keyScancode scan text reverseFocus extended = .ok (t, action, events) →
        s.keyInput scan text extended ≠ .none → action = s.keySubmission scan) ∧
    (∀ scan text extended, ∃ r, s.handleEditKey scan text extended = .ok r) ∧
    (∀ windowId row localX width label, OnlyOverflows (s.placeEditCursor windowId row localX width label)) ∧
    ∀ w r index rect, OnlyOverflows (s.paintField w r index rect) := by
  have hu := h.focusUnique hshell hnames
  have hsound := h.fieldsSound hshell hnames
  refine ⟨hsound.unique, fun e he => ?_, hsound.snapshot, fun es t hes => hes.field hshell hnames h, ?_, ?_, ?_, ?_, ?_⟩
  · have he := hsound.sound e he
    exact ⟨he.printable, he.length, he.cursor⟩
  · intro input t action events hstep
    obtain ⟨e, he, hedited⟩ := step_edited hu hsound hstep
    refine ⟨e, he, hedited.field, ?_⟩
    rintro c op c' rfl hne
    have hother : (Edit.field c op).apply s.field c' = s.field c' := Function.update_of_ne hne _ _
    rw [hedited.sound.snapshot, hsound.snapshot, hedited.field, hother]
  · intro scan text reverseFocus extended t action events hkey
    exact (key_edited hu hsound hkey).2
  · intro scan text extended
    obtain ⟨r, hr, -⟩ := handleEditKey_spec hu hsound scan text extended
    exact ⟨r, hr⟩
  · exact placeEditCursor_onlyOverflows
  · exact paintField_onlyOverflows

theorem text_fields_backspace : searching.field ("launcher".toList, 1) = ⟨[109], []⟩ ∧ ∃ t,
    searching.keyScancode 0x0e none false false = .ok (t, none, []) ∧
      t.field = Function.update searching.field ("launcher".toList, 1) .empty := by
  have hnames : ∀ u : Compositor, u.nextName ∉ [launcher].map ShellSurface.id := nextName_not_mem (by decide)
  have hkey : searching.keyScancode 0x0e none false false =
      .ok ({ searching with edits := [⟨"launcher".toList, 1, [], 0⟩] }, none, []) := by decide +kernel
  obtain ⟨-, -, -, -, hstep, -⟩ := text_fields (by decide) hnames reachable_searching
  obtain ⟨e, he, hfield, -⟩ := hstep (.key 0x0e none false false) _ _ _ hkey
  have hedit : searching.inputEdit (.key 0x0e none false false) = .ok (.field ("launcher".toList, 1) .backspace) := rfl
  cases hedit.symm.trans he
  refine ⟨rfl, _, hkey, ?_⟩
  rw [hfield]
  rfl

end Compositor

end Pippin.Native
