import Pippin.Lib.Keyed
import Pippin.Lib.SplitBuffer
import Pippin.Native.Focus

/-! Text fields. The texts of all fields are in one list, under the window and the row they
belong to. Each of them is a split buffer that keys and clicks edit; the fields do not touch
each other, and painting takes a slice of one. -/

namespace Pippin.Native
open Checked

abbrev Buffer := SplitBuffer UInt8

namespace EditState

def control (e : EditState) : Control := (e.windowId, e.row)

def buffer (e : EditState) : Buffer := .split e.value e.cursor

structure Sound (e : EditState) : Prop where
  printable : ∀ b ∈ e.value, 0x20 ≤ b ∧ b ≤ 0x7e
  length : e.value.length ≤ textInputLimit
  cursor : e.cursor ≤ e.value.length

variable {e : EditState} {b : UInt8}

theorem Sound.moved (h : e.Sound) {cursor : Nat} (hc : cursor ≤ e.value.length) : { e with cursor }.Sound :=
  ⟨h.printable, h.length, hc⟩

theorem Sound.cleared : { e with value := [], cursor := 0 }.Sound :=
  ⟨fun _ hb => (nomatch hb), Nat.zero_le _, Nat.le_refl 0⟩

theorem Sound.erased (h : e.Sound) {cursor : Nat} (hc : cursor < e.value.length) :
    { e with value := e.value.eraseIdx cursor, cursor }.Sound := by
  have hlength : (e.value.eraseIdx cursor).length = e.value.length - 1 := by
    rw [List.length_eraseIdx, if_pos hc]
  refine ⟨fun b hb => h.printable b (List.mem_of_mem_eraseIdx hb), ?_, ?_⟩
  · exact Nat.le_trans (List.length_eraseIdx_le _ _) h.length
  · dsimp only
    omega

theorem Sound.inserted (h : e.Sound) (hb : 0x20 ≤ b ∧ b ≤ 0x7e) (hroom : e.value.length < textInputLimit) :
    { e with value := e.value.take e.cursor ++ b :: e.value.drop e.cursor, cursor := e.cursor + 1 }.Sound := by
  have hcursor := h.cursor
  have hlength : (e.value.take e.cursor ++ b :: e.value.drop e.cursor).length = e.value.length + 1 := by
    rw [List.length_append, List.length_cons, List.length_take, List.length_drop]
    omega
  refine ⟨fun c hc => ?_, by dsimp only; omega, by dsimp only; omega⟩
  rcases List.mem_append.mp hc with hc | hc
  · exact h.printable c (List.mem_of_mem_take hc)
  · rcases List.mem_cons.mp hc with rfl | hc
    · exact hb
    · exact h.printable c (List.mem_of_mem_drop hc)

end EditState

/-! ## Keys of one field -/

def editOp (kind scan : UInt8) (text : Option UInt8) (extended : Bool) : Option (Buffer → Buffer) :=
  if extended ∧ scan = 0x4b then some .back
  else if extended ∧ scan = 0x4d then some .forward
  else if extended ∧ scan = 0x47 then some .home
  else if extended ∧ scan = 0x4f then some .toEnd
  else if extended ∧ scan = 0x53 then some .delete
  else if scan = 0x0e then some .backspace
  else if scan = 0x1c then some (if kind = kindEdit then fun _ => .empty else id)
  else (text.filter fun byte => decide (0x20 ≤ byte ∧ byte ≤ 0x7e)).map fun byte => .insert textInputLimit byte

def submission (action : Str) (scan : UInt8) (b : Buffer) : Option Str :=
  if scan = 0x1c ∧ ¬action.isEmpty then
    some (action ++ actionValueSeparator :: b.text.map fun b => Char.ofNat b.toNat)
  else none

namespace Compositor

variable {s t : Compositor} {w : Window} {e : EditState} {c : Control} {action : Str} {kind scan : UInt8}
  {text : Option UInt8} {extended : Bool} {index row : Nat}

theorem editNavigation_spec (h : e.Sound)
    (hscan : scan = 0x4b ∨ scan = 0x4d ∨ scan = 0x47 ∨ scan = 0x4f ∨ scan = 0x53) :
    ∃ e' op, editNavigation scan e = .ok (some e') ∧ (∀ kind text, editOp kind scan text true = some op) ∧
      e'.Sound ∧ e'.control = e.control ∧ e'.buffer = op e.buffer := by
  have hcursor := h.cursor
  rcases hscan with rfl | rfl | rfl | rfl | rfl
  · refine ⟨_, _, rfl, fun _ _ => rfl, h.moved (by omega), rfl, SplitBuffer.split_back hcursor⟩
  · refine ⟨_, _, rfl, fun _ _ => rfl, h.moved (Nat.min_le_right _ _), rfl, SplitBuffer.split_forward hcursor⟩
  · refine ⟨_, _, rfl, fun _ _ => rfl, h.moved (Nat.zero_le _), rfl, SplitBuffer.split_home⟩
  · refine ⟨_, _, rfl, fun _ _ => rfl, h.moved (Nat.le_refl _), rfl, SplitBuffer.split_toEnd⟩
  · unfold editNavigation
    simp only [show ¬(0x53 : UInt8) = 0x4b by decide, show ¬(0x53 : UInt8) = 0x4d by decide,
      show ¬(0x53 : UInt8) = 0x47 by decide, show ¬(0x53 : UInt8) = 0x4f by decide, if_false, if_true]
    by_cases hlt : e.cursor < e.value.length
    · rw [if_pos hlt, remove_eq (List.getElem?_eq_getElem hlt)]
      exact ⟨_, _, rfl, fun _ _ => rfl, h.erased hlt, rfl, SplitBuffer.split_delete hlt⟩
    · rw [if_neg hlt]
      exact ⟨_, _, rfl, fun _ _ => rfl, h, rfl, (SplitBuffer.delete_end (Nat.not_lt.mp hlt)).symm⟩

theorem backspace_spec (h : e.Sound) : ∃ e', backspace e = .ok e' ∧ e'.Sound ∧ e'.control = e.control ∧
    e'.buffer = e.buffer.backspace := by
  have hcursor := h.cursor
  unfold backspace
  by_cases hpos : e.cursor > 0
  · have hlt : e.cursor - 1 < e.value.length := by omega
    rw [if_pos hpos, remove_eq (List.getElem?_eq_getElem hlt)]
    exact ⟨_, rfl, h.erased hlt, rfl, SplitBuffer.split_backspace hpos hcursor⟩
  · rw [if_neg hpos]
    refine ⟨_, rfl, h, rfl, ?_⟩
    unfold EditState.buffer
    rw [Nat.eq_zero_of_not_pos hpos]
    exact SplitBuffer.backspace_start.symm

theorem typeText_spec (text : Option UInt8) (h : e.Sound) : ∃ r, typeText text e = .ok r ∧
    match text.filter fun byte => decide (0x20 ≤ byte ∧ byte ≤ 0x7e) with
    | none => r = none
    | some b => ∃ e', r = some e' ∧ e'.Sound ∧ e'.control = e.control ∧
      e'.buffer = e.buffer.insert textInputLimit b := by
  unfold typeText
  cases hfilter : text.filter fun byte => decide (0x20 ≤ byte ∧ byte ≤ 0x7e) with
  | none => exact ⟨none, rfl, rfl⟩
  | some b =>
    have hb := of_decide_eq_true (Option.filter_eq_some_iff.mp hfilter).2
    dsimp only
    by_cases hroom : e.value.length < textInputLimit
    · rw [if_pos hroom]
      unfold Checked.insert
      rw [if_pos h.cursor]
      exact ⟨_, rfl, _, rfl, h.inserted hb hroom, rfl, SplitBuffer.split_insert h.cursor hroom⟩
    · rw [if_neg hroom]
      exact ⟨_, rfl, e, rfl, h, rfl, (SplitBuffer.insert_full (Nat.not_lt.mp hroom)).symm⟩

/-- The keys that only move in a field when they are extended, and type or nothing otherwise. -/
def Moves (scan : UInt8) : Prop := scan = 0x4b ∨ scan = 0x4d ∨ scan = 0x47 ∨ scan = 0x4f ∨ scan = 0x53

theorem editNavigation_none (h : ¬Moves scan) : editNavigation scan e = .ok none := by
  unfold Moves at h
  push Not at h
  obtain ⟨h1, h2, h3, h4, h5⟩ := h
  unfold editNavigation
  rw [if_neg h1, if_neg h2, if_neg h3, if_neg h4, if_neg h5]

theorem editOp_plain (h : extended = true → ¬Moves scan) : editOp kind scan text extended =
    if scan = 0x0e then some .backspace
    else if scan = 0x1c then some (if kind = kindEdit then fun _ => .empty else id)
    else (text.filter fun byte => decide (0x20 ≤ byte ∧ byte ≤ 0x7e)).map fun byte => .insert textInputLimit byte := by
  unfold Moves at h
  unfold editOp
  rw [if_neg fun hc => h hc.1 (by simp [hc.2]), if_neg fun hc => h hc.1 (by simp [hc.2]),
    if_neg fun hc => h hc.1 (by simp [hc.2]), if_neg fun hc => h hc.1 (by simp [hc.2]),
    if_neg fun hc => h hc.1 (by simp [hc.2])]

theorem submission_none (h : scan ≠ 0x1c) (b : Buffer) : submission action scan b = none := if_neg fun hc => h hc.1

theorem submit_spec (action : Str) (kind : UInt8) (h : e.Sound) :
    (submit action kind e).2 = submission action 0x1c e.buffer ∧
    (submit action kind e).1.Sound ∧ (submit action kind e).1.control = e.control ∧
    (submit action kind e).1.buffer = (if kind = kindEdit then fun _ => .empty else id) e.buffer := by
  unfold submit submission EditState.buffer
  rw [SplitBuffer.text_split]
  refine ⟨?_, ?_⟩
  · cases action.isEmpty <;> rfl
  · by_cases hkind : kind = kindEdit
    · rw [if_pos hkind, if_pos hkind]
      exact ⟨.cleared, rfl, rfl⟩
    · rw [if_neg hkind, if_neg hkind]
      exact ⟨h, rfl, rfl⟩

/-- One key in one field: consumed exactly when the reference has an operation for it, and
then with its result. No access faults. -/
theorem editKey_spec (action : Str) (kind scan : UInt8) (text : Option UInt8) (extended : Bool) (h : e.Sound) : ∃ r,
    editKey action kind scan text extended e = .ok r ∧
    match editOp kind scan text extended with
    | none => r = none
    | some op => ∃ e', r = some (e', submission action scan e.buffer) ∧ e'.Sound ∧ e'.control = e.control ∧
        e'.buffer = op e.buffer := by
  -- an extended key that does not move falls through to the plain ones
  by_cases hmoves : extended = true ∧ Moves scan
  · obtain ⟨rfl, hscan⟩ := hmoves
    have hsubmit : submission action scan e.buffer = none := submission_none (by
      rintro rfl
      revert hscan
      unfold Moves
      decide) _
    obtain ⟨e', op, heq, hop, hsound, hcontrol, hbuffer⟩ := editNavigation_spec h hscan
    refine ⟨some (e', none), ?_, ?_⟩
    · unfold editKey
      rw [if_pos rfl, heq]
      rfl
    · rw [hop kind text, hsubmit]
      exact ⟨e', rfl, hsound, hcontrol, hbuffer⟩
  · have hplain : (if extended then editNavigation scan e else .ok none) = .ok none := by
      cases extended with
      | true => exact editNavigation_none fun hscan => hmoves ⟨rfl, hscan⟩
      | false => rfl
    rw [editOp_plain fun hext hscan => hmoves ⟨hext, hscan⟩]
    unfold editKey
    rw [hplain, ok_bind]
    dsimp only
    -- backspace, enter, then a printable byte
    by_cases hback : scan = 0x0e
    · obtain ⟨e', heq, hspec⟩ := backspace_spec h
      rw [if_pos hback, if_pos hback, heq, submission_none (by rw [hback]; decide)]
      exact ⟨_, rfl, e', rfl, hspec⟩
    · rw [if_neg hback, if_neg hback]
      by_cases henter : scan = 0x1c
      · rw [if_pos henter, if_pos henter]
        obtain ⟨hpayload, hspec⟩ := submit_spec action kind h
        subst henter
        refine ⟨_, rfl, (submit action kind e).1, ?_, hspec⟩
        rw [← hpayload]
      · obtain ⟨r, heq, hspec⟩ := typeText_spec text h
        rw [if_neg henter, if_neg henter, heq, ok_bind, submission_none henter]
        cases hfilter : text.filter fun byte => decide (0x20 ≤ byte ∧ byte ≤ 0x7e) with
        | none =>
          rw [hfilter] at hspec
          rw [hspec]
          exact ⟨_, rfl, rfl⟩
        | some b =>
          rw [hfilter] at hspec
          obtain ⟨e', rfl, hspec⟩ := hspec
          exact ⟨_, rfl, e', rfl, hspec⟩

/-! ## All fields -/

def editSnapshot (s : Compositor) (windowId : Str) (row : Nat) : List UInt8 × Nat :=
  (((s.editIndex windowId row).bind fun index => s.edits[index]?).map fun e => (e.value, e.cursor)).getD ([], 0)

def field (s : Compositor) (c : Control) : Buffer := .split (s.editSnapshot c.1 c.2).1 (s.editSnapshot c.1 c.2).2

structure FieldsSound (s : Compositor) : Prop where
  unique : Keyed.Distinct EditState.control s.edits
  sound : ∀ e ∈ s.edits, e.Sound

theorem editIndex_eq (windowId : Str) (row : Nat) :
    s.editIndex windowId row = s.edits.findIdx? fun e => e.control = (windowId, row) := by
  unfold editIndex
  refine congrArg (fun p => s.edits.findIdx? p) (funext fun e => decide_eq_decide.mpr ?_)
  exact (Prod.ext_iff (x := e.control) (y := (windowId, row))).symm

theorem field_eq (s : Compositor) (c : Control) :
    s.field c = ((s.edits.find? fun e => e.control = c).map EditState.buffer).getD .empty := by
  unfold field editSnapshot
  rw [editIndex_eq, ← List.find?_eq_bind_findIdx?_getElem?]
  cases s.edits.find? fun e => decide (e.control = (c.1, c.2)) with
  | none => exact SplitBuffer.split_nil
  | some e => rfl

theorem field_congr (h : t.edits = s.edits) : t.field = s.field := by
  funext c
  rw [field_eq, field_eq, h]

theorem FieldsSound.congr (h : s.FieldsSound) (he : t.edits = s.edits) : t.FieldsSound := ⟨he ▸ h.unique, he ▸ h.sound⟩

theorem ensureEditState_spec (h : s.FieldsSound) (windowId : Str) (row : Nat) : ∃ e : EditState,
    (s.ensureEditState windowId row).1.edits[(s.ensureEditState windowId row).2]? = some e ∧
      (s.ensureEditState windowId row).1.FieldsSound ∧ (s.ensureEditState windowId row).1.field = s.field ∧
      e.control = (windowId, row) ∧ e.buffer = s.field (windowId, row) := by
  have hget : ∀ t : Compositor, t.FieldsSound → t.field = s.field → ∀ (index : Nat) (e : EditState),
      t.edits[index]? = some e → e.control = (windowId, row) → e.buffer = s.field (windowId, row) := by
    intro t ht hfield index e he hcontrol
    rw [← hfield, field_eq, ← hcontrol, Keyed.find?_of_mem ht.unique (List.mem_of_getElem? he)]
    rfl
  unfold ensureEditState
  cases hfind : s.editIndex windowId row with
  | some index =>
    rw [editIndex_eq] at hfind
    obtain ⟨e, he, hcontrol⟩ := Keyed.findIdx?_spec hfind
    exact ⟨e, he, h, rfl, hcontrol, hget s h rfl index e he hcontrol⟩
  -- a new field is empty, as a missing one reads
  | none =>
    rw [editIndex_eq] at hfind
    have hnew : ∀ e ∈ s.edits, e.control ≠ (windowId, row) := fun e he =>
      of_decide_eq_false (List.findIdx?_eq_none_iff.mp hfind e he)
    have hlast : (s.edits ++ [⟨windowId, row, [], 0⟩])[s.edits.length]? = some ⟨windowId, row, [], 0⟩ :=
      List.getElem?_concat_length
    have hsound : FieldsSound { s with edits := s.edits ++ [⟨windowId, row, [], 0⟩] } := by
      refine ⟨?_, fun e he => ?_⟩
      · unfold Keyed.Distinct
        rw [List.map_append]
        refine List.nodup_append_comm.mpr (List.nodup_cons.mpr ⟨fun hin => ?_, h.unique⟩)
        obtain ⟨e, he, hcontrol⟩ := List.mem_map.mp hin
        exact hnew e he hcontrol
      · rcases List.mem_append.mp he with he | he
        · exact h.sound e he
        · rw [List.mem_singleton.mp he]
          exact ⟨fun _ hb => (nomatch hb), Nat.zero_le _, Nat.le_refl 0⟩
    have hfield : field { s with edits := s.edits ++ [⟨windowId, row, [], 0⟩] } = s.field := by
      funext c
      rw [field_eq, field_eq, List.find?_append]
      cases s.edits.find? fun e => decide (e.control = c) with
      | some e => rfl
      | none =>
        rw [Option.none_or, List.find?_cons]
        cases decide (EditState.control ⟨windowId, row, [], 0⟩ = c) with
        | true => rfl
        | false => rfl
    exact ⟨_, hlast, hsound, hfield, rfl, hget _ hsound hfield _ _ hlast rfl⟩

theorem setEdit_spec {e' : EditState} (h : s.FieldsSound) (he : s.edits[index]? = some e) (hsound : e'.Sound)
    (hcontrol : e'.control = e.control) : ∃ t, s.setEdit index e' = .ok t ∧ t.FieldsSound ∧
      t.field = Function.update s.field e.control e'.buffer := by
  have hlt : index < s.edits.length := (List.getElem?_eq_some_iff.mp he).1
  unfold setEdit
  rw [modify_eq _ hlt]
  refine ⟨_, rfl, ⟨?_, fun a ha => ?_⟩, funext fun c => ?_⟩
  · unfold Keyed.Distinct
    rw [Keyed.map_key_modify fun a ha => ?_]
    · exact h.unique
    · cases he.symm.trans ha
      exact hcontrol
  · rcases Keyed.mem_modify ha with hold | ⟨a, -, rfl⟩
    · exact h.sound a hold
    · exact hsound
  · rw [field_eq, Keyed.find?_modify h.unique he hcontrol]
    by_cases hc : e.control = c
    · rw [if_pos hc, ← hc, Function.update_self]
      rfl
    · rw [if_neg hc, Function.update_of_ne (Ne.symm hc), field_eq]

/-! ## The focused field -/

def focusedField (s : Compositor) : Option (Control × Row) := do
  let (id, index) ← s.focusedControl
  let w ← s.shown id
  let r ← w.rows[index]?
  if r.editable then some ((id, index), r) else none

theorem editableFocus_eq (s : Compositor) : s.editableFocus = s.focusedField.map Prod.fst := by
  unfold editableFocus focusedField
  cases s.focusedControl with
  | none => rfl
  | some c =>
    obtain ⟨id, i⟩ := c
    simp only [Option.bind_eq_bind, Option.bind_some]
    cases s.shown id with
    | none => rfl
    | some w =>
      simp only [Option.bind_some]
      cases w.rows[i]? with
      | none => rfl
      | some r =>
        simp only [Option.bind_some]
        split <;> rfl

/-- The window of the focus shares its id with no other. -/
def FocusUnique (s : Compositor) : Prop := ∀ c, s.focusedControl = some c → s.ids.count c.1 ≤ 1

theorem focusedField_row {r : Row} (hu : s.FocusUnique) (h : s.focusedField = some (c, r)) :
    ((s.windows.find? fun w => w.id = c.1).bind fun w => w.rows[c.2]?) = some r := by
  unfold focusedField at h
  obtain ⟨⟨id, i⟩, hcontrol, h⟩ := Option.bind_eq_some_iff.mp h
  obtain ⟨w, hw, h⟩ := Option.bind_eq_some_iff.mp h
  obtain ⟨r', hr, h⟩ := Option.bind_eq_some_iff.mp h
  split at h
  · cases h
    obtain ⟨hin, -, hid⟩ := shown_spec hw
    subst hid
    rw [Keyed.find?_of_count hin (hu _ hcontrol)]
    exact hr
  · cases h

/-- What an input does to the texts: an operation on one field, or dropping those of a window. -/
inductive Edit where
  | none
  | field (c : Control) (op : Buffer → Buffer)
  | drop (id : Str)

def Edit.apply : Edit → (Control → Buffer) → Control → Buffer
  | .none, fields => fields
  | .field c op, fields => Function.update fields c (op (fields c))
  | .drop id, fields => fun c => if c.1 = id then .empty else fields c

def keyEdit (s : Compositor) (scan : UInt8) (text : Option UInt8) (extended : Bool) : Edit :=
  match s.focusedField with
  | none => .none
  | some (c, r) =>
    match editOp r.kind scan text extended with
    | none => .none
    | some op => .field c op

def keySubmission (s : Compositor) (scan : UInt8) : Option Str :=
  s.focusedField.bind fun f => submission f.2.action scan (s.field f.1)

theorem handleEditKey_spec (hu : s.FocusUnique) (h : s.FieldsSound) (scan : UInt8) (text : Option UInt8)
    (extended : Bool) :
    ∃ r, s.handleEditKey scan text extended = .ok r ∧ r.1.FieldsSound ∧
      r.1.field = (s.keyEdit scan text extended).apply s.field ∧
      (r.2.1 = false → s.keyEdit scan text extended = .none) ∧
      (r.2.1 = true → r.2.2 = s.keySubmission scan) := by
  unfold handleEditKey keyEdit keySubmission
  rw [editableFocus_eq]
  cases hfield : s.focusedField with
  | none => exact ⟨_, rfl, h, rfl, fun _ => rfl, nofun⟩
  | some f =>
    obtain ⟨⟨windowId, row⟩, r⟩ := f
    have hrow := focusedField_row hu hfield
    obtain ⟨e, hget, hsound, hsame, hcontrol, hbuffer⟩ := ensureEditState_spec h windowId row
    obtain ⟨result, hkey, hspec⟩ := editKey_spec r.action r.kind scan text extended
      (hsound.sound e (List.mem_of_getElem? hget))
    rw [Option.map_some]
    dsimp only at hrow ⊢
    rw [hrow, get_eq hget, ok_bind]
    dsimp only [Option.map_some, Option.getD_some, Option.bind_some]
    rw [hkey, ok_bind]
    cases hop : editOp r.kind scan text extended with
    | none =>
      rw [hop] at hspec
      subst hspec
      exact ⟨_, rfl, hsound, hsame, fun _ => rfl, nofun⟩
    | some op =>
      rw [hop] at hspec
      obtain ⟨e', rfl, hsound', hcontrol', hbuffer'⟩ := hspec
      obtain ⟨t, ht, htsound, htfield⟩ := setEdit_spec hsound hget hsound' hcontrol'
      dsimp only
      rw [ht]
      refine ⟨_, rfl, htsound, ?_, nofun, fun _ => ?_⟩
      · rw [htfield, hcontrol, hsame, hbuffer', hbuffer]
        rfl
      · rw [← hbuffer]

end Compositor

end Pippin.Native
