import Pippin.Native.Painting
import Pippin.Native.TextFields

/-! The caret of a text field. A press and painting each find the part of the text that is
visible, from the width of the field; they do not take the same width off its frame. -/

namespace Pippin.Native
open Checked

/-! ## Painting a text field -/

/-- What is painted in a text field: its label as a constant first part or as a placeholder, the
visible characters of the text, one every 12 pixels from `valueX` on, and the caret. -/
structure FieldPaint where
  textX : Int
  textY : Int
  label : Bool
  valueX : Int
  start : Nat
  value : List UInt8
  caret : Option Rect
deriving DecidableEq, Repr

def labelWidth (r : Row) : Int := if r.kind = kindEdit then r.text.len * 12 else 0

def FieldPaint.cell (p : FieldPaint) (j : Nat) : Int := p.valueX + j * 6 * 2

namespace Compositor

variable {s t u : Compositor} {w : Window} {r : Row} {i j : Nat} {windowId : Str} {row : Nat} {localX width label : Int}

def paintField (s : Compositor) (w : Window) (r : Row) (index : Nat) (rect : Rect) : Checked FieldPaint := do
  let (x, y, width, height) := rect
  let (value, cursor) := s.editSnapshot w.id index
  let textX ← i32 (x + 14)
  let textY ← i32 (y + max ((← i32 (height - 14)).tdiv 2) 0)
  let label ← (if r.kind = kindEdit then i32 (r.text.len * 12) else pure 0)
  let valueX ← i32 (textX + label)
  let maxChars := asUsize ((max (← i32 ((← i32 (width - 32)) - label)) 12).tdiv 12)
  let start := editVisibleStart value.length cursor (max maxChars 1)
  let shown ← (if value.isEmpty then pure [] else slice value start (min (start + maxChars) value.length))
  let caret ← (if s.focusedControl = some (w.id, index) ∧ ¬r.disabled then do
      let x ← i32 (valueX + (← i32 (min (cursor - start) maxChars * 12)))
      return some (x, ← i32 (y + 8), 2, max (← i32 (height - 16)) 10)
    else pure none)
  return { textX, textY, label := r.kind = kindEdit || value.isEmpty, valueX, start, value := shown, caret }

theorem editVisibleStart_le (length cursor maxChars : Nat) : editVisibleStart length cursor maxChars ≤ length := by
  unfold editVisibleStart
  split_ifs <;> omega

theorem editVisibleStart_lt {length maxChars : Nat} (hlength : 0 < length) (h : 1 ≤ maxChars) (cursor : Nat) :
    editVisibleStart length cursor maxChars < length := by
  unfold editVisibleStart
  split_ifs <;> omega

theorem shownText_eq (value : List UInt8) (cursor maxChars room : Nat) : (if value.isEmpty then pure []
    else slice value (editVisibleStart value.length cursor room)
      (min (editVisibleStart value.length cursor room + maxChars) value.length) : Checked (List UInt8)) =
    .ok ((value.take (editVisibleStart value.length cursor room + maxChars)).drop
      (editVisibleStart value.length cursor room)) := by
  cases value with
  | nil =>
    rw [List.take_nil, List.drop_nil]
    rfl
  | cons b value =>
    have hstart := editVisibleStart_le (b :: value).length cursor room
    rw [if_neg (by simp), slice_eq (Nat.le_min.mpr ⟨Nat.le_add_right _ _, hstart⟩) (Nat.min_le_right _ _),
      ← List.take_eq_take_min]

theorem onlyOverflows_label : OnlyOverflows (if r.kind = kindEdit then i32 (r.text.len * 12) else pure 0) := by
  split
  · exact onlyOverflows_i32 _
  · exact onlyOverflows_ok 0

theorem paintField_onlyOverflows (w : Window) (r : Row) (index : Nat) (rect : Rect) :
    OnlyOverflows (s.paintField w r index rect) := by
  unfold paintField
  refine (onlyOverflows_i32 _).bind fun _ _ => (onlyOverflows_i32 _).bind fun _ _ => ?_
  refine (onlyOverflows_i32 _).bind fun _ _ => onlyOverflows_label.bind fun _ _ => ?_
  refine (onlyOverflows_i32 _).bind fun _ _ => (onlyOverflows_i32 _).bind fun _ _ =>
    (onlyOverflows_i32 _).bind fun _ _ => ?_
  refine OnlyOverflows.bind ?_ fun _ _ => OnlyOverflows.bind ?_ fun _ _ => onlyOverflows_ok _
  · rw [shownText_eq]
    exact onlyOverflows_ok _
  · split
    · refine (onlyOverflows_i32 _).bind fun _ _ => (onlyOverflows_i32 _).bind fun _ _ => ?_
      exact (onlyOverflows_i32 _).bind fun _ _ => (onlyOverflows_i32 _).bind fun _ _ => onlyOverflows_ok _
    · exact onlyOverflows_ok _

/-! ## Pressing in a text field -/

theorem ensureEditState_snapshot (windowId : Str) (row : Nat) : ∃ e,
    (s.ensureEditState windowId row).1.edits[(s.ensureEditState windowId row).2]? = some e ∧
      (s.ensureEditState windowId row).1.editIndex windowId row = some (s.ensureEditState windowId row).2 ∧
      e.control = (windowId, row) ∧ (e.value, e.cursor) = s.editSnapshot windowId row := by
  unfold ensureEditState editSnapshot
  cases hfind : s.editIndex windowId row with
  | some index =>
    have hspec := hfind
    rw [editIndex_eq] at hspec
    obtain ⟨e, he, hcontrol⟩ := Keyed.findIdx?_spec hspec
    dsimp only
    rw [Option.bind_some, he]
    exact ⟨e, rfl, hfind, hcontrol, rfl⟩
  | none =>
    refine ⟨_, List.getElem?_concat_length, ?_, rfl, rfl⟩
    rw [editIndex_eq] at hfind ⊢
    rw [List.findIdx?_append, hfind, Option.none_or, List.findIdx?_singleton, if_pos (decide_eq_true (by rfl)),
      Option.map_some, Nat.zero_add]

def pressChars (width label : Int) : Nat := asUsize ((max (width - 28 - label) 12).tdiv 12)

def paintChars (width label : Int) : Nat := asUsize ((max (width - 32 - label) 12).tdiv 12)

def pressCaret (length cursor : Nat) (localX width label : Int) : Nat :=
  min (editVisibleStart length cursor (max (pressChars width label) 1) +
    asUsize ((max (localX - 14 - label) 0).tdiv 12)) length

theorem placeEditCursor_eq (s : Compositor) (windowId : Str) (row : Nat)
    (hwidth : IsI32 (width - 28) ∧ IsI32 (width - 28 - label))
    (hx : IsI32 (localX - 14) ∧ IsI32 (localX - 14 - label)) : ∃ e,
    (s.ensureEditState windowId row).1.edits[(s.ensureEditState windowId row).2]? = some e ∧
      s.placeEditCursor windowId row localX width label = (s.ensureEditState windowId row).1.setEdit
        (s.ensureEditState windowId row).2
        { e with cursor := pressCaret e.value.length e.cursor localX width label } := by
  obtain ⟨e, he, -⟩ := ensureEditState_snapshot (s := s) windowId row
  refine ⟨e, he, ?_⟩
  unfold placeEditCursor
  dsimp only
  rw [i32_eq hwidth.1.1 hwidth.1.2, ok_bind, i32_eq hwidth.2.1 hwidth.2.2, ok_bind, get_eq he, ok_bind,
    i32_eq hx.1.1 hx.1.2, ok_bind, i32_eq hx.2.1 hx.2.2, ok_bind]
  rfl

theorem placeEditCursor_of_ok (h : s.placeEditCursor windowId row localX width label = .ok t) :
    ∃ e, (s.ensureEditState windowId row).1.edits[(s.ensureEditState windowId row).2]? = some e ∧
      (s.ensureEditState windowId row).1.setEdit (s.ensureEditState windowId row).2
        { e with cursor := pressCaret e.value.length e.cursor localX width label } = .ok t := by
  have hword : (IsI32 (width - 28) ∧ IsI32 (width - 28 - label)) ∧ IsI32 (localX - 14) ∧
    IsI32 (localX - 14 - label) := by
    have h := h
    unfold placeEditCursor at h
    obtain ⟨v₁, h₁, h⟩ := bind_eq_ok h
    obtain ⟨rfl, hl₁, hu₁⟩ := i32_of_ok h₁
    obtain ⟨v₂, h₂, h⟩ := bind_eq_ok h
    obtain ⟨rfl, hl₂, hu₂⟩ := i32_of_ok h₂
    obtain ⟨_, -, h⟩ := bind_eq_ok h
    obtain ⟨v₃, h₃, h⟩ := bind_eq_ok h
    obtain ⟨rfl, hl₃, hu₃⟩ := i32_of_ok h₃
    obtain ⟨v₄, h₄, h⟩ := bind_eq_ok h
    obtain ⟨rfl, hl₄, hu₄⟩ := i32_of_ok h₄
    exact ⟨⟨⟨hl₁, hu₁⟩, hl₂, hu₂⟩, ⟨hl₃, hu₃⟩, hl₄, hu₄⟩
  obtain ⟨e, he, heq⟩ := placeEditCursor_eq s windowId row hword.1 hword.2
  exact ⟨e, he, heq ▸ h⟩

theorem placeEditCursor_onlyOverflows (windowId : Str) (row : Nat) (localX width label : Int) :
    OnlyOverflows (s.placeEditCursor windowId row localX width label) := by
  obtain ⟨e, he, -⟩ := ensureEditState_get (s := s) windowId row
  unfold placeEditCursor
  dsimp only
  rw [get_eq he]
  refine (onlyOverflows_i32 _).bind fun _ _ => (onlyOverflows_i32 _).bind fun _ _ =>
    (onlyOverflows_ok e).bind fun _ _ =>
    (onlyOverflows_i32 _).bind fun _ _ => (onlyOverflows_i32 _).bind fun _ _ => ?_
  unfold setEdit
  rw [modify_eq _ (List.getElem?_eq_some_iff.mp he).1]
  exact onlyOverflows_ok _

def pressOp (localX width label : Int) (b : Buffer) : Buffer :=
  b.place (pressCaret b.length b.left.length localX width label)

theorem placeEditCursor_spec (h : s.FieldsSound) (windowId : Str) (row : Nat) (localX width label : Int) :
    Ensures (s.placeEditCursor windowId row localX width label) fun t => t.FieldsSound ∧
      t.field = Function.update s.field (windowId, row) (pressOp localX width label (s.field (windowId, row))) := by
  intro t ht
  obtain ⟨e, he, hset⟩ := placeEditCursor_of_ok ht
  obtain ⟨e', he', hsound, hfield, hcontrol, hbuffer⟩ := ensureEditState_spec h windowId row
  cases he.symm.trans he'
  have hold := hsound.sound e (List.mem_of_getElem? he)
  have hmoved : EditState.Sound { e with cursor := pressCaret e.value.length e.cursor localX width label } :=
    hold.moved (Nat.min_le_right _ _)
  obtain ⟨t', ht', htsound, htfield⟩ := setEdit_spec hsound he hmoved rfl
  cases hset.symm.trans ht'
  refine ⟨htsound, ?_⟩
  rw [htfield, hcontrol, hfield, ← hbuffer]
  refine congrArg (Function.update s.field (windowId, row)) ?_
  unfold pressOp EditState.buffer
  rw [SplitBuffer.length_split, SplitBuffer.left_length_split hold.cursor]
  exact SplitBuffer.split_place

/-! ## Both on one row -/

theorem setEdit_snapshot {e e' : EditState} {index : Nat} (he : s.edits[index]? = some e)
    (hindex : s.editIndex windowId row = some index) (hcontrol : e'.control = e.control) : ∃ t,
    s.setEdit index e' = .ok t ∧ t.editSnapshot windowId row = (e'.value, e'.cursor) := by
  have hlt : index < s.edits.length := (List.getElem?_eq_some_iff.mp he).1
  have hkeys : (s.edits.modify index fun _ => e').map EditState.control = s.edits.map EditState.control :=
    Keyed.map_key_modify fun a ha => by
      cases he.symm.trans ha
      exact hcontrol
  have hsame : ∀ l : List EditState, (l.findIdx? fun e => decide (e.control = (windowId, row))) =
      (l.map EditState.control).findIdx? fun c => decide (c = (windowId, row)) := fun l => by
    rw [List.findIdx?_map]
    rfl
  unfold setEdit
  rw [modify_eq _ hlt]
  refine ⟨_, rfl, ?_⟩
  rw [editIndex_eq, hsame] at hindex
  unfold editSnapshot
  rw [editIndex_eq, hsame]
  dsimp only
  rw [hkeys, hindex, Option.bind_some, List.getElem?_modify_eq, he]
  rfl

theorem filteredFrame_editable (hedit : r.editable = true) : s.filteredFrame w i r = .ok r.frame := by
  have hstructural : r.structural = true := by
    unfold Row.editable at hedit
    unfold Row.structural
    simp only [Bool.and_eq_true, Bool.or_eq_true] at hedit
    rcases hedit.1.1 with hkind | hkind <;> rw [hkind] <;> simp
  unfold filteredFrame
  rw [hstructural, Bool.or_true, Bool.true_or, Bool.true_or, if_pos rfl]
  rfl

theorem asUsize_eq {v : Int} (h : 0 ≤ v) (hv : v < 2 ^ 31) : asUsize v = v.toNat := by
  unfold asUsize
  omega

theorem chars_cases (width label : Int) (h : width - 28 - label < 2 ^ 31) : 1 ≤ paintChars width label ∧
    (paintChars width label : Int) * 12 ≤ max (width - 32 - label) 12 ∧
    (pressChars width label = paintChars width label ∨
      pressChars width label = paintChars width label + 1 ∧ 24 ≤ width - 28 - label) := by
  unfold paintChars pressChars
  rw [Int.tdiv_eq_ediv_of_nonneg (by omega), Int.tdiv_eq_ediv_of_nonneg (by omega), asUsize_eq (by omega) (by omega),
    asUsize_eq (by omega) (by omega)]
  omega

theorem starts_agree {length cursor n m : Nat} (hn : 1 ≤ n) (hm : m = n ∨ m = n + 1) :
    editVisibleStart length cursor m = editVisibleStart length cursor n ↔ n = m ∨ length ≤ n ∨ cursor < n := by
  unfold editVisibleStart
  split_ifs <;> omega

theorem paintField_of_ok {rect : Rect} {p : FieldPaint} (h : s.paintField w r i rect = .ok p) :
    p.valueX = rect.1 + 14 + labelWidth r ∧ IsI32 (labelWidth r) ∧ IsI32 (rect.2.2.1 - 32 - labelWidth r) ∧
      p.start = editVisibleStart (s.editSnapshot w.id i).1.length (s.editSnapshot w.id i).2
        (max (paintChars rect.2.2.1 (labelWidth r)) 1) ∧
      p.value = ((s.editSnapshot w.id i).1.take (p.start + paintChars rect.2.2.1 (labelWidth r))).drop p.start ∧
      ∀ caret, p.caret = some caret → caret.1 = p.valueX +
        (min ((s.editSnapshot w.id i).2 - p.start) (paintChars rect.2.2.1 (labelWidth r)) : Nat) * 12 := by
  unfold paintField at h
  dsimp only at h
  obtain ⟨textX, htext, h⟩ := bind_eq_ok h
  obtain ⟨rfl, -⟩ := i32_of_ok htext
  obtain ⟨_, -, h⟩ := bind_eq_ok h
  obtain ⟨_, -, h⟩ := bind_eq_ok h
  obtain ⟨label, hlabel, h⟩ := bind_eq_ok h
  have hlabel : label = labelWidth r ∧ IsI32 (labelWidth r) := by
    unfold labelWidth
    split at hlabel
    · rename_i hkind
      obtain ⟨rfl, hl, hu⟩ := i32_of_ok hlabel
      rw [if_pos hkind]
      exact ⟨rfl, hl, hu⟩
    · rename_i hkind
      cases hlabel
      rw [if_neg hkind]
      exact ⟨rfl, by decide, by decide⟩
  obtain ⟨rfl, hword⟩ := hlabel
  obtain ⟨valueX, hvalue, h⟩ := bind_eq_ok h
  obtain ⟨rfl, -⟩ := i32_of_ok hvalue
  obtain ⟨v, hv, h⟩ := bind_eq_ok h
  obtain ⟨rfl, -⟩ := i32_of_ok hv
  obtain ⟨v, hv, h⟩ := bind_eq_ok h
  obtain ⟨rfl, hlo, hhi⟩ := i32_of_ok hv
  rw [shownText_eq, ok_bind] at h
  obtain ⟨caret, hcaret, h⟩ := bind_eq_ok h
  cases h
  refine ⟨rfl, hword, ⟨hlo, hhi⟩, rfl, rfl, fun frame hframe => ?_⟩
  -- the caret is painted of a focused row only
  split at hcaret
  · obtain ⟨v, hv, hcaret⟩ := bind_eq_ok hcaret
    obtain ⟨rfl, -⟩ := i32_of_ok hv
    obtain ⟨v, hv, hcaret⟩ := bind_eq_ok hcaret
    obtain ⟨rfl, -⟩ := i32_of_ok hv
    obtain ⟨_, -, hcaret⟩ := bind_eq_ok hcaret
    obtain ⟨_, -, hcaret⟩ := bind_eq_ok hcaret
    cases hcaret
    cases hframe
    rfl
  · cases hcaret
    cases hframe

theorem paintRow_editable {clip : ClipRect} {rect : Rect} (hedit : r.editable = true) (hlaid : r.laidOut = true)
    (h : s.paintRow w clip (r, i) = .ok (some rect)) : rect.1 = w.x + r.x ∧ rect.2.2.1 = r.width := by
  unfold paintRow at h
  split at h
  · cases h
  · unfold layoutFrame at h
    dsimp only at h
    rw [if_pos hlaid, filteredFrame_editable hedit, ok_bind] at h
    obtain ⟨x, hx, h⟩ := bind_eq_ok h
    obtain ⟨rfl, -⟩ := i32_of_ok hx
    obtain ⟨_, -, h⟩ := bind_eq_ok h
    obtain ⟨_, -, h⟩ := bind_eq_ok h
    obtain ⟨_, -, h⟩ := bind_eq_ok h
    split at h
    · cases h
    · cases h
      exact ⟨rfl, rfl⟩

theorem focusRow_editable (hr : w.rows[i]? = some r) (hedit : r.editable = true) (hfocus : r.focusable = true)
    (hwidth : IsI32 (r.width - 28) ∧ IsI32 (r.width - 28 - labelWidth r)) (hlabel : IsI32 (labelWidth r))
    (hx : IsI32 (localX - r.x)) (hx' : IsI32 (localX - r.x - 14) ∧ IsI32 (localX - r.x - 14 - labelWidth r)) :
    ∃ t, s.focusRow w localX (some i) true = .ok t ∧ t.editSnapshot w.id i = ((s.editSnapshot w.id i).1,
      pressCaret (s.editSnapshot w.id i).1.length (s.editSnapshot w.id i).2 (localX - r.x) r.width (labelWidth r)) := by
  have hdisabled : r.disabled = false := by
    unfold Row.editable at hedit
    simp only [Bool.and_eq_true, Bool.not_eq_true'] at hedit
    exact hedit.1.2
  have hwidth' : (if r.kind = kindEdit then i32 (r.text.len * 12) else pure 0) =
    (.ok (labelWidth r) : Checked Int) := by
    unfold labelWidth at hlabel ⊢
    split
    · rename_i hkind
      rw [if_pos hkind] at hlabel
      exact i32_eq hlabel.1 hlabel.2
    · rfl
  let u : Compositor := { s with focusedControl := some (w.id, i) }
  obtain ⟨e, he, hindex, hcontrol, hsnapshot⟩ := ensureEditState_snapshot (s := u) w.id i
  obtain ⟨e', he', heq⟩ := placeEditCursor_eq u w.id i hwidth hx'
  cases he.symm.trans he'
  let moved : EditState := { e with cursor := pressCaret e.value.length e.cursor (localX - r.x) r.width (labelWidth r) }
  have hmoved : moved.control = e.control := rfl
  obtain ⟨t, ht, hspec⟩ := setEdit_snapshot he hindex hmoved
  have hsnapshot : (e.value, e.cursor) = s.editSnapshot w.id i := hsnapshot
  refine ⟨t, ?_, ?_⟩
  · unfold focusRow
    simp only [Bool.not_true, Bool.false_eq_true, if_false, Option.bind_some, hr, Option.map_some, hdisabled, hfocus,
      Bool.or_self, hedit, if_true]
    unfold editPress
    rw [filteredFrame_editable hedit, ok_bind, hwidth', ok_bind]
    unfold Row.frame
    dsimp only
    rw [i32_eq hx.1 hx.2, ok_bind]
    exact heq.trans ht
  · rw [hspec, ← hsnapshot]

/-- A press in any cell that is painted puts the caret in front of its character. -/
def CaretFollows (s u : Compositor) (w : Window) (r : Row) (i : Nat) (p : FieldPaint) : Prop :=
  ∀ j localX, j < p.value.length → p.cell j ≤ w.x + localX → w.x + localX < p.cell j + 12 → IsI32 (localX - r.x) →
    ∃ t, u.focusRow w localX (some i) true = .ok t ∧ t.editSnapshot w.id i = ((s.editSnapshot w.id i).1, p.start + j)

/-- The four pixels between the widths make no column, the text fits, or the caret is within the
columns that are painted. -/
def ColumnsAgree (s : Compositor) (w : Window) (r : Row) (i : Nat) : Prop :=
  paintChars r.width (labelWidth r) = pressChars r.width (labelWidth r) ∨
    (s.editSnapshot w.id i).1.length ≤ paintChars r.width (labelWidth r) ∨
    (s.editSnapshot w.id i).2 < paintChars r.width (labelWidth r)

/-- The two agree on a row that is laid out and takes the focus just when their columns do. -/
theorem caretFollows_iff {clip : ClipRect} {rect : Rect} {p : FieldPaint} (hr : w.rows[i]? = some r)
    (hedit : r.editable = true) (hlaid : r.laidOut = true) (hfocus : r.focusable = true) (hword : r.width < 2 ^ 31)
    (hrow : s.paintRow w clip (r, i) = .ok (some rect)) (hp : s.paintField w r i rect = .ok p)
    (hu : u.edits = s.edits) :
    CaretFollows s u w r i p ↔ s.ColumnsAgree w r i := by
  unfold CaretFollows ColumnsAgree
  obtain ⟨hx, hwidth⟩ := paintRow_editable hedit hlaid hrow
  obtain ⟨hvalueX, hlabel, hroom, hstart, hvalue, -⟩ := paintField_of_ok hp
  have hsnapshot : u.editSnapshot w.id i = s.editSnapshot w.id i := by
    unfold editSnapshot editIndex
    rw [hu]
  have hnonneg : 0 ≤ labelWidth r := by
    unfold labelWidth
    split <;> omega
  have hpos : 0 < r.width := by
    unfold Row.laidOut at hlaid
    simp only [Bool.and_eq_true, decide_eq_true_eq] at hlaid
    exact hlaid.1
  rw [hwidth] at hroom hstart hvalue
  obtain ⟨hone, hfits, hcases⟩ := chars_cases r.width (labelWidth r) (by omega)
  generalize hn : paintChars r.width (labelWidth r) = n at *
  generalize hm : pressChars r.width (labelWidth r) = m at *
  rw [Nat.max_eq_left hone] at hstart
  have hlength : p.value.length = min (p.start + n) (s.editSnapshot w.id i).1.length - p.start := by
    rw [hvalue, List.length_drop, List.length_take]
  have hle := editVisibleStart_le (s.editSnapshot w.id i).1.length (s.editSnapshot w.id i).2 n
  -- a press in a cell that is painted finds the column of that cell
  have press : ∀ j localX, j < p.value.length → p.cell j ≤ w.x + localX → w.x + localX < p.cell j + 12 →
      IsI32 (localX - r.x) → ∃ t, u.focusRow w localX (some i) true = .ok t ∧ t.editSnapshot w.id i =
        ((s.editSnapshot w.id i).1,
          min (editVisibleStart (s.editSnapshot w.id i).1.length (s.editSnapshot w.id i).2 m + j)
            (s.editSnapshot w.id i).1.length) := by
    intro j localX hj hleft hright hlocal
    have hcolumn : localX - r.x - 14 - labelWidth r - j * 12 = w.x + localX - p.cell j := by
      unfold FieldPaint.cell
      omega
    have hjn : j < n := by omega
    obtain ⟨hlabelLo, hlabelHi⟩ := hlabel
    obtain ⟨hlocalLo, hlocalHi⟩ := hlocal
    obtain ⟨hroomLo, hroomHi⟩ := hroom
    obtain ⟨t, ht, hspec⟩ := focusRow_editable (s := u) hr hedit hfocus ⟨⟨by omega, by omega⟩, by omega, by omega⟩
      ⟨hlabelLo, hlabelHi⟩ ⟨hlocalLo, hlocalHi⟩ ⟨⟨by omega, by omega⟩, by omega, by omega⟩
    have hdiv : asUsize ((max (localX - r.x - 14 - labelWidth r) 0).tdiv 12) = j := by
      rw [Int.tdiv_eq_ediv_of_nonneg (by omega), asUsize_eq (by omega) (by omega)]
      omega
    refine ⟨t, ht, ?_⟩
    rw [hspec, hsnapshot]
    unfold pressCaret
    rw [hdiv, hm, Nat.max_eq_left (by omega)]
  -- so the columns agree exactly when painting and pressing scroll the text alike
  rw [← starts_agree (m := m) hone (by omega), ← hstart]
  refine ⟨fun h => ?_, fun hsame j localX hj hleft hright hlocal => ?_⟩
  · by_cases hcolumns : m = n
    · rw [hcolumns, hstart]
    · rcases Nat.eq_zero_or_pos p.value.length with hnone | hsome
      · -- nothing is painted of an empty text only
        have hempty : (s.editSnapshot w.id i).1.length = 0 := by
          by_contra hsome
          have hlt := editVisibleStart_lt (Nat.pos_of_ne_zero hsome) hone (s.editSnapshot w.id i).2
          omega
        rw [hempty] at hstart ⊢
        unfold editVisibleStart at hstart ⊢
        rw [hstart, if_pos (Nat.zero_le _), if_pos (Nat.zero_le _)]
      · have hcell : p.cell 0 = p.valueX := by
          unfold FieldPaint.cell
          omega
        have hwide : 24 ≤ r.width - 28 - labelWidth r := by omega
        have hlocal : IsI32 (p.cell 0 - w.x - r.x) := by
          unfold IsI32
          omega
        -- the first cell already tells: its press gives one caret, which both sides must name
        obtain ⟨t, ht, hcaret⟩ := h 0 (p.cell 0 - w.x) hsome (by omega) (by omega) hlocal
        obtain ⟨t', ht', hcaret'⟩ := press 0 (p.cell 0 - w.x) hsome (by omega) (by omega) hlocal
        cases ht.symm.trans ht'
        have heq := congrArg Prod.snd (hcaret.symm.trans hcaret')
        dsimp only at heq
        have hle' := editVisibleStart_le (s.editSnapshot w.id i).1.length (s.editSnapshot w.id i).2 m
        omega
  · obtain ⟨t, ht, hcaret⟩ := press j localX hj hleft hright hlocal
    refine ⟨t, ht, ?_⟩
    rw [hcaret, hsame, Nat.min_eq_left (by omega)]

end Compositor

end Pippin.Native
