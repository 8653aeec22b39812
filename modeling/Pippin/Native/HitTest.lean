import Pippin.Native.Surfaces

/-! Pressing and hovering. A press looks for its row again, after the window has been taken
off the stack and without the content clip; both tests are compared here. -/

namespace Pippin.Native
open Checked

variable {s t : Compositor} {w : Window} {index i : Nat} {r : Row} {x y localX localY : Int}

/-- A laid-out row whose own frame holds a point of the content. -/
structure Window.RowHit (w : Window) (localX localY : Int) (i : Nat) (r : Row) : Prop where
  row : w.rows[i]? = some r
  laidOut : r.laidOut = true
  within : within localX localY r.frame = .ok true

namespace Compositor

def UnderPointer (s : Compositor) (w : Window) : Prop :=
  ∃ index, s.topAt s.cursorX s.cursorY = .ok (some index) ∧ s.windows[index]? = some w

/-- Where the search has a row, it shows it under the point. -/
def ShownAt (s : Compositor) (w : Window) (localX localY : Int) (i : Nat) (r : Row) : Prop :=
  s.rowMatchesSearch w r = true ∧ (s.filteredFrame w i r >>= within localX localY) = .ok true

/-- The press leaves the focus on the control that is hovered, and gives it to no other. -/
def FocusAgrees (s t : Compositor) : Prop := ∀ c, s.controlAt s.cursorX s.cursorY = .ok c →
  (∀ w i r, s.UnderPointer w → c = some (w.id, i) → w.rows[i]? = some r → r.focusable = true →
    t.focusedControl = some (w.id, i)) ∧
  (c = none → t.focusedControl = none ∨ t.focusedControl = s.focusedControl)

/-- The search neither hides nor moves a row under the pointer, and the first row there is an
enabled control inside the content clip, or no row there takes the focus. -/
structure Aligned (s : Compositor) (w : Window) (localX localY : Int) : Prop where
  layout : w.rows.any Row.laidOut = true ∨ ∀ r ∈ w.rows, r.focusable = true → r.disabled = true
  search : ∀ i r, w.rows[i]? = some r → r.laidOut = true →
    (s.ShownAt w localX localY i r ↔ within localX localY r.frame = .ok true)
  clip : (∃ clip, w.contentClip = .ok clip ∧ clip.contains s.cursorX s.cursorY = true ∧
      ∃ i r, w.RowHit localX localY i r ∧ (∀ j < i, ∀ r', ¬w.RowHit localX localY j r') ∧
        r.action.isEmpty = false ∧ r.disabled = false) ∨
    ∀ i r, w.RowHit localX localY i r → r.focusable = true → r.disabled = true

theorem getElem?_zipIdx {rows : List Row} {p : Row × Nat} (h : rows.zipIdx[i]? = some p) :
    p.2 = i ∧ rows[i]? = some p.1 := by
  rw [List.getElem?_zipIdx] at h
  obtain ⟨r, hr, rfl⟩ := Option.map_eq_some_iff.mp h
  exact ⟨Nat.zero_add i, hr⟩

theorem zipIdx_getElem? {rows : List Row} (h : rows[i]? = some r) : rows.zipIdx[i]? = some (r, i) := by
  rw [List.getElem?_zipIdx, h, Nat.zero_add]
  rfl

/-! ## The hover test -/

theorem controlUnder_iff (s : Compositor) (w : Window) (localX localY : Int) (i : Nat) (r : Row) :
    s.controlUnder w localX localY (r, i) = .ok true ↔
      r.laidOut = true ∧ r.action.isEmpty = false ∧ r.disabled = false ∧ s.ShownAt w localX localY i r := by
  unfold controlUnder ShownAt
  dsimp only
  split
  · rename_i h
    simp only [Bool.or_eq_true, Bool.not_eq_true'] at h
    constructor
    · intro h'
      cases h'
    · rintro ⟨h1, h2, h3, h4, -⟩
      simp [h1, h2, h3, h4] at h
  · rename_i h
    simp only [Bool.or_eq_true, Bool.not_eq_true', not_or, Bool.not_eq_false, Bool.not_eq_true] at h
    obtain ⟨⟨⟨h1, h2⟩, h3⟩, h4⟩ := h
    simp [h1, h2, h3, h4]

theorem controlAt_cases {c : Option Control} (h : s.controlAt x y = .ok c) :
    (s.topAt x y = .ok none ∧ c = none) ∨
    ∃ index w clip, s.topAt x y = .ok (some index) ∧ s.windows[index]? = some w ∧ w.contentClip = .ok clip ∧
      ((clip.contains x y = false ∧ c = none) ∨
        (clip.contains x y = true ∧ ∃ localX localY row, i32 (x - w.x) = .ok localX ∧
          w.localContentY y = .ok localY ∧ position (s.controlUnder w localX localY) w.rows.zipIdx = .ok row ∧
          c = row.map fun i => (w.id, i))) := by
  obtain ⟨top, htop, h⟩ := bind_eq_ok h
  cases top with
  | none =>
    cases h
    exact Or.inl ⟨htop, rfl⟩
  | some index =>
    obtain ⟨w, hw, h⟩ := bind_eq_ok h
    obtain ⟨clip, hclip, h⟩ := bind_eq_ok h
    refine Or.inr ⟨index, w, clip, htop, get_of_ok hw, hclip, ?_⟩
    cases hin : clip.contains x y with
    | false =>
      rw [hin] at h
      cases h
      exact Or.inl ⟨rfl, rfl⟩
    | true =>
      rw [hin] at h
      obtain ⟨localX, hx, h⟩ := bind_eq_ok h
      obtain ⟨localY, hy, h⟩ := bind_eq_ok h
      obtain ⟨row, hrow, h⟩ := bind_eq_ok h
      cases h
      exact Or.inr ⟨rfl, localX, localY, row, hx, hy, hrow, rfl⟩

/-! ## The press -/

theorem searchQuery_removed (hw : w.id ∉ s.ids) : s.searchQuery w.id = none := by
  unfold searchQuery
  have hfind : s.windows.find? (fun v => v.id = w.id) = none := by
    rw [List.find?_eq_none]
    intro v hv
    simpa using fun he => hw (List.mem_map.mpr ⟨v, hv, he⟩)
  rw [hfind]
  rfl

theorem rowMatchesSearch_removed (hw : searches w.id = true → w.id ∉ s.ids) : s.rowMatchesSearch w r = true := by
  unfold rowMatchesSearch
  split
  · rfl
  · rename_i h
    simp only [Bool.or_eq_true, Bool.not_eq_true', not_or, Bool.not_eq_false] at h
    rw [searchQuery_removed (hw h.1.1)]

theorem filteredFrame_removed (hw : searches w.id = true → w.id ∉ s.ids) :
    s.filteredFrame w i r = .ok r.frame := by
  unfold filteredFrame
  rw [if_pos]
  · rfl
  · by_cases h : searches w.id = true
    · rw [searchQuery_removed (hw h)]
      simp
    · simp [h]

theorem rowUnder_removed (hw : searches w.id = true → w.id ∉ s.ids) :
    s.rowUnder w localX localY (r, i) = if r.laidOut then within localX localY r.frame else .ok false := by
  unfold rowUnder
  rw [rowMatchesSearch_removed hw, filteredFrame_removed hw]
  cases r.laidOut <;> rfl

theorem Single.removed {rest : List Window} (h : s.Single) (hr : remove s.windows index = .ok (w, rest))
    (ht : t.windows = rest) (hid : searches w.id = true) : w.id ∉ t.ids := by
  have hperm := ((remove_perm hr).map Window.id).count_eq w.id
  rw [List.map_cons, List.count_cons_self] at hperm
  have h1 : s.ids.count w.id ≤ 1 := h _ hid
  unfold ids at h1 ⊢
  rw [ht]
  exact List.count_eq_zero.mp (by omega)

theorem setFocusScope_focused (scope : FocusScope) :
    (s.setFocusScope scope).focusedControl = none ∨ (s.setFocusScope scope).focusedControl = s.focusedControl := by
  unfold setFocusScope
  split
  · exact Or.inl rfl
  · exact Or.inr rfl

theorem placeEditCursor_focused (windowId : Str) (row : Nat) (localX width labelWidth : Int) :
    Ensures (s.placeEditCursor windowId row localX width labelWidth) fun t =>
      t.focusedControl = s.focusedControl := by
  have hs : (s.ensureEditState windowId row).1.focusedControl = s.focusedControl := by
    unfold ensureEditState
    split <;> rfl
  unfold placeEditCursor
  dsimp only
  refine ensures_bind fun _ _ => ensures_bind fun _ _ => ensures_bind fun _ _ => ensures_bind fun _ _ => ?_
  exact ensures_bind fun _ _ => ensures_bind fun _ _ => ensures_ok hs

theorem focusRow_focused {row : Option Nat} {inRows : Bool} (h : s.focusRow w localX row inRows = .ok t) :
    (t.focusedControl = none ∧ (inRows = true → ∃ i r, row = some i ∧ w.rows[i]? = some r ∧
      (r.disabled = true ∨ r.focusable = false))) ∨
    (t.focusedControl = s.focusedControl ∧ ∀ i r, row = some i → w.rows[i]? ≠ some r) ∨
    ∃ i r, inRows = true ∧ row = some i ∧ w.rows[i]? = some r ∧ r.disabled = false ∧ r.focusable = true ∧
      t.focusedControl = some (w.id, i) := by
  unfold focusRow at h
  split at h
  · rename_i hin
    simp only [Bool.not_eq_true'] at hin
    cases h
    exact Or.inl ⟨rfl, fun h => absurd h (by simp [hin])⟩
  · rename_i hin
    simp only [Bool.not_eq_true', Bool.not_eq_false] at hin
    split at h
    · rename_i hnone
      cases h
      refine Or.inr (Or.inl ⟨rfl, fun i r hi hr => ?_⟩)
      rw [hi, Option.bind_some, hr] at hnone
      cases hnone
    · rename_i control i hsome
      obtain ⟨k, hk, hsome⟩ := Option.bind_eq_some_iff.mp hsome
      obtain ⟨r, hr, he⟩ := Option.map_eq_some_iff.mp hsome
      cases he
      split at h
      · rename_i hflags
        simp only [Bool.or_eq_true, Bool.not_eq_true'] at hflags
        cases h
        exact Or.inl ⟨rfl, fun _ => ⟨i, control, hk, hr, hflags⟩⟩
      · rename_i hflags
        simp only [Bool.or_eq_true, Bool.not_eq_true', not_or, Bool.not_eq_true, Bool.not_eq_false] at hflags
        refine Or.inr (Or.inr ⟨i, control, hin, hk, hr, hflags.1, hflags.2, ?_⟩)
        split at h
        · obtain ⟨_, -, h⟩ := bind_eq_ok h
          obtain ⟨_, -, h⟩ := bind_eq_ok h
          obtain ⟨_, -, h⟩ := bind_eq_ok h
          exact placeEditCursor_focused _ _ _ _ _ t h
        · cases h
          rfl

theorem focusRow_row (h : s.focusRow w localX (some i) true = .ok t) (hr : w.rows[i]? = some r)
    (hdisabled : r.disabled = false) (hfocusable : r.focusable = true) : t.focusedControl = some (w.id, i) := by
  rcases focusRow_focused h with ⟨-, h⟩ | ⟨-, h⟩ | ⟨_, _, -, hi, -, -, -, h⟩
  · obtain ⟨_, r', hi, hr', hflags⟩ := h rfl
    cases hi
    rw [hr] at hr'
    cases hr'
    rw [hdisabled, hfocusable] at hflags
    simp at hflags
  · exact absurd hr (h i r rfl)
  · cases hi
    exact h

theorem pointerDown_row {action : Option Str} (htop : s.topAt s.cursorX s.cursorY = .ok (some index))
    (hw : s.windows[index]? = some w) (hbutton : w.titleButton s.cursorX s.cursorY = .ok none)
    (h : s.pointerDown = .ok (t, action)) :
    ∃ (s' t' : Compositor) (localX localY : Int) (row : Option Nat × Bool),
      s'.windows = s.windows.eraseIdx index ∧ (s'.focusedControl = none ∨ s'.focusedControl = s.focusedControl) ∧
      i32 (s.cursorX - w.x) = .ok localX ∧ w.localContentY s.cursorY = .ok localY ∧
      s'.pressedRow w localX localY = .ok row ∧ s'.focusRow w localX row.1 row.2 = .ok t' ∧
      t.focusedControl = t'.focusedControl := by
  unfold pointerDown at h
  rw [htop, ok_bind] at h
  obtain ⟨r, hr, h⟩ := bind_eq_ok h
  obtain ⟨v, rest⟩ := r
  obtain ⟨hv, hrest⟩ := remove_of_ok hr
  rw [hw] at hv
  cases hv
  let s' : Compositor := setFocusScope { s with windows := rest } w.scopeForWindow
  have hcursor : s'.cursorX = s.cursorX ∧ s'.cursorY = s.cursorY := by
    show (setFocusScope _ _).cursorX = _ ∧ (setFocusScope _ _).cursorY = _
    unfold setFocusScope
    split <;> exact ⟨rfl, rfl⟩
  have h : (w.titleButton s'.cursorX s'.cursorY >>= _) = .ok (t, action) := h
  rw [hcursor.1, hcursor.2, hbutton, ok_bind] at h
  obtain ⟨localX, hx, h⟩ := bind_eq_ok h
  obtain ⟨localY, hy, h⟩ := bind_eq_ok h
  obtain ⟨row, hrow, h⟩ := bind_eq_ok h
  obtain ⟨t', ht', h⟩ := bind_eq_ok h
  obtain ⟨drag, -, h⟩ := bind_eq_ok h
  cases h
  refine ⟨s', t', localX, localY, row, ?_, setFocusScope_focused _, ?_, ?_, hrow, ht', rfl⟩
  · exact (setFocusScope_windows _).trans hrest
  · rw [← hx]
  · rw [← hy]

theorem pressedRow_laidOut {row : Option Nat × Bool} (hs : searches w.id = true → w.id ∉ s.ids)
    (hlaid : w.rows.any Row.laidOut = true) (h : s.pressedRow w localX localY = .ok row) :
    (row = (none, false) ∧ ∀ i r, ¬w.RowHit localX localY i r) ∨
    ∃ i r, row = (some i, true) ∧ w.RowHit localX localY i r ∧ ∀ j < i, ∀ r', ¬w.RowHit localX localY j r' := by
  unfold pressedRow at h
  rw [if_pos hlaid] at h
  obtain ⟨pos, hpos, h⟩ := bind_eq_ok h
  cases h
  have miss : ∀ j r, s.rowUnder w localX localY (r, j) = .ok false → ¬w.RowHit localX localY j r := by
    intro j r hf hhit
    rw [rowUnder_removed hs, hhit.laidOut, if_pos rfl, hhit.within] at hf
    cases hf
  cases pos with
  | none =>
    refine Or.inl ⟨rfl, fun i r hhit => miss i r ?_ hhit⟩
    exact position_none hpos _ (List.mem_of_getElem? (zipIdx_getElem? hhit.row))
  | some i =>
    obtain ⟨⟨p, hp, hf⟩, hbefore⟩ := position_some hpos
    obtain ⟨rfl, hrow⟩ := getElem?_zipIdx hp
    rw [rowUnder_removed hs] at hf
    refine Or.inr ⟨p.2, p.1, rfl, ?_, fun j hj r' hhit => miss j r' ?_ hhit⟩
    · cases hl : p.1.laidOut with
      | false =>
        rw [hl] at hf
        cases hf
      | true =>
        rw [hl, if_pos rfl] at hf
        exact ⟨hrow, hl, hf⟩
    · exact hbefore j hj _ (zipIdx_getElem? hhit.row)

/-! ## Both tests -/

theorem Aligned.rowHit (ha : s.Aligned w localX localY) (hr : w.rows[i]? = some r)
    (h : s.controlUnder w localX localY (r, i) = .ok true) : w.RowHit localX localY i r ∧ r.disabled = false := by
  obtain ⟨hlaid, -, hdisabled, hshown⟩ := (controlUnder_iff s w localX localY i r).mp h
  exact ⟨⟨hr, hlaid, (ha.search i r hr hlaid).mp hshown⟩, hdisabled⟩

theorem controlAt_under {c : Control} (htop : s.topAt x y = .ok (some index)) (hw : s.windows[index]? = some w)
    (hx : i32 (x - w.x) = .ok localX) (hy : w.localContentY y = .ok localY)
    (h : s.controlAt x y = .ok (some c)) : ∃ r, c.1 = w.id ∧ w.rows[c.2]? = some r ∧
      s.controlUnder w localX localY (r, c.2) = .ok true ∧
      ∀ j < c.2, ∀ r', w.rows[j]? = some r' → s.controlUnder w localX localY (r', j) = .ok false := by
  rcases controlAt_cases h with ⟨-, hc⟩ | ⟨index', w', clip, htop', hw', -,
    ⟨-, hc⟩ | ⟨-, _, _, row, hx', hy', hrow, hc⟩⟩
  · cases hc
  · cases hc
  · rw [htop] at htop'
    cases htop'
    rw [hw] at hw'
    cases hw'
    rw [hx] at hx'
    cases hx'
    rw [hy] at hy'
    cases hy'
    cases row with
    | none => cases hc
    | some i =>
      cases hc
      obtain ⟨⟨p, hp, hf⟩, hbefore⟩ := position_some hrow
      obtain ⟨hi, hr⟩ := getElem?_zipIdx hp
      subst hi
      exact ⟨p.1, rfl, hr, hf, fun j hj r' hr' => hbefore j hj _ (zipIdx_getElem? hr')⟩

theorem controlAt_none (htop : s.topAt x y = .ok (some index)) (hw : s.windows[index]? = some w)
    (hx : i32 (x - w.x) = .ok localX) (hy : w.localContentY y = .ok localY) {clip : ClipRect}
    (hclip : w.contentClip = .ok clip) (hin : clip.contains x y = true) (h : s.controlAt x y = .ok none)
    (hr : w.rows[i]? = some r) : s.controlUnder w localX localY (r, i) = .ok false := by
  rcases controlAt_cases h with ⟨htop', -⟩ | ⟨_, w', _, htop', hw', hclip', hc⟩
  · rw [htop] at htop'
    cases htop'
  · rw [htop] at htop'
    cases htop'
    rw [hw] at hw'
    cases hw'
    rw [hclip] at hclip'
    cases hclip'
    rcases hc with ⟨hout, -⟩ | ⟨-, _, _, row, hx', hy', hrow, hc⟩
    · rw [hin] at hout
      cases hout
    · rw [hx] at hx'
      cases hx'
      rw [hy] at hy'
      cases hy'
      cases row with
      | some _ => cases hc
      | none => exact position_none hrow _ (List.mem_of_getElem? (zipIdx_getElem? hr))

/-- The first row under the pointer is an enabled control inside the clip: hovering and
pressing both find it. -/
theorem agrees_first (hsearch : ∀ i r, w.rows[i]? = some r → r.laidOut = true →
      (s.ShownAt w localX localY i r ↔ within localX localY r.frame = .ok true))
    (htop : s.topAt s.cursorX s.cursorY = .ok (some index)) (hw : s.windows[index]? = some w)
    (hx : i32 (s.cursorX - w.x) = .ok localX) (hy : w.localContentY s.cursorY = .ok localY) {clip : ClipRect}
    (hclip : w.contentClip = .ok clip) (hin : clip.contains s.cursorX s.cursorY = true)
    (hhit : w.RowHit localX localY i r) (hfirst : ∀ j < i, ∀ r', ¬w.RowHit localX localY j r')
    (haction : r.action.isEmpty = false) (hdisabled : r.disabled = false) {c : Option Control}
    (hc : s.controlAt s.cursorX s.cursorY = .ok c) : c = some (w.id, i) := by
  have hunder : s.controlUnder w localX localY (r, i) = .ok true :=
    (controlUnder_iff s w localX localY i r).mpr
      ⟨hhit.laidOut, haction, hdisabled, (hsearch i r hhit.row hhit.laidOut).mpr hhit.within⟩
  cases c with
  | none =>
    rw [controlAt_none htop hw hx hy hclip hin hc hhit.row] at hunder
    cases hunder
  | some c =>
    obtain ⟨r', hid, hr', hf, hbefore⟩ := controlAt_under htop hw hx hy hc
    obtain ⟨hlaid, -, -, hshown⟩ := (controlUnder_iff s w localX localY c.2 r').mp hf
    have hle : i ≤ c.2 := by
      by_contra hlt
      exact hfirst c.2 (Nat.lt_of_not_le hlt) r' ⟨hr', hlaid, (hsearch _ _ hr' hlaid).mp hshown⟩
    have hge : c.2 ≤ i := by
      by_contra hlt
      rw [hbefore i (Nat.lt_of_not_le hlt) r hhit.row] at hunder
      cases hunder
    have he : c.2 = i := Nat.le_antisymm hge hle
    rw [← hid, ← he]

theorem Aligned.agrees {s' t' : Compositor} {row : Option Nat × Bool} (ha : s.Aligned w localX localY)
    (htop : s.topAt s.cursorX s.cursorY = .ok (some index)) (hw : s.windows[index]? = some w)
    (hx : i32 (s.cursorX - w.x) = .ok localX) (hy : w.localContentY s.cursorY = .ok localY)
    (hremoved : searches w.id = true → w.id ∉ s'.ids)
    (hfocus : s'.focusedControl = none ∨ s'.focusedControl = s.focusedControl)
    (hrow : s'.pressedRow w localX localY = .ok row) (hpress : s'.focusRow w localX row.1 row.2 = .ok t')
    {c : Option Control} (hc : s.controlAt s.cursorX s.cursorY = .ok c) :
    (∀ i r, c = some (w.id, i) → w.rows[i]? = some r → r.focusable = true → t'.focusedControl = some (w.id, i)) ∧
    (c = none → t'.focusedControl = none ∨ t'.focusedControl = s.focusedControl) := by
  -- A press that gives the focus to no row leaves it or clears it.
  have quiet : (∀ i r, row = (some i, true) → w.rows[i]? = some r → r.focusable = true → r.disabled = true) →
      t'.focusedControl = none ∨ t'.focusedControl = s.focusedControl := by
    intro hno
    rcases focusRow_focused hpress with ⟨h, -⟩ | ⟨h, -⟩ | ⟨i, r, hin, hi, hr, hd, hf, -⟩
    · exact Or.inl h
    · rw [h]
      exact hfocus
    · rw [hno i r (Prod.ext hi hin) hr hf] at hd
      cases hd
  -- what the hover finds is a row under the pointer that is not disabled
  have hovered : ∀ i, c = some (w.id, i) → ∃ r, w.RowHit localX localY i r ∧ r.disabled = false := by
    rintro i rfl
    obtain ⟨r, -, hr, hf, -⟩ := controlAt_under htop hw hx hy hc
    exact ⟨r, ha.rowHit hr hf⟩
  -- a window without frames has no row that takes the focus
  by_cases hlaid : w.rows.any Row.laidOut = true
  · rcases ha.clip with ⟨clip, hclip, hin, i, r, hhit, hfirst, haction, hdisabled⟩ | hnone
    · cases agrees_first ha.search htop hw hx hy hclip hin hhit hfirst haction hdisabled hc
      refine ⟨?_, nofun⟩
      rintro k r' ⟨⟩ hr' hf
      rcases pressedRow_laidOut hremoved hlaid hrow with ⟨-, hmiss⟩ | ⟨j, q, rfl, hq, hbefore⟩
      · exact absurd hhit (hmiss i r)
      · have hji : j = i := Nat.le_antisymm
          (Nat.le_of_not_lt fun h => hbefore i h r hhit) (Nat.le_of_not_lt fun h => hfirst j h q hq)
        subst hji
        rw [hhit.row] at hr'
        cases hr'
        exact focusRow_row hpress hhit.row hdisabled hf
    · refine ⟨fun i r hci hr hf => ?_, fun _ => quiet fun i r hrow' hr hf => ?_⟩
      · obtain ⟨q, hq, hd⟩ := hovered i hci
        rw [hnone i q hq (by rwa [Option.some.inj (hq.row.symm.trans hr)])] at hd
        cases hd
      · rcases pressedRow_laidOut hremoved hlaid hrow with ⟨rfl, -⟩ | ⟨j, q, rfl, hq, -⟩
        · cases hrow'
        · cases hrow'
          rw [hq.row] at hr
          cases hr
          exact hnone i r hq hf
  · have hrows := ha.layout.resolve_left hlaid
    refine ⟨fun i r hci hr hf => ?_, fun _ => quiet fun i r _ hr hf => hrows r (List.mem_of_getElem? hr) hf⟩
    obtain ⟨q, hq, hd⟩ := hovered i hci
    rw [hrows q (List.mem_of_getElem? hq.row) (by rwa [Option.some.inj (hq.row.symm.trans hr)])] at hd
    cases hd

theorem pointerDown_desktop (htop : s.topAt s.cursorX s.cursorY = .ok none) :
    s.pointerDown = .ok (s.setFocusScope .Desktop, none) := by
  unfold pointerDown
  rw [htop]
  rfl

theorem Aligned.press (ha : s.Aligned w localX localY) (pressed : Option Control) :
    Aligned { s with pressedControl := pressed } w localX localY := ⟨ha.layout, ha.search, ha.clip⟩

theorem pointerDown_agrees {action : Option Str} (hs : s.Single)
    (hbutton : ∀ w, s.UnderPointer w → w.titleButton s.cursorX s.cursorY = .ok none)
    (ha : ∀ w localX localY, s.UnderPointer w → i32 (s.cursorX - w.x) = .ok localX →
      w.localContentY s.cursorY = .ok localY → s.Aligned w localX localY)
    (h : s.pointerDown = .ok (t, action)) : s.FocusAgrees t := by
  intro c hc
  rcases controlAt_cases hc with ⟨htop, rfl⟩ | ⟨index, w, -, htop, hw, -, -⟩
  · rw [pointerDown_desktop htop] at h
    cases h
    exact ⟨fun _ _ _ _ hci => (nomatch hci), fun _ => setFocusScope_focused _⟩
  · have hunder : s.UnderPointer w := ⟨index, htop, hw⟩
    obtain ⟨s', t', localX, localY, row, hwindows, hfocus, hx, hy, hrow, hpress, ht⟩ :=
      pointerDown_row htop hw (hbutton w hunder) h
    have hremoved := fun hid => hs.removed (remove_eq hw) hwindows hid
    obtain ⟨hsome, hnone⟩ := (ha w localX localY hunder hx hy).agrees htop hw hx hy hremoved hfocus hrow hpress hc
    rw [ht]
    refine ⟨fun v i r hv hci hr hf => ?_, hnone⟩
    obtain ⟨_, htop', hv⟩ := hv
    rw [htop] at htop'
    cases htop'
    rw [hw] at hv
    cases hv
    exact hsome i r hci hr hf

theorem dragOrDrop_focused (left handled : Bool) :
    Ensures (s.dragOrDrop left handled) fun t => t.focusedControl = s.focusedControl := by
  unfold dragOrDrop
  split
  · unfold dragWindow
    split
    · exact ensures_ok rfl
    · split
      · exact ensures_ok rfl
      · exact ensures_bind fun _ _ => ensures_bind fun _ _ => ensures_bind fun _ _ => ensures_ok rfl
  · exact ensures_ok rfl

/-- A left press that no client window takes and that is on no header button, in any run. -/
theorem press_agrees {shell : List ShellSurface} (hshell : (shell.map ShellSurface.id).Nodup)
    (hs : Reachable shell s) (packet : UInt32) (hleft : packet &&& 1 ≠ 0) (hdown : s.leftDown = false)
    {s₁ : Compositor} {events events' : List Client.Event} (hfree : s.trackPointer packet = .ok (s₁, false, events))
    (hbutton : ∀ w, s₁.UnderPointer w → w.titleButton s₁.cursorX s₁.cursorY = .ok none)
    (ha : ∀ w localX localY, s₁.UnderPointer w → i32 (s₁.cursorX - w.x) = .ok localX →
      w.localContentY s₁.cursorY = .ok localY → s₁.Aligned w localX localY)
    {action : Option Str} (h : s.pointerPacket packet = .ok (t, action, events')) : s₁.FocusAgrees t := by
  have hsingle : s₁.Single := (hs.single hshell).keeps (keeps_of_ids (trackPointer_tracked hfree).framed.ids)
  unfold pointerPacket at h
  rw [hfree, ok_bind] at h
  obtain ⟨⟨s₂, _⟩, h₂, h⟩ := bind_eq_ok h
  obtain ⟨s₃, h₃, h⟩ := bind_eq_ok h
  cases h
  unfold pressOrRelease at h₂
  rw [if_pos (by simp [hleft, (trackPointer_tracked hfree).framed.leftDown, hdown])] at h₂
  have hagree := pointerDown_agrees (s := { s₁ with pressedControl := s₁.hoveredControl }) hsingle hbutton
    (fun w localX localY hw hx hy => (ha w localX localY hw hx hy).press _) h₂
  have hdrop := dragOrDrop_focused _ _ s₃ h₃
  intro c hc
  obtain ⟨hsome, hnone⟩ := hagree c hc
  exact ⟨fun w i r hw hci hr hf => hdrop.trans (hsome w i r hw hci hr hf), fun hc' => by
    rw [hdrop]
    exact hnone hc'⟩

/-! ## The launcher -/

def launcher : ShellSurface where
  id := "launcher".toList
  role := 76
  visible := false
  x := 262
  y := 112
  width := 500
  height := 400
  title := "Applications".toList
  items := [⟨"Applications".toList, [], 104, 0, 0, 24, 64, 452, 30⟩,
    ⟨"Search apps".toList, "launcher.search".toList, kindSearch, 4, flagFocusable, 24, 106, 452, 38⟩,
    ⟨"Files".toList, "files.open".toList, 98, 1, flagFocusable, 24, 169, 142, 64⟩,
    ⟨"Settings".toList, "settings.open".toList, 98, 1, flagFocusable, 178, 169, 143, 64⟩,
    ⟨"Terminal".toList, "terminal.open".toList, 98, 1, flagFocusable, 333, 169, 143, 64⟩]

def launcherWindow : Window where
  id := launcher.id
  role := .L
  x := 262
  y := 112
  width := 500
  height := 400
  title := launcher.title
  rows := launcher.items.map ShellItem.row
  native := false
  maximized := false
  minimized := false
  scrollY := 0
  restore := none

def opened : Compositor :=
  { new [launcher] with windows := [launcherWindow], focusScope := .Window "launcher".toList }

theorem command_opened : (new [launcher]).command "R|launcher".toList = .ok (opened, true) := by decide +kernel

def searching : Compositor :=
  { opened with focusedControl := some ("launcher".toList, 1), edits := [⟨"launcher".toList, 1, [109], 1⟩] }

theorem tab_opened : opened.keyScancode 0x0f none false false =
    .ok ({ opened with focusedControl := some ("launcher".toList, 1) }, none, []) := by decide +kernel

theorem type_searching : ({ opened with focusedControl := some ("launcher".toList, 1) } : Compositor).keyScancode
    0x32 (some 109) false false = .ok (searching, none, []) := by decide +kernel

theorem reachable_opened : Reachable [launcher] opened := .command _ .new command_opened

theorem reachable_searching : Reachable [launcher] searching :=
  .key _ _ _ _ (.key _ _ _ _ reachable_opened tab_opened) type_searching

def pointed (s : Compositor) (row : Nat) : Compositor :=
  { s with cursorX := 385, cursorY := 324, hoveredControl := some ("launcher".toList, row) }

def pressed (s : Compositor) (hovered focused : Nat) : Compositor :=
  { s.pointed hovered with leftDown := true, pressedControl := some ("launcher".toList, hovered)
                           focusedControl := some ("launcher".toList, focused) }

theorem underPointer_launcher (htop : s.topAt s.cursorX s.cursorY = .ok (some 0))
    (hs : s.windows = [launcherWindow]) (h : s.UnderPointer w) : w = launcherWindow := by
  obtain ⟨index, htop', hw⟩ := h
  cases htop.symm.trans htop'
  rw [hs] at hw
  cases hw
  rfl

theorem aligned_opened : (opened.pointed 2).Aligned launcherWindow 123 212 := by
  have hrows : ∀ i : Fin 5, ∀ r ∈ launcherWindow.rows[i.val]?,
      ((opened.pointed 2).ShownAt launcherWindow 123 212 i.val r ↔ within 123 212 r.frame = .ok true) ∧
        (i < 2 → within 123 212 r.frame = .ok false) := by
    unfold ShownAt
    decide +kernel
  have hlt : ∀ i r, launcherWindow.rows[i]? = some r → i < 5 := fun i r h => (List.getElem?_eq_some_iff.mp h).1
  refine ⟨Or.inl (by decide +kernel), fun i r hr _ => (hrows ⟨i, hlt i r hr⟩ r hr).1, Or.inl ?_⟩
  refine ⟨⟨263, 157, 761, 511⟩, by decide +kernel, by decide +kernel, 2, _, ⟨rfl, by decide, by decide +kernel⟩, ?_⟩
  refine ⟨fun j hj r' hhit => ?_, by decide, by decide⟩
  cases ((hrows ⟨j, by omega⟩ r' hhit.row).2 hj).symm.trans hhit.within

theorem press_agrees_files : (opened.pointed 2).FocusAgrees (opened.pressed 2 2) := by
  have htrack : opened.trackPointer 0x003c8101 = .ok (opened.pointed 2, false, []) := by decide +kernel
  have hpress : opened.pointerPacket 0x003c8101 = .ok (opened.pressed 2 2, none, []) := by decide +kernel
  have hunder := fun w => underPointer_launcher (s := opened.pointed 2) (w := w) (by decide +kernel) rfl
  refine press_agrees (by decide) reachable_opened _ (by decide) rfl htrack (fun w hw => ?_) ?_ hpress
  · rw [hunder w hw]
    decide +kernel
  · intro w localX localY hw hx hy
    cases hunder w hw
    cases hx
    cases hy
    exact aligned_opened

/-- With `m` in the search field Terminal is drawn in place of Files, which the press finds. -/
theorem press_moved : Reachable [launcher] searching ∧ searching.leftDown = false ∧
    searching.trackPointer 0x003c8101 = .ok (searching.pointed 4, false, []) ∧
    (∀ w, (searching.pointed 4).UnderPointer w → w.titleButton 385 324 = .ok none) ∧
    searching.pointerPacket 0x003c8101 = .ok (searching.pressed 4 2, none, []) ∧
    ¬(searching.pointed 4).FocusAgrees (searching.pressed 4 2) := by
  have htop : (searching.pointed 4).topAt 385 324 = .ok (some 0) := by decide +kernel
  refine ⟨reachable_searching, rfl, by decide +kernel, fun w hw => ?_, by decide +kernel, fun hagree => ?_⟩
  · rw [underPointer_launcher htop rfl hw]
    decide +kernel
  · have hc : (searching.pointed 4).controlAt 385 324 = .ok (some ("launcher".toList, 4)) := by decide +kernel
    cases (hagree _ hc).1 launcherWindow 4 _ ⟨0, htop, rfl⟩ rfl rfl (by decide)

end Compositor

end Pippin.Native
