import Pippin.Client.Representation
import Pippin.Lib.Keyed
import Pippin.Native.Command
import Mathlib.Data.List.Nodup
import Mathlib.Data.List.Perm.Basic

/-! Which surfaces there are. Keys, packets and commands move, change and drop surfaces; only
an `S|` line and a test window add one. Only client commands and the pointer reach the client
windows. -/

namespace Pippin.Native
open Checked
open Pippin.Client (clamp)

theorem clamp_bounds {v hi : Int} (h : 0 ≤ hi) : 0 ≤ clamp v 0 hi ∧ clamp v 0 hi ≤ hi := by
  unfold clamp
  split_ifs <;> omega

namespace Window

variable {w v : Window}

/-- A window moved or scrolled: a new place is on the screen, a new offset is in the range of
the content. -/
def Shift (w v : Window) : Prop := ∃ x y scrollY, v = { w with x, y, scrollY } ∧
  (x = w.x ∧ y = w.y ∨ 0 ≤ x ∧ 0 ≤ y) ∧
  (scrollY = w.scrollY ∨ 0 ≤ scrollY ∧ ∀ m, w.maxScroll = .ok m → scrollY ≤ m)

theorem Shift.refl (w : Window) : w.Shift w := ⟨w.x, w.y, w.scrollY, rfl, Or.inl ⟨rfl, rfl⟩, Or.inl rfl⟩

theorem maxScroll_nonneg : Ensures w.maxScroll fun m => 0 ≤ m := by
  unfold maxScroll
  split_ifs
  · exact ensures_ok (Int.le_refl 0)
  · exact ensures_bind fun _ _ => ensures_ok (Int.le_max_right _ _)

def Scroll (w v : Window) : Prop := ∃ scrollY, v = { w with scrollY } ∧
  (scrollY = w.scrollY ∨ 0 ≤ scrollY ∧ ∀ m, w.maxScroll = .ok m → scrollY ≤ m)

theorem Scroll.refl (w : Window) : w.Scroll w := ⟨w.scrollY, rfl, Or.inl rfl⟩

theorem Scroll.trans {u : Window} (h : w.Scroll v) (h' : v.Scroll u) : w.Scroll u := by
  obtain ⟨offset, rfl, hoffset⟩ := h
  obtain ⟨offset', rfl, hoffset'⟩ := h'
  refine ⟨offset', rfl, ?_⟩
  rcases hoffset' with rfl | hrange
  · exact hoffset
  · exact Or.inr hrange

theorem Scroll.shift (h : w.Scroll v) : w.Shift v := by
  obtain ⟨offset, rfl, hoffset⟩ := h
  exact ⟨w.x, w.y, offset, rfl, Or.inl ⟨rfl, rfl⟩, hoffset⟩

theorem scroll_of_range {m offset : Int} (hm : w.maxScroll = .ok m) (h : 0 ≤ offset ∧ offset ≤ m) :
    w.Scroll { w with scrollY := offset } := by
  refine ⟨offset, rfl, Or.inr ⟨h.1, fun m' hm' => ?_⟩⟩
  cases hm.symm.trans hm'
  exact h.2

theorem clampScroll_scroll (offset : Int) : Ensures { w with scrollY := offset }.clampScroll w.Scroll := by
  refine ensures_bind fun m hm => ensures_ok ?_
  have hm' : w.maxScroll = .ok m := hm
  exact scroll_of_range hm' (clamp_bounds (maxScroll_nonneg m hm'))

theorem scrollWindow_scroll (delta : Int) : Ensures (w.scrollWindow delta) fun r => w.Scroll r.1 := by
  unfold scrollWindow
  split_ifs
  · exact ensures_ok (.refl w)
  · refine ensures_bind fun v hv => ?_
    have hscroll := clampScroll_scroll _ v hv
    exact ensures_ok hscroll

end Window

namespace Compositor

variable {s t : Compositor} {w : Window} {index : Nat} {id : Str}

def ids (s : Compositor) : List Str := s.windows.map Window.id

def Keeps (s t : Compositor) : Prop := ∀ id, t.ids.count id ≤ s.ids.count id

theorem keeps_of_ids (h : t.ids = s.ids) : Keeps s t := fun id => Nat.le_of_eq (by rw [h])

theorem keeps_of_windows (h : t.windows = s.windows) : Keeps s t := keeps_of_ids (congrArg (List.map Window.id) h)

theorem Keeps.trans {u : Compositor} (h : Keeps s t) (h' : Keeps t u) : Keeps s u :=
  fun id => Nat.le_trans (h' id) (h id)

theorem setFocusScope_windows (scope : FocusScope) : (s.setFocusScope scope).windows = s.windows := by
  unfold setFocusScope
  split_ifs <;> rfl

theorem repairFocusScope_windows : s.repairFocusScope.windows = s.windows := by
  unfold repairFocusScope
  dsimp only
  split_ifs <;> simp only [setFocusScope_windows]

theorem setFocusScope_edits (scope : FocusScope) : (s.setFocusScope scope).edits = s.edits := by
  unfold setFocusScope
  split_ifs <;> rfl

theorem repairFocusScope_edits : s.repairFocusScope.edits = s.edits := by
  unfold repairFocusScope
  dsimp only
  split_ifs <;> simp only [setFocusScope_edits]

theorem ids_modify {f : Window → Window} (hf : ∀ w, s.windows[index]? = some w → (f w).id = w.id) :
    (s.windows.modify index f).map Window.id = s.ids := Keyed.map_key_modify hf

theorem keeps_raised {rest : List Window} {v : Window} (h : remove s.windows index = .ok (w, rest)) (hv : v.id = w.id)
    (ht : t.windows = rest ++ [v]) : Keeps s t := by
  have hperm : t.ids.Perm s.ids := by
    unfold ids
    rw [ht, List.map_append, List.map_singleton, hv]
    exact List.perm_append_comm.trans ((remove_perm h).map Window.id)
  exact fun id => Nat.le_of_eq (hperm.count_eq id)

theorem keeps_removed {rest : List Window} (h : remove s.windows index = .ok (w, rest)) (ht : t.windows = rest) :
    Keeps s t := by
  obtain ⟨-, rfl⟩ := remove_of_ok h
  intro id
  unfold ids
  rw [ht]
  exact ((List.eraseIdx_sublist _ _).map _).count_le id

/-! ## Keys -/

/-- The client windows and the pressed control are left alone. -/
structure Held (s t : Compositor) : Prop where
  clients : t.clients = s.clients
  leftDown : t.leftDown = s.leftDown
  pressedControl : t.pressedControl = s.pressedControl

theorem Held.refl (s : Compositor) : Held s s := ⟨rfl, rfl, rfl⟩

theorem Held.trans {u : Compositor} (h : Held s t) (h' : Held t u) : Held s u :=
  ⟨h'.clients.trans h.clients, h'.leftDown.trans h.leftDown, h'.pressedControl.trans h.pressedControl⟩

theorem forall₂_shift_refl (ws : List Window) : List.Forall₂ Window.Shift ws ws :=
  List.forall₂_same.mpr fun w _ => .refl w

theorem forall₂_scroll_refl (ws : List Window) : List.Forall₂ Window.Scroll ws ws :=
  List.forall₂_same.mpr fun w _ => .refl w

theorem forall₂_trans {R : Window → Window → Prop} (hR : ∀ {w v u}, R w v → R v u → R w u) {ws vs us : List Window}
    (h : List.Forall₂ R ws vs) (h' : List.Forall₂ R vs us) : List.Forall₂ R ws us := by
  induction h generalizing us with
  | nil => exact h'
  | cons hw _ ih =>
    cases h' with
    | cons hv hvs => exact .cons (hR hw hv) (ih hvs)

/-- What keys and scrolling do to the surfaces, and what they leave alone. -/
structure Framed (s t : Compositor) : Prop extends Held s t where
  windows : List.Forall₂ Window.Shift s.windows t.windows

theorem Held.framed (h : Held s t) (hw : t.windows = s.windows) : Framed s t := ⟨h, hw ▸ forall₂_shift_refl _⟩

theorem Framed.ids (h : Framed s t) : t.ids = s.ids := by
  have key : ∀ {ws vs : List Window}, List.Forall₂ Window.Shift ws vs → vs.map Window.id = ws.map Window.id := by
    intro ws vs hw
    induction hw with
    | nil => rfl
    | cons hv _ ih =>
      obtain ⟨x, y, scrollY, rfl, -, -⟩ := hv
      rw [List.map_cons, List.map_cons, ih]
  exact key h.windows

theorem Framed.keeps (h : Framed s t) : Keeps s t := keeps_of_ids h.ids

/-- Surfaces scrolled in place, and no window grabbed or let go. -/
structure Still (s t : Compositor) : Prop extends Held s t where
  drag : t.drag = s.drag
  windows : List.Forall₂ Window.Scroll s.windows t.windows

theorem Still.framed (h : Still s t) : Framed s t := ⟨h.toHeld, h.windows.imp fun _ _ hw => hw.shift⟩

theorem Held.still (h : Held s t) (hd : t.drag = s.drag) (hw : t.windows = s.windows) : Still s t :=
  ⟨h, hd, hw ▸ forall₂_scroll_refl _⟩

theorem Still.refl (s : Compositor) : Still s s := (Held.refl s).still rfl rfl

theorem Still.trans {u : Compositor} (h : Still s t) (h' : Still t u) : Still s u :=
  ⟨h.toHeld.trans h'.toHeld, h'.drag.trans h.drag, forall₂_trans .trans h.windows h'.windows⟩

theorem setFocusScope_still (scope : FocusScope) : Still s (s.setFocusScope scope) := by
  unfold setFocusScope
  split_ifs <;> exact Held.still ⟨rfl, rfl, rfl⟩ rfl rfl

theorem repairFocusScope_still : Still s s.repairFocusScope := by
  unfold repairFocusScope
  dsimp only
  split_ifs
  · exact .refl s
  · exact Held.still ⟨rfl, rfl, rfl⟩ rfl rfl
  · exact setFocusScope_still _
  · exact (setFocusScope_still _).trans (Held.still ⟨rfl, rfl, rfl⟩ rfl rfl)

theorem setFocusScope_framed (scope : FocusScope) : Framed s (s.setFocusScope scope) :=
  (setFocusScope_still scope).framed

theorem repairFocusScope_framed : Framed s s.repairFocusScope := repairFocusScope_still.framed

theorem Held.select {scope : FocusScope} (h : Held s t) : Held s (t.setFocusScope scope) :=
  h.trans (setFocusScope_framed scope).toHeld

theorem Held.repair (h : Held s t) : Held s t.repairFocusScope := h.trans repairFocusScope_framed.toHeld

structure Shifted (s t : Compositor) : Prop where
  windows : List.Forall₂ Window.Shift s.windows t.windows
  rest : t = { s with windows := t.windows }

theorem Shifted.refl (s : Compositor) : Shifted s s := ⟨forall₂_shift_refl _, rfl⟩

theorem Shifted.framed (h : Shifted s t) : Framed s t := by
  obtain ⟨hw, ht⟩ := h
  exact ⟨⟨by rw [ht], by rw [ht], by rw [ht]⟩, hw⟩

structure Scrolled (s t : Compositor) : Prop where
  windows : List.Forall₂ Window.Scroll s.windows t.windows
  rest : t = { s with windows := t.windows }

theorem Scrolled.refl (s : Compositor) : Scrolled s s := ⟨forall₂_scroll_refl _, rfl⟩

theorem Scrolled.shifted (h : Scrolled s t) : Shifted s t := ⟨h.windows.imp fun _ _ hw => hw.shift, h.rest⟩

theorem Scrolled.still (h : Scrolled s t) : Still s t := by
  obtain ⟨hw, ht⟩ := h
  exact ⟨⟨by rw [ht], by rw [ht], by rw [ht]⟩, by rw [ht], hw⟩

theorem forall₂_modify {R : Window → Window → Prop} (hR : ∀ w, R w w) {ws : List Window} {f : Window → Window}
    (hf : ∀ w, ws[index]? = some w → R w (f w)) : List.Forall₂ R ws (ws.modify index f) := by
  induction ws generalizing index with
  | nil => rw [List.modify_nil]; exact .nil
  | cons a ws ih =>
    have same : List.Forall₂ R ws ws := List.forall₂_same.mpr fun w _ => hR w
    cases index with
    | zero => exact .cons (hf a rfl) same
    | succ index => exact .cons (hR a) (ih fun w hw => hf w hw)

theorem setWindow_scrolled {v : Window} (hw : s.windows[index]? = some w) (hv : w.Scroll v) :
    Ensures (s.setWindow index v) (Scrolled s) := by
  refine ensures_bind fun ws hws => ensures_ok ⟨?_, rfl⟩
  have hmod := forall₂_modify Window.Scroll.refl (f := fun _ => v) fun u hu => by
    rw [hw] at hu
    cases hu
    exact hv
  rw [modify_of_ok hws]
  exact hmod

theorem clampScroll_id : Ensures w.clampScroll fun v => v.id = w.id :=
  ensures_bind fun _ _ => ensures_ok rfl

theorem scrollUnderPointer_scrolled (delta : Int) : Ensures (s.scrollUnderPointer delta) fun r => Scrolled s r.1 := by
  unfold scrollUnderPointer
  refine ensures_bind fun top _ => ?_
  cases top with
  | none => exact ensures_ok (.refl s)
  | some index =>
    refine ensures_bind fun w hw => ?_
    split_ifs
    · exact ensures_ok (.refl s)
    · refine ensures_bind fun clip _ => ?_
      split_ifs
      · exact ensures_ok (.refl s)
      · refine ensures_bind fun r hr => ensures_bind fun t ht => ensures_ok ?_
        exact setWindow_scrolled (get_of_ok hw) (Window.scrollWindow_scroll delta r hr) t ht

theorem scrollScopeBy_scrolled (delta : Int) : Ensures (s.scrollScopeBy delta) fun r => Scrolled s r.1 := by
  unfold scrollScopeBy
  cases s.scopeIndex with
  | none => exact ensures_ok (.refl s)
  | some index =>
    refine ensures_bind fun w hw => ensures_bind fun r hr => ensures_bind fun t ht => ensures_ok ?_
    exact setWindow_scrolled (get_of_ok hw) (Window.scrollWindow_scroll delta r hr) t ht

theorem scrollScopeTo_scrolled (toEnd : Bool) : Ensures (s.scrollScopeTo toEnd) fun r => Scrolled s r.1 := by
  unfold scrollScopeTo
  cases s.scopeIndex with
  | none => exact ensures_ok (.refl s)
  | some index =>
    refine ensures_bind fun w hw => ensures_bind fun target htarget => ensures_bind fun t ht => ensures_ok ?_
    have hscroll : w.Scroll { w with scrollY := target } := by
      cases toEnd with
      | true => exact Window.scroll_of_range htarget ⟨Window.maxScroll_nonneg _ htarget, Int.le_refl _⟩
      | false =>
        cases htarget
        exact ⟨0, rfl, Or.inr ⟨Int.le_refl 0, Window.maxScroll_nonneg⟩⟩
    exact setWindow_scrolled (get_of_ok hw) hscroll t ht

theorem ensureFocusedVisible_scrolled : Ensures s.ensureFocusedVisible (Scrolled s) := by
  unfold ensureFocusedVisible
  split
  · exact ensures_ok (.refl s)
  · split
    · exact ensures_ok (.refl s)
    · refine ensures_bind fun w hw => ?_
      split
      · exact ensures_ok (.refl s)
      · split_ifs
        · exact ensures_ok (.refl s)
        · refine ensures_bind fun _ _ => ensures_bind fun _ _ => ensures_bind fun _ _ => ensures_bind fun _ _ => ?_
          refine ensures_bind fun target _ => ensures_bind fun v hv => ?_
          exact setWindow_scrolled (get_of_ok hw) (Window.clampScroll_scroll target v hv)

def EditsOnly (s t : Compositor) : Prop := ∃ edits, t = { s with edits }

theorem EditsOnly.still (h : EditsOnly s t) : Still s t := by
  obtain ⟨edits, rfl⟩ := h
  exact Held.still ⟨rfl, rfl, rfl⟩ rfl rfl

theorem EditsOnly.trans {u : Compositor} (h : EditsOnly s t) (h' : EditsOnly t u) : EditsOnly s u := by
  obtain ⟨_, rfl⟩ := h
  obtain ⟨edits, rfl⟩ := h'
  exact ⟨edits, rfl⟩

theorem ensureEditState_edits (windowId : Str) (row : Nat) : EditsOnly s (s.ensureEditState windowId row).1 := by
  unfold ensureEditState
  split <;> exact ⟨_, rfl⟩

theorem ensureEditState_get (windowId : Str) (row : Nat) : ∃ e,
    (s.ensureEditState windowId row).1.edits[(s.ensureEditState windowId row).2]? = some e ∧
      e.windowId = windowId ∧ e.row = row := by
  unfold ensureEditState
  cases hfind : s.editIndex windowId row with
  | some index =>
    obtain ⟨hlt, htest, -⟩ := List.findIdx?_eq_some_iff_getElem.mp hfind
    exact ⟨s.edits[index], List.getElem?_eq_getElem hlt, of_decide_eq_true htest⟩
  | none => exact ⟨⟨windowId, row, [], 0⟩, List.getElem?_concat_length, rfl, rfl⟩

theorem setEdit_edits (index : Nat) (edit : EditState) : Ensures (s.setEdit index edit) (EditsOnly s) :=
  ensures_bind fun _ _ => ensures_ok ⟨_, rfl⟩

theorem placeEditCursor_edits (windowId : Str) (row : Nat) (localX width labelWidth : Int) :
    Ensures (s.placeEditCursor windowId row localX width labelWidth) (EditsOnly s) := by
  unfold placeEditCursor
  dsimp only
  refine ensures_bind fun _ _ => ensures_bind fun _ _ => ensures_bind fun _ _ => ensures_bind fun _ _ => ?_
  exact ensures_bind fun _ _ t ht => (ensureEditState_edits _ _).trans (setEdit_edits _ _ t ht)

theorem handleEditKey_edits (scan : UInt8) (text : Option UInt8) (extended : Bool) :
    Ensures (s.handleEditKey scan text extended) fun r => EditsOnly s r.1 := by
  unfold handleEditKey
  split
  · exact ensures_ok ⟨_, rfl⟩
  · rename_i windowId rowIndex _
    have hs := ensureEditState_edits (s := s) windowId rowIndex
    refine ensures_bind fun edit _ => ensures_bind fun consumed _ => ?_
    cases consumed with
    | none => exact ensures_ok hs
    | some r => exact ensures_bind fun t ht => ensures_ok (hs.trans (setEdit_edits _ _ t ht))

theorem focusNext_still (reverse : Bool) : Ensures (s.focusNext reverse) (Still s) := by
  unfold focusNext
  dsimp only
  split_ifs
  · exact ensures_ok (repairFocusScope_still.trans (Held.still ⟨rfl, rfl, rfl⟩ rfl rfl))
  all_goals
    exact ensures_bind fun _ _ => ensures_ok (repairFocusScope_still.trans (Held.still ⟨rfl, rfl, rfl⟩ rfl rfl))

theorem rehover_still : Ensures s.rehover (Still s) :=
  ensures_bind fun _ _ => ensures_ok (Held.still ⟨rfl, rfl, rfl⟩ rfl rfl)

theorem navigate_scrolled (scan : UInt8) : Ensures (s.navigate scan) fun r => Scrolled s r.1 := by
  unfold navigate
  split_ifs
  · exact scrollScopeBy_scrolled _
  · exact scrollScopeBy_scrolled _
  · exact ensures_bind fun _ _ => ensures_bind fun _ _ => scrollScopeBy_scrolled _
  · exact ensures_bind fun _ _ => scrollScopeBy_scrolled _
  · exact scrollScopeTo_scrolled _
  · exact scrollScopeTo_scrolled _
  · exact ensures_ok (.refl s)

theorem tabKey_still (reverseFocus : Bool) : Ensures (s.tabKey reverseFocus) (Still s) := by
  intro t ht
  obtain ⟨s₁, h₁, ht⟩ := bind_eq_ok ht
  obtain ⟨s₂, h₂, ht⟩ := bind_eq_ok ht
  have k₂ := (ensureFocusedVisible_scrolled s₂ h₂).still
  exact ((focusNext_still _ s₁ h₁).trans k₂).trans (rehover_still t ht)

theorem plainKey_still (scan : UInt8) (text : Option UInt8) (reverseFocus : Bool) :
    Ensures (s.plainKey scan text reverseFocus) fun r => Still s r.1 := by
  unfold plainKey
  split
  · exact ensures_bind fun t ht => ensures_ok (tabKey_still _ t ht)
  · split
    · refine ensures_ok ?_
      unfold activateKey
      split <;> exact repairFocusScope_still
    · exact ensures_ok (.refl s)

theorem keyScancode_still (scan : UInt8) (text : Option UInt8) (reverseFocus extended : Bool) :
    Ensures (s.keyScancode scan text reverseFocus extended) fun r => Still s r.1 := by
  unfold keyScancode
  split
  · exact ensures_ok (.refl s)
  · refine ensures_bind fun r hr => ?_
    obtain ⟨s₁, edited, action⟩ := r
    have k₁ : Still s s₁ := (handleEditKey_edits _ _ _ _ hr).still
    cases edited with
    | true =>
      refine ensures_bind fun t ht => ensures_ok ?_
      exact (k₁.trans repairFocusScope_still).trans (rehover_still t ht)
    | false =>
      refine ensures_bind fun r hr => ?_
      obtain ⟨s₂, handled⟩ := r
      have k₂ : Still s₁ s₂ := by
        cases extended with
        | true => exact (navigate_scrolled scan _ hr).still
        | false =>
          cases hr
          exact .refl _
      cases handled with
      | true => exact ensures_bind fun t ht => ensures_ok ((k₁.trans k₂).trans (rehover_still t ht))
      | false => exact fun r hr => (k₁.trans k₂).trans (plainKey_still _ _ _ r hr)

theorem keyScancode_framed (scan : UInt8) (text : Option UInt8) (reverseFocus extended : Bool) :
    Ensures (s.keyScancode scan text reverseFocus extended) fun r => Framed s r.1 :=
  fun r hr => (keyScancode_still _ _ _ _ r hr).framed

/-! ## Packets -/

theorem toggleMaximized_id : w.toggleMaximized.id = w.id := by
  unfold Window.toggleMaximized
  split
  · split <;> rfl
  · rfl

theorem titlePress_keeps {rest : List Window} {u : Compositor} (hr : remove u.windows index = .ok (w, rest))
    (hs : s.windows = rest) (button : TitleButton) :
    Ensures (s.titlePress w button) fun r => Keeps u r.1 ∧ Held s r.1 := by
  have raised : ∀ v : Window, v.id = w.id →
      Keeps u (repairFocusScope { s with windows := s.windows ++ [v] }) := fun v hv =>
    keeps_raised hr hv (repairFocusScope_windows.trans (congrArg (· ++ [v]) hs))
  cases button with
  | close =>
    show Ensures (if w.native then _ else _) _
    split
    · exact ensures_ok ⟨keeps_removed hr (repairFocusScope_windows.trans hs), repairFocusScope_framed.toHeld⟩
    · exact ensures_ok ⟨raised _ rfl, Held.repair ⟨rfl, rfl, rfl⟩⟩
  | minimize => exact ensures_ok ⟨raised _ rfl, Held.repair ⟨rfl, rfl, rfl⟩⟩
  | maximize =>
    refine ensures_bind fun v hv => ensures_ok ⟨keeps_raised hr ?_ (congrArg (· ++ [v]) hs), ⟨rfl, rfl, rfl⟩⟩
    exact (clampScroll_id v hv).trans toggleMaximized_id

theorem focusRow_parts (localX : Int) (row : Option Nat) (inRows : Bool) :
    Ensures (s.focusRow w localX row inRows) fun t =>
      ∃ focusedControl edits, t = { s with focusedControl, edits } := by
  unfold focusRow
  split
  · exact ensures_ok ⟨_, _, rfl⟩
  · split
    · exact ensures_ok ⟨_, _, rfl⟩
    · split
      · exact ensures_ok ⟨_, _, rfl⟩
      · split
        · refine ensures_bind fun _ _ => ensures_bind fun _ _ => ensures_bind fun _ _ t ht => ?_
          obtain ⟨edits, rfl⟩ := placeEditCursor_edits _ _ _ _ _ t ht
          exact ⟨_, edits, rfl⟩
        · exact ensures_ok ⟨_, _, rfl⟩

theorem focusRow_windows (localX : Int) (row : Option Nat) (inRows : Bool) :
    Ensures (s.focusRow w localX row inRows) fun t => t.windows = s.windows ∧ Held s t := by
  intro t ht
  obtain ⟨_, _, rfl⟩ := focusRow_parts _ _ _ t ht
  exact ⟨rfl, rfl, rfl, rfl⟩

theorem pointerDown_keeps : Ensures s.pointerDown fun r => Keeps s r.1 ∧ Held s r.1 := by
  unfold pointerDown
  refine ensures_bind fun top _ => ?_
  cases top with
  | none => exact ensures_ok ⟨(setFocusScope_framed _).keeps, (setFocusScope_framed _).toHeld⟩
  | some index =>
    refine ensures_bind fun r hr => ?_
    obtain ⟨w, rest⟩ := r
    dsimp only
    let u : Compositor := { s with windows := rest }
    have hheld : Held s (u.setFocusScope w.scopeForWindow) := Held.select ⟨rfl, rfl, rfl⟩
    refine ensures_bind fun button _ => ?_
    cases button with
    | some button =>
      intro r hr'
      obtain ⟨hk, hh⟩ := titlePress_keeps hr (setFocusScope_windows _) button r hr'
      exact ⟨hk, hheld.trans hh⟩
    | none =>
      refine ensures_bind fun _ _ => ensures_bind fun _ _ => ensures_bind fun r' _ => ?_
      refine ensures_bind fun t ht => ensures_bind fun drag _ => ensures_ok ?_
      obtain ⟨hw, hh⟩ := focusRow_windows _ _ _ t ht
      exact ⟨keeps_raised hr rfl (congrArg (· ++ [w]) (hw.trans (setFocusScope_windows _))),
        (hheld.trans hh).trans ⟨rfl, rfl, rfl⟩⟩

theorem dragWindow_shifted : Ensures s.dragWindow (Shifted s) := by
  unfold dragWindow
  split
  · exact ensures_ok (.refl s)
  · split
    · exact ensures_ok (.refl s)
    · refine ensures_bind fun x _ => ensures_bind fun y _ => ensures_bind fun ws hws => ensures_ok ⟨?_, rfl⟩
      rw [modify_of_ok hws]
      refine forall₂_modify .refl fun w _ => ⟨_, _, w.scrollY, rfl, Or.inr ⟨?_, ?_⟩, Or.inl rfl⟩
      · exact (clamp_bounds (by decide)).1
      · exact (clamp_bounds (by decide)).1

theorem wheelScroll_scrolled (handled : Bool) (wheel : Int) : Ensures (s.wheelScroll handled wheel) (Scrolled s) := by
  unfold wheelScroll
  split
  · exact ensures_ok (.refl s)
  · exact ensures_bind fun d _ => ensures_bind fun r hr => ensures_ok (scrollUnderPointer_scrolled d r hr)

theorem hover_still (handled : Bool) : Ensures (s.hover handled) (Still s) := by
  unfold hover
  split
  · exact ensures_ok (Held.still ⟨rfl, rfl, rfl⟩ rfl rfl)
  · exact rehover_still

theorem rehover_hovered : Ensures s.rehover fun t => t.controlAt t.cursorX t.cursorY = .ok t.hoveredControl :=
  ensures_bind fun _ h => ensures_ok h

/-- The start of a packet: the pointer reaches the client windows at a point of the screen, and a
packet they leave hovers the control there. -/
structure Tracked (s t : Compositor) (packet : UInt32) (handled : Bool) (events : List Client.Event) : Prop where
  framed : Framed { s with clients := t.clients } t
  hovered : handled = false → t.controlAt t.cursorX t.cursorY = .ok t.hoveredControl
  pointed : ∃ x y, (0 ≤ x ∧ x ≤ 1023) ∧ (0 ≤ y ∧ y ≤ 767) ∧
    s.clients.pointer x y (packet &&& 1 != 0) s.leftDown = .ok (handled, t.clients, events)

theorem trackPointer_still {packet : UInt32} {handled : Bool} {events : List Client.Event}
    (h : s.trackPointer packet = .ok (t, handled, events)) : Still { s with clients := t.clients } t := by
  obtain ⟨x, -, h⟩ := bind_eq_ok h
  obtain ⟨y, -, h⟩ := bind_eq_ok h
  obtain ⟨⟨handled', clients, events'⟩, -, h⟩ := bind_eq_ok h
  obtain ⟨s₁, h₁, h⟩ := bind_eq_ok h
  obtain ⟨s₂, h₂, h⟩ := bind_eq_ok h
  cases h
  have hstill := (wheelScroll_scrolled _ _ s₁ h₁).still.trans (hover_still _ t h₂)
  exact ⟨⟨rfl, hstill.leftDown, hstill.pressedControl⟩, hstill.drag, hstill.windows⟩

theorem trackPointer_tracked {packet : UInt32} {handled : Bool} {events : List Client.Event}
    (h : s.trackPointer packet = .ok (t, handled, events)) : s.Tracked t packet handled events := by
  have hstill := trackPointer_still h
  obtain ⟨x, -, h⟩ := bind_eq_ok h
  obtain ⟨y, -, h⟩ := bind_eq_ok h
  obtain ⟨⟨handled', clients, events'⟩, hp, h⟩ := bind_eq_ok h
  obtain ⟨s₁, h₁, h⟩ := bind_eq_ok h
  obtain ⟨s₂, h₂, h⟩ := bind_eq_ok h
  cases h
  have hclients : t.clients = clients := ((wheelScroll_scrolled _ _ s₁ h₁).still.trans (hover_still _ t h₂)).clients
  refine ⟨hstill.framed, ?_, ?_⟩
  · rintro rfl
    exact rehover_hovered t h₂
  · rw [hclients]
    exact ⟨_, _, clamp_bounds (by decide), clamp_bounds (by decide), hp⟩

theorem pressOrRelease_rule {P : Compositor → Prop} {left handled : Bool}
    (hdown : s.leftDown = false → Ensures (pointerDown { s with pressedControl := s.hoveredControl }) fun r => P r.1)
    (hsame : ∀ pressedControl, P { s with pressedControl }) :
    Ensures (s.pressOrRelease left handled) fun r => P r.1 := by
  unfold pressOrRelease
  split
  · rename_i hpress
    simp only [Bool.and_eq_true, Bool.not_eq_true'] at hpress
    exact hdown hpress.2
  · split
    · exact ensures_bind fun _ _ => ensures_ok (hsame none)
    · exact ensures_ok (hsame s.pressedControl)

theorem pressOrRelease_keeps (left handled : Bool) :
    Ensures (s.pressOrRelease left handled) fun r => Keeps s r.1 ∧ r.1.clients = s.clients := by
  refine pressOrRelease_rule (P := fun t => Keeps s t ∧ t.clients = s.clients) (fun _ r hr => ?_)
    fun _ => ⟨keeps_of_windows rfl, rfl⟩
  obtain ⟨hk, hh⟩ := pointerDown_keeps r hr
  exact ⟨hk, hh.clients⟩

theorem dragOrDrop_framed (left handled : Bool) : Ensures (s.dragOrDrop left handled) (Framed s) := by
  unfold dragOrDrop
  split
  · exact fun t ht => (dragWindow_shifted t ht).framed
  · exact ensures_ok (Held.framed ⟨rfl, rfl, rfl⟩ rfl)

theorem pointerPacket_keeps {packet : UInt32} {action : Option Str} {events : List Client.Event}
    (h : s.pointerPacket packet = .ok (t, action, events)) : Keeps s t ∧
      ∃ x y handled, (0 ≤ x ∧ x ≤ 1023) ∧ (0 ≤ y ∧ y ≤ 767) ∧
        s.clients.pointer x y (packet &&& 1 != 0) s.leftDown = .ok (handled, t.clients, events) := by
  obtain ⟨⟨s₁, handled, _⟩, h₁, h⟩ := bind_eq_ok h
  obtain ⟨⟨s₂, _⟩, h₂, h⟩ := bind_eq_ok h
  obtain ⟨s₃, h₃, h⟩ := bind_eq_ok h
  cases h
  have htrack := trackPointer_tracked h₁
  obtain ⟨x, y, hx, hy, hp⟩ := htrack.pointed
  obtain ⟨k₂, hc₂⟩ := pressOrRelease_keeps _ _ _ h₂
  have k₃ := dragOrDrop_framed _ _ s₃ h₃
  refine ⟨((keeps_of_ids htrack.framed.ids).trans k₂).trans k₃.keeps, x, y, handled, hx, hy, ?_⟩
  have hclients : s₃.clients = s₁.clients := k₃.clients.trans hc₂
  rw [hp, ← hclients]

/-! ## Commands -/

theorem parseSurface_reads {payload id title : Str} {role : Role} {x y width height : Int} {rows : List Row}
    (h : parseSurface payload = some (.window id role x y width height title rows)) :
    (∃ part, Str.parseI32 part = some x) ∧ (∃ part, Str.parseI32 part = some y) ∧ (∃ part, parseRows part = some rows) ∧
      40 ≤ width ∧ 30 ≤ height ∧ width ≤ Client.WIDTH ∧ height ≤ Client.HEIGHT := by
  unfold parseSurface at h
  split at h
  · split at h
    · cases h
    · split at h
      · split at h
        · obtain ⟨_, -, h⟩ := Option.map_eq_some_iff.mp h
          cases h
        · cases h
      · obtain ⟨_, -, h⟩ := Option.bind_eq_some_iff.mp h
        obtain ⟨_, -, h⟩ := Option.bind_eq_some_iff.mp h
        obtain ⟨_, hx, h⟩ := Option.bind_eq_some_iff.mp h
        obtain ⟨_, hy, h⟩ := Option.bind_eq_some_iff.mp h
        obtain ⟨_, -, h⟩ := Option.bind_eq_some_iff.mp h
        obtain ⟨_, -, h⟩ := Option.bind_eq_some_iff.mp h
        split at h
        · cases h
        · rename_i hsize
          obtain ⟨_, hrows, h⟩ := Option.bind_eq_some_iff.mp h
          cases h
          simp only [not_or, Int.not_lt, gt_iff_lt] at hsize
          exact ⟨⟨_, hx⟩, ⟨_, hy⟩, ⟨_, hrows⟩, hsize⟩
  · cases h

def Single (s : Compositor) : Prop := ∀ id, searches id = true → s.ids.count id ≤ 1

theorem Single.keeps (h : s.Single) (hk : Keeps s t) : t.Single := fun id hid => Nat.le_trans (hk id) (h id hid)

theorem restoreCommand_keeps (id : Str) : Ensures (s.restoreCommand id) fun t => Keeps s t := by
  unfold restoreCommand
  split
  · exact ensures_ok (keeps_of_windows rfl)
  · refine ensures_bind fun r hr => ensures_ok ?_
    exact keeps_raised (v := { r.1 with minimized := false }) hr rfl (setFocusScope_windows _)

theorem minimizeCommand_keeps (id : Str) : Ensures (s.minimizeCommand id) fun t => Keeps s t := by
  unfold minimizeCommand
  split
  · exact ensures_ok (keeps_of_windows rfl)
  · refine ensures_bind fun ws hws => ensures_ok (keeps_of_ids ?_)
    show List.map Window.id (repairFocusScope _).windows = _
    rw [repairFocusScope_windows, modify_of_ok hws]
    exact ids_modify fun _ _ => rfl

theorem closeCommand_keeps (id : Str) : Keeps s (s.closeCommand id) := by
  intro i
  show (List.map Window.id (repairFocusScope _).windows).count i ≤ _
  rw [repairFocusScope_windows]
  exact (List.filter_sublist.map _).count_le i

theorem ids_append {v : Window} (h : t.windows = s.windows ++ [v]) : t.ids = s.ids ++ [v.id] := by
  unfold ids
  rw [h, List.map_append, List.map_singleton]

theorem Single.append {v : Window} (h : s.Single) (ht : t.windows = s.windows ++ [v])
    (hv : searches v.id = true → v.id ∉ s.ids) : t.Single := by
  intro id hid
  rw [ids_append ht, List.count_append, List.count_singleton]
  have h1 := h id hid
  by_cases he : v.id = id
  · subst he
    have h0 := List.count_eq_zero.mpr (hv hid)
    split_ifs <;> omega
  · rw [if_neg (by simpa using he)]
    exact h1

def Adds (s t : Compositor) : Prop :=
  ∃ v : Window, t.windows = s.windows ++ [v] ∧ v.id ∉ s.ids ∧ s.windows.length < maxWindows

theorem surfaceCommand_ids (surface : Surface) :
    Ensures (s.surfaceCommand surface) fun r => ∀ t, r = some t → Keeps s t ∨ Adds s t := by
  cases surface with
  | wallpaper color =>
    refine ensures_ok fun t ht => ?_
    cases ht
    exact Or.inl (keeps_of_windows rfl)
  | window id role x y width height title rows =>
    unfold surfaceCommand
    dsimp only
    cases hnone : s.windows.findIdx? fun w => w.id = id with
    | some index =>
      refine ensures_bind fun r hr => ensures_bind fun v hv => ensures_ok ?_
      have hid := clampScroll_id v hv
      rintro t ⟨⟩
      exact Or.inl (keeps_raised hr hid repairFocusScope_windows)
    | none =>
      dsimp only
      split
      · exact ensures_ok (by rintro t ⟨⟩)
      · rename_i hfull
        refine ensures_ok ?_
        rintro t ⟨⟩
        refine Or.inr ⟨_, repairFocusScope_windows, fun hin => ?_, Nat.lt_of_not_le hfull⟩
        obtain ⟨w, hw, he⟩ := List.mem_map.mp hin
        have hne := List.findIdx?_eq_none_iff.mp hnone w hw
        simp only [decide_eq_false_iff_not] at hne
        exact hne he

theorem surfaceCommand_held (surface : Surface) :
    Ensures (s.surfaceCommand surface) fun r => ∀ t, r = some t → Held s t := by
  cases surface with
  | wallpaper color =>
    refine ensures_ok fun t ht => ?_
    cases ht
    exact ⟨rfl, rfl, rfl⟩
  | window id role x y width height title rows =>
    unfold surfaceCommand
    dsimp only
    split
    · refine ensures_bind fun _ _ => ensures_bind fun _ _ => ensures_ok ?_
      rintro t ⟨⟩
      exact Held.repair ⟨rfl, rfl, rfl⟩
    · split
      · exact ensures_ok (by rintro t ⟨⟩)
      · refine ensures_ok ?_
        rintro t ⟨⟩
        exact Held.repair ⟨rfl, rfl, rfl⟩

theorem command_ids (line : Str) : Ensures (s.command line) fun r => Keeps s r.1 ∨ Adds s r.1 := by
  unfold command
  split
  · exact ensures_bind fun t ht => ensures_ok (Or.inl (restoreCommand_keeps _ t ht))
  · exact ensures_bind fun t ht => ensures_ok (Or.inl (minimizeCommand_keeps _ t ht))
  · exact ensures_ok (Or.inl (closeCommand_keeps _))
  · split
    · exact ensures_ok (Or.inl (keeps_of_windows rfl))
    · refine ensures_bind fun r hr => ?_
      cases r with
      | none => exact ensures_ok (Or.inl (keeps_of_windows rfl))
      | some t => exact ensures_ok (surfaceCommand_ids _ _ hr t rfl)
  · exact ensures_ok (Or.inl (keeps_of_windows rfl))

theorem command_single (h : s.Single) (line : Str) : Ensures (s.command line) fun r => r.1.Single := by
  intro r hr
  rcases command_ids line r hr with hk | ⟨v, hv, hnew, -⟩
  · exact h.keeps hk
  · exact h.append hv fun _ => hnew

theorem command_held (line : Str) : Ensures (s.command line) fun r => Held s r.1 := by
  unfold command
  split
  · refine ensures_bind fun t ht => ensures_ok ?_
    unfold restoreCommand at ht
    split at ht
    · cases ht
      exact .refl s
    · obtain ⟨_, -, ht⟩ := bind_eq_ok ht
      cases ht
      exact Held.select ⟨rfl, rfl, rfl⟩
  · refine ensures_bind fun t ht => ensures_ok ?_
    unfold minimizeCommand at ht
    split at ht
    · cases ht
      exact .refl s
    · obtain ⟨_, -, ht⟩ := bind_eq_ok ht
      cases ht
      exact Held.repair ⟨rfl, rfl, rfl⟩
  · exact ensures_ok (Held.repair ⟨rfl, rfl, rfl⟩)
  · split
    · exact ensures_ok (.refl s)
    · refine ensures_bind fun r hr => ?_
      cases r with
      | none => exact ensures_ok (.refl s)
      | some t => exact ensures_ok (surfaceCommand_held _ _ hr t rfl)
  · exact ensures_ok (.refl s)

def pointerState (s : Compositor) : Int × Int × Option (Str × Int × Int) := (s.cursorX, s.cursorY, s.drag)

theorem setFocusScope_pointer (scope : FocusScope) : (s.setFocusScope scope).pointerState = s.pointerState := by
  unfold setFocusScope
  split_ifs <;> rfl

theorem repairFocusScope_pointer : s.repairFocusScope.pointerState = s.pointerState := by
  unfold repairFocusScope
  dsimp only
  split_ifs
  · rfl
  · rfl
  · exact setFocusScope_pointer _
  · exact setFocusScope_pointer _

theorem command_pointer (line : Str) : Ensures (s.command line) fun r => r.1.pointerState = s.pointerState := by
  -- no command touches the cursor, the button or the drag
  unfold command
  split
  · refine ensures_bind fun t ht => ensures_ok ?_
    unfold restoreCommand at ht
    split at ht
    · cases ht
      rfl
    · obtain ⟨_, -, ht⟩ := bind_eq_ok ht
      cases ht
      exact setFocusScope_pointer _
  · refine ensures_bind fun t ht => ensures_ok ?_
    unfold minimizeCommand at ht
    split at ht
    · cases ht
      rfl
    · obtain ⟨_, -, ht⟩ := bind_eq_ok ht
      cases ht
      exact repairFocusScope_pointer
  · exact ensures_ok repairFocusScope_pointer
  · split
    · exact ensures_ok rfl
    · rename_i surface _
      refine ensures_bind fun r hr => ?_
      cases r with
      | none => exact ensures_ok rfl
      | some t =>
        refine ensures_ok ?_
        cases surface with
        | wallpaper color =>
          cases hr
          rfl
        | window id role x y width height title rows =>
          unfold surfaceCommand at hr
          dsimp only at hr
          split at hr
          · obtain ⟨_, -, hr⟩ := bind_eq_ok hr
            obtain ⟨_, -, hr⟩ := bind_eq_ok hr
            cases hr
            exact repairFocusScope_pointer
          · split at hr
            · cases hr
            · cases hr
              exact repairFocusScope_pointer
  · exact ensures_ok rfl

theorem clientCommand_cases {line : Str} {accepted : Bool} {events : List Client.Event}
    (h : s.clientCommand line = .ok (t, accepted, events)) :
    (s.clients.validate line = false ∧ t = s ∧ accepted = false) ∨
    s.clients.validate line = true ∧ accepted = true ∧ t = { s with clients := t.clients } ∧
      s.clients.command line = .ok (t.clients, events) := by
  unfold clientCommand at h
  split at h
  · rename_i hv
    cases h
    exact Or.inl ⟨by simpa using hv, rfl, rfl⟩
  · rename_i hv
    obtain ⟨r, hr, h⟩ := bind_eq_ok h
    cases h
    exact Or.inr ⟨by simpa using hv, rfl, rfl, hr⟩

theorem clientCommand_windows {line : Str} {accepted : Bool} {events : List Client.Event}
    (h : s.clientCommand line = .ok (t, accepted, events)) : t.windows = s.windows := by
  rcases clientCommand_cases h with ⟨-, rfl, -⟩ | ⟨-, -, ht, -⟩
  · rfl
  · rw [ht]

theorem openTestWindow_single (h : s.Single) : Ensures s.openTestWindow fun t => t.Single := by
  unfold openTestWindow
  split
  · exact ensures_ok h
  · refine ensures_bind fun offset _ => ensures_bind fun x _ => ensures_bind fun y _ => ensures_ok ?_
    refine h.append rfl fun hn => ?_
    simp [searches] at hn

/-! ## Runs -/

inductive Reachable (shell : List ShellSurface) : Compositor → Prop where
  | new : Reachable shell (new shell)
  | command {s t : Compositor} {accepted : Bool} (line : Str) (hs : Reachable shell s)
      (h : s.command line = .ok (t, accepted)) : Reachable shell t
  | clientCommand {s t : Compositor} {accepted : Bool} {events : List Client.Event} (line : Str)
      (hs : Reachable shell s) (h : s.clientCommand line = .ok (t, accepted, events)) : Reachable shell t
  | key {s t : Compositor} {action : Option Str} {events : List Client.Event} (scan : UInt8) (text : Option UInt8)
      (reverseFocus extended : Bool) (hs : Reachable shell s)
      (h : s.keyScancode scan text reverseFocus extended = .ok (t, action, events)) : Reachable shell t
  | pointer {s t : Compositor} {action : Option Str} {events : List Client.Event} (packet : UInt32)
      (hs : Reachable shell s) (h : s.pointerPacket packet = .ok (t, action, events)) : Reachable shell t
  | testWindow {s t : Compositor} (hs : Reachable shell s) (h : s.openTestWindow = .ok t) : Reachable shell t

theorem window?_id {surface : ShellSurface} (h : surface.window? = some w) : w.id = surface.id := by
  unfold ShellSurface.window? at h
  split at h
  · cases h
  · obtain ⟨role, -, rfl⟩ := Option.map_eq_some_iff.mp h
    rfl

theorem ids_new_sublist (shell : List ShellSurface) : (new shell).ids.Sublist (shell.map ShellSurface.id) := by
  have h : ∀ l : List ShellSurface, ((l.filterMap ShellSurface.window?).map Window.id).Sublist
    (l.map ShellSurface.id) := by
    intro l
    induction l with
    | nil => exact .slnil
    | cons surface l ih =>
      rw [List.map_cons]
      cases hw : surface.window? with
      | none =>
        rw [List.filterMap_cons_none hw]
        exact ih.cons _
      | some w =>
        rw [List.filterMap_cons_some hw, List.map_cons, window?_id hw]
        exact ih.cons_cons _
  exact (h _).trans ((List.take_sublist _ _).map _)

theorem Reachable.single {shell : List ShellSurface} (hshell : (shell.map ShellSurface.id).Nodup)
    (h : Reachable shell s) : s.Single := by
  induction h with
  | new => exact fun id _ => List.nodup_iff_count_le_one.mp (hshell.sublist (ids_new_sublist shell)) id
  | command line _ h ih => exact command_single ih line _ h
  | clientCommand line _ h ih => exact ih.keeps (keeps_of_windows (clientCommand_windows h))
  | key scan text reverseFocus extended _ h ih => exact ih.keeps (keyScancode_framed _ _ _ _ _ h).keeps
  | pointer packet _ h ih => exact ih.keeps (pointerPacket_keeps h).1
  | testWindow _ h ih => exact openTestWindow_single ih _ h

theorem openTestWindow_held : Ensures s.openTestWindow (Held s) := by
  unfold openTestWindow
  split
  · exact ensures_ok (.refl s)
  · exact ensures_bind fun _ _ => ensures_bind fun _ _ => ensures_bind fun _ _ => ensures_ok ⟨rfl, rfl, rfl⟩

theorem Reachable.clients {shell : List ShellSurface} (h : Reachable shell s) : s.clients.Reachable := by
  induction h with
  | new => exact .new
  | command line _ h ih =>
    have hc := (command_held line _ h).clients
    exact hc ▸ ih
  | clientCommand line _ h ih =>
    rcases clientCommand_cases h with ⟨-, rfl, -⟩ | ⟨-, -, -, hc⟩
    · exact ih
    · exact ih.command line hc
  | key scan text reverseFocus extended _ h ih =>
    rw [(keyScancode_framed _ _ _ _ _ h).clients]
    exact ih
  | pointer packet _ h ih =>
    obtain ⟨-, x, y, _, hx, hy, hp⟩ := pointerPacket_keeps h
    exact .pointer _ _ hx hy ih hp
  | testWindow _ h ih =>
    rw [(openTestWindow_held _ h).clients]
    exact ih

end Compositor

end Pippin.Native
