import Pippin.Native.Maximize
import Pippin.Native.Sizes
import Pippin.Native.TabCycle

/-! Every step returns. Keys and packets compute with the place of a surface only when the pointer
is in its frame or the surface is dragged, and then the place is near the screen. -/

namespace Pippin.Native
open Checked
open Pippin.Client (WIDTH HEIGHT Event)

/-- A place no further off the screen than a surface is wide and high. -/
structure Near (x y : Int) : Prop where
  x : -1024 ≤ x ∧ x ≤ 1024
  y : -768 ≤ y ∧ y ≤ 768

variable {s t : Compositor} {w : Window} {r : Row} {x y : Int} {i index : Nat} {shell : List ShellSurface}

theorem Window.Spans.near (h : w.Spans x y) (hw : w.Fits) (hx : 0 ≤ x ∧ x ≤ 1023) (hy : 0 ≤ y ∧ y ≤ 767) :
    Near w.x w.y := by
  obtain ⟨-, -, hwidth, hheight⟩ := hw.frame
  obtain ⟨-, hleft, hright, htop, hbottom⟩ := h
  dsimp only at hleft hright htop hbottom
  exact ⟨by omega, by omega⟩

namespace Window

theorem clampScroll_returns (hw : w.Fits) : Returns w.clampScroll :=
  (maxScroll_yields hw.rows hw.frame.height).returns.bind fun _ _ => returns_ok _

theorem scrollWindow_returns (hw : w.Fits) (delta : Int) : Returns (w.scrollWindow delta) := by
  unfold scrollWindow
  split
  · exact returns_ok _
  · refine Returns.bind ?_ fun _ _ => returns_ok _
    exact (maxScroll_yields hw.rows hw.frame.height).returns.bind fun _ _ => returns_ok _

theorem contentClip_returns (hw : w.Fits) (h : Near w.x w.y) : Returns w.contentClip := by
  obtain ⟨-, -, hwidth, hheight⟩ := hw.frame
  obtain ⟨hx, hy⟩ := h
  unfold contentClip headerHeight
  dsimp only
  split <;> simp (disch := omega) only [i32_eq, ok_bind] <;> exact returns_ok _

theorem localContentY_returns (h : Near w.x w.y) (hy : 0 ≤ y ∧ y ≤ 767) : Returns (w.localContentY y) := by
  have hplace := h.y
  unfold localContentY
  rw [i32_eq (by omega) (by omega), ok_bind]
  exact returns_ok _

theorem titleButton_returns (h : Near w.x w.y) (hx : 0 ≤ x ∧ x ≤ 1023) : Returns (w.titleButton x y) := by
  obtain ⟨hplaceX, hplaceY⟩ := h
  unfold titleButton
  split
  · exact returns_ok _
  · rw [i32_eq (by omega) (by omega), ok_bind]
    split
    · exact returns_ok _
    · rw [i32_eq (by omega) (by omega), ok_bind]
      split
      · exact returns_ok _
      · rw [i32_eq (v := w.x + 15) (by omega) (by omega), ok_bind, i32_eq (by omega) (by omega), ok_bind]
        split_ifs <;> exact returns_ok _

end Window

theorem within_returns {f : Rect} (hx : -2 ^ 31 ≤ f.1 + f.2.2.1 ∧ f.1 + f.2.2.1 < 2 ^ 31)
    (hy : -2 ^ 31 ≤ f.2.1 + f.2.2.2 ∧ f.2.1 + f.2.2.2 < 2 ^ 31) : Returns (within x y f) :=
  ⟨_, within_eq (fun _ => hx) fun _ => hy⟩

namespace Compositor

structure Laid (s : Compositor) : Prop where
  fits : s.Fits
  small : ∀ w ∈ s.windows, w.Small
  cursor : s.CursorOn

theorem Laid.congr (h : s.Laid) (hw : t.windows = s.windows) (hp : t.pointerState = s.pointerState) : t.Laid := by
  obtain ⟨hfits, hsmall, hx, hy⟩ := h
  have hcursorX : t.cursorX = s.cursorX := congrArg Prod.fst hp
  have hcursorY : t.cursorY = s.cursorY := congrArg (fun p => p.2.1) hp
  exact ⟨fun w hin => hfits w (hw ▸ hin), fun w hin => hsmall w (hw ▸ hin), hcursorX ▸ hx, hcursorY ▸ hy⟩

theorem Laid.scrolled (h : s.Laid) (hs : List.Forall₂ Window.Scroll s.windows t.windows)
    (hp : t.pointerState = s.pointerState) : t.Laid := by
  obtain ⟨hfits, hsmall, hx, hy⟩ := h
  have hcursorX : t.cursorX = s.cursorX := congrArg Prod.fst hp
  have hcursorY : t.cursorY = s.cursorY := congrArg (fun p => p.2.1) hp
  refine ⟨forall_related (fun w v hw hv => hw.shift hv.shift) hfits hs, ?_, hcursorX ▸ hx, hcursorY ▸ hy⟩
  refine forall_related (fun w v hw hv => ?_) hsmall hs
  obtain ⟨scrollY, rfl, -⟩ := hv
  exact hw.congr rfl rfl

/-! ## Hit tests -/

theorem topAt_yields (hs : s.Fits) (hx : x ≤ 1023) (hy : y ≤ 767) : Yields (s.topAt x y) fun top =>
    ∀ i, top = some i → ∃ w, s.windows[i]? = some w ∧ w.Spans x y := by
  refine (yields_rposition fun w hw => under_eq (hs w hw) hx hy).mono fun top htop i hi => ?_
  obtain ⟨w, hw, hspans⟩ := htop i hi
  exact ⟨w, hw, of_decide_eq_true hspans⟩

theorem rowUnder_returns (hw : w.Small) (hr : w.rows[i]? = some r) : Returns (s.rowUnder w x y (r, i)) := by
  unfold rowUnder
  split
  · exact returns_ok _
  · obtain ⟨f, hf, hx, hy, hwidth, hheight⟩ := filteredFrame_yields (s := s) (i := i) hw (hw.row hr)
    rw [hf, ok_bind]
    exact within_returns (by omega) (by omega)

theorem controlUnder_returns (hw : w.Small) (hr : w.rows[i]? = some r) : Returns (s.controlUnder w x y (r, i)) := by
  unfold controlUnder
  dsimp only
  split
  · exact returns_ok _
  · obtain ⟨f, hf, hx, hy, hwidth, hheight⟩ := filteredFrame_yields (s := s) (i := i) hw (hw.row hr)
    rw [hf, ok_bind]
    exact within_returns (by omega) (by omega)

theorem position_rows_returns {f : Row × Nat → Checked Bool} (h : ∀ i r, w.rows[i]? = some r → Returns (f (r, i))) :
    Returns (position f w.rows.zipIdx) := by
  refine position_returns fun p hp => ?_
  obtain ⟨k, hk⟩ := List.mem_iff_getElem?.mp hp
  obtain ⟨rfl, hr⟩ := getElem?_zipIdx hk
  exact h p.2 p.1 hr

theorem controlAt_returns (hs : s.Fits) (hsmall : ∀ w ∈ s.windows, w.Small) (hx : 0 ≤ x ∧ x ≤ 1023)
    (hy : 0 ≤ y ∧ y ≤ 767) : Returns (s.controlAt x y) := by
  unfold controlAt
  refine (topAt_yields hs hx.2 hy.2).returns.bind fun top htop => ?_
  cases top with
  | none => exact returns_ok _
  | some index =>
    obtain ⟨w, hget, hspans⟩ := (topAt_yields hs hx.2 hy.2).of_eq htop index rfl
    have hin := List.mem_of_getElem? hget
    have hnear := hspans.near (hs w hin) hx hy
    dsimp only
    rw [get_eq hget, ok_bind]
    refine (Window.contentClip_returns (hs w hin) hnear).bind fun clip _ => ?_
    split
    · exact returns_ok _
    · have hplace := hnear.x
      refine (returns_i32 (by omega) (by omega)).bind fun localX _ => ?_
      refine (Window.localContentY_returns hnear hy).bind fun localY _ => ?_
      refine Returns.bind ?_ fun _ _ => returns_ok _
      exact position_rows_returns fun i r hr => controlUnder_returns (hsmall w hin) hr

theorem Laid.rehover (h : s.Laid) : Returns s.rehover :=
  (controlAt_returns h.fits h.small h.cursor.x h.cursor.y).bind fun _ _ => returns_ok _

theorem Laid.top (h : s.Laid) (htop : s.topAt s.cursorX s.cursorY = .ok (some index)) :
    ∃ w ∈ s.windows, s.windows[index]? = some w ∧ w.Spans s.cursorX s.cursorY ∧ Near w.x w.y := by
  obtain ⟨w, hget, hspans⟩ := (topAt_yields h.fits h.cursor.x.2 h.cursor.y.2).of_eq htop index rfl
  have hin := List.mem_of_getElem? hget
  exact ⟨w, hin, hget, hspans, hspans.near (h.fits w hin) h.cursor.x h.cursor.y⟩

theorem setWindow_returns (hw : s.windows[index]? = some w) (v : Window) : Returns (s.setWindow index v) := by
  unfold setWindow
  rw [modify_eq _ (List.getElem?_eq_some_iff.mp hw).1]
  exact returns_ok _

/-! ## Scrolling -/

theorem Laid.scrollUnderPointer (h : s.Laid) (delta : Int) : Returns (s.scrollUnderPointer delta) := by
  unfold Compositor.scrollUnderPointer
  refine (topAt_yields h.fits h.cursor.x.2 h.cursor.y.2).returns.bind fun top htop => ?_
  cases top with
  | none => exact returns_ok _
  | some index =>
    obtain ⟨w, hin, hget, -, hnear⟩ := h.top htop
    dsimp only
    rw [get_eq hget, ok_bind]
    split
    · exact returns_ok _
    · refine (Window.contentClip_returns (h.fits w hin) hnear).bind fun clip _ => ?_
      split
      · exact returns_ok _
      · refine (Window.scrollWindow_returns (h.fits w hin) delta).bind fun r _ => ?_
        exact (setWindow_returns hget _).bind fun _ _ => returns_ok _

theorem getElem?_of_findIdx? {f : Window → Bool} (h : s.windows.findIdx? f = some index) :
    ∃ w, s.windows[index]? = some w :=
  ⟨_, List.getElem?_eq_getElem (List.findIdx?_eq_some_iff_getElem.mp h).1⟩

theorem scopeIndex_some (h : s.scopeIndex = some index) : ∃ w, s.windows[index]? = some w := by
  unfold scopeIndex at h
  split at h
  · cases h
  · exact getElem?_of_findIdx? h

theorem scrollScopeBy_returns (hs : s.Fits) (delta : Int) : Returns (s.scrollScopeBy delta) := by
  unfold scrollScopeBy
  cases hindex : s.scopeIndex with
  | none => exact returns_ok _
  | some index =>
    obtain ⟨w, hget⟩ := scopeIndex_some hindex
    dsimp only
    rw [get_eq hget, ok_bind]
    refine (Window.scrollWindow_returns (hs w (List.mem_of_getElem? hget)) delta).bind fun r _ => ?_
    exact (setWindow_returns hget _).bind fun _ _ => returns_ok _

theorem scrollScopeTo_returns (hs : s.Fits) (toEnd : Bool) : Returns (s.scrollScopeTo toEnd) := by
  unfold scrollScopeTo
  cases hindex : s.scopeIndex with
  | none => exact returns_ok _
  | some index =>
    obtain ⟨w, hget⟩ := scopeIndex_some hindex
    have hw := hs w (List.mem_of_getElem? hget)
    dsimp only
    rw [get_eq hget, ok_bind]
    refine Returns.bind ?_ fun target _ => (setWindow_returns hget _).bind fun _ _ => returns_ok _
    cases toEnd with
    | true => exact (Window.maxScroll_yields hw.rows hw.frame.height).returns
    | false => exact returns_ok _

theorem scopePageStep_yields (hs : s.Fits) : Yields s.scopePageStep fun step => 0 ≤ step ∧ step ≤ 768 := by
  unfold scopePageStep
  split
  · exact yields_ok (by decide)
  · split
    · rename_i w hshown
      have hheight := (hs w (shown_spec hshown).1).frame.height
      unfold headerHeight scrollLine
      rw [i32_eq (by omega) (by omega), ok_bind, i32_eq (by omega) (by omega)]
      exact yields_ok (by omega)
    · exact yields_ok (by decide)

theorem navigate_returns (hs : s.Fits) (scan : UInt8) : Returns (s.navigate scan) := by
  unfold navigate
  split_ifs
  · exact scrollScopeBy_returns hs _
  · exact scrollScopeBy_returns hs _
  · refine (scopePageStep_yields hs).returns.bind fun step hstep => ?_
    have hrange := (scopePageStep_yields hs).of_eq hstep
    rw [i32_eq (by omega) (by omega), ok_bind]
    exact scrollScopeBy_returns hs _
  · exact (scopePageStep_yields hs).returns.bind fun step _ => scrollScopeBy_returns hs _
  · exact scrollScopeTo_returns hs _
  · exact scrollScopeTo_returns hs _
  · exact returns_ok _

/-! ## Keys -/

theorem ensureFocusedVisible_returns (hs : s.Fits) (hsmall : ∀ w ∈ s.windows, w.Small) :
    Returns s.ensureFocusedVisible := by
  unfold ensureFocusedVisible
  split
  · exact returns_ok _
  · split
    · exact returns_ok _
    · rename_i hfind
      obtain ⟨w, hget⟩ := getElem?_of_findIdx? hfind
      have hin := List.mem_of_getElem? hget
      rw [get_eq hget, ok_bind]
      split
      · exact returns_ok _
      · rename_i row hr
        split
        · exact returns_ok _
        · have hw := hs w hin
          have hscroll := hw.scroll
          have hheight := hw.frame.height
          obtain ⟨-, hy, -, hrow, -⟩ := (hsmall w hin).row hr
          unfold headerHeight
          dsimp only
          rw [i32_eq (v := w.height - 1) (by omega) (by omega), ok_bind,
            i32_eq (v := row.y - w.scrollY) (by omega) (by omega), ok_bind,
            i32_eq (v := row.y + row.height) (by omega) (by omega), ok_bind,
            i32_eq (v := row.y + row.height - w.scrollY) (by omega) (by omega), ok_bind]
          refine Returns.bind ?_ fun target _ => ?_
          · split_ifs
            · exact returns_i32 (by omega) (by omega)
            · exact returns_i32 (by omega) (by omega)
            · exact returns_ok _
          · refine Returns.bind ?_ fun v _ => setWindow_returns hget v
            exact (Window.maxScroll_yields hw.rows hw.frame.height).returns.bind fun _ _ => returns_ok _

theorem Scrolled.pointer (h : Scrolled s t) : t.pointerState = s.pointerState := by rw [h.rest]; rfl

theorem Laid.tabKey (h : s.Laid) (reverseFocus : Bool) : Returns (s.tabKey reverseFocus) := by
  unfold Compositor.tabKey
  rw [focusNext_eq, ok_bind]
  have hnext : ∀ focusedControl, Laid { s.repairFocusScope with focusedControl } := fun _ =>
    h.congr repairFocusScope_windows repairFocusScope_pointer
  refine (ensureFocusedVisible_returns (hnext _).fits (hnext _).small).bind fun u hu => ?_
  have hscrolled := ensureFocusedVisible_scrolled u hu
  exact ((hnext _).scrolled hscrolled.windows hscrolled.pointer).rehover

theorem Laid.plainKey (h : s.Laid) (scan : UInt8) (text : Option UInt8) (reverseFocus : Bool) :
    Returns (s.plainKey scan text reverseFocus) := by
  unfold Compositor.plainKey
  split_ifs
  · exact (h.tabKey reverseFocus).bind fun _ _ => returns_ok _
  · exact returns_ok _
  · exact returns_ok _

theorem Laid.keyScancode (h : s.Laid) (hu : s.FocusUnique) (hf : s.FieldsSound) (scan : UInt8) (text : Option UInt8)
    (reverseFocus extended : Bool) : Returns (s.keyScancode scan text reverseFocus extended) := by
  unfold Compositor.keyScancode
  split
  · exact returns_ok _
  · obtain ⟨r, hr, -⟩ := handleEditKey_spec hu hf scan text extended
    obtain ⟨edits, hedits⟩ := handleEditKey_edits scan text extended r hr
    obtain ⟨s₁, edited, action⟩ := r
    have h₁ : s₁.Laid := by
      subst hedits
      exact h.congr rfl rfl
    rw [hr, ok_bind]
    cases edited with
    | true =>
      refine Returns.bind ?_ fun _ _ => returns_ok _
      exact (h₁.congr repairFocusScope_windows repairFocusScope_pointer).rehover
    | false =>
      dsimp only
      have hnavigate : Returns (if extended then s₁.navigate scan else .ok (s₁, false)) := by
        split
        · exact navigate_returns h₁.fits scan
        · exact returns_ok _
      refine hnavigate.bind fun r hr => ?_
      obtain ⟨s₂, handled⟩ := r
      have hscrolled : Scrolled s₁ s₂ := by
        split at hr
        · exact navigate_scrolled scan _ hr
        · cases hr
          exact .refl _
      have h₂ := h₁.scrolled hscrolled.windows hscrolled.pointer
      cases handled with
      | true => exact h₂.rehover.bind fun _ _ => returns_ok _
      | false => exact h₂.plainKey scan text reverseFocus

/-! ## Packets -/

theorem placeEditCursor_returns {windowId : Str} {row : Nat} {localX width label : Int}
    (hwidth : 0 ≤ width ∧ width ≤ 2048) (hx : -2 ^ 17 ≤ localX ∧ localX ≤ 2 ^ 17) (hlabel : 0 ≤ label ∧ label ≤ 2048) :
    Returns (s.placeEditCursor windowId row localX width label) := by
  have room : IsI32 (width - 28) ∧ IsI32 (width - 28 - label) := by
    unfold IsI32
    omega
  have column : IsI32 (localX - 14) ∧ IsI32 (localX - 14 - label) := by
    unfold IsI32
    omega
  obtain ⟨e, he, heq⟩ := placeEditCursor_eq s windowId row room column
  rw [heq]
  unfold setEdit
  rw [modify_eq _ (List.getElem?_eq_some_iff.mp he).1]
  exact returns_ok _

theorem focusRow_returns {localX : Int} (hw : w.Small) (hx : -4096 ≤ localX ∧ localX ≤ 4096) (row : Option Nat)
    (inRows : Bool) : Returns (s.focusRow w localX row inRows) := by
  unfold focusRow
  split
  · exact returns_ok _
  · split
    · exact returns_ok _
    · rename_i control i hhit
      obtain ⟨k, -, hhit⟩ := Option.bind_eq_some_iff.mp hhit
      obtain ⟨r, hr, heq⟩ := Option.map_eq_some_iff.mp hhit
      cases heq
      have hsmall := hw.row hr
      have htext := hsmall.text
      split
      · exact returns_ok _
      · split
        · unfold editPress
          obtain ⟨f, hf, hfx, -, hfwidth, -⟩ := filteredFrame_yields (s := { s with focusedControl := some (w.id, i) })
            (i := i) hw hsmall
          rw [hf, ok_bind]
          have hlabel : Yields (if control.kind = kindEdit then i32 (control.text.len * 12) else pure 0)
              fun label => 0 ≤ label ∧ label ≤ 2048 := by
            split
            · exact ⟨_, i32_eq (by omega) (by omega), by omega⟩
            · exact yields_ok (by decide)
          refine hlabel.returns.bind fun label hl => ?_
          have hrange := hlabel.of_eq hl
          rw [i32_eq (by omega) (by omega), ok_bind]
          exact placeEditCursor_returns hfwidth (by omega) hrange
        · exact returns_ok _

theorem pressedRow_returns {localX localY : Int} (hw : w.Small) (hnear : Near w.x w.y) (hcursor : s.CursorOn) :
    Returns (s.pressedRow w localX localY) := by
  have hcursorY := hcursor.y
  have hplace := hnear.y
  unfold pressedRow
  split
  · refine Returns.bind ?_ fun _ _ => returns_ok _
    exact position_rows_returns fun i r hr => rowUnder_returns hw hr
  · split
    · exact returns_ok _
    · split
      · exact returns_ok _
      · rw [i32_eq (v := s.cursorY - w.y) (by omega) (by omega), ok_bind, i32_eq (by omega) (by omega), ok_bind,
          i32_eq (by omega) (by omega)]
        exact returns_ok _

/-- The cursor is on the screen, and a grabbed window is held at a point of the screen. -/
structure PointerOn (s : Compositor) : Prop where
  cursor : s.CursorOn
  drag : ∀ id x y, s.drag = some (id, x, y) → (0 ≤ x ∧ x ≤ 1023) ∧ 0 ≤ y ∧ y ≤ 767

theorem PointerOn.congr (h : s.PointerOn) (hp : t.pointerState = s.pointerState) : t.PointerOn := by
  obtain ⟨⟨hx, hy⟩, hdrag⟩ := h
  have hcursorX : t.cursorX = s.cursorX := congrArg Prod.fst hp
  have hcursorY : t.cursorY = s.cursorY := congrArg (fun p => p.2.1) hp
  have hd : t.drag = s.drag := congrArg (fun p => p.2.2) hp
  exact ⟨⟨hcursorX ▸ hx, hcursorY ▸ hy⟩, fun id x y ht => hdrag id x y (hd ▸ ht)⟩

theorem grabbed_yields (hw : w.Fits) (hspans : w.Spans s.cursorX s.cursorY) (hp : s.PointerOn) :
    Yields (s.grabbed w) fun drag => ∀ id x y, drag = some (id, x, y) → (0 ≤ x ∧ x ≤ 1023) ∧ 0 ≤ y ∧ y ≤ 767 := by
  obtain ⟨⟨hx, hy⟩, hd⟩ := hp
  obtain ⟨hplaceX, hplaceY⟩ := hspans.near hw hx hy
  obtain ⟨-, -, hwidth, hheight⟩ := hw.frame
  obtain ⟨-, hleft, hright, htop, hbottom⟩ := hspans
  dsimp only at hleft hright htop hbottom
  unfold grabbed headerHeight
  split
  · exact yields_ok hd
  · rw [i32_eq (v := w.y + 44) (by omega) (by omega), ok_bind]
    split
    · exact yields_ok hd
    · rw [i32_eq (by omega) (by omega), ok_bind, i32_eq (by omega) (by omega)]
      refine yields_ok ?_
      rintro id x y ⟨⟩
      omega

theorem titlePress_yields (hw : w.Fits) (hp : s.PointerOn) (button : TitleButton) :
    Yields (s.titlePress w button) fun r => r.1.PointerOn := by
  have repaired : ∀ windows, (repairFocusScope { s with windows }).PointerOn := fun _ =>
    hp.congr repairFocusScope_pointer
  cases button with
  | close =>
    unfold titlePress
    dsimp only
    split
    · exact yields_ok (repaired s.windows)
    · exact yields_ok (repaired _)
  | minimize => exact yields_ok (repaired _)
  | maximize =>
    obtain ⟨v, hv⟩ := Window.clampScroll_returns hw.toggled
    unfold titlePress
    dsimp only
    rw [hv]
    exact yields_ok (hp.congr rfl)

theorem Laid.pointerDown (h : s.Laid) (hp : s.PointerOn) : Yields s.pointerDown fun r => r.1.PointerOn := by
  unfold Compositor.pointerDown
  refine Yields.bind (topAt_yields h.fits h.cursor.x.2 h.cursor.y.2).returns.yields fun top htop => ?_
  cases top with
  | none => exact yields_ok (hp.congr (setFocusScope_pointer _))
  | some index =>
    obtain ⟨w, hin, hget, hspans, hnear⟩ := h.top htop
    have hw := h.fits w hin
    have hsmall := h.small w hin
    dsimp only
    rw [remove_eq hget, ok_bind]
    dsimp only
    have hpointer := setFocusScope_pointer (s := { s with windows := s.windows.eraseIdx index }) w.scopeForWindow
    generalize setFocusScope { s with windows := s.windows.eraseIdx index } w.scopeForWindow = u at hpointer ⊢
    have hx : u.cursorX = s.cursorX := congrArg Prod.fst hpointer
    have hy : u.cursorY = s.cursorY := congrArg (fun p => p.2.1) hpointer
    have hp : u.PointerOn := hp.congr hpointer
    have hcursor := hp.cursor
    have hspans : w.Spans u.cursorX u.cursorY := hx ▸ hy ▸ hspans
    refine Yields.bind (Window.titleButton_returns hnear hcursor.x).yields fun button _ => ?_
    cases button with
    | some button => exact titlePress_yields hw hp button
    | none =>
      have hplace := hnear.x
      have hcursorX := hcursor.x
      rw [i32_eq (by omega) (by omega), ok_bind]
      refine Yields.bind (Window.localContentY_returns hnear hcursor.y).yields fun localY _ => ?_
      refine Yields.bind (pressedRow_returns hsmall hnear hcursor).yields fun r _ => ?_
      refine Yields.bind (focusRow_returns hsmall (by omega) r.1 r.2).yields fun t ht => ?_
      obtain ⟨focusedControl, edits, rfl⟩ := focusRow_parts _ _ _ t ht
      have hp' : PointerOn { u with focusedControl, edits } := hp.congr rfl
      exact (grabbed_yields (s := { u with focusedControl, edits }) hw hspans hp').bind fun drag hdrag =>
        yields_ok ⟨⟨hcursor.x, hcursor.y⟩, hdrag⟩

theorem packetByte_bounds (packet : UInt32) (shift : Nat) :
    -128 ≤ packetByte packet shift ∧ packetByte packet shift < 128 := by
  have hbyte := Nat.mod_lt (packet.toNat / 2 ^ shift) (by decide : 0 < 256)
  unfold packetByte
  dsimp only
  split <;> omega

theorem Laid.wheelScroll (h : s.Laid) (handled : Bool) {wheel : Int} (hwheel : -128 ≤ wheel ∧ wheel < 128) :
    Returns (s.wheelScroll handled wheel) := by
  unfold Compositor.wheelScroll saturate scrollLine
  split
  · exact returns_ok _
  · rw [i32_eq (by omega) (by omega), ok_bind]
    exact (h.scrollUnderPointer _).bind fun _ _ => returns_ok _

theorem Laid.hover (h : s.Laid) (handled : Bool) : Returns (s.hover handled) := by
  unfold Compositor.hover
  split
  · exact returns_ok _
  · exact h.rehover

theorem Laid.trackPointer (h : s.Laid) (hc : s.clients.Inv) (packet : UInt32) : Returns (s.trackPointer packet) := by
  obtain ⟨hfits, hsmall, hx, hy⟩ := h
  have hdx := packetByte_bounds packet 8
  have hdy := packetByte_bounds packet 16
  unfold Compositor.trackPointer
  rw [i32_eq (by omega) (by omega), ok_bind, i32_eq (by omega) (by omega), ok_bind]
  dsimp only
  have hcursorX : 0 ≤ Client.clamp (s.cursorX + packetByte packet 8) 0 (WIDTH - 1) ∧
      Client.clamp (s.cursorX + packetByte packet 8) 0 (WIDTH - 1) ≤ 1023 := clamp_bounds (by decide)
  have hcursorY : 0 ≤ Client.clamp (s.cursorY - packetByte packet 16) 0 (HEIGHT - 1) ∧
      Client.clamp (s.cursorY - packetByte packet 16) 0 (HEIGHT - 1) ≤ 767 := clamp_bounds (by decide)
  refine (Client.WindowServer.pointer_yields hc hcursorX hcursorY _ _).returns.bind fun r _ => ?_
  have h₁ : Laid { s with
      cursorX := Client.clamp (s.cursorX + packetByte packet 8) 0 (WIDTH - 1)
      cursorY := Client.clamp (s.cursorY - packetByte packet 16) 0 (HEIGHT - 1)
      clients := r.2.1 } := ⟨hfits, hsmall, hcursorX, hcursorY⟩
  refine (h₁.wheelScroll _ (packetByte_bounds packet 24)).bind fun s₂ h₂ => ?_
  have hscrolled := wheelScroll_scrolled _ _ s₂ h₂
  exact ((h₁.scrolled hscrolled.windows hscrolled.pointer).hover _).bind fun _ _ => returns_ok _

theorem Laid.tracked {packet : UInt32} {handled : Bool} {events : List Event} (h : s.Laid)
    (ht : s.trackPointer packet = .ok (t, handled, events)) : t.Laid := by
  have hstill := (trackPointer_still ht).windows
  refine ⟨forall_related (fun w v hw hv => hw.shift hv.shift) h.fits hstill, ?_, trackPointer_cursor ht⟩
  refine forall_related (fun w v hw hv => ?_) h.small hstill
  obtain ⟨scrollY, rfl, -⟩ := hv
  exact hw.congr rfl rfl

theorem Laid.release (h : s.Laid) (handled : Bool) : Returns (s.release handled) := by
  unfold Compositor.release
  refine Returns.bind ?_ fun _ _ => returns_ok _
  split
  · exact returns_ok _
  · unfold releaseControl
    split
    · exact returns_ok _
    · refine (controlAt_returns h.fits h.small h.cursor.x h.cursor.y).bind fun c _ => ?_
      split <;> exact returns_ok _

theorem Laid.pressOrRelease (h : s.Laid) (hp : s.PointerOn) (left handled : Bool) :
    Yields (s.pressOrRelease left handled) fun r => r.1.PointerOn := by
  unfold Compositor.pressOrRelease
  split
  · have h' : Laid { s with pressedControl := s.hoveredControl } := h.congr rfl rfl
    exact h'.pointerDown (hp.congr rfl)
  · split
    · obtain ⟨r, hr⟩ := h.release handled
      rw [hr]
      obtain ⟨action, -, hr⟩ := bind_eq_ok hr
      cases hr
      exact yields_ok (hp.congr rfl)
    · exact yields_ok hp

theorem PointerOn.dragWindow (h : s.PointerOn) : Returns s.dragWindow := by
  obtain ⟨⟨hx, hy⟩, h⟩ := h
  unfold Compositor.dragWindow
  split
  · exact returns_ok _
  · rename_i id offsetX offsetY hdrag
    obtain ⟨hoffsetX, hoffsetY⟩ := h id offsetX offsetY hdrag
    split
    · exact returns_ok _
    · rename_i index hfind
      rw [i32_eq (by omega) (by omega), ok_bind, i32_eq (by omega) (by omega), ok_bind]
      dsimp only
      rw [modify_eq _ (List.findIdx?_eq_some_iff_getElem.mp hfind).1]
      exact returns_ok _

theorem Laid.pointerPacket (h : s.Laid) (hc : s.clients.Inv) (hp : s.PointerOn) (packet : UInt32) :
    Yields (s.pointerPacket packet) fun r => r.1.PointerOn := by
  unfold Compositor.pointerPacket
  refine Yields.bind (h.trackPointer hc packet).yields fun r hr => ?_
  obtain ⟨s₁, handled, events⟩ := r
  have h₁ := h.tracked hr
  have hp₁ : s₁.PointerOn := ⟨h₁.cursor, fun id x y hd => hp.drag id x y ((trackPointer_still hr).drag ▸ hd)⟩
  refine (h₁.pressOrRelease hp₁ _ handled).bind fun r hp₂ => ?_
  dsimp only
  unfold Compositor.dragOrDrop
  split
  · refine Yields.bind hp₂.dragWindow.yields fun t ht => yields_ok ?_
    have hshifted := (dragWindow_shifted t ht).rest
    exact hp₂.congr (by rw [hshifted]; rfl)
  · exact yields_ok ⟨⟨hp₂.cursor.x, hp₂.cursor.y⟩, nofun⟩

/-! ## Commands -/

theorem surfaceCommand_returns (hs : s.Fits) {payload : Str} {surface : Surface}
    (hp : parseSurface payload = some surface) : Returns (s.surfaceCommand surface) := by
  cases surface with
  | wallpaper color => exact returns_ok _
  | window id role x y width height title rows =>
    unfold surfaceCommand
    dsimp only
    split
    · rename_i index hfind
      obtain ⟨w, hget⟩ := getElem?_of_findIdx? hfind
      rw [remove_eq hget, ok_bind]
      dsimp only
      obtain ⟨hframe, hplain⟩ := parseSurface_window hp
      have hw := hs w (List.mem_of_getElem? hget)
      refine Returns.bind (Window.clampScroll_returns ⟨hframe, hw.restore, fun r hr => ?_, hw.scroll⟩)
        fun _ _ => returns_ok _
      obtain ⟨text, action, kind, rfl⟩ := hplain r hr
      exact plainRow_fits text action kind
    · split <;> exact returns_ok _

theorem command_returns (hs : s.Fits) (line : Str) : Returns (s.command line) := by
  unfold command
  split
  · refine Returns.bind ?_ fun _ _ => returns_ok _
    unfold restoreCommand
    split
    · exact returns_ok _
    · rename_i index hfind
      obtain ⟨w, hget⟩ := getElem?_of_findIdx? hfind
      rw [remove_eq hget]
      exact returns_ok _
  · refine Returns.bind ?_ fun _ _ => returns_ok _
    unfold minimizeCommand
    split
    · exact returns_ok _
    · rename_i index hfind
      rw [modify_eq _ (List.findIdx?_eq_some_iff_getElem.mp hfind).1]
      exact returns_ok _
  · exact returns_ok _
  · split
    · exact returns_ok _
    · rename_i surface hp
      refine (surfaceCommand_returns hs hp).bind fun r _ => ?_
      cases r <;> exact returns_ok _
  · exact returns_ok _

theorem clientCommand_returns (hc : s.clients.Inv) (line : Str) : Returns (s.clientCommand line) := by
  unfold clientCommand
  split
  · exact returns_ok _
  · exact (Client.WindowServer.command_yields hc line).returns.bind fun _ _ => returns_ok _

/-! ## Runs -/

theorem rehover_pointer : Ensures s.rehover fun t => t.pointerState = s.pointerState :=
  ensures_bind fun _ _ => ensures_ok rfl

theorem tabKey_pointer (reverseFocus : Bool) :
    Ensures (s.tabKey reverseFocus) fun t => t.pointerState = s.pointerState := by
  unfold tabKey
  rw [focusNext_eq, ok_bind]
  refine ensures_bind fun u hu => ensures_bind fun _ _ => ensures_ok ?_
  exact (ensureFocusedVisible_scrolled u hu).pointer.trans repairFocusScope_pointer

theorem plainKey_pointer (scan : UInt8) (text : Option UInt8) (reverseFocus : Bool) :
    Ensures (s.plainKey scan text reverseFocus) fun r => r.1.pointerState = s.pointerState := by
  unfold plainKey
  split_ifs
  · exact ensures_bind fun t ht => ensures_ok (tabKey_pointer reverseFocus t ht)
  · unfold activateKey
    split <;> exact ensures_ok repairFocusScope_pointer
  · exact ensures_ok rfl

theorem keyScancode_pointer (scan : UInt8) (text : Option UInt8) (reverseFocus extended : Bool) :
    Ensures (s.keyScancode scan text reverseFocus extended) fun r => r.1.pointerState = s.pointerState := by
  unfold keyScancode
  split
  · exact ensures_ok rfl
  · refine ensures_bind fun r hr => ?_
    obtain ⟨edits, hedits⟩ := handleEditKey_edits scan text extended r hr
    obtain ⟨s₁, edited, action⟩ := r
    have k₁ : s₁.pointerState = s.pointerState := by
      subst hedits
      rfl
    cases edited with
    | true =>
      exact ensures_bind fun t ht => ensures_ok ((rehover_pointer t ht).trans (repairFocusScope_pointer.trans k₁))
    | false =>
      refine ensures_bind fun r hr => ?_
      obtain ⟨s₂, handled⟩ := r
      have k₂ : s₂.pointerState = s.pointerState := by
        cases extended with
        | true => exact (navigate_scrolled scan _ hr).pointer.trans k₁
        | false =>
          cases hr
          exact k₁
      cases handled with
      | true => exact ensures_bind fun t ht => ensures_ok ((rehover_pointer t ht).trans k₂)
      | false => exact fun r hr => (plainKey_pointer _ _ _ r hr).trans k₂

/-- What the shell model is like: names of its own, text fields with a frame, and every surface on
the screen. -/
structure ShellModel (shell : List ShellSurface) : Prop where
  ids : (shell.map ShellSurface.id).Nodup
  names : ∀ u : Compositor, u.nextName ∉ shell.map ShellSurface.id
  fields : ∀ surface ∈ shell, ∀ item ∈ surface.items, item.row.editable = true → item.row.focusable = true →
    item.row.laidOut = true
  placed : ∀ surface ∈ shell, surface.Placed

theorem ShellModel.word (h : ShellModel shell) : ∀ surface ∈ shell, surface.Word :=
  fun surface hin => (h.placed surface hin).word

theorem Reachable.pointerOn (hshell : ShellModel shell) (h : Reachable shell s) : s.PointerOn := by
  have hrun := run_of_reachable h
  clear h
  induction hrun with
  | new =>
    have hstart : PointerOn (Compositor.new []) := ⟨⟨by decide, by decide⟩, nofun⟩
    exact hstart.congr rfl
  | step input hr _ hstep ih =>
    have hs := hr.reachable
    cases input with
    | command line =>
      obtain ⟨r, hr, heq⟩ := bind_eq_ok hstep
      cases heq
      exact ih.congr (command_pointer line r hr)
    | clientCommand line =>
      obtain ⟨r, hr, heq⟩ := bind_eq_ok hstep
      cases heq
      rcases clientCommand_cases hr with ⟨-, rfl, -⟩ | ⟨-, -, ht, -⟩
      · exact ih
      · exact ih.congr (by rw [ht]; rfl)
    | key scan text reverseFocus extended => exact ih.congr (keyScancode_pointer _ _ _ _ _ hstep)
    | pointer packet =>
      have hlaid : Laid _ := ⟨hs.fits hshell.word, hs.small hshell.placed, ih.cursor⟩
      exact (hlaid.pointerPacket hs.clients.inv ih packet).of_eq hstep
    | testWindow =>
      obtain ⟨r, hr, heq⟩ := bind_eq_ok hstep
      cases heq
      unfold openTestWindow at hr
      split at hr
      · cases hr
        exact ih
      · obtain ⟨_, -, hr⟩ := bind_eq_ok hr
        obtain ⟨_, -, hr⟩ := bind_eq_ok hr
        obtain ⟨_, -, hr⟩ := bind_eq_ok hr
        cases hr
        exact ih.congr rfl

theorem Reachable.step_returns (hshell : ShellModel shell) (h : Reachable shell s) (input : Input) :
    Returns (s.step input) := by
  have hpointer := h.pointerOn hshell
  have hlaid : s.Laid := ⟨h.fits hshell.word, h.small hshell.placed, hpointer.cursor⟩
  have hclients := h.clients.inv
  cases input with
  | command line => exact (command_returns hlaid.fits line).bind fun _ _ => returns_ok _
  | clientCommand line => exact (clientCommand_returns hclients line).bind fun _ _ => returns_ok _
  | key scan text reverseFocus extended =>
    exact hlaid.keyScancode (h.focusUnique hshell.ids hshell.names) (h.fieldsSound hshell.ids hshell.names) _ _ _ _
  | pointer packet => exact (hlaid.pointerPacket hclients hpointer packet).returns
  | testWindow => exact Returns.bind (openTestWindow_returns h.length_le) fun _ _ => returns_ok _

end Compositor

end Pippin.Native
