import Pippin.Native.Compositor

/-! Keys and pointer packets of the native compositor: text fields, scrolling, the press on
a surface and its controls. -/

namespace Pippin.Native
open Checked Str
open Pippin.Client (WIDTH HEIGHT Event clamp)

def asUsize (v : Int) : Nat := (v % 2 ^ 64).toNat

inductive TitleButton where
  | close | minimize | maximize
deriving DecidableEq, Repr

def Window.titleButton (w : Window) (x y : Int) : Checked (Option TitleButton) := do
  if !w.role.framed then return none
  if y < (← i32 (w.y + 14)) then return none
  if y ≥ (← i32 (w.y + 32)) then return none
  let control ← i32 (x - (← i32 (w.x + 15)))
  if 0 ≤ control ∧ control < 18 then return some .close
  else if 29 ≤ control ∧ control < 47 then return some .minimize
  else if 58 ≤ control ∧ control < 76 then return some .maximize
  else return none

def Window.toggleMaximized (w : Window) : Window :=
  if w.maximized then
    match w.restore with
    | some (x, y, width, height) => { w with x, y, width, height, restore := none, maximized := false }
    | none => { w with maximized := false }
  else { w with restore := some (w.x, w.y, w.width, w.height), x := 8, y := 58, width := WIDTH - 16,
                height := HEIGHT - 116, maximized := true }

def editVisibleStart (length cursor maxChars : Nat) : Nat :=
  if length ≤ maxChars then 0 else min (cursor - (maxChars - 1)) (length - maxChars)

namespace Compositor

/-! ## Text fields -/

def editableFocus (s : Compositor) : Option Control := do
  let (id, index) ← s.focusedControl
  let w ← s.shown id
  let row ← w.rows[index]?
  if row.editable then some (id, index) else none

def ensureEditState (s : Compositor) (windowId : Str) (row : Nat) : Compositor × Nat :=
  match s.editIndex windowId row with
  | some index => (s, index)
  | none => ({ s with edits := s.edits ++ [⟨windowId, row, [], 0⟩] }, s.edits.length)

def setEdit (s : Compositor) (index : Nat) (edit : EditState) : Checked Compositor := do
  return { s with edits := ← modify s.edits index fun _ => edit }

def placeEditCursor (s : Compositor) (windowId : Str) (row : Nat) (localX width labelWidth : Int) :
    Checked Compositor := do
  let (s, index) := s.ensureEditState windowId row
  let maxChars := asUsize ((max (← i32 ((← i32 (width - 28)) - labelWidth)) 12).tdiv 12)
  let edit ← get s.edits index
  let start := editVisibleStart edit.value.length edit.cursor (max maxChars 1)
  let column := asUsize ((max (← i32 ((← i32 (localX - 14)) - labelWidth)) 0).tdiv 12)
  s.setEdit index { edit with cursor := min (start + column) edit.value.length }

def editNavigation (scan : UInt8) (edit : EditState) : Checked (Option EditState) :=
  if scan = 0x4b then .ok (some { edit with cursor := edit.cursor - 1 })
  else if scan = 0x4d then .ok (some { edit with cursor := min (edit.cursor + 1) edit.value.length })
  else if scan = 0x47 then .ok (some { edit with cursor := 0 })
  else if scan = 0x4f then .ok (some { edit with cursor := edit.value.length })
  else if scan = 0x53 then
    if edit.cursor < edit.value.length then do
      return some { edit with value := (← remove edit.value edit.cursor).2 }
    else .ok (some edit)
  else .ok none

def backspace (edit : EditState) : Checked EditState :=
  if edit.cursor > 0 then do
    return { edit with cursor := edit.cursor - 1, value := (← remove edit.value (edit.cursor - 1)).2 }
  else .ok edit

def typeText (text : Option UInt8) (edit : EditState) : Checked (Option EditState) :=
  match text.filter fun byte => decide (0x20 ≤ byte ∧ byte ≤ 0x7e) with
  | some byte =>
    if edit.value.length < textInputLimit then do
      return some { edit with value := ← insert edit.value edit.cursor byte, cursor := edit.cursor + 1 }
    else .ok (some edit)
  | none => .ok none

def submit (action : Str) (kind : UInt8) (edit : EditState) : EditState × Option Str :=
  (if kind = kindEdit then { edit with value := [], cursor := 0 } else edit,
    if action.isEmpty then none
    else some (action ++ actionValueSeparator :: edit.value.map fun b => Char.ofNat b.toNat))

/-- A key in a text field: `none` when the field does not consume it. -/
def editKey (action : Str) (kind : UInt8) (scan : UInt8) (text : Option UInt8) (extended : Bool) (edit : EditState) :
    Checked (Option (EditState × Option Str)) := do
  match ← (if extended then editNavigation scan edit else .ok none) with
  | some edit => return some (edit, none)
  | none =>
    if scan = 0x0e then return some (← backspace edit, none)
    else if scan = 0x1c then return some (submit action kind edit)
    else return (← typeText text edit).map fun edit => (edit, none)

def handleEditKey (s : Compositor) (scan : UInt8) (text : Option UInt8) (extended : Bool) :
    Checked (Compositor × Bool × Option Str) :=
  match s.editableFocus with
  | none => .ok (s, false, none)
  | some (windowId, rowIndex) => do
    let row := (s.windows.find? fun w => w.id = windowId).bind fun w => w.rows[rowIndex]?
    let (s, index) := s.ensureEditState windowId rowIndex
    match ← editKey ((row.map Row.action).getD []) ((row.map Row.kind).getD 0) scan text extended
        (← get s.edits index) with
    | some (edit, payload) => return (← s.setEdit index edit, true, payload)
    | none => return (s, false, none)

/-! ## Scrolling -/

def setWindow (s : Compositor) (index : Nat) (w : Window) : Checked Compositor := do
  return { s with windows := ← modify s.windows index fun _ => w }

def scrollUnderPointer (s : Compositor) (delta : Int) : Checked (Compositor × Bool) := do
  match ← s.topAt s.cursorX s.cursorY with
  | none => return (s, false)
  | some index =>
    let w ← get s.windows index
    if !w.role.framed then return (s, false)
    if !(← w.contentClip).contains s.cursorX s.cursorY then return (s, false)
    let (w, changed) ← w.scrollWindow delta
    return (← s.setWindow index w, changed)

def scopeIndex (s : Compositor) : Option Nat :=
  match s.focusScope with
  | .Desktop => none
  | .Window id => s.windows.findIdx? fun w => !w.minimized && w.id == id

def scopePageStep (s : Compositor) : Checked Int := do
  match s.focusScope with
  | .Desktop => return scrollLine * 4
  | .Window id =>
    match s.shown id with
    | some w => return max (← i32 ((← i32 (w.height - headerHeight)) - 48)) scrollLine
    | none => return scrollLine * 4

def scrollScopeBy (s : Compositor) (delta : Int) : Checked (Compositor × Bool) := do
  match s.scopeIndex with
  | none => return (s, false)
  | some index =>
    let (w, changed) ← (← get s.windows index).scrollWindow delta
    return (← s.setWindow index w, changed)

def scrollScopeTo (s : Compositor) (toEnd : Bool) : Checked (Compositor × Bool) := do
  match s.scopeIndex with
  | none => return (s, false)
  | some index =>
    let w ← get s.windows index
    let target ← (if toEnd then w.maxScroll else pure 0)
    return (← s.setWindow index { w with scrollY := target }, w.scrollY != target)

def ensureFocusedVisible (s : Compositor) : Checked Compositor := do
  match s.focusedControl with
  | none => return s
  | some (id, rowIndex) =>
    match s.windows.findIdx? fun w => !w.minimized && w.id == id && w.role.framed with
    | none => return s
    | some index =>
      let w ← get s.windows index
      match w.rows[rowIndex]? with
      | none => return s
      | some row =>
        if !row.laidOut then return s
        let viewportTop := headerHeight + 1
        let viewportBottom ← i32 (w.height - 1)
        let visibleTop ← i32 (row.y - w.scrollY)
        let rowBottom ← i32 (row.y + row.height)
        let visibleBottom ← i32 (rowBottom - w.scrollY)
        let target ← (if visibleTop < viewportTop then i32 (row.y - viewportTop)
          else if visibleBottom > viewportBottom then i32 (rowBottom - viewportBottom)
          else pure w.scrollY)
        s.setWindow index (← { w with scrollY := target }.clampScroll)

/-! ## Keys -/

def rehover (s : Compositor) : Checked Compositor := do
  return { s with hoveredControl := ← s.controlAt s.cursorX s.cursorY }

def navigate (s : Compositor) (scan : UInt8) : Checked (Compositor × Bool) := do
  if scan = 0x48 then s.scrollScopeBy (-scrollLine)
  else if scan = 0x50 then s.scrollScopeBy scrollLine
  else if scan = 0x49 then s.scrollScopeBy (← i32 (-(← s.scopePageStep)))
  else if scan = 0x51 then s.scrollScopeBy (← s.scopePageStep)
  else if scan = 0x47 then s.scrollScopeTo false
  else if scan = 0x4f then s.scrollScopeTo true
  else return (s, false)

def tabKey (s : Compositor) (reverseFocus : Bool) : Checked Compositor := do
  (← (← s.focusNext reverseFocus).ensureFocusedVisible).rehover

def activateKey (s : Compositor) (scan : UInt8) (text : Option UInt8) : Compositor × Option Str × List Event :=
  match s.repairFocusScope.focusedAction with
  | some action => (s.repairFocusScope, some action, [])
  | none => (s.repairFocusScope, none, s.clients.key scan text)

def plainKey (s : Compositor) (scan : UInt8) (text : Option UInt8) (reverseFocus : Bool) :
    Checked (Compositor × Option Str × List Event) :=
  if scan = 0x0f then do return (← s.tabKey reverseFocus, none, [])
  else if scan = 0x1c ∨ scan = 0x39 then .ok (s.activateKey scan text)
  else .ok (s, none, s.clients.key scan text)

def keyScancode (s : Compositor) (scan : UInt8) (text : Option UInt8) (reverseFocus extended : Bool) :
    Checked (Compositor × Option Str × List Event) :=
  if s.clients.isActive || scan &&& 0x80 != 0 then .ok (s, none, s.clients.key scan text)
  else do
    match ← s.handleEditKey scan text extended with
    | (s, true, action) => return (← s.repairFocusScope.rehover, action, [])
    | (s, false, _) =>
      match ← (if extended then s.navigate scan else .ok (s, false)) with
      | (s, true) => return (← s.rehover, none, [])
      | (s, false) => s.plainKey scan text reverseFocus

/-! ## The pointer -/

/-- A press on a header button of `w`, which has been taken off the stack. -/
def titlePress (s : Compositor) (w : Window) : TitleButton → Checked (Compositor × Option Str)
  | .close =>
    if w.native then .ok (s.repairFocusScope, none)
    else .ok (repairFocusScope { s with windows := s.windows ++ [{ w with minimized := true }] },
      some (w.id ++ ".close".toList))
  | .minimize => .ok (repairFocusScope { s with windows := s.windows ++ [{ w with minimized := true }] }, none)
  | .maximize => do
    let w ← w.toggleMaximized.clampScroll
    return ({ s with windows := s.windows ++ [w] }, none)

def rowUnder (s : Compositor) (w : Window) (localX localY : Int) (row : Row × Nat) : Checked Bool := do
  if !row.1.laidOut || !s.rowMatchesSearch w row.1 then return false
  within localX localY (← s.filteredFrame w row.2 row.1)

/-- The row a press is on and whether it is in the row area; surfaces without a layout
have fixed rows. -/
def pressedRow (s : Compositor) (w : Window) (localX localY : Int) : Checked (Option Nat × Bool) := do
  if w.rows.any Row.laidOut then
    let row ← position (s.rowUnder w localX localY) w.rows.zipIdx
    return (row, row.isSome)
  else if w.role = .D then
    let row := if 12 ≤ localX ∧ localX ≤ 116 then some 0
      else if 132 ≤ localX ∧ localX ≤ 236 then some 1
      else if 252 ≤ localX ∧ localX ≤ 356 then some 2
      else none
    return (row, decide (8 ≤ localY ∧ localY < 60))
  else if w.role = .P then
    let row := if 12 ≤ localX ∧ localX ≤ 210 then some 0
      else if 420 ≤ localX ∧ localX ≤ 604 then some 1
      else if 774 ≤ localX ∧ localX ≤ 1012 then some 2
      else none
    return (row, decide (6 ≤ localY ∧ localY < 42))
  else
    let row := asUsize ((← i32 ((← i32 (s.cursorY - w.y)) - 62)).tdiv 42)
    return (some row, decide (s.cursorY ≥ (← i32 (w.y + 62))))

def editPress (s : Compositor) (w : Window) (localX : Int) (control : Row) (i : Nat) : Checked Compositor := do
  let frame ← s.filteredFrame w i control
  let labelWidth ← (if control.kind = kindEdit then i32 (control.text.len * 12) else pure 0)
  s.placeEditCursor w.id i (← i32 (localX - frame.1)) frame.2.2.1 labelWidth

/-- Focus the pressed row of `w`, if it takes the focus. -/
def focusRow (s : Compositor) (w : Window) (localX : Int) (row : Option Nat) (inRows : Bool) : Checked Compositor :=
  if !inRows then .ok { s with focusedControl := none }
  else
    match row.bind fun i => (w.rows[i]?).map fun r => (r, i) with
    | none => .ok s
    | some (control, i) =>
      if control.disabled || !control.focusable then .ok { s with focusedControl := none }
      else if control.editable then editPress { s with focusedControl := some (w.id, i) } w localX control i
      else .ok { s with focusedControl := some (w.id, i) }

def grabbed (s : Compositor) (w : Window) : Checked (Option (Str × Int × Int)) := do
  if !w.role.framed || w.maximized then return s.drag
  if s.cursorY ≥ (← i32 (w.y + headerHeight)) then return s.drag
  return some (w.id, ← i32 (s.cursorX - w.x), ← i32 (s.cursorY - w.y))

def pointerDown (s : Compositor) : Checked (Compositor × Option Str) := do
  match ← s.topAt s.cursorX s.cursorY with
  | none => return (s.setFocusScope .Desktop, none)
  | some index =>
    let (w, windows) ← remove s.windows index
    let s := { s with windows }.setFocusScope w.scopeForWindow
    match ← w.titleButton s.cursorX s.cursorY with
    | some button => s.titlePress w button
    | none =>
      let localX ← i32 (s.cursorX - w.x)
      let localY ← w.localContentY s.cursorY
      let (row, inRows) ← s.pressedRow w localX localY
      let s ← s.focusRow w localX row inRows
      let drag ← s.grabbed w
      return ({ s with drag, windows := s.windows ++ [w] }, none)

def packetByte (packet : UInt32) (shift : Nat) : Int :=
  let b := packet.toNat / 2 ^ shift % 256
  if b < 128 then b else (b : Int) - 256

def dragWindow (s : Compositor) : Checked Compositor := do
  match s.drag with
  | none => return s
  | some (id, offsetX, offsetY) =>
    match s.windows.findIdx? fun w => w.id = id with
    | none => return s
    | some index =>
      let x := clamp (← i32 (s.cursorX - offsetX)) 0 (WIDTH - 40)
      let y := clamp (← i32 (s.cursorY - offsetY)) 0 (HEIGHT - 36)
      return { s with windows := ← modify s.windows index fun w => { w with x, y } }

def wheelScroll (s : Compositor) (handled : Bool) (wheel : Int) : Checked Compositor :=
  if handled || wheel == 0 then .ok s
  else do return (← s.scrollUnderPointer (← i32 (-(saturate (wheel * scrollLine))))).1

def hover (s : Compositor) (handled : Bool) : Checked Compositor :=
  if handled then .ok { s with hoveredControl := none } else s.rehover

/-- The part of a packet before the button: cursor, client windows, wheel and hover. -/
def trackPointer (s : Compositor) (packet : UInt32) : Checked (Compositor × Bool × List Event) := do
  let cursorX := clamp (← i32 (s.cursorX + packetByte packet 8)) 0 (WIDTH - 1)
  let cursorY := clamp (← i32 (s.cursorY - packetByte packet 16)) 0 (HEIGHT - 1)
  let (handled, clients, events) ← s.clients.pointer cursorX cursorY (packet &&& 1 != 0) s.leftDown
  let s ← wheelScroll { s with cursorX, cursorY, clients } handled (packetByte packet 24)
  return (← s.hover handled, handled, events)

def release (s : Compositor) (handled : Bool) : Checked (Compositor × Option Str) := do
  let action ← (if handled then .ok none else s.releaseControl)
  return ({ s with pressedControl := none }, action)

def pressOrRelease (s : Compositor) (left handled : Bool) : Checked (Compositor × Option Str) :=
  if !handled && left && !s.leftDown then pointerDown { s with pressedControl := s.hoveredControl }
  else if !left && s.leftDown then s.release handled
  else .ok (s, none)

def dragOrDrop (s : Compositor) (left handled : Bool) : Checked Compositor :=
  if left && !handled then s.dragWindow else .ok { s with drag := none }

def pointerPacket (s : Compositor) (packet : UInt32) : Checked (Compositor × Option Str × List Event) := do
  let left := packet &&& 1 != 0
  let (s, handled, events) ← s.trackPointer packet
  let (s, action) ← s.pressOrRelease left handled
  let s ← s.dragOrDrop left handled
  return ({ s with leftDown := left }, action, events)

end Compositor

end Pippin.Native
