import Pippin.Client.WindowServer

/-! The native compositor: its surfaces and controls, live search, scrolling, the hit test
and the keyboard focus. Painting is left out. Every i32 operation that may overflow is
checked, saturating operations are not. -/

namespace Pippin.Native
open Checked Str
open Pippin.Client (WIDTH HEIGHT WindowServer clamp)

def maxWindows : Nat := 16
def headerHeight : Int := 44
def scrollLine : Int := 32
def contentBottomPadding : Int := 20
def textInputLimit : Nat := 64
def flagFocusable : UInt8 := 1
def flagDisabled : UInt8 := 2
def actionValueSeparator : Char := '\x1f'

inductive Role where
  | P | D | L | N | W
deriving DecidableEq, Repr

def Role.read (b : UInt8) : Option Role :=
  if b = 80 then some .P
  else if b = 68 then some .D
  else if b = 76 then some .L
  else if b = 78 then some .N
  else if b = 87 then some .W
  else none

def Role.framed : Role → Bool
  | W | L => true
  | _ => false

/-- The kind is a letter: heading, search, edit, label, toggle, button. -/
structure Row where
  text : Str
  action : Str
  kind : UInt8
  style : UInt8
  flags : UInt8
  x : Int
  y : Int
  width : Int
  height : Int
deriving DecidableEq, Repr

def kindSearch : UInt8 := 115
def kindEdit : UInt8 := 101
def kindLabel : UInt8 := 108

namespace Row

def disabled (r : Row) : Bool := r.flags &&& flagDisabled != 0
def focusable (r : Row) : Bool := r.flags &&& flagFocusable != 0
def laidOut (r : Row) : Bool := decide (0 < r.width) && decide (0 < r.height)

def structural (r : Row) : Bool :=
  r.kind == 104 || r.kind == kindSearch || r.kind == kindEdit || r.kind == kindLabel || r.kind == 116

def editable (r : Row) : Bool := (r.kind == kindSearch || r.kind == kindEdit) && !r.disabled && !r.action.isEmpty

def frame (r : Row) : Int × Int × Int × Int := (r.x, r.y, r.width, r.height)

end Row

/-- The text of an editable row. Only ASCII is ever inserted, so that bytes are characters. -/
structure EditState where
  windowId : Str
  row : Nat
  value : List UInt8
  cursor : Nat
deriving DecidableEq, Repr

structure ClipRect where
  left : Int
  top : Int
  right : Int
  bottom : Int
deriving DecidableEq, Repr

def ClipRect.contains (c : ClipRect) (x y : Int) : Bool :=
  decide (x ≥ c.left) && decide (x < c.right) && decide (y ≥ c.top) && decide (y < c.bottom)

structure Window where
  id : Str
  role : Role
  x : Int
  y : Int
  width : Int
  height : Int
  title : Str
  rows : List Row
  native : Bool
  maximized : Bool
  minimized : Bool
  scrollY : Int
  restore : Option (Int × Int × Int × Int)
deriving DecidableEq, Repr

inductive FocusScope where
  | Desktop
  | Window (id : Str)
deriving DecidableEq, Repr

abbrev Control := Str × Nat

structure Compositor where
  clients : WindowServer
  windows : List Window
  nextId : UInt32
  wallpaperBase : UInt32
  cursorX : Int
  cursorY : Int
  leftDown : Bool
  hoveredControl : Option Control
  pressedControl : Option Control
  focusedControl : Option Control
  edits : List EditState
  focusScope : FocusScope
  drag : Option (Str × Int × Int)
deriving DecidableEq, Repr

/-! ## Geometry of one window -/

namespace Window

def covers (w : Window) (x y : Int) : Checked Bool := do
  if x < w.x then return false
  if x ≥ (← i32 (w.x + w.width)) then return false
  if y < w.y then return false
  return decide (y < (← i32 (w.y + w.height)))

def under (x y : Int) (w : Window) : Checked Bool := if w.minimized then return false else w.covers x y

def contentClip (w : Window) : Checked ClipRect := do
  let inset : Int := if w.role.framed then 1 else 0
  let top ← (if w.role.framed then do i32 ((← i32 (w.y + headerHeight)) + 1) else .ok w.y)
  let left ← i32 (w.x + inset)
  let right ← i32 ((← i32 (w.x + w.width)) - inset)
  let bottom ← i32 ((← i32 (w.y + w.height)) - inset)
  return ⟨left, top, right, bottom⟩

def localContentY (w : Window) (screenY : Int) : Checked Int := do
  let y ← i32 (screenY - w.y)
  return if w.role.framed then saturate (y + w.scrollY) else y

def contentBottom (w : Window) : Int :=
  ((w.rows.filter Row.laidOut).map fun r => saturate (r.y + r.height)).max?.getD (headerHeight + 1)

def maxScroll (w : Window) : Checked Int := do
  if !w.role.framed then return 0
  let viewportBottom := max (← i32 (w.height - 1)) (headerHeight + 1)
  return max (saturate (saturate (w.contentBottom + contentBottomPadding) - viewportBottom)) 0

def clampScroll (w : Window) : Checked Window := do return { w with scrollY := clamp w.scrollY 0 (← w.maxScroll) }

def scrollWindow (w : Window) (delta : Int) : Checked (Window × Bool) := do
  if !w.role.framed then return (w, false)
  let w' ← { w with scrollY := saturate (w.scrollY + delta) }.clampScroll
  return (w', w'.scrollY != w.scrollY)

def scopeForWindow (w : Window) : FocusScope := if w.role.framed then .Window w.id else .Desktop

end Window

def within (x y : Int) (frame : Int × Int × Int × Int) : Checked Bool := do
  if x < frame.1 then return false
  if x ≥ (← i32 (frame.1 + frame.2.2.1)) then return false
  if y < frame.2.1 then return false
  return decide (y < (← i32 (frame.2.1 + frame.2.2.2)))

def asciiLower (b : UInt8) : UInt8 := if 65 ≤ b ∧ b ≤ 90 then b + 32 else b

def asciiContainsCaseInsensitive (haystack needle : List UInt8) : Bool :=
  if needle.isEmpty then true
  else if needle.length > haystack.length then false
  else (List.range (haystack.length - needle.length + 1)).any fun start =>
    ((haystack.drop start).take needle.length).map asciiLower == needle.map asciiLower

namespace Compositor

/-! ## Live search -/

def editIndex (s : Compositor) (windowId : Str) (row : Nat) : Option Nat :=
  s.edits.findIdx? fun e => e.windowId = windowId ∧ e.row = row

def searchQuery (s : Compositor) (windowId : Str) : Option (List UInt8) := do
  let window ← s.windows.find? fun w => w.id = windowId
  let searchRow ← window.rows.findIdx? fun r => r.kind = kindSearch
  let edit ← s.edits[← s.editIndex windowId searchRow]?
  return edit.value

def searches (windowId : Str) : Bool := windowId == "launcher".toList || windowId == "files".toList

def rowMatchesSearch (s : Compositor) (w : Window) (row : Row) : Bool :=
  if !searches w.id || row.structural || row.action.isEmpty then true
  else
    match s.searchQuery w.id with
    | none => true
    | some query => query.isEmpty || asciiContainsCaseInsensitive row.text.bytes query

/-- The running values of the loop over the result rows of a window. -/
structure Reflow where
  firstX : Int
  lastRight : Int
  gap : Int
  visibleBefore : Nat
  visibleTotal : Nat
  previousRight : Option Int

def Reflow.start : Reflow := ⟨2 ^ 31 - 1, -2 ^ 31, 12, 0, 0, none⟩

def Reflow.next (s : Compositor) (w : Window) (index : Nat) (f : Reflow) (candidate : Row × Nat) : Checked Reflow := do
  let row := candidate.1
  if row.structural || row.action.isEmpty then return f
  let right := saturate (row.x + row.width)
  let gap ← (match f.previousRight with
    | some right => do pure (max (← i32 (row.x - right)) 0)
    | none => pure f.gap)
  let hit := s.rowMatchesSearch w row
  return { firstX := min f.firstX row.x
           lastRight := max f.lastRight right
           gap
           visibleBefore := if hit && decide (candidate.2 < index) then f.visibleBefore + 1 else f.visibleBefore
           visibleTotal := if hit then f.visibleTotal + 1 else f.visibleTotal
           previousRight := some right }

def filteredFrame (s : Compositor) (w : Window) (index : Nat) (row : Row) : Checked (Int × Int × Int × Int) := do
  if !searches w.id || row.structural || row.action.isEmpty || ((s.searchQuery w.id).getD []).isEmpty then
    return row.frame
  let f ← w.rows.zipIdx.foldlM (Reflow.next s w index) .start
  if f.visibleTotal = 0 ∨ f.firstX = 2 ^ 31 - 1 ∨ f.lastRight ≤ f.firstX then return row.frame
  let span ← i32 (f.lastRight - f.firstX)
  let gaps := saturate (f.gap * (f.visibleTotal - 1 : Nat))
  let width := max ((← i32 (span - gaps)).tdiv f.visibleTotal) 1
  let x ← i32 (f.firstX + (← i32 (f.visibleBefore * (← i32 (width + f.gap)))))
  return (x, row.y, width, row.height)

/-! ## Hit test -/

def topAt (s : Compositor) (x y : Int) : Checked (Option Nat) := rposition (Window.under x y) s.windows

/-- An enabled control with an action that the search shows, under a point of the content. -/
def controlUnder (s : Compositor) (w : Window) (localX localY : Int) (row : Row × Nat) : Checked Bool := do
  if !row.1.laidOut || row.1.action.isEmpty || row.1.disabled || !s.rowMatchesSearch w row.1 then return false
  within localX localY (← s.filteredFrame w row.2 row.1)

def controlAt (s : Compositor) (x y : Int) : Checked (Option Control) := do
  match ← s.topAt x y with
  | none => return none
  | some index =>
    let w ← get s.windows index
    if !(← w.contentClip).contains x y then return none
    let localX ← i32 (x - w.x)
    let localY ← w.localContentY y
    return (← position (s.controlUnder w localX localY) w.rows.zipIdx).map fun row => (w.id, row)

/-! ## Focus -/

def focusScopeAccepts (s : Compositor) (w : Window) : Bool :=
  match s.focusScope with
  | .Desktop => w.role == .P || w.role == .D
  | .Window id => w.id == id

def setFocusScope (s : Compositor) (scope : FocusScope) : Compositor :=
  if s.focusScope ≠ scope then { s with focusScope := scope, focusedControl := none } else s

def shown (s : Compositor) (id : Str) : Option Window := s.windows.find? fun w => !w.minimized && w.id == id

def scopeValid (s : Compositor) : Bool :=
  match s.focusScope with
  | .Desktop => true
  | .Window id => s.windows.any fun w => !w.minimized && w.id == id

def keepsFocus (s : Compositor) (c : Control) : Bool :=
  (s.shown c.1).any fun w => s.focusScopeAccepts w && (w.rows[c.2]?).any fun r =>
    r.focusable && !r.disabled && !r.action.isEmpty && s.rowMatchesSearch w r

def repairFocusScope (s : Compositor) : Compositor :=
  let s := if s.scopeValid then s
    else s.setFocusScope (((s.windows.reverse.find? fun w => !w.minimized && w.role.framed).map
      Window.scopeForWindow).getD .Desktop)
  if s.focusedControl.any s.keepsFocus then s else { s with focusedControl := none }

def focusedAction (s : Compositor) : Option Str := do
  let (id, index) ← s.focusedControl
  let w ← s.shown id
  if !s.focusScopeAccepts w then none
  let row ← w.rows[index]?
  if row.disabled || !row.focusable || row.action.isEmpty || !s.rowMatchesSearch w row then none
  return row.action

def tabControls (s : Compositor) : List Control :=
  s.windows.flatMap fun w =>
    if w.minimized || !s.focusScopeAccepts w then []
    else (w.rows.zipIdx.filter fun r => r.1.laidOut && r.1.focusable && !r.1.disabled && !r.1.action.isEmpty
      && s.rowMatchesSearch w r.1).map fun r => (w.id, r.2)

def focusNext (s : Compositor) (reverse : Bool) : Checked Compositor := do
  let s := s.repairFocusScope
  let controls := s.tabControls
  if controls.isEmpty then return { s with focusedControl := none }
  let current := s.focusedControl.bind fun c => controls.findIdx? (· = c)
  let next := if reverse then
      (match current with
        | some index => if index = 0 then controls.length - 1 else index - 1
        | none => controls.length - 1)
    else
      (match current with
        | some index => (index + 1) % controls.length
        | none => 0)
  return { s with focusedControl := some (← get controls next) }

def releaseControl (s : Compositor) : Checked (Option Str) := do
  match s.pressedControl with
  | none => return none
  | some pressed =>
    if (← s.controlAt s.cursorX s.cursorY) ≠ some pressed then return none
    return do
      let w ← s.shown pressed.1
      let row ← w.rows[pressed.2]?
      if row.disabled || row.action.isEmpty || row.editable then none else some row.action

end Compositor

end Pippin.Native
