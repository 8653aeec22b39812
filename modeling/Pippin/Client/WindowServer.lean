import Pippin.Lib.Checked
import Pippin.Lib.Text

/-! Client windows: the command protocol and the pointer state machine. Lines are
split at bars; every i32 operation, index and unwrap is checked, so that a fault is a
result of its own. -/

namespace Pippin.Client
open Checked Str

def WIDTH : Nat := 1024
def HEIGHT : Nat := 768
def maxWindows : Nat := 8
def maxWidth : Int := 600
def maxHeight : Int := 440
def titleHeight : Int := 44
def border : Int := 1
def SURFACE : UInt32 := 0x00f7f7f5

inductive EventKind where
  | WindowCreated | CloseRequested | Resize | Move | FocusGained | FocusLost
  | MouseMove | MouseDown | MouseUp | KeyDown | KeyUp | TextInput | Redraw
deriving DecidableEq, Repr

structure Event where
  id : UInt32
  kind : EventKind
  a : Int
  b : Int
deriving DecidableEq, Repr

structure Window where
  id : UInt32
  title : Str
  x : Int
  y : Int
  width : Int
  height : Int
  visible : Bool
  surface : List UInt32
  updating : Bool
  cursor : UInt8
deriving DecidableEq, Repr

namespace Window

def frameWidth (w : Window) : Checked Int := do i32 (w.width + (← i32 (border * 2)))

def frameHeight (w : Window) : Checked Int := do i32 ((← i32 (w.height + titleHeight)) + border)

def contains (w : Window) (x y : Int) : Checked Bool := do
  if w.visible && decide (x ≥ w.x) && decide (y ≥ w.y) then
    if x < (← i32 (w.x + (← w.frameWidth))) then
      return decide (y < (← i32 (w.y + (← w.frameHeight))))
    else return false
  else return false

def localPoint (w : Window) (x y : Int) : Checked (Int × Int) := do
  return (← i32 ((← i32 (x - w.x)) - border), ← i32 ((← i32 (y - w.y)) - titleHeight))

def resizeCorner (w : Window) (localX localY : Int) : Checked Bool := do
  if localX ≥ (← i32 ((← w.frameWidth) - 14)) then
    return decide (localY ≥ (← i32 ((← w.frameHeight) - 14)))
  else return false

end Window

inductive Grab where
  | Move (id : UInt32) (ox oy : Int)
  | Resize (id : UInt32) (sx sy sw sh : Int)
deriving DecidableEq, Repr

structure WindowServer where
  windows : List Window
  focused : Option UInt32
  grab : Option Grab
  pressed : Option UInt32
deriving DecidableEq, Repr

inductive Op where
  | WC | WD | WS | WH | WT | WM | WZ | WK | WI | WB | WP | WE
deriving DecidableEq, Repr

def Op.read : Str → Option Op
  | ['W', 'C'] => some .WC
  | ['W', 'D'] => some .WD
  | ['W', 'S'] => some .WS
  | ['W', 'H'] => some .WH
  | ['W', 'T'] => some .WT
  | ['W', 'M'] => some .WM
  | ['W', 'Z'] => some .WZ
  | ['W', 'K'] => some .WK
  | ['W', 'I'] => some .WI
  | ['W', 'B'] => some .WB
  | ['W', 'P'] => some .WP
  | ['W', 'E'] => some .WE
  | _ => none

def validSize (width height : Int) : Bool :=
  decide (width ≥ 80) && decide (height ≥ 50) && decide (width ≤ maxWidth) && decide (height ≤ maxHeight)

def clamp (v lo hi : Int) : Int := if v < lo then lo else if v > hi then hi else v

def clampX (x : Int) : Int := clamp x 0 (WIDTH - 40)
def clampY (y : Int) : Int := clamp y 0 (HEIGHT - titleHeight)

def address (line : Str) : Option (Option Op × UInt32 × List Str) :=
  match line.splitOn '|' with
  | op :: id :: args => do
    let id ← parseU32 10 id
    if id = 0 then none else return (Op.read op, id, args)
  | _ => none

def int (args : List Str) (i : Nat) : Option Int := args[i]?.bind parseI32

/-- One run `count,color` of a surface update. -/
def parseRun (run : Str) : Option (Nat × UInt32) := do
  let (count, color) ← splitOnce ',' run
  return (← parseUsize count, ← parseU32 16 color)

def checkedAdd (a b : Nat) : Option Nat := if a + b < 2 ^ 64 then some (a + b) else none

namespace WindowServer

def new : WindowServer := ⟨[], none, none, none⟩

def isActive (s : WindowServer) : Bool := s.windows.any (·.visible)

def cursorAt (s : WindowServer) (x y : Int) : Checked UInt8 := do
  match ← rposition (·.contains x y) s.windows with
  | none => return 0
  | some index => return (← get s.windows index).cursor

def validRuns (len pos : Nat) : List Str → Bool
  | [] => true
  | run :: runs =>
    match parseRun run with
    | none => false
    | some (count, _) =>
      match checkedAdd pos count with
      | none => false
      | some stop => if count = 0 ∨ stop > len then false else validRuns len stop runs

def validate (s : WindowServer) (line : Str) : Bool :=
  match address line with
  | none => false
  | some (some .WC, id, args) =>
    match int args 0, int args 1, int args 2, int args 3, args[4]? with
    | some _, some _, some width, some height, some title =>
      decide (s.windows.length < maxWindows) && !s.windows.any (fun w => w.id = id) && validSize width height
        && decide (title.len ≤ 48) && args[5]?.isNone
    | _, _, _, _, _ => false
  | some (op, id, args) =>
    match s.windows.find? (fun w => w.id = id) with
    | none => false
    | some window =>
      match op with
      | some .WD | some .WS | some .WH | some .WI | some .WB | some .WE => args[0]?.isNone
      | some .WT => args[0]?.any (fun t => decide (t.len ≤ 48)) && args[1]?.isNone
      | some .WM => (int args 0).isSome && (int args 1).isSome && args[2]?.isNone
      | some .WZ =>
        match int args 0, int args 1 with
        | some w, some h => validSize w h && args[2]?.isNone
        | _, _ => false
      | some .WK =>
        args[0]?.any (fun c => c == "default".toList || c == "hand".toList || c == "text".toList)
          && args[1]?.isNone
      | some .WP =>
        if !window.updating then false
        else
          match args[0]?.bind parseUsize, args[1]? with
          | some pos, some runs =>
            if runs.isEmpty || args[2]?.isSome then false
            else validRuns window.surface.length pos (runs.splitOn ';')
          | _, _ => false
      | _ => false

def resize (s : WindowServer) (index : Nat) (width height : Int) : Checked (WindowServer × List Event) := do
  if !validSize width height then return (s, [])
  let window ← get s.windows index
  if window.width = width ∧ window.height = height then return (s, [])
  let surface := List.replicate (← i32 (width * height)).toNat SURFACE
  let windows ← modify s.windows index fun w => { w with width, height, surface }
  return ({ s with windows }, [⟨window.id, .Resize, width, height⟩, ⟨window.id, .Redraw, width, height⟩])

def focus (s : WindowServer) (id : UInt32) : Checked (WindowServer × List Event) := do
  let events := if s.focused ≠ some id then
      (match s.focused with
        | some old => [⟨old, .FocusLost, 0, 0⟩]
        | none => []) ++ [⟨id, .FocusGained, 0, 0⟩]
    else []
  let s := { s with focused := some id }
  match s.windows.findIdx? (fun w => w.id = id) with
  | none => return (s, events)
  | some index =>
    let (window, windows) ← remove s.windows index
    return ({ s with windows := windows ++ [window] }, events)

def create (s : WindowServer) (id : UInt32) (args : List Str) : Checked (WindowServer × List Event) := do
  if s.windows.length ≥ maxWindows || s.windows.any (fun w => w.id = id) then return (s, [])
  match int args 0, int args 1, int args 2, int args 3, args[4]? with
  | some x, some y, some width, some height, some title =>
    if !validSize width height || title.len > 48 then return (s, [])
    let x := clampX x
    let y := clampY y
    let surface := List.replicate (← i32 (width * height)).toNat SURFACE
    let window : Window :=
      { id, title, x, y, width, height, visible := false, surface, updating := false, cursor := 0 }
    return ({ s with windows := s.windows ++ [window] },
      [⟨id, .WindowCreated, x, y⟩, ⟨id, .Redraw, width, height⟩])
  | _, _, _, _, _ => return (s, [])

def destroy (s : WindowServer) (id : UInt32) (index : Nat) : Checked (WindowServer × List Event) := do
  let (_, windows) ← remove s.windows index
  let s := { s with windows, grab := none, pressed := none }
  if s.focused = some id then
    match windows.reverse.find? (·.visible) with
    | some next => return ({ s with focused := some next.id }, [⟨next.id, .FocusGained, 0, 0⟩])
    | none => return ({ s with focused := none }, [])
  else return (s, [])

/-- The runs of `WP`, stopping at the first bad one. -/
def writeRuns (surface : List UInt32) (pos : Nat) : List Str → Checked (List UInt32)
  | [] => return surface
  | run :: runs =>
    match parseRun run with
    | none => return surface
    | some (count, color) =>
      match checkedAdd pos count with
      | none => return surface
      | some stop => do
        if count = 0 ∨ stop > surface.length then return surface
        writeRuns (← fillSlice surface pos stop (color &&& 0x00ffffff)) stop runs

/-- An operation on the existing window at `index`. -/
def execute (s : WindowServer) (id : UInt32) (index : Nat) (args : List Str) :
    Option Op → Checked (WindowServer × List Event)
  | some .WD => destroy s id index
  | some .WS => do
    let windows ← modify s.windows index fun w => { w with visible := true }
    focus { s with windows } id
  | some .WH => do
    let windows ← modify s.windows index fun w => { w with visible := false }
    if s.focused = some id then return ({ s with windows, focused := none }, [⟨id, .FocusLost, 0, 0⟩])
    else return ({ s with windows }, [])
  | some .WT =>
    match args[0]? with
    | some title => do
      if title.len ≤ 48 then
        return ({ s with windows := ← modify s.windows index fun w => { w with title } }, [])
      else return (s, [])
    | none => return (s, [])
  | some .WM =>
    match int args 0, int args 1 with
    | some x, some y => do
      let windows ← modify s.windows index fun w => { w with x := clampX x, y := clampY y }
      let window ← get windows index
      return ({ s with windows }, [⟨id, .Move, window.x, window.y⟩])
    | _, _ => return (s, [])
  | some .WZ =>
    match int args 0, int args 1 with
    | some width, some height => resize s index width height
    | _, _ => return (s, [])
  | some .WK =>
    match args[0]? with
    | some cursor => do
      let cursor := if cursor = "hand".toList then 1 else if cursor = "text".toList then 2 else 0
      return ({ s with windows := ← modify s.windows index fun w => { w with cursor } }, [])
    | none => return (s, [])
  | some .WI => do
    let window ← get s.windows index
    return (s, [⟨id, .Redraw, window.width, window.height⟩])
  | some .WB => do
    return ({ s with windows := ← modify s.windows index fun w => { w with updating := true } }, [])
  | some .WP => do
    let window ← get s.windows index
    match window.updating, args[0]?.bind parseUsize with
    | true, some offset =>
      let surface ← writeRuns window.surface offset ((args[1]?.getD []).splitOn ';')
      return ({ s with windows := ← modify s.windows index fun w => { w with surface } }, [])
    | _, _ => return (s, [])
  | some .WE => do
    return ({ s with windows := ← modify s.windows index fun w => { w with updating := false } }, [])
  | _ => return (s, [])

def command (s : WindowServer) (line : Str) : Checked (WindowServer × List Event) :=
  match address line with
  | none => return (s, [])
  | some (some .WC, id, args) => create s id args
  | some (op, id, args) =>
    match s.windows.findIdx? (fun w => w.id = id) with
    | none => return (s, [])
    | some index => execute s id index args op

def drag (s : WindowServer) (x y : Int) : Grab → Checked (WindowServer × List Event)
  | .Move id ox oy =>
    match s.windows.findIdx? (fun w => w.id = id) with
    | none => return (s, [])
    | some index => do
      let nx := clampX (← i32 (x - ox))
      let ny := clampY (← i32 (y - oy))
      let window ← get s.windows index
      if (window.x, window.y) ≠ (nx, ny) then
        return ({ s with windows := ← modify s.windows index fun w => { w with x := nx, y := ny } },
          [⟨id, .Move, nx, ny⟩])
      else return (s, [])
  | .Resize id sx sy sw sh =>
    match s.windows.findIdx? (fun w => w.id = id) with
    | none => return (s, [])
    | some index => do
      let width := clamp (← i32 ((← i32 (sw + x)) - sx)) 80 maxWidth
      let height := clamp (← i32 ((← i32 (sh + y)) - sy)) 50 maxHeight
      resize s index width height

/-- A button press on the window at `index`. -/
def press (s : WindowServer) (x y : Int) (index : Nat) : Checked (WindowServer × List Event) := do
  let id := (← get s.windows index).id
  let (s, events) ← focus s id
  let window ← unwrap s.windows.getLast?
  let localX ← i32 (x - window.x)
  let localY ← i32 (y - window.y)
  if localY < titleHeight then
    if localX ≥ (← i32 ((← window.frameWidth) - 36)) then
      return (s, events ++ [⟨id, .CloseRequested, 0, 0⟩])
    else return ({ s with grab := some (.Move id localX localY) }, events)
  else
    match ← window.resizeCorner localX localY with
    | true => return ({ s with grab := some (.Resize id x y window.width window.height) }, events)
    | false =>
      let (lx, ly) ← window.localPoint x y
      if lx ≥ 0 ∧ ly ≥ 0 ∧ lx < window.width ∧ ly < window.height then
        return ({ s with pressed := some id }, events ++ [⟨id, .MouseDown, lx, ly⟩])
      else return (s, events)

def release (s : WindowServer) (x y : Int) (id : UInt32) : Checked (WindowServer × List Event) :=
  match s.windows.find? (fun w => w.id = id) with
  | some window => do
    let (lx, ly) ← window.localPoint x y
    return (s, [⟨id, .MouseUp, lx, ly⟩])
  | none => return (s, [])

def hover (s : WindowServer) (x y : Int) : Option Nat → Checked (Bool × WindowServer × List Event)
  | some index => do
    let window ← get s.windows index
    let (lx, ly) ← window.localPoint x y
    if lx ≥ 0 ∧ ly ≥ 0 ∧ lx < window.width ∧ ly < window.height then
      return (true, s, [⟨window.id, .MouseMove, lx, ly⟩])
    else return (true, s, [])
  | none => return (false, s, [])

def track (s : WindowServer) (x y : Int) (left wasLeft : Bool) : Checked (Bool × WindowServer × List Event) := do
  let hit ← rposition (·.contains x y) s.windows
  if left && !wasLeft then
    match hit with
    | none => return (false, s, [])
    | some index => return (true, ← press s x y index)
  else if !left && wasLeft then
    match s.pressed with
    | some id => return (true, ← release { s with pressed := none } x y id)
    | none => hover s x y hit
  else hover s x y hit

def pointer (s : WindowServer) (x y : Int) (left wasLeft : Bool) : Checked (Bool × WindowServer × List Event) :=
  match left, s.grab with
  | true, some grab => do return (true, ← drag s x y grab)
  | true, none => track s x y true wasLeft
  | false, _ => track { s with grab := none } x y false wasLeft

def key (s : WindowServer) (scan : UInt8) (text : Option UInt8) : List Event :=
  match s.focused with
  | none => []
  | some id =>
    ⟨id, if scan &&& 0x80 = 0 then .KeyDown else .KeyUp, (scan &&& 0x7f).toNat, 0⟩ ::
      (match text with
        | some byte => [⟨id, .TextInput, byte.toNat, 0⟩]
        | none => [])

end WindowServer

end Pippin.Client
