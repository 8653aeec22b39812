import Pippin.Native.Input

/-! How native surfaces come about: the shell model at start, host commands, test windows.
A line from the bridge goes to the native command language or to the client windows. -/

namespace Pippin.Native
open Checked Str
open Pippin.Client (WIDTH HEIGHT Event)

/-! ## The shell model -/

structure ShellItem where
  text : Str
  action : Str
  kind : UInt8
  style : UInt8
  flags : UInt8
  x : Int
  y : Int
  width : Int
  height : Int
deriving DecidableEq, Repr

structure ShellSurface where
  id : Str
  role : UInt8
  visible : Bool
  x : Int
  y : Int
  width : Int
  height : Int
  title : Str
  items : List ShellItem
deriving DecidableEq, Repr

/-- `pippin_shell_surface_valid`: no other flags, a disabled item is not focusable, frames
inside the surface. -/
def ShellItem.valid (surface : ShellSurface) (i : ShellItem) : Bool :=
  i.flags &&& ~~~(flagFocusable ||| flagDisabled) == 0 &&
    !(i.flags &&& flagDisabled != 0 && i.flags &&& flagFocusable != 0) &&
    !(decide (i.width < 0) || decide (i.height < 0) || decide (i.x < 0) || decide (i.y < 0)) &&
    !(i.width != 0 && i.height != 0 &&
      (decide (i.x + i.width > surface.width) || decide (i.y + i.height > surface.height)))

def ShellSurface.valid (s : ShellSurface) : Bool :=
  decide (0 < s.width) && decide (0 < s.height) && s.items.all (·.valid s) && (Role.read s.role).isSome

def ShellItem.row (i : ShellItem) : Row :=
  ⟨i.text, i.action, i.kind, i.style, i.flags, i.x, i.y, i.width, i.height⟩

def ShellSurface.window? (s : ShellSurface) : Option Window :=
  if !s.valid ∨ s.width < 40 ∨ s.height < 30 ∨ s.width > WIDTH ∨ s.height > HEIGHT then none
  else (Role.read s.role).map fun role =>
    { id := s.id, role, x := s.x, y := s.y, width := s.width, height := s.height, title := s.title,
      rows := (s.items.take 16).map ShellItem.row, native := false, maximized := false, minimized := !s.visible,
      scrollY := 0, restore := none }

namespace Compositor

def new (shell : List ShellSurface) : Compositor where
  clients := .new
  windows := (shell.take maxWindows).filterMap ShellSurface.window?
  nextId := 1
  wallpaperBase := 0x001c5f91
  cursorX := WIDTH / 2
  cursorY := HEIGHT / 2
  leftDown := false
  hoveredControl := none
  pressedControl := none
  focusedControl := none
  edits := []
  focusScope := .Desktop
  drag := none

def plainRow (text action : Str) (kind : UInt8) : Row := ⟨text, action, kind, 0, 0, 0, 0, 0, 0⟩

def openTestWindow (s : Compositor) : Checked Compositor := do
  if s.windows.length = maxWindows then return s
  let offset ← i32 (s.windows.length * 28)
  let window : Window :=
    { id := "native".toList ++ (toString s.nextId).toList, role := .W, x := ← i32 (104 + offset),
      y := ← i32 (88 + offset), width := 440, height := 300, title := "WINDOW TEST".toList,
      rows := [plainRow "RUST COMPOSITOR".toList [] kindLabel, plainRow "DRAG TITLE BAR".toList [] kindLabel],
      native := true, maximized := false, minimized := false, scrollY := 0, restore := none }
  return { s with windows := s.windows ++ [window], nextId := max (s.nextId + 1) 1 }

/-! ## Host commands -/

/-- `R|id`: raise a surface and show it. -/
def restoreCommand (s : Compositor) (id : Str) : Checked Compositor := do
  match s.windows.findIdx? fun w => w.id = id with
  | none => return s
  | some index =>
    let (w, windows) ← remove s.windows index
    let w := { w with minimized := false }
    return { s with windows := windows ++ [w] }.setFocusScope w.scopeForWindow

def minimizeCommand (s : Compositor) (id : Str) : Checked Compositor := do
  match s.windows.findIdx? fun w => w.id = id with
  | none => return s
  | some index =>
    return { s with windows := ← modify s.windows index fun w => { w with minimized := true } }.repairFocusScope

/-- `X|id`: remove a surface and its text, or reset the wallpaper. -/
def closeCommand (s : Compositor) (id : Str) : Compositor :=
  repairFocusScope { s with
    windows := s.windows.filter fun w => w.id ≠ id
    edits := s.edits.filter fun e => e.windowId ≠ id
    wallpaperBase := if id = "wallpaper".toList then 0x001c5f91 else s.wallpaperBase }

/-- One part `kind:text@action` of the rows; the outer option is the rejection. -/
def parseRow (part : Str) : Option Row :=
  let (text, action) := (splitOnce '@' part).getD (part, [])
  if text.len > 96 ∨ action.len > 64 then none
  else
    let (kind, text) := match splitOnce ':' text with
      | some (kind, value) => (kind.bytes.head?.getD kindLabel, value)
      | none => (kindLabel, text)
    some (plainRow text action kind)

def parseRows (rows : Str) : Option (List Row) :=
  (((rows.splitOn ';').take 8).filter fun part => !part.isEmpty).mapM parseRow

/-- What an accepted `S|` line asks for. -/
inductive Surface where
  | wallpaper (color : UInt32)
  | window (id : Str) (role : Role) (x y width height : Int) (title : Str) (rows : List Row)

def splitN (n : Nat) (c : Char) (s : Str) : List Str :=
  match n with
  | 0 => []
  | 1 => [s]
  | n + 2 =>
    match splitOnce c s with
    | some (head, rest) => head :: splitN (n + 1) c rest
    | none => [s]

def parseSurface (payload : Str) : Option Surface :=
  match splitN 8 '|' payload with
  | [id, role, x, y, width, height, title, rows] =>
    if id.isEmpty ∨ id.len > 32 ∨ title.len > 40 ∨ rows.len > 320 then none
    else if role = "B".toList then
      match title with
      | '#' :: hex => (parseU32 16 hex).map fun color => .wallpaper (color &&& 0x00ffffff)
      | _ => none
    else do
      let role ← Role.read (← role.bytes.head?)
      let x ← parseI32 x
      let y ← parseI32 y
      let width ← parseI32 width
      let height ← parseI32 height
      if width < 40 ∨ height < 30 ∨ width > WIDTH ∨ height > HEIGHT then none
      return .window id role x y width height title (← parseRows rows)
  | _ => none

/-- Create or replace a surface; `none` when the table is full. -/
def surfaceCommand (s : Compositor) : Surface → Checked (Option Compositor)
  | .wallpaper color => return some { s with wallpaperBase := color }
  | .window id role x y width height title rows =>
    match s.windows.findIdx? fun w => w.id = id with
    | some index => do
      let (w, windows) ← remove s.windows index
      let w ← { w with role, x, y, width, height, title, rows, minimized := false }.clampScroll
      return some (repairFocusScope
        { s with windows := windows ++ [w], edits := s.edits.filter fun e => e.windowId ≠ id })
    | none =>
      if s.windows.length ≥ maxWindows then return none
      else return some (repairFocusScope { s with windows := s.windows ++
        [{ id, role, x, y, width, height, title, rows, native := false, maximized := false, minimized := false,
           scrollY := 0, restore := none }] })

def command (s : Compositor) (line : Str) : Checked (Compositor × Bool) := do
  match line with
  | 'R' :: '|' :: id => return (← s.restoreCommand id, true)
  | 'M' :: '|' :: id => return (← s.minimizeCommand id, true)
  | 'X' :: '|' :: id => return (s.closeCommand id, true)
  | 'S' :: '|' :: payload =>
    match parseSurface payload with
    | none => return (s, false)
    | some surface =>
      match ← s.surfaceCommand surface with
      | none => return (s, false)
      | some s => return (s, true)
  | _ => return (s, false)

theorem command_surfaceLine (s : Compositor) (payload : Str) : s.command ('S' :: '|' :: payload) =
    match parseSurface payload with
    | none => pure (s, false)
    | some surface => do
      match ← s.surfaceCommand surface with
      | none => return (s, false)
      | some s => return (s, true) := rfl

def clientCommand (s : Compositor) (line : Str) : Checked (Compositor × Bool × List Event) := do
  if !s.clients.validate line then return (s, false, [])
  let (clients, events) ← s.clients.command line
  return ({ s with clients }, true, events)

/-- `Desktop::command`: lines that start with `W` are for the client windows. -/
def desktopCommand (s : Compositor) (line : Str) : Checked (Compositor × Bool × List Event) := do
  match line with
  | 'W' :: _ => s.clientCommand line
  | _ =>
    let (s, accepted) ← s.command line
    return (s, accepted, [])

end Compositor

end Pippin.Native
