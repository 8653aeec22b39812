import Pippin.Native.Canvas
import Pippin.Native.Scroll

/-! What `window` draws: a list of shapes for every kind of surface, in order. The places of the
shapes are computed here, and every i32 operation on them is checked. The content of a framed
surface is drawn through its clip. -/

namespace Pippin.Native
open Checked Raster
open Pippin.Client (Pixels WIDTH HEIGHT WindowServer)

def CHROME_INK : UInt32 := 0x00252b31
def CHROME_SURFACE : UInt32 := 0x00f8fafc
def CHROME_HEADER : UInt32 := 0x00eef3f7
def CHROME_HEADER_INACTIVE : UInt32 := 0x00e3e8ed
def CHROME_BORDER : UInt32 := 0x008b99a6
def CHROME_ACCENT : UInt32 := 0x003b82c4
def CHROME_CLOSE : UInt32 := 0x00d95d55
def CHROME_SHADOW : UInt32 := 0x00151b22
def SHELL_DARK : UInt32 := 0x0010161d
def SHELL_SURFACE : UInt32 := 0x001d2833
def SHELL_SURFACE_HOVER : UInt32 := 0x002a3947
def SHELL_SURFACE_PRESSED : UInt32 := 0x00364859
def SHELL_DISABLED : UInt32 := 0x0020272e
def CONTROL_LIGHT_HOVER : UInt32 := 0x00eef4f8
def CONTROL_LIGHT_PRESSED : UInt32 := 0x00dce8f2
def CONTROL_LIGHT_DISABLED : UInt32 := 0x00eef0f1
def SHELL_BORDER : UInt32 := 0x00414b57
def SHELL_TEXT : UInt32 := 0x00f3f5f7
def SHELL_MUTED : UInt32 := 0x00aeb8c2
def styleSubtle : UInt8 := 1
def styleAccent : UInt8 := 3
def styleSearch : UInt8 := 4
def styleStatus : UInt8 := 5

inductive Draw where
  | fill (x y width height : Int) (color : UInt32)
  | border (x y width height : Int) (color : UInt32)
  | rounded (x y width height : Int) (color borderColor : UInt32)
  | text (x y : Int) (label : List UInt8) (scale : Int) (color : UInt32)
deriving DecidableEq, Repr

def Draw.on (fill : Fill) : Draw → Pixels → Checked Pixels
  | .fill x y width height color => fill x y width height color
  | .border x y width height color => fill.border x y width height color
  | .rounded x y width height color borderColor => fill.rounded x y width height color borderColor
  | .text x y label scale color => fill.text x y label scale color

def paint (fill : Fill) (draws : List Draw) (pixels : Pixels) : Checked Pixels :=
  draws.foldlM (fun pixels d => d.on fill pixels) pixels

structure ControlState where
  hovered : Bool
  pressed : Bool
  focused : Bool

def shellFill (r : Row) (state : ControlState) : UInt32 :=
  if r.disabled then SHELL_DISABLED
  else if state.pressed then SHELL_SURFACE_PRESSED
  else if state.hovered then SHELL_SURFACE_HOVER
  else if r.style = styleAccent then CHROME_ACCENT
  else SHELL_SURFACE

def shellBorder (state : ControlState) : UInt32 := if state.focused then CHROME_ACCENT else SHELL_BORDER

def centred (outer inner : Int) : Checked Int := do return max ((← i32 (outer - inner)).tdiv 2) 0

namespace Compositor

def controlState (s : Compositor) (windowId : Str) (index : Nat) : ControlState :=
  ⟨decide (s.hoveredControl = some (windowId, index)), decide (s.pressedControl = some (windowId, index)),
    decide (s.focusedControl = some (windowId, index))⟩

/-! ## Shell surfaces -/

def panelRow (s : Compositor) (w : Window) (row : Row × Nat) : Checked (List Draw) := do
  let r := row.1
  if !r.laidOut then return []
  let state := s.controlState w.id row.2
  let x ← i32 (w.x + r.x)
  let y ← i32 (w.y + r.y)
  let textColor := if r.disabled then 0x006f7983 else SHELL_TEXT
  let face := .rounded x y r.width r.height (shellFill r state) (shellBorder state)
  if r.style = styleSearch then
    return [face, .fill (← i32 (x + 16)) (← i32 (y + 11)) 10 10 (if r.disabled then 0x006f7983 else CHROME_ACCENT),
      .text (← i32 (x + 36)) (← i32 (y + 10)) r.text.bytes 1 textColor]
  else if r.style = styleStatus then
    let icon := if r.disabled then 0x006f7983 else 0x00d5dae0
    return [face, .fill (← i32 (x + 16)) (← i32 (y + 11)) 10 8 icon, .fill (← i32 (x + 34)) (← i32 (y + 9)) 6 12 icon,
      .fill (← i32 (x + 48)) (← i32 (y + 10)) 16 10 icon,
      .text (← i32 (x + 76)) (← i32 (y + 10)) r.text.bytes 1 (if r.disabled then 0x006f7983 else SHELL_MUTED)]
  else if r.style = styleSubtle then
    let textWidth ← i32 (r.text.len * 6)
    return [face, .text (← i32 (x + (← i32 (r.width - textWidth)).tdiv 2)) (← i32 (y + 10)) r.text.bytes 1 textColor]
  else return [face, .text (← i32 (x + 16)) (← i32 (y + 10)) r.text.bytes 1 textColor]

def plainPanel (w : Window) : Checked (List Draw) := do
  let textY ← i32 (w.y + 17)
  let boxY ← i32 (w.y + 7)
  let first ← (match w.rows[0]? with
    | some r => do return [.text (← i32 (w.x + 48)) textY r.text.bytes 1 SHELL_TEXT]
    | none => pure [] : Checked (List Draw))
  let second ← (match w.rows[1]? with
    | some r => do
      let textWidth ← i32 (r.text.len * 6)
      return [.text (← i32 ((← i32 (w.x + 512)) - textWidth.tdiv 2)) textY r.text.bytes 1 SHELL_TEXT]
    | none => pure [] : Checked (List Draw))
  let third ← (match w.rows[2]? with
    | some r => do return [.text (← i32 (w.x + 850)) textY r.text.bytes 1 SHELL_MUTED]
    | none => pure [] : Checked (List Draw))
  return .rounded (← i32 (w.x + 12)) boxY 198 34 SHELL_SURFACE SHELL_BORDER :: first ++
    .rounded (← i32 (w.x + 420)) boxY 184 34 SHELL_SURFACE SHELL_BORDER :: second ++
    .rounded (← i32 (w.x + 774)) boxY 238 34 SHELL_SURFACE SHELL_BORDER :: third

def panelDraws (s : Compositor) (w : Window) : Checked (List Draw) := do
  let bar := [.fill w.x w.y w.width w.height SHELL_DARK,
    .fill w.x (← i32 ((← i32 (w.y + w.height)) - 1)) w.width 1 SHELL_BORDER]
  if w.rows.any Row.laidOut then return bar ++ (← (w.rows.take 8).zipIdx.mapM (s.panelRow w)).flatten
  else return bar ++ (← plainPanel w)

def dockRow (s : Compositor) (w : Window) (row : Row × Nat) : Checked (List Draw) := do
  let r := row.1
  let tileX ← i32 (w.x + (← if r.laidOut then pure r.x else i32 (12 + (← i32 (row.2 * 120)))))
  let tileY ← i32 (w.y + if r.laidOut then r.y else 8)
  let tileW := if r.laidOut then r.width else 104
  let tileH := if r.laidOut then r.height else 52
  let state := s.controlState w.id row.2
  let iconX ← i32 (tileX + 10)
  let iconY ← i32 (tileY + (← centred tileH 30))
  let iconColor := if r.disabled then 0x00525b64
    else if row.2 = 0 then 0x004f8fdc
    else if row.2 = 1 then 0x0057a773
    else 0x00886bd8
  let letter : List UInt8 := if row.2 = 0 then [65] else if row.2 = 1 then [70] else [83]
  return [.rounded tileX tileY tileW tileH (shellFill r state) (shellBorder state),
    .rounded iconX iconY 30 30 iconColor iconColor,
    .text (← i32 (iconX + 9)) (← i32 (iconY + 9)) letter 1 (if r.disabled then 0x00929aa2 else 0x00ffffff),
    .text (← i32 (tileX + 49)) (← i32 (tileY + (← centred tileH 7))) r.text.bytes 1
      (if r.disabled then 0x00717a83 else SHELL_TEXT)]

def dockDraws (s : Compositor) (w : Window) : Checked (List Draw) := do
  let base := [.rounded (← i32 (w.x + 5)) (← i32 (w.y + 7)) w.width w.height 0x0010151a 0x0010151a,
    .rounded w.x w.y w.width w.height SHELL_DARK SHELL_BORDER]
  return base ++ (← (w.rows.take 8).zipIdx.mapM (s.dockRow w)).flatten

def noticeDraws (w : Window) : Checked (List Draw) := do
  let base := [.rounded (← i32 (w.x + 4)) (← i32 (w.y + 5)) w.width w.height CHROME_SHADOW CHROME_SHADOW,
    .rounded w.x w.y w.width w.height SHELL_DARK SHELL_BORDER]
  return base ++ (← w.rows.zipIdx.mapM fun row => do
    return .text (← i32 (w.x + 18)) (← i32 ((← i32 (w.y + 18)) + (← i32 (row.2 * 18)))) row.1.text.bytes 1 SHELL_TEXT)

/-! ## Framed surfaces -/

def buttonDraws (w : Window) : Checked (List Draw) := do
  let closeX ← i32 (w.x + 15)
  let controlY ← i32 (w.y + 14)
  let minX ← i32 (closeX + 29)
  let maxX ← i32 (minX + 29)
  return [.fill (← i32 (closeX + 3)) controlY 12 18 CHROME_CLOSE,
    .fill closeX (← i32 (controlY + 3)) 18 12 CHROME_CLOSE,
    .fill (← i32 (closeX + 5)) (← i32 (controlY + 5)) 8 8 0x00f7d8d5,
    .fill (← i32 (minX + 3)) controlY 12 18 0x00c6ccd0,
    .fill minX (← i32 (controlY + 3)) 18 12 0x00c6ccd0,
    .fill (← i32 (minX + 5)) (← i32 (controlY + 8)) 8 2 0x00656d73,
    .fill (← i32 (maxX + 3)) controlY 12 18 0x00c6ccd0,
    .fill maxX (← i32 (controlY + 3)) 18 12 0x00c6ccd0,
    .border (← i32 (maxX + 5)) (← i32 (controlY + 5)) 8 8 0x00656d73]

def chromeDraws (w : Window) (focused : Bool) : Checked (List Draw) := do
  let header := if focused then CHROME_HEADER else CHROME_HEADER_INACTIVE
  let frame := [.rounded (← i32 (w.x + 9)) (← i32 (w.y + 11)) w.width w.height CHROME_SHADOW CHROME_SHADOW,
    .rounded (← i32 (w.x + 4)) (← i32 (w.y + 5)) w.width w.height 0x00323a42 0x00323a42,
    .rounded w.x w.y w.width w.height CHROME_SURFACE CHROME_BORDER,
    .fill (← i32 (w.x + 1)) (← i32 (w.y + 1)) (← i32 (w.width - 2)) headerHeight header,
    .fill (← i32 (w.x + 1)) (← i32 (w.y + headerHeight)) (← i32 (w.width - 2)) 1 0x00c7cdd1]
  let titleWidth ← i32 (w.title.len * 12)
  let titleX ← i32 (w.x + max ((← i32 (w.width - titleWidth)).tdiv 2) 92)
  return frame ++ (← buttonDraws w) ++
    [.text titleX (← i32 (w.y + 15)) w.title.bytes 2 (if focused then CHROME_INK else 0x006f777d)]

def scrollbarDraws (w : Window) : Checked (List Draw) := do
  match ← w.scrollbar with
  | none => return []
  | some bar =>
    let barX ← i32 ((← i32 (w.x + w.width)) - 8)
    return [.rounded barX (← i32 (bar.trackTop + bar.thumbOffset)) 4 bar.thumbHeight 0x00aeb6bc 0x00aeb6bc]

/-- What is drawn of a row at its place: heading, text field, toggle, or label and button. -/
def rowDraws (s : Compositor) (w : Window) (focused : Bool) (r : Row) (index : Nat) (rect : Rect) :
    Checked (List Draw) := do
  let (x, y, width, height) := rect
  let state := s.controlState w.id index
  let surface := if r.disabled then CONTROL_LIGHT_DISABLED
    else if state.pressed then CONTROL_LIGHT_PRESSED
    else if state.hovered then CONTROL_LIGHT_HOVER
    else 0x00ffffff
  let borderColor := if state.focused then CHROME_ACCENT else if focused then 0x00b7bec3 else 0x00c2c8cc
  let ink := if r.disabled then 0x00828a90 else CHROME_INK
  let face : List Draw := [.rounded x y width height surface borderColor]
  let button := if r.action.isEmpty then [] else face
  if r.kind = 104 then
    return [.text (← i32 (x + 4)) (← i32 (y + (← centred height 14))) r.text.bytes 2 ink,
      .fill x (← i32 ((← i32 (y + height)) - 2)) width 1 0x00d5d9dc]
  else if r.kind = kindSearch ∨ r.kind = kindEdit then
    let p ← s.paintField w r index rect
    let hint := if r.disabled then 0x0090999f else if r.kind = kindEdit then 0x006f777d else 0x00777f85
    return face ++ (if p.label then [.text p.textX p.textY r.text.bytes 2 hint] else []) ++
      [.text p.valueX p.textY p.value 2 (if r.disabled then 0x0090999f else ink)] ++
      (match p.caret with
        | some (cx, cy, cw, ch) => [.fill cx cy cw ch CHROME_ACCENT]
        | none => [])
  else
    let label := .text (← i32 (x + 14)) (← i32 (y + (← centred height 14))) r.text.bytes 2 ink
    if r.kind = 116 then
      let tx ← i32 ((← i32 ((← i32 (x + width)) - 38)) - 14)
      let ty ← i32 (y + (← i32 (height - 20)).tdiv 2)
      return button ++ [label,
        .rounded tx ty 38 20 (if r.disabled then 0x00cfd4d7 else 0x00c8cdd1) 0x00adb5ba,
        .rounded (← i32 (tx + 3)) (← i32 (ty + 3)) 14 14 0x00ffffff 0x00ffffff]
    else return button ++ [label]

def contentRow (s : Compositor) (w : Window) (focused : Bool) (clip : ClipRect) (row : Row × Nat) :
    Checked (List Draw) := do
  match ← s.paintRow w clip row with
  | some rect => s.rowDraws w focused row.1 row.2 rect
  | none => return []

def visibleResultCount (s : Compositor) (w : Window) : Nat :=
  (w.rows.filter fun r => !r.structural && !r.action.isEmpty && s.rowMatchesSearch w r).length

def noMatchesDraws (s : Compositor) (w : Window) : Checked (List Draw) := do
  if searches w.id && !((s.searchQuery w.id).getD []).isEmpty && s.visibleResultCount w == 0 then
    match w.rows.find? fun r => r.kind = kindSearch with
    | none => return []
    | some search =>
      let top ← i32 ((← i32 (w.y + search.y)) - if w.role.framed then w.scrollY else 0)
      let emptyY ← i32 ((← i32 (top + search.height)) + 18)
      return [.text (← i32 ((← i32 (w.x + search.x)) + 8)) emptyY (Str.bytes "NO MATCHES".toList) 1 0x00777f85]
  else return []

def contentDraws (s : Compositor) (w : Window) (focused : Bool) (clip : ClipRect) : Checked (List Draw) := do
  return (← scrollbarDraws w) ++ (← w.rows.zipIdx.mapM (s.contentRow w focused clip)).flatten ++ (← s.noMatchesDraws w)

/-- The shapes of a surface, on the screen and in the clip of its content. -/
structure Drawing where
  shapes : List Draw
  clip : ClipRect
  content : List Draw

def windowDraws (s : Compositor) (w : Window) (focused : Bool) : Checked Drawing := do
  match w.role with
  | .P => return ⟨← s.panelDraws w, ⟨0, 0, 0, 0⟩, []⟩
  | .D => return ⟨← s.dockDraws w, ⟨0, 0, 0, 0⟩, []⟩
  | .N => return ⟨← noticeDraws w, ⟨0, 0, 0, 0⟩, []⟩
  | .W | .L =>
    let clip ← w.contentClip
    return ⟨← chromeDraws w focused, clip, ← s.contentDraws w focused clip⟩

def window (s : Compositor) (w : Window) (focused : Bool) (pixels : Pixels) : Checked Pixels := do
  let d ← s.windowDraws w focused
  paint (fillRectClipped d.clip) d.content (← paint fillRect d.shapes pixels)

end Compositor

end Pippin.Native
