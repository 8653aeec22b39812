import Pippin.Lib.Checked
import Pippin.Lib.Text

/-! The Control Manager: flat flows and retained trees of controls, and the frames they are
laid out in. Both layouts run at compile time, where an int32 overflow is an error; sums of
grow weights are unsigned and wrap. -/

namespace Pippin.Ui
open Checked

structure Rect where
  x : Int
  y : Int
  width : Int
  height : Int
deriving DecidableEq, Repr

structure Insets where
  top : Int
  right : Int
  bottom : Int
  left : Int
deriving DecidableEq, Repr

inductive Axis where
  | HORIZONTAL | VERTICAL
deriving DecidableEq, Repr

inductive Align where
  | START | CENTER | END | FILL
deriving DecidableEq, Repr

inductive ControlStyle where
  | PLAIN | SUBTLE | TILE | ACCENT | SEARCH | STATUS
deriving DecidableEq, Repr

def ControlStyle.code : ControlStyle → UInt8
  | PLAIN => 0
  | SUBTLE => 1
  | TILE => 2
  | ACCENT => 3
  | SEARCH => 4
  | STATUS => 5

def CONTROL_FOCUSABLE : UInt8 := 1
def CONTROL_DISABLED : UInt8 := 2

structure ControlSpec where
  text : Str
  action : Str
  kind : UInt8
  style : ControlStyle
  basis : Int
  grow : UInt8
  flags : UInt8
  crossBasis : Int
  crossAlign : Align
deriving DecidableEq, Repr

structure Control where
  text : Str
  action : Str
  kind : UInt8
  style : ControlStyle
  flags : UInt8
  frame : Rect
deriving DecidableEq, Repr

def ControlSpec.placed (spec : ControlSpec) (frame : Rect) : Control :=
  ⟨spec.text, spec.action, spec.kind, spec.style, spec.flags, frame⟩

def defaultFlags (action : Str) : UInt8 := if action.isEmpty then 0 else CONTROL_FOCUSABLE

def item (text action : Str) (kind : UInt8) (style : ControlStyle) (basis : Int) (growWeight : UInt8) : ControlSpec :=
  ⟨text, action, kind, style, basis, growWeight, defaultFlags action, 0, .FILL⟩

def fixed (text action : Str) (kind : UInt8) (style : ControlStyle) (basis : Int) : ControlSpec :=
  item text action kind style basis 0

def heading (text : Str) (basis : Int) : ControlSpec := fixed text [] 104 .PLAIN basis
def label (text : Str) : ControlSpec := fixed text [] 108 .PLAIN 28
def textField (text action : Str) : ControlSpec := fixed text action 101 .SUBTLE 38
def toggle (text action : Str) : ControlSpec := fixed text action 116 .SUBTLE 38

def toI32 (v : Int) : Int := (v + 2 ^ 31) % 2 ^ 32 - 2 ^ 31

def nonNegative (v : Int) : Int := if v < 0 then 0 else v

def inset (rect : Rect) (insets : Insets) : Checked Rect := do
  return { x := ← i32 (rect.x + insets.left)
           y := ← i32 (rect.y + insets.top)
           width := nonNegative (← i32 ((← i32 (rect.width - insets.left)) - insets.right))
           height := nonNegative (← i32 ((← i32 (rect.height - insets.top)) - insets.bottom)) }

/-! ## Flat flows -/

structure Flow where
  frame : Rect
  axis : Axis
  gap : Int
deriving DecidableEq, Repr

namespace Flow

def mainSize (l : Flow) : Int := if l.axis = .HORIZONTAL then l.frame.width else l.frame.height
def crossSize (l : Flow) : Int := if l.axis = .HORIZONTAL then l.frame.height else l.frame.width
def crossStart (l : Flow) : Int := if l.axis = .HORIZONTAL then l.frame.y else l.frame.x

end Flow

def alignCross (layout : Flow) (cell : Rect) (requested : Int) (align : Align) : Checked Rect := do
  if requested ≤ 0 ∨ align = .FILL then return cell
  let available := layout.crossSize
  let size := if requested < available then requested else available
  let start ← (match align with
    | .CENTER => do i32 (layout.crossStart + (← i32 (available - size)).tdiv 2)
    | .END => do i32 (layout.crossStart + (← i32 (available - size)))
    | _ => .ok layout.crossStart)
  return if layout.axis = .HORIZONTAL then { cell with y := start, height := size }
    else { cell with x := start, width := size }

def specTotals : List ControlSpec → Int → UInt32 → Checked (Int × UInt32)
  | [], fixedTotal, growTotal => .ok (fixedTotal, growTotal)
  | spec :: specs, fixedTotal, growTotal => do
    specTotals specs (← i32 (fixedTotal + spec.basis)) (growTotal + spec.grow.toUInt32)

def flowItems (layout : Flow) (remaining : Int) (growTotal : UInt32) :
    List ControlSpec → Int → Int → UInt32 → Checked (List Control)
  | [], _, _, _ => .ok []
  | spec :: specs, cursor, assignedGrow, usedGrow => do
    let (main, assignedGrow, usedGrow) ← (if spec.grow ≠ 0 ∧ growTotal ≠ 0 then do
        let usedGrow := usedGrow + spec.grow.toUInt32
        let target := toI32 ((remaining * usedGrow.toNat).tdiv growTotal.toNat)
        pure (← i32 (spec.basis + (← i32 (target - assignedGrow))), target, usedGrow)
      else pure (spec.basis, assignedGrow, usedGrow) : Checked (Int × Int × UInt32))
    let cell : Rect := if layout.axis = .HORIZONTAL then ⟨cursor, layout.frame.y, main, layout.crossSize⟩
      else ⟨layout.frame.x, cursor, layout.crossSize, main⟩
    let frame ← alignCross layout cell spec.crossBasis spec.crossAlign
    let cursor ← i32 (cursor + (← i32 (main + layout.gap)))
    return spec.placed frame :: (← flowItems layout remaining growTotal specs cursor assignedGrow usedGrow)

def flow (layout : Flow) (specs : List ControlSpec) : Checked (List Control) := do
  let (fixedTotal, growTotal) ← specTotals specs 0 0
  let gaps ← (if specs.length > 1 then i32 (layout.gap * toI32 (specs.length - 1 : Nat)) else .ok 0)
  let remaining ← i32 ((← i32 (layout.mainSize - fixedTotal)) - gaps)
  let remaining := if remaining < 0 then 0 else remaining
  let cursor := if layout.axis = .HORIZONTAL then layout.frame.x else layout.frame.y
  flowItems layout remaining growTotal specs cursor 0 0

/-! ## Retained trees -/

structure NodeLayout where
  basis : Int
  grow : UInt8
  crossBasis : Int
  crossAlign : Align
deriving DecidableEq, Repr

/-- A node is a control, a row or column of nodes, or insets around at most one node. -/
inductive Node where
  | leaf (layout : NodeLayout) (control : ControlSpec)
  | group (layout : NodeLayout) (axis : Axis) (gap : Int) (children : List Node)
  | proxy (layout : NodeLayout) (insets : Insets) (child : Option Node)

def Node.layout : Node → NodeLayout
  | leaf layout _ | group layout _ _ _ | proxy layout _ _ => layout

def nodeLayout (spec : ControlSpec) : NodeLayout := ⟨spec.basis, spec.grow, spec.crossBasis, spec.crossAlign⟩

def leaf (spec : ControlSpec) : Node := .leaf (nodeLayout spec) spec

def group (axis : Axis) (children : List Node) (gap : Int) : Node := .group ⟨0, 1, 0, .FILL⟩ axis gap children

def proxy (child : Node) (insets : Insets) : Node := .proxy child.layout insets (some child)

def Node.fixed (node : Node) (basis : Int) : Node :=
  let sized : NodeLayout := { node.layout with basis := nonNegative basis, grow := 0 }
  match node with
  | leaf _ control => .leaf sized control
  | group _ axis gap children => .group sized axis gap children
  | proxy _ insets child => .proxy sized insets child

structure TreeLayout where
  items : List Control
  overflow : Bool
deriving DecidableEq, Repr

def TreeLayout.put (capacity : Nat) (out : TreeLayout) (control : Control) : TreeLayout :=
  if out.items.length < capacity then { out with items := out.items ++ [control] } else { out with overflow := true }

theorem TreeLayout.put_of_lt {capacity : Nat} {out : TreeLayout} (h : out.items.length < capacity)
    (control : Control) : out.put capacity control = ⟨out.items ++ [control], out.overflow⟩ := if_pos h

theorem TreeLayout.put_of_le {capacity : Nat} {out : TreeLayout} (h : capacity ≤ out.items.length)
    (control : Control) : out.put capacity control = ⟨out.items, true⟩ := if_neg (Nat.not_lt.mpr h)

def alignNodeCross (axis : Axis) (parent cell : Rect) (layout : NodeLayout) : Checked Rect := do
  if layout.crossBasis ≤ 0 ∨ layout.crossAlign = .FILL then return cell
  let available := if axis = .HORIZONTAL then parent.height else parent.width
  let size := if layout.crossBasis < available then layout.crossBasis else available
  let start := if axis = .HORIZONTAL then parent.y else parent.x
  let start ← (match layout.crossAlign with
    | .CENTER => do i32 (start + (← i32 (available - size)).tdiv 2)
    | .END => do i32 (start + (← i32 (available - size)))
    | _ => .ok start)
  return if axis = .HORIZONTAL then { cell with y := start, height := size }
    else { cell with x := start, width := size }

def nodeTotals : List Node → Int → UInt32 → Checked (Int × UInt32)
  | [], fixedTotal, growTotal => .ok (fixedTotal, growTotal)
  | child :: children, fixedTotal, growTotal => do
    nodeTotals children (← i32 (fixedTotal + child.layout.basis)) (growTotal + child.layout.grow.toUInt32)

mutual

def layoutNode (capacity : Nat) : Node → Rect → TreeLayout → Checked TreeLayout
  | .leaf _ control, frame, out => .ok (out.put capacity (control.placed frame))
  | .proxy _ _ none, _, out => .ok out
  | .proxy _ insets (some child), frame, out => do layoutNode capacity child (← inset frame insets) out
  | .group _ axis gap children, frame, out => do
    if children.length = 0 then return out
    let (fixedTotal, growTotal) ← nodeTotals children 0 0
    let mainSize := if axis = .HORIZONTAL then frame.width else frame.height
    let gaps ← (if children.length > 1 then i32 (gap * toI32 (children.length - 1 : Nat)) else .ok 0)
    let remaining ← i32 ((← i32 (mainSize - fixedTotal)) - gaps)
    let remaining := if remaining < 0 then 0 else remaining
    let cursor := if axis = .HORIZONTAL then frame.x else frame.y
    layoutChildren capacity axis gap frame remaining growTotal children cursor 0 0 out

def layoutChildren (capacity : Nat) (axis : Axis) (gap : Int) (frame : Rect) (remaining : Int) (growTotal : UInt32) :
    List Node → Int → Int → UInt32 → TreeLayout → Checked TreeLayout
  | [], _, _, _, out => .ok out
  | child :: children, cursor, assignedGrow, usedGrow, out => do
    let (main, assignedGrow, usedGrow) ← (if child.layout.grow ≠ 0 ∧ growTotal ≠ 0 then do
        let usedGrow := usedGrow + child.layout.grow.toUInt32
        let target := toI32 ((remaining * usedGrow.toNat).tdiv growTotal.toNat)
        pure (← i32 (child.layout.basis + (← i32 (target - assignedGrow))), target, usedGrow)
      else pure (child.layout.basis, assignedGrow, usedGrow) : Checked (Int × Int × UInt32))
    let cell : Rect := if axis = .HORIZONTAL then ⟨cursor, frame.y, main, frame.height⟩
      else ⟨frame.x, cursor, frame.width, main⟩
    let cell ← alignNodeCross axis frame cell child.layout
    let out ← layoutNode capacity child cell out
    let cursor ← i32 (cursor + (← i32 (main + gap)))
    layoutChildren capacity axis gap frame remaining growTotal children cursor assignedGrow usedGrow out

end

def layoutTree (capacity : Nat) (root : Node) (frame : Rect) : Checked TreeLayout :=
  layoutNode capacity root frame ⟨[], false⟩

end Pippin.Ui
