import Pippin.Client.WindowServer

/-! Painting client windows into the pixel buffer: chrome, title text, surface. -/

namespace Pippin.Client
open Checked

abbrev Pixels := Array UInt32

def FRAME : UInt32 := 0x009aa2a8
def headerActive : UInt32 := 0x00e9ecef
def headerInactive : UInt32 := 0x00dfe3e6
def INK : UInt32 := 0x00252b31
def mutedInk : UInt32 := 0x006f777d
def CLOSE : UInt32 := 0x00d95d55
def SHADOW : UInt32 := 0x00151b22

def fill (pixels : Pixels) (x y w h : Int) (color : UInt32) : Checked Pixels := do
  (range (max y 0) (min (← i32 (y + h)) HEIGHT)).foldlM (fun pixels row => do
    (range (max x 0) (min (← i32 (x + w)) WIDTH)).foldlM (fun pixels col =>
      set pixels (row.toNat * WIDTH + col.toNat) color) pixels) pixels

def glyph (byte : UInt8) : List UInt8 :=
  match Char.ofNat byte.toNat with
  | 'A' => [14, 17, 17, 31, 17, 17, 17]
  | 'B' => [30, 17, 17, 30, 17, 17, 30]
  | 'C' => [14, 17, 16, 16, 16, 17, 14]
  | 'D' => [30, 17, 17, 17, 17, 17, 30]
  | 'E' => [31, 16, 16, 30, 16, 16, 31]
  | 'F' => [31, 16, 16, 30, 16, 16, 16]
  | 'G' => [14, 17, 16, 23, 17, 17, 14]
  | 'H' => [17, 17, 17, 31, 17, 17, 17]
  | 'I' => [31, 4, 4, 4, 4, 4, 31]
  | 'J' => [7, 2, 2, 2, 18, 18, 12]
  | 'K' => [17, 18, 20, 24, 20, 18, 17]
  | 'L' => [16, 16, 16, 16, 16, 16, 31]
  | 'M' => [17, 27, 21, 21, 17, 17, 17]
  | 'N' => [17, 25, 21, 19, 17, 17, 17]
  | 'O' => [14, 17, 17, 17, 17, 17, 14]
  | 'P' => [30, 17, 17, 30, 16, 16, 16]
  | 'Q' => [14, 17, 17, 17, 21, 18, 13]
  | 'R' => [30, 17, 17, 30, 20, 18, 17]
  | 'S' => [15, 16, 16, 14, 1, 1, 30]
  | 'T' => [31, 4, 4, 4, 4, 4, 4]
  | 'U' => [17, 17, 17, 17, 17, 17, 14]
  | 'V' => [17, 17, 17, 17, 17, 10, 4]
  | 'W' => [17, 17, 17, 21, 21, 21, 10]
  | 'X' => [17, 17, 10, 4, 10, 17, 17]
  | 'Y' => [17, 17, 10, 4, 4, 4, 4]
  | 'Z' => [31, 1, 2, 4, 8, 16, 31]
  | _ => List.replicate 7 0

def toAsciiUppercase (byte : UInt8) : UInt8 := if 97 ≤ byte ∧ byte ≤ 122 then byte - 32 else byte

def text (pixels : Pixels) (x y : Int) (label : List UInt8) (color : UInt32) (maxChars : Nat) :
    Checked Pixels :=
  (label.take maxChars).zipIdx.foldlM (fun pixels (byte, index) =>
    (glyph (toAsciiUppercase byte)).zipIdx.foldlM (fun pixels (bits, row) =>
      (List.range 5).foldlM (fun pixels col => do
        if bits &&& ((1 : UInt8) <<< UInt8.ofNat (4 - col)) ≠ 0 then
          fill pixels (← i32 ((← i32 (x + (← i32 (index * 7)))) + col)) (← i32 (y + row)) 1 1 color
        else return pixels) pixels) pixels) pixels

def paintSurface (w : Window) (pixels : Pixels) : Checked Pixels :=
  (range 0 w.height).foldlM (fun pixels sy => do
    let dy ← i32 ((← i32 (w.y + titleHeight)) + sy)
    if dy < 0 ∨ dy ≥ HEIGHT then return pixels
    else
      (range 0 w.width).foldlM (fun pixels sx => do
        let dx ← i32 ((← i32 (w.x + border)) + sx)
        if dx ≥ 0 ∧ dx < WIDTH then
          set pixels (dy.toNat * WIDTH + dx.toNat) (← get w.surface (sy.toNat * w.width.toNat + sx.toNat))
        else return pixels) pixels) pixels

def paintFrame (w : Window) (focused : Bool) (fw fh : Int) (pixels : Pixels) : Checked Pixels := do
  let pixels ← fill pixels (← i32 (w.x + 8)) (← i32 (w.y + 10)) fw fh SHADOW
  let pixels ← fill pixels (← i32 (w.x + 4)) (← i32 (w.y + 5)) fw fh 0x00323a42
  let pixels ← fill pixels w.x w.y fw fh FRAME
  let pixels ← fill pixels (← i32 (w.x + 1)) (← i32 (w.y + 1)) (← i32 (fw - 2)) (← i32 (fh - 2)) SURFACE
  let pixels ← fill pixels (← i32 (w.x + 1)) (← i32 (w.y + 1)) (← i32 (fw - 2)) (← i32 (titleHeight - 1))
    (if focused then headerActive else headerInactive)
  fill pixels (← i32 (w.x + 1)) (← i32 ((← i32 (w.y + titleHeight)) - 1)) (← i32 (fw - 2)) 1 0x00c7cdd1

def paintTitle (w : Window) (focused : Bool) (fw : Int) (pixels : Pixels) : Checked Pixels := do
  let closeX ← i32 ((← i32 (w.x + fw)) - 31)
  let controlY ← i32 (w.y + 13)
  let pixels ← fill pixels (← i32 (closeX + 3)) controlY 12 18 CLOSE
  let pixels ← fill pixels closeX (← i32 (controlY + 3)) 18 12 CLOSE
  let pixels ← text pixels (← i32 (closeX + 6)) (← i32 (controlY + 6)) [88] 0x00ffffff 1
  let titleChars := (max ((← i32 (fw - 88)).tdiv 7) 0).toNat
  let titlePx ← i32 (min w.title.len titleChars * 7)
  let titleX ← i32 (w.x + max ((← i32 (fw - titlePx)).tdiv 2) 14)
  text pixels titleX (← i32 (w.y + 18)) (Str.bytes w.title) (if focused then INK else mutedInk) titleChars

def paintWindow (w : Window) (focused : Bool) (pixels : Pixels) : Checked Pixels := do
  let fw ← w.frameWidth
  let fh ← w.frameHeight
  let pixels ← paintFrame w focused fw fh pixels
  let pixels ← paintTitle w focused fw pixels
  let pixels ← fill pixels (← i32 (w.x + border)) (← i32 (w.y + titleHeight)) w.width w.height SURFACE
  let pixels ← paintSurface w pixels
  let pixels ← fill pixels (← i32 ((← i32 (w.x + fw)) - 11)) (← i32 ((← i32 (w.y + fh)) - 5)) 7 1 0x009aa2a8
  fill pixels (← i32 ((← i32 (w.x + fw)) - 8)) (← i32 ((← i32 (w.y + fh)) - 8)) 4 1 0x009aa2a8

def WindowServer.paint (s : WindowServer) (pixels : Pixels) : Checked Pixels :=
  s.windows.foldlM (fun pixels w =>
    if !w.visible then .ok pixels else paintWindow w (s.focused = some w.id) pixels) pixels

end Pippin.Client
