import Pippin.Lib.Checked
import Pippin.Lib.Terminal

/-! The VGA text console. It keeps 25 rows and moves them up; what it shows is the end of a
terminal that keeps every row. -/

namespace Pippin.Kernel
open Checked

def VGA_WIDTH : Nat := 80
def VGA_HEIGHT : Nat := 25

/-- The console, with the text memory it writes and the cursor position of the controller. -/
structure TextConsole where
  row : Nat
  column : Nat
  attr : UInt8
  vga : Nat → UInt16
  cursor : UInt16

def readCell (vga : Nat → UInt16) (i : Nat) : Checked UInt16 :=
  if i < VGA_WIDTH * VGA_HEIGHT then .ok (vga i) else .error .index

def writeCell (vga : Nat → UInt16) (i : Nat) (v : UInt16) : Checked (Nat → UInt16) :=
  if i < VGA_WIDTH * VGA_HEIGHT then .ok (fun k => if k = i then v else vga k) else .error .index

namespace TextConsole

def cell (c : TextConsole) (byte : UInt8) : UInt16 := c.attr.toUInt16 <<< 8 ||| byte.toUInt16

def blank (c : TextConsole) : UInt16 := c.attr.toUInt16 <<< 8 ||| 0x20

def updateCursor (c : TextConsole) : TextConsole :=
  { c with cursor := UInt16.ofNat (c.row * VGA_WIDTH + min c.column (VGA_WIDTH - 1)) }

def clear (c : TextConsole) : Checked TextConsole := do
  let vga ← (List.range (VGA_WIDTH * VGA_HEIGHT)).foldlM (fun vga cell => writeCell vga cell c.blank) c.vga
  return { c with vga, row := 0, column := 0 : TextConsole }.updateCursor

def scroll (c : TextConsole) : Checked TextConsole := do
  let vga ← (List.range' 1 (VGA_HEIGHT - 1)).foldlM (fun vga row =>
    (List.range VGA_WIDTH).foldlM (fun vga column => do
      let source := row * VGA_WIDTH + column
      let target := source - VGA_WIDTH
      writeCell vga target (← readCell vga source)) vga) c.vga
  let vga ← (List.range VGA_WIDTH).foldlM (fun vga column =>
    writeCell vga ((VGA_HEIGHT - 1) * VGA_WIDTH + column) c.blank) vga
  return { c with vga, row := VGA_HEIGHT - 1 }

def put (c : TextConsole) (byte : UInt8) : Checked TextConsole := do
  let c ← (if byte = 0x0a then pure { c with row := c.row + 1, column := 0 }
    else if byte = 0x0d then pure { c with column := 0 }
    else if byte = 8 then
      if c.column > 0 then do
        return { c with column := c.column - 1
                        vga := ← writeCell c.vga (c.row * VGA_WIDTH + (c.column - 1)) c.blank }
      else pure c
    else if 0x20 ≤ byte ∧ byte ≤ 0x7e then do
      let c := if c.column = VGA_WIDTH then { c with row := c.row + 1, column := 0 } else c
      let c ← (if c.row = VGA_HEIGHT then c.scroll else pure c)
      return { c with vga := ← writeCell c.vga (c.row * VGA_WIDTH + c.column) (c.cell byte), column := c.column + 1 }
    else pure c : Checked TextConsole)
  let c ← (if c.row = VGA_HEIGHT then c.scroll else pure c)
  return c.updateCursor

def writeStr (c : TextConsole) (text : List UInt8) : Checked TextConsole := text.foldlM put c

variable {c d : TextConsole} {t : Terminal UInt16}

/-! ## The loops over the cells -/

theorem writeCell_eq (vga : Nat → UInt16) {i : Nat} (h : i < 2000) (v : UInt16) :
    writeCell vga i v = .ok fun k => if k = i then v else vga k := if_pos h

theorem clear_eq (c : TextConsole) : c.clear = .ok { c with
    row := 0, column := 0, cursor := 0, vga := fun k => if k < 2000 then c.blank else c.vga k } := by
  have hloop : (List.range 2000).foldlM (fun vga cell => writeCell vga cell c.blank) c.vga =
      .ok fun k => if k < 2000 then c.blank else c.vga k := by
    rw [List.range_eq_range']
    refine foldlM_range' (fun i k => if k < i then c.blank else c.vga k) 0 2000 fun i hi => ?_
    rw [Nat.zero_add, writeCell_eq _ hi]
    refine congrArg Except.ok (funext fun k => ?_)
    split_ifs <;> first | rfl | omega
  unfold clear
  exact congrArg (fun m : Checked (Nat → UInt16) => m >>= fun vga => pure
    { c with vga, row := 0, column := 0 : TextConsole }.updateCursor) hloop

def shifted (vga : Nat → UInt16) (n k : Nat) : UInt16 := if k < n then vga (k + 80) else vga k

theorem shift_row (vga : Nat → UInt16) {i : Nat} (hi : i < 24) :
    (List.range 80).foldlM (fun vga column => do
      let source := (1 + i) * VGA_WIDTH + column
      let target := source - VGA_WIDTH
      writeCell vga target (← readCell vga source)) (shifted vga (i * 80)) = .ok (shifted vga ((i + 1) * 80)) := by
  rw [List.range_eq_range']
  have hnext : (i + 1) * 80 = i * 80 + 80 := by omega
  rw [hnext]
  refine foldlM_range' (fun j => shifted vga (i * 80 + j)) 0 80 fun j hj => ?_
  have hsource : (1 + i) * VGA_WIDTH + (0 + j) = i * 80 + j + 80 := by
    unfold VGA_WIDTH
    omega
  have hread : readCell (shifted vga (i * 80 + j)) (i * 80 + j + 80) = .ok (vga (i * 80 + j + 80)) := by
    unfold readCell shifted VGA_WIDTH VGA_HEIGHT
    rw [if_pos (by omega), if_neg (by omega)]
  have htarget : i * 80 + j + 80 - VGA_WIDTH = i * 80 + j := by
    unfold VGA_WIDTH
    omega
  dsimp only
  rw [hsource, htarget, hread, ok_bind, writeCell_eq _ (by omega)]
  refine congrArg Except.ok (funext fun k => ?_)
  unfold shifted
  by_cases hk : k = i * 80 + j
  · subst hk
    rw [if_pos rfl, if_pos (by omega)]
  · rw [if_neg hk]
    split_ifs <;> first | rfl | omega

theorem scroll_eq (c : TextConsole) : c.scroll = .ok { c with
    row := 24, vga := fun k => if 1920 ≤ k ∧ k < 2000 then c.blank else shifted c.vga 1920 k } := by
  have hrows : (List.range' 1 24).foldlM (fun vga row =>
      (List.range 80).foldlM (fun vga column => do
        let source := row * VGA_WIDTH + column
        let target := source - VGA_WIDTH
        writeCell vga target (← readCell vga source)) vga) c.vga = .ok (shifted c.vga 1920) := by
    exact foldlM_range' (fun i => shifted c.vga (i * 80)) 1 24 fun i hi => shift_row c.vga hi
  have hlast : (List.range 80).foldlM (fun vga column => writeCell vga (24 * VGA_WIDTH + column) c.blank)
      (shifted c.vga 1920) = .ok fun k => if 1920 ≤ k ∧ k < 2000 then c.blank else shifted c.vga 1920 k := by
    rw [List.range_eq_range']
    have h := foldlM_range' (fun j k => if 1920 ≤ k ∧ k < 1920 + j then c.blank else shifted c.vga 1920 k) 0 80
      (f := fun vga column => writeCell vga (24 * VGA_WIDTH + column) c.blank) fun j hj => ?_
    · rw [← h]
      refine congrArg (fun v => List.foldlM _ v _) (funext fun k => ?_)
      rw [if_neg (by omega)]
    · rw [Nat.zero_add, show 24 * VGA_WIDTH + j = 1920 + j from rfl, writeCell_eq _ (by omega)]
      refine congrArg Except.ok (funext fun k => ?_)
      split_ifs <;> first | rfl | omega
  unfold scroll
  refine (congrArg (fun m : Checked (Nat → UInt16) => m >>= _) hrows).trans ?_
  rw [ok_bind]
  exact congrArg (fun m : Checked (Nat → UInt16) => m >>= fun vga => pure { c with vga, row := 24 : TextConsole }) hlast

/-! ## Refinement -/

def op (attr byte : UInt8) : Option (Terminal.Op UInt16) :=
  if byte = 0x0a then some .newline
  else if byte = 0x0d then some .carriageReturn
  else if byte = 8 then some .backspace
  else if 0x20 ≤ byte ∧ byte ≤ 0x7e then some (.put (attr.toUInt16 <<< 8 ||| byte.toUInt16))
  else none

structure Shows (c : TextConsole) (t : Terminal UInt16) : Prop where
  sound : t.Sound 80 c.blank
  row : c.row + t.top 25 = t.row
  column : c.column = t.column
  cells : ∀ i < 25, ∀ j < 80, c.vga (i * 80 + j) = t.screen 25 i j

/-- The same, but the cursor may be in the row below the screen. -/
structure Overhangs (c : TextConsole) (t : Terminal UInt16) : Prop where
  sound : t.Sound 80 c.blank
  row_le : c.row ≤ 25
  base : c.row ≤ t.row ∧ (c.row < 24 → c.row = t.row)
  fresh : c.row = 25 → ∀ j, t.cells t.row j = c.blank
  column : c.column = t.column
  cells : ∀ i < 25, ∀ j < 80, c.vga (i * 80 + j) = t.cells (t.row - c.row + i) j

theorem Shows.overhangs (h : c.Shows t) : c.Overhangs t := by
  have hrow := h.row
  unfold Terminal.top at hrow
  refine ⟨h.sound, by omega, by omega, fun h => by omega, h.column, fun i hi j hj => ?_⟩
  rw [h.cells i hi j hj]
  unfold Terminal.screen Terminal.top
  congr 1
  omega

theorem Overhangs.scroll (h : c.Overhangs t) :
    ∃ d, (if c.row = VGA_HEIGHT then c.scroll else pure c) = .ok d ∧ d.Shows t ∧ d.attr = c.attr := by
  obtain ⟨hsound, hle, hbase, hfresh, hcolumn, hcells⟩ := h
  split
  · rename_i hrow
    have hrow : c.row = 25 := hrow
    refine ⟨_, scroll_eq c, ⟨hsound, ?_, hcolumn, fun i hi j hj => ?_⟩, rfl⟩
    · show 24 + t.top 25 = t.row
      unfold Terminal.top
      omega
    · unfold Terminal.screen Terminal.top
      dsimp only
      rcases Nat.lt_or_ge i 24 with hlt | hge
      · rw [if_neg (by omega)]
        unfold shifted
        rw [if_pos (by omega), show i * 80 + j + 80 = (i + 1) * 80 + j by omega, hcells (i + 1) (by omega) j hj]
        congr 1
        omega
      · -- the row that comes in has not been written
        have hlast : t.row + 1 - 25 + i = t.row := by omega
        rw [if_pos (by omega), hlast, hfresh hrow j]
  · rename_i hrow
    have hrow : c.row ≠ 25 := hrow
    refine ⟨c, rfl, ⟨hsound, ?_, hcolumn, fun i hi j hj => ?_⟩, rfl⟩
    · unfold Terminal.top
      omega
    · rw [hcells i hi j hj]
      unfold Terminal.screen Terminal.top
      congr 1
      omega

theorem Shows.newline (h : c.Shows t) : { c with row := c.row + 1, column := 0 : TextConsole }.Overhangs
    { t with row := t.row + 1, column := 0 } := by
  obtain ⟨hsound, hrow, -, hcells⟩ := h
  unfold Terminal.top at hrow
  refine ⟨hsound.newline, by dsimp only; omega, by dsimp only; omega, fun _ j => ?_, rfl, fun i hi j hj => ?_⟩
  · exact hsound.below _ _ (Nat.lt_succ_self t.row)
  · rw [hcells i hi j hj]
    unfold Terminal.screen Terminal.top
    dsimp only
    congr 1
    omega

theorem Shows.write (h : c.Shows t) (hcolumn : c.column < 80) (v : UInt16) : ∃ vga,
    writeCell c.vga (c.row * VGA_WIDTH + c.column) v = .ok vga ∧ { c with vga : TextConsole }.Shows (t.write v) := by
  obtain ⟨hsound, hrow, hsame, hcells⟩ := h
  have hle : c.row ≤ 24 := by
    unfold Terminal.top at hrow
    omega
  have hindex : c.row * VGA_WIDTH + c.column = c.row * 80 + c.column := rfl
  refine ⟨_, writeCell_eq c.vga (by omega) v, hsound.write v, hrow, hsame, fun i hi j hj => ?_⟩
  unfold Terminal.screen Terminal.write at *
  have htop : Terminal.top { t with cells := fun r c => if r = t.row ∧ c = t.column then v else t.cells r c } 25 =
      t.top 25 := rfl
  dsimp only
  rw [hindex, htop, hcells i hi j hj]
  by_cases hhere : i = c.row ∧ j = c.column
  · rw [if_pos (by omega), if_pos (by omega)]
  · rw [if_neg (by omega), if_neg (by omega)]

theorem Shows.move (h : c.Shows t) (column : Nat) (hle : column ≤ 80) :
    { c with column : TextConsole }.Shows { t with column } :=
  ⟨⟨hle, h.sound.below⟩, h.row, rfl, h.cells⟩

theorem Shows.updateCursor (h : c.Shows t) : c.updateCursor.Shows t := ⟨h.sound, h.row, h.column, h.cells⟩

theorem Shows.erase (h : c.Shows t) : ∃ d, (if c.column > 0 then do
      return { c with column := c.column - 1
                      vga := ← writeCell c.vga (c.row * VGA_WIDTH + (c.column - 1)) c.blank }
    else pure c : Checked TextConsole) = .ok d ∧ d.attr = c.attr ∧ d.Shows (t.step 80 c.blank .backspace) := by
  have hsame := h.column
  have hle := h.sound.column_le
  dsimp only [Terminal.step]
  by_cases hzero : t.column = 0
  · rw [if_pos hzero, if_neg (by omega)]
    exact ⟨c, rfl, rfl, h⟩
  · rw [if_neg hzero, if_pos (by omega), ← hsame]
    have hleft := h.move (c.column - 1) (by omega)
    obtain ⟨vga, hvga, hshows⟩ := hleft.write (by dsimp only; omega) c.blank
    dsimp only at hvga
    rw [hvga]
    exact ⟨_, rfl, rfl, hshows⟩

theorem Shows.print (h : c.Shows t) (byte : UInt8) : ∃ d, (do
      let c := if c.column = VGA_WIDTH then { c with row := c.row + 1, column := 0 } else c
      let c ← (if c.row = VGA_HEIGHT then c.scroll else pure c)
      return { c with vga := ← writeCell c.vga (c.row * VGA_WIDTH + c.column) (c.cell byte), column := c.column + 1 }
      : Checked TextConsole) = .ok d ∧ d.attr = c.attr ∧
    d.Shows (t.step 80 c.blank (.put (c.attr.toUInt16 <<< 8 ||| byte.toUInt16))) := by
  have hlt := Terminal.wrap_column_lt h.sound (by decide)
  obtain ⟨c₁, hwrap, hattr, hover⟩ :
    ∃ c₁, (if c.column = VGA_WIDTH then { c with row := c.row + 1, column := 0 } else c) = c₁ ∧
      c₁.attr = c.attr ∧ c₁.Overhangs (t.wrap 80) := by
    have hsame : c.column = VGA_WIDTH ↔ t.column = 80 := by rw [h.column]; rfl
    unfold Terminal.wrap
    by_cases hfull : t.column = 80
    · rw [if_pos hfull, if_pos (hsame.mpr hfull)]
      exact ⟨_, rfl, rfl, h.newline⟩
    · rw [if_neg hfull, if_neg fun h => hfull (hsame.mp h)]
      exact ⟨c, rfl, rfl, h.overhangs⟩
  obtain ⟨c₂, hscroll, hshows, hattr'⟩ := hover.scroll
  obtain ⟨vga, hvga, hwritten⟩ := hshows.write (by rw [hshows.column]; exact hlt) (c₂.cell byte)
  dsimp only
  rw [hwrap, hscroll, ok_bind, hvga]
  have hmoved := hwritten.move (c₂.column + 1) (by rw [hshows.column]; exact hlt)
  refine ⟨_, rfl, hattr'.trans hattr, ?_⟩
  have hcell : c₂.cell byte = c.attr.toUInt16 <<< 8 ||| byte.toUInt16 := by
    unfold cell
    rw [hattr', hattr]
  have hstep : t.step 80 c.blank (.put (c.attr.toUInt16 <<< 8 ||| byte.toUInt16)) =
      { (t.wrap 80).write (c₂.cell byte) with column := c₂.column + 1 } := by
    rw [hcell, hshows.column]
    rfl
  rw [hstep]
  exact hmoved

theorem Shows.put (h : c.Shows t) (byte : UInt8) : ∃ d, c.put byte = .ok d ∧ d.attr = c.attr ∧
    d.Shows ((op c.attr byte).elim t (t.step 80 c.blank)) := by
  -- the scroll at the end of `put` makes an overhang good
  have finish : ∀ {m : Checked TextConsole} {c₁ : TextConsole} {t' : Terminal UInt16}, m = .ok c₁ → c₁.attr = c.attr →
      c₁.Overhangs t' → ∃ d, (do
        let c ← m
        let c ← (if c.row = VGA_HEIGHT then c.scroll else pure c)
        return c.updateCursor : Checked TextConsole) = .ok d ∧ d.attr = c.attr ∧ d.Shows t' := by
    rintro m c₁ t' rfl hattr hover
    obtain ⟨d, hd, hshows, hsame⟩ := hover.scroll
    refine ⟨d.updateCursor, ?_, hsame.trans hattr, hshows.updateCursor⟩
    rw [ok_bind, hd]
    rfl
  unfold TextConsole.put op
  by_cases hnewline : byte = 0x0a
  · rw [if_pos hnewline, if_pos hnewline]
    exact finish rfl rfl h.newline
  rw [if_neg hnewline, if_neg hnewline]
  by_cases hreturn : byte = 0x0d
  · rw [if_pos hreturn, if_pos hreturn]
    exact finish rfl rfl (h.move 0 (Nat.zero_le _)).overhangs
  rw [if_neg hreturn, if_neg hreturn]
  by_cases hback : byte = 8
  · rw [if_pos hback, if_pos hback]
    obtain ⟨c₁, h₁, hattr, hshows⟩ := h.erase
    exact finish h₁ hattr hshows.overhangs
  rw [if_neg hback, if_neg hback]
  by_cases hprint : 0x20 ≤ byte ∧ byte ≤ 0x7e
  · rw [if_pos hprint, if_pos hprint]
    obtain ⟨c₁, h₁, hattr, hshows⟩ := h.print byte
    exact finish h₁ hattr hshows.overhangs
  · rw [if_neg hprint, if_neg hprint]
    exact finish rfl rfl h.overhangs

theorem Shows.writeStr (h : c.Shows t) (text : List UInt8) : ∃ d, c.writeStr text = .ok d ∧ d.attr = c.attr ∧
    d.Shows (t.run 80 c.blank (text.filterMap (op c.attr))) := by
  induction text generalizing c t with
  | nil => exact ⟨c, rfl, rfl, h⟩
  | cons byte text ih =>
    obtain ⟨d, hd, hattr, hshows⟩ := h.put byte
    obtain ⟨d', hd', hattr', hshows'⟩ := ih hshows
    refine ⟨d', ?_, hattr'.trans hattr, ?_⟩
    · unfold TextConsole.writeStr at hd' ⊢
      rw [List.foldlM_cons, hd]
      exact hd'
    · have hblank : d.blank = c.blank := by
        unfold blank
        rw [hattr]
      rw [hattr, hblank] at hshows'
      rw [List.filterMap_cons]
      cases hop : op c.attr byte with
      | none =>
        rw [hop] at hshows'
        exact hshows'
      | some o =>
        rw [hop] at hshows'
        exact hshows'

theorem shows_clear (c : TextConsole) : ∃ d, c.clear = .ok d ∧ d.attr = c.attr ∧ d.Shows (.start c.blank) := by
  refine ⟨_, clear_eq c, rfl, Terminal.sound_start 80 c.blank, rfl, rfl, fun i hi j hj => ?_⟩
  dsimp only
  rw [if_pos (by omega)]
  rfl

/-- Whatever was on the screen before: after `clear` and any bytes, the screen shows the last rows of the unbounded
terminal, and no access was outside the 2000 cells. -/
theorem console_refines_terminal (c : TextConsole) (text : List UInt8) :
    Yields (do (← c.clear).writeStr text) fun d => d.row ≤ 24 ∧ d.column ≤ 80 ∧ d.attr = c.attr ∧
      ∀ i < 25, ∀ j < 80, d.vga (i * 80 + j) =
        ((Terminal.start c.blank).run 80 c.blank (text.filterMap (op c.attr))).screen 25 i j := by
  obtain ⟨e, he, hattr, hshows⟩ := shows_clear c
  obtain ⟨d, hd, hattr', hshows'⟩ := hshows.writeStr text
  have hblank : e.blank = c.blank := by
    unfold blank
    rw [hattr]
  rw [hattr, hblank] at hshows'
  refine ⟨d, by rw [he]; exact hd, ?_, ?_, hattr'.trans hattr, hshows'.cells⟩
  · have hrow := hshows'.row
    unfold Terminal.top at hrow
    omega
  · rw [hshows'.column]
    exact hshows'.sound.column_le

end TextConsole

end Pippin.Kernel
