import Mathlib.Tactic.Common

/-! A terminal that never scrolls: its rows go on for ever, and a screen shows the last ones.
The wrap at the right margin waits for the next character. -/

inductive Terminal.Op (α : Type) where
  | newline
  | carriageReturn
  | backspace
  | put (cell : α)
deriving DecidableEq, Repr

structure Terminal (α : Type) where
  row : Nat
  column : Nat
  cells : Nat → Nat → α

namespace Terminal

variable {α : Type}

def start (blank : α) : Terminal α := ⟨0, 0, fun _ _ => blank⟩

def write (t : Terminal α) (a : α) : Terminal α :=
  { t with cells := fun r c => if r = t.row ∧ c = t.column then a else t.cells r c }

def wrap (t : Terminal α) (width : Nat) : Terminal α :=
  if t.column = width then { t with row := t.row + 1, column := 0 } else t

def step (width : Nat) (blank : α) (t : Terminal α) : Op α → Terminal α
  | .newline => { t with row := t.row + 1, column := 0 }
  | .carriageReturn => { t with column := 0 }
  | .backspace => if t.column = 0 then t else { t with column := t.column - 1 }.write blank
  | .put a => { (t.wrap width).write a with column := (t.wrap width).column + 1 }

def run (width : Nat) (blank : α) (t : Terminal α) (ops : List (Op α)) : Terminal α := ops.foldl (step width blank) t

def top (t : Terminal α) (height : Nat) : Nat := t.row + 1 - height

def screen (t : Terminal α) (height i j : Nat) : α := t.cells (t.top height + i) j

structure Sound (width : Nat) (blank : α) (t : Terminal α) : Prop where
  column_le : t.column ≤ width
  below : ∀ r c, t.row < r → t.cells r c = blank

variable {width : Nat} {blank : α} {t : Terminal α}

theorem sound_start (width : Nat) (blank : α) : (start blank).Sound width blank := ⟨Nat.zero_le _, fun _ _ _ => rfl⟩

theorem Sound.write (h : t.Sound width blank) (a : α) : (t.write a).Sound width blank := by
  refine ⟨h.column_le, fun r c hr => ?_⟩
  have hr : t.row < r := hr
  unfold Terminal.write
  dsimp only
  rw [if_neg (by omega)]
  exact h.below r c hr

theorem Sound.newline (h : t.Sound width blank) :
    { t with row := t.row + 1, column := 0 : Terminal α }.Sound width blank :=
  ⟨Nat.zero_le _, fun r c hr => h.below r c (Nat.lt_of_succ_lt hr)⟩

theorem wrap_column_lt (h : t.Sound width blank) (hwidth : 0 < width) : (t.wrap width).column < width := by
  have hle := h.column_le
  unfold wrap
  split
  · exact hwidth
  · omega

end Terminal
