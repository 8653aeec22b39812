import Mathlib.Data.List.Basic

/-! A text with a caret in it, as two stacks: what is before the caret, nearest first, and what
is after it. Editing only touches the tops. A value with an index is the same text when the
index is in range, and edits it in the same way. -/

structure SplitBuffer (α : Type) where
  left : List α
  right : List α
deriving DecidableEq

namespace SplitBuffer

variable {α : Type} {b : SplitBuffer α} {value : List α} {cursor n limit : Nat} {a : α}

def empty : SplitBuffer α := ⟨[], []⟩

def text (b : SplitBuffer α) : List α := b.left.reverse ++ b.right

def length (b : SplitBuffer α) : Nat := b.left.length + b.right.length

def insert (limit : Nat) (a : α) (b : SplitBuffer α) : SplitBuffer α :=
  if b.length < limit then ⟨a :: b.left, b.right⟩ else b

def backspace : SplitBuffer α → SplitBuffer α
  | ⟨_ :: left, right⟩ => ⟨left, right⟩
  | ⟨[], right⟩ => ⟨[], right⟩

def delete : SplitBuffer α → SplitBuffer α
  | ⟨left, _ :: right⟩ => ⟨left, right⟩
  | ⟨left, []⟩ => ⟨left, []⟩

def back : SplitBuffer α → SplitBuffer α
  | ⟨a :: left, right⟩ => ⟨left, a :: right⟩
  | ⟨[], right⟩ => ⟨[], right⟩

def forward : SplitBuffer α → SplitBuffer α
  | ⟨left, a :: right⟩ => ⟨a :: left, right⟩
  | ⟨left, []⟩ => ⟨left, []⟩

def split (value : List α) (n : Nat) : SplitBuffer α := ⟨(value.take n).reverse, value.drop n⟩

def place (n : Nat) (b : SplitBuffer α) : SplitBuffer α := split b.text n

def home (b : SplitBuffer α) : SplitBuffer α := ⟨[], b.text⟩

def toEnd (b : SplitBuffer α) : SplitBuffer α := ⟨b.text.reverse, []⟩

/-! ## A value with an index -/

@[simp] theorem split_nil : split ([] : List α) n = empty := by
  unfold split empty
  rw [List.take_nil, List.drop_nil]
  rfl

@[simp] theorem text_split : (split value n).text = value := by
  unfold text split
  rw [List.reverse_reverse, List.take_append_drop]

theorem length_split : (split value n).length = value.length := by
  unfold length split
  rw [List.length_reverse, List.length_take, List.length_drop]
  omega

theorem left_length_split (h : n ≤ value.length) : (split value n).left.length = n := by
  unfold split
  rw [List.length_reverse, List.length_take, Nat.min_eq_left h]

theorem split_lt (h : n < value.length) : split value n = ⟨(value.take n).reverse, value[n] :: value.drop (n + 1)⟩ := by
  unfold split
  rw [List.drop_eq_getElem_cons h]

theorem split_succ (h : n < value.length) :
    split value (n + 1) = ⟨value[n] :: (value.take n).reverse, value.drop (n + 1)⟩ := by
  unfold split
  rw [List.take_succ_eq_append_getElem h, List.reverse_append]
  rfl

theorem split_insert (h : cursor ≤ value.length) (hroom : value.length < limit) :
    split (value.take cursor ++ a :: value.drop cursor) (cursor + 1) = insert limit a (split value cursor) := by
  have hlength : (value.take cursor).length = cursor := by
    rw [List.length_take, Nat.min_eq_left h]
  unfold insert
  rw [length_split, if_pos hroom]
  unfold split
  rw [List.append_cons, List.take_left' (by rw [List.length_append, hlength, List.length_singleton]),
    List.drop_left' (by rw [List.length_append, hlength, List.length_singleton]), List.reverse_append]
  rfl

theorem insert_full (h : limit ≤ value.length) : insert limit a (split value cursor) = split value cursor := by
  unfold insert
  rw [length_split, if_neg (Nat.not_lt.mpr h)]

theorem split_eraseIdx (h : n < value.length) :
    split (value.eraseIdx n) n = ⟨(value.take n).reverse, value.drop (n + 1)⟩ := by
  have hlength : (value.take n).length = n := by
    rw [List.length_take, Nat.min_eq_left (Nat.le_of_lt h)]
  unfold split
  rw [List.eraseIdx_eq_take_drop_succ, List.take_left' hlength, List.drop_left' hlength]

theorem split_delete (h : cursor < value.length) :
    split (value.eraseIdx cursor) cursor = delete (split value cursor) := by
  rw [split_eraseIdx h, split_lt h]
  rfl

theorem split_backspace (hpos : 0 < cursor) (h : cursor ≤ value.length) :
    split (value.eraseIdx (cursor - 1)) (cursor - 1) = backspace (split value cursor) := by
  obtain ⟨n, rfl⟩ := Nat.exists_eq_add_one_of_ne_zero (Nat.ne_of_gt hpos)
  rw [Nat.add_sub_cancel, split_eraseIdx h, split_succ h]
  rfl

theorem backspace_start : backspace (split value 0) = split value 0 := rfl

theorem delete_end (h : value.length ≤ cursor) : delete (split value cursor) = split value cursor := by
  unfold split
  rw [List.drop_eq_nil_of_le h]
  rfl

theorem split_back (h : cursor ≤ value.length) : split value (cursor - 1) = back (split value cursor) := by
  cases cursor with
  | zero => rfl
  | succ n =>
    rw [Nat.add_sub_cancel, split_lt h, split_succ h]
    rfl

theorem split_forward (h : cursor ≤ value.length) :
    split value (min (cursor + 1) value.length) = forward (split value cursor) := by
  rcases Nat.lt_or_eq_of_le h with hlt | rfl
  · rw [Nat.min_eq_left hlt, split_lt hlt, split_succ hlt]
    rfl
  · rw [Nat.min_eq_right (Nat.le_succ _)]
    unfold split
    rw [List.drop_length]
    rfl

theorem split_home : split value 0 = home (split value cursor) := by
  unfold home
  rw [text_split]
  rfl

theorem split_toEnd : split value value.length = toEnd (split value cursor) := by
  unfold toEnd
  rw [text_split]
  unfold split
  rw [List.take_length, List.drop_length]

theorem split_place : split value n = place n (split value cursor) := by
  unfold place
  rw [text_split]

end SplitBuffer
