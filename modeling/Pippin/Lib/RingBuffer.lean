import Mathlib.Algebra.Order.Ring.Int
import Mathlib.Data.List.Basic
import Mathlib.Logic.Function.Basic

/-! Fixed-capacity ring buffers: an array, the index of the oldest element and a
length. `toList` reads the pending elements oldest first; `push` and `pop` act on
it as on a bounded queue. -/

structure RingBuffer (α : Type) where
  buf : Nat → α
  head : Nat
  len : Nat

namespace RingBuffer

variable {α : Type} {n : Nat} {r : RingBuffer α} {x : α}

def push (n : Nat) (r : RingBuffer α) (x : α) : RingBuffer α :=
  if r.len < n then
    { r with buf := Function.update r.buf ((r.head + r.len) % n) x, len := r.len + 1 }
  else r

def pop (n : Nat) (r : RingBuffer α) : Option (α × RingBuffer α) :=
  if r.len = 0 then none
  else some (r.buf r.head, { r with head := (r.head + 1) % n, len := r.len - 1 })

def toList (n : Nat) (r : RingBuffer α) : List α := (List.range r.len).map fun i => r.buf ((r.head + i) % n)

structure Ok (n : Nat) (r : RingBuffer α) : Prop where
  head_lt : r.head < n
  len_le : r.len ≤ n

@[simp] theorem length_toList : (r.toList n).length = r.len := by simp [toList]

theorem index_ne {h i j : Nat} (hi : i < j) (hj : j < n) : (h + i) % n ≠ (h + j) % n := by
  intro he
  have hd : n ∣ (h + j) - (h + i) := Nat.dvd_of_mod_eq_zero (Nat.sub_mod_eq_zero_of_mod_eq he.symm)
  have hle := Nat.le_of_dvd (by omega) hd
  omega

theorem toList_push (h : r.len < n) : (r.push n x).toList n = r.toList n ++ [x] := by
  rw [push, if_pos h, toList, toList, List.range_succ, List.map_append, List.map_singleton]
  congr 1
  · apply List.map_congr_left
    intro i hi
    exact Function.update_of_ne (index_ne (List.mem_range.mp hi) h) _ _
  · show [Function.update r.buf ((r.head + r.len) % n) x ((r.head + r.len) % n)] = [x]
    rw [Function.update_self]

theorem Ok.push (hr : r.Ok n) (x : α) : (r.push n x).Ok n := by
  unfold RingBuffer.push
  split_ifs with h
  · exact ⟨hr.head_lt, h⟩
  · exact hr

theorem Ok.pop {r' : RingBuffer α} (hr : r.Ok n) (h : r.pop n = some (x, r')) : r'.Ok n := by
  unfold RingBuffer.pop at h
  split_ifs at h with h0
  rw [Option.some.injEq, Prod.mk.injEq] at h
  obtain ⟨-, rfl⟩ := h
  have hlen := hr.len_le
  exact ⟨Nat.mod_lt _ (Nat.zero_lt_of_lt hr.head_lt), Nat.le_trans (Nat.sub_le _ _) hlen⟩

theorem toList_pop (hr : r.Ok n) {xs : List α} (h : r.toList n = x :: xs) :
    ∃ r', r.pop n = some (x, r') ∧ r'.toList n = xs := by
  have hlen : r.len = xs.length + 1 := by
    rw [← length_toList (r := r) (n := n), h, List.length_cons]
  have hmap : r.toList n = r.buf (r.head % n) ::
      (List.range xs.length).map fun i => r.buf ((r.head + (i + 1)) % n) := by
    rw [toList, hlen, List.range_succ_eq_map, List.map_cons, List.map_map]
    rfl
  rw [hmap, Nat.mod_eq_of_lt hr.head_lt, List.cons.injEq] at h
  refine ⟨{ r with head := (r.head + 1) % n, len := r.len - 1 }, ?_, ?_⟩
  · rw [pop, if_neg (by omega), h.1]
  · rw [← h.2, toList, hlen]
    apply List.map_congr_left
    intro i _
    rw [Nat.mod_add_mod, Nat.add_assoc, Nat.add_comm 1 i]

theorem pop_eq_none : r.pop n = none ↔ r.len = 0 := by
  unfold pop
  split_ifs with h <;> simp [h]

end RingBuffer
