import Mathlib.Data.List.Basic
import Mathlib.Tactic.Ring

/-! Byte-addressed memory with little-endian words. Every store of a program is
one `write` of a list of bytes, so a single frame rule covers words, cleared
pages and copied slices. -/

namespace Bytes

/-- The little-endian digits of `v`, one byte each. -/
def toLE : Nat → Nat → List UInt8
  | 0, _ => []
  | n + 1, v => UInt8.ofNat (v % 256) :: toLE n (v / 256)

def ofLE : List UInt8 → Nat
  | [] => 0
  | b :: bs => b.toNat + 256 * ofLE bs

@[simp] theorem length_toLE (n v : Nat) : (toLE n v).length = n := by
  induction n generalizing v with
  | zero => rfl
  | succ n ih => simp only [toLE, List.length_cons, ih]

theorem ofLE_toLE (n v : Nat) : ofLE (toLE n v) = v % 256 ^ n := by
  induction n generalizing v with
  | zero => simp only [toLE, ofLE, pow_zero, Nat.mod_one]
  | succ n ih =>
    have hb : (UInt8.ofNat (v % 256)).toNat = v % 256 := by
      simp only [UInt8.toNat_ofNat']
      omega
    rw [toLE, ofLE, ih, hb, pow_succ, Nat.mul_comm (256 ^ n) 256, Nat.mod_mul]

theorem ofLE_replicate_zero (n : Nat) : ofLE (List.replicate n 0) = 0 := by
  induction n with
  | zero => rfl
  | succ n ih => simp only [List.replicate_succ, ofLE, ih, UInt8.toNat_zero, Nat.mul_zero]

theorem toLE_of_lt {n v : Nat} (k : Nat) (h : v < 256 ^ n) : toLE (n + k) v = toLE n v ++ List.replicate k 0 := by
  induction n generalizing v with
  | zero =>
    obtain rfl : v = 0 := Nat.lt_one_iff.mp h
    induction k with
    | zero => rfl
    | succ k ih => exact congrArg (List.cons 0) ih
  | succ n ih =>
    have hd : v / 256 < 256 ^ n := by
      rw [pow_succ] at h
      omega
    rw [Nat.succ_add, toLE, toLE, ih hd, List.cons_append]

end Bytes

abbrev Memory := Nat → UInt8

namespace Memory

def read (m : Memory) (a n : Nat) : List UInt8 := (List.range n).map fun i => m (a + i)

def write (m : Memory) (a : Nat) (bs : List UInt8) : Memory := fun x =>
  if x < a then m x else (bs[x - a]?).getD (m x)

variable {m : Memory} {a b n : Nat} {bs : List UInt8}

theorem write_outside {x : Nat} (h : x < a ∨ a + bs.length ≤ x) : m.write a bs x = m x := by
  unfold write
  split_ifs with hx
  · rfl
  · have hn : bs[x - a]? = none := List.getElem?_eq_none (by omega)
    rw [hn, Option.getD_none]

theorem write_inside {i : Nat} (h : i < bs.length) : m.write a bs (a + i) = bs[i] := by
  have hx : ¬ a + i < a := by omega
  simp only [write, if_neg hx, Nat.add_sub_cancel_left, List.getElem?_eq_getElem h,
    Option.getD_some]

@[simp] theorem write_nil : m.write a [] = m := by
  funext x
  exact write_outside (by simp only [List.length_nil]; omega)

theorem write_same (h : ∀ i (hi : i < bs.length), m (a + i) = bs[i]) : m.write a bs = m := by
  funext x
  by_cases hx : x < a ∨ a + bs.length ≤ x
  · exact write_outside hx
  · obtain ⟨i, rfl⟩ : ∃ i, x = a + i := ⟨x - a, by omega⟩
    rw [write_inside (by omega), h i (by omega)]

theorem write_append (bs cs : List UInt8) : (m.write a bs).write (a + bs.length) cs = m.write a (bs ++ cs) := by
  funext x
  by_cases hx : x < a + bs.length
  · rw [write_outside (Or.inl hx)]
    unfold write
    split_ifs with ha
    · rfl
    · rw [List.getElem?_append_left (by omega)]
  · unfold write
    rw [if_neg hx, if_neg (by omega), if_neg (by omega), List.getElem?_eq_none (by omega : bs.length ≤ x - a),
      List.getElem?_append_right (by omega), Nat.sub_add_eq]
    rfl

theorem write_comm {cs : List UInt8} (h : a + bs.length ≤ b ∨ b + cs.length ≤ a) :
    (m.write a bs).write b cs = (m.write b cs).write a bs := by
  funext x
  by_cases hb : x < b ∨ b + cs.length ≤ x
  · have hsame : m.write b cs x = m x := write_outside hb
    rw [write_outside hb]
    unfold write at hsame ⊢
    rw [hsame]
  · have ha : x < a ∨ a + bs.length ≤ x := by omega
    have hsame : m.write a bs x = m x := write_outside ha
    rw [write_outside ha]
    unfold write at hsame ⊢
    rw [hsame]

theorem write_congr {m' : Memory} {b off k : Nat} (h : m (a + k) = m' (b + k)) :
    m.write (a + off) bs (a + k) = m'.write (b + off) bs (b + k) := by
  unfold write
  rw [h, Nat.add_sub_add_left, Nat.add_sub_add_left]
  by_cases hk : k < off
  · rw [if_pos (by omega), if_pos (by omega)]
  · rw [if_neg (by omega), if_neg (by omega)]

@[simp] theorem length_read : (m.read a n).length = n := by simp [read]

theorem read_congr {m' : Memory} (h : ∀ i < n, m (a + i) = m' (a + i)) :
    m.read a n = m'.read a n := by
  apply List.map_congr_left
  intro i hi
  exact h i (List.mem_range.mp hi)

theorem read_add (a n k : Nat) : m.read a (n + k) = m.read a n ++ m.read (a + n) k := by
  unfold read
  rw [List.range_add, List.map_append, List.map_map]
  refine congrArg _ (List.map_congr_left fun i _ => ?_)
  exact congrArg m (Nat.add_assoc a n i).symm

theorem read_slice {k j : Nat} (h : k + j ≤ n) : m.read (a + k) j = ((m.read a n).drop k).take j := by
  apply List.ext_getElem
  · simp only [length_read, List.length_take, List.length_drop]
    omega
  · intro i h1 h2
    simp only [read, List.getElem_map, List.getElem_range, List.getElem_take, List.getElem_drop,
      Nat.add_assoc]

theorem read_write_self (bs : List UInt8) : (m.write a bs).read a bs.length = bs := by
  apply List.ext_getElem
  · exact length_read
  · intro i _ hi
    simp only [read, List.getElem_map, List.getElem_range]
    exact write_inside hi

theorem read_write_inside {i : Nat} (h : i + n ≤ bs.length) :
    (m.write a bs).read (a + i) n = (bs.drop i).take n := by
  apply List.ext_getElem
  · simp only [length_read, List.length_take, List.length_drop]
    omega
  · intro j hj _
    rw [length_read] at hj
    simp only [read, List.getElem_map, List.getElem_range, List.getElem_take, List.getElem_drop]
    rw [Nat.add_assoc]
    exact write_inside (by omega)

def readLE (m : Memory) (a n : Nat) : Nat := Bytes.ofLE (m.read a n)

/-! ## 64-bit words -/

def read64 (m : Memory) (a : Nat) : UInt64 := UInt64.ofNat (m.readLE a 8)

def write64 (m : Memory) (a : Nat) (v : UInt64) : Memory := m.write a (Bytes.toLE 8 v.toNat)

theorem read64_congr {m' : Memory} (h : ∀ i < 8, m (a + i) = m' (a + i)) :
    m.read64 a = m'.read64 a := by
  rw [read64, read64, readLE, readLE, read_congr h]

@[simp] theorem read64_write64_self (v : UInt64) : (m.write64 a v).read64 a = v := by
  have hr : (m.write a (Bytes.toLE 8 v.toNat)).read a 8 = Bytes.toLE 8 v.toNat := by
    have h := read_write_self (m := m) (a := a) (Bytes.toLE 8 v.toNat)
    rwa [Bytes.length_toLE] at h
  have hv : v.toNat % 256 ^ 8 = v.toNat := Nat.mod_eq_of_lt v.toNat_lt
  rw [read64, readLE, write64, hr, Bytes.ofLE_toLE, hv, UInt64.ofNat_toNat]

theorem write64_outside {x : Nat} {v : UInt64} (h : x < a ∨ a + 8 ≤ x) :
    m.write64 a v x = m x := write_outside (by rwa [Bytes.length_toLE])

theorem read64_write64_disjoint {v : UInt64} (h : b + 8 ≤ a ∨ a + 8 ≤ b) :
    (m.write64 a v).read64 b = m.read64 b := by
  apply read64_congr
  intro i hi
  exact write64_outside (by omega)

theorem read64_zeroed {k i : Nat} (h : i + 8 ≤ k) :
    (m.write a (List.replicate k 0)).read64 (a + i) = 0 := by
  have hr : (m.write a (List.replicate k 0)).read (a + i) 8 = List.replicate 8 0 := by
    rw [read_write_inside (by simpa using h), List.drop_replicate, List.take_replicate]
    congr 1
    omega
  rw [read64, readLE, hr, Bytes.ofLE_replicate_zero]
  rfl

theorem read64_zero (a : Nat) : Memory.read64 (fun _ => 0) a = 0 := by
  rw [read64, readLE, read, List.map_const', List.length_range, Bytes.ofLE_replicate_zero]
  rfl

theorem read64_of_zero (h : ∀ i < 8, m (a + i) = 0) : m.read64 a = 0 :=
  (@read64_congr m a (fun _ => 0) h).trans (read64_zero a)

end Memory
