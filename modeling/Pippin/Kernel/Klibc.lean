import Pippin.Lib.Bytes

/-! The C glue: `memcpy` and `memmove`, byte by byte over pointers that wrap. One direction is
right for each way two regions can overlap: the byte that is stored is never one that is still
to be read. -/

namespace Pippin.Klibc

def copyUp : Nat → Memory → UInt64 → UInt64 → Memory
  | 0, m, _, _ => m
  | n + 1, m, d, s => copyUp n (m.write d.toNat [m s.toNat]) (d + 1) (s + 1)

def copyDown : Nat → Memory → UInt64 → UInt64 → Memory
  | 0, m, _, _ => m
  | n + 1, m, d, s => copyDown n (m.write (d - 1).toNat [m (s - 1).toNat]) (d - 1) (s - 1)

def memcpy (m : Memory) (dst src n : UInt64) : Memory × UInt64 := (copyUp n.toNat m dst src, dst)

def memmove (m : Memory) (dst src n : UInt64) : Memory × UInt64 :=
  if dst < src then (copyUp n.toNat m dst src, dst)
  else if src < dst then (copyDown n.toNat m (dst + n) (src + n), dst)
  else (m, dst)

variable {m : Memory} {d s : UInt64} {n k : Nat}

/-! ## The loops -/

theorem toNat_succ (h : d.toNat + 1 < 2 ^ 64) : (d + 1).toNat = d.toNat + 1 := by
  rw [UInt64.toNat_add]
  exact Nat.mod_eq_of_lt h

theorem toNat_offset (h : d.toNat + k < 2 ^ 64) : (d + UInt64.ofNat k).toNat = d.toNat + k := by
  have hk : k < UInt64.size := by
    show k < 2 ^ 64
    omega
  rw [UInt64.toNat_add, UInt64.toNat_ofNat_of_lt' hk]
  exact Nat.mod_eq_of_lt h

theorem offset_pred (d : UInt64) (k : Nat) : d + UInt64.ofNat (k + 1) - 1 = d + UInt64.ofNat k := by
  have hsucc : UInt64.ofNat (k + 1) = UInt64.ofNat k + 1 := UInt64.ofNat_add k 1
  rw [hsucc, ← UInt64.add_assoc, UInt64.add_sub_cancel]

theorem copyUp_eq (n : Nat) : ∀ (m : Memory) (d s : UInt64), d.toNat + n ≤ 2 ^ 64 → s.toNat + n ≤ 2 ^ 64 →
    d ≤ s ∨ s.toNat + n ≤ d.toNat → copyUp n m d s = m.write d.toNat (m.read s.toNat n) := by
  induction n with
  | zero =>
    intro m d s _ _ _
    exact Memory.write_nil.symm
  | succ n ih =>
    intro m d s hd hs hside
    unfold copyUp
    have hread : m.read s.toNat (n + 1) = [m s.toNat] ++ m.read (s.toNat + 1) n := by
      rw [Nat.add_comm n 1, Memory.read_add]
      rfl
    rw [hread, ← Memory.write_append]
    rcases Nat.eq_zero_or_pos n with rfl | hn
    · unfold copyUp
      exact Memory.write_nil.symm
    · have hd1 := toNat_succ (d := d) (by omega)
      have hs1 := toNat_succ (d := s) (by omega)
      rw [ih _ _ _ (by omega) (by omega) ?_, hd1, hs1, List.length_singleton]
      · congr 1
        refine Memory.read_congr fun i hi => Memory.write_outside ?_
        rw [UInt64.le_iff_toNat_le] at hside
        rw [List.length_singleton]
        omega
      · rw [UInt64.le_iff_toNat_le] at hside ⊢
        omega

theorem copyDown_eq (n : Nat) : ∀ m : Memory, d.toNat + n ≤ 2 ^ 64 → s ≤ d →
    copyDown n m (d + UInt64.ofNat n) (s + UInt64.ofNat n) = m.write d.toNat (m.read s.toNat n) := by
  induction n with
  | zero =>
    intro m _ _
    exact Memory.write_nil.symm
  | succ n ih =>
    intro m hd hle
    have hle' := UInt64.le_iff_toNat_le.mp hle
    unfold copyDown
    rw [offset_pred, offset_pred, ih _ (by omega) hle, toNat_offset (by omega), toNat_offset (by omega)]
    have hread : m.read s.toNat (n + 1) = m.read s.toNat n ++ [m (s.toNat + n)] := Memory.read_add _ _ 1
    have hkept : (m.write (d.toNat + n) [m (s.toNat + n)]).read s.toNat n = m.read s.toNat n := by
      refine Memory.read_congr fun i hi => Memory.write_outside ?_
      omega
    have hlength : (m.read s.toNat n).length = n := Memory.length_read
    rw [hkept, hread, ← Memory.write_append, hlength]
    exact Memory.write_comm (by rw [hlength]; omega)

theorem memmove_eq {m : Memory} {dst src n : UInt64} (hdst : dst.toNat + n.toNat ≤ 2 ^ 64)
    (hsrc : src.toNat + n.toNat ≤ 2 ^ 64) :
    memmove m dst src n = (m.write dst.toNat (m.read src.toNat n.toNat), dst) := by
  unfold memmove
  split_ifs with hup hdown
  · have hside : dst ≤ src := UInt64.le_of_lt hup
    rw [copyUp_eq n.toNat m dst src hdst hsrc (Or.inl hside)]
  · have hdown := copyDown_eq n.toNat m hdst (UInt64.le_of_lt hdown)
    rw [UInt64.ofNat_toNat] at hdown
    rw [hdown]
  · -- the same region: it already has its bytes
    obtain rfl : dst = src := by
      rw [UInt64.lt_iff_toNat_lt] at hup hdown
      exact UInt64.toNat_inj.mp (by omega)
    refine Prod.ext (Memory.write_same fun i hi => ?_).symm rfl
    simp [Memory.read]

theorem memcpy_eq {m : Memory} {dst src n : UInt64} (hdst : dst.toNat + n.toNat ≤ 2 ^ 64)
    (hsrc : src.toNat + n.toNat ≤ 2 ^ 64)
    (hdisjoint : dst.toNat + n.toNat ≤ src.toNat ∨ src.toNat + n.toNat ≤ dst.toNat) :
    memcpy m dst src n = (m.write dst.toNat (m.read src.toNat n.toNat), dst) := by
  unfold memcpy
  rw [copyUp_eq n.toNat m dst src hdst hsrc]
  rw [UInt64.le_iff_toNat_le]
  omega

/-- Every byte of the destination is the one the source had, nothing else changes; on disjoint regions
`memcpy` does the same. -/
theorem memmove_copies {m : Memory} {dst src n : UInt64} (hdst : dst.toNat + n.toNat ≤ 2 ^ 64)
    (hsrc : src.toNat + n.toNat ≤ 2 ^ 64) :
    (∀ i < n.toNat, (memmove m dst src n).1 (dst.toNat + i) = m (src.toNat + i)) ∧
    (∀ a, a < dst.toNat ∨ dst.toNat + n.toNat ≤ a → (memmove m dst src n).1 a = m a) ∧
    (memmove m dst src n).2 = dst ∧
    (dst.toNat + n.toNat ≤ src.toNat ∨ src.toNat + n.toNat ≤ dst.toNat →
      memcpy m dst src n = memmove m dst src n) := by
  rw [memmove_eq hdst hsrc]
  have hlength : (m.read src.toNat n.toNat).length = n.toNat := Memory.length_read
  refine ⟨fun i hi => ?_, fun a ha => ?_, rfl, memcpy_eq hdst hsrc⟩
  · refine (Memory.write_inside (by rwa [hlength])).trans ?_
    simp [Memory.read]
  · exact Memory.write_outside (by rwa [hlength])

theorem memmove_copies_overlap :
    (∀ i < 5, (memmove (fun a => UInt8.ofNat a) 102 100 5).1 (102 + i) = UInt8.ofNat (100 + i)) ∧
    ∀ a, a < 102 ∨ 107 ≤ a → (memmove (fun a => UInt8.ofNat a) 102 100 5).1 a = UInt8.ofNat a := by
  obtain ⟨hin, hout, -, -⟩ := @memmove_copies (fun a => UInt8.ofNat a) 102 100 5 (by decide) (by decide)
  exact ⟨hin, hout⟩

end Pippin.Klibc
