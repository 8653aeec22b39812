import Mathlib.Data.List.Perm.Basic
import Mathlib.Data.List.Pairwise
import Mathlib.Algebra.Order.BigOperators.Group.List
import Mathlib.Algebra.Order.Ring.Nat

/-! Half-open spans of addresses and exact tilings of a region by a list of them. -/

@[ext] structure Span where
  start : Nat
  size : Nat
deriving DecidableEq, Repr

namespace Span

def stop (b : Span) : Nat := b.start + b.size

def Disjoint (a b : Span) : Prop := a.stop ≤ b.start ∨ b.stop ≤ a.start

def Holds (b : Span) (x : Nat) : Prop := b.start ≤ x ∧ x < b.stop

theorem Disjoint.symm {a b : Span} (h : a.Disjoint b) : b.Disjoint a := Or.symm h

/-- The spans of `bs` lie in `[lo, hi)`, do not overlap and leave no gap. The sizes
add up to the length of the region, which bounds how many spans there are. -/
structure Tiles (lo hi : Nat) (bs : List Span) : Prop where
  within : ∀ b ∈ bs, lo ≤ b.start ∧ b.stop ≤ hi
  disjoint : bs.Pairwise Disjoint
  covers : ∀ x, lo ≤ x → x < hi → ∃ b ∈ bs, b.Holds x
  total : (bs.map size).sum = hi - lo

variable {lo hi : Nat} {bs cs : List Span}

theorem Tiles.perm (h : Tiles lo hi bs) (hp : bs.Perm cs) : Tiles lo hi cs where
  within b hb := h.within b (hp.mem_iff.mpr hb)
  disjoint := (hp.pairwise_iff Disjoint.symm).mp h.disjoint
  covers x hlo hhi := by
    obtain ⟨b, hb, hx⟩ := h.covers x hlo hhi
    exact ⟨b, hp.mem_iff.mp hb, hx⟩
  total := by rw [← h.total, (hp.map size).sum_eq]

theorem Tiles.split {c u r : Nat} (h : Tiles lo hi (⟨c, u + r⟩ :: bs)) :
    Tiles lo hi (⟨c, u⟩ :: ⟨c + u, r⟩ :: bs) := by
  obtain ⟨hw, hd, hc, ht⟩ := h
  rw [List.pairwise_cons] at hd
  have hcut := hw ⟨c, u + r⟩ List.mem_cons_self
  simp only [stop] at hcut
  refine ⟨?_, ?_, ?_, ?_⟩
  · intro b hb
    simp only [List.mem_cons] at hb
    rcases hb with rfl | rfl | hb
    · simp only [stop]; omega
    · simp only [stop]; omega
    · exact hw b (List.mem_cons_of_mem _ hb)
  · refine List.pairwise_cons.mpr ⟨?_, List.pairwise_cons.mpr ⟨?_, hd.2⟩⟩
    · intro b hb
      rcases List.mem_cons.mp hb with rfl | hb
      · exact Or.inl (Nat.le_refl (c + u))
      · have := hd.1 b hb
        simp only [Disjoint, stop] at this ⊢
        omega
    · intro b hb
      have := hd.1 b hb
      simp only [Disjoint, stop] at this ⊢
      omega
  · intro x hlo hhi
    obtain ⟨b, hb, hx⟩ := hc x hlo hhi
    rcases List.mem_cons.mp hb with rfl | hb
    · simp only [Holds, stop] at hx
      by_cases hu : x < c + u
      · exact ⟨⟨c, u⟩, by simp, hx.1, hu⟩
      · exact ⟨⟨c + u, r⟩, by simp, by simpa using hu, by simpa only [stop, Nat.add_assoc] using hx.2⟩
    · exact ⟨b, by simp [hb], hx⟩
  · simpa only [List.map_cons, List.sum_cons, Nat.add_assoc] using ht

theorem Tiles.eq_whole {b : Span} (h : Tiles lo hi [b]) : b = ⟨lo, hi - lo⟩ := by
  have hw := h.within b List.mem_cons_self
  have ht := h.total
  simp only [stop] at hw
  simp only [List.map_cons, List.map_nil, List.sum_singleton] at ht
  apply Span.ext
  · show b.start = lo
    omega
  · exact ht

theorem Tiles.eq_singleton {b : Span} (h : Tiles lo hi bs) (hpos : ∀ c ∈ bs, 0 < c.size) (hb : b ∈ bs)
    (hfull : hi - lo ≤ b.size) : bs = [b] := by
  have htotal := h.total
  obtain ⟨pre, post, rfl⟩ := List.append_of_mem hb
  have hnone : ∀ c, c ∉ pre ++ post := by
    intro c hc
    have hc' : c ∈ pre ++ b :: post := by
      rcases List.mem_append.mp hc with hc | hc
      · exact List.mem_append_left _ hc
      · exact List.mem_append_right _ (List.mem_cons_of_mem _ hc)
    have hle : c.size ≤ ((pre ++ post).map size).sum := List.le_sum_of_mem (List.mem_map_of_mem hc)
    have := hpos c hc'
    simp only [List.map_append, List.map_cons, List.sum_append, List.sum_cons] at hle htotal
    omega
  obtain ⟨rfl, rfl⟩ := List.append_eq_nil_iff.mp (List.eq_nil_iff_forall_not_mem.mpr hnone)
  rfl

theorem Tiles.length_mul_le {k : Nat} (h : Tiles lo hi bs) (hk : ∀ b ∈ bs, k ≤ b.size) :
    bs.length * k ≤ hi - lo := by
  rw [← h.total]
  clear h
  induction bs with
  | nil => simp
  | cons b bs ih =>
    have hb := hk b List.mem_cons_self
    have := ih fun c hc => hk c (List.mem_cons_of_mem _ hc)
    simp only [List.length_cons, List.map_cons, List.sum_cons, Nat.add_mul]
    omega

end Span
