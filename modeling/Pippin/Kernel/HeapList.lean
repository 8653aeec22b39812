import Pippin.Lib.Spans
import Pippin.Kernel.HeapFit

/-! The free list as a segment of linked blocks in memory. The lemmas say which
words a segment reads, how one block leaves it, and where the first-fit scan stops. -/

namespace Pippin.Heap

/-- The blocks linked from `head` up to the link `tail`, in list order. -/
def FreeSeg (m : Memory) : UInt64 → List Span → UInt64 → Prop
  | head, [], tail => head = tail
  | head, b :: bs, tail => head.toNat = b.start ∧ (blockSize m head).toNat = b.size ∧
      FreeSeg m (blockNext m head) bs tail

variable {m m' : Memory} {s : State} {as bs : List Span}

theorem freeSeg_append {head tail : UInt64} :
    FreeSeg m head (as ++ bs) tail ↔ ∃ mid, FreeSeg m head as mid ∧ FreeSeg m mid bs tail := by
  induction as generalizing head with
  | nil => simp only [List.nil_append, FreeSeg, exists_eq_left']
  | cons a as ih =>
    simp only [List.cons_append, FreeSeg, ih]
    constructor
    · rintro ⟨h1, h2, mid, h3, h4⟩
      exact ⟨mid, ⟨h1, h2, h3⟩, h4⟩
    · rintro ⟨mid, ⟨h1, h2, h3⟩, h4⟩
      exact ⟨h1, h2, mid, h3, h4⟩

theorem FreeSeg.congr {head tail : UInt64} (h : FreeSeg m head bs tail)
    (hm : ∀ b ∈ bs, ∀ i < 16, m (b.start + i) = m' (b.start + i)) : FreeSeg m' head bs tail := by
  induction bs generalizing head with
  | nil => exact h
  | cons b bs ih =>
    obtain ⟨h1, h2, h3⟩ := h
    have hb := hm b List.mem_cons_self
    have hsize : blockSize m head = blockSize m' head := by
      apply Memory.read64_congr
      intro i hi
      simpa only [h1] using hb i (by omega)
    have hnext : blockNext m head = blockNext m' head := by
      apply Memory.read64_congr
      intro i hi
      simpa only [h1, Nat.add_assoc] using hb (8 + i) (by omega)
    rw [hnext] at h3
    exact ⟨h1, hsize ▸ h2, ih h3 fun c hc => hm c (List.mem_cons_of_mem _ hc)⟩

/-- The predecessor the scan carries along: null before the first block. -/
def PrevOf (as : List Span) (prev : UInt64) : Prop :=
  (as = [] ∧ prev = 0) ∨ ∃ as' b, as = as' ++ [b] ∧ prev.toNat = b.start ∧ prev ≠ 0

theorem FreeSeg.relink {head mid prev next : UInt64} {b : Span}
    (h : FreeSeg m head (as ++ [b]) mid) (hprev : prev.toNat = b.start)
    (hd : ∀ c ∈ as, c.Disjoint b) (hsz : ∀ c ∈ as ++ [b], 16 ≤ c.size) :
    FreeSeg (m.write64 (prev.toNat + 8) next) head (as ++ [b]) next := by
  obtain ⟨last, h1, h2, h3, -⟩ := freeSeg_append.mp h
  have hb := hsz b (by simp)
  rw [freeSeg_append]
  refine ⟨last, h1.congr fun c hc i hi => ?_, h2, ?_, ?_⟩
  · have hdc := hd c hc
    have hc16 := hsz c (by simp [hc])
    simp only [Span.Disjoint, Span.stop] at hdc
    exact (Memory.write64_outside (by omega)).symm
  · rw [blockSize, Memory.read64_write64_disjoint (by omega)]
    exact h3
  · have hlast : last.toNat + 8 = prev.toNat + 8 := by rw [h2, hprev]
    rw [blockNext, hlast, Memory.read64_write64_self]
    rfl

/-- Either no block fits and nothing changes, or the scan stops at the first block
that does, with its predecessor at hand. -/
theorem allocLoop_cases (want al head : UInt64) (rest : List Span) :
    ∀ (fuel : Nat) (pre : List Span) (prev cur : UInt64), rest.length < fuel →
      FreeSeg s.mem head pre cur → PrevOf pre prev → FreeSeg s.mem cur rest 0 →
      (∀ b ∈ rest, 0 < b.start) →
      allocLoop want al fuel s prev cur = some (0, s) ∨
      ∃ pre' b post prev' cur', pre ++ rest = pre' ++ b :: post ∧
        FreeSeg s.mem head pre' cur' ∧ PrevOf pre' prev' ∧ FreeSeg s.mem cur' (b :: post) 0 ∧
        alignUp (payload cur' + wordBytes) al + want - cur' ≤ blockSize s.mem cur' ∧
        allocLoop want al fuel s prev cur = some (alignUp (payload cur' + wordBytes) al,
          carve s prev' cur' (alignUp (payload cur' + wordBytes) al) want
            (alignUp (payload cur' + wordBytes) al + want - cur') (blockSize s.mem cur')) := by
  -- on the blocks not yet visited; `pre` are those the loop has passed
  induction rest with
  | nil =>
    intro fuel pre prev cur hf _ _ hrest _
    obtain ⟨fuel, rfl⟩ := Nat.exists_eq_add_one_of_ne_zero (Nat.ne_zero_of_lt hf)
    left
    have hcur : cur = 0 := hrest
    simp only [allocLoop, hcur, if_true]
  | cons b rest ih =>
    intro fuel pre prev cur hf hpre hprev hrest hpos
    obtain ⟨fuel, rfl⟩ := Nat.exists_eq_add_one_of_ne_zero (Nat.ne_zero_of_lt hf)
    obtain ⟨h1, h2, h3⟩ := hrest
    have hb := hpos b List.mem_cons_self
    have hcur : cur ≠ 0 := by
      rintro rfl
      rw [← h1] at hb
      exact absurd hb (by decide)
    by_cases hfit : alignUp (payload cur + wordBytes) al + want - cur ≤ blockSize s.mem cur
    · right
      refine ⟨pre, b, rest, prev, cur, rfl, hpre, hprev, ⟨h1, h2, h3⟩, hfit, ?_⟩
      simp only [allocLoop, if_neg hcur, if_pos hfit]
    · have hstep : allocLoop want al (fuel + 1) s prev cur =
          allocLoop want al fuel s cur (blockNext s.mem cur) := by
        simp only [allocLoop, if_neg hcur, if_neg hfit]
      have hpre' : FreeSeg s.mem head (pre ++ [b]) (blockNext s.mem cur) :=
        freeSeg_append.mpr ⟨cur, hpre, h1, h2, rfl⟩
      rw [hstep]
      rcases ih fuel (pre ++ [b]) cur (blockNext s.mem cur) (by simpa using hf) hpre'
        (Or.inr ⟨pre, b, rfl, h1, hcur⟩) h3 fun c hc => hpos c (List.mem_cons_of_mem _ hc)
        with hnone | ⟨pre', c, post, prev', cur', he, hrem⟩
      · exact Or.inl hnone
      · right
        exact ⟨pre', c, post, prev', cur', by rw [← he]; simp, hrem⟩

end Pippin.Heap
