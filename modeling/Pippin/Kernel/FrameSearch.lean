import Pippin.Kernel.FrameInvariant

/-! The search of `alloc_frames` misses no free run. From the hint it sees the rest of
the bitmap, wraps once, and has enough steps left to finish a run that straddles the hint. -/

namespace Pippin.Mem.Frames

/-- The loop of `alloc_frames` with the statics it reads and writes threaded through. -/
def search (s : Frames) (count : Nat) : Nat → Nat → Nat → Nat → Option UInt64 × Frames
  | 0, _, _, _ => (none, s)
  | n + 1, frame, run, start =>
    let (frame, run) := if maxFrames ≤ frame then (1, 0) else (frame, run)
    if s.bitIsUsed frame then search s count n (frame + 1) 0 start
    else
      let start := if run = 0 then frame else start
      let run := run + 1
      if run = count then
        let s := s.bitSetRange start (start + count) true
        (some (UInt64.ofNat (start * frameSize)),
          { s with free := usizeSub s.free count, hint := start + count })
      else search s count n (frame + 1) run start

def allocFramesState (s : Frames) (count : Nat) : Option UInt64 × Frames :=
  s.search count (usizeAdd maxFrames count) (max s.hint 1) 0 1

variable {s : Frames} {q count : Nat}

theorem bitSetRange_free (s : Frames) (first last : Nat) (used : Bool) :
    (s.bitSetRange first last used).free = s.free := by
  have h : ∀ (fs : List Nat) (s : Frames), (fs.foldl (fun s f => s.bitSet f used) s).free = s.free := by
    intro fs
    induction fs with
    | nil => exact fun _ => rfl
    | cons f fs ih => exact fun s => ih (s.bitSet f used)
  exact h _ s

theorem search_eq (s : Frames) (count : Nat) : ∀ n frame run start,
    s.search count n frame run start =
      match s.scan count n frame run start with
      | none => (none, s)
      | some p => (some (UInt64.ofNat (p * frameSize)),
          { s.bitSetRange p (p + count) true with free := usizeSub s.free count, hint := p + count }) := by
  intro n
  induction n with
  | zero => exact fun _ _ _ => rfl
  | succ n ih =>
    intro frame run start
    rw [search, scan]
    generalize (if maxFrames ≤ frame then (1, 0) else (frame, run)) = pos
    obtain ⟨frame, run⟩ := pos
    dsimp only
    by_cases hbit : s.bitIsUsed frame
    · rw [if_pos hbit, if_pos hbit, ih]
    · rw [if_neg hbit, if_neg hbit]
      generalize (if run = 0 then frame else start) = start
      by_cases hdone : run + 1 = count
      · rw [if_pos hdone, if_pos hdone, bitSetRange_free]
      · rw [if_neg hdone, if_neg hdone, ih]

theorem allocFramesState_eq (s : Frames) (count : Nat) :
    s.allocFramesState count =
      match s.allocFrames count with
      | none => (none, s)
      | some (phys, s') => (some phys, s') := by
  rw [allocFramesState, search_eq, allocFrames]
  cases s.scan count (usizeAdd maxFrames count) (max s.hint 1) 0 1 <;> rfl

def FreeRun (s : Frames) (q count : Nat) : Prop :=
  1 ≤ q ∧ q + count ≤ maxFrames ∧ ∀ f, q ≤ f → f < q + count → s.bitIsUsed f = false

theorem scan_wrap {n frame run start : Nat} (h : maxFrames ≤ frame) :
    s.scan count (n + 1) frame run start = s.scan count (n + 1) 1 0 start := by
  have h1 : ¬ maxFrames ≤ 1 := by decide
  rw [scan, scan, if_pos h, if_neg h1]

theorem scan_step {n frame run start : Nat} (h : frame < maxFrames) :
    s.scan count (n + 1) frame run start =
      if s.bitIsUsed frame then s.scan count n (frame + 1) 0 start
      else if run + 1 = count then some (if run = 0 then frame else start)
      else s.scan count n (frame + 1) (run + 1) (if run = 0 then frame else start) := by
  rw [scan, if_neg (Nat.not_le.mpr h)]

theorem scan_ahead (hq : s.FreeRun q count) : ∀ n frame run start, frame < q + count →
    frame ≤ q + run → run < count → q + count ≤ frame + n →
    ∃ p, s.scan count n frame run start = some p := by
  obtain ⟨-, hmax, hclear⟩ := hq
  intro n
  induction n with
  | zero =>
    intro frame run start h1 _ _ h4
    omega
  | succ n ih =>
    intro frame run start h1 h2 h3 h4
    rw [scan_step (by omega)]
    by_cases hbit : s.bitIsUsed frame
    · -- a used frame lies before the free run
      have hlt : frame < q := by
        by_contra hge
        rw [hclear frame (by omega) h1] at hbit
        exact Bool.false_ne_true hbit
      rw [if_pos hbit]
      exact ih _ _ _ (by omega) (by omega) (by omega) (by omega)
    · rw [if_neg hbit]
      by_cases hdone : run + 1 = count
      · exact ⟨_, if_pos hdone⟩
      · rw [if_neg hdone]
        exact ih _ _ _ (by omega) (by omega) (by omega) (by omega)

theorem scan_behind (hq : s.FreeRun q count) : ∀ n frame run start, q < frame → run < count →
    maxFrames + (q + count) ≤ min frame maxFrames + n + 1 →
    ∃ p, s.scan count n frame run start = some p := by
  have hmax := hq.2.1
  intro n
  induction n with
  | zero =>
    intro frame run start _ _ h3
    have := hq.1
    omega
  | succ n ih =>
    intro frame run start h1 h2 h3
    by_cases hw : maxFrames ≤ frame
    · rw [scan_wrap hw]
      exact scan_ahead hq _ _ _ _ (by have := hq.1; omega) (by have := hq.1; omega) (by omega) (by omega)
    · rw [scan_step (by omega)]
      by_cases hbit : s.bitIsUsed frame
      · rw [if_pos hbit]
        exact ih _ _ _ (by omega) (by omega) (by omega)
      · rw [if_neg hbit]
        by_cases hdone : run + 1 = count
        · exact ⟨_, if_pos hdone⟩
        · rw [if_neg hdone]
          exact ih _ _ _ (by omega) (by omega) (by omega)

theorem allocFrames_of_freeRun (hc : 1 ≤ count) (hq : s.FreeRun q count) :
    ∃ phys s', s.allocFrames count = some (phys, s') := by
  have h1 := hq.1
  have hmax := hq.2.1
  have hn : usizeAdd maxFrames count = maxFrames + count := by
    rw [usizeAdd]
    simp only [maxFrames, bootMappedEnd, frameSize] at hmax ⊢
    omega
  have hscan : ∃ p, s.scan count (maxFrames + count) (max s.hint 1) 0 1 = some p := by
    by_cases hh : max s.hint 1 ≤ q
    · exact scan_ahead hq _ _ _ _ (by omega) (by omega) (by omega) (by omega)
    · exact scan_behind hq _ _ _ _ (by omega) (by omega) (by omega)
  obtain ⟨p, hp⟩ := hscan
  rw [allocFrames, hn, hp]
  exact ⟨_, _, rfl⟩

/-- Contiguous allocation is complete: it succeeds iff the bitmap has a free run of the
length asked for, takes exactly such a run, and changes nothing when it fails. -/
theorem alloc_frames_complete (s : Frames) (count : Nat) (hc : 1 ≤ count) :
    ((s.allocFramesState count).1.isSome ↔ ∃ q, s.FreeRun q count) ∧
    (∀ phys s', s.allocFramesState count = (some phys, s') →
      ∃ p, phys.toNat = p * frameSize ∧ s.FreeRun p count ∧
        (∀ f, s'.bitIsUsed f = if p ≤ f ∧ f < p + count then true else s.bitIsUsed f) ∧
        s'.free = usizeSub s.free count ∧
        (count ≤ s.free → s.free < 2 ^ 64 → s'.free + count = s.free)) ∧
    ∀ s', s.allocFramesState count = (none, s') → s' = s := by
  rw [allocFramesState_eq]
  cases h : s.allocFrames count with
  | none =>
    refine ⟨⟨fun hs => (nomatch hs), ?_⟩, fun _ _ h' => (nomatch h'), fun s' h' => ?_⟩
    · rintro ⟨q, hq⟩
      obtain ⟨phys, s', hs⟩ := allocFrames_of_freeRun hc hq
      rw [h] at hs
      cases hs
    · exact (Prod.mk.inj h').2.symm
  | some r =>
    obtain ⟨phys, s'⟩ := r
    obtain ⟨p, hphys, h1, -, hmax, hclear, hbits, hfree⟩ := allocFrames_spec h
    refine ⟨⟨fun _ => ⟨p, h1, hmax, hclear⟩, fun _ => rfl⟩, ?_, fun _ h' => (nomatch h')⟩
    rintro _ _ ⟨rfl, rfl⟩
    refine ⟨p, hphys, ⟨h1, hmax, hclear⟩, hbits, hfree, fun hle hlt => ?_⟩
    rw [hfree, usizeSub]
    omega

theorem alloc_frames_complete_straddle :
    ((Frames.mk (fun w => if w = 0 then 0xFFFFFFFFFFFFFFE7 else 0xFFFFFFFFFFFFFFFF) maxFrames 2 4).allocFramesState
      2).1.isSome := by
  refine (alloc_frames_complete _ 2 (by decide)).1.mpr ⟨3, by decide, by decide, fun f h1 h2 => ?_⟩
  obtain rfl | rfl : f = 3 ∨ f = 4 := by omega
  · decide
  · decide

end Pippin.Mem.Frames
