import Pippin.Lib.Spans
import Pippin.Kernel.Frames

/-! The reader of the Multiboot memory map against the layout of its entries: it stays in
the buffer it was given, it ends, and it yields the regions encoded there. -/

namespace Pippin.Mem

/-- `next` with the spans of memory it reads, in order. -/
def MemoryMap.nextReads (m : Memory) (it : MemoryMap) : List Span × Option (Region × MemoryMap) :=
  if it.remaining < 4 then ([], none)
  else
    let size := m.readLE it.ptr 4
    if size < 20 ∨ it.remaining < size + 4 then ([⟨it.ptr, 4⟩], none)
    else ([⟨it.ptr, 4⟩, ⟨it.ptr + 4, 8⟩, ⟨it.ptr + 12, 8⟩, ⟨it.ptr + 20, 4⟩],
      some (⟨m.read64 (it.ptr + 4), m.read64 (it.ptr + 12), UInt64.ofNat (m.readLE (it.ptr + 20) 4)⟩,
        ⟨it.ptr + (size + 4), it.remaining - (size + 4)⟩))

/-- The `for` loop over the reader: the regions it visits and the spans it reads until
`next` returns `None`. It is `none` itself when the rounds do not suffice. -/
def MemoryMap.iterate (m : Memory) : Nat → MemoryMap → Option (List Region × List Span)
  | 0, _ => none
  | rounds + 1, it =>
    match it.nextReads m with
    | (reads, none) => some ([], reads)
    | (reads, some (r, it)) =>
      (MemoryMap.iterate m rounds it).map fun rest => (r :: rest.1, reads ++ rest.2)

/-- One entry as firmware lays it out. Its size field counts everything behind it. -/
structure Entry where
  base : UInt64
  len : UInt64
  kind : UInt32
  padding : List UInt8
  fits : 20 + padding.length < 2 ^ 32

def Entry.region (e : Entry) : Region := ⟨e.base, e.len, UInt64.ofNat e.kind.toNat⟩

def Entry.bytes (e : Entry) : List UInt8 :=
  Bytes.toLE 4 (20 + e.padding.length) ++ (Bytes.toLE 8 e.base.toNat ++
    (Bytes.toLE 8 e.len.toNat ++ (Bytes.toLE 4 e.kind.toNat ++ e.padding)))

/-- No complete entry starts here: too short for a size field, a size below 20, or fewer
bytes left than the size field says. -/
def Broken (tail : List UInt8) : Prop :=
  tail.length < 4 ∨ Bytes.ofLE (tail.take 4) < 20 ∨ tail.length < Bytes.ofLE (tail.take 4) + 4

variable {m m' : Memory} {it : MemoryMap}

theorem nextReads_snd (m : Memory) (it : MemoryMap) : (it.nextReads m).2 = it.next m := by
  unfold MemoryMap.nextReads MemoryMap.next
  dsimp only
  split_ifs <;> rfl

theorem nextReads_inside : ∀ r ∈ (it.nextReads m).1, it.ptr ≤ r.start ∧ r.stop ≤ it.ptr + it.remaining := by
  unfold MemoryMap.nextReads
  dsimp only
  split_ifs with h4 hsize
  · simp
  · simp only [List.mem_singleton, forall_eq, Span.stop]
    omega
  · simp only [List.mem_cons, List.not_mem_nil, or_false, forall_eq_or_imp, forall_eq, Span.stop]
    omega

theorem next_rest {r : Region} {it' : MemoryMap} (h : it.next m = some (r, it')) :
    it.ptr ≤ it'.ptr ∧ it'.ptr + it'.remaining = it.ptr + it.remaining ∧
      it'.remaining + 24 ≤ it.remaining := by
  unfold MemoryMap.next at h
  dsimp only at h
  split_ifs at h with h4 hsize
  rw [Option.some.injEq, Prod.mk.injEq] at h
  obtain ⟨-, rfl⟩ := h
  dsimp only
  omega

theorem next_congr (h : ∀ x, it.ptr ≤ x → x < it.ptr + it.remaining → m x = m' x) :
    it.next m = it.next m' := by
  have hread : ∀ k n, k + n ≤ it.remaining → m.read (it.ptr + k) n = m'.read (it.ptr + k) n := by
    intro k n hk
    apply Memory.read_congr
    intro i hi
    exact h _ (by omega) (by omega)
  unfold MemoryMap.next
  split_ifs with h4
  · rfl
  · have hsize : m.readLE it.ptr 4 = m'.readLE it.ptr 4 := congrArg Bytes.ofLE (hread 0 4 (by omega))
    rw [hsize]
    dsimp only
    split_ifs with h20
    · rfl
    · rw [Memory.read64, Memory.read64, Memory.read64, Memory.read64, Memory.readLE, Memory.readLE,
        Memory.readLE, Memory.readLE, Memory.readLE, hread 4 8 (by omega), hread 12 8 (by omega),
        hread 20 4 (by omega)]
      rfl

theorem collect_eq (n n' : Nat) : ∀ it : MemoryMap, it.remaining < 24 * (n + 1) →
    it.remaining < 24 * (n' + 1) → it.collect m n = it.collect m n' := by
  induction n generalizing n' with
  | zero =>
    intro it h _
    cases n' with
    | zero => rfl
    | succ n' =>
      rw [MemoryMap.collect, MemoryMap.collect]
      cases hnext : it.next m with
      | none => rfl
      | some step =>
        obtain ⟨r, it'⟩ := step
        have := next_rest hnext
        omega
  | succ n ih =>
    intro it h h'
    cases hnext : it.next m with
    | none => cases n' <;> simp only [MemoryMap.collect, hnext]
    | some step =>
      obtain ⟨r, it'⟩ := step
      have hrest := next_rest hnext
      obtain ⟨n', rfl⟩ : ∃ k, n' = k + 1 := ⟨n' - 1, by omega⟩
      simp only [MemoryMap.collect, hnext]
      rw [ih n' it' (by omega) (by omega)]

theorem collect_congr (n : Nat) : ∀ it : MemoryMap,
    (∀ x, it.ptr ≤ x → x < it.ptr + it.remaining → m x = m' x) → it.collect m n = it.collect m' n := by
  induction n with
  | zero => exact fun _ _ => rfl
  | succ n ih =>
    intro it h
    rw [MemoryMap.collect, MemoryMap.collect, next_congr h]
    cases hnext : it.next m' with
    | none => rfl
    | some step =>
      obtain ⟨r, it'⟩ := step
      have hrest := next_rest hnext
      dsimp only
      rw [ih it' fun x h1 h2 => h x (by omega) (by omega)]

theorem iterate_ends (n : Nat) : ∀ it : MemoryMap, it.remaining < 24 * (n + 1) →
    ∃ reads, it.iterate m (n + 1) = some (it.collect m n, reads) ∧
      ∀ r ∈ reads, it.ptr ≤ r.start ∧ r.stop ≤ it.ptr + it.remaining := by
  induction n with
  | zero =>
    intro it h
    have hin := @nextReads_inside m it
    have hsnd := nextReads_snd m it
    rw [MemoryMap.iterate]
    generalize it.nextReads m = step at hin hsnd ⊢
    obtain ⟨reads, none | ⟨r, it'⟩⟩ := step
    · exact ⟨reads, rfl, hin⟩
    · have := next_rest hsnd.symm
      omega
  | succ n ih =>
    intro it h
    have hin := @nextReads_inside m it
    have hsnd := nextReads_snd m it
    rw [MemoryMap.iterate, MemoryMap.collect]
    generalize it.nextReads m = step at hin hsnd ⊢
    obtain ⟨reads, none | ⟨r, it'⟩⟩ := step
    · exact ⟨reads, by rw [← hsnd], hin⟩
    · have hrest := next_rest hsnd.symm
      obtain ⟨reads', hit, hin'⟩ := ih it' (by omega)
      refine ⟨reads ++ reads', ?_, fun b hb => ?_⟩
      · rw [← hsnd]
        dsimp only
        rw [hit, Option.map_some]
      · rcases List.mem_append.mp hb with hb | hb
        · exact hin b hb
        · have := hin' b hb
          omega

/-! ## Encoded maps -/

theorem Entry.length_bytes (e : Entry) : e.bytes.length = 24 + e.padding.length := by
  simp only [Entry.bytes, List.length_append, Bytes.length_toLE]
  omega

theorem next_entry {e : Entry} {rest : List UInt8} (h : m.read it.ptr it.remaining = e.bytes ++ rest) :
    ∃ it' : MemoryMap, it.next m = some (e.region, it') ∧ m.read it'.ptr it'.remaining = rest := by
  have hlen := congrArg List.length h
  rw [Memory.length_read, List.length_append, Entry.length_bytes] at hlen
  have hfits := e.fits
  have hslice : ∀ k j, k + j ≤ it.remaining → m.read (it.ptr + k) j = ((e.bytes ++ rest).drop k).take j := by
    intro k j hk
    rw [← h]
    exact Memory.read_slice hk
  have hsize : m.readLE it.ptr 4 = 20 + e.padding.length := by
    have h0 := hslice 0 4 (by omega)
    rw [Nat.add_zero, List.drop_zero, Entry.bytes, List.append_assoc,
      List.take_left' (Bytes.length_toLE 4 _)] at h0
    rw [Memory.readLE, h0, Bytes.ofLE_toLE, Nat.mod_eq_of_lt (by omega)]
  -- each field is what `toLE` put behind the fields before it
  have hfield : ∀ (pre post : List UInt8) (n v : Nat), e.bytes = pre ++ (Bytes.toLE n v ++ post) →
      m.readLE (it.ptr + pre.length) n = v % 256 ^ n := by
    intro pre post n v hb
    have hbytes := congrArg List.length hb
    simp only [Entry.length_bytes, List.length_append, Bytes.length_toLE] at hbytes
    rw [Memory.readLE, hslice _ n (by omega), hb, List.append_assoc, List.drop_left' rfl,
      List.append_assoc, List.take_left' (Bytes.length_toLE n v), Bytes.ofLE_toLE]
  have hbase := hfield (Bytes.toLE 4 (20 + e.padding.length)) _ 8 e.base.toNat rfl
  have hlength := hfield (Bytes.toLE 4 (20 + e.padding.length) ++ Bytes.toLE 8 e.base.toNat) _ 8
    e.len.toNat (by rw [List.append_assoc]; rfl)
  have hkind := hfield (Bytes.toLE 4 (20 + e.padding.length) ++ (Bytes.toLE 8 e.base.toNat ++
    Bytes.toLE 8 e.len.toNat)) _ 4 e.kind.toNat (by rw [List.append_assoc, List.append_assoc]; rfl)
  simp only [List.length_append, Bytes.length_toLE, Nat.reduceAdd] at hbase hlength hkind
  rw [Nat.mod_eq_of_lt (show _ < 256 ^ 8 from e.base.toNat_lt)] at hbase
  rw [Nat.mod_eq_of_lt (show _ < 256 ^ 8 from e.len.toNat_lt)] at hlength
  rw [Nat.mod_eq_of_lt (show _ < 256 ^ 4 from e.kind.toNat_lt)] at hkind
  refine ⟨⟨it.ptr + (20 + e.padding.length + 4), it.remaining - (20 + e.padding.length + 4)⟩, ?_, ?_⟩
  · rw [MemoryMap.next, if_neg (by omega)]
    dsimp only
    rw [hsize, if_neg (by omega), Memory.read64, hbase, Memory.read64, hlength, hkind,
      UInt64.ofNat_toNat, UInt64.ofNat_toNat, Entry.region]
  · dsimp only
    rw [hslice _ _ (by omega), List.drop_left' (by rw [Entry.length_bytes]; omega)]
    apply List.take_of_length_le
    omega

theorem next_broken (h : Broken (m.read it.ptr it.remaining)) : it.next m = none := by
  rw [Broken, Memory.length_read] at h
  rw [MemoryMap.next]
  split_ifs with h4
  · rfl
  · have hsize : m.readLE it.ptr 4 = Bytes.ofLE ((m.read it.ptr it.remaining).take 4) := by
      have h0 := Memory.read_slice (m := m) (a := it.ptr) (n := it.remaining) (k := 0) (j := 4) (by omega)
      rw [Nat.add_zero, List.drop_zero] at h0
      rw [Memory.readLE, h0]
    dsimp only
    rw [hsize, if_pos (by omega)]

theorem collect_encoded (entries : List Entry) {tail : List UInt8} (htail : Broken tail) :
    ∀ (n : Nat) (it : MemoryMap), entries.length ≤ n →
      m.read it.ptr it.remaining = entries.flatMap Entry.bytes ++ tail →
      it.collect m n = entries.map Entry.region := by
  induction entries with
  | nil =>
    intro n it _ h
    have hnone : it.next m = none := next_broken (by rw [h]; exact htail)
    cases n with
    | zero => rfl
    | succ n => rw [MemoryMap.collect, hnone, List.map_nil]
  | cons e entries ih =>
    intro n it hn h
    obtain ⟨n, rfl⟩ : ∃ k, n = k + 1 := ⟨n - 1, by simp only [List.length_cons] at hn; omega⟩
    rw [List.flatMap_cons, List.append_assoc] at h
    obtain ⟨it', hnext, hrest⟩ := next_entry h
    rw [MemoryMap.collect, hnext]
    dsimp only
    rw [ih n it' (by simpa using hn) hrest, List.map_cons]

theorem length_entries_le (entries : List Entry) : entries.length ≤ (entries.flatMap Entry.bytes).length := by
  induction entries with
  | nil => simp
  | cons e entries ih =>
    rw [List.flatMap_cons, List.length_append, List.length_cons, Entry.length_bytes]
    omega

/-- Memory-map iterator: over any buffer the loop ends, reads only bytes of the buffer and
depends on no others, and over encoded entries followed by a truncated or undersized one
it yields the regions of the complete entries in order. -/
theorem memory_map_iterator (m : Memory) (it : MemoryMap) :
    (∃ reads, it.iterate m (it.remaining / 24 + 1) = some (it.regions m, reads) ∧
      ∀ r ∈ reads, it.ptr ≤ r.start ∧ r.stop ≤ it.ptr + it.remaining) ∧
    (∀ m', (∀ x, it.ptr ≤ x → x < it.ptr + it.remaining → m x = m' x) → it.regions m = it.regions m') ∧
    ∀ (entries : List Entry) (tail : List UInt8), Broken tail →
      m.read it.ptr it.remaining = entries.flatMap Entry.bytes ++ tail →
      it.regions m = entries.map Entry.region := by
  refine ⟨?_, fun m' h => collect_congr _ it h, ?_⟩
  · obtain ⟨reads, hit, hin⟩ := iterate_ends (m := m) (it.remaining / 24) it (by omega)
    rw [collect_eq (it.remaining / 24) it.remaining it (by omega) (by omega)] at hit
    exact ⟨reads, hit, hin⟩
  · intro entries tail htail h
    refine collect_encoded entries htail _ it ?_ h
    have hlen := congrArg List.length h
    rw [Memory.length_read, List.length_append] at hlen
    have := length_entries_le entries
    omega

end Pippin.Mem
