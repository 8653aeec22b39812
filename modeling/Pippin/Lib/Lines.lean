import Pippin.Lib.Numbers

/-! Lines on a wire. A text without line breaks is one line for its reader, and lines that are written one after the
other are read one after the other. -/

namespace Str

/-- A text of at most `n` bytes with no line break. -/
structure Inline (n : Nat) (text : Str) : Prop where
  cr : '\r' ∉ text
  lf : '\n' ∉ text
  fits : text.len ≤ n

namespace Inline

variable {m n : Nat} {text part rest : Str} {lines more : List Str}

theorem mono (h : Inline n text) (hle : n ≤ m) : Inline m text := ⟨h.cr, h.lf, Nat.le_trans h.fits hle⟩

theorem append (h : Inline n text) (h' : Inline m rest) : Inline (n + m) (text ++ rest) := by
  refine ⟨by simp [h.cr, h'.cr], by simp [h.lf, h'.lf], ?_⟩
  have hlength : (text ++ rest).len = text.len + rest.len := by simp [len, bytes]
  rw [hlength]
  exact Nat.add_le_add h.fits h'.fits

theorem of_subset (h : Inline m text) (hpart : part ⊆ text) (hlength : part.len ≤ n) : Inline n part :=
  ⟨fun hc => h.cr (hpart hc), fun hc => h.lf (hpart hc), hlength⟩

theorem of_printable (h : ∀ c ∈ text, ' ' ≤ c ∧ c ≤ '~') (hlength : text.length ≤ n) : Inline n text := by
  have hcontrol : ∀ c ∈ text, c ≠ '\r' ∧ c ≠ '\n' := fun c hc => by
    constructor <;> rintro rfl <;> exact absurd (h _ hc).1 (by decide)
  refine ⟨fun hc => (hcontrol _ hc).1 rfl, fun hc => (hcontrol _ hc).2 rfl, ?_⟩
  rwa [len_of_ascii fun c hc => Nat.lt_of_le_of_lt (UInt32.le_iff_toNat_le.mp (h c hc).2) (by decide)]

end Inline

/-- `StreamReader.ReadLine`: a line ends with a line feed, a carriage return or both. After a carriage return the
reader waits for the next character. -/
def readLine (s : Str) : Option (Str × Str) :=
  let line := s.takeWhile fun c => decide (c ≠ '\r') && decide (c ≠ '\n')
  match s.drop line.length with
  | [] | ['\r'] => none
  | '\r' :: '\n' :: rest => some (line, rest)
  | _ :: rest => some (line, rest)

def unlines (lines : List Str) : Str := lines.flatMap fun line => line ++ ['\n']

variable {n : Nat} {line rest : Str} {lines more : List Str}

@[simp] theorem unlines_cons : unlines (line :: lines) = line ++ '\n' :: unlines lines := by simp [unlines]

@[simp] theorem unlines_append : unlines (lines ++ more) = unlines lines ++ unlines more := List.flatMap_append

@[simp] theorem bytes_append (s t : Str) : bytes (s ++ t) = bytes s ++ bytes t := List.flatMap_append

@[simp] theorem bytes_unlines_cons : bytes (unlines (line :: lines)) = bytes line ++ 10 :: bytes (unlines lines) := by
  rw [unlines_cons, bytes_append]
  rfl

theorem readLine_append (h : Inline n line) : readLine (line ++ '\n' :: rest) = some (line, rest) := by
  have htake : (line ++ '\n' :: rest).takeWhile (fun c => decide (c ≠ '\r') && decide (c ≠ '\n')) = line := by
    rw [List.takeWhile_append_of_pos, List.takeWhile_cons_of_neg (by simp), List.append_nil]
    intro c hc
    simp only [Bool.and_eq_true, decide_eq_true_eq]
    exact ⟨fun he => h.cr (he ▸ hc), fun he => h.lf (he ▸ hc)⟩
  unfold readLine
  rw [htake]
  dsimp only
  rw [List.drop_left]
  rfl

end Str
