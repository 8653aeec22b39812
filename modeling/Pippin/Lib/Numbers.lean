import Pippin.Lib.Text

/-! Signed numbers as text and as the two sides of a line protocol read them back, and the length of
plain text. -/

abbrev I32 (v : Int) : Prop := -2 ^ 31 ≤ v ∧ v < 2 ^ 31

namespace Str

def decimalInt (v : Int) : Str := if v < 0 then '-' :: decimal v.natAbs else decimal v.natAbs

/-- `int.TryParse`: white space around the number, a sign and trailing nulls are accepted. -/
def tryParseInt (s : Str) : Option Int :=
  let s := s.dropWhile isWhite
  let (negative, digits) := match s with
    | '-' :: t => (true, t)
    | '+' :: t => (false, t)
    | _ => (false, s)
  let rest := ((digits.dropWhile Char.isDigit).dropWhile isWhite).dropWhile (· == '\x00')
  if !rest.isEmpty then none
  else ((magnitude 10 (digits.takeWhile Char.isDigit)).map fun n : Nat => if negative then -(n : Int) else n).filter fun v =>
    decide (-2 ^ 31 ≤ v) && decide (v < 2 ^ 31)

variable {v : Int}

theorem forall_of_all {p : Char → Prop} [DecidablePred p] {s : Str} (h : s.all (fun c => decide (p c)) = true) :
    ∀ c ∈ s, p c := fun c hc => of_decide_eq_true (List.all_eq_true.mp h c hc)

theorem decimal_digits (n : Nat) : ∃ c t, decimal n = c :: t ∧ ∀ d ∈ c :: t, d.isDigit = true := by
  obtain ⟨hne, hd⟩ := isDigit_of_magnitude (magnitude_decimal n)
  obtain ⟨c, t, h⟩ := List.exists_cons_of_ne_nil hne
  exact ⟨c, t, h, h ▸ hd⟩

theorem parseI32_decimalInt (h : I32 v) : parseI32 (decimalInt v) = some v := by
  unfold decimalInt
  split_ifs with hneg
  · have hle : v.natAbs ≤ 2 ^ 31 := by omega
    have hv : -(v.natAbs : Int) = v := by omega
    simp only [parseI32, magnitude_decimal]
    rw [Option.filter_some_pos (by simpa using hle)]
    exact congrArg some hv
  · obtain ⟨c, t, hd, hdigit⟩ := decimal_digits v.natAbs
    have hplain := isDigit_plain (hdigit c List.mem_cons_self)
    have hparse : parseUnsigned 31 10 (decimal v.natAbs) = some v.natAbs :=
      parseUnsigned_of_magnitude (magnitude_decimal _) (by omega)
    unfold parseI32
    rw [hd] at hparse ⊢
    split
    · rename_i he
      cases he
      exact absurd rfl hplain.2.1
    · have hv : (v.natAbs : Int) = v := by omega
      rw [hparse]
      exact congrArg some hv

theorem tryParse_digits (n : Nat) :
    (((decimal n).dropWhile Char.isDigit).dropWhile isWhite).dropWhile (· == '\x00') = [] ∧
      magnitude 10 ((decimal n).takeWhile Char.isDigit) = some n := by
  obtain ⟨-, hd⟩ := isDigit_of_magnitude (magnitude_decimal n)
  rw [List.dropWhile_eq_nil_iff.mpr hd, List.takeWhile_eq_self_iff.mpr hd]
  exact ⟨rfl, magnitude_decimal n⟩

theorem tryParseInt_decimalInt (h : I32 v) : tryParseInt (decimalInt v) = some v := by
  obtain ⟨hrest, hdigits⟩ := tryParse_digits v.natAbs
  unfold decimalInt
  split_ifs with hneg
  · have hw : List.dropWhile isWhite ('-' :: decimal v.natAbs) = '-' :: decimal v.natAbs := rfl
    have hv : -(v.natAbs : Int) = v := by omega
    unfold tryParseInt
    simp only [hw, hrest, hdigits, List.isEmpty_nil, Bool.not_true, Bool.false_eq_true, if_false, if_true,
      Option.map_some, hv]
    rw [Option.filter_some_pos (by simpa [I32] using h)]
  · obtain ⟨c, t, hd, hdigit⟩ := decimal_digits v.natAbs
    obtain ⟨hwhite, hminus, hplus⟩ := isDigit_plain (hdigit c List.mem_cons_self)
    have hw : List.dropWhile isWhite (decimal v.natAbs) = decimal v.natAbs := by
      rw [hd]
      exact List.dropWhile_cons_of_neg (by simp [hwhite])
    have hv : (v.natAbs : Int) = v := by omega
    unfold tryParseInt
    simp only [hw]
    split
    · rename_i he
      rw [hd] at he
      cases he
      exact absurd rfl hminus
    · rename_i he
      rw [hd] at he
      cases he
      exact absurd rfl hplus
    · simp only [hrest, hdigits, List.isEmpty_nil, Bool.not_true, Bool.false_eq_true, if_false, Option.map_some, hv]
      rw [Option.filter_some_pos (by simpa [I32] using h)]

theorem tryParseUInt_decimal (n : UInt32) : tryParseUInt (decimal n.toNat) = some n :=
  tryParseUInt_of_parseU32 (parseU32_decimal n)

theorem mem_decimalInt {c : Char} (h : c ∈ decimalInt v) : c = '-' ∨ c.isDigit = true := by
  obtain ⟨-, hd⟩ := isDigit_of_magnitude (magnitude_decimal v.natAbs)
  unfold decimalInt at h
  split_ifs at h
  · exact (List.mem_cons.mp h).imp id (hd c)
  · exact Or.inr (hd c h)

theorem length_decimalInt (h : I32 v) : (decimalInt v).length ≤ 11 := by
  have hlen : (decimal v.natAbs).length ≤ 10 := length_decimal (by decide) (by omega)
  unfold decimalInt
  split_ifs
  · exact Nat.succ_le_succ hlen
  · exact Nat.le_succ_of_le hlen

theorem length_decimalU32 (n : UInt32) : (decimal n.toNat).length ≤ 10 :=
  length_decimal (by decide) (Nat.lt_trans n.toNat_lt (by decide))

/-! ## Plain text -/

theorem len_of_ascii {s : Str} (h : ∀ c ∈ s, c.toNat < 128) : s.len = s.length := by
  unfold len bytes
  induction s with
  | nil => rfl
  | cons c s ih =>
    have hc : c.utf8Size = 1 := Char.utf8Size_eq_one_iff.mpr (UInt32.le_iff_toNat_le.mpr (Nat.le_of_lt_succ
      (h c List.mem_cons_self)))
    rw [List.flatMap_cons, List.length_append, String.length_utf8EncodeChar, hc,
      ih fun d hd => h d (List.mem_cons_of_mem c hd), List.length_cons, Nat.add_comm]

end Str
