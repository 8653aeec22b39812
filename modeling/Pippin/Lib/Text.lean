import Mathlib.Algebra.Order.Ring.Int
import Mathlib.Data.List.Basic
import Mathlib.Data.List.DropRight
import Mathlib.Data.List.TakeWhile

/-! Text as lists of characters, with the string operations that parsers of delimited lines
use: UTF-8 encoding, `split_once` and integer parsing of the Rust standard library, and the
integer parsing of .NET. -/

abbrev Str := List Char

namespace Str

def bytes (s : Str) : List UInt8 := s.flatMap String.utf8EncodeChar

def len (s : Str) : Nat := (bytes s).length

def fromUtf8 (bs : List UInt8) : Option Str := bs.toByteArray.utf8Decode?.map Array.toList

def units (s : Str) : Nat := (s.map fun c => if c.toNat < 0x10000 then 1 else 2).sum

theorem fromUtf8_bytes (s : Str) : fromUtf8 (bytes s) = some s := by
  show (List.utf8Encode s).utf8Decode?.map Array.toList = some s
  rw [List.utf8Decode?_utf8Encode]
  rfl

theorem bytes_of_fromUtf8 {bs : List UInt8} {s : Str} (h : fromUtf8 bs = some s) : bytes s = bs := by
  obtain ⟨chars, hchars, rfl⟩ := Option.map_eq_some_iff.mp h
  have hsome : bs.toByteArray.utf8Decode?.isSome := by rw [hchars]; rfl
  have hencode := ByteArray.utf8Encode_get_utf8Decode? (h := hsome)
  simp only [hchars, Option.get_some] at hencode
  have hdata := congrArg ByteArray.data hencode
  simpa [List.utf8Encode, bytes] using hdata

theorem ascii_of_mem_utf8EncodeChar {c : Char} {b : UInt8} (h : b ∈ String.utf8EncodeChar c) (hb : b < 128) :
    c.toNat = b.toNat := by
  have hb' : b.toNat < 128 := UInt8.lt_iff_toNat_lt.mp hb
  have high : ∀ n k : Nat, 128 ≤ k → n + k < 256 → b ≠ UInt8.ofNat (n + k) := by
    rintro n k hk hn rfl
    rw [UInt8.toNat_ofNat', Nat.mod_eq_of_lt hn] at hb'
    omega
  unfold String.utf8EncodeChar at h
  dsimp only at h
  split_ifs at h with h1 h2 h3
  · rw [List.mem_singleton.mp h, UInt8.toNat_ofNat', Nat.mod_eq_of_lt (by omega)]
    rfl
  all_goals
    simp only [List.mem_cons, List.not_mem_nil, or_false] at h
    have key : ∀ {n k : Nat}, b = UInt8.ofNat (n + k) → 128 ≤ k → n + k < 256 → c.toNat = b.toNat :=
      fun h hk hn => absurd h (high _ _ hk hn)
  · rcases h with h | h <;> exact key h (by omega) (by omega)
  · rcases h with h | h | h <;> exact key h (by omega) (by omega)
  · rcases h with h | h | h | h <;> exact key h (by omega) (by omega)

/-- `str::split_once` at a character. -/
def splitOnce (c : Char) : Str → Option (Str × Str)
  | [] => none
  | a :: s => if a = c then some ([], s) else (splitOnce c s).map fun (l, r) => (a :: l, r)

theorem splitOnce_some {c : Char} {s l r : Str} (h : splitOnce c s = some (l, r)) : s = l ++ c :: r ∧ c ∉ l := by
  induction s generalizing l with
  | nil => cases h
  | cons a s ih =>
    unfold splitOnce at h
    split_ifs at h with ha
    · cases h
      exact ⟨by rw [ha]; rfl, List.not_mem_nil⟩
    · obtain ⟨⟨l', r'⟩, h', he⟩ := Option.map_eq_some_iff.mp h
      cases he
      obtain ⟨rfl, hc⟩ := ih h'
      exact ⟨rfl, List.not_mem_cons_of_ne_of_not_mem (Ne.symm ha) hc⟩

theorem splitOnce_append {c : Char} {l : Str} (h : c ∉ l) (r : Str) : splitOnce c (l ++ c :: r) = some (l, r) := by
  induction l with
  | nil => exact if_pos rfl
  | cons a l ih =>
    have ha : a ≠ c := fun he => h (he ▸ List.mem_cons_self)
    rw [List.cons_append, splitOnce, if_neg ha, ih fun hc => h (List.mem_cons_of_mem a hc)]
    rfl

theorem splitOnce_none {c : Char} {s : Str} (h : splitOnce c s = none) : c ∉ s := by
  induction s with
  | nil => exact List.not_mem_nil
  | cons a s ih =>
    unfold splitOnce at h
    split_ifs at h with ha
    exact List.not_mem_cons_of_ne_of_not_mem (Ne.symm ha) (ih (Option.map_eq_none_iff.mp h))

theorem splitOn_eq (c : Char) (s : Str) : s.splitOn c =
    match splitOnce c s with
    | some (l, r) => l :: r.splitOn c
    | none => [s] := by
  split
  · rename_i l r h
    obtain ⟨rfl, hc⟩ := splitOnce_some h
    exact List.splitOn_append_cons_self_of_not_mem hc _
  · rename_i h
    exact List.splitOn_eq_singleton (splitOnce_none h)

def stripPrefix (p s : Str) : Option Str := if p.isPrefixOf s then some (s.drop p.length) else none

def stripSuffix (p s : Str) : Option Str := if p.isSuffixOf s then some (s.take (s.length - p.length)) else none

theorem stripPrefix_some {p s r : Str} (h : stripPrefix p s = some r) : s = p ++ r := by
  unfold stripPrefix at h
  split_ifs at h with hp
  cases h
  obtain ⟨q, rfl⟩ := List.isPrefixOf_iff_prefix.mp hp
  rw [List.drop_left]

theorem stripSuffix_some {p s r : Str} (h : stripSuffix p s = some r) : s = r ++ p := by
  unfold stripSuffix at h
  split_ifs at h with hp
  cases h
  obtain ⟨q, rfl⟩ := List.isSuffixOf_iff_suffix.mp hp
  rw [List.length_append, Nat.add_sub_cancel, List.take_left]

def isWhitespace (c : Char) : Bool :=
  let n := c.toNat
  decide (9 ≤ n ∧ n ≤ 13) || n == 0x20 || n == 0x85 || n == 0xa0 || n == 0x1680 || decide (0x2000 ≤ n ∧ n ≤ 0x200a) ||
    n == 0x2028 || n == 0x2029 || n == 0x202f || n == 0x205f || n == 0x3000

def trim (s : Str) : Str := (s.dropWhile isWhitespace).rdropWhile isWhitespace

theorem trim_concat (s : Str) {c : Char} (hc : isWhitespace c = false) :
    trim (s ++ [c]) = s.dropWhile isWhitespace ++ [c] := by
  unfold trim
  have hkeep : (s ++ [c]).dropWhile isWhitespace = s.dropWhile isWhitespace ++ [c] := by
    induction s with
    | nil =>
      rw [List.nil_append, List.dropWhile_cons, hc]
      rfl
    | cons a s ih =>
      rw [List.cons_append, List.dropWhile_cons, List.dropWhile_cons]
      split
      · exact ih
      · rfl
  rw [hkeep, List.rdropWhile_concat_neg _ _ _ (by rw [hc]; exact Bool.false_ne_true)]

/-- `str::lines`: a line ends with a line feed and may have a carriage return before it;
the last one may lack its end. -/
def lines (s : Str) : List Str :=
  let pieces := s.splitOn '\n'
  let ended := pieces.dropLast.map fun l => if l.getLast? = some '\r' then l.dropLast else l
  match pieces.getLast? with
  | none | some [] => ended
  | some l => ended ++ [l]

def toDigit (radix : Nat) (c : Char) : Option Nat :=
  let v := if '0' ≤ c ∧ c ≤ '9' then c.toNat - '0'.toNat
    else if 'a' ≤ c ∧ c ≤ 'z' then c.toNat - 'a'.toNat + 10
    else if 'A' ≤ c ∧ c ≤ 'Z' then c.toNat - 'A'.toNat + 10
    else radix
  if v < radix then some v else none

def magnitude (radix : Nat) (s : Str) : Option Nat :=
  if s = [] then none else s.foldlM (fun n c => (toDigit radix c).map (n * radix + ·)) 0

/-- Unsigned `from_str_radix` for a type of `bits` bits: a leading plus is accepted, a
minus is not a digit. -/
def parseUnsigned (bits radix : Nat) (s : Str) : Option Nat :=
  let digits := match s with
    | '+' :: t => t
    | _ => s
  (magnitude radix digits).filter (· < 2 ^ bits)

def parseI32 : Str → Option Int
  | '-' :: t => ((magnitude 10 t).filter (· ≤ 2 ^ 31)).map fun n => -(n : Int)
  | s => (parseUnsigned 31 10 s).map fun n => (n : Int)

def parseU32 (radix : Nat) (s : Str) : Option UInt32 := (parseUnsigned 32 radix s).map UInt32.ofNat

def parseUsize (s : Str) : Option Nat := parseUnsigned 64 10 s

/-! ## Numbers of .NET -/

def isWhite (c : Char) : Bool := c.toNat == 0x20 || (decide (0x09 ≤ c.toNat) && decide (c.toNat ≤ 0x0d))

/-- `uint.TryParse`: white space around the number, a sign and trailing nulls are accepted. -/
def tryParseUInt (s : Str) : Option UInt32 :=
  let s := s.dropWhile isWhite
  let (negative, digits) := match s with
    | '-' :: t => (true, t)
    | '+' :: t => (false, t)
    | _ => (false, s)
  let rest := ((digits.dropWhile Char.isDigit).dropWhile isWhite).dropWhile (· == '\x00')
  if !rest.isEmpty then none
  else ((magnitude 10 (digits.takeWhile Char.isDigit)).filter fun n =>
    decide (n < 2 ^ 32) && !(negative && n != 0)).map UInt32.ofNat

theorem isDigit_of_toDigit {c : Char} {n : Nat} (h : toDigit 10 c = some n) : c.isDigit = true := by
  unfold toDigit at h
  dsimp only at h
  split_ifs at h with h1 h2 h3 h4 h5 h6 h7 <;> simp only [Char.isDigit, Bool.and_eq_true, decide_eq_true_eq]
  · exact h1
  all_goals omega

theorem toDigit_of_magnitude {radix : Nat} {s : Str} {n : Nat} (h : magnitude radix s = some n) :
    s ≠ [] ∧ ∀ c ∈ s, ∃ d, toDigit radix c = some d := by
  unfold magnitude at h
  split_ifs at h with hs
  refine ⟨hs, ?_⟩
  clear hs
  generalize 0 = m at h
  induction s generalizing m with
  | nil => exact nofun
  | cons a s ih =>
    rw [List.foldlM_cons] at h
    obtain ⟨k, hk, h⟩ := Option.bind_eq_some_iff.mp h
    obtain ⟨d, hd, -⟩ := Option.map_eq_some_iff.mp hk
    intro c hc
    rcases List.mem_cons.mp hc with rfl | hc
    · exact ⟨d, hd⟩
    · exact ih k h c hc

theorem isDigit_of_magnitude {s : Str} {n : Nat} (h : magnitude 10 s = some n) :
    s ≠ [] ∧ ∀ c ∈ s, c.isDigit = true := by
  obtain ⟨hs, hd⟩ := toDigit_of_magnitude h
  refine ⟨hs, fun c hc => ?_⟩
  obtain ⟨d, hc⟩ := hd c hc
  exact isDigit_of_toDigit hc

theorem ascii_of_toDigit {radix n : Nat} {c : Char} (h : toDigit radix c = some n) : c.toNat < 128 := by
  unfold toDigit at h
  dsimp only at h
  split_ifs at h with h1 h2 h3 h4 h5 h6 h7
  · exact Nat.lt_of_le_of_lt (UInt32.le_iff_toNat_le.mp h1.2) (by decide)
  · exact Nat.lt_of_le_of_lt (UInt32.le_iff_toNat_le.mp h3.2) (by decide)
  · exact Nat.lt_of_le_of_lt (UInt32.le_iff_toNat_le.mp h5.2) (by decide)
  · exact absurd h7 (Nat.lt_irrefl radix)

theorem ascii_of_all {s : Str} (h : s.all (fun c => decide (c.toNat < 128)) = true) : ∀ c ∈ s, c.toNat < 128 := by
  intro c hc
  exact of_decide_eq_true (List.all_eq_true.mp h c hc)

theorem units_of_ascii {s : Str} (h : ∀ c ∈ s, c.toNat < 128) : units s = s.length := by
  unfold units
  induction s with
  | nil => rfl
  | cons c s ih =>
    have hc := h c List.mem_cons_self
    rw [List.map_cons, List.sum_cons, ih fun d hd => h d (List.mem_cons_of_mem c hd), if_pos (by omega),
      List.length_cons, Nat.add_comm]

theorem isDigit_plain {c : Char} (h : c.isDigit = true) : isWhite c = false ∧ c ≠ '-' ∧ c ≠ '+' := by
  simp only [Char.isDigit, Bool.and_eq_true, decide_eq_true_eq] at h
  refine ⟨?_, ?_, ?_⟩
  · unfold isWhite
    have h1 : 48 ≤ c.toNat := UInt32.le_iff_toNat_le.mp h.1
    simp
    omega
  · rintro rfl
    exact absurd h.1 (by decide)
  · rintro rfl
    exact absurd h.1 (by decide)

theorem tryParseUInt_of_parseU32 {s : Str} {n : UInt32} (h : parseU32 10 s = some n) : tryParseUInt s = some n := by
  obtain ⟨k, hk, rfl⟩ := Option.map_eq_some_iff.mp h
  have read : ∀ t, (magnitude 10 t).filter (· < 2 ^ 32) = some k →
      ((t.dropWhile Char.isDigit).dropWhile isWhite).dropWhile (· == '\x00') = [] ∧
      (magnitude 10 (t.takeWhile Char.isDigit)).filter (fun n => decide (n < 2 ^ 32) && !(false && n != 0)) =
        some k := by
    intro t ht
    obtain ⟨hm, hlt⟩ := Option.filter_eq_some_iff.mp ht
    obtain ⟨-, hd⟩ := isDigit_of_magnitude hm
    rw [List.dropWhile_eq_nil_iff.mpr hd, List.takeWhile_eq_self_iff.mpr hd]
    exact ⟨rfl, by simpa using ht⟩
  unfold parseUnsigned at hk
  dsimp only at hk
  -- a sign, or a first digit that is neither blank nor a sign
  split at hk
  · rename_i t
    obtain ⟨h1, h2⟩ := read t hk
    unfold tryParseUInt
    have hw : List.dropWhile isWhite ('+' :: t) = '+' :: t := rfl
    simp only [hw, h1, h2]
    rfl
  · rename_i hplus
    obtain ⟨h1, h2⟩ := read s hk
    obtain ⟨hm, -⟩ := Option.filter_eq_some_iff.mp hk
    cases s with
    | nil => cases hm
    | cons c t =>
      obtain ⟨hwhite, hminus, -⟩ := isDigit_plain ((isDigit_of_magnitude hm).2 c List.mem_cons_self)
      have hw : List.dropWhile isWhite (c :: t) = c :: t := List.dropWhile_cons_of_neg (by simp [hwhite])
      unfold tryParseUInt
      simp only [hw]
      split
      · rename_i he
        cases he
        exact absurd rfl hminus
      · rename_i he
        exact absurd he (hplus _)
      · simp only [h1, h2]
        rfl

/-! ## Numbers as text -/

def decimal (n : Nat) : Str := Nat.toDigits 10 n

def hexUpper (width n : Nat) : Str := ((Nat.toDigits 16 n).map Char.toUpper).leftpad width '0'

theorem foldlM_toDigits {b : Nat} (hb : 1 < b) {f : Char → Char}
    (digit : ∀ d < b, toDigit b (f (Nat.digitChar d)) = some d) (n : Nat) :
    ((Nat.toDigits b n).map f).foldlM (fun n c => (toDigit b c).map (n * b + ·)) 0 = some n := by
  induction n using Nat.strongRecOn with
  | ind n ih =>
    by_cases hn : n < b
    · rw [Nat.toDigits_of_lt_base hn]
      simp [digit n hn]
    · have hle : b ≤ n := Nat.le_of_not_lt hn
      rw [Nat.toDigits_of_base_le hb hle, List.map_append, List.foldlM_append,
        ih (n / b) (Nat.div_lt_self (by omega) hb)]
      simp [digit (n % b) (Nat.mod_lt n (by omega)), Nat.div_add_mod']

theorem magnitude_decimal (n : Nat) : magnitude 10 (decimal n) = some n := by
  have h := foldlM_toDigits (f := id) (by decide : 1 < 10) (by decide) n
  unfold magnitude decimal
  rw [if_neg Nat.toDigits_ne_nil]
  rwa [List.map_id] at h

theorem magnitude_hexUpper (width n : Nat) : magnitude 16 (hexUpper width n) = some n := by
  have zeros : ∀ k, (List.replicate k '0').foldlM (fun n c => (toDigit 16 c).map (n * 16 + ·)) 0 = some 0 := by
    intro k
    induction k with
    | zero => rfl
    | succ k ih => exact ih
  have hne : hexUpper width n ≠ [] := by simp [hexUpper, List.leftpad]
  unfold magnitude
  rw [if_neg hne]
  unfold hexUpper List.leftpad
  rw [List.foldlM_append, zeros]
  exact foldlM_toDigits (by decide) (by decide) n

theorem length_hexUpper {width n : Nat} (hw : 0 < width) (hn : n < 16 ^ width) : (hexUpper width n).length = width := by
  unfold hexUpper
  rw [List.length_leftpad, List.length_map]
  exact Nat.max_eq_left ((Nat.length_toDigits_le_iff (by decide) hw).mpr hn)

theorem parseUnsigned_of_magnitude {bits radix n : Nat} {s : Str} (hm : magnitude radix s = some n)
    (hn : n < 2 ^ bits) :
    parseUnsigned bits radix s = some n := by
  unfold parseUnsigned
  dsimp only
  split
  · rename_i t
    obtain ⟨d, hd⟩ := (toDigit_of_magnitude hm).2 '+' List.mem_cons_self
    exact absurd hd (by simp [toDigit])
  · rw [hm, Option.filter_some_pos (by simpa using hn)]

theorem parseU32_decimal (n : UInt32) : parseU32 10 (decimal n.toNat) = some n := by
  unfold parseU32
  rw [parseUnsigned_of_magnitude (magnitude_decimal n.toNat) n.toNat_lt]
  simp

theorem parseUsize_decimal {n : Nat} (h : n < 2 ^ 64) : parseUsize (decimal n) = some n :=
  parseUnsigned_of_magnitude (magnitude_decimal n) h

theorem parseU32_hexUpper (width : Nat) (n : UInt32) : parseU32 16 (hexUpper width n.toNat) = some n := by
  unfold parseU32
  rw [parseUnsigned_of_magnitude (magnitude_hexUpper width n.toNat) n.toNat_lt]
  simp

theorem ascii_decimal {n : Nat} {c : Char} (h : c ∈ decimal n) : c.toNat < 128 := by
  obtain ⟨d, hd⟩ := (toDigit_of_magnitude (magnitude_decimal n)).2 c h
  exact ascii_of_toDigit hd

theorem length_decimal {n k : Nat} (hk : 0 < k) (hn : n < 10 ^ k) : (decimal n).length ≤ k :=
  (Nat.length_toDigits_le_iff (by decide) hk).mpr hn

theorem length_join (c : Char) {parts : List Str} (h : parts ≠ []) :
    ([c].intercalate parts).length + 1 = (parts.map fun p => p.length + 1).sum := by
  induction parts with
  | nil => exact absurd rfl h
  | cons p parts ih =>
    cases parts with
    | nil => simp
    | cons q parts =>
      rw [List.intercalate_cons_cons, List.map_cons, List.sum_cons, ← ih (List.cons_ne_nil q parts)]
      simp only [List.length_append, List.length_singleton]
      omega

theorem mem_join {c x : Char} {parts : List Str} (h : x ∈ [c].intercalate parts) : x = c ∨ ∃ p ∈ parts, x ∈ p := by
  induction parts with
  | nil => cases h
  | cons p parts ih =>
    cases parts with
    | nil => exact Or.inr ⟨p, List.mem_cons_self, by simpa using h⟩
    | cons q parts =>
      rw [List.intercalate_cons_cons, List.mem_append, List.mem_append, List.mem_singleton] at h
      rcases h with (h | h) | h
      · exact Or.inr ⟨p, List.mem_cons_self, h⟩
      · exact Or.inl h
      · rcases ih h with hx | ⟨r, hr, hx⟩
        · exact Or.inl hx
        · exact Or.inr ⟨r, List.mem_cons_of_mem p hr, hx⟩

theorem not_mem_decimal {n : Nat} {c : Char} (hc : c.isDigit = false) : c ∉ decimal n := fun h => by
  rw [(isDigit_of_magnitude (magnitude_decimal n)).2 c h] at hc
  cases hc

end Str
