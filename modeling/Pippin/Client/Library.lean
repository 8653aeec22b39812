import Pippin.Client.Protocol
import Pippin.Lib.Numbers

/-! The client library of the host. Each method sends one line, and the server reads in it what the method was
called with: no title reaches into another field, and no line is too long. -/

namespace Pippin.Client
open Checked Str

def fieldsRequest : Option Op → UInt32 → List Str → Option Request
  | some .WC, id, [a, b, c, d, title] => do
    return .create id (← parseI32 a) (← parseI32 b) (← parseI32 c) (← parseI32 d) title
  | some .WD, id, [] => some (.destroy id)
  | some .WS, id, [] => some (.unhide id)
  | some .WH, id, [] => some (.hide id)
  | some .WT, id, [title] => some (.retitle id title)
  | some .WM, id, [a, b] => do return .move id (← parseI32 a) (← parseI32 b)
  | some .WZ, id, [a, b] => do return .resize id (← parseI32 a) (← parseI32 b)
  | some .WK, id, [cursor] =>
    if cursor = "default".toList then some (.setCursor id 0)
    else if cursor = "hand".toList then some (.setCursor id 1)
    else if cursor = "text".toList then some (.setCursor id 2)
    else none
  | some .WI, id, [] => some (.redraw id)
  | some .WB, id, [] => some (.beginUpdate id)
  | some .WP, id, [a, b] => do return .write id (← parseUsize a) (← (b.splitOn ';').mapM parseRun)
  | some .WE, id, [] => some (.endUpdate id)
  | _, _, _ => none

theorem reads_iff {line : Str} {r : Request} : Reads line r ↔
    ∃ op id args, address line = some (op, id, args) ∧ fieldsRequest op id args = some r := by
  -- a reading gives its fields back one by one; conversely each branch of `fieldsRequest` is one reading
  constructor
  · intro h
    cases h with
    | create h hx hy hw hh => exact ⟨_, _, _, h, by simp only [fieldsRequest, hx, hy, hw, hh]; rfl⟩
    | move h hx hy => exact ⟨_, _, _, h, by simp only [fieldsRequest, hx, hy]; rfl⟩
    | resize h hw hh => exact ⟨_, _, _, h, by simp only [fieldsRequest, hw, hh]; rfl⟩
    | write h ho hr => exact ⟨_, _, _, h, by simp only [fieldsRequest, ho, hr]; rfl⟩
    | setCursor h hname =>
      refine ⟨_, _, _, h, ?_⟩
      cases hname <;> rfl
    | destroy h | unhide h | hide h | retitle h | redraw h | beginUpdate h | endUpdate h => exact ⟨_, _, _, h, rfl⟩
  · rintro ⟨op, id, args, haddr, h⟩
    unfold fieldsRequest at h
    split at h
    · obtain ⟨x, hx, h⟩ := Option.bind_eq_some_iff.mp h
      obtain ⟨y, hy, h⟩ := Option.bind_eq_some_iff.mp h
      obtain ⟨width, hw, h⟩ := Option.bind_eq_some_iff.mp h
      obtain ⟨height, hh, h⟩ := Option.bind_eq_some_iff.mp h
      cases h
      exact .create haddr hx hy hw hh
    · cases h
      exact .destroy haddr
    · cases h
      exact .unhide haddr
    · cases h
      exact .hide haddr
    · cases h
      exact .retitle haddr
    · obtain ⟨x, hx, h⟩ := Option.bind_eq_some_iff.mp h
      obtain ⟨y, hy, h⟩ := Option.bind_eq_some_iff.mp h
      cases h
      exact .move haddr hx hy
    · obtain ⟨width, hw, h⟩ := Option.bind_eq_some_iff.mp h
      obtain ⟨height, hh, h⟩ := Option.bind_eq_some_iff.mp h
      cases h
      exact .resize haddr hw hh
    · split_ifs at h with hdefault hhand htext
      · cases h
        exact .setCursor haddr (hdefault ▸ .default)
      · cases h
        exact .setCursor haddr (hhand ▸ .hand)
      · cases h
        exact .setCursor haddr (htext ▸ .text)
    · cases h
      exact .redraw haddr
    · cases h
      exact .beginUpdate haddr
    · obtain ⟨offset, ho, h⟩ := Option.bind_eq_some_iff.mp h
      obtain ⟨runs, hr, h⟩ := Option.bind_eq_some_iff.mp h
      cases h
      exact .write haddr ho hr
    · cases h
      exact .endUpdate haddr
    · cases h

variable {s : WindowServer} {r : Request}

theorem validate_of_reads {line : Str} (hs : s.Inv) (h : Reads line r) (ha : r.Allowed s) : s.validate line = true := by
  -- every request but `WC` names a window that is there
  have found : ∀ {id}, id ∈ s.ids → ∃ w, s.windows.find? (fun w => w.id = id) = some w := by
    intro id hid
    obtain ⟨w, hw, rfl⟩ := WindowServer.mem_ids.mp hid
    exact ⟨w, Keyed.find?_of_mem hs.distinct hw⟩
  cases h with
  | @create id a b c d x y width height title haddr hx hy hw hh =>
    obtain ⟨hcount, hnew, hsize, hlen⟩ := ha
    have hnone : s.windows.any (fun w => w.id = id) = false := by
      rw [List.any_eq_false]
      intro w hw
      simpa using fun he => hnew (WindowServer.mem_ids.mpr ⟨w, hw, he⟩)
    simp [WindowServer.validate, haddr, int, hx, hy, hw, hh, hcount, hnone, hsize, hlen]
  | @destroy id haddr | @unhide id haddr | @hide id haddr | @redraw id haddr | @beginUpdate id haddr
  | @endUpdate id haddr =>
    obtain ⟨w, hw⟩ := found (show id ∈ s.ids from ha)
    simp only [WindowServer.validate, haddr]
    rw [hw]
    rfl
  | retitle haddr =>
    obtain ⟨w, hw⟩ := found ha.1
    simp only [WindowServer.validate, haddr]
    rw [hw]
    simpa using ha.2
  | @move id a b x y haddr hx hy =>
    obtain ⟨w, hw⟩ := found (show id ∈ s.ids from ha)
    simp only [WindowServer.validate, haddr]
    rw [hw]
    simp [int, hx, hy]
  | resize haddr hwidth hheight =>
    obtain ⟨w, hw⟩ := found ha.1
    simp only [WindowServer.validate, haddr]
    rw [hw]
    simp [int, hwidth, hheight, ha.2]
  | @setCursor id a cursor haddr hname =>
    obtain ⟨w, hw⟩ := found (show id ∈ s.ids from ha)
    simp only [WindowServer.validate, haddr]
    rw [hw]
    cases hname <;> rfl
  | write haddr ho hr =>
    obtain ⟨w, hw, hid, hup, hpos, hlen⟩ := ha
    subst hid
    exact validate_write hs hw haddr ho hr hup hpos hlen

namespace WindowClient

def safe (text : Str) : Str := (text.filter fun c => decide (' ' ≤ c) && decide (c ≤ '~') && c != '|').take 48

/-- The methods that send a line. `createWindow` comes with the id the counter gave. -/
inductive Method where
  | createWindow (id : UInt32) (title : Str) (x y width height : Int)
  | destroyWindow (id : UInt32)
  | showWindow (id : UInt32)
  | hideWindow (id : UInt32)
  | setTitle (id : UInt32) (title : Str)
  | setSize (id : UInt32) (width height : Int)
  | setPosition (id : UInt32) (x y : Int)
  | invalidate (id : UInt32)
  | setCursor (id : UInt32) (cursor : Str)
deriving DecidableEq, Repr

namespace Method

def id : Method → UInt32
  | createWindow id .. | destroyWindow id | showWindow id | hideWindow id | setTitle id _ | setSize id .. |
    setPosition id .. | invalidate id | setCursor id _ => id

def Ints : Method → Prop
  | createWindow _ _ x y width height => (I32 x ∧ I32 y) ∧ I32 width ∧ I32 height
  | setSize _ width height => I32 width ∧ I32 height
  | setPosition _ x y => I32 x ∧ I32 y
  | _ => True

def op : Method → Op
  | createWindow .. => .WC
  | destroyWindow _ => .WD
  | showWindow _ => .WS
  | hideWindow _ => .WH
  | setTitle .. => .WT
  | setSize .. => .WZ
  | setPosition .. => .WM
  | invalidate _ => .WI
  | setCursor .. => .WK

def args : Method → List Str
  | createWindow _ title x y width height =>
    [decimalInt x, decimalInt y, decimalInt width, decimalInt height, safe title]
  | setTitle _ title => [safe title]
  | setSize _ width height => [decimalInt width, decimalInt height]
  | setPosition _ x y => [decimalInt x, decimalInt y]
  | setCursor _ cursor => [safe cursor]
  | _ => []

end Method

def Op.text : Op → Str
  | .WC => "WC".toList
  | .WD => "WD".toList
  | .WS => "WS".toList
  | .WH => "WH".toList
  | .WT => "WT".toList
  | .WM => "WM".toList
  | .WZ => "WZ".toList
  | .WK => "WK".toList
  | .WI => "WI".toList
  | .WB => "WB".toList
  | .WP => "WP".toList
  | .WE => "WE".toList

namespace Method

def text (m : Method) : Str := ['|'].intercalate (Op.text m.op :: decimal m.id.toNat :: m.args)

/-- `CreateWindowAsync` throws on a size that the server would reject. -/
def throws : Method → Bool
  | createWindow _ _ _ _ width height =>
    decide (width < 80 ∨ 600 < width) || decide (height < 50 ∨ 440 < height)
  | _ => false

def line (m : Method) : Option Str :=
  if m.throws then none else if m.text.units > 380 then none else some m.text

def request : Method → Option Request
  | createWindow id title x y width height => some (.create id x y width height (safe title))
  | destroyWindow id => some (.destroy id)
  | showWindow id => some (.unhide id)
  | hideWindow id => some (.hide id)
  | setTitle id title => some (.retitle id (safe title))
  | setSize id width height => some (.resize id width height)
  | setPosition id x y => some (.move id x y)
  | invalidate id => some (.redraw id)
  | setCursor id cursor =>
    if safe cursor = "default".toList then some (.setCursor id 0)
    else if safe cursor = "hand".toList then some (.setCursor id 1)
    else if safe cursor = "text".toList then some (.setCursor id 2)
    else none

end Method

/-! ## The fields of a line -/

variable {c : Char} {text : Str} {m : Method}

theorem mem_safe (h : c ∈ safe text) : ' ' ≤ c ∧ c ≤ '~' ∧ c ≠ '|' := by
  have hc := (List.mem_filter.mp (List.mem_of_mem_take h)).2
  simp only [Bool.and_eq_true, decide_eq_true_eq, bne_iff_ne] at hc
  exact ⟨hc.1.1, hc.1.2, hc.2⟩

theorem length_safe (text : Str) : (safe text).length ≤ 48 := List.length_take_le _ _

/-- The characters of a line: no control characters, and no bar inside a field. -/
def Plain (s : Str) : Prop := ∀ c ∈ s, ' ' ≤ c ∧ c ≤ '~' ∧ c ≠ '|'

theorem plain_safe (text : Str) : Plain (safe text) := fun _ h => mem_safe h

theorem plain_of_digit (h : c.isDigit = true) : ' ' ≤ c ∧ c ≤ '~' ∧ c ≠ '|' := by
  simp only [Char.isDigit, Bool.and_eq_true, decide_eq_true_eq] at h
  have h0 : 48 ≤ c.toNat := UInt32.le_iff_toNat_le.mp h.1
  have h9 : c.toNat ≤ 57 := UInt32.le_iff_toNat_le.mp h.2
  refine ⟨UInt32.le_iff_toNat_le.mpr (Nat.le_trans (by decide) h0),
    UInt32.le_iff_toNat_le.mpr (Nat.le_trans h9 (by decide)), ?_⟩
  rintro rfl
  exact absurd h9 (by decide)

theorem plain_decimal (n : Nat) : Plain (decimal n) := by
  intro c hc
  exact plain_of_digit ((isDigit_of_magnitude (magnitude_decimal n)).2 c hc)

theorem plain_decimalInt (v : Int) : Plain (decimalInt v) := by
  intro c hc
  rcases mem_decimalInt hc with rfl | hdigit
  · decide
  · exact plain_of_digit hdigit

theorem plain_op (op : Op) : Plain (Op.text op) := by
  cases op <;> exact forall_of_all (by decide)

theorem read_op (op : Op) : Op.read (Op.text op) = some op := by
  cases op <;> rfl

theorem length_op (op : Op) : (Op.text op).length = 2 := by
  cases op <;> rfl

namespace Method

theorem plain_args : ∀ f ∈ m.args, Plain f := by
  have one : ∀ {P : Str → Prop} {a : Str}, P a → ∀ f ∈ [a], P f := by
    intro P a ha f hf
    rwa [List.mem_singleton.mp hf]
  have two : ∀ {P : Str → Prop} {a b : Str}, P a → P b → ∀ f ∈ [a, b], P f := by
    intro P a b ha hb f hf
    rcases List.mem_cons.mp hf with rfl | hf
    · exact ha
    · exact one hb f hf
  cases m with
  | createWindow id title x y width height =>
    intro f hf
    simp only [args, List.mem_cons, List.not_mem_nil, or_false] at hf
    rcases hf with rfl | rfl | rfl | rfl | rfl
    · exact plain_decimalInt x
    · exact plain_decimalInt y
    · exact plain_decimalInt width
    · exact plain_decimalInt height
    · exact plain_safe title
  | setTitle id title => exact one (plain_safe title)
  | setSize id width height => exact two (plain_decimalInt width) (plain_decimalInt height)
  | setPosition id x y => exact two (plain_decimalInt x) (plain_decimalInt y)
  | setCursor id cursor => exact one (plain_safe cursor)
  | destroyWindow | showWindow | hideWindow | invalidate => exact fun f hf => absurd hf List.not_mem_nil

theorem address_text (hid : m.id ≠ 0) : address m.text = some (some m.op, m.id, m.args) := by
  have hop : '|' ∉ Op.text m.op := fun h => (plain_op m.op _ h).2.2 rfl
  unfold text
  rw [address_join hid hop fun f hf h => (plain_args f hf _ h).2.2 rfl, read_op]

theorem reads_text {r : Request} (hid : m.id ≠ 0) (hints : m.Ints) : Reads m.text r ↔ m.request = some r := by
  have hread : fieldsRequest (some m.op) m.id m.args = m.request := by
    cases m with
    | createWindow id title x y width height =>
      simp only [op, args, fieldsRequest, request, Method.id, parseI32_decimalInt hints.1.1,
        parseI32_decimalInt hints.1.2, parseI32_decimalInt hints.2.1, parseI32_decimalInt hints.2.2]
      rfl
    | setSize id width height =>
      simp only [op, args, fieldsRequest, request, Method.id, parseI32_decimalInt hints.1, parseI32_decimalInt hints.2]
      rfl
    | setPosition id x y =>
      simp only [op, args, fieldsRequest, request, Method.id, parseI32_decimalInt hints.1, parseI32_decimalInt hints.2]
      rfl
    | destroyWindow | showWindow | hideWindow | setTitle | invalidate | setCursor => rfl
  rw [reads_iff, address_text hid, ← hread]
  constructor
  · rintro ⟨op, id, args, haddr, hr⟩
    cases haddr
    exact hr
  · exact fun hr => ⟨_, _, _, rfl, hr⟩

/-- A line has two characters of an operation, at most ten digits and at most 93 characters of arguments. -/
theorem length_text (hints : m.Ints) : m.text.length ≤ 120 := by
  have hop := length_op m.op
  have hid := length_decimalU32 m.id
  have hargs : (m.args.map fun a => a.length + 1).sum ≤ 97 := by
    cases m with
    | createWindow id title x y width height =>
      have hx := length_decimalInt hints.1.1
      have hy := length_decimalInt hints.1.2
      have hw := length_decimalInt hints.2.1
      have hh := length_decimalInt hints.2.2
      have ht := length_safe title
      simp only [args, List.map_cons, List.map_nil, List.sum_cons, List.sum_nil]
      omega
    | setSize id a b | setPosition id a b =>
      have ha := length_decimalInt hints.1
      have hb := length_decimalInt hints.2
      simp only [args, List.map_cons, List.map_nil, List.sum_cons, List.sum_nil]
      omega
    | setTitle id text | setCursor id text =>
      have ht := length_safe text
      simp only [args, List.map_cons, List.map_nil, List.sum_cons, List.sum_nil]
      omega
    | destroyWindow | showWindow | hideWindow | invalidate => exact Nat.zero_le _
  have hjoin := length_join '|' (List.cons_ne_nil (Op.text m.op) (decimal m.id.toNat :: m.args))
  simp only [List.map_cons, List.sum_cons] at hjoin
  unfold text
  omega

theorem char_text {c : Char} (h : c ∈ m.text) : ' ' ≤ c ∧ c ≤ '~' := by
  rcases mem_join h with rfl | ⟨f, hf, hc⟩
  · decide
  · have hplain : Plain f := by
      rcases List.mem_cons.mp hf with rfl | hf
      · exact plain_op m.op
      rcases List.mem_cons.mp hf with rfl | hf
      · exact plain_decimal m.id.toNat
      · exact plain_args f hf
    exact ⟨(hplain c hc).1, (hplain c hc).2.1⟩

theorem ascii_text {c : Char} (h : c ∈ m.text) : c.toNat < 128 :=
  Nat.lt_of_le_of_lt (UInt32.le_iff_toNat_le.mp (char_text h).2) (by decide)

theorem not_control {c d : Char} (h : c ∈ m.text) (hd : d < ' ') : c ≠ d := by
  rintro rfl
  exact absurd (char_text h).1 (Char.not_le.mpr hd)

theorem line_eq (hints : m.Ints) : m.line = if m.throws then none else some m.text := by
  have hlen : ¬m.text.units > 380 := by
    rw [units_of_ascii fun c hc => ascii_text hc]
    have := length_text hints
    omega
  unfold line
  rw [if_neg hlen]

end Method

/-- The library and the server agree. Whatever a method is called with, the line it sends fits the line buffer
of the guest, and a reachable server accepts it exactly when its state allows what the method asks for; then it
does exactly that. -/
theorem method_round_trip {line : Str} (hr : WindowServer.Reachable s) (hid : m.id ≠ 0) (hints : m.Ints)
    (hline : m.line = some line) :
    (line.len ≤ 384 ∧ '\r' ∉ line ∧ '\n' ∉ line) ∧
      (s.validate line = true ↔ ∃ r, m.request = some r ∧ r.Allowed s) ∧
      ∀ r, m.request = some r → r.Allowed s →
        ∃ t events, s.command line = .ok (t, events) ∧ t.windows = r.apply s.windows := by
  rw [Method.line_eq hints] at hline
  split_ifs at hline
  cases hline
  refine ⟨⟨?_, fun h => Method.not_control h (by decide) rfl, fun h => Method.not_control h (by decide) rfl⟩, ?_, ?_⟩
  · rw [len_of_ascii fun c hc => Method.ascii_text hc]
    exact Nat.le_trans (Method.length_text hints) (by decide)
  · constructor
    · intro hv
      obtain ⟨r, hread, hallow⟩ := validate_reads hv
      exact ⟨r, (Method.reads_text hid hints).mp hread, hallow⟩
    · rintro ⟨r, hrequest, hallow⟩
      exact validate_of_reads hr.inv ((Method.reads_text hid hints).mpr hrequest) hallow
  · intro r hrequest hallow
    exact command_applies hr.inv ((Method.reads_text hid hints).mpr hrequest) hallow

theorem method_round_trip_title : ∃ line, (Method.setTitle 1 "a|b".toList).line = some line ∧
    WindowServer.single.validate line = true := by
  have hid : (Method.setTitle 1 "a|b".toList).id ≠ 0 := by decide
  have hline : (Method.setTitle 1 "a|b".toList).line = some "WT|1|ab".toList := by decide +kernel
  refine ⟨_, hline, (method_round_trip WindowServer.reachable_single hid trivial hline).2.1.mpr ⟨_, rfl, ?_⟩⟩
  exact ⟨by decide, by decide +kernel⟩

end WindowClient

end Pippin.Client
