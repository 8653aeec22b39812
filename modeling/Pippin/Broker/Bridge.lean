import Pippin.Lib.Text

/-! The guest end of the COM2 line protocol. Bytes arrive in the port between polls; a
poll reads at most 128 of them, collects a line and answers it. -/

namespace Pippin.Broker
open Str

def maxLine : Nat := 384

inductive Reply where
  | A | N | R1 | R2
deriving DecidableEq, Repr

def Reply.text : Reply → Str
  | A => "A".toList
  | N => "N".toList
  | R1 => "R|1".toList
  | R2 => "R|2".toList

/-- The bytes of the current line; past `maxLine` the rest of it is dropped. -/
structure Bridge where
  line : List UInt8
  overflow : Bool
deriving DecidableEq, Repr

namespace Bridge

def new : Bridge := ⟨[], false⟩

variable {σ : Type} (command : σ → Str → Bool × σ)

/-- The handshakes are answered by the bridge itself, every other line by `command`. -/
def answer (state : σ) (line : Str) : σ × Reply :=
  if line = "H|1".toList then (state, .R1)
  else if line = "H|2".toList then (state, .R2)
  else
    match command state line with
    | (true, state) => (state, .A)
    | (false, state) => (state, .N)

def receive (b : Bridge) (state : σ) (byte : UInt8) : Bridge × σ × List Reply :=
  if byte = 10 then
    if b.overflow then (new, state, [])
    else
      match fromUtf8 b.line with
      | some line =>
        let (state, reply) := answer command state line
        (new, state, [reply])
      | none => (new, state, [])
  else if byte ≠ 13 ∧ b.overflow = false then
    if b.line.length < maxLine then ({ b with line := b.line ++ [byte] }, state, [])
    else ({ b with overflow := true }, state, [])
  else (b, state, [])

/-- The bridge, the state behind `command`, the bytes left in the port and the replies. -/
structure Poll (σ : Type) where
  bridge : Bridge
  state : σ
  port : List UInt8
  replies : List Reply

def pollLoop : Nat → Poll σ → Poll σ
  | 0, p => p
  | n + 1, p =>
    match p.port with
    | [] => p
    | byte :: port =>
      let (bridge, state, out) := receive command p.bridge p.state byte
      pollLoop n ⟨bridge, state, port, p.replies ++ out⟩

def poll (p : Poll σ) : Poll σ := pollLoop command 128 p

def polls (p : Poll σ) (arrivals : List (List UInt8)) : Poll σ :=
  arrivals.foldl (fun p bytes => poll command { p with port := p.port ++ bytes }) p

def feed (b : Bridge) (state : σ) : List UInt8 → Bridge × σ × List Reply
  | [] => (b, state, [])
  | byte :: bytes =>
    let (b, state, out) := receive command b state byte
    let (b, state, out') := feed b state bytes
    (b, state, out ++ out')

variable {command} {b : Bridge} {state : σ} {line : Str} {pre bytes : List UInt8}

theorem feed_append (b : Bridge) (state : σ) (xs ys : List UInt8) : feed command b state (xs ++ ys) =
    ((feed command (feed command b state xs).1 (feed command b state xs).2.1 ys).1,
      (feed command (feed command b state xs).1 (feed command b state xs).2.1 ys).2.1,
      (feed command b state xs).2.2 ++
        (feed command (feed command b state xs).1 (feed command b state xs).2.1 ys).2.2) := by
  induction xs generalizing b state with
  | nil => rfl
  | cons x xs ih =>
    simp only [List.cons_append, feed]
    rw [ih, List.append_assoc]

theorem receive_ended (hover : b.overflow = false) (hline : fromUtf8 b.line = some line) :
    receive command b state 10 = (new, (answer command state line).1, [(answer command state line).2]) := by
  unfold receive
  rw [if_pos rfl, if_neg (by rw [hover]; exact Bool.false_ne_true), hline]

theorem receive_cases (command : σ → Str → Bool × σ) (b : Bridge) (byte : UInt8) :
    (byte = 10 ∧ b.overflow = false ∧ ∃ line, fromUtf8 b.line = some line) ∨
      ∃ b', ∀ state, receive command b state byte = (b', state, []) := by
  by_cases hend : byte = 10
  · cases hover : b.overflow with
    | true => exact Or.inr ⟨new, fun state => by rw [receive, if_pos hend, if_pos hover]⟩
    | false =>
      cases hline : fromUtf8 b.line with
      | some line => exact Or.inl ⟨hend, rfl, line, rfl⟩
      | none =>
        refine Or.inr ⟨new, fun state => ?_⟩
        rw [receive, if_pos hend, if_neg (by rw [hover]; exact Bool.false_ne_true), hline]
  · refine Or.inr ⟨(receive (fun (_ : Unit) _ => (true, ())) b () byte).1, fun state => ?_⟩
    unfold receive
    rw [if_neg hend, if_neg hend]
    split
    · split <;> rfl
    · rfl

theorem answer_cases (command : σ → Str → Bool × σ) (line : Str) :
    (∃ reply, ∀ state, answer command state line = (state, reply)) ∨
    ∀ state, (answer command state line).1 = (command state line).2 := by
  by_cases h₁ : line = "H|1".toList
  · exact Or.inl ⟨.R1, fun state => by rw [answer, if_pos h₁]⟩
  · by_cases h₂ : line = "H|2".toList
    · exact Or.inl ⟨.R2, fun state => by rw [answer, if_neg h₁, if_pos h₂]⟩
    · refine Or.inr fun state => ?_
      rw [answer, if_neg h₁, if_neg h₂]
      split <;> rename_i hcommand <;> rw [hcommand]

/-! ## Polls read the bytes in order -/

def Feeds (command : σ → Str → Bool × σ) (p q : Poll σ) (bytes : List UInt8) : Prop :=
  (q.bridge, q.state, q.replies) = ((feed command p.bridge p.state bytes).1,
    (feed command p.bridge p.state bytes).2.1, p.replies ++ (feed command p.bridge p.state bytes).2.2)

theorem Feeds.trans {p q r : Poll σ} {xs ys : List UInt8} (h : Feeds command p q xs) (h' : Feeds command q r ys) :
    Feeds command p r (xs ++ ys) := by
  simp only [Feeds, Prod.mk.injEq] at h h' ⊢
  obtain ⟨h1, h2, h3⟩ := h
  rw [h1, h2, h3] at h'
  rw [feed_append]
  exact ⟨h'.1, h'.2.1, by rw [h'.2.2, List.append_assoc]⟩

theorem pollLoop_feeds (n : Nat) (p : Poll σ) :
    Feeds command p (pollLoop command n p) (p.port.take n) ∧ (pollLoop command n p).port = p.port.drop n := by
  induction n generalizing p with
  | zero => exact ⟨by simp [Feeds, feed, pollLoop], rfl⟩
  | succ n ih =>
    unfold pollLoop
    cases hport : p.port with
    | nil => exact ⟨by simp [Feeds, feed], hport⟩
    | cons byte port =>
      dsimp only
      obtain ⟨h1, h2⟩ := ih ⟨(receive command p.bridge p.state byte).1, (receive command p.bridge p.state byte).2.1,
        port, p.replies ++ (receive command p.bridge p.state byte).2.2⟩
      refine ⟨?_, h2⟩
      rw [List.take_succ_cons, ← List.singleton_append]
      refine Feeds.trans ?_ h1
      simp [Feeds, feed]

theorem polls_feeds (p : Poll σ) (arrivals : List (List UInt8)) : ∃ read,
    Feeds command p (polls command p arrivals) read ∧
      read ++ (polls command p arrivals).port = p.port ++ arrivals.flatten := by
  induction arrivals generalizing p with
  | nil => exact ⟨[], by simp [Feeds, feed, polls], by simp [polls]⟩
  | cons bytes arrivals ih =>
    let p' : Poll σ := { p with port := p.port ++ bytes }
    obtain ⟨h1, h2⟩ := @pollLoop_feeds σ command 128 p'
    obtain ⟨read, hr, hport⟩ := ih (poll command p')
    refine ⟨p'.port.take 128 ++ read, Feeds.trans h1 hr, ?_⟩
    show p'.port.take 128 ++ read ++ (polls command (poll command p') arrivals).port = _
    rw [List.append_assoc, hport, show (poll command p').port = p'.port.drop 128 from h2, ← List.append_assoc,
      List.take_append_drop, List.flatten_cons, List.append_assoc]

theorem polls_drained {p : Poll σ} {arrivals : List (List UInt8)} (hp : p.port = [])
    (h : ∀ bytes ∈ arrivals, bytes.length ≤ 128) : (polls command p arrivals).port = [] := by
  induction arrivals generalizing p with
  | nil => exact hp
  | cons bytes arrivals ih =>
    refine ih ?_ fun c hc => h c (List.mem_cons_of_mem _ hc)
    refine (pollLoop_feeds 128 _).2.trans ?_
    dsimp only
    rw [hp, List.nil_append]
    exact List.drop_eq_nil_of_le (h bytes List.mem_cons_self)

/-! ## One line -/

theorem feed_dropped (h : ∀ x ∈ bytes, x ≠ 10) : feed command ⟨pre, true⟩ state bytes = (⟨pre, true⟩, state, []) := by
  induction bytes with
  | nil => rfl
  | cons x bytes ih =>
    have hx : receive command ⟨pre, true⟩ state x = (⟨pre, true⟩, state, []) := by
      unfold receive
      rw [if_neg (h x List.mem_cons_self), if_neg (by simp)]
    rw [feed, hx]
    dsimp only
    rw [ih fun y hy => h y (List.mem_cons_of_mem _ hy)]
    rfl

theorem feed_collected (hpre : pre.length ≤ maxLine) (h : ∀ x ∈ bytes, x ≠ 10 ∧ x ≠ 13) :
    feed command ⟨pre, false⟩ state bytes =
      (⟨(pre ++ bytes).take maxLine, decide (maxLine < (pre ++ bytes).length)⟩, state, []) := by
  induction bytes generalizing pre with
  | nil =>
    rw [List.append_nil, List.take_of_length_le hpre, decide_eq_false (by omega)]
    rfl
  | cons x bytes ih =>
    obtain ⟨h10, h13⟩ := h x List.mem_cons_self
    have hrest : ∀ y ∈ bytes, y ≠ 10 ∧ y ≠ 13 := fun y hy => h y (List.mem_cons_of_mem _ hy)
    by_cases hfull : pre.length < maxLine
    · have hx : receive command ⟨pre, false⟩ state x = (⟨pre ++ [x], false⟩, state, []) := by
        unfold receive
        rw [if_neg h10, if_pos ⟨h13, rfl⟩, if_pos hfull]
      have hlen : (pre ++ [x]).length ≤ maxLine := by
        rw [List.length_append, List.length_singleton]
        omega
      rw [feed, hx]
      dsimp only
      rw [ih hlen hrest, List.append_assoc, List.singleton_append]
      rfl
    · have hx : receive command ⟨pre, false⟩ state x = (⟨pre, true⟩, state, []) := by
        unfold receive
        rw [if_neg h10, if_pos ⟨h13, rfl⟩, if_neg hfull]
      have hlen : pre.length = maxLine := by omega
      rw [feed, hx]
      dsimp only
      rw [feed_dropped fun y hy => (hrest y hy).1, ← hlen, List.take_left, List.length_append, List.length_cons,
        decide_eq_true (by omega)]
      rfl

theorem bytes_plain (hcr : '\r' ∉ line) (hlf : '\n' ∉ line) : ∀ x ∈ line.bytes, x ≠ 10 ∧ x ≠ 13 := by
  intro x hx
  obtain ⟨c, hc, hx⟩ := List.mem_flatMap.mp hx
  constructor
  · rintro rfl
    obtain rfl : c = '\n' := Char.toNat_inj.mp (ascii_of_mem_utf8EncodeChar hx (by decide))
    exact hlf hc
  · rintro rfl
    obtain rfl : c = '\r' := Char.toNat_inj.mp (ascii_of_mem_utf8EncodeChar hx (by decide))
    exact hcr hc

/-- A line within the limit gets the one answer it should have, a longer one gets none;
both leave the bridge ready for the next line. -/
theorem feed_line (hcr : '\r' ∉ line) (hlf : '\n' ∉ line) : feed command new state (line.bytes ++ [10]) =
    if line.len ≤ maxLine then (new, (answer command state line).1, [(answer command state line).2])
    else (new, state, []) := by
  rw [feed_append, new, feed_collected (Nat.zero_le _) (bytes_plain hcr hlf)]
  simp only [List.nil_append, feed, List.append_nil]
  show _ = if line.bytes.length ≤ maxLine then _ else _
  by_cases hlen : line.bytes.length ≤ maxLine
  · rw [if_pos hlen, List.take_of_length_le hlen, decide_eq_false (Nat.not_lt.mpr hlen)]
    unfold receive
    rw [fromUtf8_bytes]
    rfl
  · rw [if_neg hlen, decide_eq_true (Nat.lt_of_not_le hlen)]
    rfl

structure Forwardable (line : Str) : Prop where
  units : line.units ≤ 380
  cr : '\r' ∉ line
  lf : '\n' ∉ line

/-- However the bytes of the line arrive, once they are read there is exactly one reply and
`command` ran at most once, on that line. -/
def Answered (line : Str) : Prop :=
  ∀ (σ : Type) (command : σ → Str → Bool × σ) (state : σ) (arrivals : List (List UInt8)),
    arrivals.flatten = line.bytes ++ [10] → (polls command ⟨new, state, [], []⟩ arrivals).port = [] →
    (∃ reply, (polls command ⟨new, state, [], []⟩ arrivals).replies = [reply]) ∧
    ((polls command ⟨new, state, [], []⟩ arrivals).state = state ∨
      (polls command ⟨new, state, [], []⟩ arrivals).state = (command state line).2)

theorem answer_state :
    (answer command state line).1 = state ∨ (answer command state line).1 = (command state line).2 := by
  rcases answer_cases command line with ⟨reply, h⟩ | h
  · exact Or.inl (by rw [h])
  · exact Or.inr (h state)

theorem polls_line {arrivals : List (List UInt8)} (hbytes : arrivals.flatten = line.bytes ++ [10])
    (hport : (polls command ⟨new, state, [], []⟩ arrivals).port = []) :
    Feeds command ⟨new, state, [], []⟩ (polls command ⟨new, state, [], []⟩ arrivals) (line.bytes ++ [10]) := by
  obtain ⟨read, hr, hread⟩ := @polls_feeds σ command ⟨new, state, [], []⟩ arrivals
  rw [hport, List.append_nil, List.nil_append, hbytes] at hread
  exact hread ▸ hr

/-- A forwarded line is answered exactly when its UTF-8 encoding fits the line buffer. -/
theorem line_answered (h : Forwardable line) : Answered line ↔ line.len ≤ 384 := by
  constructor
  · intro ha
    by_contra hlen
    let arrivals := (line.bytes ++ [10]).map fun b => [b]
    have hport : (polls (fun _ _ => (true, ())) ⟨new, (), [], []⟩ arrivals).port = [] :=
      polls_drained rfl fun c hc => by
        obtain ⟨b, -, rfl⟩ := List.mem_map.mp hc
        exact Nat.le_of_ble_eq_true rfl
    have hbytes : arrivals.flatten = line.bytes ++ [10] := by simp [arrivals, ← List.flatMap_def]
    obtain ⟨reply, hreply⟩ := (ha Unit (fun _ _ => (true, ())) () arrivals hbytes hport).1
    have hfeeds := polls_line hbytes hport
    simp only [Feeds, feed_line h.cr h.lf, if_neg (show ¬line.len ≤ maxLine from hlen), Prod.mk.injEq] at hfeeds
    rw [hreply] at hfeeds
    cases hfeeds.2.2
  · intro hlen σ command state arrivals hbytes hport
    have hfeeds := polls_line hbytes hport
    simp only [Feeds, feed_line h.cr h.lf, if_pos (show line.len ≤ maxLine from hlen), Prod.mk.injEq] at hfeeds
    obtain ⟨-, hstate, hreplies⟩ := hfeeds
    refine ⟨⟨_, hreplies⟩, ?_⟩
    rw [hstate]
    exact answer_state

theorem line_answered_show : Answered "WS|1".toList :=
  (line_answered ⟨by decide, by decide, by decide⟩).mpr (by decide)

def longTitle : Str := "WT|1|".toList ++ List.replicate 128 '€'

theorem long_title_unanswered : ¬∀ line, Forwardable line → Answered line := by
  intro h
  have hf : Forwardable longTitle := ⟨by decide +kernel, by decide +kernel, by decide +kernel⟩
  exact absurd ((line_answered hf).mp (h _ hf)) (by decide +kernel)

end Bridge

end Pippin.Broker
