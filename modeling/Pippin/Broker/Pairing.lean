import Pippin.Broker.Isolation

/-! The broker, the guest and the two channels between them. Replies carry no number: the
numbers on the lines here are ghosts, which say what line a reply answers. -/

namespace Pippin.Broker
open Str

variable {σ κ : Type}

/-- The broker says hello, waits for the answer, is free, or waits for the reply to a
client's line; the lock admits one client at a time. -/
inductive Phase (κ : Type) where
  | start
  | awaiting (n : Nat)
  | ready
  | waiting (client : κ) (n : Nat)

/-- A line from the guest with the number of the line it answers. -/
abbrev Answer := Option Nat × Str

structure Net (σ κ : Type) where
  guest : σ
  toGuest : List (Nat × Str)
  fromGuest : List Answer
  acknowledgements : List Answer
  phase : Phase κ
  sent : Nat
  handled : List (Nat × Bool)
  consumed : List (Nat × Answer)

inductive Action (σ κ : Type) where
  | hello
  | timeout
  | readHello
  | poll
  | input (guest : σ)
  | action (text : Str)
  | event (text : Str)
  | readLine
  | forward (client : κ) (line : Str)
  | readReply

def Reply.verdict : Reply → Option Bool
  | A => some true
  | N => some false
  | _ => none

def isEvent (text : Str) : Bool := text.take 3 == "EV|".toList

namespace Net

def new (guest : σ) : Net σ κ := ⟨guest, [], [], [], .start, 0, [], []⟩

def write (s : Net σ κ) (line : Str) (phase : Phase κ) : Net σ κ :=
  { s with toGuest := s.toGuest ++ [(s.sent, line)], sent := s.sent + 1, phase }

/-- The bridge reads line `n` and writes its reply, if it has one. -/
def answer (command : σ → Str → Bool × σ) (s : Net σ κ) (n : Nat) (line : Str) : Net σ κ :=
  let (_, guest, replies) := Bridge.feed command .new s.guest (line.bytes ++ [10])
  { s with guest
           fromGuest := s.fromGuest ++ replies.map fun r => (some n, r.text)
           handled := s.handled ++ (replies.filterMap Reply.verdict).map fun b => (n, b) }

/-- Lines for the guest are those that `ReadLineAsync` and `SendGuestAsync` let through. -/
def forwardable (line : Str) : Bool := sendable line && !line.contains '\r' && !line.contains '\n'

def step (command : σ → Str → Bool × σ) (s : Net σ κ) : Action σ κ → Option (Net σ κ)
  | .hello =>
    match s.phase with
    | .start => some (s.write "H|2".toList (.awaiting s.sent))
    | _ => none
  | .timeout =>
    match s.phase with
    | .awaiting _ => some { s with phase := .start }
    | _ => none
  | .readHello =>
    match s.phase, s.acknowledgements with
    | .awaiting _, (_, text) :: rest =>
      some { s with acknowledgements := rest, phase := if text = "R|2".toList then .ready else .start }
    | _, _ => none
  | .poll =>
    match s.toGuest with
    | (n, line) :: rest => some (answer command { s with toGuest := rest } n line)
    | [] => none
  | .input guest => some { s with guest }
  | .action text => some { s with fromGuest := s.fromGuest ++ [(none, "E|".toList ++ text)] }
  | .event text => some { s with fromGuest := s.fromGuest ++ [(none, "EV|".toList ++ text)] }
  | .readLine =>
    match s.fromGuest with
    | line :: rest =>
      if isEvent line.2 then some { s with fromGuest := rest }
      else some { s with fromGuest := rest, acknowledgements := s.acknowledgements ++ [line] }
    | [] => none
  | .forward client line =>
    match s.phase with
    | .ready => if forwardable line then some (s.write line (.waiting client s.sent)) else none
    | _ => none
  | .readReply =>
    match s.phase, s.acknowledgements with
    | .waiting _ n, reply :: rest =>
      some { s with acknowledgements := rest, phase := .ready, consumed := s.consumed ++ [(n, reply)] }
    | _, _ => none

/-- Runs whose actions all satisfy `ok`. -/
inductive Run (command : σ → Str → Bool × σ) (ok : Action σ κ → Prop) : Net σ κ → Prop where
  | new (guest : σ) : Run command ok (new guest)
  | step {s t : Net σ κ} (a : Action σ κ) (hs : Run command ok s) (ha : ok a) (h : s.step command a = some t) :
      Run command ok t

/-- The reply to line `n` is the guest's own, and says whether the guest ran it. -/
def Replied (s : Net σ κ) (n : Nat) (reply : Answer) : Prop :=
  ∃ b, reply = (some n, (if b then Reply.A else Reply.N).text) ∧ ∀ b', (n, b') ∈ s.handled ↔ b' = b

def toldOk (reply : Answer) : Bool := reply.2 == "A".toList

/-- Every reply that was read is the reply to the line it was read for, and the client is told
`OK` just when the guest ran it. -/
def Paired (s : Net σ κ) : Prop :=
  ∀ p ∈ s.consumed, s.Replied p.1 p.2 ∧ (toldOk p.2 = true ↔ (p.1, true) ∈ s.handled)

/-- No hello times out, the guest sends no action, and no client says hello. -/
def Orderly : Action σ κ → Prop
  | .timeout => False
  | .action _ => False
  | .forward _ line => line ≠ "H|1".toList ∧ line ≠ "H|2".toList
  | _ => True

/-! ## One exchange at a time -/

variable {command : σ → Str → Bool × σ} {s t : Net σ κ} {n : Nat} {line : Str}

def pending (s : Net σ κ) : List Answer := s.acknowledgements ++ s.fromGuest.filter fun l => !isEvent l.2

/-- The line of the current exchange is on its way, has its answer on its way, or got none. -/
inductive Exchange (s : Net σ κ) (client : κ) (n : Nat) : Prop where
  | sent (line : Str) (hline : forwardable line = true) (hhello : line ≠ "H|1".toList ∧ line ≠ "H|2".toList)
      (hto : s.toGuest = [(n, line)]) (hpending : s.pending = []) (hnew : ∀ p ∈ s.handled, p.1 < n)
  | answered (reply : Answer) (hto : s.toGuest = []) (hpending : s.pending = [reply]) (hreply : s.Replied n reply)
  | dropped (hto : s.toGuest = []) (hpending : s.pending = [])

def Synced (s : Net σ κ) : Prop :=
  match s.phase with
  | .start | .ready => s.toGuest = [] ∧ s.pending = []
  | .awaiting n => (s.toGuest = [(n, "H|2".toList)] ∧ s.pending = []) ∨
      (s.toGuest = [] ∧ s.pending = [(some n, "R|2".toList)])
  | .waiting client n => n < s.sent ∧ (∀ p ∈ s.consumed, p.1 < n) ∧ s.Exchange client n

structure Inv (s : Net σ κ) : Prop where
  handled : ∀ p ∈ s.handled, p.1 < s.sent
  consumed : ∀ p ∈ s.consumed, p.1 < s.sent
  replied : ∀ p ∈ s.consumed, s.Replied p.1 p.2
  synced : s.Synced

theorem feed_hello (guest : σ) :
    Bridge.feed command .new guest (bytes "H|2".toList ++ [10]) = (.new, guest, [.R2]) := by
  rw [Bridge.feed_line (by decide) (by decide), if_pos (by decide)]
  rfl

theorem answer_hello : s.answer command n "H|2".toList =
    { s with fromGuest := s.fromGuest ++ [(some n, "R|2".toList)] } := by
  unfold answer
  rw [feed_hello]
  simp [Reply.verdict, Reply.text]

theorem answer_command (hline : forwardable line = true) (hhello : line ≠ "H|1".toList ∧ line ≠ "H|2".toList) :
    (∃ guest b, s.answer command n line = { s with
      guest
      fromGuest := s.fromGuest ++ [(some n, (if b then Reply.A else Reply.N).text)]
      handled := s.handled ++ [(n, b)] }) ∨ s.answer command n line = s := by
  simp only [forwardable, Bool.and_eq_true, Bool.not_eq_true', List.contains_eq_mem, decide_eq_false_iff_not] at hline
  unfold answer
  rw [Bridge.feed_line hline.1.2 hline.2]
  by_cases hlen : line.len ≤ maxLine
  · rw [if_pos hlen]
    refine Or.inl ⟨(Bridge.answer command s.guest line).1, (command s.guest line).1, ?_⟩
    have hreply : (Bridge.answer command s.guest line).2 = if (command s.guest line).1 then .A else .N := by
      unfold Bridge.answer
      rw [if_neg hhello.1, if_neg hhello.2]
      split <;> rename_i h <;> rw [h] <;> rfl
    rw [hreply]
    cases (command s.guest line).1 <;> rfl
  · rw [if_neg hlen]
    exact Or.inr (by simp)

/-! ## Steps -/

theorem Inv.quiet (hs : s.Inv) (hto : t.toGuest = s.toGuest) (hpending : t.pending = s.pending)
    (hphase : t.phase = s.phase) (hsent : t.sent = s.sent) (hhandled : t.handled = s.handled)
    (hconsumed : t.consumed = s.consumed) : t.Inv := by
  have hreplied : ∀ n reply, t.Replied n reply ↔ s.Replied n reply := by
    intro n reply
    unfold Replied
    rw [hhandled]
  refine ⟨by rw [hhandled, hsent]; exact hs.handled, by rw [hconsumed, hsent]; exact hs.consumed, ?_, ?_⟩
  · intro p hp
    rw [hconsumed] at hp
    exact (hreplied _ _).mpr (hs.replied p hp)
  · have hsync := hs.synced
    unfold Synced at hsync ⊢
    rw [hphase]
    split at hsync
    · rwa [hto, hpending]
    · rwa [hto, hpending]
    · rwa [hto, hpending]
    · obtain ⟨hn, hless, hex⟩ := hsync
      rw [hsent, hconsumed]
      refine ⟨hn, hless, ?_⟩
      cases hex with
      | sent line hline hhello hto' hp hnew =>
        exact .sent line hline hhello (hto.trans hto') (hpending.trans hp) (by rwa [hhandled])
      | answered reply hto' hp hreply =>
        exact .answered reply (hto.trans hto') (hpending.trans hp) ((hreplied _ _).mpr hreply)
      | dropped hto' hp => exact .dropped (hto.trans hto') (hpending.trans hp)

theorem pending_event {l : Answer} (hf : t.fromGuest = s.fromGuest ++ [l])
    (ha : t.acknowledgements = s.acknowledgements) (hl : isEvent l.2 = true) : t.pending = s.pending := by
  unfold pending
  rw [hf, ha, List.filter_append]
  simp [hl]

theorem pending_answer {l : Answer} (hf : t.fromGuest = s.fromGuest ++ [l])
    (ha : t.acknowledgements = s.acknowledgements) (hl : isEvent l.2 = false) (hs : s.pending = []) :
    t.pending = [l] := by
  unfold pending at hs ⊢
  rw [hf, ha, List.filter_append, ← List.append_assoc, hs]
  simp [hl]

theorem pending_readLine {l : Answer} {rest : List Answer} (h : s.fromGuest = l :: rest) :
    pending { s with fromGuest := rest, acknowledgements := if isEvent l.2 then s.acknowledgements
      else s.acknowledgements ++ [l] } = s.pending := by
  unfold pending
  dsimp only
  rw [h]
  cases he : isEvent l.2 <;> simp [he]

theorem Replied.handle {m : Nat} {reply : Answer} {b : Bool} (h : s.Replied m reply) (hne : m ≠ n)
    (ht : t.handled = s.handled ++ [(n, b)]) : t.Replied m reply := by
  obtain ⟨b', hreply, hb⟩ := h
  refine ⟨b', hreply, fun c => ?_⟩
  rw [ht, List.mem_append, hb, List.mem_singleton, Prod.mk.injEq]
  exact ⟨fun h => h.resolve_right fun h => hne h.1, Or.inl⟩

theorem replied_new {b : Bool} (hnew : ∀ p ∈ s.handled, p.1 < n) (ht : t.handled = s.handled ++ [(n, b)]) :
    t.Replied n (some n, (if b then Reply.A else Reply.N).text) := by
  refine ⟨b, rfl, fun c => ?_⟩
  rw [ht, List.mem_append, List.mem_singleton, Prod.mk.injEq]
  exact ⟨fun h => h.elim (fun h => absurd (hnew _ h) (Nat.lt_irrefl n)) And.right, fun h => Or.inr ⟨rfl, h⟩⟩

theorem Inv.poll (hs : s.Inv) {rest : List (Nat × Str)} (hto : s.toGuest = (n, line) :: rest) :
    (answer command { s with toGuest := rest } n line).Inv := by
  have hsync := hs.synced
  unfold Synced at hsync
  split at hsync
  · rw [hto] at hsync
    cases hsync.1
  · rw [hto] at hsync
    cases hsync.1
  -- only an unanswered handshake or an unanswered line can be polled
  · rename_i m hphase
    rcases hsync with ⟨h1, h2⟩ | ⟨h1, -⟩
    · rw [hto] at h1
      cases h1
      rw [answer_hello]
      refine ⟨hs.handled, hs.consumed, hs.replied, ?_⟩
      unfold Synced
      dsimp only
      rw [hphase]
      exact Or.inr ⟨rfl, pending_answer (s := s) rfl rfl rfl h2⟩
    · rw [hto] at h1
      cases h1
  · rename_i client m hphase
    obtain ⟨hn, hless, hex⟩ := hsync
    cases hex with
    | sent line' hline hhello hto' hpending hnew =>
      rw [hto] at hto'
      cases hto'
      -- the bridge answers the line, or drops one that it cannot hold
      rcases @answer_command σ κ command { s with toGuest := [] } n line hline hhello with ⟨guest, b, he⟩ | he
      · rw [he]
        refine ⟨fun p hp => ?_, hs.consumed, fun p hp => ?_, ?_⟩
        · rcases List.mem_append.mp hp with hp | hp
          · exact hs.handled p hp
          · cases List.mem_singleton.mp hp
            exact hn
        · exact (hs.replied p hp).handle (Nat.ne_of_lt (hless p hp)) rfl
        · unfold Synced
          dsimp only
          rw [hphase]
          refine ⟨hn, hless, .answered _ rfl (pending_answer (s := s) rfl rfl ?_ hpending) (replied_new hnew rfl)⟩
          cases b <;> rfl
      · rw [he]
        refine ⟨hs.handled, hs.consumed, hs.replied, ?_⟩
        unfold Synced
        dsimp only
        rw [hphase]
        exact ⟨hn, hless, .dropped rfl hpending⟩
    | answered reply hto' =>
      rw [hto] at hto'
      cases hto'
    | dropped hto' =>
      rw [hto] at hto'
      cases hto'

theorem Inv.write (hs : s.Inv) {phase : Phase κ} (hsync : (s.write line phase).Synced) : (s.write line phase).Inv :=
  ⟨fun p hp => Nat.lt_succ_of_lt (hs.handled p hp), fun p hp => Nat.lt_succ_of_lt (hs.consumed p hp), hs.replied, hsync⟩

theorem pending_cons {l : Answer} {rest : List Answer} (h : s.acknowledgements = l :: rest) :
    s.pending = l :: pending { s with acknowledgements := rest } := by
  unfold pending
  rw [h]
  rfl

/-! One lemma for each action that changes the exchange, at the phase it needs. -/

theorem Inv.idle (hs : s.Inv) (hphase : s.phase = .start ∨ s.phase = .ready) : s.toGuest = [] ∧ s.pending = [] := by
  have hsync := hs.synced
  unfold Synced at hsync
  rcases hphase with hphase | hphase
  · rw [hphase] at hsync
    exact hsync
  · rw [hphase] at hsync
    exact hsync

theorem Inv.hello (hs : s.Inv) (hphase : s.phase = .start) : (s.write "H|2".toList (.awaiting s.sent)).Inv := by
  obtain ⟨hto, hpending⟩ := hs.idle (Or.inl hphase)
  refine hs.write (Or.inl ⟨?_, hpending⟩)
  rw [Net.write, hto]
  rfl

theorem Inv.readHello (hs : s.Inv) {tag : Option Nat} {text : Str} {rest : List Answer}
    (hphase : s.phase = .awaiting n) (hacks : s.acknowledgements = (tag, text) :: rest) :
    ({ s with acknowledgements := rest, phase := if text = "R|2".toList then .ready else .start } : Net σ κ).Inv := by
  have hsync := hs.synced
  unfold Synced at hsync
  rw [hphase] at hsync
  rcases hsync with ⟨-, hp⟩ | ⟨hto, hp⟩
  · rw [pending_cons hacks] at hp
    cases hp
  · rw [pending_cons hacks, List.cons.injEq] at hp
    obtain ⟨hl, hp⟩ := hp
    cases hl
    exact ⟨hs.handled, hs.consumed, hs.replied, hto, hp⟩

theorem Inv.forward (hs : s.Inv) (client : κ) (hphase : s.phase = .ready) (hline : forwardable line = true)
    (hhello : line ≠ "H|1".toList ∧ line ≠ "H|2".toList) : (s.write line (.waiting client s.sent)).Inv := by
  obtain ⟨hto, hpending⟩ := hs.idle (Or.inr hphase)
  refine hs.write ⟨Nat.lt_succ_self _, hs.consumed, .sent line hline hhello ?_ hpending hs.handled⟩
  rw [Net.write, hto]
  rfl

theorem Inv.readReply (hs : s.Inv) {client : κ} {reply : Answer} {rest : List Answer}
    (hphase : s.phase = .waiting client n) (hacks : s.acknowledgements = reply :: rest) :
    ({ s with acknowledgements := rest, phase := .ready, consumed := s.consumed ++ [(n, reply)] } : Net σ κ).Inv := by
  have hsync := hs.synced
  unfold Synced at hsync
  rw [hphase] at hsync
  obtain ⟨hn, -, hex⟩ := hsync
  cases hex with
  | sent _ _ _ _ hp =>
    rw [pending_cons hacks] at hp
    cases hp
  | dropped _ hp =>
    rw [pending_cons hacks] at hp
    cases hp
  | answered reply' hto hp hreply =>
    rw [pending_cons hacks, List.cons.injEq] at hp
    obtain ⟨rfl, hp⟩ := hp
    refine ⟨hs.handled, ?_, ?_, hto, hp⟩
    · exact List.forall_mem_append.mpr ⟨hs.consumed, List.forall_mem_singleton.mpr hn⟩
    · exact List.forall_mem_append.mpr ⟨hs.replied, List.forall_mem_singleton.mpr hreply⟩

theorem Inv.step (hs : s.Inv) (a : Action σ κ) (ha : Orderly a) (h : s.step command a = some t) : t.Inv := by
  unfold Net.step at h
  -- what only adds input or events leaves the phase and every acknowledgement alone
  cases a with
  | hello =>
    dsimp only at h
    split at h
    · rename_i hphase
      cases h
      exact hs.hello hphase
    · cases h
  -- an orderly run has neither timeouts nor actions
  | timeout => exact ha.elim
  | readHello =>
    dsimp only at h
    split at h
    · rename_i hphase hacks
      cases h
      exact hs.readHello hphase hacks
    · cases h
  | poll =>
    dsimp only at h
    split at h
    · rename_i hto
      cases h
      exact hs.poll hto
    · cases h
  | input guest =>
    cases h
    exact hs.quiet rfl rfl rfl rfl rfl rfl
  | action text => exact ha.elim
  | event text =>
    cases h
    exact hs.quiet rfl (pending_event (s := s) rfl rfl rfl) rfl rfl rfl rfl
  | readLine =>
    dsimp only at h
    split at h
    · rename_i l rest hfrom
      have hp := pending_readLine hfrom
      split at h
      all_goals
        rename_i he
        cases h
        refine hs.quiet rfl ?_ rfl rfl rfl rfl
        simpa [he] using hp
    · cases h
  | forward client line =>
    dsimp only at h
    split at h
    · rename_i hphase
      split at h
      · rename_i hline
        cases h
        exact hs.forward client hphase hline ha
      · cases h
    · cases h
  | readReply =>
    dsimp only at h
    split at h
    · rename_i hphase hacks
      cases h
      exact hs.readReply hphase hacks
    · cases h

theorem inv_new (guest : σ) : (new guest : Net σ κ).Inv := ⟨nofun, nofun, nofun, rfl, rfl⟩

theorem Run.inv (h : Run command Orderly s) : s.Inv := by
  induction h with
  | new guest => exact inv_new guest
  | step a _ ha h ih => exact ih.step a ha h

theorem Replied.toldOk_iff {reply : Answer} (h : s.Replied n reply) : toldOk reply = true ↔ (n, true) ∈ s.handled := by
  obtain ⟨b, rfl, hb⟩ := h
  rw [hb]
  cases b <;> simp [toldOk, Reply.text]

/-- Broker reply pairing, in orderly runs. -/
theorem reply_pairing (h : Run command Orderly s) : s.Paired :=
  fun p hp => ⟨h.inv.replied p hp, (h.inv.replied p hp).toldOk_iff⟩

/-! ## Two runs -/

theorem run_ready {ok : Action σ κ → Prop} (hok : ok .hello ∧ ok .poll ∧ ok .readLine ∧ ok .readHello) (guest : σ) :
    Run command ok ⟨guest, [], [], [], .ready, 1, [], []⟩ := by
  have h₁ : Run command ok ((new guest).write "H|2".toList (.awaiting 0)) := .step .hello (.new guest) hok.1 rfl
  have h₂ := h₁.step .poll hok.2.1 rfl
  rw [answer_hello] at h₂
  exact (h₂.step .readLine hok.2.2.1 rfl).step .readHello hok.2.2.2 rfl

theorem reply_pairing_show : ∃ s : Net (Checked Native.Compositor) Unit, Run guestCommand Orderly s ∧
    s.consumed = [(1, some 1, "A".toList)] ∧ s.Paired := by
  have hready : Run guestCommand Orderly (⟨.ok oneClient, [], [], [], .ready, 1, [], []⟩ : Net _ Unit) :=
    run_ready ⟨trivial, trivial, trivial, trivial⟩ _
  have hreply : (Bridge.answer guestCommand (.ok oneClient) "WS|1".toList).2 = .A := by decide +kernel
  have h₁ := hready.step (.forward () "WS|1".toList) ⟨by decide, by decide⟩ rfl
  have h₂ := h₁.step .poll trivial rfl
  unfold answer at h₂
  simp only [write] at h₂
  rw [Bridge.feed_line (by decide) (by decide), if_pos (by decide), hreply] at h₂
  have h₃ := (h₂.step .readLine trivial rfl).step .readReply trivial rfl
  exact ⟨_, h₃, rfl, reply_pairing h₃⟩

/-- The second hello is answered too, and its answer is read for the first command. -/
theorem late_hello_consumed : ¬∀ s : Net (Checked Native.Compositor) Unit,
    Run guestCommand (fun _ => True) s → s.Paired := by
  intro h
  have h₁ : Run guestCommand (fun _ => True)
      ((new (.ok oneClient)).write "H|2".toList (.awaiting 0) : Net (Checked Native.Compositor) Unit) :=
    .step .hello (.new _) trivial rfl
  have h₂ := ((h₁.step .timeout trivial rfl).step .hello trivial rfl).step .poll trivial rfl
  rw [answer_hello] at h₂
  have h₃ := h₂.step .poll trivial rfl
  rw [answer_hello] at h₃
  have h₄ := ((h₃.step .readLine trivial rfl).step .readLine trivial rfl).step .readHello trivial rfl
  have h₅ := (h₄.step (.forward () "WS|1".toList) trivial rfl).step .readReply trivial rfl
  obtain ⟨⟨b, hreply, -⟩, -⟩ := h _ h₅ (2, some 1, "R|2".toList) List.mem_cons_self
  cases hreply

end Net

end Pippin.Broker
