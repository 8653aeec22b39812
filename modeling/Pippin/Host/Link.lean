import Pippin.Client.Events
import Pippin.Host.Lines
import Pippin.Kernel.Actions
import Pippin.Kernel.NoFaults
import Pippin.Lib.LockStep

/-! The machine and the shell on the host, connected by the second serial line. Bytes and lines are on the way in both
directions, the user types and points meanwhile, and the guest speaks of its own accord. -/

namespace Pippin.Kernel
open Str

/-- `Bridge::poll`, `Bridge::action` and `Bridge::event`, without the line feed. -/
def Message.line : Message → Str
  | .reply r => r.text
  | .action a => "E|".toList ++ a
  | .event e => e.line

def Message.reply? : Message → Option Broker.Reply
  | .reply r => some r
  | _ => none

theorem filterMap_reply (replies : List Broker.Reply) (events : List Client.Event) :
    (replies.map Message.reply ++ events.map Message.event).filterMap Message.reply? = replies := by
  have hreplies : (replies.map Message.reply).filterMap Message.reply? = replies := by
    rw [List.filterMap_map]
    exact List.filterMap_some
  have hevents : (events.map Message.event).filterMap Message.reply? = [] := by
    rw [List.filterMap_map]
    exact List.filterMap_eq_nil_iff.mpr fun _ _ => rfl
  rw [List.filterMap_append, hreplies, hevents, List.append_nil]

end Pippin.Kernel

namespace Pippin.Host
open Checked Str
open Pippin.Broker (Bridge Reply)
open Pippin.Kernel (Shell Message NamedModel)
open Pippin.Native (Compositor ShellSurface)

/-- Before the handshake, after it, and after a rejection or the deadline. -/
inductive Phase where
  | connecting
  | running (session : Session)
  | ended
deriving DecidableEq, Repr

/-- Both ends and what is on the way, with the events that the guest writes at the end of a poll, the lines that were
sent, what the guest answered to them, and the answers that the host took. -/
structure Link where
  shell : Shell
  port : List UInt8
  events : List Client.Event
  inbox : Str
  host : Phase
  sent : List Str
  answered : List (Str × Bool)
  outcomes : List (Str × Bool)

def hello : Str := "H|1".toList

def verdict (line : Str) : Option Bool :=
  if line = "A".toList then some true else if line = "N".toList then some false else none

def verdicts (bridge : Bridge) (replies : List Reply) : List (Str × Bool) :=
  (replies.filterMap fun r => verdict r.text).map fun b => ((fromUtf8 bridge.line).getD [], b)

def Session.outcome (s : Session) (line : Str) : List (Str × Bool) :=
  match s.waiting, verdict line with
  | some waiting, some b => [(waiting.line, b)]
  | _, _ => []

namespace Link

def hear (l : Link) (shell : Shell) (messages : List Message) : Link :=
  { l with shell, inbox := l.inbox ++ unlines (messages.map Message.line) }

def write (l : Link) (lines : List Str) : Link := { l with port := l.port ++ bytes (unlines lines) }

def carryOn (l : Link) (rest : Str) (burst : Burst) : Link :=
  { l.write burst.sent.toList with
    inbox := rest
    host := .running burst.session
    sent := l.sent ++ burst.sent.toList }

end Link

inductive Actor where
  | user | guest | host
deriving DecidableEq, Repr

/-- One step of the user, of the guest or of the host. The guest answers a line within the poll that reads it, and
writes the events when the poll is over. -/
inductive Link.Step (model : List ShellSurface) (now : Str) : Actor → Link → Link → Prop where
  | input {l : Link} {shell : Shell} {messages : List Message} (display : Bool) (input : Kernel.Input)
      (hinput : ∀ byte, input ≠ .bridge byte) (hpoll : l.events = []) (hrunning : l.shell.running = true)
      (h : l.shell.step model display input = .ok (shell, messages)) : Step model now .user l (l.hear shell messages)
  | read {l : Link} {shell : Shell} {replies : List Reply} {events : List Client.Event} {byte : UInt8}
      {port : List UInt8} (display : Bool) (hport : l.port = byte :: port) (hrunning : l.shell.running = true)
      (h : l.shell.step model display (.bridge byte) = .ok (shell, replies.map .reply ++ events.map .event)) :
      Step model now .guest l { l.hear shell (replies.map .reply) with
        port, events := l.events ++ events, answered := l.answered ++ verdicts l.shell.bridge replies }
  | flush {l : Link} (hpoll : l.events ≠ []) :
      Step model now .guest l { l.hear l.shell (l.events.map .event) with events := [] }
  | again {l : Link} (h : l.host = .connecting) : Step model now .host l (l.write [hello])
  | deadline {l : Link} (h : l.host = .connecting) : Step model now .host l { l with host := .ended }
  | skip {l : Link} {line rest : Str} (h : l.host = .connecting) (hline : readLine l.inbox = some (line, rest))
      (hother : line ≠ "R|1".toList) : Step model now .host l { l.write [hello] with inbox := rest }
  | connect {l : Link} {rest : Str} (h : l.host = .connecting)
      (hline : readLine l.inbox = some ("R|1".toList, rest)) :
      Step model now .host l (l.carryOn rest (Session.start now))
  | receive {l : Link} {s : Session} {line rest : Str} {burst : Burst} (h : l.host = .running s)
      (hline : readLine l.inbox = some (line, rest)) (hr : s.receive now line = some burst) : Step model now .host l
        { l.carryOn rest burst with outcomes := l.outcomes ++ s.outcome line }
  | rejected {l : Link} {s : Session} {line rest : Str} (h : l.host = .running s)
      (hline : readLine l.inbox = some (line, rest)) (hr : s.receive now line = none) : Step model now .host l
        { l with inbox := rest, host := .ended, outcomes := l.outcomes ++ s.outcome line }

/-- The host connects to a machine that may have run for a while. -/
inductive Link.Run (model : List ShellSurface) (now : Str) : Link → Prop where
  | start {shell : Shell} (h : Kernel.Run model (fun _ _ _ => True) shell) (hbridge : shell.bridge = .new) :
      Run model now ⟨shell, bytes (unlines [hello]), [], [], .connecting, [], [], []⟩
  | step {l l' : Link} (actor : Actor) (hl : Run model now l) (h : Step model now actor l l') : Run model now l'

/-! ## Lines on the way to the guest -/

variable {b : Bridge} {byte : UInt8} {port : List UInt8} {queue more : List Str} {line : Str}

inductive Unread : Bridge → List UInt8 → List Str → Prop where
  | nothing : Unread .new [] []
  | line {line : Str} {done rest : List UInt8} (queue : List Str) (h : line.bytes = done ++ rest) :
      Unread ⟨done, false⟩ (rest ++ 10 :: bytes (unlines queue)) (line :: queue)

theorem unread_new (queue : List Str) : Unread .new (bytes (unlines queue)) queue := by
  cases queue with
  | nil => exact .nothing
  | cons line queue =>
    rw [bytes_unlines_cons]
    have hline : line.bytes = [] ++ line.bytes := rfl
    exact .line queue hline

theorem Unread.write (h : Unread b port queue) (more : List Str) :
    Unread b (port ++ bytes (unlines more)) (queue ++ more) := by
  cases h with
  | nothing => exact unread_new more
  | @line line done rest queue h =>
    have hport : rest ++ 10 :: bytes (unlines queue) ++ bytes (unlines more) =
        rest ++ 10 :: bytes (unlines (queue ++ more)) := by simp
    rw [hport]
    exact .line (queue ++ more) h

theorem Unread.ne_nil (h : Unread b port queue) (hqueue : queue ≠ []) : port ≠ [] := by
  cases h with
  | nothing => exact absurd rfl hqueue
  | line queue h => simp

theorem Unread.read {σ : Type} (h : Unread b (byte :: port) queue) (hqueue : ∀ line ∈ queue, Inline 384 line)
    (command : σ → Str → Bool × σ) :
    (∃ b', (∀ state, Bridge.receive command b state byte = (b', state, [])) ∧ Unread b' port queue) ∨
      ∃ line rest, queue = line :: rest ∧ byte = 10 ∧ b.overflow = false ∧ fromUtf8 b.line = some line ∧
        Unread .new port rest := by
  generalize hwire : byte :: port = wire at h
  cases h with
  | nothing => cases hwire
  | @line line done rest queue h =>
    have hline := hqueue line List.mem_cons_self
    -- Either the first line is complete, or the byte is its next.
    cases rest with
    | nil =>
      cases hwire
      rw [List.append_nil] at h
      refine Or.inr ⟨line, queue, rfl, rfl, rfl, ?_, unread_new queue⟩
      exact h ▸ fromUtf8_bytes line
    | cons x rest =>
      cases hwire
      obtain ⟨hlf, hcr⟩ := Bridge.bytes_plain hline.cr hline.lf byte (by rw [h]; simp)
      have hroom : done.length < Broker.maxLine := by
        have hfits : line.bytes.length ≤ 384 := hline.fits
        rw [h, List.length_append, List.length_cons] at hfits
        exact Nat.lt_of_lt_of_le (by omega) hfits
      refine Or.inl ⟨⟨done ++ [byte], false⟩, fun state => ?_, .line queue (by simpa using h)⟩
      unfold Bridge.receive
      rw [if_neg hlf, if_pos ⟨hcr, rfl⟩, if_pos hroom]

/-! ## What the guest says -/

variable {model : List ShellSurface} {now : Str} {display : Bool} {shell shell' : Shell} {messages : List Message}
  {replies : List Reply} {events : List Client.Event}

theorem verdict_prefixed {c : Char} {rest : Str} : verdict ('E' :: c :: rest) = none := by
  unfold verdict
  rw [if_neg (by simp), if_neg (by simp)]

theorem verdict_action (action : Str) : verdict (Message.line (.action action)) = none := verdict_prefixed

theorem verdict_event (e : Client.Event) : verdict (Message.line (.event e)) = none := by
  obtain ⟨rest, hrest⟩ := e.line_eq
  rw [Message.line, hrest]
  exact verdict_prefixed

structure Inbound (line : Str) : Prop where
  inline : Inline line.len line
  received : Received line

theorem inbound_reply (r : Reply) : Inbound (Message.line (.reply r)) := by
  have hplain : ∀ r : Reply, '\r' ∉ r.text ∧ '\n' ∉ r.text ∧ stripPrefix "E|".toList r.text = none := by
    intro r
    cases r <;> decide
  obtain ⟨hcr, hlf, hother⟩ := hplain r
  refine ⟨⟨hcr, hlf, Nat.le_refl _⟩, fun action haction => ?_⟩
  cases hother.symm.trans haction

theorem printable_event (e : Client.Event) : ∀ c ∈ e.line, ' ' ≤ c ∧ c ≤ '~' := by
  have hplain : ∀ {text : Str}, Client.WindowClient.Plain text → ∀ c ∈ text, ' ' ≤ c ∧ c ≤ '~' := fun h c hc =>
    ⟨(h c hc).1, (h c hc).2.1⟩
  intro c hc
  rcases mem_join hc with rfl | ⟨field, hfield, hc⟩
  · decide
  · simp only [List.mem_cons, List.not_mem_nil, or_false] at hfield
    have hword : ∀ c ∈ "EV".toList, ' ' ≤ c ∧ c ≤ '~' := forall_of_all (by decide)
    rcases hfield with rfl | rfl | rfl | rfl | rfl
    · exact hword c hc
    · exact hplain (Client.WindowClient.plain_decimal _) c hc
    · exact hplain (Client.plain_name _) c hc
    · exact hplain (Client.WindowClient.plain_decimalInt _) c hc
    · exact hplain (Client.WindowClient.plain_decimalInt _) c hc

theorem inbound_event (e : Client.Event) : Inbound (Message.line (.event e)) := by
  have hinline : Inline e.line.length e.line := .of_printable (printable_event e) (Nat.le_refl _)
  refine ⟨hinline.of_subset (List.Subset.refl _) (Nat.le_refl _), fun action haction => ?_⟩
  obtain ⟨rest, hrest⟩ := e.line_eq
  have hline := stripPrefix_some haction
  rw [Message.line, hrest] at hline
  cases hline

theorem inbound_action {action : Str} (h : Inline Kernel.maxAction action) :
    Inbound (Message.line (.action action)) := by
  have hE : Inline 2 "E|".toList := ⟨by decide, by decide, by decide⟩
  refine ⟨(hE.append h).of_subset (List.Subset.refl _) (Nat.le_refl _), fun a ha => ?_⟩
  obtain rfl : action = a := List.append_cancel_left (stripPrefix_some ha)
  exact h.mono (by decide)

theorem bridgeByte_line (hover : shell.bridge.overflow = false) (hline : fromUtf8 shell.bridge.line = some line)
    (h : shell.bridgeByte model display 10 = .ok (shell', replies.map .reply ++ events.map .event)) :
    shell'.bridge = .new ∧ (line = hello ∧ replies = [.R1] ∨ line = "H|2".toList ∧ replies = [.R2] ∨
      line ≠ hello ∧ ∃ accepted : Bool, replies = [if accepted then .A else .N]) := by
  generalize hmessages : replies.map Message.reply ++ events.map Message.event = messages at h
  have hreplies : messages.filterMap Message.reply? = replies := hmessages ▸ Kernel.filterMap_reply replies events
  unfold Shell.bridgeByte at h
  rw [Bridge.receive_ended hover hline, Bridge.answer] at h
  split_ifs at h with h₁ h₂
  · cases h
    exact ⟨rfl, Or.inl ⟨h₁, hreplies.symm⟩⟩
  · cases h
    exact ⟨rfl, Or.inr (Or.inl ⟨h₂, hreplies.symm⟩)⟩
  · rw [Shell.hostLine_ok] at h
    cases hr : shell.bridgeLine model display line with
    | error e =>
      rw [hr] at h
      cases h
    | ok r =>
      obtain ⟨t, accepted, more⟩ := r
      rw [hr] at h
      have hanswer := Kernel.filterMap_reply [if accepted then .A else .N] more
      refine ⟨?_, Or.inr (Or.inr ⟨h₁, accepted, ?_⟩)⟩
      · cases accepted <;> cases h <;> rfl
      · rw [← hreplies, ← hanswer]
        cases accepted <;> cases h <;> rfl

theorem bridgeByte_parts (h : shell.bridgeByte model display byte = .ok (shell', messages)) :
    shell'.running = shell.running ∧ ∃ (replies : List Reply) (events : List Client.Event),
      messages = replies.map .reply ++ events.map .event := by
  unfold Shell.bridgeByte at h
  cases hr : Bridge.receive (Shell.hostLine model display) shell.bridge (.ok (shell, [])) byte with
  | mk bridge rest =>
    obtain ⟨state, replies⟩ := rest
    rw [hr] at h
    obtain ⟨⟨t, events⟩, hstate, h⟩ := bind_eq_ok h
    subst hstate
    cases h
    exact ⟨(Shell.receive_step hr).2, replies, events, rfl⟩

/-! ## The exchange -/

def Phase.waiting : Phase → Option Str
  | .running s => s.waiting.map Waiting.line
  | _ => none

/-- What the host writes is the handshake, or it can be read. -/
def Asked (line : Str) : Prop := line = hello ∨ Readable line

theorem Asked.inline (h : Asked line) : Inline 384 line := by
  rcases h with rfl | h
  · exact ⟨by decide, by decide, by decide⟩
  · exact h.toInline

theorem Readable.head (h : Readable line) : line.head? ≠ some 'H' := by
  rcases h.command with ⟨id, rfl | rfl⟩ | ⟨payload, t, rfl, -⟩ <;> exact (by simp)

theorem Readable.command_line (h : Readable line) : line ≠ hello ∧ line ≠ "H|2".toList :=
  ⟨fun he => h.head (he ▸ rfl), fun he => h.head (he ▸ rfl)⟩

/-- The exchange that a link carries: the handshakes are no questions, and only some lines of the guest are answers. -/
structure Link.Carries (l : Link) (x : LockStep Str Bool) : Prop where
  waiting : x.waiting = l.host.waiting
  questions : ∃ queue, Unread l.shell.bridge l.port queue ∧ (∀ line ∈ queue, Asked line) ∧
    queue.filter (· ≠ hello) = x.questions
  answers : ∃ lines, l.inbox = unlines lines ∧ (∀ line ∈ lines, Inbound line) ∧ lines.filterMap verdict = x.answers
  sent : x.sent = l.sent
  answered : x.answered = l.answered
  outcomes : x.outcomes = l.outcomes

structure Link.Inv (model : List ShellSurface) (l : Link) (x : LockStep Str Bool) : Prop extends Link.Carries l x where
  sync : x.Sync
  shell : Kernel.Run model (fun _ _ _ => True) l.shell
  session : ∀ s, l.host = .running s → s.Ok
  readable : ∀ line ∈ l.sent, Readable line

variable {l l' : Link} {x : LockStep Str Bool} {s : Session} {burst : Burst} {rest : Str} {actor : Actor}

theorem readLine_lines {lines : List Str} (hlines : ∀ line ∈ lines, Inbound line)
    (h : readLine (unlines lines) = some (line, rest)) : ∃ tail, lines = line :: tail ∧ rest = unlines tail := by
  cases lines with
  | nil => cases h
  | cons first tail =>
    rw [unlines_cons, readLine_append (hlines first List.mem_cons_self).inline] at h
    cases h
    exact ⟨tail, rfl, rfl⟩

/-! ## What a step of the link does to the exchange -/

namespace Link.Carries

variable {phase : Phase} {lines : List Str} {b : Bool}

theorem host (h : l.Carries x) (hphase : phase.waiting = l.host.waiting) : Carries { l with host := phase } x where
  waiting := h.waiting.trans hphase.symm
  questions := h.questions
  answers := h.answers
  sent := h.sent
  answered := h.answered
  outcomes := h.outcomes

theorem first (h : l.Carries x) (hline : readLine l.inbox = some (line, rest)) :
    ∃ lines, rest = unlines lines ∧ Inbound line ∧ (∀ line ∈ lines, Inbound line) ∧
      (verdict line).toList ++ lines.filterMap verdict = x.answers := by
  obtain ⟨lines, hinbox, hinbound, hanswers⟩ := h.answers
  rw [hinbox] at hline
  obtain ⟨tail, rfl, rfl⟩ := readLine_lines hinbound hline
  refine ⟨tail, rfl, hinbound line List.mem_cons_self, fun l hl => hinbound l (List.mem_cons_of_mem line hl), ?_⟩
  rw [← hanswers, List.filterMap_cons]
  cases verdict line <;> rfl

theorem skip (h : l.Carries x) (hline : readLine l.inbox = some (line, rest)) (hother : verdict line = none) :
    Carries { l with inbox := rest } x := by
  obtain ⟨lines, hrest, -, hinbound, hanswers⟩ := h.first hline
  rw [hother] at hanswers
  exact ⟨h.waiting, h.questions, ⟨lines, hrest, hinbound, hanswers⟩, h.sent, h.answered, h.outcomes⟩

theorem take (h : l.Carries x) (hline : readLine l.inbox = some (line, rest)) (hverdict : verdict line = some b)
    {question : Str} (hwaiting : l.host.waiting = some question) : ∃ y, LockStep.Step x y ∧ y.waiting = none ∧
      Carries { l with inbox := rest, host := .ended, outcomes := l.outcomes ++ [(question, b)] } y := by
  obtain ⟨lines, hrest, -, hinbound, hanswers⟩ := h.first hline
  rw [hverdict] at hanswers
  refine ⟨x.takes question b (lines.filterMap verdict), .take (h.waiting.trans hwaiting) hanswers.symm, rfl, ?_⟩
  exact ⟨rfl, h.questions, ⟨lines, hrest, hinbound, rfl⟩, h.sent, h.answered,
    congrArg (· ++ [(question, b)]) h.outcomes⟩

theorem again (h : l.Carries x) : Carries (l.write [hello]) x := by
  obtain ⟨queue, hunread, hasked, hquestions⟩ := h.questions
  refine ⟨h.waiting, ⟨queue ++ [hello], hunread.write [hello], ?_, ?_⟩, h.answers, h.sent, h.answered, h.outcomes⟩
  · intro line hline
    rcases List.mem_append.mp hline with hline | hline
    · exact hasked line hline
    · exact Or.inl (List.mem_singleton.mp hline)
  · rw [List.filter_append, hquestions]
    exact List.append_nil _

theorem carryOn (h : l.Carries x) (hinbox : l.inbox = rest)
    (hburst : burst.session.waiting.map Waiting.line = burst.sent)
    (hread : ∀ line, burst.sent = some line → Readable line) : Carries (l.carryOn rest burst) (x.asks burst.sent) := by
  obtain ⟨queue, hunread, hasked, hquestions⟩ := h.questions
  refine ⟨hburst.symm, ⟨queue ++ burst.sent.toList, hunread.write _, ?_, ?_⟩, hinbox ▸ h.answers, ?_, h.answered,
    h.outcomes⟩
  · intro line hline
    rcases List.mem_append.mp hline with hline | hline
    · exact hasked line hline
    · exact Or.inr (hread line (Option.mem_toList.mp hline))
  · have hsent : burst.sent.toList.filter (· ≠ hello) = burst.sent.toList := List.filter_eq_self.mpr fun line hline =>
      decide_eq_true (hread line (Option.mem_toList.mp hline)).command_line.1
    rw [List.filter_append, hquestions, hsent]
    rfl
  · exact congrArg (· ++ burst.sent.toList) h.sent

theorem hear (h : l.Carries x) (hbridge : shell.bridge = l.shell.bridge)
    (hinbound : ∀ message ∈ messages, Inbound (Message.line message))
    (hverdict : messages.filterMap (fun message => verdict message.line) = []) : Carries (l.hear shell messages) x := by
  obtain ⟨lines, hinbox, hlines, hanswers⟩ := h.answers
  refine ⟨h.waiting, ?_, ⟨lines ++ messages.map Message.line, ?_, ?_, ?_⟩, h.sent, h.answered, h.outcomes⟩
  · show ∃ queue, Unread shell.bridge l.port queue ∧ _
    rw [hbridge]
    exact h.questions
  · show l.inbox ++ _ = _
    rw [hinbox, unlines_append]
  · intro line hline
    rcases List.mem_append.mp hline with hline | hline
    · exact hlines line hline
    · obtain ⟨message, hmessage, rfl⟩ := List.mem_map.mp hline
      exact hinbound message hmessage
  · rw [List.filterMap_append, hanswers, List.filterMap_map]
    show x.answers ++ messages.filterMap (fun message => verdict message.line) = _
    rw [hverdict, List.append_nil]

end Link.Carries

/-! ## The guest -/

theorem inbound_messages (hactions : ∀ action, Message.action action ∈ messages → Inline Kernel.maxAction action) :
    ∀ message ∈ messages, Inbound (Message.line message) := by
  intro message hmessage
  cases message with
  | reply r => exact inbound_reply r
  | action a => exact inbound_action (hactions a hmessage)
  | event e => exact inbound_event e

theorem verdict_quiet (hreplies : ∀ reply, Message.reply reply ∉ messages) :
    messages.filterMap (fun message => verdict message.line) = [] := by
  refine List.filterMap_eq_nil_iff.mpr fun message hmessage => ?_
  cases message with
  | reply r => exact absurd hmessage (hreplies r)
  | action a => exact verdict_action a
  | event e => exact verdict_event e

theorem verdict_answered (accepted : Bool) :
    [if accepted then Reply.A else .N].filterMap (fun r => verdict r.text) = [accepted] := by
  cases accepted <;> rfl

/-- A byte is collected, or it ends a line: then the guest answers the line, unless it is a handshake. -/
theorem Link.Carries.read (h : l.Carries x) (hport : l.port = byte :: port)
    (hstep : l.shell.bridgeByte model display byte = .ok (shell, replies.map .reply ++ events.map .event)) :
    ∃ y, Relation.ReflTransGen LockStep.Step x y ∧ Link.Carries { l.hear shell (replies.map .reply) with
      port, events := l.events ++ events, answered := l.answered ++ verdicts l.shell.bridge replies } y := by
  obtain ⟨queue, hunread, hasked, hquestions⟩ := h.questions
  obtain ⟨lines, hinbox, hlines, hanswers⟩ := h.answers
  rw [hport] at hunread
  have hinbox' : l.inbox ++ unlines ((replies.map Message.reply).map Message.line) =
      unlines (lines ++ replies.map Reply.text) := by
    rw [hinbox, unlines_append, List.map_map]
    rfl
  have hlines' : ∀ line ∈ lines ++ replies.map Reply.text, Inbound line := by
    intro line hline
    rcases List.mem_append.mp hline with hline | hline
    · exact hlines line hline
    · obtain ⟨r, -, rfl⟩ := List.mem_map.mp hline
      exact inbound_reply r
  have hanswers' : (lines ++ replies.map Reply.text).filterMap verdict =
      x.answers ++ replies.filterMap (fun r => verdict r.text) := by
    rw [List.filterMap_append, hanswers, List.filterMap_map]
    rfl
  rcases hunread.read (fun line hline => (hasked line hline).inline) (Shell.hostLine model display) with
    ⟨b, hreceive, hnext⟩ | ⟨line, rest, rfl, rfl, hover, hline, hnext⟩
  -- A byte that is collected is not answered yet.
  · obtain ⟨rfl, rfl⟩ : replies = [] ∧ b = shell.bridge := by
      generalize hmessages : replies.map Message.reply ++ events.map Message.event = messages at hstep
      unfold Shell.bridgeByte at hstep
      rw [hreceive] at hstep
      cases hstep
      exact ⟨List.map_eq_nil_iff.mp (List.append_eq_nil_iff.mp hmessages).1, rfl⟩
    refine ⟨x, .refl, h.waiting, ⟨queue, hnext, hasked, hquestions⟩, ⟨_, hinbox', hlines', ?_⟩, h.sent, ?_, h.outcomes⟩
    · exact hanswers'.trans (List.append_nil _)
    · exact h.answered.trans (List.append_nil _).symm
  · have hrest : ∀ line ∈ rest, Asked line := fun line hl => hasked line (List.mem_cons_of_mem _ hl)
    obtain ⟨hbridge, hline'⟩ := bridgeByte_line hover hline hstep
    rw [← hbridge] at hnext
    rcases hline' with ⟨rfl, rfl⟩ | ⟨rfl, -⟩ | ⟨hother, accepted, rfl⟩
    -- The handshake is answered, but it is no question.
    · refine ⟨x, .refl, h.waiting, ⟨rest, hnext, hrest, hquestions⟩, ⟨_, hinbox', hlines', ?_⟩, h.sent, ?_, h.outcomes⟩
      · exact hanswers'.trans (List.append_nil _)
      · exact h.answered.trans (List.append_nil _).symm
    · rcases hasked _ List.mem_cons_self with hhello | hread
      · exact absurd hhello (by decide)
      · exact absurd rfl hread.command_line.2
    -- Every other line is the question on the way.
    · rw [List.filter_cons_of_pos (p := fun line => decide (line ≠ hello)) (decide_eq_true hother)] at hquestions
      refine ⟨_, .single (.answer accepted hquestions.symm), h.waiting, ⟨rest, hnext, hrest, rfl⟩,
        ⟨_, hinbox', hlines', ?_⟩, h.sent, ?_, h.outcomes⟩
      · rw [hanswers', verdict_answered]
      · show x.answered ++ [(line, accepted)] = l.answered ++ verdicts l.shell.bridge _
        unfold verdicts
        rw [h.answered, verdict_answered, hline]
        rfl

/-! ## The host -/

theorem Resumes.asks {h : HostBridge} {tasks : List Task} (hr : Resumes now h tasks burst) :
    burst.session.waiting.map Waiting.line = burst.sent := by
  induction hr with
  | idle | send | handle => rfl
  | silent htask hline hrest ih => exact ih
  | quiet hfirst hrest ih => exact ih

theorem receive_none (h : s.receive now line = none) : ∃ w, s.waiting = some w ∧ line = "N".toList := by
  unfold Session.receive at h
  cases hw : s.waiting with
  | none =>
    rw [hw] at h
    dsimp only at h
    split at h <;> cases h
  | some w =>
    rw [hw] at h
    dsimp only at h
    split_ifs at h with hA hN
    · exact ⟨w, rfl, hN⟩
    · split at h <;> cases h

theorem outcome_none (h : verdict line = none) : s.outcome line = [] := by
  unfold Session.outcome
  rw [h]
  cases s.waiting <;> rfl

theorem outcome_some {w : Waiting} {b : Bool} (hw : s.waiting = some w) (h : verdict line = some b) :
    s.outcome line = [(w.line, b)] := by
  unfold Session.outcome
  rw [hw, h]

theorem Receives.idle (hr : Receives now s line burst) (hidle : s.waiting = none) :
    burst.session.waiting.map Waiting.line = burst.sent := by
  cases hr with
  | action _ _ hr => exact hr.asks
  | answer hw => cases hidle.symm.trans hw
  | later hw => cases hidle.symm.trans hw
  | ignored => exact congrArg (Option.map Waiting.line) hidle

theorem Receives.waiting {w : Waiting} (hr : Receives now s line burst) (hw : s.waiting = some w) :
    (verdict line = some true ∧ burst.session.waiting.map Waiting.line = burst.sent) ∨
      (verdict line = none ∧ ∃ t, burst = ⟨t, [], none⟩ ∧ t.waiting.map Waiting.line = some w.line) := by
  cases hr with
  | action hidle => cases hidle.symm.trans hw
  | answer _ hA hr => exact Or.inl ⟨hA ▸ rfl, hr.asks⟩
  | later hw' haction =>
    cases hw.symm.trans hw'
    refine Or.inr ⟨?_, _, rfl, rfl⟩
    rw [stripPrefix_some haction]
    exact verdict_prefixed
  | ignored _ hother =>
    obtain ⟨hA, hN⟩ := hother (hw ▸ rfl)
    refine Or.inr ⟨?_, s, rfl, congrArg (Option.map Waiting.line) hw⟩
    unfold verdict
    rw [if_neg hA, if_neg hN]

theorem carryOn_quiet {console : List Str} :
    l.carryOn rest ⟨s, console, none⟩ = { l with inbox := rest, host := .running s } := by
  have hbytes : bytes (unlines []) = [] := rfl
  simp [Link.carryOn, Link.write, hbytes]

/-- The guest and the host have less left to read and to write. -/
def Link.Less : Link → Link → Prop :=
  InvImage (Prod.Lex (· < ·) (Prod.Lex (· < ·) (· < ·))) fun l =>
    (l.port.length, l.events.length, l.inbox.length)

theorem Link.less_wf : WellFounded Link.Less :=
  InvImage.wf _ (Nat.lt_wfRel.wf.prod_lex (Nat.lt_wfRel.wf.prod_lex Nat.lt_wfRel.wf))

namespace Link.Inv

theorem unanswered (h : l.Inv model x) (hidle : x.waiting = none) (hline : readLine l.inbox = some (line, rest)) :
    verdict line = none := by
  obtain ⟨lines, -, -, -, hanswers⟩ := h.first hline
  rw [(h.sync.idle_empty hidle).2.1] at hanswers
  exact Option.toList_eq_nil_iff.mp (List.append_eq_nil_iff.mp hanswers).1

theorem sends (h : l.Inv model x) {sent : Option Str} (hread : ∀ line, sent = some line → Readable line) :
    ∀ line ∈ l.sent ++ sent.toList, Readable line :=
  List.forall_mem_append.mpr ⟨h.readable, fun line hline => hread line (Option.mem_toList.mp hline)⟩

theorem receive (h : l.Inv model x) (hhost : l.host = .running s) (hline : readLine l.inbox = some (line, rest))
    (hr : Receives now s line burst) (hread : ∀ line, burst.sent = some line → Readable line) :
    ∃ y, Relation.ReflTransGen LockStep.Step x y ∧
      Link.Carries { l.carryOn rest burst with outcomes := l.outcomes ++ s.outcome line } y := by
  have hwaiting : l.host.waiting = s.waiting.map Waiting.line := by
    rw [hhost]
    rfl
  cases hw : s.waiting with
  | none =>
    have hidle : x.waiting = none := by rw [h.waiting, hwaiting, hw, Option.map_none]
    have hother := h.unanswered hidle hline
    rw [outcome_none hother, List.append_nil]
    exact ⟨_, LockStep.run_asks hidle _, (h.skip hline hother).carryOn rfl (hr.idle hw) hread⟩
  | some w =>
    have hquestion : l.host.waiting = some w.line := by rw [hwaiting, hw, Option.map_some]
    rcases hr.waiting hw with ⟨hverdict, hasks⟩ | ⟨hother, t, rfl, ht⟩
    · obtain ⟨y, hstep, hidle, hcarries⟩ := h.take hline hverdict hquestion
      have hrun := (Relation.ReflTransGen.single hstep).trans (LockStep.run_asks hidle burst.sent)
      rw [outcome_some hw hverdict]
      exact ⟨_, hrun, hcarries.carryOn rfl hasks hread⟩
    · have hphase : (Phase.running t).waiting = l.host.waiting := ht.trans hquestion.symm
      rw [outcome_none hother, List.append_nil, carryOn_quiet]
      exact ⟨x, .refl, (h.skip hline hother).host hphase⟩

theorem shorter (h : l.Inv model x) (hline : readLine l.inbox = some (line, rest)) : rest.length < l.inbox.length := by
  obtain ⟨lines, hinbox, hinbound, -⟩ := h.answers
  rw [hinbox] at hline ⊢
  obtain ⟨tail, rfl, rfl⟩ := readLine_lines hinbound hline
  rw [unlines_cons, List.length_append, List.length_cons]
  omega

theorem moves (h : l.Inv model x) (hrunning : l.shell.running = true) {question : Str}
    (hwaiting : l.host.waiting = some question) (hactor : actor ≠ .user) (hstep : Link.Step model now actor l l') :
    (∃ b, l'.outcomes = l.outcomes ++ [(question, b)]) ∨
      (l'.outcomes = l.outcomes ∧ l'.host.waiting = some question ∧ l'.shell.running = true ∧ l'.Less l) := by
  cases hstep with
  | input => exact absurd rfl hactor
  | read display hport _ hs =>
    refine Or.inr ⟨rfl, hwaiting, (bridgeByte_parts hs).1.trans hrunning, .left _ _ ?_⟩
    rw [hport]
    exact Nat.lt_succ_self _
  | flush hpoll =>
    exact Or.inr ⟨rfl, hwaiting, hrunning, .right _ (.left _ _ (List.length_pos_of_ne_nil hpoll))⟩
  | again hhost | deadline hhost | skip hhost | connect hhost =>
    rw [hhost] at hwaiting
    cases hwaiting
  | receive hhost hline hr =>
    rw [hhost] at hwaiting
    obtain ⟨w, hw, rfl⟩ := Option.map_eq_some_iff.mp hwaiting
    rcases (receive_receives hr).waiting hw with ⟨hverdict, -⟩ | ⟨hother, t, rfl, ht⟩
    · exact Or.inl ⟨true, congrArg (l.outcomes ++ ·) (outcome_some hw hverdict)⟩
    · rw [outcome_none hother, List.append_nil, carryOn_quiet]
      exact Or.inr ⟨rfl, ht, hrunning, .right _ (.right _ (h.shorter hline))⟩
  | rejected hhost hline hr =>
    rw [hhost] at hwaiting
    obtain ⟨w, hw, rfl⟩ := Option.map_eq_some_iff.mp hwaiting
    obtain ⟨_, _, rfl⟩ := receive_none hr
    exact Or.inl ⟨false, congrArg (l.outcomes ++ ·) (outcome_some hw rfl)⟩

theorem step (hmodel : NamedModel model) (hnow : (safe (some now)).length ≤ 94) (h : l.Inv model x)
    (hstep : Link.Step model now actor l l') : ∃ y, l'.Inv model y := by
  have htidy := h.shell.tidy hmodel
  cases hstep with
  -- What does not come from the host is never answered.
  | input display input hinput hpoll hrunning hs =>
    have hquiet := Shell.step_quiet (Kernel.tidy_rule hmodel) htidy.desktop hinput _ hs
    have hcarries := h.hear hquiet.bridge (inbound_messages hquiet.actions) (verdict_quiet hquiet.replies)
    exact ⟨x, hcarries, h.sync, h.shell.step display input hrunning trivial hs, h.session, h.readable⟩
  | read display hport hrunning hs =>
    obtain ⟨y, hrun, hcarries⟩ := h.toCarries.read hport hs
    exact ⟨y, hcarries, h.sync.run hrun, h.shell.step display _ hrunning trivial hs, h.session, h.readable⟩
  | flush =>
    have hinbound : ∀ message ∈ l.events.map Message.event, Inbound (Message.line message) :=
      inbound_messages fun action haction => by simp at haction
    obtain ⟨hwaiting, hquestions, hanswers, hsent, hanswered, houtcomes⟩ :=
      h.hear rfl hinbound (verdict_quiet fun reply hreply => by simp at hreply)
    exact ⟨x, ⟨hwaiting, hquestions, hanswers, hsent, hanswered, houtcomes⟩, h.sync, h.shell, h.session, h.readable⟩
  | again hhost => exact ⟨x, h.again, h.sync, h.shell, h.session, h.readable⟩
  | deadline hhost =>
    have hphase : Phase.ended.waiting = l.host.waiting := hhost ▸ rfl
    exact ⟨x, h.host hphase, h.sync, h.shell, (fun s hs => by cases hs), h.readable⟩
  | skip hhost hline hother =>
    have hidle : x.waiting = none := h.waiting.trans (hhost ▸ rfl)
    exact ⟨x, (h.skip hline (h.unanswered hidle hline)).again, h.sync, h.shell, h.session, h.readable⟩
  -- The first surface is the first question.
  | connect hhost hline =>
    have hidle : x.waiting = none := h.waiting.trans (hhost ▸ rfl)
    obtain ⟨hok, hread⟩ := start_ok hnow
    have hcarries := (h.skip hline (h.unanswered hidle hline)).carryOn rfl (resume_resumes _ _).asks hread
    refine ⟨_, hcarries, h.sync.run (LockStep.run_asks hidle _), h.shell, fun s hs => ?_, h.sends hread⟩
    cases hs
    exact hok
  | receive hhost hline hr =>
    obtain ⟨lines, -, hinbound, -, -⟩ := h.first hline
    obtain ⟨hok, hread⟩ := (receive_receives hr).ok hnow hinbound.received (h.session _ hhost)
    obtain ⟨y, hrun, hcarries⟩ := h.receive hhost hline (receive_receives hr) hread
    refine ⟨y, hcarries, h.sync.run hrun, h.shell, fun s hs => ?_, h.sends hread⟩
    cases hs
    exact hok
  | rejected hhost hline hr =>
    obtain ⟨w, hw, rfl⟩ := receive_none hr
    have hquestion : l.host.waiting = some w.line := by
      rw [hhost]
      exact congrArg (Option.map Waiting.line) hw
    obtain ⟨y, hstep, -, hcarries⟩ := h.take hline rfl hquestion
    have houtcome := outcome_some hw (show verdict "N".toList = some false from rfl)
    rw [← houtcome] at hcarries
    exact ⟨y, hcarries, h.sync.run (.single hstep), h.shell, (fun s hs => by cases hs), h.readable⟩

end Link.Inv

/-! ## Runs -/

theorem Link.Run.inv (hmodel : NamedModel model) (hnow : (safe (some now)).length ≤ 94) (h : Link.Run model now l) :
    ∃ x, l.Inv model x := by
  induction h with
  | @start shell hshell hbridge =>
    refine ⟨.new, ⟨rfl, ⟨[hello], ?_, ?_, rfl⟩, ⟨[], rfl, ?_, rfl⟩, rfl, rfl, rfl⟩, LockStep.sync_new, hshell, ?_, ?_⟩
    · show Unread shell.bridge _ _
      rw [hbridge]
      exact unread_new [hello]
    · exact fun line hline => Or.inl (List.mem_singleton.mp hline)
    · exact fun line hline => absurd hline List.not_mem_nil
    · exact fun s hs => by cases hs
    · exact fun line hline => absurd hline List.not_mem_nil
  | step actor _ hstep ih =>
    obtain ⟨x, hx⟩ := ih
    exact hx.step hmodel hnow hstep

theorem Link.Run.collect {done bytes : List UInt8} (h : Link.Run model now l) (hrunning : l.shell.running = true)
    (hbridge : l.shell.bridge = ⟨done, false⟩) (hport : l.port = bytes ++ port)
    (hplain : ∀ byte ∈ bytes, byte ≠ 10 ∧ byte ≠ 13) (hroom : done.length + bytes.length ≤ Broker.maxLine) :
    Link.Run model now { l with shell := { l.shell with bridge := ⟨done ++ bytes, false⟩ }, port } := by
  induction bytes generalizing done l with
  | nil =>
    rw [List.nil_append] at hport
    rw [List.append_nil, ← hbridge, ← hport]
    exact h
  | cons byte bytes ih =>
    obtain ⟨hlf, hcr⟩ := hplain byte List.mem_cons_self
    rw [List.length_cons] at hroom
    have hreceive : ∀ state, Bridge.receive (Shell.hostLine model true) l.shell.bridge state byte =
        (⟨done ++ [byte], false⟩, state, []) := fun state => by
      rw [hbridge]
      unfold Bridge.receive
      rw [if_neg hlf, if_pos ⟨hcr, rfl⟩, if_pos (show done.length < Broker.maxLine by omega)]
    have hstep : l.shell.step model true (.bridge byte) = .ok ({ l.shell with bridge := ⟨done ++ [byte], false⟩ },
        ([] : List Reply).map .reply ++ ([] : List Client.Event).map .event) := by
      show l.shell.bridgeByte model true byte = _
      unfold Shell.bridgeByte
      rw [hreceive]
      rfl
    have hread := h.step .guest (.read true hport hrunning hstep)
    have hmore := ih hread hrunning rfl rfl (fun b hb => hplain b (List.mem_cons_of_mem byte hb)) (by
      rw [List.length_append, List.length_singleton]
      omega)
    rw [List.append_assoc] at hmore
    simpa [Link.hear, verdicts, unlines] using hmore

theorem Link.Run.reads (h : Link.Run model now l) (line : Str) (port : List UInt8) (replies : List Reply)
    (events : List Client.Event) (hrunning : l.shell.running = true) (hbridge : l.shell.bridge = .new)
    (hport : l.port = line.bytes ++ 10 :: port) (hline : Inline 384 line)
    (hend : Shell.bridgeByte model true { l.shell with bridge := ⟨line.bytes, false⟩ } 10 =
      .ok (shell, replies.map .reply ++ events.map .event)) : Link.Run model now
        { l.hear shell (replies.map .reply) with
          port, events := l.events ++ events, answered := l.answered ++ verdicts ⟨line.bytes, false⟩ replies } := by
  have hcollected := h.collect hrunning hbridge hport (Bridge.bytes_plain hline.cr hline.lf) (by
    rw [List.length_nil, Nat.zero_add]
    exact hline.fits)
  exact hcollected.step .guest (.read true rfl hrunning hend)

def connected (now : Str) : Link where
  shell := .new
  port := bytes (unlines [Application.wallpaper.line])
  events := []
  inbox := []
  host := .running (Session.start now).session
  sent := [Application.wallpaper.line]
  answered := []
  outcomes := []

theorem run_connected (now : Str) (hshell : Kernel.Run [] (fun _ _ _ => True) shell) (hbridge : shell.bridge = .new)
    (hrunning : shell.running = true) : Link.Run [] now { connected now with shell } := by
  have hstart : Link.Run [] now _ := .start hshell hbridge
  have hend : Shell.bridgeByte [] true { shell with bridge := ⟨hello.bytes, false⟩ } 10 =
      .ok ({ shell with bridge := .new }, [Message.reply .R1]) := by
    unfold Shell.bridgeByte
    rw [Bridge.receive_ended rfl (fromUtf8_bytes hello)]
    rfl
  have hread := hstart.reads hello [] [.R1] [] hrunning hbridge rfl
    ⟨by decide, by decide, by decide⟩ hend
  rw [← hbridge] at hread
  exact hread.step .host (.connect rfl rfl)

def tinted : Shell :=
  { Shell.opened with desktop := Shell.opened.desktop.map fun (s : Compositor) =>
    { s with wallpaperBase := 0x002f80ed } }

/-- A key arrives before the answer to the wallpaper, and is handled once the answer is there. -/
def keyed (now : Str) : Link :=
  let host := { HostBridge.new with command := ['a'] }
  let line := (Application.terminal ['a'] HostBridge.new.output).line
  { connected now with
    shell := tinted
    port := bytes (unlines [line])
    host := .running ⟨host, some ⟨line, []⟩, (Session.start now).session.tasks⟩
    sent := [Application.wallpaper.line, line]
    answered := [(Application.wallpaper.line, true)]
    outcomes := [(Application.wallpaper.line, true)] }

theorem run_keyed (now : Str) : Link.Run [] now (keyed now) := by
  have hopened : Kernel.Run [] (fun _ _ _ => True) Shell.opened :=
    Kernel.Run.new.line rfl (fun _ _ _ => trivial) rfl (by decide +kernel) (by decide +kernel) (by decide +kernel)
      (by decide) trivial Shell.bridgeLine_opened
  have hconnected := run_connected now hopened rfl rfl
  have hkey : Shell.opened.step [] true (.key 0x1e) = .ok (Shell.opened, [.action "terminal.key.61".toList]) := by
    decide +kernel
  have htyped := hconnected.step .user (.input true (.key 0x1e) nofun rfl rfl hkey)
  have haction : readLine (unlines ["E|terminal.key.61".toList]) = some ("E|terminal.key.61".toList, []) := rfl
  have hlater : (Session.start now).session.receive now "E|terminal.key.61".toList =
      some ⟨{ (Session.start now).session with
        waiting := some ⟨Application.wallpaper.line, ["terminal.key.61".toList]⟩ }, [], none⟩ := rfl
  have hpending : Link.Run [] now { connected now with
      shell := Shell.opened
      host := .running { (Session.start now).session with
        waiting := some ⟨Application.wallpaper.line, ["terminal.key.61".toList]⟩ } } :=
    htyped.step .host (.receive rfl haction hlater)
  have hend : Shell.bridgeByte [] true { Shell.opened with bridge := ⟨Application.wallpaper.line.bytes, false⟩ } 10 =
      .ok (tinted, [Message.reply .A]) := by
    decide +kernel
  have hanswered : Link.Run [] now { connected now with
      shell := tinted
      port := []
      inbox := unlines ["A".toList]
      host := .running { (Session.start now).session with
        waiting := some ⟨Application.wallpaper.line, ["terminal.key.61".toList]⟩ }
      answered := [(Application.wallpaper.line, true)] } :=
    hpending.reads Application.wallpaper.line [] [.A] [] rfl rfl rfl readable_wallpaper.toInline hend
  have hanswer : readLine (unlines ["A".toList]) = some ("A".toList, []) := rfl
  have hhandled : Session.receive now { (Session.start now).session with
      waiting := some ⟨Application.wallpaper.line, ["terminal.key.61".toList]⟩ } "A".toList =
      some ⟨⟨{ HostBridge.new with command := ['a'] },
        some ⟨(Application.terminal ['a'] HostBridge.new.output).line, []⟩, (Session.start now).session.tasks⟩,
        ["terminal.key.61".toList], some (Application.terminal ['a'] HostBridge.new.output).line⟩ := rfl
  exact hanswered.step .host (.receive rfl hanswer hhandled)

/-- However the user, the guest and the host take turns, every answer that the host takes is the answer that the guest
gave to the very line that the host had sent last. A host that does not wait has all the answers. -/
theorem answers_in_step (hmodel : NamedModel model) (hnow : (safe (some now)).length ≤ 94)
    (h : Link.Run model now l) : l.outcomes <+: l.answered ∧ l.answered.map Prod.fst <+: l.sent ∧
      l.sent = l.outcomes.map Prod.fst ++ l.host.waiting.toList ∧
      (l.host.waiting = none → l.answered = l.outcomes) := by
  obtain ⟨x, hx⟩ := h.inv hmodel hnow
  rw [← hx.outcomes, ← hx.answered, ← hx.sent, ← hx.waiting]
  exact ⟨hx.sync.outcomes, hx.sync.answered_sent, hx.sync.sent, fun hidle => (hx.sync.idle_empty hidle).2.2⟩

theorem answers_in_step_keyed : (keyed "Jan 1  00:00".toList).outcomes <+: (keyed "Jan 1  00:00".toList).answered ∧
    (keyed "Jan 1  00:00".toList).answered.map Prod.fst <+: (keyed "Jan 1  00:00".toList).sent ∧
    (keyed "Jan 1  00:00".toList).sent =
      (keyed "Jan 1  00:00".toList).outcomes.map Prod.fst ++ (keyed "Jan 1  00:00".toList).host.waiting.toList := by
  obtain ⟨houtcomes, hanswered, hsent, -⟩ :=
    answers_in_step Kernel.namedModel_nil (by decide) (run_keyed "Jan 1  00:00".toList)
  exact ⟨houtcomes, hanswered, hsent⟩

/-- After the handshake every line that the program sends fits the line buffer of the guest, and the guest reads it as
one command, whatever the user does and in whatever order the actions arrive. -/
theorem sent_lines_readable (hmodel : NamedModel model) (hnow : (safe (some now)).length ≤ 94)
    (h : Link.Run model now l) : ∀ line ∈ l.sent, Readable line := by
  obtain ⟨x, hx⟩ := h.inv hmodel hnow
  exact hx.readable

theorem sent_lines_readable_keyed : Readable (Application.terminal ['a'] HostBridge.new.output).line :=
  sent_lines_readable Kernel.namedModel_nil (by decide) (run_keyed "Jan 1  00:00".toList) _
    (List.mem_cons_of_mem _ List.mem_cons_self)

theorem waiting_moves (hmodel : NamedModel model) (hnow : (safe (some now)).length ≤ 94)
    (h : Link.Run model now l) (hrunning : l.shell.running = true) (hwaiting : l.host.waiting = some line)
    (display : Bool) : ∃ actor l', actor ≠ Actor.user ∧ Link.Step model now actor l l' := by
  obtain ⟨x, hx⟩ := h.inv hmodel hnow
  obtain ⟨queue, hunread, -, hquestions⟩ := hx.questions
  obtain ⟨lines, hinbox, hinbound, hanswers⟩ := hx.answers
  rcases hx.sync.waiting_way (hx.waiting.trans hwaiting) with ⟨hasked, -⟩ | ⟨b, -, hanswered, -⟩
  -- The guest has the question left to read, or the host the answer.
  · have hqueue : queue ≠ [] := fun he => by rw [← hquestions, he] at hasked; cases hasked
    obtain ⟨byte, port, hport⟩ := List.exists_cons_of_ne_nil (hunread.ne_nil hqueue)
    have hdesktop : l.shell.Desktop (Compositor.Reachable model) := fun s hs => ((hx.shell.tidy hmodel).desktop s hs).1
    obtain ⟨⟨shell, messages⟩, hs⟩ := Shell.step_returns hmodel.toShellModel hdesktop (.bridge byte)
    obtain ⟨-, replies, events, rfl⟩ := bridgeByte_parts hs
    exact ⟨.guest, _, by decide, .read display hport hrunning hs⟩
  · obtain ⟨s, hhost⟩ : ∃ s, l.host = .running s := by
      cases hhost : l.host with
      | running s => exact ⟨s, rfl⟩
      | connecting | ended =>
        rw [hhost] at hwaiting
        cases hwaiting
    cases lines with
    | nil =>
      rw [hanswered] at hanswers
      cases hanswers
    | cons first lines =>
      have hline : readLine l.inbox = some (first, unlines lines) := by
        rw [hinbox, unlines_cons]
        exact readLine_append (hinbound first List.mem_cons_self).inline
      cases hr : s.receive now first with
      | none => exact ⟨.host, _, by decide, .rejected hhost hline hr⟩
      | some burst => exact ⟨.host, _, by decide, .receive hhost hline hr⟩

def Link.Turns (model : List ShellSurface) (now : Str) : Link → Link → Prop :=
  Relation.ReflTransGen fun l l' => ∃ actor, actor ≠ Actor.user ∧ Link.Step model now actor l l'

/-- The host never waits in vain: as long as the machine runs, the guest and the host get to the answer. -/
theorem answer_comes (hmodel : NamedModel model) (hnow : (safe (some now)).length ≤ 94)
    (h : Link.Run model now l) (hrunning : l.shell.running = true) (hwaiting : l.host.waiting = some line) :
    ∃ l' b, Link.Turns model now l l' ∧ l'.outcomes = l.outcomes ++ [(line, b)] := by
  -- By induction on what is left to do: a step brings the answer, or it leaves less.
  induction l using Link.less_wf.induction with
  | _ l ih =>
    obtain ⟨x, hx⟩ := h.inv hmodel hnow
    obtain ⟨actor, l', hactor, hstep⟩ := waiting_moves hmodel hnow h hrunning hwaiting true
    rcases hx.moves hrunning hwaiting hactor hstep with ⟨b, houtcome⟩ | ⟨houtcome, hwaiting', hrunning', hless⟩
    · exact ⟨l', b, .single ⟨actor, hactor, hstep⟩, houtcome⟩
    · obtain ⟨l'', b, hturns, hlast⟩ := ih l' hless (h.step actor hstep) hrunning' hwaiting'
      exact ⟨l'', b, .head ⟨actor, hactor, hstep⟩ hturns, houtcome ▸ hlast⟩

theorem answer_comes_connected : ∃ l' b, Link.Turns [] "Jan 1  00:00".toList (connected "Jan 1  00:00".toList) l' ∧
    l'.outcomes = [(Application.wallpaper.line, b)] :=
  answer_comes Kernel.namedModel_nil (by decide) (run_connected _ .new rfl rfl) rfl rfl

end Pippin.Host
