import Pippin.Kernel.Ipc

/-! The PS/2 driver of `ps2.rs`. Its loop runs with interrupts on: before each turn other
code may call the port routines, so a turn carries the calls made since the one before. -/

namespace Pippin.Ps2
open Ipc

def keyEvent : UInt16 := 0x100

def mouseEvent : UInt16 := 0x101

def timerEvent : UInt16 := 1

/-- `MOUSE_BYTES`, `MOUSE_INDEX` and `MOUSE_PACKET_SIZE`. -/
structure Mouse where
  bytes : Vector UInt8 4
  index : Nat
  packetSize : Nat
  size_le : packetSize ≤ 4
  index_lt : index < packetSize

namespace Mouse

def wheel (m : Mouse) : UInt8 :=
  if m.packetSize = 4 then
    let nibble := m.bytes[3] &&& 0x0f
    if nibble &&& 0x08 ≠ 0 then nibble ||| 0xf0 else nibble
  else 0

def packet (m : Mouse) : UInt32 :=
  m.bytes[0].toUInt32 ||| (m.bytes[1].toUInt32 <<< 8) ||| (m.bytes[2].toUInt32 <<< 16) ||| (m.wheel.toUInt32 <<< 24)

def feed (m : Mouse) (byte : UInt8) : Mouse × Option UInt32 :=
  if m.index = 0 ∧ byte &&& 8 = 0 then (m, none)
  else
    let bytes := m.bytes.set m.index byte (Nat.lt_of_lt_of_le m.index_lt m.size_le)
    if h : m.index + 1 = m.packetSize then
      let m : Mouse := { m with bytes, index := 0, index_lt := Nat.zero_lt_of_lt m.index_lt }
      (m, some m.packet)
    else ({ m with bytes, index := m.index + 1, index_lt := Nat.lt_of_le_of_ne m.index_lt h }, none)

end Mouse

/-! ## Other code -/

def onTick (bootPort : UInt16) (tick : UInt64) (ports : Ports) : Ports :=
  if tick % 100 ≠ 0 then ports
  else if bootPort ≠ 0 then (sendSystem ports bootPort timerEvent tick).2
  else ports

inductive Other where
  | tick (count : UInt64)
  | create (pid : UInt32)
  | send (pid : UInt32) (id kind : UInt16) (value : UInt64)
  | recv (pid : UInt32) (id : UInt16)

def Other.run (bootPort : UInt16) (ports : Ports) : Other → Ports
  | .tick count => onTick bootPort count ports
  | .create pid => (Ipc.create ports pid).2
  | .send pid id kind value => (Ipc.send ports pid id kind value).2
  | .recv pid id => (Ipc.recv ports pid id).2

def runOthers (bootPort : UInt16) (calls : List Other) (ports : Ports) : Ports :=
  calls.foldl (Other.run bootPort) ports

/-! ## The driver -/

/-- A turn of the loop of `poll`: what ports 0x64 and 0x60 return. -/
structure Turn where
  before : List Other
  status : UInt8
  byte : UInt8

structure Driver where
  mouse : Mouse
  ports : Ports
  events : Nat

/-- `if ipc::send_system(port, kind, value) { events += 1; }` -/
def Driver.post (d : Driver) (port kind : UInt16) (value : UInt64) : Driver :=
  let (sent, ports) := sendSystem d.ports port kind value
  { d with ports, events := if sent then d.events + 1 else d.events }

def Driver.take (d : Driver) (port : UInt16) (t : Turn) : Driver :=
  if t.status &&& 0x20 = 0 then d.post port keyEvent t.byte.toUInt64
  else
    let (mouse, packet) := d.mouse.feed t.byte
    match packet with
    | none => { d with mouse }
    | some packet => { d with mouse }.post port mouseEvent packet.toUInt64

/-- The loop of `poll`. Where no turn is left the controller has no byte. -/
def pollLoop (port : UInt16) : Nat → List Turn → Driver → Driver
  | 0, _, d => d
  | _, [], d => d
  | n + 1, t :: ts, d =>
    let d := { d with ports := runOthers port t.before d.ports }
    if t.status &&& 1 = 0 then d else pollLoop port n ts (d.take port t)

def poll (port : UInt16) (turns : List Turn) (mouse : Mouse) (ports : Ports) : Driver :=
  pollLoop port 32 turns ⟨mouse, ports, 0⟩

/-! ## What is offered to a port -/

/-- What the controller delivers: a keyboard byte, or the byte that completes a packet. -/
inductive Input where
  | key (byte : UInt8)
  | mouse (packet : UInt32)
deriving DecidableEq, Repr

def Input.event : Input → Event
  | .key byte => ⟨keyEvent, 0, byte.toUInt64⟩
  | .mouse packet => ⟨mouseEvent, 0, packet.toUInt64⟩

def Turn.input (t : Turn) (m : Mouse) : Mouse × Option Input :=
  if t.status &&& 0x20 = 0 then (m, some (.key t.byte))
  else ((m.feed t.byte).1, (m.feed t.byte).2.map .mouse)

def inputs : Nat → List Turn → Mouse → List Input
  | 0, _, _ => []
  | _, [], _ => []
  | n + 1, t :: ts, m =>
    if t.status &&& 1 = 0 then [] else (t.input m).2.toList ++ inputs n ts (t.input m).1

def Other.offers (i : Index) : Other → List Event
  | .tick count => if count % 100 ≠ 0 then [] else [⟨timerEvent, 0, count⟩]
  | .send pid id kind value => if index id = some i then [⟨kind, pid, value⟩] else []
  | .create _ => []
  | .recv _ _ => []

def offered (i : Index) : Nat → List Turn → Mouse → List Event
  | 0, _, _ => []
  | _, [], _ => []
  | n + 1, t :: ts, m =>
    t.before.flatMap (Other.offers i) ++
      if t.status &&& 1 = 0 then []
      else (t.input m).2.toList.map Input.event ++ offered i n ts (t.input m).1

/-! ## The queue of a port -/

def queue (ports : Ports) (i : Index) : List Event := (ports i).ring.toList queueLen

structure Owned (ports : Ports) (i : Index) (pid : UInt32) : Prop where
  owner : (ports i).owner = pid
  ok : (ports i).ring.Ok queueLen

/-- The calls of other processes: pid 0 is the kernel's, and a process receives as itself. -/
def Other.Foreign (pid : UInt32) : Other → Prop
  | .send sender .. => sender ≠ 0
  | .recv receiver _ => receiver ≠ pid
  | .tick _ => True
  | .create _ => True

variable {ports ports' : Ports} {port id kind : UInt16} {value : UInt64} {pid source : UInt32} {i j : Index}

theorem Owned.length_le (h : Owned ports i pid) : (queue ports i).length ≤ queueLen := by
  unfold queue
  rw [RingBuffer.length_toList]
  exact h.ok.len_le

theorem Owned.update_ne (h : Owned ports i pid) (hj : i ≠ j) (p : Port) :
    Owned (Function.update ports j p) i pid ∧ queue (Function.update ports j p) i = queue ports i := by
  have heq : Function.update ports j p i = ports i := Function.update_of_ne hj ..
  constructor
  · exact ⟨by rw [heq]; exact h.owner, by rw [heq]; exact h.ok⟩
  · unfold queue
    rw [heq]

theorem Owned.sent (h : Owned ports i pid) (hpid : pid ≠ 0) (id kind : UInt16) (value : UInt64) (source : UInt32) :
    Owned (sendAs ports id kind value source).2 i pid ∧ queue (sendAs ports id kind value source).2 i =
      (queue ports i ++ if index id = some i then [(⟨kind, source, value⟩ : Event)] else []).take queueLen := by
  have hlen := h.length_le
  rcases sendAs_cases ports id kind value source with ⟨j, hj, -, hroom, hrun⟩ | ⟨hrun, hfull⟩
  · rw [hrun]
    by_cases hij : i = j
    · subst hij
      rw [if_pos hj]
      refine ⟨⟨?_, ?_⟩, ?_⟩ <;> dsimp only
      · rw [Function.update_self]
        exact h.owner
      · rw [Function.update_self]
        exact h.ok.push _
      · have hpush : queue (Function.update ports i
            { ports i with ring := (ports i).ring.push queueLen ⟨kind, source, value⟩ }) i =
            queue ports i ++ [⟨kind, source, value⟩] := by
          unfold queue
          rw [Function.update_self]
          exact RingBuffer.toList_push hroom
        rw [hpush, List.take_of_length_le]
        rw [List.length_append, queue, RingBuffer.length_toList]
        exact hroom
    · obtain ⟨hown, hqueue⟩ := h.update_ne hij { ports j with
        ring := (ports j).ring.push queueLen ⟨kind, source, value⟩ }
      have hne : index id ≠ some i := fun hi => hij (Option.some.inj (hi.symm.trans hj))
      rw [if_neg hne, List.append_nil, List.take_of_length_le hlen]
      exact ⟨hown, hqueue⟩
  · rw [hrun]
    refine ⟨h, ?_⟩
    split_ifs with hi
    · have hno : ¬(ports i).ring.len < queueLen := fun hlt => hfull i hi ⟨by rw [h.owner]; exact hpid, hlt⟩
      rw [List.take_append_of_le_length, List.take_of_length_le hlen]
      rw [queue, RingBuffer.length_toList]
      exact Nat.not_lt.mp hno
    · rw [List.append_nil, List.take_of_length_le hlen]

theorem Owned.created (h : Owned ports i pid) (hpid : pid ≠ 0) (caller : UInt32) :
    Owned (Ipc.create ports caller).2 i pid ∧ queue (Ipc.create ports caller).2 i = queue ports i := by
  rcases hc : Ipc.create ports caller with ⟨_ | r, ports'⟩
  · rw [(create_none hc).2]
    exact ⟨h, rfl⟩
  · obtain ⟨j, -, hfree, rfl⟩ := create_some hc
    refine h.update_ne (fun hij => hpid ?_) _
    rw [← h.owner, hij]
    exact hfree

theorem Owned.missed (h : Owned ports i pid) {caller : UInt32} (hne : caller ≠ pid) (id : UInt16) :
    Owned (Ipc.recv ports caller id).2 i pid ∧ queue (Ipc.recv ports caller id).2 i = queue ports i := by
  rcases recv_cases ports caller id with ⟨j, e, ring, -, how, -, hrun⟩ | ⟨hrun, -⟩
  · rw [hrun]
    refine h.update_ne (fun hij => hne ?_) _
    rw [← how, ← h.owner, hij]
  · rw [hrun]
    exact ⟨h, rfl⟩

theorem Owned.other (h : Owned ports i pid) (hpid : pid ≠ 0) (hport : index port = some i) {c : Other}
    (hc : c.Foreign pid) : Owned (c.run port ports) i pid ∧
      queue (c.run port ports) i = (queue ports i ++ c.offers i).take queueLen := by
  have hlen := h.length_le
  cases c with
  | tick count =>
    show Owned (onTick port count ports) i pid ∧ queue (onTick port count ports) i =
      (queue ports i ++ if count % 100 ≠ 0 then [] else [(⟨timerEvent, 0, count⟩ : Event)]).take queueLen
    unfold onTick
    split_ifs with htick hzero
    · rw [List.append_nil, List.take_of_length_le hlen]
      exact ⟨h, rfl⟩
    · have hsend := h.sent hpid port timerEvent count 0
      rw [if_pos hport] at hsend
      exact hsend
    · rw [not_not.mp hzero] at hport
      cases hport
  | create caller =>
    show _ ∧ _ = (queue ports i ++ []).take queueLen
    rw [List.append_nil, List.take_of_length_le hlen]
    exact h.created hpid caller
  | send sender id kind value => exact h.sent hpid id kind value sender
  | recv caller id =>
    show _ ∧ _ = (queue ports i ++ []).take queueLen
    rw [List.append_nil, List.take_of_length_le hlen]
    exact h.missed hc id

theorem take_append_take {α : Type} (n : Nat) (l a b : List α) :
    ((l ++ a).take n ++ b).take n = (l ++ (a ++ b)).take n := by
  have hsplit : (l ++ a ++ b).take n = (l ++ a).take n ++ b.take (n - (l ++ a).length) := List.take_append
  rw [← List.append_assoc, hsplit, List.take_append, List.take_take, Nat.min_self, List.length_take]
  congr 2
  omega

theorem Owned.others (h : Owned ports i pid) (hpid : pid ≠ 0) (hport : index port = some i) {calls : List Other}
    (hc : ∀ c ∈ calls, c.Foreign pid) : Owned (runOthers port calls ports) i pid ∧
      queue (runOthers port calls ports) i = (queue ports i ++ calls.flatMap (Other.offers i)).take queueLen := by
  induction calls generalizing ports with
  | nil =>
    rw [List.flatMap_nil, List.append_nil, List.take_of_length_le h.length_le]
    exact ⟨h, rfl⟩
  | cons c calls ih =>
    obtain ⟨hown, hqueue⟩ := h.other hpid hport (hc c List.mem_cons_self)
    obtain ⟨hown', hqueue'⟩ := ih hown fun c' hc' => hc c' (List.mem_cons_of_mem c hc')
    refine ⟨hown', hqueue'.trans ?_⟩
    rw [hqueue, take_append_take, List.flatMap_cons]

theorem Owned.turn {d : Driver} (h : Owned d.ports i pid) (hpid : pid ≠ 0) (hport : index port = some i) (t : Turn) :
    (d.take port t).mouse = (t.input d.mouse).1 ∧ Owned (d.take port t).ports i pid ∧
      queue (d.take port t).ports i =
        (queue d.ports i ++ (t.input d.mouse).2.toList.map Input.event).take queueLen := by
  have hpost : ∀ kind value, Owned (d.post port kind value).ports i pid ∧
      queue (d.post port kind value).ports i = (queue d.ports i ++ [(⟨kind, 0, value⟩ : Event)]).take queueLen := by
    intro kind value
    have hsend := h.sent hpid port kind value 0
    rw [if_pos hport] at hsend
    exact hsend
  unfold Driver.take Turn.input
  split_ifs with hkey
  · exact ⟨rfl, hpost _ _⟩
  · dsimp only
    cases (d.mouse.feed t.byte).2 with
    | none =>
      refine ⟨rfl, h, ?_⟩
      show _ = (queue d.ports i ++ []).take queueLen
      rw [List.append_nil, List.take_of_length_le h.length_le]
    | some packet => exact ⟨rfl, hpost _ _⟩

theorem Owned.polled {n : Nat} {turns : List Turn} {d : Driver} (h : Owned d.ports i pid) (hpid : pid ≠ 0)
    (hport : index port = some i) (hc : ∀ t ∈ turns, ∀ c ∈ t.before, c.Foreign pid) :
    Owned (pollLoop port n turns d).ports i pid ∧ queue (pollLoop port n turns d).ports i =
      (queue d.ports i ++ offered i n turns d.mouse).take queueLen := by
  induction n generalizing turns d with
  | zero =>
    unfold pollLoop offered
    rw [List.append_nil, List.take_of_length_le h.length_le]
    exact ⟨h, rfl⟩
  | succ n ih =>
    cases turns with
    | nil =>
      unfold pollLoop offered
      rw [List.append_nil, List.take_of_length_le h.length_le]
      exact ⟨h, rfl⟩
    | cons t turns =>
      obtain ⟨hown, hqueue⟩ := h.others hpid hport (hc t List.mem_cons_self)
      unfold pollLoop offered
      dsimp only
      split_ifs with hready
      · rw [List.append_nil]
        exact ⟨hown, hqueue⟩
      · obtain ⟨hmouse, hown', hqueue'⟩ :=
          Owned.turn (d := { d with ports := runOthers port t.before d.ports }) hown hpid hport t
        obtain ⟨hlast, hrest⟩ := ih hown' fun t' ht' => hc t' (List.mem_cons_of_mem t ht')
        refine ⟨hlast, hrest.trans ?_⟩
        rw [hqueue', hqueue, hmouse, take_append_take, take_append_take]

end Pippin.Ps2
