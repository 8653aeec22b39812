import Pippin.Kernel.Ps2

/-! An iteration of the main loop of `lib.rs`: `ps2::poll` fills the boot port, and
`event::poll` empties it into the shell. Other processes and timer interrupts use the ports
at any time. -/

namespace Pippin.Ps2
open Ipc

/-- The body of `while let Some(input) = event::poll()`: `key_scancode` gets the byte of a
key event, `mouse_packet` the packet of a mouse event. -/
def dispatch (e : Event) : Option Input :=
  if e.kind = keyEvent then some (.key e.value.toUInt8)
  else if e.kind = mouseEvent then some (.mouse e.value.toUInt32)
  else none

/-- The loop over `event::poll`, with what it received; other code runs in each round. -/
inductive Drained (port : UInt16) (pid : UInt32) : Ports → List Event → Prop
  | done {ports ports'} (hr : recv ports pid port = (none, ports')) : Drained port pid ports []
  | next {ports ports' e es} (calls : List Other) (hc : ∀ c ∈ calls, c.Foreign pid)
      (hr : recv ports pid port = (some e, ports')) (hd : Drained port pid (runOthers port calls ports') es) :
      Drained port pid ports (e :: es)

/-- An iteration that starts with the boot port empty: the turns of `ps2::poll`, the calls of
other code until the queue is drained, and what is received. -/
structure Iteration (port : UInt16) (i : Index) (pid : UInt32) (ports : Ports) (mouse : Mouse) (turns : List Turn)
    (between : List Other) (received : List Event) : Prop where
  port_eq : index port = some i
  pid_ne : pid ≠ 0
  owned : Owned ports i pid
  empty : queue ports i = []
  turns_foreign : ∀ t ∈ turns, ∀ c ∈ t.before, c.Foreign pid
  between_foreign : ∀ c ∈ between, c.Foreign pid
  drained : Drained port pid (runOthers port between (poll port turns mouse ports).ports) received

/-! ## Events of the controller -/

def FromController (e : Event) : Prop := e.sourcePid = 0 ∧ (e.kind = keyEvent ∨ e.kind = mouseEvent)

instance : DecidablePred FromController := fun e => inferInstanceAs (Decidable (e.sourcePid = 0 ∧ (_ ∨ _)))

variable {port : UInt16} {pid : UInt32} {i : Index} {ports : Ports} {mouse : Mouse} {turns : List Turn}
variable {between : List Other} {received : List Event}

theorem fromController_event (input : Input) : FromController input.event := by
  cases input with
  | key byte => exact ⟨rfl, Or.inl rfl⟩
  | mouse packet => exact ⟨rfl, Or.inr rfl⟩

theorem dispatch_event (input : Input) : dispatch input.event = some input := by
  cases input with
  | key byte =>
    show some (Input.key byte.toUInt64.toUInt8) = _
    rw [UInt8.toUInt8_toUInt64]
  | mouse packet =>
    show some (Input.mouse packet.toUInt64.toUInt32) = _
    rw [UInt32.toUInt32_toUInt64]

theorem not_fromController_offers {c : Other} (hc : c.Foreign pid) {e : Event} (he : e ∈ c.offers i) :
    ¬FromController e := by
  cases c with
  | tick count =>
    dsimp only [Other.offers] at he
    split_ifs at he with htick
    · cases he
    · rw [List.mem_singleton.mp he]
      have hkind : ¬(timerEvent = keyEvent ∨ timerEvent = mouseEvent) := by decide
      exact fun h => hkind h.2
  | send sender id kind value =>
    dsimp only [Other.offers] at he
    split_ifs at he with hid
    · rw [List.mem_singleton.mp he]
      exact fun h => hc h.1
    · cases he
  | create caller => cases he
  | recv caller id => cases he

theorem filter_offers {calls : List Other} (hc : ∀ c ∈ calls, c.Foreign pid) :
    (calls.flatMap (Other.offers i)).filter FromController = [] := by
  rw [List.filter_eq_nil_iff]
  intro e he
  obtain ⟨c, hmem, he⟩ := List.mem_flatMap.mp he
  rw [decide_eq_true_iff]
  exact not_fromController_offers (hc c hmem) he

theorem filter_events (l : List Input) : (l.map Input.event).filter FromController = l.map Input.event := by
  rw [List.filter_eq_self]
  intro e he
  obtain ⟨input, -, rfl⟩ := List.mem_map.mp he
  exact decide_eq_true (fromController_event input)

theorem filter_offered {n : Nat} (hc : ∀ t ∈ turns, ∀ c ∈ t.before, c.Foreign pid) :
    (offered i n turns mouse).filter FromController = (inputs n turns mouse).map Input.event := by
  induction n generalizing turns mouse with
  | zero => rfl
  | succ n ih =>
    cases turns with
    | nil => rfl
    | cons t turns =>
      unfold offered inputs
      rw [List.filter_append, filter_offers (hc t List.mem_cons_self), List.nil_append]
      split_ifs
      · rfl
      · rw [List.filter_append, filter_events, ih fun t' ht' => hc t' (List.mem_cons_of_mem t ht'), List.map_append]

/-! ## The round trip through the port -/

theorem dispatch_events (l : List Input) : (l.map Input.event).filterMap dispatch = l := by
  rw [List.filterMap_map]
  refine (List.filterMap_congr fun input _ => dispatch_event input).trans ?_
  exact List.filterMap_some

theorem Owned.filter_others (hown : Owned ports i pid) (hpid : pid ≠ 0) (hport : index port = some i)
    {calls : List Other} (hc : ∀ c ∈ calls, c.Foreign pid) :
    (queue (runOthers port calls ports) i).filter FromController = (queue ports i).filter FromController := by
  have hsub :
      ((calls.flatMap (Other.offers i)).take (queueLen - (queue ports i).length)).filter FromController = [] := by
    refine List.eq_nil_of_sublist_nil ?_
    rw [← filter_offers (i := i) hc]
    exact (List.take_sublist _ _).filter _
  rw [(hown.others hpid hport hc).2, List.take_append, List.take_of_length_le hown.length_le, List.filter_append, hsub,
    List.append_nil]

theorem Drained.kept (h : Drained port pid ports received) (hport : index port = some i) (hpid : pid ≠ 0)
    (hown : Owned ports i pid) : received.filter FromController = (queue ports i).filter FromController := by
  induction h with
  | @done ports ports' hr =>
    have hlen := (recv_none hr).2 i hport hown.owner
    have hnil : queue ports i = [] := List.eq_nil_of_length_eq_zero (by
      unfold queue
      rw [RingBuffer.length_toList]
      exact hlen)
    rw [hnil]
  | @next ports ports' e es calls hc hr _ ih =>
    obtain ⟨j, ring, hj, how, hpop, rfl⟩ := recv_some hr
    rw [hport] at hj
    cases hj
    have hqueue : queue ports i = e :: ring.toList queueLen := toList_of_pop hown.ok hpop
    have hown' : Owned (Function.update ports i { ports i with ring }) i pid := by
      constructor
      · rw [Function.update_self]
        exact hown.owner
      · rw [Function.update_self]
        exact hown.ok.pop hpop
    have hrest : queue (Function.update ports i { ports i with ring }) i = ring.toList queueLen := by
      unfold queue
      rw [Function.update_self]
    rw [hqueue, List.filter_cons, List.filter_cons, ih (hown'.others hpid hport hc).1,
      hown'.filter_others hpid hport hc, hrest]

theorem Iteration.kept (h : Iteration port i pid ports mouse turns between received) :
    received.filter FromController = ((offered i 32 turns mouse).take queueLen).filter FromController := by
  obtain ⟨hown, hqueue⟩ := Owned.polled (n := 32) (d := ⟨mouse, ports, 0⟩) h.owned h.pid_ne h.port_eq h.turns_foreign
  rw [h.empty, List.nil_append] at hqueue
  have hother := hown.filter_others h.pid_ne h.port_eq h.between_foreign
  rw [hqueue] at hother
  exact (h.drained.kept h.port_eq h.pid_ne (hown.others h.pid_ne h.port_eq h.between_foreign).1).trans hother

/-- No input is lost between driver and shell: in an iteration that starts with the boot port
empty, what the shell gets from the controller is what the controller delivered, if and only
if no input comes after the sixteenth event offered to the port while `ps2::poll` runs. -/
theorem no_input_lost (h : Iteration port i pid ports mouse turns between received) :
    (received.filter FromController).filterMap dispatch = inputs 32 turns mouse ↔
      ∀ e ∈ (offered i 32 turns mouse).drop queueLen, ¬FromController e := by
  have hall : (offered i 32 turns mouse).filter FromController = (inputs 32 turns mouse).map Input.event :=
    filter_offered h.turns_foreign
  have hsplit : (offered i 32 turns mouse).filter FromController =
      ((offered i 32 turns mouse).take queueLen).filter FromController ++
        ((offered i 32 turns mouse).drop queueLen).filter FromController := by
    rw [← List.filter_append, List.take_append_drop]
  have hnone : (∀ e ∈ (offered i 32 turns mouse).drop queueLen, ¬FromController e) ↔
      ((offered i 32 turns mouse).drop queueLen).filter FromController = [] := by
    rw [List.filter_eq_nil_iff]
    exact forall₂_congr fun e _ => by rw [decide_eq_true_iff]
  rw [h.kept, hnone]
  constructor
  · intro heq
    have hlen := congrArg List.length hsplit
    rw [List.length_append, hall, List.length_map, ← heq] at hlen
    have hle := List.length_filterMap_le dispatch (((offered i 32 turns mouse).take queueLen).filter FromController)
    exact List.eq_nil_of_length_eq_zero (by omega)
  · intro hnil
    rw [hnil, List.append_nil, hall] at hsplit
    rw [← hsplit, dispatch_events]

/-! ## A burst of keys -/

theorem Owned.drained (hown : Owned ports i pid) (hport : index port = some i) :
    ∃ received, Drained port pid ports received := by
  induction hn : (ports i).ring.len generalizing ports with
  | zero =>
    rcases recv_cases ports pid port with ⟨j, e, ring, hj, -, hpop, -⟩ | ⟨hrun, -⟩
    · rw [hport] at hj
      cases hj
      rw [RingBuffer.pop_eq_none.mpr hn] at hpop
      cases hpop
    · exact ⟨[], .done hrun⟩
  | succ n ih =>
    rcases recv_cases ports pid port with ⟨j, e, ring, hj, -, hpop, hrun⟩ | ⟨-, hempty⟩
    · rw [hport] at hj
      cases hj
      have hlen := congrArg List.length (toList_of_pop hown.ok hpop)
      rw [RingBuffer.length_toList, List.length_cons, RingBuffer.length_toList] at hlen
      have hown' : Owned (Function.update ports i { ports i with ring }) i pid := by
        constructor
        · rw [Function.update_self]
          exact hown.owner
        · rw [Function.update_self]
          exact hown.ok.pop hpop
      obtain ⟨es, hes⟩ := ih hown' (by
        rw [Function.update_self]
        show ring.len = n
        omega)
      exact ⟨e :: es, .next [] nofun hrun hes⟩
    · have hzero := hempty i hport hown.owner
      omega

def Mouse.reset : Mouse := ⟨Vector.replicate 4 0, 0, 3, by decide, by decide⟩

def bootPorts : Ports := (create (fun _ => Port.empty) 1).2

theorem bootPorts_owned : Owned bootPorts 0 1 := ⟨rfl, Port.empty_ok⟩

def keyTurn (byte : UInt8) : Turn := ⟨[], 1, byte⟩

theorem iteration_keys (bytes : List UInt8) : ∃ received,
    Iteration 1 0 1 bootPorts Mouse.reset (bytes.map keyTurn) [] received := by
  have hquiet : ∀ t ∈ bytes.map keyTurn, ∀ c ∈ t.before, c.Foreign 1 := by
    intro t ht c hc
    obtain ⟨byte, -, rfl⟩ := List.mem_map.mp ht
    cases hc
  have hport : index 1 = some 0 := rfl
  have hown := (Owned.polled (n := 32) (d := ⟨Mouse.reset, bootPorts, 0⟩) bootPorts_owned (by decide) hport hquiet).1
  obtain ⟨received, hd⟩ := hown.drained hport
  exact ⟨received, rfl, by decide, bootPorts_owned, rfl, hquiet, nofun, hd⟩

/-- Seventeen keyboard bytes in one iteration: the last one is lost. -/
theorem no_input_lost_burst : ¬∀ port i pid ports mouse turns between received,
    Iteration port i pid ports mouse turns between received →
      (received.filter FromController).filterMap dispatch = inputs 32 turns mouse := by
  intro h
  obtain ⟨received, hiter⟩ := iteration_keys (List.replicate 17 0x1e)
  have hall := congrArg List.length (h _ _ _ _ _ _ _ _ hiter)
  have hinputs : (inputs 32 ((List.replicate 17 0x1e).map keyTurn) Mouse.reset).length = 17 := by decide +kernel
  have hle := List.length_filterMap_le dispatch (received.filter FromController)
  have hfilter := List.length_filter_le (fun e => decide (FromController e))
    ((offered 0 32 ((List.replicate 17 0x1e).map keyTurn) Mouse.reset).take queueLen)
  have htake := List.length_take_le queueLen (offered 0 32 ((List.replicate 17 0x1e).map keyTurn) Mouse.reset)
  have hlen : queueLen = 16 := rfl
  rw [hiter.kept] at hle hall
  omega

theorem no_input_lost_single : ∃ received, Iteration 1 0 1 bootPorts Mouse.reset [keyTurn 0x1e] [] received ∧
    (received.filter FromController).filterMap dispatch = [.key 0x1e] := by
  obtain ⟨received, hiter⟩ := iteration_keys [0x1e]
  exact ⟨received, hiter, (no_input_lost hiter).mpr (by decide +kernel)⟩

end Pippin.Ps2
