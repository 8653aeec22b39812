import Pippin.Lib.RingBuffer

/-! The message ports of `ipc.rs`. Every call runs with interrupts off, so a call is one
step; the process id of the caller is an argument. -/

namespace Pippin.Ipc

abbrev maxPorts : Nat := 8

def queueLen : Nat := 16

structure Event where
  kind : UInt16
  sourcePid : UInt32
  value : UInt64
deriving DecidableEq, Repr

structure Port where
  owner : UInt32
  ring : RingBuffer Event

def Port.empty : Port := ⟨0, ⟨fun _ => ⟨0, 0, 0⟩, 0, 0⟩⟩

abbrev Index := Fin maxPorts

abbrev Ports := Index → Port

def index (id : UInt16) : Option Index :=
  if h : id ≠ 0 ∧ id.toNat ≤ maxPorts then
    some ⟨id.toNat - 1, by
      have hpos : id.toNat ≠ 0 := fun hc => h.1 (UInt16.toNat_inj.mp hc)
      omega⟩
  else none

def create (ports : Ports) (pid : UInt32) : Option UInt16 × Ports :=
  match (List.finRange maxPorts).find? fun i => (ports i).owner = 0 with
  | some i => (some (UInt16.ofNat (i + 1)), Function.update ports i { Port.empty with owner := pid })
  | none => (none, ports)

def sendAs (ports : Ports) (id kind : UInt16) (value : UInt64) (sourcePid : UInt32) : Bool × Ports :=
  match index id with
  | none => (false, ports)
  | some i =>
    if (ports i).owner ≠ 0 ∧ (ports i).ring.len < queueLen then
      (true, Function.update ports i
        { ports i with ring := (ports i).ring.push queueLen ⟨kind, sourcePid, value⟩ })
    else (false, ports)

def send (ports : Ports) (pid : UInt32) (id kind : UInt16) (value : UInt64) : Bool × Ports :=
  sendAs ports id kind value pid

def sendSystem (ports : Ports) (id kind : UInt16) (value : UInt64) : Bool × Ports := sendAs ports id kind value 0

def recv (ports : Ports) (pid : UInt32) (id : UInt16) : Option Event × Ports :=
  match index id with
  | none => (none, ports)
  | some i =>
    if (ports i).owner = pid then
      match (ports i).ring.pop queueLen with
      | some (event, ring) => (some event, Function.update ports i { ports i with ring })
      | none => (none, ports)
    else (none, ports)

variable {ports ports' : Ports} {pid : UInt32} {id kind : UInt16} {value : UInt64} {i : Index}

theorem index_ofNat (i : Index) : index (UInt16.ofNat (i + 1)) = some i := by
  revert i
  decide

/-! ## Ports as queues -/

/-- What was accepted by a port and what was received from it, oldest first. -/
structure History where
  accepted : Index → List Event
  received : Index → List Event

namespace History

def pending (h : History) (i : Index) : List Event := (h.accepted i).drop (h.received i).length

def accept (h : History) (i : Index) (e : Event) : History :=
  { h with accepted := Function.update h.accepted i (h.accepted i ++ [e]) }

def receive (h : History) (i : Index) (e : Event) : History :=
  { h with received := Function.update h.received i (h.received i ++ [e]) }

variable {h : History} {i j : Index} {e : Event}

theorem accept_self : (h.accept i e).accepted i = h.accepted i ++ [e] := Function.update_self ..

theorem accept_of_ne (hj : j ≠ i) : (h.accept i e).accepted j = h.accepted j := Function.update_of_ne hj ..

theorem receive_self : (h.receive i e).received i = h.received i ++ [e] := Function.update_self ..

theorem receive_of_ne (hj : j ≠ i) : (h.receive i e).received j = h.received j := Function.update_of_ne hj ..

end History

/-- Every interleaving of the calls, with what they accepted and handed out. -/
inductive Run : Ports → History → Prop
  | boot : Run (fun _ => Port.empty) ⟨fun _ => [], fun _ => []⟩
  | create {ports ports' h pid r} (hr : Run ports h) (hpid : pid ≠ 0) (hc : create ports pid = (r, ports')) :
      Run ports' h
  | send {ports ports' h pid id i kind value} (hr : Run ports h) (hpid : pid ≠ 0) (hi : index id = some i)
      (hs : send ports pid id kind value = (true, ports')) : Run ports' (h.accept i ⟨kind, pid, value⟩)
  | system {ports ports' h id i kind value} (hr : Run ports h) (hi : index id = some i)
      (hs : sendSystem ports id kind value = (true, ports')) : Run ports' (h.accept i ⟨kind, 0, value⟩)
  | refused {ports ports' h id kind value pid} (hr : Run ports h)
      (hs : sendAs ports id kind value pid = (false, ports')) : Run ports' h
  | recv {ports ports' h pid id i e} (hr : Run ports h) (hpid : pid ≠ 0) (hi : index id = some i)
      (hv : recv ports pid id = (some e, ports')) : Run ports' (h.receive i e)
  | missed {ports ports' h pid id} (hr : Run ports h) (hpid : pid ≠ 0)
      (hv : recv ports pid id = (none, ports')) : Run ports' h

structure PortInv (ports : Ports) (h : History) : Prop where
  ok : ∀ i, (ports i).ring.Ok queueLen
  split : ∀ i, h.accepted i = h.received i ++ (ports i).ring.toList queueLen
  closed : ∀ i, (ports i).owner = 0 → h.accepted i = []

variable {h : History}

theorem PortInv.pending (hinv : PortInv ports h) (i : Index) : (ports i).ring.toList queueLen = h.pending i := by
  rw [History.pending, hinv.split, List.drop_left]

theorem Port.empty_ok : Port.empty.ring.Ok queueLen := ⟨by decide, by decide⟩

theorem create_some {r : UInt16} (hc : create ports pid = (some r, ports')) : ∃ i, index r = some i ∧
    (ports i).owner = 0 ∧ ports' = Function.update ports i { Port.empty with owner := pid } := by
  unfold create at hc
  cases hf : (List.finRange maxPorts).find? fun i => (ports i).owner = 0 with
  | none =>
    rw [hf] at hc
    cases hc
  | some i =>
    rw [hf] at hc
    cases hc
    exact ⟨i, index_ofNat i, by simpa using List.find?_some hf, rfl⟩

theorem create_none (hc : create ports pid = (none, ports')) : (∀ i, (ports i).owner ≠ 0) ∧ ports' = ports := by
  unfold create at hc
  cases hf : (List.finRange maxPorts).find? fun i => (ports i).owner = 0 with
  | none =>
    rw [hf] at hc
    cases hc
    refine ⟨fun i => ?_, rfl⟩
    simpa using List.find?_eq_none.mp hf i (List.mem_finRange i)
  | some i =>
    rw [hf] at hc
    cases hc

theorem sendAs_cases (ports : Ports) (id kind : UInt16) (value : UInt64) (pid : UInt32) :
    (∃ i, index id = some i ∧ (ports i).owner ≠ 0 ∧ (ports i).ring.len < queueLen ∧
      sendAs ports id kind value pid = (true, Function.update ports i
        { ports i with ring := (ports i).ring.push queueLen ⟨kind, pid, value⟩ })) ∨
    (sendAs ports id kind value pid = (false, ports) ∧
      ∀ i, index id = some i → ¬((ports i).owner ≠ 0 ∧ (ports i).ring.len < queueLen)) := by
  unfold sendAs
  cases hi : index id with
  | none => exact Or.inr ⟨rfl, nofun⟩
  | some i =>
    dsimp only
    split_ifs with hroom
    · exact Or.inl ⟨i, rfl, hroom.1, hroom.2, rfl⟩
    · refine Or.inr ⟨rfl, fun j hj => ?_⟩
      cases hj
      exact hroom

theorem sendAs_true (hs : sendAs ports id kind value pid = (true, ports')) : ∃ i, index id = some i ∧
    (ports i).owner ≠ 0 ∧ (ports i).ring.len < queueLen ∧ ports' = Function.update ports i
      { ports i with ring := (ports i).ring.push queueLen ⟨kind, pid, value⟩ } := by
  rcases sendAs_cases ports id kind value pid with ⟨i, hi, hopen, hroom, hrun⟩ | ⟨hrun, -⟩
  · rw [hrun] at hs
    cases hs
    exact ⟨i, hi, hopen, hroom, rfl⟩
  · rw [hrun] at hs
    cases hs

theorem sendAs_false (hs : sendAs ports id kind value pid = (false, ports')) : ports' = ports ∧
    ∀ i, index id = some i → ¬((ports i).owner ≠ 0 ∧ (ports i).ring.len < queueLen) := by
  rcases sendAs_cases ports id kind value pid with ⟨i, -, -, -, hrun⟩ | ⟨hrun, hfull⟩
  · rw [hrun] at hs
    cases hs
  · rw [hrun] at hs
    cases hs
    exact ⟨rfl, hfull⟩

theorem recv_cases (ports : Ports) (pid : UInt32) (id : UInt16) :
    (∃ i e ring, index id = some i ∧ (ports i).owner = pid ∧ (ports i).ring.pop queueLen = some (e, ring) ∧
      recv ports pid id = (some e, Function.update ports i { ports i with ring })) ∨
    (recv ports pid id = (none, ports) ∧
      ∀ i, index id = some i → (ports i).owner = pid → (ports i).ring.len = 0) := by
  unfold recv
  cases hi : index id with
  | none => exact Or.inr ⟨rfl, nofun⟩
  | some i =>
    dsimp only
    split_ifs with how
    · cases hp : (ports i).ring.pop queueLen with
      | none =>
        refine Or.inr ⟨rfl, fun j hj _ => ?_⟩
        cases hj
        exact RingBuffer.pop_eq_none.mp hp
      | some p => exact Or.inl ⟨i, p.1, p.2, rfl, how, hp, rfl⟩
    · refine Or.inr ⟨rfl, fun j hj hj' => ?_⟩
      cases hj
      exact absurd hj' how

theorem recv_some {e : Event} (hv : recv ports pid id = (some e, ports')) : ∃ i ring, index id = some i ∧
    (ports i).owner = pid ∧ (ports i).ring.pop queueLen = some (e, ring) ∧
      ports' = Function.update ports i { ports i with ring } := by
  rcases recv_cases ports pid id with ⟨i, e', ring, hi, how, hp, hrun⟩ | ⟨hrun, -⟩
  · rw [hrun] at hv
    cases hv
    exact ⟨i, ring, hi, how, hp, rfl⟩
  · rw [hrun] at hv
    cases hv

theorem recv_none (hv : recv ports pid id = (none, ports')) : ports' = ports ∧
    ∀ i, index id = some i → (ports i).owner = pid → (ports i).ring.len = 0 := by
  rcases recv_cases ports pid id with ⟨i, e, ring, -, -, -, hrun⟩ | ⟨hrun, hempty⟩
  · rw [hrun] at hv
    cases hv
  · rw [hrun] at hv
    cases hv
    exact ⟨rfl, hempty⟩

theorem toList_of_pop {r r' : RingBuffer Event} {e : Event} (hr : r.Ok queueLen) (hp : r.pop queueLen = some (e, r')) :
    r.toList queueLen = e :: r'.toList queueLen := by
  cases hl : r.toList queueLen with
  | nil =>
    have hlen : r.len = 0 := by rw [← RingBuffer.length_toList (r := r) (n := queueLen), hl]; rfl
    rw [RingBuffer.pop_eq_none.mpr hlen] at hp
    cases hp
  | cons x xs =>
    obtain ⟨r₁, hp₁, hxs⟩ := RingBuffer.toList_pop hr hl
    rw [hp] at hp₁
    cases hp₁
    rw [hxs]

/-! ## Steps and runs -/

theorem PortInv.create {r : Option UInt16} (hinv : PortInv ports h) (hpid : pid ≠ 0)
    (hc : create ports pid = (r, ports')) : PortInv ports' h := by
  cases r with
  | none =>
    rw [(create_none hc).2]
    exact hinv
  | some r =>
    obtain ⟨i, -, hfree, rfl⟩ := create_some hc
    -- a port without owner has no history
    have hnil := hinv.closed i hfree
    have hrec : h.received i = [] := (List.append_eq_nil_iff.mp ((hinv.split i).symm.trans hnil)).1
    refine ⟨fun j => ?_, fun j => ?_, fun j hj => ?_⟩ <;> by_cases he : j = i
    · rw [he, Function.update_self]
      exact Port.empty_ok
    · rw [Function.update_of_ne he]
      exact hinv.ok j
    · rw [he, Function.update_self, hnil, hrec]
      rfl
    · rw [Function.update_of_ne he]
      exact hinv.split j
    · rw [he, Function.update_self] at hj
      exact absurd hj hpid
    · rw [Function.update_of_ne he] at hj
      exact hinv.closed j hj

theorem PortInv.send (hinv : PortInv ports h) (hi : index id = some i)
    (hs : sendAs ports id kind value pid = (true, ports')) : PortInv ports' (h.accept i ⟨kind, pid, value⟩) := by
  obtain ⟨j, hj, hown, hroom, rfl⟩ := sendAs_true hs
  rw [hi] at hj
  cases hj
  refine ⟨fun j => ?_, fun j => ?_, fun j hj => ?_⟩ <;> by_cases he : j = i
  · rw [he, Function.update_self]
    exact (hinv.ok i).push _
  · rw [Function.update_of_ne he]
    exact hinv.ok j
  · rw [he, History.accept_self, Function.update_self, hinv.split]
    dsimp only
    rw [RingBuffer.toList_push hroom, List.append_assoc]
    rfl
  · rw [History.accept_of_ne he, Function.update_of_ne he]
    exact hinv.split j
  · rw [he, Function.update_self] at hj
    exact absurd hj hown
  · rw [Function.update_of_ne he] at hj
    rw [History.accept_of_ne he]
    exact hinv.closed j hj

theorem PortInv.recv {e : Event} (hinv : PortInv ports h) (hpid : pid ≠ 0) (hi : index id = some i)
    (hv : recv ports pid id = (some e, ports')) : PortInv ports' (h.receive i e) := by
  obtain ⟨j, ring, hj, hown, hpop, rfl⟩ := recv_some hv
  rw [hi] at hj
  cases hj
  refine ⟨fun j => ?_, fun j => ?_, fun j hj => ?_⟩ <;> by_cases he : j = i
  · rw [he, Function.update_self]
    exact (hinv.ok i).pop hpop
  · rw [Function.update_of_ne he]
    exact hinv.ok j
  · show h.accepted j = _
    rw [he, History.receive_self, Function.update_self, hinv.split, toList_of_pop (hinv.ok i) hpop,
      List.append_assoc, List.singleton_append]
  · show h.accepted j = _
    rw [History.receive_of_ne he, Function.update_of_ne he]
    exact hinv.split j
  · rw [he, Function.update_self] at hj
    exact absurd (hown.symm.trans hj) hpid
  · rw [Function.update_of_ne he] at hj
    exact hinv.closed j hj

theorem Run.inv (hr : Run ports h) : PortInv ports h := by
  induction hr with
  | boot => exact ⟨fun _ => Port.empty_ok, fun _ => rfl, fun _ _ => rfl⟩
  | create _ hpid hc ih => exact ih.create hpid hc
  | send _ _ hi hs ih => exact ih.send hi hs
  | system _ hi hs ih => exact ih.send hi hs
  | refused _ hs ih =>
    rw [(sendAs_false hs).1]
    exact ih
  | recv _ hpid hi hv ih => exact ih.recv hpid hi hv
  | missed _ _ hv ih =>
    rw [(recv_none hv).1]
    exact ih

/-- A port table that behaves as one queue of capacity 16 for each port. -/
structure Queues (ports : Ports) (h : History) : Prop where
  /-- Events are received in the order they were accepted, each once. -/
  order : ∀ i, h.accepted i = h.received i ++ h.pending i
  bound : ∀ i, (h.pending i).length ≤ 16
  send_iff : ∀ id kind value pid i, index id = some i → (ports i).owner ≠ 0 →
    ((sendAs ports id kind value pid).1 = true ↔ (h.pending i).length < 16)
  send_closed : ∀ id kind value pid, (∀ i, index id = some i → (ports i).owner = 0) →
    sendAs ports id kind value pid = (false, ports)
  send_refused : ∀ id kind value pid ports', sendAs ports id kind value pid = (false, ports') → ports' = ports
  recv_iff : ∀ pid id e, pid ≠ 0 → ((recv ports pid id).1 = some e ↔
    ∃ i, index id = some i ∧ (ports i).owner = pid ∧ (h.pending i).head? = some e)
  recv_missed : ∀ pid id ports', recv ports pid id = (none, ports') → ports' = ports
  create_free : ∀ pid id ports', create ports pid = (some id, ports') → ∃ i, index id = some i ∧
    (ports i).owner = 0 ∧ h.accepted i = [] ∧ (ports' i).owner = pid ∧ ∀ j, j ≠ i → ports' j = ports j
  create_full : ∀ pid ports', create ports pid = (none, ports') → (∀ i, (ports i).owner ≠ 0) ∧ ports' = ports

theorem PortInv.queues (hinv : PortInv ports h) : Queues ports h := by
  have hlen : ∀ i, (h.pending i).length = (ports i).ring.len := fun i => by
    rw [← hinv.pending, RingBuffer.length_toList]
  refine ⟨fun i => ?_, fun i => ?_, fun id kind value pid i hi how => ?_, fun id kind value pid hno => ?_,
    fun id kind value pid ports' hs => (sendAs_false hs).1, fun pid id e hpid => ⟨fun hv => ?_, ?_⟩,
    fun pid id ports' hv => (recv_none hv).1, fun pid id ports' hc => ?_, fun pid ports' hc => create_none hc⟩
  · rw [← hinv.pending]
    exact hinv.split i
  · rw [hlen]
    exact (hinv.ok i).len_le
  · rw [hlen]
    -- a send that fails on an open port found it full
    rcases hs : sendAs ports id kind value pid with ⟨_ | _, ports'⟩
    · have hfull := (sendAs_false hs).2 i hi
      exact ⟨nofun, fun hlt => absurd ⟨how, hlt⟩ hfull⟩
    · obtain ⟨j, hj, -, hroom, -⟩ := sendAs_true hs
      rw [hi] at hj
      cases hj
      exact ⟨fun _ => hroom, fun _ => rfl⟩
  · rcases hs : sendAs ports id kind value pid with ⟨_ | _, ports'⟩
    · rw [(sendAs_false hs).1]
    · obtain ⟨i, hi, how, -⟩ := sendAs_true hs
      exact absurd (hno i hi) how
  · obtain ⟨i, ring, hi, how, hpop, -⟩ := recv_some (Prod.ext hv rfl)
    refine ⟨i, hi, how, ?_⟩
    rw [← hinv.pending, toList_of_pop (hinv.ok i) hpop, List.head?_cons]
  · rintro ⟨i, hi, how, he⟩
    rw [← hinv.pending] at he
    rcases hv : Ipc.recv ports pid id with ⟨_ | e', ports'⟩
    · have hzero := (recv_none hv).2 i hi how
      rw [← RingBuffer.length_toList (r := (ports i).ring) (n := queueLen), List.length_eq_zero_iff] at hzero
      rw [hzero] at he
      cases he
    · obtain ⟨j, ring, hj, -, hpop, -⟩ := recv_some hv
      rw [hi] at hj
      cases hj
      rw [toList_of_pop (hinv.ok i) hpop, List.head?_cons] at he
      exact he
  · obtain ⟨i, hi, hfree, rfl⟩ := create_some hc
    refine ⟨i, hi, hfree, hinv.closed i hfree, ?_, fun j hj => Function.update_of_ne hj ..⟩
    rw [Function.update_self]

/-- Ports are bounded FIFOs, whatever the interleaving of the calls. A call that succeeds
changes the queue of its port only, by the event it adds or takes. -/
theorem ports_are_queues (hr : Run ports h) : Queues ports h ∧
    (∀ id kind value pid ports', sendAs ports id kind value pid = (true, ports') → ∃ i, index id = some i ∧
      Queues ports' (h.accept i ⟨kind, pid, value⟩) ∧
        (h.accept i ⟨kind, pid, value⟩).pending i = h.pending i ++ [⟨kind, pid, value⟩] ∧
        ∀ j, j ≠ i → ports' j = ports j) ∧
    ∀ pid id e ports', pid ≠ 0 → recv ports pid id = (some e, ports') → ∃ i, index id = some i ∧
      Queues ports' (h.receive i e) ∧ h.pending i = e :: (h.receive i e).pending i ∧
        ∀ j, j ≠ i → ports' j = ports j := by
  have hinv := hr.inv
  refine ⟨hinv.queues, fun id kind value pid ports' hs => ?_, fun pid id e ports' hpid hv => ?_⟩
  · obtain ⟨i, hi, -, hroom, rfl⟩ := sendAs_true hs
    have hinv' := hinv.send hi hs
    refine ⟨i, hi, hinv'.queues, ?_, fun j hj => Function.update_of_ne hj ..⟩
    rw [← hinv'.pending, Function.update_self, ← hinv.pending]
    exact RingBuffer.toList_push hroom
  · obtain ⟨i, ring, hi, -, hpop, rfl⟩ := recv_some hv
    have hinv' := hinv.recv hpid hi hv
    refine ⟨i, hi, hinv'.queues, ?_, fun j hj => Function.update_of_ne hj ..⟩
    rw [← hinv'.pending, Function.update_self, ← hinv.pending]
    exact toList_of_pop (hinv.ok i) hpop

/-- Process 4 creates a port and process 2 sends to it: one pending event, which only the
owner can receive. -/
theorem ports_are_queues_first : ∃ ports h, Run ports h ∧ h.pending 0 = [⟨9, 2, 0xC0DE⟩] ∧
    (recv ports 4 1).1 = some ⟨9, 2, 0xC0DE⟩ ∧ (recv ports 2 1).1 = none := by
  have hc : create (fun _ => Port.empty) 4 = (some 1, _) := rfl
  have hs : send (create (fun _ => Port.empty) 4).2 2 1 9 0xC0DE = (true, _) := rfl
  have hi : index 1 = some 0 := rfl
  have hrun := (Run.boot.create (by decide) hc).send (by decide) hi hs
  obtain ⟨hq, -, -⟩ := ports_are_queues hrun
  refine ⟨_, _, hrun, rfl, ?_, ?_⟩
  · exact (hq.recv_iff 4 1 ⟨9, 2, 0xC0DE⟩ (by decide)).mpr ⟨0, hi, rfl, rfl⟩
  · rw [Option.eq_none_iff_forall_ne_some]
    intro e he
    obtain ⟨i, hi', how, -⟩ := (hq.recv_iff 2 1 e (by decide)).mp he
    cases hi.symm.trans hi'
    cases how

end Pippin.Ipc
