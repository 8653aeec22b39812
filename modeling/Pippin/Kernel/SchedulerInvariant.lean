import Mathlib.Data.Fintype.Card
import Mathlib.Data.List.FinRange
import Mathlib.Tactic.FinCases
import Pippin.Kernel.Scheduler

/-! Runs of the scheduler from `init`. The history records, from the task states
alone, which tasks became READY or were dispatched at each step and the frame each
one was interrupted with, so that queue order and saved frames can be compared with it. -/

namespace Pippin.Sched

def State.pending (s : State) : List Index := s.queue.toList maxTasks

def becameReady (s s' : State) : List Index :=
  (List.finRange maxTasks).filter fun i => (s.tasks i).state ≠ .ready ∧ (s'.tasks i).state = .ready

def wasDispatched (s s' : State) : List Index :=
  (List.finRange maxTasks).filter fun i => (s.tasks i).state = .ready ∧ (s'.tasks i).state = .running

structure History where
  readied : List Index
  dispatched : List Index
  saved : Index → UInt64

/-- Extend a history by one step in which a task made READY has the frame `frame`. -/
def History.step (h : History) (s s' : State) (frame : UInt64) : History where
  readied := h.readied ++ becameReady s s'
  dispatched := h.dispatched ++ wasDispatched s s'
  saved i := if i ∈ becameReady s s' then frame else h.saved i

inductive Interrupt where
  | tick | yield | exit

def handle : Interrupt → State → UInt64 → Except Stop (UInt64 × State)
  | .tick => onTick
  | .yield => onYield
  | .exit => onExit

/-- Every interleaving of the handlers and `spawn_user` from `init`; a step that
halts has no successor. -/
inductive Run (stackAt : Stacks) : State → History → Prop
  | init (bootRsp first second : UInt64) :
      Run stackAt (init stackAt bootRsp first second) ⟨[1, 2], [], spawnFrame stackAt⟩
  | interrupt {s s' h frame frame'} (op : Interrupt) (hr : Run stackAt s h)
      (ho : handle op s frame = .ok (frame', s')) : Run stackAt s' (h.step s s' frame)
  | spawnUser {s h} (rip userRsp : UInt64) (port : UInt16) (hr : Run stackAt s h) :
      Run stackAt (spawnUser stackAt s rip userRsp port).2
        (h.step s (spawnUser stackAt s rip userRsp port).2 (spawnFrame stackAt 3))

structure Inv (s : State) : Prop where
  started : s.fxArea.isSome
  ring : s.queue.Ok maxTasks
  running : ∀ i, (s.tasks i).state = .running ↔ i = s.current
  nodup : s.pending.Nodup
  ready : ∀ i, i ∈ s.pending ↔ (s.tasks i).state = .ready

variable {s s' : State}

theorem Inv.current_not_mem (h : Inv s) : s.current ∉ s.pending := by
  rw [h.ready, (h.running s.current).mpr rfl]
  decide

theorem Inv.len_lt (h : Inv s) {i : Index} (hi : i ∉ s.pending) : s.queue.len < maxTasks := by
  have hn : (i :: s.pending).Nodup := List.nodup_cons.mpr ⟨hi, h.nodup⟩
  have hc := hn.length_le_card
  rw [Fintype.card_fin, List.length_cons, State.pending, RingBuffer.length_toList] at hc
  exact hc

/-- What a switch does: the head of the queue runs from its saved frame, the
interrupted task leaves or goes to the back. -/
theorem schedule_cons (h : Inv s) {next : Index} {rest : List Index} (hp : s.pending = next :: rest)
    (frame : UInt64) (requeue : Bool) : ∃ s', schedule s frame requeue =
      .ok ((s.tasks next).frame, s') ∧ s'.fxArea.isSome ∧ s'.queue.Ok maxTasks ∧ s'.current = next ∧
      s'.pending = rest ++ (if requeue then [s.current] else []) ∧
      s'.tasks = Function.update (Function.update s.tasks s.current
        { s.tasks s.current with frame := frame, state := if requeue then .ready else .dead })
        next { s.tasks next with state := .running } := by
  have hne : next ≠ s.current := by
    rintro rfl
    exact h.current_not_mem (hp ▸ List.mem_cons_self)
  have hlen : s.queue.len ≠ 0 := by
    rw [← RingBuffer.length_toList (r := s.queue) (n := maxTasks), ← State.pending, hp]
    simp
  -- requeuing pushes behind the queue, so the pop still finds `next`
  have hring : (switchOut s frame requeue).queue.Ok maxTasks := by
    unfold switchOut
    cases requeue with
    | true => exact h.ring.push _
    | false => exact h.ring
  have hout : (switchOut s frame requeue).pending =
      next :: (rest ++ if requeue then [s.current] else []) := by
    unfold switchOut
    cases requeue with
    | true =>
      have hroom := h.len_lt h.current_not_mem
      show (s.queue.push maxTasks s.current).toList maxTasks = _
      rw [RingBuffer.toList_push hroom, ← State.pending, hp, if_pos rfl, List.cons_append]
    | false =>
      show s.pending = _
      rw [hp, if_neg Bool.false_ne_true, List.append_nil]
  obtain ⟨q, hq, hqlist⟩ := RingBuffer.toList_pop hring hout
  have htasks : (switchOut s frame requeue).tasks = Function.update s.tasks s.current
      { s.tasks s.current with frame := frame, state := if requeue then .ready else .dead } := by
    unfold switchOut
    cases requeue <;> rfl
  have hnext : (switchOut s frame requeue).tasks next = s.tasks next := by
    rw [htasks, Function.update_of_ne hne]
  refine ⟨switchIn { switchOut s frame requeue with queue := q } next, ?_, rfl, hring.pop hq, rfl,
    hqlist, ?_⟩
  · rw [schedule, if_neg hlen, dequeue, hq]
    show Except.ok (((switchOut s frame requeue).tasks next).frame, _) = _
    rw [hnext]
  · show Function.update (switchOut s frame requeue).tasks next
      { (switchOut s frame requeue).tasks next with state := .running } = _
    rw [hnext, htasks]

structure Kept (s s' : State) : Prop where
  started : s'.fxArea = s.fxArea
  current : s'.current = s.current
  queue : s'.queue = s.queue
  state : ∀ i, (s'.tasks i).state = (s.tasks i).state
  frames : ∀ i, (s'.tasks i).frame = (s.tasks i).frame

/-- A step that runs `next` and leaves the interrupted task READY or DEAD. -/
structure Switched (s s' : State) (frame : UInt64) (requeue : Bool) (next : Index)
    (rest : List Index) : Prop where
  started : s'.fxArea.isSome
  ring : s'.queue.Ok maxTasks
  head : s.pending = next :: rest
  current : s'.current = next
  pending : s'.pending = rest ++ if requeue then [s.current] else []
  state : ∀ i, (s'.tasks i).state = if i = next then .running
    else if i = s.current then (if requeue then .ready else .dead) else (s.tasks i).state
  frames : ∀ i, i ≠ s.current → (s'.tasks i).frame = (s.tasks i).frame
  saved : (s'.tasks s.current).frame = frame

theorem Inv.of_kept (h : Inv s) (hk : Kept s s') : Inv s' where
  started := hk.started ▸ h.started
  ring := hk.queue ▸ h.ring
  running i := by rw [hk.state, hk.current]; exact h.running i
  nodup := by rw [State.pending, hk.queue]; exact h.nodup
  ready i := by rw [hk.state, State.pending, hk.queue]; exact h.ready i

theorem schedule_switched (h : Inv s) {next : Index} {rest : List Index}
    (hp : s.pending = next :: rest) (frame : UInt64) (requeue : Bool) :
    ∃ s', schedule s frame requeue = .ok ((s.tasks next).frame, s') ∧
      Switched s s' frame requeue next rest := by
  obtain ⟨s', hs, hfx, hring, hcur, hpend, htasks⟩ := schedule_cons h hp frame requeue
  have hne : s.current ≠ next := by
    rintro he
    exact h.current_not_mem (he ▸ hp ▸ List.mem_cons_self)
  refine ⟨s', hs, hfx, hring, hp, hcur, hpend, fun i => ?_, fun i hi => ?_, ?_⟩
  · rw [htasks]
    by_cases h1 : i = next
    · subst h1
      rw [Function.update_self, if_pos rfl]
    · by_cases h2 : i = s.current
      · subst h2
        rw [Function.update_of_ne h1, Function.update_self, if_neg h1, if_pos rfl]
      · rw [Function.update_of_ne h1, Function.update_of_ne h2, if_neg h1, if_neg h2]
  · rw [htasks]
    by_cases h1 : i = next
    · subst h1
      rw [Function.update_self]
    · rw [Function.update_of_ne h1, Function.update_of_ne hi]
  · rw [htasks, Function.update_of_ne hne, Function.update_self]

theorem schedule_cases (h : Inv s) (frame : UInt64) (requeue : Bool) :
    schedule s frame requeue = .error .halted ∨
    (∃ s', schedule s frame requeue = .ok (frame, s') ∧ Kept s s') ∨
    ∃ s' next rest, schedule s frame requeue = .ok ((s.tasks next).frame, s') ∧
      Switched s s' frame requeue next rest := by
  cases hp : s.pending with
  | nil =>
    have hlen : s.queue.len = 0 := by
      rw [← RingBuffer.length_toList (r := s.queue) (n := maxTasks), ← State.pending, hp,
        List.length_nil]
    cases requeue with
    | true =>
      right; left
      refine ⟨{ s with remaining := quantumTicks }, ?_, rfl, rfl, rfl, fun _ => rfl, fun _ => rfl⟩
      rw [schedule, if_pos hlen, if_pos rfl]
    | false =>
      left
      rw [schedule, if_pos hlen, if_neg Bool.false_ne_true]
  | cons next rest =>
    right; right
    obtain ⟨s', hs⟩ := schedule_switched h hp frame requeue
    exact ⟨s', next, rest, hs⟩

theorem tick_kept (s : State) : Kept s { s with
    tasks := Function.update s.tasks s.current
      { s.tasks s.current with ticks := (s.tasks s.current).ticks + 1 }
    remaining := s.remaining - min s.remaining 1 } := by
  refine ⟨rfl, rfl, rfl, fun i => ?_, fun i => ?_⟩ <;>
  · by_cases hi : i = s.current
    · subst hi
      simp only [Function.update_self]
    · simp only [Function.update_of_ne hi]

theorem Kept.switched {s₀ : State} {frame : UInt64} {requeue : Bool} {next : Index}
    {rest : List Index} (hk : Kept s s₀) (h : Switched s₀ s' frame requeue next rest) :
    Switched s s' frame requeue next rest := by
  obtain ⟨h1, h2, h3, h4, h5, h6, h7, h8⟩ := h
  rw [State.pending, hk.queue] at h3
  rw [hk.current] at h5 h6 h7 h8
  refine ⟨h1, h2, h3, h4, h5, fun i => ?_, fun i hi => ?_, h8⟩
  · rw [h6, hk.state]
  · rw [h7 i hi, hk.frames]

theorem Kept.trans {s₀ : State} (h : Kept s s₀) (h' : Kept s₀ s') : Kept s s' :=
  ⟨h'.started.trans h.started, h'.current.trans h.current, h'.queue.trans h.queue,
    fun i => (h'.state i).trans (h.state i), fun i => (h'.frames i).trans (h.frames i)⟩

theorem handle_cases (h : Inv s) (op : Interrupt) (frame : UInt64) :
    handle op s frame = .error .halted ∨
    (∃ s', handle op s frame = .ok (frame, s') ∧ Kept s s') ∨
    ∃ s' requeue next rest, handle op s frame = .ok ((s.tasks next).frame, s') ∧
      Switched s s' frame requeue next rest := by
  have hfx : s.fxArea.isNone = false := by
    rw [← Option.not_isSome, h.started]
    rfl
  cases op with
  | tick =>
    have hk := tick_kept s
    simp only [handle, onTick, hfx, if_neg Bool.false_ne_true]
    split_ifs with hq
    · rcases schedule_cases (h.of_kept hk) frame true with h0 | ⟨s', hs, hk'⟩ | ⟨s', next, rest, hs, hw⟩
      · exact Or.inl h0
      · exact Or.inr (Or.inl ⟨s', hs, hk.trans hk'⟩)
      · refine Or.inr (Or.inr ⟨s', true, next, rest, ?_, hk.switched hw⟩)
        rw [hs, hk.frames]
    · exact Or.inr (Or.inl ⟨_, rfl, hk⟩)
  | yield =>
    simp only [handle, onYield, hfx, if_neg Bool.false_ne_true]
    rcases schedule_cases h frame true with h0 | hk | ⟨s', next, rest, hs⟩
    · exact Or.inl h0
    · exact Or.inr (Or.inl hk)
    · exact Or.inr (Or.inr ⟨s', true, next, rest, hs⟩)
  | exit =>
    simp only [handle, onExit]
    rcases schedule_cases h frame false with h0 | hk | ⟨s', next, rest, hs⟩
    · exact Or.inl h0
    · exact Or.inr (Or.inl hk)
    · exact Or.inr (Or.inr ⟨s', false, next, rest, hs⟩)

theorem Inv.of_switched (h : Inv s) {frame : UInt64} {requeue : Bool} {next : Index}
    {rest : List Index} (hw : Switched s s' frame requeue next rest) : Inv s' := by
  have hcur := h.current_not_mem
  have hnd := h.nodup
  have hmem := h.ready
  rw [hw.head] at hcur hnd hmem
  rw [List.mem_cons, not_or] at hcur
  rw [List.nodup_cons] at hnd
  refine ⟨hw.started, hw.ring, fun i => ?_, ?_, fun i => ?_⟩
  · rw [hw.state, hw.current]
    by_cases h1 : i = next
    · simp [h1]
    · by_cases h2 : i = s.current
      · cases requeue <;> simp [h2, hcur.1]
      · simp [h1, h2, (h.running i).not.mpr h2]
  · rw [hw.pending]
    cases requeue with
    | true => exact List.nodup_append.mpr ⟨hnd.2, List.nodup_singleton _, fun a ha b hb hab =>
        hcur.2 (List.mem_singleton.mp hb ▸ hab ▸ ha)⟩
    | false => simpa using hnd.2
  · rw [hw.pending, hw.state]
    by_cases h1 : i = next
    · subst h1
      cases requeue <;> simp [hnd.1, Ne.symm hcur.1]
    · by_cases h2 : i = s.current
      · subst h2
        cases requeue <;> simp [h1, hcur.2]
      · have hi := hmem i
        rw [List.mem_cons] at hi
        cases requeue <;> simpa [h1, h2] using hi

/-! ## The history -/

theorem filter_finRange_singleton {p : Index → Bool} (j : Index) (h : ∀ i, p i = decide (i = j)) :
    (List.finRange maxTasks).filter p = [j] := by
  have hj : ∀ j : Index, (List.finRange maxTasks).filter (fun i => decide (i = j)) = [j] := by decide
  rw [List.filter_congr fun i _ => h i, hj]

theorem Kept.becameReady (h : Kept s s') : becameReady s s' = [] := by
  refine List.filter_eq_nil_iff.mpr fun i _ => ?_
  rw [h.state]
  simp

theorem Kept.wasDispatched (h : Kept s s') : wasDispatched s s' = [] := by
  refine List.filter_eq_nil_iff.mpr fun i _ => ?_
  rw [h.state]
  cases (s.tasks i).state <;> simp

section Switch

variable {frame : UInt64} {requeue : Bool} {next : Index} {rest : List Index}

theorem Switched.wasDispatched (h : Inv s) (hw : Switched s s' frame requeue next rest) :
    wasDispatched s s' = [next] := by
  have hnext : (s.tasks next).state = .ready := (h.ready next).mp (hw.head ▸ List.mem_cons_self)
  refine filter_finRange_singleton next fun i => ?_
  rw [hw.state]
  by_cases h1 : i = next
  · simp [h1, hnext]
  · by_cases h2 : i = s.current
    · rw [if_neg h1, if_pos h2]
      cases requeue <;> simp [h1]
    · cases hs : (s.tasks i).state <;> simp [h1, h2]

theorem Switched.becameReady (h : Inv s) (hw : Switched s s' frame requeue next rest) :
    becameReady s s' = if requeue then [s.current] else [] := by
  have hcur : (s.tasks s.current).state = .running := (h.running s.current).mpr rfl
  have hne : s.current ≠ next := by
    rintro he
    exact h.current_not_mem (he ▸ hw.head ▸ List.mem_cons_self)
  have hstate : ∀ i, ((s.tasks i).state ≠ .ready ∧ (s'.tasks i).state = .ready) ↔
      i = s.current ∧ requeue = true := by
    intro i
    rw [hw.state]
    by_cases h2 : i = s.current
    · subst h2
      cases requeue <;> simp [hne, hcur]
    · by_cases h1 : i = next
      · simp [h1, Ne.symm hne]
      · simp [h1, h2]
  cases requeue with
  | true =>
    refine filter_finRange_singleton s.current fun i => decide_eq_decide.mpr ?_
    simpa using hstate i
  | false =>
    refine List.filter_eq_nil_iff.mpr fun i _ => ?_
    simpa using hstate i

end Switch

/-- The history agrees with the queue: dispatches follow the order in which tasks
became READY, and a queued task holds the frame it was last interrupted with. -/
structure Tracked (s : State) (h : History) : Prop where
  order : h.readied = h.dispatched ++ s.pending
  saved : ∀ i ∈ s.pending, (s.tasks i).frame = h.saved i

variable {h : History}

theorem Tracked.of_kept (ht : Tracked s h) (hk : Kept s s') (frame : UInt64) :
    Tracked s' (h.step s s' frame) := by
  have hp : s'.pending = s.pending := by rw [State.pending, hk.queue, ← State.pending]
  refine ⟨?_, fun i hi => ?_⟩
  · simp only [History.step, hk.becameReady, hk.wasDispatched, List.append_nil, hp, ht.order]
  · simp only [History.step, hk.becameReady, List.not_mem_nil, if_false]
    rw [hk.frames, ht.saved i (hp ▸ hi)]

theorem Tracked.of_switched (hinv : Inv s) (ht : Tracked s h) {frame : UInt64} {requeue : Bool}
    {next : Index} {rest : List Index} (hw : Switched s s' frame requeue next rest) :
    Tracked s' (h.step s s' frame) := by
  have hmem : ∀ i ∈ rest, i ∈ s.pending ∧ i ≠ s.current := by
    intro i hi
    have hi' : i ∈ s.pending := hw.head ▸ List.mem_cons_of_mem _ hi
    exact ⟨hi', fun he => hinv.current_not_mem (he ▸ hi')⟩
  refine ⟨?_, fun i hi => ?_⟩
  · simp only [History.step, hw.becameReady hinv, hw.wasDispatched hinv, hw.pending, ht.order, hw.head]
    simp
  · simp only [History.step, hw.becameReady hinv]
    rw [hw.pending, List.mem_append] at hi
    rcases hi with hi | hi
    · obtain ⟨hi', hne⟩ := hmem i hi
      rw [hw.frames i hne, if_neg, ht.saved i hi']
      cases requeue <;> simp [hne]
    · rw [if_pos hi]
      cases requeue with
      | true => rw [List.mem_singleton.mp hi, hw.saved]
      | false => exact absurd hi List.not_mem_nil

/-! ## `spawn_user` -/

theorem spawnUser_cases (stackAt : Stacks) (s : State) (rip userRsp : UInt64) (port : UInt16) :
    (spawnUser stackAt s rip userRsp port).2 = s ∨
    ∃ f slot, ((s.tasks 3).state = .unused ∨ (s.tasks 3).state = .dead) ∧
      (spawnUser stackAt s rip userRsp port).2 = startTask stackAt s 3 f slot 0 := by
  unfold spawnUser
  split_ifs with hbusy
  · exact Or.inl rfl
  · refine Or.inr ⟨_, _, ?_, rfl⟩
    cases hs : (s.tasks 3).state <;> simp_all

section Start

variable {stackAt : Stacks} {i : Index} {f : IntFrame} {slot : ProcessSlot} {ticks : UInt64}

theorem startTask_state (j : Index) :
    ((startTask stackAt s i f slot ticks).tasks j).state =
      if j = i then .ready else (s.tasks j).state := by
  by_cases hj : j = i
  · subst hj
    simp [startTask, enqueue]
  · simp [startTask, enqueue, hj]

theorem startTask_frame (j : Index) :
    ((startTask stackAt s i f slot ticks).tasks j).frame =
      if j = i then spawnFrame stackAt i else (s.tasks j).frame := by
  by_cases hj : j = i
  · subst hj
    simp [startTask, enqueue]
  · simp [startTask, enqueue, hj]

theorem startTask_pending (h : Inv s) (hi : i ∉ s.pending) :
    (startTask stackAt s i f slot ticks).pending = s.pending ++ [i] :=
  RingBuffer.toList_push (h.len_lt hi)

theorem Inv.of_started (h : Inv s) (hi : i ∉ s.pending) (hrun : (s.tasks i).state ≠ .running) :
    Inv (startTask stackAt s i f slot ticks) := by
  have hcur : i ≠ s.current := fun he => hrun ((h.running i).mpr he)
  refine ⟨h.started, h.ring.push i, fun j => ?_, ?_, fun j => ?_⟩
  · rw [startTask_state]
    show _ ↔ j = s.current
    by_cases hj : j = i
    · simp [hj, hcur]
    · rw [if_neg hj, h.running]
  · rw [startTask_pending h hi]
    exact List.nodup_append.mpr ⟨h.nodup, List.nodup_singleton _, fun a ha b hb hab =>
      hi (List.mem_singleton.mp hb ▸ hab ▸ ha)⟩
  · rw [startTask_pending h hi, startTask_state, List.mem_append, List.mem_singleton, h.ready]
    by_cases hj : j = i <;> simp [hj]

theorem Tracked.of_started (hinv : Inv s) (ht : Tracked s h) (hi : i ∉ s.pending) :
    Tracked (startTask stackAt s i f slot ticks)
      (h.step s (startTask stackAt s i f slot ticks) (spawnFrame stackAt i)) := by
  have hready : (s.tasks i).state ≠ .ready := mt (hinv.ready i).mpr hi
  have hb : becameReady s (startTask stackAt s i f slot ticks) = [i] := by
    refine filter_finRange_singleton i fun j => decide_eq_decide.mpr ?_
    rw [startTask_state]
    by_cases hj : j = i
    · simp [hj, hready]
    · simp [hj]
  have hd : wasDispatched s (startTask stackAt s i f slot ticks) = [] := by
    refine List.filter_eq_nil_iff.mpr fun j _ => ?_
    rw [startTask_state]
    by_cases hj : j = i
    · simp [hj]
    · cases (s.tasks j).state <;> simp [hj]
  refine ⟨?_, fun j hj => ?_⟩
  · simp only [History.step, hb, hd, startTask_pending hinv hi, List.append_nil, ht.order,
      List.append_assoc]
  · rw [startTask_pending hinv hi, List.mem_append, List.mem_singleton] at hj
    simp only [History.step, hb, startTask_frame, List.mem_singleton]
    by_cases he : j = i
    · simp [he]
    · rw [if_neg he, if_neg he, ht.saved j (hj.resolve_right he)]

end Start

theorem init_inv (stackAt : Stacks) (bootRsp first second : UInt64) :
    Inv (init stackAt bootRsp first second) ∧
      Tracked (init stackAt bootRsp first second) ⟨[1, 2], [], spawnFrame stackAt⟩ := by
  have hpend : (init stackAt bootRsp first second).pending = [1, 2] := rfl
  have hstate : ∀ i, ((init stackAt bootRsp first second).tasks i).state =
      if i = 0 then .running else if i = 3 then .unused else .ready := by
    intro i
    fin_cases i <;> rfl
  refine ⟨⟨rfl, ⟨Nat.zero_lt_succ 3, Nat.le_of_ble_eq_true rfl⟩, fun i => ?_, ?_, fun i => ?_⟩, ?_, fun i hi => ?_⟩
  · rw [hstate]
    show _ ↔ i = 0
    revert i
    decide
  · rw [hpend]
    decide
  · rw [hpend, hstate]
    revert i
    decide
  · rw [hpend]
    rfl
  · rw [hpend] at hi
    fin_cases hi <;> rfl

theorem run_inv {stackAt : Stacks} (hr : Run stackAt s h) : Inv s ∧ Tracked s h := by
  induction hr with
  | init bootRsp first second => exact init_inv stackAt bootRsp first second
  | @interrupt s s' h frame frame' op _ ho ih =>
    obtain ⟨hinv, ht⟩ := ih
    rcases handle_cases hinv op frame with h0 | ⟨s₁, h1, hk⟩ | ⟨s₁, requeue, next, rest, h1, hw⟩
    · rw [h0] at ho
      cases ho
    · rw [h1] at ho
      cases ho
      exact ⟨hinv.of_kept hk, ht.of_kept hk frame⟩
    · rw [h1] at ho
      cases ho
      exact ⟨hinv.of_switched hw, ht.of_switched hinv hw⟩
  | @spawnUser s h rip userRsp port _ ih =>
    obtain ⟨hinv, ht⟩ := ih
    rcases spawnUser_cases stackAt s rip userRsp port with h0 | ⟨f, slot, hfree, h0⟩
    · rw [h0]
      have hk : Kept s s := ⟨rfl, rfl, rfl, fun _ => rfl, fun _ => rfl⟩
      exact ⟨hinv, ht.of_kept hk _⟩
    · have hi : (3 : Index) ∉ s.pending := by
        rw [hinv.ready]
        rcases hfree with hs | hs <;> simp [hs]
      have hrun : (s.tasks 3).state ≠ .running := by
        rcases hfree with hs | hs <;> simp [hs]
      rw [h0]
      exact ⟨hinv.of_started hi hrun, ht.of_started hinv hi⟩

/-- Scheduler invariant: in every state of every run exactly the current task is RUNNING
and the ring holds each READY task once; no handler fails to find a task; a dispatched
task resumes from its saved frame, and dispatches follow the order of becoming READY. -/
theorem scheduler_invariant (stackAt : Stacks) {s : State} {h : History} (hr : Run stackAt s h) :
    (∀ i, (s.tasks i).state = .running ↔ i = s.current) ∧
    s.pending.Nodup ∧ (∀ i, i ∈ s.pending ↔ (s.tasks i).state = .ready) ∧
    h.readied = h.dispatched ++ s.pending ∧
    ∀ op frame, handle op s frame ≠ .error .panicked ∧
      ∀ frame' s', handle op s frame = .ok (frame', s') →
        (wasDispatched s s' = [] ∧ s'.current = s.current ∧ frame' = frame) ∨
        (wasDispatched s s' = [s'.current] ∧ s.pending.head? = some s'.current ∧
          frame' = h.saved s'.current) := by
  obtain ⟨hinv, ht⟩ := run_inv hr
  refine ⟨hinv.running, hinv.nodup, hinv.ready, ht.order, fun op frame => ?_⟩
  rcases handle_cases hinv op frame with h0 | ⟨s₁, h1, hk⟩ | ⟨s₁, requeue, next, rest, h1, hw⟩
  · rw [h0]
    exact ⟨nofun, fun _ _ hc => nomatch hc⟩
  · rw [h1]
    refine ⟨nofun, fun frame' s' hc => Or.inl ?_⟩
    cases hc
    exact ⟨hk.wasDispatched, hk.current, rfl⟩
  · rw [h1]
    refine ⟨nofun, fun frame' s' hc => Or.inr ?_⟩
    cases hc
    have hn : next ∈ s.pending := hw.head ▸ List.mem_cons_self
    rw [hw.current, hw.wasDispatched hinv, hw.head, ht.saved next hn]
    exact ⟨rfl, rfl, rfl⟩

theorem scheduler_first_yield : ∃ s s' : State, ∃ h : History,
    Run (fun _ => 0x100000) s h ∧ handle .yield s 0x9000 = .ok (h.saved 1, s') ∧ s'.current = 1 ∧
      s'.pending = [2, 0] ∧ h.readied = h.dispatched ++ s.pending := by
  have hr : Run (fun _ => 0x100000) _ _ := Run.init 0x8000 0x400000 0x400100
  exact ⟨_, _, _, hr, rfl, rfl, rfl, (scheduler_invariant _ hr).2.2.2.1⟩

end Pippin.Sched
