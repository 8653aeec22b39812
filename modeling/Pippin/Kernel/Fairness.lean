import Pippin.Kernel.SchedulerInvariant

/-! No READY task starves. The quantum that is left and the place in the ring bound the ticks until a task
runs, whatever yields, exits and new tasks come in between. -/

namespace Pippin.Sched

/-- A call of the scheduler: an interrupt with the frame it saves, or `spawn_user`. -/
inductive Call where
  | interrupt (op : Interrupt) (frame : UInt64)
  | spawnUser (rip userRsp : UInt64) (port : UInt16)

def Call.ticks : Call → Nat
  | .interrupt .tick _ => 1
  | _ => 0

def ticks (calls : List Call) : Nat := (calls.map Call.ticks).sum

def call (stackAt : Stacks) (s : State) : Call → Except Stop State
  | .interrupt op frame => (handle op s frame).map Prod.snd
  | .spawnUser rip userRsp port => .ok (spawnUser stackAt s rip userRsp port).2

def runCalls (stackAt : Stacks) (s : State) : List Call → Except Stop State
  | [] => .ok s
  | c :: calls => do
    let s ← call stackAt s c
    runCalls stackAt s calls

/-- The ticks a queued task waits: the rest of this quantum, and a quantum for each task before it. -/
def State.wait (s : State) (i : Index) : Nat := s.remaining.toNat + quantumTicks.toNat * s.pending.idxOf i

def Timed (s : State) : Prop := 0 < s.remaining.toNat ∧ s.remaining.toNat ≤ quantumTicks.toNat

variable {stackAt : Stacks} {s s' : State} {i : Index} {h : History}

/-! ## The quantum -/

theorem timed_of_full (hs : s.remaining = quantumTicks) : Timed s := by
  rw [Timed, hs]
  decide

theorem schedule_remaining {frame frame' : UInt64} {requeue : Bool}
    (hs : schedule s frame requeue = .ok (frame', s')) : s'.remaining = quantumTicks := by
  unfold schedule at hs
  split_ifs at hs
  · cases hs
    rfl
  · split at hs
    · cases hs
    · cases hs
      rfl

theorem Timed.tick (ht : Timed s) : (s.remaining - min s.remaining 1).toNat + 1 = s.remaining.toNat := by
  have hle : (1 : UInt8) ≤ s.remaining := UInt8.le_iff_toNat_le.mpr ht.1
  have hmin : min s.remaining 1 = 1 := by
    unfold min
    show (if s.remaining ≤ 1 then s.remaining else 1) = 1
    split_ifs with hlast
    · exact UInt8.le_antisymm hlast hle
    · rfl
  rw [hmin, UInt8.toNat_sub_of_le _ _ hle]
  exact Nat.sub_add_cancel ht.1

theorem handle_timed (hinv : Inv s) (ht : Timed s) {op : Interrupt} {frame frame' : UInt64}
    (hs : handle op s frame = .ok (frame', s')) : Timed s' := by
  have hfx : s.fxArea.isNone = false := by
    rw [← Option.not_isSome, hinv.started]
    rfl
  cases op with
  | tick =>
    simp only [handle, onTick, hfx, if_neg Bool.false_ne_true] at hs
    split_ifs at hs with hzero
    · exact timed_of_full (schedule_remaining hs)
    · cases hs
      have hrest := ht.tick
      refine ⟨Nat.pos_of_ne_zero fun hz => hzero (UInt8.toNat_inj.mp hz), ?_⟩
      exact Nat.le_trans (Nat.le_of_succ_le (Nat.le_of_eq hrest)) ht.2
  | yield =>
    simp only [handle, onYield, hfx, if_neg Bool.false_ne_true] at hs
    exact timed_of_full (schedule_remaining hs)
  | exit => exact timed_of_full (schedule_remaining hs)

theorem run_timed (hr : Run stackAt s h) : Timed s := by
  induction hr with
  | init bootRsp first second => exact timed_of_full rfl
  | interrupt op hr ho ih => exact handle_timed (run_inv hr).1 ih ho
  | spawnUser rip userRsp port _ ih =>
    unfold spawnUser
    split_ifs
    · exact ih
    · exact ih

/-! ## Waiting -/

/-- While a task waits, an interrupt runs the first one of the queue, or is a tick inside the quantum. -/
theorem handle_busy (hinv : Inv s) (ht : Timed s) {next : Index} {rest : List Index} (hp : s.pending = next :: rest)
    (op : Interrupt) (frame : UInt64) : ∃ frame' s', handle op s frame = .ok (frame', s') ∧
      ((∃ requeue, Switched s s' frame requeue next rest) ∧ s'.remaining = quantumTicks ∧
          (op = .tick → s.remaining.toNat = 1) ∨
        op = .tick ∧ Kept s s' ∧ s'.remaining.toNat + 1 = s.remaining.toNat) := by
  have hfx : s.fxArea.isNone = false := by
    rw [← Option.not_isSome, hinv.started]
    rfl
  cases op with
  | tick =>
    have hk := tick_kept s
    have hrest := ht.tick
    simp only [handle, onTick, hfx, if_neg Bool.false_ne_true]
    split_ifs with hzero
    · have hpend : State.pending _ = next :: rest := (congrArg (RingBuffer.toList maxTasks) hk.queue).trans hp
      obtain ⟨s', hs, hw⟩ := schedule_switched (hinv.of_kept hk) hpend frame true
      refine ⟨_, s', hs, Or.inl ⟨⟨true, hk.switched hw⟩, schedule_remaining hs, fun _ => ?_⟩⟩
      rw [hzero] at hrest
      exact hrest.symm
    · exact ⟨_, _, rfl, Or.inr ⟨trivial, hk, hrest⟩⟩
  | yield =>
    simp only [handle, onYield, hfx, if_neg Bool.false_ne_true]
    obtain ⟨s', hs, hw⟩ := schedule_switched hinv hp frame true
    exact ⟨_, s', hs, Or.inl ⟨⟨true, hw⟩, schedule_remaining hs, fun he => by cases he⟩⟩
  | exit =>
    obtain ⟨s', hs, hw⟩ := schedule_switched hinv hp frame false
    exact ⟨_, s', hs, Or.inl ⟨⟨false, hw⟩, schedule_remaining hs, fun he => by cases he⟩⟩

theorem Switched.waits {frame : UInt64} {requeue : Bool} {next : Index} {rest : List Index}
    (hw : Switched s s' frame requeue next rest) (hfull : s'.remaining = quantumTicks) (hi : i ∈ s.pending)
    (hne : i ≠ next) : i ∈ s'.pending ∧ s'.wait i + s.remaining.toNat = s.wait i := by
  rw [hw.head] at hi
  have hrest : i ∈ rest := (List.mem_cons.mp hi).resolve_left hne
  have hidx : s.pending.idxOf i = rest.idxOf i + 1 := by
    rw [hw.head, List.idxOf_cons_ne _ (Ne.symm hne)]
  unfold State.wait
  rw [hw.pending, List.idxOf_append_of_mem hrest, hidx, hfull, Nat.mul_succ]
  exact ⟨List.mem_append_left _ hrest, by omega⟩

theorem ticks_interrupt (op : Interrupt) (frame : UInt64) : (Call.interrupt op frame).ticks ≤ 1 ∧
    ((Call.interrupt op frame).ticks = 1 → op = .tick) := by
  cases op with
  | tick => exact ⟨Nat.le_refl 1, fun _ => rfl⟩
  | yield | exit => exact ⟨Nat.zero_le 1, fun h => by cases h⟩

/-- A call while a task waits: the task runs, or it is still queued and the ticks count down. -/
theorem call_waits (stackAt : Stacks) (hinv : Inv s) (ht : Timed s) (hi : i ∈ s.pending) (c : Call) :
    ∃ s', call stackAt s c = .ok s' ∧ Inv s' ∧ Timed s' ∧
      (s'.current = i ∧ (c.ticks = 1 → s.wait i = 1) ∨
        i ∈ s'.pending ∧ s'.wait i + c.ticks ≤ s.wait i ∧ (c.ticks = 1 → s.wait i = s'.wait i + 1)) := by
  cases c with
  | interrupt op frame =>
    obtain ⟨next, rest, hp⟩ := List.exists_cons_of_ne_nil (List.ne_nil_of_mem hi)
    obtain ⟨frame', s', hs, hcase⟩ := handle_busy hinv ht hp op frame
    have hcall : call stackAt s (.interrupt op frame) = .ok s' := by
      rw [call, hs]
      rfl
    refine ⟨s', hcall, ?_, handle_timed hinv ht hs, ?_⟩
    · rcases hcase with ⟨⟨requeue, hw⟩, -⟩ | ⟨-, hk, -⟩
      · exact hinv.of_switched hw
      · exact hinv.of_kept hk
    · obtain ⟨hle, htick⟩ := ticks_interrupt op frame
      rcases hcase with ⟨⟨requeue, hw⟩, hfull, hone⟩ | ⟨rfl, hk, hrest⟩
      -- the first of the queue runs, every other one moves up
      · by_cases he : i = next
        · left
          refine ⟨hw.current.trans he.symm, fun h1 => ?_⟩
          rw [State.wait, hp, he, List.idxOf_cons_self, hone (htick h1)]
          rfl
        · right
          obtain ⟨hmem, hwait⟩ := hw.waits hfull hi he
          have hpos := ht.1
          refine ⟨hmem, by omega, fun h1 => ?_⟩
          have := hone (htick h1)
          omega
      · right
        have hpend : s'.pending = s.pending := by rw [State.pending, hk.queue, ← State.pending]
        have hwait : s.wait i = s'.wait i + 1 := by
          unfold State.wait
          rw [hpend]
          omega
        exact ⟨hpend ▸ hi, Nat.le_of_eq hwait.symm, fun _ => hwait⟩
  -- a task that starts is queued behind those that wait
  | spawnUser rip userRsp port =>
    refine ⟨_, rfl, ?_⟩
    rcases spawnUser_cases stackAt s rip userRsp port with h0 | ⟨f, slot, hfree, h0⟩
    · rw [h0]
      exact ⟨hinv, ht, Or.inr ⟨hi, Nat.le_refl _, fun hz => by cases hz⟩⟩
    · have hout : (3 : Index) ∉ s.pending := by
        rw [hinv.ready]
        rcases hfree with hs | hs <;> simp [hs]
      have hrun : (s.tasks 3).state ≠ .running := by
        rcases hfree with hs | hs <;> simp [hs]
      rw [h0]
      refine ⟨hinv.of_started hout hrun, ht, Or.inr ?_⟩
      unfold State.wait
      rw [startTask_pending hinv hout, List.idxOf_append_of_mem hi]
      exact ⟨List.mem_append_left _ hi, Nat.le_refl _, fun hz => by cases hz⟩

theorem Timed.wait_pos (ht : Timed s) : 0 < s.wait i := Nat.add_pos_left ht.1 _

theorem runCalls_cons {c : Call} {calls : List Call} (hs : call stackAt s c = .ok s') :
    runCalls stackAt s (c :: calls) = runCalls stackAt s' calls := by
  rw [runCalls, hs]
  rfl

theorem runs_in_time (hinv : Inv s) (ht : Timed s) (hi : i ∈ s.pending) {calls : List Call}
    (hticks : s.wait i ≤ ticks calls) : ∃ n t, runCalls stackAt s (calls.take n) = .ok t ∧ t.current = i := by
  induction calls generalizing s with
  | nil => exact absurd hticks (Nat.not_le.mpr ht.wait_pos)
  | cons c calls ih =>
    obtain ⟨s', hs, hinv', ht', ⟨hrun, -⟩ | ⟨hi', hwait, -⟩⟩ := call_waits stackAt hinv ht hi c
    · exact ⟨1, s', runCalls_cons hs, hrun⟩
    · have hrest : s'.wait i ≤ ticks calls := by
        rw [ticks, List.map_cons, List.sum_cons, ← ticks] at hticks
        omega
      obtain ⟨n, t, hn, hrun⟩ := ih hinv' ht' hi' hrest
      refine ⟨n + 1, t, ?_, hrun⟩
      rw [List.take_succ_cons, runCalls_cons hs, hn]

theorem waits_in_ticks (hinv : Inv s) (ht : Timed s) (hi : i ∈ s.pending) {calls : List Call}
    (honly : ∀ c ∈ calls, c.ticks = 1) (hshort : calls.length < s.wait i) :
    ∃ t, runCalls stackAt s calls = .ok t ∧ (t.tasks i).state = .ready := by
  induction calls generalizing s with
  | nil => exact ⟨s, rfl, (hinv.ready i).mp hi⟩
  | cons c calls ih =>
    have hone := honly c List.mem_cons_self
    rw [List.length_cons] at hshort
    obtain ⟨s', hs, hinv', ht', ⟨-, hlast⟩ | ⟨hi', -, hwait⟩⟩ := call_waits stackAt hinv ht hi c
    · have := hlast hone
      omega
    · have := hwait hone
      rw [runCalls_cons hs]
      exact ih hinv' ht' hi' (fun c hc => honly c (List.mem_cons_of_mem _ hc)) (by omega)

theorem wait_le (hinv : Inv s) (ht : Timed s) (hi : i ∈ s.pending) : s.wait i ≤ 30 := by
  have hidx := List.idxOf_lt_length_of_mem hi
  have hlen : s.pending.length < maxTasks := by
    rw [State.pending, RingBuffer.length_toList]
    exact hinv.len_lt hinv.current_not_mem
  have hq : quantumTicks.toNat = 10 := rfl
  have hm : maxTasks = 4 := rfl
  have hle := ht.2
  rw [State.wait, hq]
  omega

/-- Fairness: in every state of every run a READY task has a deadline of at most 30 ticks. Whatever calls of
the scheduler follow, none halts before the task runs and it runs by the deadline; if they are ticks, not
before it. -/
theorem ready_task_runs (hr : Run stackAt s h) (hi : (s.tasks i).state = .ready) : s.wait i ≤ 30 ∧
    (∀ calls, s.wait i ≤ ticks calls → ∃ n t, runCalls stackAt s (calls.take n) = .ok t ∧ t.current = i) ∧
    ∀ calls, (∀ c ∈ calls, c.ticks = 1) → calls.length < s.wait i →
      ∃ t, runCalls stackAt s calls = .ok t ∧ (t.tasks i).state = .ready := by
  have hinv := (run_inv hr).1
  have ht := run_timed hr
  have hmem := (hinv.ready i).mpr hi
  exact ⟨wait_le hinv ht hmem, fun calls => runs_in_time hinv ht hmem, fun calls => waits_in_ticks hinv ht hmem⟩

theorem ready_task_runs_boot : ∃ s h, Run (fun _ => 0x100000) s h ∧ s.wait 2 = 20 ∧
    ∃ n t, runCalls (fun _ => 0x100000) s ((List.replicate 20 (.interrupt .tick 0)).take n) = .ok t ∧
    t.current = 2 := by
  have hr : Run (fun _ => 0x100000) _ _ := Run.init 0x8000 0x400000 0x400100
  exact ⟨_, _, hr, rfl, (ready_task_runs hr (i := 2) rfl).2.1 _ (by decide)⟩

end Pippin.Sched
