import Pippin.Lib.RingBuffer

/-! The single-CPU scheduler of `sched.rs`. Saved frames are the pointers the
interrupt stubs pass in; the frames `spawn` and `spawn_user` lay out on a fresh
stack are kept in `stackFrames`. -/

namespace Pippin.Sched

abbrev maxTasks : Nat := 4

scoped instance : NeZero maxTasks := ⟨by decide⟩

abbrev Index := Fin maxTasks

def stackSize : UInt64 := 16 * 1024

def quantumTicks : UInt8 := 10

inductive TaskState where
  | unused | ready | running | dead
deriving DecidableEq, Repr

/-- The frame `isr.S` pushes, low to high addresses. -/
structure IntFrame where
  r15 : UInt64 := 0
  r14 : UInt64 := 0
  r13 : UInt64 := 0
  r12 : UInt64 := 0
  r11 : UInt64 := 0
  r10 : UInt64 := 0
  r9 : UInt64 := 0
  r8 : UInt64 := 0
  rbp : UInt64 := 0
  rdi : UInt64 := 0
  rsi : UInt64 := 0
  rdx : UInt64 := 0
  rcx : UInt64 := 0
  rbx : UInt64 := 0
  rax : UInt64 := 0
  vector : UInt64 := 0
  err : UInt64 := 0
  rip : UInt64 := 0
  cs : UInt64 := 0
  rflags : UInt64 := 0
  rsp : UInt64 := 0
  ss : UInt64 := 0
deriving DecidableEq, Repr

def intFrameBytes : UInt64 := 22 * 8

structure Task where
  frame : UInt64 := 0
  stackTop : UInt64 := 0
  state : TaskState := .unused
  slot : Index := 0
  ticks : UInt64 := 0

structure ProcessSlot where
  pid : UInt32 := 0
  mainThread : UInt8 := 0
  eventPort : UInt16 := 0
  zone : UInt8 := 0
deriving DecidableEq, Repr

/-- The statics of the scheduler. `fxArea` is the task whose FPU area the stubs use,
`none` until `init` has run. -/
structure State where
  tasks : Index → Task := fun _ => {}
  slots : Index → ProcessSlot := fun _ => {}
  current : Index := 0
  queue : RingBuffer Index := ⟨fun _ => 0, 0, 0⟩
  remaining : UInt8 := quantumTicks
  switches : UInt64 := 0
  fxArea : Option Index := none
  kernelRsp : UInt64 := 0
  stackFrames : UInt64 → IntFrame := fun _ => {}

abbrev Stacks := Index → UInt64

def stackTopOf (stackAt : Stacks) (i : Index) : UInt64 := ((stackAt i + stackSize) &&& ~~~15) - 8

def spawnFrame (stackAt : Stacks) (i : Index) : UInt64 := stackTopOf stackAt i - intFrameBytes

def enqueue (s : State) (i : Index) : State := { s with queue := s.queue.push maxTasks i }

def dequeue (s : State) : Option (Index × State) :=
  (s.queue.pop maxTasks).map fun (i, q) => (i, { s with queue := q })

/-- What `spawn` and `spawn_user` share: lay out the first frame, make the task READY
and queue it. -/
def startTask (stackAt : Stacks) (s : State) (i : Index) (f : IntFrame) (slot : ProcessSlot)
    (ticks : UInt64) : State :=
  enqueue { s with
    tasks := Function.update s.tasks i
      ⟨spawnFrame stackAt i, stackTopOf stackAt i, .ready, i, ticks⟩
    slots := Function.update s.slots i slot
    stackFrames := Function.update s.stackFrames (spawnFrame stackAt i) f } i

def spawn (stackAt : Stacks) (s : State) (i : Index) (entry : UInt64) : State :=
  startTask stackAt s i
    { rip := entry, cs := 0x08, rflags := 0x202, rsp := stackTopOf stackAt i, ss := 0x10 }
    ⟨UInt32.ofNat (i + 1), UInt8.ofNat i, 0, UInt8.ofNat i⟩ (s.tasks i).ticks

def init (stackAt : Stacks) (bootRsp first second : UInt64) : State :=
  let s : State := {}
  let s := { s with
    tasks := Function.update s.tasks 0 { s.tasks 0 with state := .running, slot := 0 }
    slots := Function.update s.slots 0 ⟨1, 0, 0, 0⟩
    fxArea := some 0
    kernelRsp := bootRsp }
  { spawn stackAt (spawn stackAt s 1 first) 2 second with remaining := quantumTicks }

/-- Why `schedule` does not return: the halt loop for want of a runnable task, or the
`unwrap` of an empty dequeue. -/
inductive Stop where
  | halted | panicked
deriving DecidableEq, Repr

def switchOut (s : State) (frame : UInt64) (requeue : Bool) : State :=
  let state := if requeue then TaskState.ready else .dead
  let s := { s with
    tasks := Function.update s.tasks s.current { s.tasks s.current with frame := frame, state := state } }
  if requeue then enqueue s s.current else s

def switchIn (s : State) (next : Index) : State :=
  { s with
    current := next
    tasks := Function.update s.tasks next { s.tasks next with state := .running }
    remaining := quantumTicks
    switches := s.switches + 1
    fxArea := some next
    kernelRsp := (s.tasks next).stackTop }

def schedule (s : State) (frame : UInt64) (requeue : Bool) : Except Stop (UInt64 × State) :=
  if s.queue.len = 0 then
    if requeue then .ok (frame, { s with remaining := quantumTicks }) else .error .halted
  else
    match dequeue (switchOut s frame requeue) with
    | none => .error .panicked
    | some (next, s) => .ok ((s.tasks next).frame, switchIn s next)

def spawnUser (stackAt : Stacks) (s : State) (rip userRsp : UInt64) (port : UInt16) : Bool × State :=
  if (s.tasks 3).state ≠ .unused ∧ (s.tasks 3).state ≠ .dead then (false, s)
  else (true, startTask stackAt s 3
    { rip := rip, cs := 0x33, rflags := 0x202, rsp := userRsp, ss := 0x2b, rdi := port.toUInt64 }
    ⟨4, 3, port, 0⟩ 0)

def onTick (s : State) (frame : UInt64) : Except Stop (UInt64 × State) :=
  if s.fxArea.isNone then .ok (frame, s)
  else
    let s := { s with
      tasks := Function.update s.tasks s.current
        { s.tasks s.current with ticks := (s.tasks s.current).ticks + 1 }
      remaining := s.remaining - min s.remaining 1 }
    if s.remaining = 0 then schedule s frame true else .ok (frame, s)

def onYield (s : State) (frame : UInt64) : Except Stop (UInt64 × State) :=
  if s.fxArea.isNone then .ok (frame, s) else schedule s frame true

def onExit (s : State) (frame : UInt64) : Except Stop (UInt64 × State) := schedule s frame false

def currentPid (s : State) : UInt32 := (s.slots (s.tasks s.current).slot).pid

def taskDead (s : State) (i : Index) : Bool := (s.tasks i).state = .dead

end Pippin.Sched
