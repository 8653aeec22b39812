import Pippin.Kernel.InputLoop
import Pippin.Kernel.Shell
import Pippin.Native.Table

/-! The main loop of `lib.rs` around the shell: after `ps2::poll` it reads the serial console and the host, and
then empties the boot port. Whatever arrives, the desktop is in a state of the compositor's own runs, and the
client windows are in a state of the window server's. -/

namespace Pippin.Kernel
open Checked Str
open Pippin.Native (Compositor ShellSurface)
open Pippin.Client (Event)
open Pippin.Broker (Bridge)

def Input.ofEvent (e : Ipc.Event) : Option Input := (Ps2.dispatch e).map fun input =>
  match input with
  | .key byte => .key byte
  | .mouse packet => .mouse packet

namespace Shell

variable (model : List ShellSurface) (display : Bool)

/-- The loop over `event::poll`, with what goes to the host. A key can switch the machine off. -/
def pollEvents (sh : Shell) : List Ipc.Event → Checked (Shell × List Message)
  | [] => .ok (sh, [])
  | e :: events =>
    match Input.ofEvent e with
    | none => sh.pollEvents events
    | some input => do
      let (sh, messages) ← sh.step model display input
      if sh.running then
        let (sh, more) ← sh.pollEvents events
        return (sh, messages ++ more)
      else return (sh, messages)

/-- The body of the main loop: the bytes on the serial line, the bytes from the host and the events that
`ps2::poll` and other processes left in the boot port. -/
def iterate (sh : Shell) (serial host : List UInt8) (events : List Ipc.Event) :
    Checked (Shell × List UInt8 × List Message) := do
  let sh := sh.pollSerial model display serial
  if sh.running then
    let (sh, port, replies) ← sh.pollBridge model display host
    let (sh, messages) ← sh.pollEvents model display events
    return (sh, port, replies ++ messages)
  else return (sh, host, [])

end Shell

inductive MainLoop (model : List ShellSurface) : Shell → Prop where
  | new : MainLoop model .new
  | iterate {sh sh' : Shell} {port : List UInt8} {messages : List Message} (display : Bool)
      (serial host : List UInt8) (events : List Ipc.Event) (h : MainLoop model sh) (hrunning : sh.running = true)
      (hstep : sh.iterate model display serial host events = .ok (sh', port, messages)) : MainLoop model sh'

variable {model : List ShellSurface} {display : Bool} {ok : Bool → Shell → Input → Prop} {sh sh' : Shell}
variable {s : Compositor}

theorem Run.pollEvents (h : Run model ok sh) (hrunning : sh.running = true) (hok : ∀ sh input, ok display sh input)
    (events : List Ipc.Event) : Ensures (sh.pollEvents model display events) fun r => Run model ok r.1 := by
  induction events generalizing sh with
  | nil => exact ensures_ok h
  | cons e events ih =>
    unfold Shell.pollEvents
    split
    · exact ih h hrunning
    · rename_i input _
      refine ensures_bind fun r hr => ?_
      have hnext : Run model ok r.1 := .step display input h hrunning (hok _ _) hr
      dsimp only
      split_ifs with hstill
      · exact ensures_bind fun q hq => ensures_ok (ih hnext hstill q hq)
      · exact ensures_ok hnext

theorem Run.iterate (h : Run model ok sh) (hrunning : sh.running = true) (hok : ∀ sh input, ok display sh input)
    (serial host : List UInt8) (events : List Ipc.Event) :
    Ensures (sh.iterate model display serial host events) fun r => Run model ok r.1 := by
  have hserial := h.pollSerial hrunning hok serial
  unfold Shell.iterate
  dsimp only
  split_ifs with hstill
  · refine ensures_bind fun r hr => ?_
    obtain ⟨hbridge, hon⟩ := hserial.pollBridge hstill hok host r hr
    exact ensures_bind fun q hq => ensures_ok (hbridge.pollEvents hon hok events q hq)
  · exact ensures_ok hserial

theorem MainLoop.run (h : MainLoop model sh) : Run model (fun _ _ _ => True) sh := by
  induction h with
  | new => exact .new
  | iterate display serial host events _ hrunning hstep ih =>
    exact ih.iterate hrunning (fun _ _ => trivial) serial host events _ hstep

/-! ## The desktop -/

/-- What the operations of the compositor keep when the lines of the host satisfy `L`, and what they say of the
actions. -/
structure DesktopRule (model : List ShellSurface) (L : Str → Prop) (Q : Compositor → Prop) (A : Str → Prop) : Prop where
  new : Q (.new model)
  command : ∀ s line, Q s → L line → Ensures (s.desktopCommand line) fun r => Q r.1
  test : ∀ s, Q s → Ensures s.openTestWindow Q
  key : ∀ s scan text reverseFocus extended, Q s → Ensures (s.keyScancode scan text reverseFocus extended) fun r =>
    Q r.1 ∧ ∀ action, r.2.1 = some action → A action
  pointer : ∀ s packet, Q s → Ensures (s.pointerPacket packet) fun r => Q r.1 ∧ ∀ action, r.2.1 = some action → A action
  builtin : ∀ action line, surfaceCommand action = some line → L line
  diverted : ∀ (sh : Shell) scan action, sh.diverted scan = some action → A action
  terminal : A "terminal.open".toList

namespace Shell

variable {L : Str → Prop} {Q : Compositor → Prop} {A : Str → Prop}

def Desktop (Q : Compositor → Prop) (sh : Shell) : Prop := ∀ s, sh.desktop = some s → Q s

/-- So it has after a step, and the actions that go to the host have theirs. -/
structure Kept (Q : Compositor → Prop) (A : Str → Prop) (r : Shell × List Message) : Prop where
  desktop : r.1.Desktop Q
  actions : ∀ action, Message.action action ∈ r.2 → A action

structure Quiet (Q : Compositor → Prop) (A : Str → Prop) (bridge : Bridge) (r : Shell × List Message) : Prop
    extends Kept Q A r where
  bridge : r.1.bridge = bridge
  replies : ∀ reply, Message.reply reply ∉ r.2

theorem desktop_none (h : sh.desktop = none) : sh.Desktop Q := by
  intro s hs
  rw [h] at hs
  cases hs

theorem desktop_some (h : sh.desktop = some s) (hs : Q s) : sh.Desktop Q := by
  intro t ht
  rw [h] at ht
  cases ht
  exact hs

theorem Desktop.congr (h : sh.Desktop Q) (hd : sh'.desktop = sh.desktop) : sh'.Desktop Q :=
  fun s hs => h s (hd.symm.trans hs)

theorem Desktop.bridge (h : sh.Desktop Q) (bridge : Bridge) : Desktop Q { sh with bridge } := h

theorem Desktop.quiet {bridge : Bridge} (h : sh.Desktop Q) (hbridge : sh.bridge = bridge) : Quiet Q A bridge (sh, []) :=
  ⟨⟨h, by simp⟩, hbridge, by simp⟩

theorem Desktop.sends (h : sh.Desktop Q) {action : Str} (ha : A action) : Quiet Q A sh.bridge (sh, [.action action]) :=
  ⟨⟨h, by simpa using ha⟩, rfl, by simp⟩

theorem Desktop.answers (h : sh.Desktop Q) (replies : List Broker.Reply) (events : List Event) :
    Kept Q A (sh, replies.map .reply ++ events.map .event) := by
  refine ⟨h, fun a ha => ?_⟩
  rcases List.mem_append.mp ha with ha | ha
  · obtain ⟨_, -, h⟩ := List.mem_map.mp ha
    cases h
  · obtain ⟨_, -, h⟩ := List.mem_map.mp ha
    cases h

theorem execute_bridge (command : Str) : (sh.execute model display command).bridge = sh.bridge := by
  unfold execute
  split_ifs
  · split
    · rfl
    · split <;> rfl
  all_goals rfl

theorem input_bridge (byte : UInt8) : (sh.input model display byte).bridge = sh.bridge := by
  unfold input
  split_ifs
  · exact execute_bridge sh.command
  all_goals rfl

theorem serialByte_bridge (byte : UInt8) : (sh.serialByte model display byte).bridge = sh.bridge := by
  unfold serialByte
  split_ifs
  · rfl
  · exact input_bridge byte

theorem consoleKey_bridge (scan : UInt8) : (sh.consoleKey model display scan).bridge = sh.bridge := by
  unfold consoleKey
  split_ifs
  · rfl
  · rfl
  · rfl
  · rfl
  · split
    · rfl
    · exact input_bridge _

section

variable (hrule : DesktopRule model L Q A)

include hrule

theorem openDesktop_rule (hs : openDesktop model display = some s) : Q s := by
  unfold openDesktop at hs
  split_ifs at hs
  cases hs
  exact hrule.new

theorem execute_desktop (h : sh.Desktop Q) (command : Str) : (sh.execute model display command).Desktop Q := by
  unfold execute
  split_ifs
  · split
    · exact h
    · split
      · exact h
      · rename_i hopen
        exact desktop_some rfl (openDesktop_rule hrule hopen)
  · exact desktop_none rfl
  · exact h
  · exact h

theorem input_desktop (h : sh.Desktop Q) (byte : UInt8) : (sh.input model display byte).Desktop Q := by
  unfold input
  split_ifs
  · exact (execute_desktop hrule h sh.command).congr rfl
  · exact h
  · exact h
  · exact h

theorem serialByte_desktop (h : sh.Desktop Q) (byte : UInt8) : (sh.serialByte model display byte).Desktop Q := by
  unfold serialByte
  split_ifs
  · exact h
  · have h' : Desktop Q { sh with lastWasCr := decide (byte = 13) } := h
    exact input_desktop hrule h' byte

theorem bridgeLine_desktop_rule (h : sh.Desktop Q) {line : Str} (hline : L line) :
    Ensures (sh.bridgeLine model display line) fun r => r.1.Desktop Q := by
  intro r hr s hs
  have hdesktop : Broker.pollCommand (openDesktop model display) sh.desktop line = (r.2.1, r.1.desktop) :=
    bridgeLine_desktop line r hr
  have hopened : ∀ u, openDesktop model display = some u → Q u := fun u hu => openDesktop_rule hrule hu
  refine Broker.pollCommand_keeps hopened h (fun s hs => hrule.command s line hs hline) s ?_
  rw [hdesktop]
  exact hs

theorem bridgeByte_kept (h : sh.Desktop Q) {byte : UInt8} (hline : ∀ line, byte = 10 → sh.bridge.overflow = false →
    fromUtf8 sh.bridge.line = some line → L line) :
    Ensures (sh.bridgeByte model display byte) (Kept Q A) := by
  unfold bridgeByte
  rcases Bridge.receive_cases (hostLine model display) sh.bridge byte with ⟨rfl, hover, line, htext⟩ | ⟨bridge, hother⟩
  · rw [Bridge.receive_ended hover htext]
    rcases Bridge.answer_cases (hostLine model display) line with ⟨reply, hanswer⟩ | hanswer
    · rw [hanswer]
      exact ensures_ok ((h.bridge _).answers _ _)
    · dsimp only
      rw [hanswer, hostLine_ok]
      refine ensures_bind fun r hr => ensures_ok ?_
      cases hq : sh.bridgeLine model display line with
      | error e =>
        rw [hq] at hr
        cases hr
      | ok q =>
        rw [hq] at hr
        cases hr
        exact ((bridgeLine_desktop_rule hrule h (hline line rfl hover htext) q hq).bridge _).answers _ _
  · rw [hother]
    exact ensures_ok ((h.bridge _).answers _ _)

theorem surfaceAction_quiet (h : sh.Desktop Q) {action : Str} (ha : A action) :
    Ensures (sh.surfaceAction action) (Quiet Q A sh.bridge) := by
  unfold surfaceAction
  split
  · rename_i command s hcommand hs
    refine ensures_bind fun r hr => ensures_ok (Desktop.quiet ?_ rfl)
    exact desktop_some rfl (hrule.command s command (h s hs) (hrule.builtin action command hcommand) r hr)
  · exact ensures_ok (h.sends ha)

theorem handleDesktopAction_quiet (h : sh.Desktop Q) {action : Str} (ha : A action) :
    Ensures (sh.handleDesktopAction model display action) (Quiet Q A sh.bridge) := by
  unfold handleDesktopAction
  split
  · split_ifs
    · exact ensures_ok (h.quiet rfl)
    · exact ensures_ok ((execute_desktop hrule h _).quiet (execute_bridge _))
    · exact ensures_ok (h.quiet rfl)
    · exact surfaceAction_quiet hrule h ha
  · exact surfaceAction_quiet hrule h ha

theorem respond_quiet (h : sh.Desktop Q) {action : Option Str} (ha : ∀ a, action = some a → A a) (events : List Event) :
    Ensures (sh.respond model display action events) (Quiet Q A sh.bridge) := by
  have append : ∀ {r : Shell × List Message}, Quiet Q A sh.bridge r →
      Quiet Q A sh.bridge (r.1, r.2 ++ events.map .event) := by
    intro r hr
    refine ⟨⟨hr.desktop, fun a hmem => ?_⟩, hr.bridge, fun reply hmem => ?_⟩
    · exact hr.actions a (by simpa using hmem)
    · exact hr.replies reply (by simpa using hmem)
  unfold respond
  refine ensures_bind fun r hr => ensures_ok ?_
  cases action with
  | none =>
    cases hr
    exact append (h.quiet rfl)
  | some action => exact append (handleDesktopAction_quiet hrule h (ha action rfl) r hr)

theorem consoleKey_desktop (h : sh.Desktop Q) (scan : UInt8) : (sh.consoleKey model display scan).Desktop Q := by
  unfold consoleKey
  split_ifs
  · exact h
  · exact h
  · exact h
  · exact h
  · split
    · exact h
    · exact input_desktop hrule h _

theorem desktopKey_quiet (hs : Q s) (scan : UInt8) (extended : Bool) :
    Ensures (sh.desktopKey model display s scan extended) (Quiet Q A sh.bridge) := by
  unfold desktopKey
  split
  · exact ensures_ok (Desktop.quiet (desktop_none rfl) rfl)
  · refine ensures_bind fun t ht => ensures_bind fun r hr => ?_
    have htest : Q t := by
      split at ht
      · exact hrule.test s hs t ht
      · cases ht
        exact hs
    obtain ⟨hkey, hactions⟩ := hrule.key t _ _ _ _ htest r hr
    exact respond_quiet hrule (desktop_some rfl hkey) hactions _

theorem keyScancode_quiet (h : sh.Desktop Q) (scan : UInt8) :
    Ensures (sh.keyScancode model display scan) (Quiet Q A sh.bridge) := by
  unfold keyScancode
  split
  · exact ensures_ok ((consoleKey_desktop hrule h scan).quiet (consoleKey_bridge scan))
  · rename_i s hs
    have h' : Desktop Q { sh with extended := false } := h
    dsimp only
    split_ifs
    · exact ensures_ok (Desktop.quiet h rfl)
    · exact ensures_ok (Desktop.quiet h rfl)
    · exact ensures_ok (Desktop.quiet h rfl)
    · exact handleDesktopAction_quiet hrule h' hrule.terminal
    · exact ensures_ok (Desktop.quiet h rfl)
    · split
      · rename_i action hdiverted
        exact ensures_ok (Desktop.sends h' (hrule.diverted _ _ _ hdiverted))
      · exact desktopKey_quiet hrule (h s hs) scan _

theorem mousePacket_quiet (h : sh.Desktop Q) (packet : UInt32) :
    Ensures (sh.mousePacket model display packet) (Quiet Q A sh.bridge) := by
  unfold mousePacket
  split
  · exact ensures_ok (h.quiet rfl)
  · rename_i s hs
    refine ensures_bind fun r hr => ?_
    obtain ⟨hpointer, hactions⟩ := hrule.pointer s packet (h s hs) r hr
    exact respond_quiet hrule (desktop_some rfl hpointer) hactions _

theorem step_quiet (h : sh.Desktop Q) {input : Input} (hinput : ∀ byte, input ≠ .bridge byte) :
    Ensures (sh.step model display input) (Quiet Q A sh.bridge) := by
  cases input with
  | bridge byte => exact absurd rfl (hinput byte)
  | serial byte => exact ensures_ok ((serialByte_desktop hrule h byte).quiet (serialByte_bridge byte))
  | key scan => exact keyScancode_quiet hrule h scan
  | mouse packet => exact mousePacket_quiet hrule h packet

theorem step_kept (h : sh.Desktop Q) {input : Input} (hline : ∀ line, input = .bridge 10 → sh.bridge.overflow = false →
    fromUtf8 sh.bridge.line = some line → L line) : Ensures (sh.step model display input) (Kept Q A) := by
  by_cases hinput : ∀ byte, input ≠ .bridge byte
  · exact fun r hr => (step_quiet hrule h hinput r hr).toKept
  · obtain ⟨byte, rfl⟩ := not_forall_not.mp hinput
    exact bridgeByte_kept hrule h fun line hbyte => hline line (hbyte ▸ rfl)

end

end Shell

theorem reachable_rule (model : List ShellSurface) :
    DesktopRule model (fun _ => True) (Compositor.Reachable model) fun _ => True where
  new := .new
  command s line hs _ := by
    unfold Compositor.desktopCommand
    split
    · exact fun r hr => hs.clientCommand _ hr
    · exact ensures_bind fun r hr => ensures_ok (hs.command _ hr)
  test s hs t ht := hs.testWindow ht
  key s scan text reverseFocus extended hs r hr := ⟨hs.key _ _ _ _ hr, fun _ _ => trivial⟩
  pointer s packet hs r hr := ⟨hs.pointer packet hr, fun _ _ => trivial⟩
  builtin _ _ _ := trivial
  diverted _ _ _ _ := trivial
  terminal := trivial

theorem Run.reached (h : Run model ok sh) : sh.Desktop (Compositor.Reachable model) := by
  induction h with
  | new => exact Shell.desktop_none rfl
  | step display input _ _ _ hstep ih =>
    exact (Shell.step_kept (reachable_rule model) ih (fun _ _ _ _ => trivial) _ hstep).desktop

/-- The layers fit: however the main loop ran, the desktop it left is a state of the compositor's own runs with
at most sixteen surfaces, and its client windows are a state of the window server's own runs. -/
theorem main_loop_desktop (h : MainLoop model sh) (hs : sh.desktop = some s) :
    Compositor.Reachable model s ∧ s.clients.Reachable ∧ s.windows.length ≤ Native.maxWindows := by
  have hreached := h.run.reached s hs
  exact ⟨hreached, hreached.clients, hreached.length_le⟩

theorem main_loop_desktop_opened : ∃ sh s, MainLoop [] sh ∧ sh.desktop = some s ∧ s.clients.Reachable := by
  have hstep : Shell.new.iterate [] true (bytes "desktop\r\n".toList) [] [Ps2.Input.event (.key 0x38)] =
      .ok ({ Shell.new with
        desktop := some (.new [])
        alt := true
        screenEnabled := false }, [], []) := by
    decide +kernel
  have h : MainLoop [] _ := .iterate true _ _ _ .new rfl hstep
  exact ⟨_, _, h, rfl, (main_loop_desktop h rfl).2.1⟩

end Pippin.Kernel
