import Pippin.Broker.GuestWindows

/-! The command shell of the kernel: the text console, and the desktop that it opens. Keys go to the
command line, to the compositor, or while a terminal is open to the host. What is printed is left out. -/

namespace Pippin.Kernel
open Checked Str
open Pippin.Native (Compositor ShellSurface)
open Pippin.Client (Event)
open Pippin.Broker (Bridge Reply)

def LINE_CAPACITY : Nat := 128

inductive Message where
  | reply (reply : Reply)
  | action (action : Str)
  | event (event : Event)
deriving DecidableEq, Repr

/-- `running` ends with a power-off or a reset. -/
structure Shell where
  desktop : Option Compositor
  bridge : Bridge
  line : List UInt8
  shift : Bool
  alt : Bool
  terminalCapture : Bool
  caps : Bool
  extended : Bool
  lastWasCr : Bool
  screenEnabled : Bool
  running : Bool
deriving DecidableEq

def keyPair (scan : UInt8) : Option (UInt8 × UInt8) :=
  match scan with
  | 0x02 => some (49, 33) | 0x03 => some (50, 64) | 0x04 => some (51, 35) | 0x05 => some (52, 36)
  | 0x06 => some (53, 37) | 0x07 => some (54, 94) | 0x08 => some (55, 38) | 0x09 => some (56, 42)
  | 0x0a => some (57, 40) | 0x0b => some (48, 41) | 0x0c => some (45, 95) | 0x0d => some (61, 43)
  | 0x0e => some (8, 8) | 0x10 => some (113, 81) | 0x11 => some (119, 87) | 0x12 => some (101, 69)
  | 0x13 => some (114, 82) | 0x14 => some (116, 84) | 0x15 => some (121, 89) | 0x16 => some (117, 85)
  | 0x17 => some (105, 73) | 0x18 => some (111, 79) | 0x19 => some (112, 80) | 0x1a => some (91, 123)
  | 0x1b => some (93, 125) | 0x1c => some (10, 10) | 0x1e => some (97, 65) | 0x1f => some (115, 83)
  | 0x20 => some (100, 68) | 0x21 => some (102, 70) | 0x22 => some (103, 71) | 0x23 => some (104, 72)
  | 0x24 => some (106, 74) | 0x25 => some (107, 75) | 0x26 => some (108, 76) | 0x27 => some (59, 58)
  | 0x28 => some (39, 34) | 0x29 => some (96, 126) | 0x2b => some (92, 124) | 0x2c => some (122, 90)
  | 0x2d => some (120, 88) | 0x2e => some (99, 67) | 0x2f => some (118, 86) | 0x30 => some (98, 66)
  | 0x31 => some (110, 78) | 0x32 => some (109, 77) | 0x33 => some (44, 60) | 0x34 => some (46, 62)
  | 0x35 => some (47, 63) | 0x39 => some (32, 32)
  | _ => none

def openDesktop (model : List ShellSurface) (display : Bool) : Option Compositor :=
  if display then some (.new model) else none

def builtin (id : Str) : Bool :=
  id == "launcher".toList || id == "files".toList || id == "settings".toList || id == "terminal".toList

def surfaceCommand (action : Str) : Option Str :=
  match (stripSuffix ".open".toList action).orElse fun _ => stripSuffix ".restore".toList action with
  | some id => if builtin id then some ('R' :: '|' :: id) else none
  | none =>
    match stripSuffix ".close".toList action with
    | some id => if builtin id then some ('M' :: '|' :: id) else none
    | none => none

namespace Shell

def new : Shell where
  desktop := none
  bridge := .new
  line := []
  shift := false
  alt := false
  terminalCapture := false
  caps := false
  extended := false
  lastWasCr := false
  screenEnabled := true
  running := true

variable (model : List ShellSurface) (display : Bool)

/-! ## Commands -/

/-- A command of the user. Those that only print are left out, and `run hello`, which starts a process. -/
def execute (sh : Shell) (command : Str) : Shell :=
  if command = "desktop".toList then
    match sh.desktop with
    | some _ => sh
    | none =>
      match openDesktop model display with
      | none => sh
      | some s => { sh with desktop := some s, screenEnabled := false }
  else if command = "console".toList then { sh with desktop := none, screenEnabled := true }
  else if command = "shutdown".toList ∨ command = "poweroff".toList ∨ command = "reboot".toList then
    { sh with running := false }
  else sh

def command (sh : Shell) : Str := trim ((fromUtf8 sh.line).getD [])

def input (sh : Shell) (byte : UInt8) : Shell :=
  if byte = 13 ∨ byte = 10 then { sh.execute model display sh.command with line := [] }
  else if (byte = 8 ∨ byte = 127) ∧ 0 < sh.line.length then { sh with line := sh.line.dropLast }
  else if (0x20 ≤ byte ∧ byte ≤ 0x7e) ∧ sh.line.length < LINE_CAPACITY - 1 then { sh with line := sh.line ++ [byte] }
  else sh

/-- A byte of `poll_serial`: the line feed after a carriage return is skipped. -/
def serialByte (sh : Shell) (byte : UInt8) : Shell :=
  if byte = 10 ∧ sh.lastWasCr then { sh with lastWasCr := false }
  else { sh with lastWasCr := byte = 13 }.input model display byte

def surfaceAction (sh : Shell) (action : Str) : Checked (Shell × List Message) := do
  match surfaceCommand action, sh.desktop with
  | some command, some s =>
    let (s, _, _) ← s.desktopCommand command
    return ({ sh with desktop := some s }, [])
  | _, _ => return (sh, [.action action])

/-- `handle_desktop_action`: text fields submit their value after a unit separator. -/
def handleDesktopAction (sh : Shell) (action : Str) : Checked (Shell × List Message) :=
  match splitOnce (Char.ofNat 0x1f) action with
  | some (name, value) =>
    if name = "terminal.input".toList then
      .ok (if (trim value).isEmpty then sh else sh.execute model display (trim value), [])
    else if name = "launcher.search".toList ∨ name = "files.search".toList then .ok (sh, [])
    else sh.surfaceAction action
  | none => sh.surfaceAction action

def respond (sh : Shell) (action : Option Str) (events : List Event) : Checked (Shell × List Message) := do
  let (sh, messages) ← (match action with
    | some action => sh.handleDesktopAction model display action
    | none => pure (sh, []) : Checked (Shell × List Message))
  return (sh, messages ++ events.map .event)

/-! ## The host -/

/-- A line of the host: a `terminal` surface captures the keyboard, and the first surface opens the desktop. -/
def bridgeLine (sh : Shell) (line : Str) : Checked (Shell × Bool × List Event) := do
  let terminalCapture := if "S|terminal|".toList.isPrefixOf line then true
    else if line = "X|terminal".toList then false
    else sh.terminalCapture
  let opens := ("S|".toList.isPrefixOf line || "WC|".toList.isPrefixOf line) && sh.desktop.isNone
  let desktop := if opens then openDesktop model display else sh.desktop
  let screenEnabled := if opens && desktop.isSome then false else sh.screenEnabled
  match desktop with
  | none => return ({ sh with terminalCapture, desktop, screenEnabled }, false, [])
  | some s =>
    let (s, accepted, events) ← s.desktopCommand line
    return ({ sh with terminalCapture, desktop := some s, screenEnabled }, accepted, events)

/-- The closure of `poll_bridge`, with the events so far. A fault stops the shell. -/
def hostLine (state : Checked (Shell × List Event)) (line : Str) : Bool × Checked (Shell × List Event) :=
  match state >>= fun (sh, events) => do
      let (sh, accepted, more) ← sh.bridgeLine model display line
      return (sh, accepted, events ++ more) with
  | .ok (sh, accepted, events) => (accepted, .ok (sh, events))
  | .error e => (false, .error e)

/-- `poll_bridge`, with what is left in the port: the replies go out at once, the events at the end. -/
def pollBridge (sh : Shell) (port : List UInt8) : Checked (Shell × List UInt8 × List Message) := do
  let p := Bridge.poll (hostLine model display) ⟨sh.bridge, .ok (sh, []), port, []⟩
  let (sh, events) ← p.state
  return ({ sh with bridge := p.bridge }, p.port, p.replies.map .reply ++ events.map .event)

def bridgeByte (sh : Shell) (byte : UInt8) : Checked (Shell × List Message) := do
  let (bridge, state, replies) := Bridge.receive (hostLine model display) sh.bridge (.ok (sh, [])) byte
  let (sh, events) ← state
  return ({ sh with bridge }, replies.map .reply ++ events.map .event)

/-! ## Keys -/

def keyText (sh : Shell) (scan : UInt8) : Option UInt8 := (keyPair scan).map fun (plain, shifted) =>
  if 97 ≤ plain ∧ plain ≤ 122 then if sh.shift ^^ sh.caps then plain - 32 else plain
  else if sh.shift then shifted
  else plain

def hexByte (byte : UInt8) : Str := (Nat.toDigits 16 byte.toNat).leftpad 2 '0'

def diverted (sh : Shell) (scan : UInt8) : Option Str :=
  if sh.terminalCapture && scan &&& 0x80 == 0 then
    if scan = 0x1c then some "terminal.run".toList
    else if scan = 0x0e then some "terminal.backspace".toList
    else (sh.keyText scan).bind fun byte =>
      if 0x20 ≤ byte ∧ byte ≤ 0x7e then some ("terminal.key.".toList ++ hexByte byte) else none
  else none

def modifiers (sh : Shell) (scan : UInt8) : Shell :=
  { sh with
    shift := if scan = 0x2a ∨ scan = 0x36 then true else if scan = 0xaa ∨ scan = 0xb6 then false else sh.shift
    caps := if scan = 0x3a then !sh.caps else sh.caps }

def desktopKey (sh : Shell) (s : Compositor) (scan : UInt8) (extended : Bool) : Checked (Shell × List Message) := do
  if scan = 0x01 ∧ ¬s.clients.isActive then
    return ({ sh with desktop := none, screenEnabled := true }.modifiers scan, [])
  else
    let s ← (if scan = 0x31 ∧ ¬s.clients.isActive then s.openTestWindow else pure s)
    let sh := sh.modifiers scan
    let text := if scan &&& 0x80 = 0 then sh.keyText scan else none
    let (s, action, events) ← s.keyScancode scan text sh.shift extended
    { sh with desktop := some s }.respond model display action events

def consoleKey (sh : Shell) (scan : UInt8) : Shell :=
  if scan = 0xe0 then { sh with extended := true }
  else if sh.extended then { sh with extended := false }
  else if scan = 0x2a ∨ scan = 0x36 ∨ scan = 0xaa ∨ scan = 0xb6 ∨ scan = 0x3a then sh.modifiers scan
  else if scan &&& 0x80 ≠ 0 then sh
  else
    match sh.keyText scan with
    | none => sh
    | some byte => sh.input model display byte

def keyScancode (sh : Shell) (scan : UInt8) : Checked (Shell × List Message) :=
  match sh.desktop with
  | none => .ok (sh.consoleKey model display scan, [])
  | some s =>
    if scan = 0xe0 then .ok ({ sh with extended := true }, [])
    else
      let extended := sh.extended
      let sh := { sh with extended := false }
      if scan = 0x38 then .ok ({ sh with alt := true }, [])
      else if scan = 0xb8 then .ok ({ sh with alt := false }, [])
      else if sh.alt ∧ scan = 0x14 then sh.handleDesktopAction model display "terminal.open".toList
      else if scan = 0x94 then .ok (sh, [])
      else
        match sh.diverted scan with
        | some action => .ok (sh, [.action action])
        | none => sh.desktopKey model display s scan extended

/-! ## The pointer -/

def mousePacket (sh : Shell) (packet : UInt32) : Checked (Shell × List Message) := do
  match sh.desktop with
  | none => return (sh, [])
  | some s =>
    let (s, action, events) ← s.pointerPacket packet
    { sh with desktop := some s }.respond model display action events

/-! ## Runs -/

/-- `poll_serial`: the machine may be switched off by one of the bytes. -/
def pollSerial (sh : Shell) : List UInt8 → Shell
  | [] => sh
  | byte :: bytes =>
    let sh := sh.serialByte model display byte
    if sh.running then sh.pollSerial bytes else sh

end Shell

/-- What reaches the shell: bytes of the host and of the serial console, keys and mouse packets. -/
inductive Input where
  | bridge (byte : UInt8)
  | serial (byte : UInt8)
  | key (scan : UInt8)
  | mouse (packet : UInt32)

def Shell.step (model : List ShellSurface) (display : Bool) (sh : Shell) : Input → Checked (Shell × List Message)
  | .bridge byte => sh.bridgeByte model display byte
  | .serial byte => .ok (sh.serialByte model display byte, [])
  | .key scan => sh.keyScancode model display scan
  | .mouse packet => sh.mousePacket model display packet

/-- Runs whose inputs all satisfy `ok` in the state they meet. The display may come and go. -/
inductive Run (model : List ShellSurface) (ok : Bool → Shell → Input → Prop) : Shell → Prop where
  | new : Run model ok .new
  | step {sh sh' : Shell} {messages : List Message} (display : Bool) (input : Input) (h : Run model ok sh)
      (hrunning : sh.running = true) (hok : ok display sh input)
      (hstep : sh.step model display input = .ok (sh', messages)) :
      Run model ok sh'

variable {model : List ShellSurface} {display : Bool} {ok : Bool → Shell → Input → Prop} {sh sh' : Shell}

namespace Shell

theorem bridgeLine_bridge (bridge : Bridge) (line : Str) : bridgeLine model display { sh with bridge } line =
    (sh.bridgeLine model display line).map fun r => ({ r.1 with bridge }, r.2) := by
  unfold bridgeLine
  dsimp only
  split
  · rfl
  · rename_i s _
    cases s.desktopCommand line <;> rfl

theorem bridgeLine_running (line : Str) :
    Ensures (sh.bridgeLine model display line) fun r => r.1.running = sh.running := by
  unfold bridgeLine
  dsimp only
  split
  · exact ensures_ok rfl
  · exact ensures_bind fun _ _ => ensures_ok rfl

theorem bridgeLine_desktop (line : Str) : Ensures (sh.bridgeLine model display line) fun r =>
    Broker.pollCommand (openDesktop model display) sh.desktop line = (r.2.1, r.1.desktop) := by
  unfold bridgeLine Broker.pollCommand
  dsimp only
  rw [Bool.and_comm _ sh.desktop.isNone]
  generalize (if (sh.desktop.isNone && ("S|".toList.isPrefixOf line || "WC|".toList.isPrefixOf line)) = true then
    openDesktop model display else sh.desktop) = desktop
  cases desktop with
  | none => exact ensures_ok rfl
  | some s =>
    refine ensures_bind fun r hr => ensures_ok ?_
    dsimp only
    rw [hr]

theorem hostLine_ok (events : List Event) (line : Str) : hostLine model display (.ok (sh, events)) line =
    match sh.bridgeLine model display line with
    | .ok (sh, accepted, more) => (accepted, .ok (sh, events ++ more))
    | .error e => (false, .error e) := by
  unfold hostLine
  rw [ok_bind]
  dsimp only
  cases sh.bridgeLine model display line <;> rfl

theorem feed_error (bridge : Bridge) (e : Fault) (bytes : List UInt8) :
    (Bridge.feed (hostLine model display) bridge (.error e) bytes).2.1 = .error e := by
  induction bytes generalizing bridge with
  | nil => rfl
  | cons byte bytes ih =>
    have hreceive : (Bridge.receive (hostLine model display) bridge (.error e) byte).2.1 = .error e := by
      rcases Bridge.receive_cases (hostLine model display) bridge byte with
        ⟨rfl, hover, line, hline⟩ | ⟨bridge', hother⟩
      · rw [Bridge.receive_ended hover hline]
        rcases Bridge.answer_state with hanswer | hanswer <;> exact hanswer
      · rw [hother]
    rw [Bridge.feed]
    dsimp only
    rw [hreceive]
    exact ih _

theorem receive_step {bridge bridge' : Bridge} {byte : UInt8} {events events' : List Event} {replies : List Reply}
    (h : Bridge.receive (hostLine model display) bridge (.ok (sh, events)) byte =
      (bridge', .ok (sh', events'), replies)) :
    (∃ messages, bridgeByte model display { sh with bridge } byte = .ok ({ sh' with bridge := bridge' }, messages)) ∧
      sh'.running = sh.running := by
  unfold bridgeByte
  dsimp only
  rcases Bridge.receive_cases (hostLine model display) bridge byte with ⟨rfl, hover, line, hline⟩ | ⟨bridge'', hother⟩
  · rw [Bridge.receive_ended hover hline] at h ⊢
    rcases Bridge.answer_cases (hostLine model display) line with ⟨reply, hanswer⟩ | hanswer
    · rw [hanswer] at h ⊢
      cases h
      exact ⟨⟨_, rfl⟩, rfl⟩
    · simp only [Prod.mk.injEq] at h
      obtain ⟨rfl, hstate, -⟩ := h
      dsimp only
      rw [hanswer, hostLine_ok] at hstate ⊢
      rw [bridgeLine_bridge]
      cases hr : sh.bridgeLine model display line with
      | error e =>
        rw [hr] at hstate
        cases hstate
      | ok r =>
        rw [hr] at hstate
        cases hstate
        exact ⟨⟨_, rfl⟩, bridgeLine_running line r hr⟩
  · rw [hother] at h ⊢
    cases h
    exact ⟨⟨_, rfl⟩, rfl⟩

end Shell

theorem Run.feed {bridge : Bridge} {bytes : List UInt8} {events events' : List Event}
    (h : Run model ok { sh with bridge }) (hrunning : sh.running = true)
    (hok : ∀ sh, ∀ byte ∈ bytes, ok display sh (.bridge byte))
    (hfeed : (Bridge.feed (Shell.hostLine model display) bridge (.ok (sh, events)) bytes).2.1 = .ok (sh', events')) :
    Run model ok { sh' with
      bridge := (Bridge.feed (Shell.hostLine model display) bridge (.ok (sh, events)) bytes).1 } ∧
      sh'.running = true := by
  induction bytes generalizing sh bridge events with
  | nil =>
    cases hfeed
    exact ⟨h, hrunning⟩
  | cons byte bytes ih =>
    rw [Bridge.feed] at hfeed ⊢
    generalize hr : Bridge.receive (Shell.hostLine model display) bridge (.ok (sh, events)) byte = r at hfeed ⊢
    obtain ⟨bridge₁, state, out⟩ := r
    dsimp only at hfeed ⊢
    cases state with
    | error e =>
      rw [Shell.feed_error] at hfeed
      cases hfeed
    | ok r =>
      obtain ⟨⟨messages, hstep⟩, hstill⟩ := Shell.receive_step hr
      have hnext : Run model ok { r.1 with bridge := bridge₁ } :=
        .step display (.bridge byte) h hrunning (hok _ byte List.mem_cons_self) hstep
      exact ih hnext (hstill.trans hrunning) (fun sh b hb => hok sh b (List.mem_cons_of_mem _ hb)) hfeed

theorem Run.pollBridge (h : Run model ok sh) (hrunning : sh.running = true) (hok : ∀ sh input, ok display sh input)
    (port : List UInt8) :
    Ensures (sh.pollBridge model display port) fun r => Run model ok r.1 ∧ r.1.running = true := by
  unfold Shell.pollBridge
  dsimp only
  obtain ⟨hfeeds, -⟩ := @Bridge.pollLoop_feeds _ (Shell.hostLine model display) 128 ⟨sh.bridge, .ok (sh, []), port, []⟩
  simp only [Bridge.Feeds, Prod.mk.injEq] at hfeeds
  obtain ⟨hbridge, hstate, -⟩ := hfeeds
  refine ensures_bind fun r hr => ensures_ok ?_
  have hfed := Run.feed h hrunning (fun sh byte _ => hok sh _) (hstate.symm.trans hr)
  rw [← hbridge] at hfed
  exact hfed

theorem Run.pollSerial (h : Run model ok sh) (hrunning : sh.running = true) (hok : ∀ sh input, ok display sh input)
    (bytes : List UInt8) : Run model ok (sh.pollSerial model display bytes) := by
  induction bytes generalizing sh with
  | nil => exact h
  | cons byte bytes ih =>
    have hnext : Run model ok (sh.serialByte model display byte) :=
      .step display (.serial byte) h hrunning (hok _ _) rfl
    unfold Shell.pollSerial
    dsimp only
    split
    · rename_i hstill
      exact ih hnext hstill
    · exact hnext

theorem Run.line (h : Run model ok sh) (hrunning : sh.running = true)
    (hok : ∀ sh byte, byte ≠ 10 → ok display sh (.bridge byte)) (hidle : sh.bridge = .new) {line : Str}
    (hcr : '\r' ∉ line) (hlf : '\n' ∉ line) (hlen : line.len ≤ Broker.maxLine)
    (hhello : line ≠ "H|1".toList ∧ line ≠ "H|2".toList)
    (hend : ok display { sh with bridge := ⟨line.bytes, false⟩ } (.bridge 10)) {accepted : Bool} {events : List Event}
    (hline : sh.bridgeLine model display line = .ok (sh', accepted, events)) :
    Run model ok { sh' with bridge := .new } := by
  have hplain := Bridge.bytes_plain hcr hlf
  replace hlen : line.bytes.length ≤ Broker.maxLine := hlen
  have hcollected : Bridge.feed (Shell.hostLine model display) .new (.ok (sh, [])) line.bytes =
      (⟨line.bytes, false⟩, .ok (sh, []), []) := by
    rw [Bridge.new, Bridge.feed_collected (Nat.zero_le _) hplain, List.nil_append, List.take_of_length_le hlen,
      decide_eq_false (Nat.not_lt.mpr hlen)]
  have h' : Run model ok { sh with bridge := .new } := by
    rw [← hidle]
    exact h
  obtain ⟨hreceived, -⟩ :=
    h'.feed hrunning (fun sh b hb => hok sh b (hplain b hb).1) (congrArg (fun r => r.2.1) hcollected)
  rw [hcollected] at hreceived
  have hended : Bridge.receive (Shell.hostLine model display) ⟨line.bytes, false⟩ (.ok (sh, [])) 10 =
      (.new, .ok (sh', events), [if accepted then .A else .N]) := by
    rw [Bridge.receive_ended rfl (fromUtf8_bytes line), Bridge.answer, if_neg hhello.1, if_neg hhello.2,
      Shell.hostLine_ok, hline]
    cases accepted <;> rfl
  obtain ⟨⟨messages, hstep⟩, -⟩ := Shell.receive_step hended
  exact .step display (.bridge 10) hreceived hrunning hend hstep

end Pippin.Kernel
