import Pippin.Kernel.Shell
import Pippin.Native.OnScreen

/-! Which keys go to the terminal. The host captures the keyboard with the line that opens a surface
`terminal`; the surface can be refused, and it can go again without the line that releases the keys. -/

namespace Pippin.Kernel
open Checked Str
open Pippin.Native (Compositor ShellSurface)
open Pippin.Client (Event)
open Pippin.Broker (Bridge)

def terminal : Str := "terminal".toList

namespace Shell

def TerminalShown (sh : Shell) : Prop := ∃ s, sh.desktop = some s ∧ s.OnScreen terminal

/-- Only a terminal that is on the screen captures keys. -/
def CaptureInv (sh : Shell) : Prop := sh.terminalCapture = true → sh.TerminalShown

variable {model : List ShellSurface} {display : Bool} {sh sh' : Shell} {s : Compositor} {messages : List Message}

/-! ## Actions -/

/-- An action that minimizes the terminal or leaves the desktop. -/
def Ends (action : Str) : Prop := action = "terminal.close".toList ∨
  ∃ value, splitOnce (Char.ofNat 0x1f) action = some ("terminal.input".toList, value) ∧ trim value = "console".toList

theorem execute_shown (h : sh.TerminalShown) {command : Str} (hcommand : command ≠ "console".toList) :
    (sh.execute model display command).TerminalShown := by
  obtain ⟨s, hs, hshown⟩ := h
  unfold execute
  split
  · rw [hs]
    exact ⟨s, hs, hshown⟩
  · split <;> exact ⟨s, hs, hshown⟩

theorem execute_capture (command : Str) : (sh.execute model display command).terminalCapture = sh.terminalCapture := by
  unfold execute
  split
  · split
    · rfl
    · split <;> rfl
  · split
    · rfl
    · split <;> rfl

theorem surfaceCommand_cases {action command : Str} (h : surfaceCommand action = some command) :
    (∃ id, command = 'R' :: '|' :: id) ∨ ∃ id, command = 'M' :: '|' :: id ∧ action = id ++ ".close".toList := by
  unfold surfaceCommand at h
  split at h
  · split at h
    · cases h
      exact Or.inl ⟨_, rfl⟩
    · cases h
  · split at h
    · rename_i id hid
      split at h
      · cases h
        exact Or.inr ⟨id, rfl, stripSuffix_some hid⟩
      · cases h
    · cases h

theorem desktopCommand_onScreen (h : s.OnScreen terminal) {line : Str} (hmin : line ≠ "M|terminal".toList)
    (hclose : line ≠ "X|terminal".toList) : Ensures (s.desktopCommand line) fun r => r.1.OnScreen terminal := by
  unfold Compositor.desktopCommand
  split
  · intro r hr
    exact h.congr (Compositor.clientCommand_windows hr)
  · exact ensures_bind fun r hr => ensures_ok (Compositor.command_onScreen h hmin hclose r hr)

theorem surfaceAction_shown (h : sh.TerminalShown) {action : Str} (haction : action ≠ "terminal.close".toList) :
    Ensures (sh.surfaceAction action) fun r => r.1.TerminalShown := by
  obtain ⟨s, hs, hshown⟩ := h
  unfold surfaceAction
  rw [hs]
  split
  · rename_i command s' hcommand hs'
    cases hs'
    refine ensures_bind fun r hr => ensures_ok ⟨r.1, rfl, ?_⟩
    rcases surfaceCommand_cases hcommand with ⟨id, rfl⟩ | ⟨id, rfl, hid⟩
    · exact desktopCommand_onScreen hshown (fun he => by cases he) (fun he => by cases he) r hr
    · refine desktopCommand_onScreen hshown (fun he => ?_) (fun he => by cases he) r hr
      cases he
      exact haction hid
  · exact ensures_ok ⟨s, hs, hshown⟩

theorem handleDesktopAction_shown (h : sh.TerminalShown) {action : Str} (haction : ¬Ends action) :
    Ensures (sh.handleDesktopAction model display action) fun r => r.1.TerminalShown := by
  have hclose : action ≠ "terminal.close".toList := fun he => haction (Or.inl he)
  unfold handleDesktopAction
  split
  · rename_i name value hsplit
    split
    · rename_i hname
      refine ensures_ok ?_
      dsimp only
      split
      · exact h
      · exact execute_shown h fun he => haction (Or.inr ⟨value, hname ▸ hsplit, he⟩)
    · split
      · exact ensures_ok h
      · exact surfaceAction_shown h hclose
  · exact surfaceAction_shown h hclose

theorem eq_of_ends_close {id : Str} (h : Ends (id ++ ".close".toList)) : id = terminal := by
  rcases h with h | ⟨value, hsplit, hvalue⟩
  · exact List.append_cancel_right (h : id ++ ".close".toList = terminal ++ ".close".toList)
  · exfalso
    obtain ⟨heq, -⟩ := splitOnce_some hsplit
    have hlength : "console".toList.length ≤ value.length := by
      rw [← hvalue]
      exact Nat.le_trans (List.rdropWhile_prefix _ _).length_le (List.dropWhile_suffix _).length_le
    have hvalue' : value <:+ id ++ ".close".toList := heq ▸ ⟨"terminal.input".toList ++ [Char.ofNat 0x1f], by simp⟩
    obtain ⟨x, rfl⟩ := List.suffix_of_suffix_length_le (List.suffix_append id _) hvalue'
      (Nat.le_trans (by decide) hlength)
    -- the command ends as the action does
    have hclos : (x ++ ".clos".toList).dropWhile isWhitespace = "consol".toList := by
      have htrim := trim_concat (x ++ ".clos".toList) (c := 'e') rfl
      rw [List.append_assoc] at htrim
      exact List.append_cancel_right (htrim.symm.trans hvalue)
    have hsuffix : "consol".toList <:+ x ++ ".clos".toList := hclos ▸ List.dropWhile_suffix _
    exact absurd (List.suffix_of_suffix_length_le (List.suffix_append x _) hsuffix (by decide)) (by decide)

/-! ## Inputs -/

/-- A line of the host that leaves the capture sound: the surface of the line that captures the keys is taken by the
table, or there is one; and a terminal that has the keys is not minimized. -/
def LineKeeps (model : List ShellSurface) (display : Bool) (sh : Shell) (line : Str) : Prop :=
  if "S|terminal|".toList.isPrefixOf line then ∃ s, (sh.desktop.orElse fun _ => openDesktop model display) = some s ∧
    (s.OnScreen terminal ∨ s.Takes terminal ∧ ∃ payload role x y width height title rows, line = 'S' :: '|' :: payload ∧
      Compositor.parseSurface payload = some (.window terminal role x y width height title rows))
  else sh.terminalCapture = true → line ≠ "M|terminal".toList

def Keeps (model : List ShellSurface) (display : Bool) (sh : Shell) : Input → Prop
  | .bridge byte => ∀ line, byte = 10 → sh.bridge.overflow = false → fromUtf8 sh.bridge.line = some line →
    sh.LineKeeps model display line
  | .serial byte => sh.terminalCapture = true → byte = 13 ∨ byte = 10 ∧ sh.lastWasCr = false →
    sh.command ≠ "console".toList
  | .key scan => sh.terminalCapture = true → scan = 0x01 → ∃ s, sh.desktop = some s ∧ s.clients.isActive = true
  | .mouse packet => sh.terminalCapture = true → ∀ s, sh.desktop = some s → s.Spares packet terminal ∧
    ∀ s₁ events c action, s.trackPointer packet = .ok (s₁, false, events) → packet &&& 1 = 0 → s.leftDown = true →
      s₁.pressedControl = some c → s₁.controlAt s₁.cursorX s₁.cursorY = .ok (some c) → s₁.Acts c action → ¬Ends action

theorem bridgeLine_captures (h : sh.CaptureInv) {line : Str} (hline : sh.LineKeeps model display line) :
    Ensures (sh.bridgeLine model display line) fun r => r.1.CaptureInv := by
  unfold LineKeeps at hline
  unfold bridgeLine
  dsimp only
  cases hcaptures : "S|terminal|".toList.isPrefixOf line with
  | true =>
    rw [hcaptures, if_pos rfl] at hline
    obtain ⟨s, hs, hshown⟩ := hline
    obtain ⟨rest, rfl⟩ := List.isPrefixOf_iff_prefix.mp hcaptures
    have hsurface : "S|".toList.isPrefixOf ("S|terminal|".toList ++ rest) = true :=
      List.isPrefixOf_iff_prefix.mpr ⟨"terminal|".toList ++ rest, rfl⟩
    have hdesktop : (if (("S|".toList.isPrefixOf ("S|terminal|".toList ++ rest) ||
        "WC|".toList.isPrefixOf ("S|terminal|".toList ++ rest)) && sh.desktop.isNone) = true then
        openDesktop model display else sh.desktop) = some s := by
      rw [hsurface, Bool.true_or, Bool.true_and]
      cases hd : sh.desktop with
      | none =>
        rw [hd] at hs
        exact hs
      | some s' =>
        rw [hd] at hs
        exact hs
    rw [hdesktop]
    refine ensures_bind fun r hr => ensures_ok fun _ => ⟨r.1, rfl, ?_⟩
    -- either the terminal was shown already, or the line shows it now
    rcases hshown with hshown | ⟨htakes, payload, role, x, y, width, height, title, rows, hline, hp⟩
    · exact desktopCommand_onScreen hshown (fun he => by cases he) (fun he => by cases he) r hr
    · rw [hline] at hr
      unfold Compositor.desktopCommand at hr
      dsimp only at hr
      obtain ⟨q, hq, hr⟩ := bind_eq_ok hr
      cases hr
      exact Compositor.command_shows hp htakes q hq
  | false =>
    rw [hcaptures, if_neg Bool.false_ne_true] at hline
    rw [if_neg Bool.false_ne_true]
    by_cases hclose : line = "X|terminal".toList
    · rw [if_pos hclose]
      split
      · exact ensures_ok nofun
      · exact ensures_bind fun r _ => ensures_ok nofun
    · rw [if_neg hclose]
      cases hcapture : sh.terminalCapture with
      | false =>
        split
        · exact ensures_ok nofun
        · exact ensures_bind fun r _ => ensures_ok nofun
      | true =>
        obtain ⟨s, hs, hshown⟩ := h hcapture
        rw [hs, Option.isNone_some, Bool.and_false, if_neg Bool.false_ne_true]
        exact ensures_bind fun r hr => ensures_ok fun _ =>
          ⟨r.1, rfl, desktopCommand_onScreen hshown (hline hcapture) hclose r hr⟩

theorem bridgeByte_captures (h : sh.CaptureInv) {byte : UInt8} (hok : sh.Keeps model display (.bridge byte)) :
    Ensures (sh.bridgeByte model display byte) fun r => r.1.CaptureInv := by
  unfold bridgeByte
  rcases Bridge.receive_cases (hostLine model display) sh.bridge byte with ⟨rfl, hover, line, hline⟩ | ⟨bridge, hother⟩
  · rw [Bridge.receive_ended hover hline]
    rcases Bridge.answer_cases (hostLine model display) line with ⟨reply, hanswer⟩ | hanswer
    · rw [hanswer]
      exact ensures_ok h
    · dsimp only
      rw [hanswer, hostLine_ok]
      refine ensures_bind fun r hr => ensures_ok ?_
      cases hq : sh.bridgeLine model display line with
      | error e =>
        rw [hq] at hr
        cases hr
      | ok q =>
        rw [hq] at hr
        cases hr
        exact bridgeLine_captures h (hok line rfl hover hline) q hq
  · rw [hother]
    exact ensures_ok h

theorem input_captures (h : sh.CaptureInv) {byte : UInt8}
    (hok : sh.terminalCapture = true → byte = 13 ∨ byte = 10 → sh.command ≠ "console".toList) :
    (sh.input model display byte).CaptureInv := by
  unfold input
  split
  · rename_i hend
    intro hcapture
    replace hcapture : sh.terminalCapture = true := (execute_capture sh.command).symm.trans hcapture
    exact execute_shown (h hcapture) (hok hcapture hend)
  · split
    · exact h
    · split
      · exact h
      · exact h

theorem serialByte_captures (h : sh.CaptureInv) {byte : UInt8} (hok : sh.Keeps model display (.serial byte)) :
    (sh.serialByte model display byte).CaptureInv := by
  unfold serialByte
  split
  · exact h
  · rename_i hskip
    have h' : CaptureInv { sh with lastWasCr := decide (byte = 13) } := h
    refine input_captures h' fun hcapture hend => hok hcapture ?_
    rcases hend with rfl | rfl
    · exact Or.inl rfl
    · exact Or.inr ⟨rfl, Bool.eq_false_iff.mpr fun hcr => hskip ⟨rfl, hcr⟩⟩

/-! ## Keys and packets -/

theorem surfaceAction_capture (action : Str) :
    Ensures (sh.surfaceAction action) fun r => r.1.terminalCapture = sh.terminalCapture := by
  unfold surfaceAction
  split
  · exact ensures_bind fun _ _ => ensures_ok rfl
  · exact ensures_ok rfl

theorem handleDesktopAction_capture (action : Str) :
    Ensures (sh.handleDesktopAction model display action) fun r => r.1.terminalCapture = sh.terminalCapture := by
  unfold handleDesktopAction
  split
  · split
    · refine ensures_ok ?_
      dsimp only
      split
      · rfl
      · exact execute_capture _
    · split
      · exact ensures_ok rfl
      · exact surfaceAction_capture action
  · exact surfaceAction_capture action

theorem respond_capture (action : Option Str) (events : List Event) :
    Ensures (sh.respond model display action events) fun r => r.1.terminalCapture = sh.terminalCapture := by
  unfold respond
  refine ensures_bind fun r hr => ensures_ok ?_
  cases action with
  | none =>
    cases hr
    rfl
  | some action => exact handleDesktopAction_capture action r hr

theorem respond_shown (h : sh.TerminalShown) {action : Option Str} {events : List Event}
    (haction : ∀ a, action = some a → ¬Ends a) :
    Ensures (sh.respond model display action events) fun r => r.1.TerminalShown := by
  unfold respond
  refine ensures_bind fun r hr => ensures_ok ?_
  cases action with
  | none =>
    cases hr
    exact h
  | some action => exact handleDesktopAction_shown h (haction action rfl) r hr

theorem input_capture (byte : UInt8) : (sh.input model display byte).terminalCapture = sh.terminalCapture := by
  unfold input
  split
  · exact execute_capture _
  · split
    · rfl
    · split <;> rfl

theorem consoleKey_capture (scan : UInt8) :
    (sh.consoleKey model display scan).terminalCapture = sh.terminalCapture := by
  unfold consoleKey
  split
  · rfl
  · split
    · rfl
    · split
      · rfl
      · split
        · rfl
        · split
          · rfl
          · exact input_capture _

theorem desktopKey_capture (scan : UInt8) (extended : Bool) :
    Ensures (sh.desktopKey model display s scan extended) fun r => r.1.terminalCapture = sh.terminalCapture := by
  unfold desktopKey
  split
  · exact ensures_ok rfl
  · refine ensures_bind fun u _ => ensures_bind fun r _ => ?_
    exact respond_capture r.2.1 r.2.2

theorem keyScancode_capture (scan : UInt8) :
    Ensures (sh.keyScancode model display scan) fun r => r.1.terminalCapture = sh.terminalCapture := by
  unfold keyScancode
  split
  · exact ensures_ok (consoleKey_capture scan)
  · split
    · exact ensures_ok rfl
    · dsimp only
      split
      · exact ensures_ok rfl
      · split
        · exact ensures_ok rfl
        · split
          · exact @handleDesktopAction_capture model display { sh with extended := false } _
          · split
            · exact ensures_ok rfl
            · split
              · exact ensures_ok rfl
              · exact @desktopKey_capture model display { sh with extended := false } _ scan sh.extended

theorem mousePacket_capture (packet : UInt32) :
    Ensures (sh.mousePacket model display packet) fun r => r.1.terminalCapture = sh.terminalCapture := by
  unfold mousePacket
  split
  · exact ensures_ok rfl
  · refine ensures_bind fun r _ => ?_
    exact respond_capture r.2.1 r.2.2

theorem diverted_none {scan : UInt8} (hcapture : sh.terminalCapture = true) (h : sh.diverted scan = none) :
    scan ≠ 0x1c ∧ scan ≠ 0x39 := by
  unfold diverted at h
  rw [hcapture] at h
  constructor
  · rintro rfl
    cases h
  · rintro rfl
    have htext : sh.keyText 0x39 = some 32 := by
      unfold keyText keyPair
      cases sh.shift <;> rfl
    rw [htext] at h
    cases h

theorem desktopKey_shown (h : s.OnScreen terminal) {scan : UInt8} {extended : Bool}
    (hactive : scan = 0x01 → s.clients.isActive = true) (hacts : scan ≠ 0x1c ∧ scan ≠ 0x39) :
    Ensures (sh.desktopKey model display s scan extended) fun r => r.1.TerminalShown := by
  unfold desktopKey
  rw [if_neg fun hesc => hesc.2 (hactive hesc.1)]
  refine ensures_bind fun u hu => ensures_bind fun r hr => ?_
  have hu : u.OnScreen terminal := by
    split at hu
    · exact Compositor.openTestWindow_onScreen h u hu
    · cases hu
      exact h
  have hshown : TerminalShown { sh.modifiers scan with desktop := some r.1 } :=
    ⟨r.1, rfl, Compositor.keyScancode_onScreen hu _ _ _ _ r hr⟩
  refine respond_shown hshown fun a ha => ?_
  rcases Compositor.keyScancode_action _ _ _ _ r hr a ha with hscan | hscan
  · exact absurd hscan hacts.1
  · exact absurd hscan hacts.2

theorem not_ends_open : ¬Ends "terminal.open".toList := by
  rintro (h | ⟨value, h, -⟩)
  · exact absurd h (by decide)
  · cases h

theorem keyScancode_captures (h : sh.CaptureInv) {scan : UInt8} (hok : sh.Keeps model display (.key scan)) :
    Ensures (sh.keyScancode model display scan) fun r => r.1.CaptureInv := by
  intro r hr hcapture
  have hcapture : sh.terminalCapture = true := (keyScancode_capture scan r hr).symm.trans hcapture
  obtain ⟨s, hs, hshown⟩ := h hcapture
  have still : TerminalShown { sh with desktop := some s, extended := false } := ⟨s, rfl, hshown⟩
  unfold keyScancode at hr
  rw [hs] at hr
  dsimp only at hr
  split at hr
  · cases hr
    exact ⟨s, rfl, hshown⟩
  · split at hr
    · cases hr
      exact ⟨s, rfl, hshown⟩
    · split at hr
      · cases hr
        exact ⟨s, rfl, hshown⟩
      · split at hr
        · exact handleDesktopAction_shown still not_ends_open r hr
        · split at hr
          · cases hr
            exact ⟨s, rfl, hshown⟩
          · split at hr
            · cases hr
              exact ⟨s, rfl, hshown⟩
            · rename_i hnone
              refine desktopKey_shown hshown (fun hscan => ?_) (diverted_none (by exact hcapture) hnone) r hr
              obtain ⟨s', hs', hactive⟩ := hok hcapture hscan
              cases hs.symm.trans hs'
              exact hactive

theorem mousePacket_captures (h : sh.CaptureInv) {packet : UInt32} (hok : sh.Keeps model display (.mouse packet)) :
    Ensures (sh.mousePacket model display packet) fun r => r.1.CaptureInv := by
  intro r hr hcapture
  have hcapture : sh.terminalCapture = true := (mousePacket_capture packet r hr).symm.trans hcapture
  obtain ⟨s, hs, hshown⟩ := h hcapture
  obtain ⟨hspares, hrelease⟩ := hok hcapture s hs
  unfold mousePacket at hr
  rw [hs] at hr
  obtain ⟨⟨t, action, events⟩, hpacket, hr⟩ := bind_eq_ok hr
  have ht : TerminalShown { sh with desktop := some t } :=
    ⟨t, rfl, Compositor.pointerPacket_onScreen hshown hspares _ hpacket⟩
  refine respond_shown ht (fun a ha hends => ?_) r hr
  subst ha
  obtain ⟨s₁, s₂, -, handled, h₁, h₂, -, -⟩ := Compositor.pointerPacket_parts hpacket
  have htrack := Compositor.trackPointer_tracked h₁
  have hdown : s₁.leftDown = s.leftDown := htrack.framed.leftDown
  rcases Compositor.pressOrRelease_cases h₂ with ⟨rfl, hleft, hup, hpress⟩ | ⟨hleft, hheld, -, ⟨-, hnone⟩ | ⟨rfl, hr⟩⟩ |
    ⟨-, hnone, -⟩
  · -- the action of a close button is that of its surface
    obtain ⟨w, hunder, hbutton, rfl⟩ := Compositor.pointerDown_action _ hpress a rfl
    have hpressed : packet &&& 1 ≠ 0 := fun hzero => by
      rw [hzero] at hleft
      cases hleft
    cases hspares s₁ events h₁ hpressed (hdown.symm.trans hup) w hunder (eq_of_ends_close hends) .close hbutton
  · cases hnone
  · obtain ⟨c, hc, hat, hacts⟩ := Compositor.releaseControl_action hr
    have hreleased : packet &&& 1 = 0 := by simpa using hleft
    exact hrelease s₁ events c a h₁ hreleased (hdown.symm.trans hheld) hc hat hacts hends
  · cases hnone

/-! ## Runs -/

theorem step_captures (h : sh.CaptureInv) {input : Input} (hok : sh.Keeps model display input)
    (hstep : sh.step model display input = .ok (sh', messages)) : sh'.CaptureInv := by
  cases input with
  | bridge byte => exact bridgeByte_captures h hok _ hstep
  | serial byte =>
    cases hstep
    exact serialByte_captures h hok
  | key scan => exact keyScancode_captures h hok _ hstep
  | mouse packet => exact mousePacket_captures h hok _ hstep

/-- Keyboard capture follows the terminal, in every run whose inputs all keep it: keys are only diverted to a terminal
that is on the screen. -/
theorem capture_follows (h : Run model (Keeps model) sh) : (sh.terminalCapture = true → sh.TerminalShown) ∧
    ∀ scan action, sh.diverted scan = some action → sh.TerminalShown := by
  have hinv : sh.CaptureInv := by
    induction h with
    | new => exact nofun
    | step display input _ _ hok hstep ih => exact step_captures ih hok hstep
  refine ⟨hinv, fun scan action hdiverted => hinv ?_⟩
  unfold diverted at hdiverted
  cases hcapture : sh.terminalCapture with
  | true => rfl
  | false =>
    rw [hcapture] at hdiverted
    cases hdiverted

def opened : Shell :=
  { new with
    desktop := some { Compositor.new [] with
      windows := [Compositor.hostWindow terminal .W 100 100 300 200 "Terminal".toList
        [Compositor.plainRow "Ready".toList [] 108]] }
    terminalCapture := true
    screenEnabled := false }

def terminalLine : Str := "S|terminal|W|100|100|300|200|Terminal|Ready".toList

theorem bridgeLine_opened : new.bridgeLine [] true terminalLine = .ok (opened, true, []) := by decide +kernel

theorem capture_follows_opened : opened.diverted 0x1e = some "terminal.key.61".toList ∧ opened.TerminalShown := by
  have hparse : Compositor.parseSurface "terminal|W|100|100|300|200|Terminal|Ready".toList =
      some (.window terminal .W 100 100 300 200 "Terminal".toList [Compositor.plainRow "Ready".toList [] 108]) := rfl
  have hkeeps : LineKeeps [] true { new with bridge := ⟨terminalLine.bytes, false⟩ } terminalLine := by
    refine ⟨Compositor.new [], rfl, Or.inr ⟨Or.inr (by decide), _, _, _, _, _, _, _, _, rfl, hparse⟩⟩
  have hend : Keeps [] true { new with bridge := ⟨terminalLine.bytes, false⟩ } (.bridge 10) := by
    intro line _ _ hline
    cases (fromUtf8_bytes terminalLine).symm.trans hline
    exact hkeeps
  have hrun : Run [] (Keeps []) opened :=
    Run.new.line rfl (fun sh byte hbyte line hfeed => absurd hfeed hbyte) rfl (by decide +kernel) (by decide +kernel)
      (by decide +kernel) (by decide) hend bridgeLine_opened
  have hdiverted : opened.diverted 0x1e = some "terminal.key.61".toList := by decide +kernel
  exact ⟨hdiverted, (capture_follows hrun).2 0x1e _ hdiverted⟩

def refused : Shell :=
  { new with desktop := some (.new []), terminalCapture := true, screenEnabled := false }

theorem bridgeLine_refused : new.bridgeLine [] true "S|terminal|".toList = .ok (refused, false, []) := by decide +kernel

theorem capture_refused : ¬∀ (model : List ShellSurface) (sh : Shell), Run model (fun _ _ _ => True) sh →
    sh.terminalCapture = true → sh.TerminalShown := by
  intro h
  have hrun : Run [] (fun _ _ _ => True) refused :=
    Run.new.line rfl (fun _ _ _ => trivial) rfl (by decide +kernel) (by decide +kernel) (by decide +kernel)
    (by decide) trivial
      bridgeLine_refused
  obtain ⟨s, hs, w, hw, -⟩ := h [] refused hrun rfl
  cases hs
  cases hw

end Shell

end Pippin.Kernel
