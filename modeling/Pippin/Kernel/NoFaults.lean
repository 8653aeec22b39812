import Pippin.Kernel.ShellRuns
import Pippin.Native.Overflow

/-! Faults of the main loop. Every byte, key and packet finds a desktop of the compositor's own runs, and no input of
such a run faults; around the compositor there is no arithmetic to fault. Drawing is not part of it. -/

namespace Pippin.Kernel
open Checked Str
open Pippin.Native (Compositor ShellSurface)
open Pippin.Client (Event)
open Pippin.Broker (Bridge)

variable {model : List ShellSurface} {display : Bool} {sh sh' : Shell} {s : Compositor}
  {ok : Bool → Shell → Input → Prop} {bridge : Bridge} {events : List Event}

namespace Shell

section

variable (hmodel : Compositor.ShellModel model)

include hmodel

/-! ## The compositor under the shell -/

theorem desktopCommand_returns (hs : Compositor.Reachable model s) (line : Str) : Returns (s.desktopCommand line) := by
  unfold Compositor.desktopCommand
  split
  · rename_i rest
    obtain ⟨_, hr⟩ := hs.step_returns hmodel (.clientCommand ('W' :: rest))
    obtain ⟨r, hr, -⟩ := bind_eq_ok hr
    exact ⟨r, hr⟩
  · obtain ⟨_, hr⟩ := hs.step_returns hmodel (.command line)
    obtain ⟨r, hr, -⟩ := bind_eq_ok hr
    exact Returns.bind ⟨r, hr⟩ fun _ _ => returns_ok _

theorem surfaceAction_returns (h : sh.Desktop (Compositor.Reachable model)) (action : Str) :
    Returns (sh.surfaceAction action) := by
  unfold surfaceAction
  split
  · rename_i s _ hs
    exact (desktopCommand_returns hmodel (h s hs) _).bind fun _ _ => returns_ok _
  · exact returns_ok _

theorem handleDesktopAction_returns (h : sh.Desktop (Compositor.Reachable model)) (action : Str) :
    Returns (sh.handleDesktopAction model display action) := by
  unfold handleDesktopAction
  split
  · split_ifs
    · exact returns_ok _
    · exact returns_ok _
    · exact returns_ok _
    · exact surfaceAction_returns hmodel h action
  · exact surfaceAction_returns hmodel h action

theorem respond_returns (h : sh.Desktop (Compositor.Reachable model)) (action : Option Str) (events : List Event) :
    Returns (sh.respond model display action events) := by
  unfold respond
  refine Returns.bind ?_ fun _ _ => returns_ok _
  cases action with
  | none => exact returns_ok _
  | some action => exact handleDesktopAction_returns hmodel h action

/-! ## One input -/

theorem bridgeLine_returns (display : Bool) (h : sh.Desktop (Compositor.Reachable model)) (line : Str) :
    Returns (sh.bridgeLine model display line) := by
  unfold bridgeLine
  dsimp only
  split
  · exact returns_ok _
  · rename_i s hdesktop
    have hs : Compositor.Reachable model s := by
      split_ifs at hdesktop
      · exact openDesktop_rule (reachable_rule model) hdesktop
      · exact h s hdesktop
    exact (desktopCommand_returns hmodel hs line).bind fun _ _ => returns_ok _

theorem receive_returns (display : Bool) (h : sh.Desktop (Compositor.Reachable model)) (bridge : Bridge)
    (events : List Event) (byte : UInt8) :
    Yields (Bridge.receive (hostLine model display) bridge (.ok (sh, events)) byte).2.1 fun r =>
      r.1.Desktop (Compositor.Reachable model) := by
  rcases Bridge.receive_cases (hostLine model display) bridge byte with ⟨rfl, hover, line, hline⟩ | ⟨bridge', hother⟩
  · rw [Bridge.receive_ended hover hline]
    rcases Bridge.answer_cases (hostLine model display) line with ⟨reply, hanswer⟩ | hanswer
    · rw [hanswer]
      exact ⟨_, rfl, h⟩
    · obtain ⟨r, hr⟩ := bridgeLine_returns hmodel display h line
      dsimp only
      rw [hanswer, hostLine_ok, hr]
      exact ⟨_, rfl, bridgeLine_desktop_rule (reachable_rule model) h trivial r hr⟩
  · rw [hother]
    exact ⟨_, rfl, h⟩

theorem bridgeByte_returns (h : sh.Desktop (Compositor.Reachable model)) (byte : UInt8) :
    Returns (sh.bridgeByte model display byte) := by
  obtain ⟨r, hr, -⟩ := receive_returns hmodel display h sh.bridge [] byte
  exact Returns.bind ⟨r, hr⟩ fun _ _ => returns_ok _

theorem desktopKey_returns (hs : Compositor.Reachable model s) (scan : UInt8) (extended : Bool) :
    Returns (sh.desktopKey model display s scan extended) := by
  unfold desktopKey
  split
  · exact returns_ok _
  · have htest : Yields (if scan = 0x31 ∧ ¬s.clients.isActive then s.openTestWindow else pure s) fun t =>
        Compositor.Reachable model t := by
      split_ifs
      · obtain ⟨_, hr⟩ := hs.step_returns hmodel .testWindow
        obtain ⟨t, ht, -⟩ := bind_eq_ok hr
        exact ⟨t, ht, hs.testWindow ht⟩
      · exact ⟨s, rfl, hs⟩
    obtain ⟨t, ht, hreached⟩ := htest
    refine Returns.bind ⟨t, ht⟩ fun u hu => ?_
    cases ht.symm.trans hu
    refine Returns.bind (hreached.step_returns hmodel (.key _ _ _ _)) fun r hr => ?_
    exact respond_returns hmodel (desktop_some rfl (hreached.key _ _ _ _ hr)) _ _

theorem keyScancode_returns (h : sh.Desktop (Compositor.Reachable model)) (scan : UInt8) :
    Returns (sh.keyScancode model display scan) := by
  unfold keyScancode
  split
  · exact returns_ok _
  · rename_i s hs
    have h' : Desktop (Compositor.Reachable model) { sh with extended := false } := h
    dsimp only
    split_ifs
    · exact returns_ok _
    · exact returns_ok _
    · exact returns_ok _
    · exact handleDesktopAction_returns hmodel h' _
    · exact returns_ok _
    · split
      · exact returns_ok _
      · exact desktopKey_returns hmodel (h s hs) scan _

theorem mousePacket_returns (h : sh.Desktop (Compositor.Reachable model)) (packet : UInt32) :
    Returns (sh.mousePacket model display packet) := by
  unfold mousePacket
  split
  · exact returns_ok _
  · rename_i s hs
    refine Returns.bind ((h s hs).step_returns hmodel (.pointer packet)) fun r hr => ?_
    exact respond_returns hmodel (desktop_some rfl ((h s hs).pointer packet hr)) _ _

theorem step_returns (h : sh.Desktop (Compositor.Reachable model)) (input : Input) :
    Returns (sh.step model display input) := by
  cases input with
  | bridge byte => exact bridgeByte_returns hmodel h byte
  | serial byte => exact returns_ok _
  | key scan => exact keyScancode_returns hmodel h scan
  | mouse packet => exact mousePacket_returns hmodel h packet

/-! ## One iteration of the loop -/

theorem feed_returns (h : sh.Desktop (Compositor.Reachable model)) (bridge : Bridge) (events : List Event)
    (bytes : List UInt8) : Returns (Bridge.feed (hostLine model display) bridge (.ok (sh, events)) bytes).2.1 := by
  induction bytes generalizing sh bridge events with
  | nil => exact returns_ok _
  | cons byte bytes ih =>
    obtain ⟨r, hr, hnext⟩ := receive_returns hmodel display h bridge events byte
    rw [Bridge.feed]
    dsimp only
    rw [hr]
    exact ih hnext _ r.2

theorem pollBridge_returns (h : sh.Desktop (Compositor.Reachable model)) (port : List UInt8) :
    Returns (sh.pollBridge model display port) := by
  obtain ⟨hfeeds, -⟩ := @Bridge.pollLoop_feeds _ (hostLine model display) 128 ⟨sh.bridge, .ok (sh, []), port, []⟩
  simp only [Bridge.Feeds, Prod.mk.injEq] at hfeeds
  obtain ⟨-, hstate, -⟩ := hfeeds
  unfold pollBridge
  dsimp only [Bridge.poll]
  rw [hstate]
  exact (feed_returns hmodel h _ _ _).bind fun _ _ => returns_ok _

theorem pollEvents_returns (h : sh.Desktop (Compositor.Reachable model)) (events : List Ipc.Event) :
    Returns (sh.pollEvents model display events) := by
  induction events generalizing sh with
  | nil => exact returns_ok _
  | cons e events ih =>
    unfold pollEvents
    split
    · exact ih h
    · rename_i input _
      refine (step_returns hmodel h input).bind fun r hr => ?_
      have hnext := (step_kept (reachable_rule model) h (fun _ _ _ _ => trivial) r hr).desktop
      dsimp only
      split_ifs
      · exact (ih hnext).bind fun _ _ => returns_ok _
      · exact returns_ok _

end

end Shell

/-- The kernel does not fault over its input: whatever bytes, keys and packets arrived, and whatever arrives next, the
iteration of the main loop returns. -/
theorem main_loop_returns (hmodel : Compositor.ShellModel model) (h : MainLoop model sh) (hrunning : sh.running = true)
    (display : Bool) (serial host : List UInt8) (events : List Ipc.Event) :
    Returns (sh.iterate model display serial host events) := by
  have hserial : Run model (fun _ _ _ => True) (sh.pollSerial model display serial) :=
    h.run.pollSerial hrunning (fun _ _ => trivial) serial
  unfold Shell.iterate
  dsimp only
  split_ifs with hstill
  · refine (Shell.pollBridge_returns hmodel hserial.reached host).bind fun r hr => ?_
    obtain ⟨hbridge, -⟩ := hserial.pollBridge hstill (fun _ _ => trivial) host r hr
    exact (Shell.pollEvents_returns hmodel hbridge.reached events).bind fun _ _ => returns_ok _
  · exact returns_ok _

theorem main_loop_returns_page : Returns (Shell.new.iterate [Compositor.page] true (bytes "desktop\r\n".toList)
    (bytes "S|far|W|2147483647|0|100|100|Far|\n".toList) [Ps2.Input.event (.key 0x31)]) :=
  main_loop_returns Compositor.shellModel_page .new rfl _ _ _ _

end Pippin.Kernel
