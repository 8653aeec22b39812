import Pippin.Client.Library
import Pippin.Host.Session
import Pippin.Lib.Lines
import Pippin.Native.Sizes

/-! What the shell on the host sends. Whatever is typed into its terminal and whatever actions arrive, each of its
lines fits the line buffer of the guest, and the guest can read it. -/

namespace Pippin.Host
open Str
open Pippin.Native.Compositor (parseSurface)

/-- A line that the guest takes for one line, and for a command. -/
structure Readable (line : Str) : Prop extends Inline 384 line where
  command : (∃ id, line = "X|".toList ++ id ∨ line = "R|".toList ++ id) ∨
    ∃ payload t, line = 'S' :: '|' :: payload ∧ parseSurface payload = some t

variable {now action line : Str} {h : HostBridge} {s : Session} {surface : Surface} {tasks : List Task} {burst : Burst}
  {received console sent : List Str} {c : Char} {text : Option Str}

theorem length_safe (text : Str) : (safe (some text)).length ≤ text.length := List.length_filter_le _ _

namespace Surface

theorem mem_line (hid : ∀ c ∈ surface.id, ' ' ≤ c ∧ c ≤ '~') (hc : c ∈ surface.line) : ' ' ≤ c ∧ c ≤ '~' := by
  have hint : ∀ v, ∀ c ∈ decimalInt v, ' ' ≤ c ∧ c ≤ '~' := fun v c hc => by
    have h := Client.WindowClient.plain_decimalInt v c hc
    exact ⟨h.1, h.2.1⟩
  have hletter : ∀ c ∈ surface.role.letter, ' ' ≤ c ∧ c ≤ '~' := by
    cases surface.role <;> exact forall_of_all (by decide)
  unfold line payload at hc
  rcases List.mem_cons.mp hc with rfl | hc
  · decide
  rcases List.mem_cons.mp hc with rfl | hc
  · decide
  rcases mem_join hc with rfl | ⟨field, hfield, hc⟩
  · decide
  unfold fields at hfield
  simp only [List.mem_cons, List.not_mem_nil, or_false] at hfield
  rcases hfield with rfl | rfl | rfl | rfl | rfl | rfl | rfl | rfl
  · exact hid c hc
  · exact hletter c hc
  · exact hint _ c hc
  · exact hint _ c hc
  · exact hint _ c hc
  · exact hint _ c hc
  · exact ⟨(mem_safe hc).1, (mem_safe hc).2.1⟩
  · exact mem_rows hc

def header (surface : Surface) : Nat := ((surface.fields.take 7).map fun f => f.length + 1).sum

theorem length_line (surface : Surface) : surface.line.length = 2 + surface.header + surface.rows.length := by
  have hjoin := length_join '|' (show surface.fields ≠ [] from List.cons_ne_nil _ _)
  have hfields : surface.fields = surface.fields.take 7 ++ [surface.rows] := rfl
  rw [hfields, List.map_append, List.sum_append, ← hfields] at hjoin
  have hsum : (surface.payload).length + 1 = surface.header + (surface.rows.length + 1) := hjoin
  show surface.payload.length + 2 = _
  omega

theorem readable {t : Native.Compositor.Surface} (hid : ∀ c ∈ surface.id, ' ' ≤ c ∧ c ≤ '~')
    (hlength : surface.line.length ≤ 384) (ht : parseSurface surface.payload = some t) : Readable surface.line :=
  ⟨.of_printable (fun _ hc => mem_line hid hc) hlength, Or.inr ⟨_, t, rfl, ht⟩⟩

end Surface

/-! ## The surfaces of the shell -/

structure Frame (surface : Surface) (role : Native.Role) : Prop where
  plain : surface.Plain
  role : surface.role.read = some role
  id : (surface.id ≠ [] ∧ surface.id.len ≤ 32) ∧ ∀ c ∈ surface.id, ' ' ≤ c ∧ c ≤ '~'
  caption : surface.caption.length ≤ 40
  size : (40 ≤ surface.width ∧ surface.width ≤ Pippin.Client.WIDTH) ∧ 30 ≤ surface.height ∧
    surface.height ≤ Pippin.Client.HEIGHT
  header : surface.header ≤ 62

theorem Frame.content {role : Native.Role} (h : Frame surface role) (content : Option UiNode) :
    Frame { surface with content } role :=
  ⟨⟨h.plain.id, h.plain.x, h.plain.y, h.plain.width, h.plain.height⟩, h.role, h.id, h.caption, h.size, h.header⟩

theorem Frame.readable {role : Native.Role} (h : Frame surface role) (hrows : surface.rows.length ≤ 320)
    (hnodes : ∀ node ∈ surface.nodes.take 8, node.Fits) : Readable surface.line := by
  have hlength := Surface.length_line surface
  have hheader := h.header
  exact Surface.readable h.id.2 (by omega) ((Surface.parseSurface_payload h.plain h.role _).mpr
    ⟨⟨⟨h.id.1, h.caption, hrows⟩, h.size, hnodes⟩, rfl⟩)

def windows : List (Surface × Native.Role) :=
  [(Application.panel [], .P), (Application.dock, .D), (Application.launcher, .L), (Application.settings, .W),
    (Application.files, .W), (Application.terminal [] [], .W), (Application.notifications, .N)]

theorem windows_frame : ∀ p ∈ windows, Frame p.1 p.2 := by
  have hplain : ∀ p ∈ windows, '|' ∉ p.1.id ∧ I32 p.1.x ∧ I32 p.1.y ∧ I32 p.1.width ∧ I32 p.1.height := by decide
  have hrole : ∀ p ∈ windows, p.1.role.read = some p.2 := by decide
  have hid : ∀ p ∈ windows, (p.1.id ≠ [] ∧ p.1.id.len ≤ 32) ∧ p.1.id.all (fun c => decide (' ' ≤ c ∧ c ≤ '~')) := by
    decide +kernel
  have hcaption : ∀ p ∈ windows, p.1.caption.length ≤ 40 := by decide +kernel
  have hsize : ∀ p ∈ windows, (40 ≤ p.1.width ∧ p.1.width ≤ Pippin.Client.WIDTH) ∧ 30 ≤ p.1.height ∧
      p.1.height ≤ Pippin.Client.HEIGHT := by decide
  have hheader : ∀ p ∈ windows, p.1.header ≤ 62 := by decide +kernel
  intro p hp
  obtain ⟨hbar, hx, hy, hwidth, hheight⟩ := hplain p hp
  have hname : (p.1.id ≠ [] ∧ p.1.id.len ≤ 32) ∧ ∀ c ∈ p.1.id, ' ' ≤ c ∧ c ≤ '~' := (hid p hp).imp_right forall_of_all
  exact ⟨⟨hbar, hx, hy, hwidth, hheight⟩, hrole p hp, hname, hcaption p hp, hsize p hp, hheader p hp⟩

theorem windows_readable : ∀ p ∈ windows, Readable p.1.line := by
  have hrows : ∀ p ∈ windows, p.1.rows.length ≤ 320 := by decide +kernel
  have hnodes : ∀ p ∈ windows, ∀ node ∈ p.1.nodes.take 8, node.Fits := by decide +kernel
  exact fun p hp => (windows_frame p hp).readable (hrows p hp) (hnodes p hp)

theorem readable_wallpaper : Readable Application.wallpaper.line := by
  have hplain : Application.wallpaper.Plain := ⟨by decide, by decide, by decide, by decide, by decide⟩
  have hfits : Application.wallpaper.Fits := ⟨by decide, by decide, by decide⟩
  have hcolor : parseU32 16 "2f80ed".toList = some 0x2f80ed := by decide
  exact Surface.readable (forall_of_all (by decide)) (by decide) ((Surface.parseSurface_wallpaper hplain rfl _).mpr
    ⟨hfits, _, _, rfl, hcolor, rfl⟩)

theorem length_rows (surface : Surface) (hne : surface.nodes ≠ []) :
    surface.rows.length + 1 = (surface.nodes.map fun node => node.row.length + 1).sum := by
  have hjoin := length_join ';' (show surface.nodes.map UiNode.row ≠ [] by simpa using hne)
  rw [List.map_map] at hjoin
  exact hjoin

theorem length_row (node : UiNode) : node.row.length = (safe node.text).length + (safe node.action).length + 3 := by
  unfold UiNode.row
  rw [List.length_append, List.length_append, List.length_cons]
  show 2 + _ + _ = _
  omega

theorem readable_panel (hnow : (safe (some now)).length ≤ 94) : Readable (Application.panel now).line := by
  have hframe : Frame (Application.panel now) .P :=
    (windows_frame (Application.panel [], .P) (by simp [windows])).content _
  have hlabel : (UiNode.Label now).row.length = (safe (some now)).length + 3 := length_row _
  have hrows : (Application.panel now).rows.length + 1 = 23 + ((UiNode.Label now).row.length + 1 + 32) :=
    length_rows (Application.panel now) (List.cons_ne_nil _ _)
  have hnodes : ∀ node ∈ [UiNode.Button "Search".toList "launcher.open".toList, .Label now,
      .Button "WiFi  Vol  100%".toList "settings.open".toList], node.Fits := by
    intro node hnode
    simp only [List.mem_cons, List.not_mem_nil, or_false] at hnode
    rcases hnode with rfl | rfl | rfl
    · decide
    · exact ⟨hnow, Nat.zero_le _⟩
    · decide
  exact hframe.readable (by omega) hnodes

theorem readable_terminal {command output : Str} (hcommand : command.length ≤ 64) (houtput : output.length ≤ 83) :
    Readable (Application.terminal command output).line := by
  have hframe : Frame (Application.terminal command output) .W :=
    (windows_frame (Application.terminal [] [], .W) (by simp [windows])).content _
  have hsafe := length_safe ("pippin> ".toList ++ command)
  have hsafe' := length_safe output
  have hprompt : ("pippin> ".toList ++ command).length = 8 + command.length := List.length_append
  have hlabel : (UiNode.Label output).row.length = (safe (some output)).length + 3 := length_row _
  have hsearch : (UiNode.Search ("pippin> ".toList ++ command) "terminal.input".toList).row.length =
    (safe (some ("pippin> ".toList ++ command))).length + 14 + 3 := length_row _
  have hrows : (Application.terminal command output).rows.length + 1 = 19 + ((UiNode.Label output).row.length + 1 +
      ((UiNode.Search ("pippin> ".toList ++ command) "terminal.input".toList).row.length + 1 + 19)) :=
    length_rows (Application.terminal command output) (List.cons_ne_nil _ _)
  have hnodes : ∀ node ∈ [UiNode.Heading "Pippin Terminal".toList, .Label output,
      .Search ("pippin> ".toList ++ command) "terminal.input".toList, .Button "Run".toList "terminal.run".toList],
      node.Fits := by
    intro node hnode
    simp only [List.mem_cons, List.not_mem_nil, or_false] at hnode
    rcases hnode with rfl | rfl | rfl | rfl
    · decide
    · exact ⟨Nat.le_trans hsafe' (Nat.le_trans houtput (by decide)), Nat.zero_le _⟩
    · refine ⟨Nat.le_trans hsafe (by omega), ?_⟩
      show (safe (some "terminal.input".toList)).length ≤ 64
      decide
    · decide
  exact hframe.readable (by omega) hnodes

/-! ## The state of the terminal -/

structure HostBridge.Ok (h : HostBridge) : Prop where
  command : h.command.length ≤ 64
  output : h.output.length ≤ 83

theorem length_trim (s : Str) : (trim s).length ≤ s.length := by
  unfold trim
  exact Nat.le_trans (List.rdropWhile_prefix isWhitespace _).length_le (List.length_dropWhile_le _ _)

theorem HostBridge.Ok.runTerminal (hok : h.Ok) : h.runTerminal.Ok := by
  have htrim := length_trim h.command
  have hcommand := hok.command
  refine ⟨Nat.zero_le _, ?_⟩
  show (h.runTerminal.output).length ≤ 83
  unfold HostBridge.runTerminal
  dsimp only
  split_ifs
  · exact hok.output
  · decide
  · decide
  · decide
  · decide
  · rw [List.length_drop]
    omega
  · rw [List.length_append]
    show _ + 19 ≤ 83
    omega

theorem HostBridge.Ok.handle (hok : h.Ok) (action : Str) : (h.handle action).1.Ok := by
  generalize hr : h.handle action = r
  have hhandles := handle_handles h action
  rw [hr] at hhandles
  cases hhandles with
  | close hid => exact hok
  | key byte =>
    refine ⟨?_, hok.output⟩
    dsimp only
    split_ifs with hroom
    · rw [List.length_append]
      exact hroom
    · exact hok.command
  | backspace =>
    refine ⟨?_, hok.output⟩
    dsimp only
    rw [List.length_dropLast]
    exact Nat.le_trans (Nat.sub_le _ _) hok.command
  | named hnamed =>
    rcases hnamed.text with ⟨hcommand, houtput⟩ | hrun
    · exact ⟨hcommand ▸ hok.command, houtput ▸ hok.output⟩
    · rw [hrun]
      exact hok.runTerminal

/-! ## Bursts -/

/-- What a handler has left is harmless: a line is readable, and the name of a closed surface is short and plain. -/
def Task.Harmless : Task → Prop
  | .ShowAsync _ => True
  | .ShowStatusAsync message => message ∈ statusMessages
  | .SendAsync line => Readable line
  | .HandleAsync action => Inline 388 action

theorem readable_fixed : ∀ line ∈ fixedLines, Readable line := by
  have hfits : ∀ line ∈ fixedLines, '\r' ∉ line ∧ '\n' ∉ line ∧ Str.len line ≤ 384 := by decide +kernel
  intro line hline
  obtain ⟨hcr, hlf, hlen⟩ := hfits line hline
  refine ⟨⟨hcr, hlf, hlen⟩, ?_⟩
  simp only [fixedLines, List.mem_cons, List.not_mem_nil, or_false] at hline
  rcases hline with rfl | rfl | rfl | rfl | rfl | rfl
  · exact Or.inl ⟨"launcher".toList, Or.inr rfl⟩
  · exact Or.inl ⟨"settings".toList, Or.inr rfl⟩
  · exact Or.inl ⟨"files".toList, Or.inr rfl⟩
  · exact Or.inl ⟨"dock".toList, Or.inl rfl⟩
  · exact Or.inl ⟨"notifications".toList, Or.inl rfl⟩
  · exact Or.inr ⟨_, _, rfl, rfl⟩

theorem readable_status : ∀ message ∈ statusMessages, Readable (HostBridge.statusLine message) := by
  have hfits : ∀ message ∈ statusMessages, '\r' ∉ HostBridge.statusLine message ∧
      '\n' ∉ HostBridge.statusLine message ∧ (HostBridge.statusLine message).len ≤ 384 := by decide +kernel
  have hparse : ∀ message ∈ statusMessages, (parseSurface ((HostBridge.statusLine message).drop 2)).isSome = true := by
    decide +kernel
  intro message hmessage
  obtain ⟨hcr, hlf, hlen⟩ := hfits message hmessage
  obtain ⟨t, ht⟩ := Option.isSome_iff_exists.mp (hparse message hmessage)
  exact ⟨⟨hcr, hlf, hlen⟩, Or.inr ⟨_, t, rfl, ht⟩⟩

theorem readable_close {id : Str} (hid : Inline 382 id) : Readable ("X|".toList ++ id) := by
  have hX : Inline 2 "X|".toList := ⟨by decide, by decide, by decide⟩
  exact ⟨hX.append hid, Or.inl ⟨id, Or.inl rfl⟩⟩

theorem Task.Fixed.harmless {task : Task} (h : task.Fixed) : task.Harmless := by
  cases task with
  | ShowAsync client => exact trivial
  | ShowStatusAsync message => exact h
  | SendAsync line => exact readable_fixed line h
  | HandleAsync action => exact absurd h id

theorem handle_harmless (hok : Task.Harmless (.HandleAsync action)) : ∀ task ∈ (h.handle action).2, task.Harmless := by
  have one : ∀ {task : Task}, task.Harmless → ∀ t ∈ [task], t.Harmless := by
    intro task htask t ht
    rwa [List.mem_singleton.mp ht]
  generalize hr : h.handle action = r
  have hhandles := handle_handles h action
  rw [hr] at hhandles
  cases hhandles with
  | @close id hid =>
    subst hid
    have hclose : Str.len ".close".toList = 6 := rfl
    have hlen := hok.fits
    rw [Native.Compositor.len_append, hclose] at hlen
    exact one (readable_close (hok.of_subset (List.subset_append_left _ _) (by omega)))
  | key byte => exact one trivial
  | backspace => exact one trivial
  | named hnamed => exact fun task ht => (hnamed.tasks task ht).harmless

section

variable (hnow : (safe (some now)).length ≤ 94)

include hnow

theorem readable_line (hok : h.Ok) {task : Task} (htask : task.Harmless) (hline : h.line now task = some line) :
    Readable line := by
  cases task with
  | ShowAsync client =>
    cases hline
    cases client with
    | wallpaper => exact readable_wallpaper
    | panel => exact readable_panel hnow
    | dock => exact windows_readable (Application.dock, .D) (by simp [windows])
    | launcher => exact windows_readable (Application.launcher, .L) (by simp [windows])
    | settings => exact windows_readable (Application.settings, .W) (by simp [windows])
    | files => exact windows_readable (Application.files, .W) (by simp [windows])
    | terminal => exact readable_terminal hok.command hok.output
    | notifications => exact windows_readable (Application.notifications, .N) (by simp [windows])
  | ShowStatusAsync message =>
    unfold HostBridge.line at hline
    split_ifs at hline
    cases hline
    exact readable_status message htask
  | SendAsync line =>
    cases hline
    exact htask
  | HandleAsync action => cases hline

theorem first_readable {more : List Task} (hok : h.Ok) (hf : h.first now tasks = some (line, more))
    (htasks : ∀ task ∈ tasks, task.Harmless) : Readable line := by
  induction tasks with
  | nil => cases hf
  | cons task tasks ih =>
    rw [HostBridge.first] at hf
    split at hf
    · rename_i line' hline
      cases hf
      exact readable_line hnow hok (htasks task List.mem_cons_self) hline
    · exact ih hf fun t ht => htasks t (List.mem_cons_of_mem task ht)

structure Session.Ok (s : Session) : Prop where
  host : s.host.Ok
  tasks : ∀ task ∈ s.tasks, task.Harmless
  waiting : ∀ w, s.waiting = some w → Readable w.line ∧ ∀ action ∈ w.pendingActions, Task.Harmless (.HandleAsync action)

theorem Resumes.ok (hr : Resumes now h tasks burst) (hok : h.Ok) (htasks : ∀ task ∈ tasks, task.Harmless) :
    burst.session.Ok ∧ ∀ line, burst.sent = some line → Readable line := by
  have sends : ∀ {h : HostBridge} {line : Str} {tasks : List Task}, h.Ok → Readable line →
      (∀ task ∈ tasks, task.Harmless) → Session.Ok ⟨h, some ⟨line, []⟩, tasks⟩ := by
    intro h line tasks hok hline htasks
    refine ⟨hok, htasks, fun w hw => ?_⟩
    cases hw
    exact ⟨hline, fun a ha => absurd ha List.not_mem_nil⟩
  induction hr with
  | idle h => exact ⟨⟨hok, htasks, fun w hw => by cases hw⟩, fun line hl => by cases hl⟩
  | @send h task line tasks hline =>
    have hread := readable_line hnow hok (htasks task List.mem_cons_self) hline
    refine ⟨sends hok hread fun t ht => htasks t (List.mem_cons_of_mem task ht), fun l hl => ?_⟩
    cases hl
    exact hread
  | @silent h task tasks burst htask hline hrest ih => exact ih hok fun t ht => htasks t (List.mem_cons_of_mem task ht)
  | @handle h action line more tasks hfirst =>
    have hleft : ∀ task ∈ (h.handle action).2, task.Harmless := handle_harmless (htasks _ List.mem_cons_self)
    have hread := first_readable hnow (hok.handle action) hfirst hleft
    refine ⟨sends (hok.handle action) hread fun t ht => ?_, fun l hl => ?_⟩
    · rcases List.mem_append.mp ht with ht | ht
      · exact hleft t (first_subset hfirst ht)
      · exact htasks t (List.mem_cons_of_mem _ ht)
    · cases hl
      exact hread
  | @quiet h action tasks burst hfirst hrest ih =>
    obtain ⟨hsession, hsent⟩ := ih (hok.handle action) fun t ht => htasks t (List.mem_cons_of_mem _ ht)
    exact ⟨⟨hsession.host, hsession.tasks, hsession.waiting⟩, hsent⟩

end

/-! ## Runs -/

/-- If a line of the guest is an action, it is not much longer than the line buffer. -/
def Received (line : Str) : Prop := ∀ action, stripPrefix "E|".toList line = some action → Inline 388 action

theorem Receives.ok (hnow : (safe (some now)).length ≤ 94) (hline : Received line) (hs : s.Ok)
    (hr : Receives now s line burst) : burst.session.Ok ∧ ∀ line, burst.sent = some line → Readable line := by
  cases hr with
  | @action a burst hidle ha hr =>
    refine hr.ok hnow hs.host fun task ht => ?_
    rcases List.mem_cons.mp ht with rfl | ht
    · exact hline _ ha
    · exact hs.tasks task ht
  | @answer w burst hw ha hr =>
    refine hr.ok hnow hs.host fun task ht => ?_
    rcases List.mem_append.mp ht with ht | ht
    · obtain ⟨a, ha, rfl⟩ := List.mem_map.mp ht
      exact (hs.waiting w hw).2 a ha
    · exact hs.tasks task ht
  | @later w a hw ha =>
    refine ⟨⟨hs.host, hs.tasks, fun w' hw' => ?_⟩, fun l hl => by cases hl⟩
    cases hw'
    refine ⟨(hs.waiting w hw).1, fun b hb => ?_⟩
    rcases List.mem_append.mp hb with hb | hb
    · exact (hs.waiting w hw).2 b hb
    · rw [List.mem_singleton.mp hb]
      exact hline _ ha
  | ignored => exact ⟨hs, fun l hl => by cases hl⟩

theorem start_ok (hnow : (safe (some now)).length ≤ 94) :
    (Session.start now).session.Ok ∧ ∀ line, (Session.start now).sent = some line → Readable line := by
  refine (resume_resumes _ _).ok hnow ⟨Nat.zero_le _, by decide⟩ fun task ht => ?_
  simp only [List.mem_cons, List.not_mem_nil, or_false] at ht
  rcases ht with rfl | rfl | rfl | rfl | rfl <;> exact trivial

end Pippin.Host
