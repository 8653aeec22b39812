import Pippin.Host.Surfaces

/-! The shell on the host as a client of the guest. It sends one line at a time and waits for the answer; actions
that arrive while it waits are handled once the answer is there, before it goes on. So the handlers nest. -/

namespace Pippin.Host
open Str

inductive Client where
  | wallpaper | panel | dock | launcher | settings | files | terminal | notifications
deriving DecidableEq, Repr

structure HostBridge where
  command : Str
  output : Str
  dockVisible : Bool
  notificationsEnabled : Bool
  animationsEnabled : Bool
deriving DecidableEq, Repr

inductive Task where
  | ShowAsync (client : Client)
  | ShowStatusAsync (message : Str)
  | SendAsync (line : Str)
  | HandleAsync (action : Str)
deriving DecidableEq, Repr

def maxCommandLength : Nat := 64

/-- `byte.TryParse` of hexadecimal digits: white space around them and trailing nulls are accepted. -/
def tryParseHex (s : Str) : Option UInt8 :=
  let s := s.dropWhile isWhite
  let isHex := fun c => (toDigit 16 c).isSome
  if !(((s.dropWhile isHex).dropWhile isWhite).dropWhile (· == '\x00')).isEmpty then none
  else ((magnitude 16 (s.takeWhile isHex)).filter fun n => decide (n < 256)).map UInt8.ofNat

def terminalKey (action : Str) : Option Char :=
  ((stripPrefix "terminal.key.".toList action).bind tryParseHex).map fun key => Char.ofNat key.toNat

namespace HostBridge

def new : HostBridge :=
  ⟨[], "Pippin OS 0.1.0 - type help for commands.".toList, true, true, true⟩

def surface (h : HostBridge) (now : Str) : Client → Surface
  | .wallpaper => Application.wallpaper
  | .panel => Application.panel now
  | .dock => Application.dock
  | .launcher => Application.launcher
  | .settings => Application.settings
  | .files => Application.files
  | .terminal => Application.terminal h.command h.output
  | .notifications => Application.notifications

def runTerminal (h : HostBridge) : HostBridge :=
  let command := trim h.command
  let output :=
    if command = [] then h.output
    else if command = "help".toList then "help  uname  clear  echo <text>  exit".toList
    else if command = "uname".toList then "Pippin OS 0.1.0 x86_64".toList
    else if command = "clear".toList then []
    else if command = "exit".toList then "Use the window close button to exit Terminal.".toList
    else if "echo ".toList.isPrefixOf command then command.drop 5
    else command ++ ": command not found".toList
  { h with output, command := [] }

def statusLine (message : Str) : Str :=
  "S|notifications|N|482|48|300|96|Notifications|".toList ++ safe (some message) ++ "@".toList

def wallpaperLine : Str := "S|wallpaper|B|0|0|1024|768|#2f80ed|".toList

def named (h : HostBridge) (action : Str) : HostBridge × List Task :=
  if action = "launcher.open".toList then (h, [.ShowAsync .launcher])
  else if action = "settings.open".toList then (h, [.ShowAsync .settings])
  else if action = "files.open".toList then (h, [.ShowAsync .files])
  else if action = "terminal.open".toList then (h, [.ShowAsync .terminal])
  else if action = "terminal.run".toList then (h.runTerminal, [.ShowAsync .terminal])
  else if action = "terminal.input".toList then (h, [.ShowStatusAsync "Terminal input field focused".toList])
  else if action = "launcher.restore".toList then (h, [.SendAsync "R|launcher".toList])
  else if action = "settings.restore".toList then (h, [.SendAsync "R|settings".toList])
  else if action = "files.restore".toList then (h, [.SendAsync "R|files".toList])
  else if action = "settings.animations.toggle".toList then
    ({ h with animationsEnabled := !h.animationsEnabled },
      [.ShowStatusAsync ("Animations ".toList ++ if !h.animationsEnabled then "on".toList else "off".toList)])
  else if action = "settings.dock.toggle".toList then
    ({ h with dockVisible := !h.dockVisible },
      [if !h.dockVisible then .ShowAsync .dock else .SendAsync "X|dock".toList])
  else if action = "settings.notifications.toggle".toList then
    ({ h with notificationsEnabled := !h.notificationsEnabled },
      [if !h.notificationsEnabled then .ShowAsync .notifications else .SendAsync "X|notifications".toList])
  else if action = "files.documents.open".toList then (h, [.ShowStatusAsync "Documents".toList])
  else if action = "files.downloads.open".toList then (h, [.ShowStatusAsync "Downloads".toList])
  else if action = "launcher.search".toList then (h, [.ShowStatusAsync "App search ready".toList])
  else if action = "files.search".toList then (h, [.ShowStatusAsync "File search ready".toList])
  else if action = "wallpaper.select.gradient".toList then
    (h, [.SendAsync wallpaperLine, .ShowStatusAsync "Blue wallpaper applied".toList])
  else (h, [])

/-- `HandleAsync`: the new state, and what there is to be sent. -/
def handle (h : HostBridge) (action : Str) : HostBridge × List Task :=
  match stripSuffix ".close".toList action with
  | some id => (h, [.SendAsync ("X|".toList ++ id)])
  | none =>
    match terminalKey action with
    | some key =>
      ({ h with command := if h.command.length < maxCommandLength then h.command ++ [key] else h.command },
        [.ShowAsync .terminal])
    | none =>
      if action = "terminal.backspace".toList then ({ h with command := h.command.dropLast }, [.ShowAsync .terminal])
      else h.named action

def line (h : HostBridge) (now : Str) : Task → Option Str
  | .ShowAsync client => some (h.surface now client).line
  | .ShowStatusAsync message => if h.notificationsEnabled then some (statusLine message) else none
  | .SendAsync line => some line
  | .HandleAsync _ => none

def first (h : HostBridge) (now : Str) : List Task → Option (Str × List Task)
  | [] => none
  | task :: tasks =>
    match h.line now task with
    | some line => some (line, tasks)
    | none => h.first now tasks

end HostBridge

/-- `SendAsync` waits for the answer to a line, with the actions that came in the meantime. -/
structure Waiting where
  line : Str
  pendingActions : List Str
deriving DecidableEq, Repr

structure Session where
  host : HostBridge
  waiting : Option Waiting
  tasks : List Task
deriving DecidableEq, Repr

/-- A run of the program up to the next wait: the actions it prints, and the line it sends. -/
structure Burst where
  session : Session
  console : List Str
  sent : Option Str
deriving DecidableEq, Repr

namespace Session

variable (now : Str)

def resume (h : HostBridge) : List Task → Burst
  | [] => ⟨⟨h, none, []⟩, [], none⟩
  | .HandleAsync action :: tasks =>
    match (h.handle action).1.first now (h.handle action).2 with
    | some (line, more) => ⟨⟨(h.handle action).1, some ⟨line, []⟩, more ++ tasks⟩, [action], some line⟩
    | none =>
      let burst := resume (h.handle action).1 tasks
      { burst with console := action :: burst.console }
  | task :: tasks =>
    match h.line now task with
    | some line => ⟨⟨h, some ⟨line, []⟩, tasks⟩, [], some line⟩
    | none => resume h tasks

def start : Burst :=
  resume now .new [.ShowAsync .wallpaper, .ShowAsync .panel, .ShowAsync .dock, .ShowAsync .terminal,
    .ShowAsync .notifications]

/-- A line of the guest. `none`: the answer is a rejection, which ends the program. -/
def receive (s : Session) (line : Str) : Option Burst :=
  match s.waiting with
  | none =>
    match stripPrefix "E|".toList line with
    | some action => some (resume now s.host (.HandleAsync action :: s.tasks))
    | none => some ⟨s, [], none⟩
  | some waiting =>
    if line = "A".toList then some (resume now s.host (waiting.pendingActions.map .HandleAsync ++ s.tasks))
    else if line = "N".toList then none
    else
      match stripPrefix "E|".toList line with
      | some action =>
        some ⟨{ s with waiting := some { waiting with pendingActions := waiting.pendingActions ++ [action] } }, [], none⟩
      | none => some ⟨s, [], none⟩

/-- Sessions with the lines received, the actions handled and the lines sent, in which every line satisfies `ok` in
the session that it meets. -/
inductive Run (ok : Session → Str → Prop) : Session → List Str → List Str → List Str → Prop where
  | start : Run ok (start now).session [] (start now).console (start now).sent.toList
  | receive {s : Session} {received console sent : List Str} {burst : Burst} (line : Str)
      (hs : Run ok s received console sent) (hok : ok s line) (h : s.receive now line = some burst) :
      Run ok burst.session (received ++ [line]) (console ++ burst.console) (sent ++ burst.sent.toList)

end Session

/-! ## What an action can do -/

variable {now action line : Str} {h : HostBridge} {s : Session} {tasks : List Task} {burst : Burst}
  {received console sent : List Str} {ok : Session → Str → Prop}

def statusMessages : List Str :=
  ["Terminal input field focused".toList, "Animations on".toList, "Animations off".toList, "Documents".toList,
    "Downloads".toList, "App search ready".toList, "File search ready".toList, "Blue wallpaper applied".toList]

def fixedLines : List Str :=
  ["R|launcher".toList, "R|settings".toList, "R|files".toList, "X|dock".toList, "X|notifications".toList,
    HostBridge.wallpaperLine]

def Task.Fixed : Task → Prop
  | .ShowAsync _ => True
  | .ShowStatusAsync message => message ∈ statusMessages
  | .SendAsync line => line ∈ fixedLines
  | .HandleAsync _ => False

structure Named (h : HostBridge) (r : HostBridge × List Task) : Prop where
  text : r.1.command = h.command ∧ r.1.output = h.output ∨ r.1 = h.runTerminal
  tasks : ∀ task ∈ r.2, task.Fixed

theorem named_ite {c : Prop} [Decidable c] {r r' : HostBridge × List Task} (hr : Named h r) (hr' : Named h r') :
    Named h (if c then r else r') := by
  by_cases hc : c
  · rwa [if_pos hc]
  · rwa [if_neg hc]

theorem named_one {h' : HostBridge} {task : Task} (htext : h'.command = h.command ∧ h'.output = h.output)
    (htask : task.Fixed) : Named h (h', [task]) :=
  ⟨Or.inl htext, fun _ ht => List.mem_singleton.mp ht ▸ htask⟩

theorem named_fixed (h : HostBridge) (action : Str) : Named h (h.named action) := by
  have shows : ∀ client, Named h (h, [.ShowAsync client]) := fun client => named_one ⟨rfl, rfl⟩ trivial
  have status : ∀ message ∈ statusMessages, Named h (h, [.ShowStatusAsync message]) := fun message hm =>
    named_one ⟨rfl, rfl⟩ hm
  have sends : ∀ line ∈ fixedLines, Named h (h, [.SendAsync line]) := fun line hl => named_one ⟨rfl, rfl⟩ hl
  unfold HostBridge.named
  refine named_ite (shows _) <| named_ite (shows _) <| named_ite (shows _) <| named_ite (shows _) <| named_ite ?_ <|
    named_ite (status _ (by decide)) <| named_ite (sends _ (by decide)) <| named_ite (sends _ (by decide)) <|
    named_ite (sends _ (by decide)) <| named_ite ?_ <| named_ite ?_ <| named_ite ?_ <|
    named_ite (status _ (by decide)) <| named_ite (status _ (by decide)) <| named_ite (status _ (by decide)) <|
    named_ite (status _ (by decide)) <| named_ite ?_ ⟨Or.inl ⟨rfl, rfl⟩, fun _ ht => absurd ht List.not_mem_nil⟩
  · exact ⟨Or.inr rfl, fun _ ht => List.mem_singleton.mp ht ▸ trivial⟩
  · refine named_one ⟨rfl, rfl⟩ ?_
    cases h.animationsEnabled
    · exact show "Animations on".toList ∈ statusMessages by decide
    · exact show "Animations off".toList ∈ statusMessages by decide
  · refine named_one ⟨rfl, rfl⟩ ?_
    cases h.dockVisible
    · exact trivial
    · exact show "X|dock".toList ∈ fixedLines by decide
  · refine named_one ⟨rfl, rfl⟩ ?_
    cases h.notificationsEnabled
    · exact trivial
    · exact show "X|notifications".toList ∈ fixedLines by decide
  · refine ⟨Or.inl ⟨rfl, rfl⟩, fun t ht => ?_⟩
    simp only [List.mem_cons, List.not_mem_nil, or_false] at ht
    rcases ht with rfl | rfl
    · exact show HostBridge.wallpaperLine ∈ fixedLines by decide
    · exact show "Blue wallpaper applied".toList ∈ statusMessages by decide

inductive Handles (h : HostBridge) (action : Str) : HostBridge × List Task → Prop
  | close {id : Str} (hid : action = id ++ ".close".toList) : Handles h action (h, [.SendAsync ("X|".toList ++ id)])
  | key (key : UInt8) : Handles h action ({ h with
      command := if h.command.length < maxCommandLength then h.command ++ [Char.ofNat key.toNat] else h.command },
      [.ShowAsync .terminal])
  | backspace : Handles h action ({ h with command := h.command.dropLast }, [.ShowAsync .terminal])
  | named {r : HostBridge × List Task} (hr : Named h r) : Handles h action r

theorem handle_handles (h : HostBridge) (action : Str) : Handles h action (h.handle action) := by
  unfold HostBridge.handle
  split
  · rename_i id hclose
    exact .close (stripSuffix_some hclose)
  · split
    · rename_i key hkey
      obtain ⟨byte, -, rfl⟩ := Option.map_eq_some_iff.mp hkey
      exact .key byte
    · by_cases hback : action = "terminal.backspace".toList
      · rw [if_pos hback]
        exact .backspace
      · rw [if_neg hback]
        exact .named (named_fixed h action)

/-! ## Every action is handled once -/

def Task.handled : Task → Option Str
  | .HandleAsync action => some action
  | _ => none

def actions (tasks : List Task) : List Str := tasks.filterMap Task.handled

def arrivals (received : List Str) : List Str := received.filterMap (stripPrefix "E|".toList)

/-- The actions that are not handled yet, in the order in which they will be if no others come. -/
def Session.backlog (s : Session) : List Str :=
  (s.waiting.map Waiting.pendingActions).getD [] ++ actions s.tasks

theorem actions_append (tasks more : List Task) : actions (tasks ++ more) = actions tasks ++ actions more :=
  List.filterMap_append

theorem actions_handlers (l : List Str) : actions (l.map .HandleAsync) = l := by
  unfold actions
  rw [List.filterMap_map]
  exact List.filterMap_some

theorem Task.Fixed.handled {task : Task} (h : task.Fixed) : task.handled = none := by
  cases task with
  | HandleAsync action => exact absurd h id
  | ShowAsync | ShowStatusAsync | SendAsync => rfl

theorem action_handle (h : HostBridge) (action : Str) : ∀ task ∈ (h.handle action).2, task.handled = none := by
  have one : ∀ {task : Task}, task.handled = none → ∀ t ∈ [task], t.handled = none := by
    intro task htask t ht
    rwa [List.mem_singleton.mp ht]
  generalize hr : h.handle action = r
  have hhandles := handle_handles h action
  rw [hr] at hhandles
  cases hhandles with
  | close hid => exact one rfl
  | key byte => exact one rfl
  | backspace => exact one rfl
  | named hnamed => exact fun task ht => (hnamed.tasks task ht).handled

theorem first_subset {more : List Task} (hf : h.first now tasks = some (line, more)) : more ⊆ tasks := by
  induction tasks with
  | nil => cases hf
  | cons task tasks ih =>
    rw [HostBridge.first] at hf
    split at hf
    · cases hf
      exact List.subset_cons_self _ _
    · exact fun t ht => List.mem_cons_of_mem task (ih hf ht)

inductive Resumes (now : Str) : HostBridge → List Task → Burst → Prop
  | idle (h : HostBridge) : Resumes now h [] ⟨⟨h, none, []⟩, [], none⟩
  | send {h : HostBridge} {task : Task} {line : Str} (tasks : List Task) (hline : h.line now task = some line) :
      Resumes now h (task :: tasks) ⟨⟨h, some ⟨line, []⟩, tasks⟩, [], some line⟩
  | silent {h : HostBridge} {task : Task} {tasks : List Task} {burst : Burst} (htask : task.handled = none)
      (hline : h.line now task = none) (hrest : Resumes now h tasks burst) : Resumes now h (task :: tasks) burst
  | handle {h : HostBridge} {action line : Str} {more : List Task} (tasks : List Task)
      (hfirst : (h.handle action).1.first now (h.handle action).2 = some (line, more)) :
      Resumes now h (.HandleAsync action :: tasks)
        ⟨⟨(h.handle action).1, some ⟨line, []⟩, more ++ tasks⟩, [action], some line⟩
  | quiet {h : HostBridge} {action : Str} {tasks : List Task} {burst : Burst}
      (hfirst : (h.handle action).1.first now (h.handle action).2 = none)
      (hrest : Resumes now (h.handle action).1 tasks burst) :
      Resumes now h (.HandleAsync action :: tasks) { burst with console := action :: burst.console }

theorem resume_resumes (h : HostBridge) (tasks : List Task) : Resumes now h tasks (Session.resume now h tasks) := by
  -- The state of the host changes from task to task, so it is general in the induction.
  induction tasks generalizing h with
  | nil => exact .idle h
  | cons task tasks ih =>
    have other (htask : task.handled = none) (heq : Session.resume now h (task :: tasks) =
        ((h.line now task).map fun line => ⟨⟨h, some ⟨line, []⟩, tasks⟩, [], some line⟩).getD
          (Session.resume now h tasks)) : Resumes now h (task :: tasks) (Session.resume now h (task :: tasks)) := by
      rw [heq]
      cases hline : h.line now task with
      | some line => exact .send tasks hline
      | none => exact .silent htask hline (ih h)
    cases task with
    | HandleAsync action =>
      rw [Session.resume]
      cases hfirst : (h.handle action).1.first now (h.handle action).2 with
      | some p => exact .handle tasks hfirst
      | none => exact .quiet hfirst (ih _)
    | ShowAsync client => exact other rfl rfl
    | ShowStatusAsync message =>
      refine other rfl ?_
      rw [Session.resume]
      · cases h.line now (.ShowStatusAsync message) <;> rfl
      · exact fun _ h => by cases h
    | SendAsync line => exact other rfl rfl

theorem handled_of_line {task : Task} (h : h.line now task = some line) : task.handled = none := by
  cases task with
  | HandleAsync action => cases h
  | ShowAsync | ShowStatusAsync | SendAsync => rfl

theorem Resumes.handles (hr : Resumes now h tasks burst) : burst.console ++ burst.session.backlog = actions tasks := by
  induction hr with
  | idle => rfl
  | send tasks hline => exact (List.filterMap_cons_none (handled_of_line hline)).symm
  | silent htask hline hrest ih => exact ih.trans (List.filterMap_cons_none htask).symm
  | @handle h action line more tasks hfirst =>
    -- What an action leaves to do holds no other action.
    have hmore : actions more = [] := List.filterMap_eq_nil_iff.mpr fun t ht =>
      action_handle h action t (first_subset hfirst ht)
    show action :: actions (more ++ tasks) = action :: actions tasks
    rw [actions_append, hmore, List.nil_append]
  | @quiet h action tasks burst hfirst hrest ih => exact congrArg (action :: ·) ih

theorem Resumes.idle_tasks (hr : Resumes now h tasks burst) (hidle : burst.session.waiting = none) :
    burst.session.tasks = [] := by
  induction hr with
  | idle => rfl
  | send | handle => cases hidle
  | silent htask hline hrest ih => exact ih hidle
  | quiet hfirst hrest ih => exact ih hidle

inductive Receives (now : Str) (s : Session) (line : Str) : Burst → Prop
  | action {action : Str} {burst : Burst} (hidle : s.waiting = none)
      (hline : stripPrefix "E|".toList line = some action)
      (hr : Resumes now s.host (.HandleAsync action :: s.tasks) burst) : Receives now s line burst
  | answer {w : Waiting} {burst : Burst} (hw : s.waiting = some w) (hline : line = "A".toList)
      (hr : Resumes now s.host (w.pendingActions.map .HandleAsync ++ s.tasks) burst) : Receives now s line burst
  | later {w : Waiting} {action : Str} (hw : s.waiting = some w)
      (hline : stripPrefix "E|".toList line = some action) : Receives now s line
        ⟨{ s with waiting := some { w with pendingActions := w.pendingActions ++ [action] } }, [], none⟩
  | ignored (hline : stripPrefix "E|".toList line = none)
      (hw : s.waiting.isSome → line ≠ "A".toList ∧ line ≠ "N".toList) : Receives now s line ⟨s, [], none⟩

theorem receive_receives (hr : s.receive now line = some burst) : Receives now s line burst := by
  unfold Session.receive at hr
  cases hw : s.waiting with
  | none =>
    rw [hw] at hr
    dsimp only at hr
    cases hline : stripPrefix "E|".toList line with
    | some action =>
      rw [hline] at hr
      cases hr
      exact .action hw hline (resume_resumes _ _)
    | none =>
      rw [hline] at hr
      cases hr
      exact .ignored hline fun h => by rw [hw] at h; cases h
  | some w =>
    rw [hw] at hr
    dsimp only at hr
    split_ifs at hr with hA hN
    · cases hr
      exact .answer hw hA (resume_resumes _ _)
    · cases hline : stripPrefix "E|".toList line with
      | some action =>
        rw [hline] at hr
        cases hr
        exact .later hw hline
      | none =>
        rw [hline] at hr
        cases hr
        exact .ignored hline fun _ => ⟨hA, hN⟩

theorem Receives.idle_tasks (hr : Receives now s line burst) (hs : s.waiting = none → s.tasks = [])
    (hidle : burst.session.waiting = none) : burst.session.tasks = [] := by
  cases hr with
  | action hw hline hr => exact hr.idle_tasks hidle
  | answer hw hline hr => exact hr.idle_tasks hidle
  | later hw hline => cases hidle
  | ignored => exact hs hidle

/-- An action that arrives is handled or joins the backlog, and the backlog only gets shorter from its front. -/
theorem Receives.handles (hr : Receives now s line burst) (hs : s.waiting = none → s.tasks = []) :
    (burst.console ++ burst.session.backlog).Perm (s.backlog ++ (stripPrefix "E|".toList line).toList) ∧
      (((stripPrefix "E|".toList line).isSome → actions s.tasks = []) →
        burst.console ++ burst.session.backlog = s.backlog ++ (stripPrefix "E|".toList line).toList) := by
  cases hr with
  | @action a burst hw hline hr =>
    rw [hr.handles, hs hw, hline]
    have hbacklog : s.backlog = [] := by
      unfold Session.backlog
      rw [hw, hs hw]
      rfl
    rw [hbacklog]
    exact ⟨List.Perm.refl _, fun _ => rfl⟩
  | @answer w burst hw hline hr =>
    have hbacklog : s.backlog = w.pendingActions ++ actions s.tasks := by
      unfold Session.backlog
      rw [hw]
      rfl
    rw [hr.handles, actions_append, actions_handlers, hbacklog, hline]
    have hnone : stripPrefix "E|".toList "A".toList = none := by decide
    rw [hnone, Option.toList_none, List.append_nil]
    exact ⟨List.Perm.refl _, fun _ => rfl⟩
  -- an action that arrives while an answer is awaited is kept for later
  | @later w a hw hline =>
    have hbacklog : s.backlog = w.pendingActions ++ actions s.tasks := by
      unfold Session.backlog
      rw [hw]
      rfl
    rw [hbacklog, hline]
    show (w.pendingActions ++ [a] ++ actions s.tasks).Perm (w.pendingActions ++ actions s.tasks ++ [a]) ∧ _
    refine ⟨?_, fun horder => ?_⟩
    · rw [List.append_assoc, List.append_assoc]
      exact List.Perm.append_left _ List.perm_append_comm
    · rw [horder rfl, List.append_nil]
      show w.pendingActions ++ [a] ++ actions s.tasks = _
      rw [horder rfl, List.append_nil]
      rfl
  | ignored hline =>
    rw [hline, Option.toList_none, List.append_nil]
    exact ⟨List.Perm.refl _, fun _ => rfl⟩

/-! ## Runs -/

namespace Session

theorem Run.idle_tasks (hr : Run now ok s received console sent) : s.waiting = none → s.tasks = [] := by
  induction hr with
  | start => exact (resume_resumes _ _).idle_tasks
  | receive line hs hok h ih => exact (receive_receives h).idle_tasks ih

/-- No action waits behind the line that is being sent when another one arrives. -/
def Orderly (s : Session) (line : Str) : Prop := (stripPrefix "E|".toList line).isSome → actions s.tasks = []

theorem arrivals_concat (received : List Str) (line : Str) :
    arrivals (received ++ [line]) = arrivals received ++ (stripPrefix "E|".toList line).toList := by
  unfold arrivals
  rw [List.filterMap_append]
  cases hline : stripPrefix "E|".toList line with
  | none => rw [List.filterMap_cons_none hline, Option.toList_none, List.filterMap_nil]
  | some action => rw [List.filterMap_cons_some hline, Option.toList_some, List.filterMap_nil]

theorem start_handles (now : Str) : (start now).console ++ (start now).session.backlog = [] :=
  Resumes.handles (resume_resumes .new [.ShowAsync .wallpaper, .ShowAsync .panel, .ShowAsync .dock,
    .ShowAsync .terminal, .ShowAsync .notifications])

theorem Run.perm (hr : Run now ok s received console sent) : (console ++ s.backlog).Perm (arrivals received) := by
  induction hr with
  | start => exact List.Perm.of_eq (start_handles now)
  | @receive s received console sent burst line hs hok h ih =>
    have hstep := ((receive_receives h).handles hs.idle_tasks).1
    rw [arrivals_concat]
    rw [List.append_assoc]
    refine (hstep.append_left console).trans ?_
    rw [← List.append_assoc]
    exact ih.append_right _

theorem Run.in_order (hr : Run now Orderly s received console sent) : console ++ s.backlog = arrivals received := by
  induction hr with
  | start => exact start_handles now
  | @receive s received console sent burst line hs hok h ih =>
    have hstep := ((receive_receives h).handles hs.idle_tasks).2 hok
    rw [arrivals_concat, List.append_assoc, hstep, ← List.append_assoc, ih]

theorem backlog_idle (hr : Run now ok s received console sent) (hidle : s.waiting = none) : s.backlog = [] := by
  unfold backlog
  rw [hidle, hr.idle_tasks hidle]
  rfl

/-- Whatever the guest sends while a line is being answered, every action is handled exactly once: when the program is
idle, the actions handled are those that arrived. They are handled in the order of arrival if none arrives while
another waits behind the line that is being sent. -/
theorem actions_handled_once (hr : Run now ok s received console sent) (hidle : s.waiting = none) :
    console.Perm (arrivals received) ∧ (Run now Orderly s received console sent → console = arrivals received) := by
  have hperm := hr.perm
  rw [backlog_idle hr hidle, List.append_nil] at hperm
  refine ⟨hperm, fun horder => ?_⟩
  have hin := horder.in_order
  rwa [backlog_idle hr hidle, List.append_nil] at hin

theorem actions_handled_once_start : ∃ s console sent, Run [] Orderly s
    ["E|files.open".toList, "A".toList, "A".toList, "A".toList, "A".toList, "A".toList, "A".toList] console sent ∧
      s.waiting = none ∧ console.Perm ["files.open".toList] := by
  have hstart : Run [] Orderly (start []).session [] (start []).console (start []).sent.toList := .start
  have hrun := ((((((hstart.receive "E|files.open".toList (fun _ => rfl) rfl).receive
    "A".toList (fun h => by cases h) rfl).receive "A".toList (fun h => by cases h) rfl).receive
    "A".toList (fun h => by cases h) rfl).receive "A".toList (fun h => by cases h) rfl).receive
    "A".toList (fun h => by cases h) rfl).receive "A".toList (fun h => by cases h) rfl
  exact ⟨_, _, _, hrun, rfl, (actions_handled_once hrun rfl).1⟩

end Session

end Pippin.Host
