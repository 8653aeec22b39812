import Pippin.Native.Surfaces

/-! The window table: how many surfaces there are, and whether an id names one of them. Ids
come from the shell model, from `S|` lines and from the counter of the test windows. -/

namespace Pippin.Native
open Checked

namespace Compositor

variable {s t : Compositor} {shell : List ShellSurface}

inductive Input where
  | command (line : Str)
  | clientCommand (line : Str)
  | key (scan : UInt8) (text : Option UInt8) (reverseFocus extended : Bool)
  | pointer (packet : UInt32)
  | testWindow

/-- The state after an input, the action it returns and the events for the clients. -/
def step (s : Compositor) : Input → Checked (Compositor × Option Str × List Client.Event)
  | .command line => do return ((← s.command line).1, none, [])
  | .clientCommand line => do
    let (t, _, events) ← s.clientCommand line
    return (t, none, events)
  | .key scan text reverseFocus extended => s.keyScancode scan text reverseFocus extended
  | .pointer packet => s.pointerPacket packet
  | .testWindow => do return (← s.openTestWindow, none, [])

/-- Runs whose inputs all satisfy `ok` in the state they meet. -/
inductive Run (shell : List ShellSurface) (ok : Compositor → Input → Prop) : Compositor → Prop where
  | new : Run shell ok (new shell)
  | step {s t : Compositor} {action : Option Str} {events : List Client.Event} (input : Input)
      (hs : Run shell ok s) (hok : ok s input) (h : s.step input = .ok (t, action, events)) : Run shell ok t

theorem Reachable.step {action : Option Str} {events : List Client.Event} {input : Input} (hs : Reachable shell s)
    (h : s.step input = .ok (t, action, events)) : Reachable shell t := by
  cases input with
  | command line =>
    obtain ⟨r, hr, h⟩ := bind_eq_ok h
    cases h
    exact .command line hs hr
  | clientCommand line =>
    obtain ⟨r, hr, h⟩ := bind_eq_ok h
    cases h
    exact .clientCommand line hs hr
  | key scan text reverseFocus extended => exact .key scan text reverseFocus extended hs h
  | pointer packet => exact .pointer packet hs h
  | testWindow =>
    obtain ⟨r, hr, h⟩ := bind_eq_ok h
    cases h
    exact .testWindow hs hr

theorem Run.reachable {ok : Compositor → Input → Prop} (h : Run shell ok s) : Reachable shell s := by
  induction h with
  | new => exact .new
  | step input _ _ h ih => exact ih.step h

theorem run_of_reachable (h : Reachable shell s) : Run shell (fun _ _ => True) s := by
  induction h with
  | new => exact .new
  | command line _ h ih => exact .step (.command line) ih trivial (by rw [step, h]; rfl)
  | clientCommand line _ h ih => exact .step (.clientCommand line) ih trivial (by rw [step, h]; rfl)
  | key scan text reverseFocus extended _ h ih => exact .step (.key scan text reverseFocus extended) ih trivial h
  | pointer packet _ h ih => exact .step (.pointer packet) ih trivial h
  | testWindow _ h ih => exact .step .testWindow ih trivial (by rw [step, h]; rfl)

def nextName (s : Compositor) : Str := "native".toList ++ (toString s.nextId).toList

/-- A test window would be opened under an id that is taken. -/
def Collides (s : Compositor) : Prop := s.windows.length < maxWindows ∧ s.nextName ∈ s.ids

def FreshNames (s : Compositor) (input : Input) : Prop := input = .testWindow → ¬s.Collides

theorem openTestWindow_cases (h : s.openTestWindow = .ok t) : (s.windows.length = maxWindows ∧ t = s) ∨
    s.windows.length ≠ maxWindows ∧ ∃ v : Window, v.id = s.nextName ∧ t.windows = s.windows ++ [v] := by
  unfold openTestWindow at h
  split at h
  · rename_i hfull
    cases h
    exact Or.inl ⟨hfull, rfl⟩
  · rename_i hfull
    obtain ⟨offset, -, h⟩ := bind_eq_ok h
    obtain ⟨x, -, h⟩ := bind_eq_ok h
    obtain ⟨y, -, h⟩ := bind_eq_ok h
    cases h
    exact Or.inr ⟨hfull, _, rfl, rfl⟩

theorem openTestWindow_returns (h : s.windows.length ≤ maxWindows) : ∃ t, s.openTestWindow = .ok t := by
  unfold maxWindows at h
  unfold openTestWindow
  split
  · exact ⟨_, rfl⟩
  · rw [i32_eq (by omega) (by omega), ok_bind, i32_eq (by omega) (by omega), i32_eq (by omega) (by omega)]
    exact ⟨_, rfl⟩

theorem Keeps.length_le (h : Keeps s t) : t.windows.length ≤ s.windows.length := by
  have hsub : t.ids.Subperm s.ids := List.subperm_ext_iff.mpr fun id _ => h id
  have hlen := hsub.length_le
  unfold ids at hlen
  rwa [List.length_map, List.length_map] at hlen

theorem Keeps.nodup (h : Keeps s t) (hs : s.ids.Nodup) : t.ids.Nodup :=
  List.nodup_iff_count_le_one.mpr fun id => Nat.le_trans (h id) (List.nodup_iff_count_le_one.mp hs id)

theorem length_append {v : Window} (h : t.windows = s.windows ++ [v]) : t.windows.length = s.windows.length + 1 := by
  rw [h, List.length_append, List.length_singleton]

theorem nodup_append {v : Window} (h : t.windows = s.windows ++ [v]) :
    t.ids.Nodup ↔ s.ids.Nodup ∧ v.id ∉ s.ids := by
  rw [ids_append h, List.nodup_append_comm, List.singleton_append, List.nodup_cons, and_comm]

/-- What one input does to the ids: none is new, or one is put at the end, by an `S|` line or as
the name of a test window. -/
theorem step_ids {action : Option Str} {events : List Client.Event} {input : Input}
    (h : s.step input = .ok (t, action, events)) : Keeps s t ∨ Adds s t ∨
      input = .testWindow ∧ s.windows.length ≠ maxWindows ∧
        ∃ v : Window, v.id = s.nextName ∧ t.windows = s.windows ++ [v] := by
  cases input with
  | command line =>
    obtain ⟨r, hr, h⟩ := bind_eq_ok h
    cases h
    exact (command_ids line r hr).imp_right Or.inl
  | clientCommand line =>
    obtain ⟨r, hr, h⟩ := bind_eq_ok h
    cases h
    exact Or.inl (keeps_of_windows (clientCommand_windows hr))
  | key scan text reverseFocus extended => exact Or.inl (keyScancode_framed _ _ _ _ _ h).keeps
  | pointer packet => exact Or.inl (pointerPacket_keeps h).1
  | testWindow =>
    obtain ⟨r, hr, h⟩ := bind_eq_ok h
    cases h
    rcases openTestWindow_cases hr with ⟨-, rfl⟩ | ⟨hroom, v, hid, hv⟩
    · exact Or.inl (keeps_of_windows rfl)
    · exact Or.inr (Or.inr ⟨rfl, hroom, v, hid, hv⟩)

theorem step_table {action : Option Str} {events : List Client.Event} {input : Input}
    (h : s.step input = .ok (t, action, events)) (hs : s.windows.length ≤ maxWindows) :
    t.windows.length ≤ maxWindows ∧ (s.FreshNames input → s.ids.Nodup → t.ids.Nodup) := by
  -- only the name of a test window is not checked against the table
  rcases step_ids h with hk | ⟨v, hv, hnew, hroom⟩ | ⟨htest, hroom, v, hid, hv⟩
  · exact ⟨Nat.le_trans hk.length_le hs, fun _ => hk.nodup⟩
  · exact ⟨length_append hv ▸ hroom, fun _ hn => (nodup_append hv).mpr ⟨hn, hnew⟩⟩
  · have hlt : s.windows.length < maxWindows := Nat.lt_of_le_of_ne hs hroom
    refine ⟨length_append hv ▸ hlt, fun hfresh hn => (nodup_append hv).mpr ⟨hn, fun hin => ?_⟩⟩
    exact hfresh htest ⟨hlt, hid ▸ hin⟩

theorem length_new (shell : List ShellSurface) : (new shell).windows.length ≤ maxWindows :=
  Nat.le_trans (List.length_filterMap_le _ _) (List.length_take_le _ _)

theorem Reachable.length_le (h : Reachable shell s) : s.windows.length ≤ maxWindows := by
  have hrun := run_of_reachable h
  clear h
  induction hrun with
  | new => exact length_new shell
  | step input _ _ h ih => exact (step_table h ih).1

theorem Run.nodup (hshell : (shell.map ShellSurface.id).Nodup) (h : Run shell FreshNames s) : s.ids.Nodup := by
  induction h with
  | new => exact hshell.sublist (ids_new_sublist shell)
  | step input hr hok h ih => exact (step_table h hr.reachable.length_le).2 hok ih

theorem Reachable.count_le (hshell : (shell.map ShellSurface.id).Nodup) (h : Reachable shell s) {id : Str}
    (hid : ∀ u : Compositor, u.nextName ≠ id) : s.ids.count id ≤ 1 := by
  have hrun := run_of_reachable h
  clear h
  have once : ∀ {s t : Compositor} {v : Window}, t.windows = s.windows ++ [v] → s.ids.count id ≤ 1 →
      (v.id = id → id ∉ s.ids) → t.ids.count id ≤ 1 := by
    intro s t v ht hs hnew
    rw [ids_append ht, List.count_append, List.count_singleton]
    by_cases he : v.id = id
    · rw [List.count_eq_zero.mpr (hnew he), if_pos (by simpa using he)]
    · rw [if_neg (by simpa using he)]
      exact hs
  induction hrun with
  | new => exact List.nodup_iff_count_le_one.mp (hshell.sublist (ids_new_sublist shell)) id
  | step input _ _ h ih =>
    rcases step_ids h with hk | ⟨v, hv, hnew, -⟩ | ⟨-, -, v, hname, hv⟩
    · exact Nat.le_trans (hk id) ih
    · exact once hv ih fun he => he ▸ hnew
    · exact once hv ih fun he => absurd (hname.symm.trans he) (hid _)

def hosted : Compositor :=
  { new [] with windows := [{ id := "native1".toList, role := .W, x := 0, y := 0, width := 100, height := 100,
                              title := "t".toList, rows := [], native := false, maximized := false,
                              minimized := false, scrollY := 0, restore := none }] }

theorem command_hosted : (new []).command "S|native1|W|0|0|100|100|t|".toList = .ok (hosted, true) := by
  decide +kernel

/-- The window table: never more than 16 windows, and distinct ids as long as no test window
is opened under an id that is taken; such a test window breaks it. -/
theorem window_table (hshell : (shell.map ShellSurface.id).Nodup) (h : Run shell FreshNames s) :
    s.windows.length ≤ 16 ∧ s.ids.Nodup ∧
      (s.Collides → ∃ t, s.openTestWindow = .ok t ∧ ¬t.ids.Nodup) := by
  refine ⟨h.reachable.length_le, h.nodup hshell, fun hc => ?_⟩
  obtain ⟨t, ht⟩ := openTestWindow_returns h.reachable.length_le
  refine ⟨t, ht, fun hn => ?_⟩
  rcases openTestWindow_cases ht with ⟨hfull, -⟩ | ⟨-, v, hid, hv⟩
  · exact absurd hfull (Nat.ne_of_lt hc.1)
  · exact ((nodup_append hv).mp hn).2 (hid ▸ hc.2)

theorem window_table_hosted : hosted.ids.Nodup ∧ hosted.Collides := by
  have hrun : Run [] FreshNames hosted := .step (.command "S|native1|W|0|0|100|100|t|".toList) .new nofun (by
    rw [step, command_hosted]
    rfl)
  exact ⟨(window_table (by decide) hrun).2.1, by decide, by decide⟩

/-- The host names a surface `native1`, then the first test window is opened. -/
theorem test_window_collides : ¬∀ shell s, (shell.map ShellSurface.id).Nodup → Reachable shell s →
    s.windows.length ≤ 16 ∧ s.ids.Nodup := by
  intro h
  obtain ⟨t, ht⟩ := openTestWindow_returns (s := hosted) (by decide)
  rcases openTestWindow_cases ht with ⟨hfull, -⟩ | ⟨-, v, hid, hv⟩
  · cases hfull
  · have hn := (h [] t (by decide) (.testWindow (.command _ .new command_hosted) ht)).2
    exact ((nodup_append hv).mp hn).2 (hid ▸ by decide)

end Compositor

end Pippin.Native
