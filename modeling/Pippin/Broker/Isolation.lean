import Pippin.Broker.Bridge
import Pippin.Broker.Clients
import Pippin.Client.Buttons
import Pippin.Client.Protocol
import Pippin.Native.Surfaces

/-! What a client's line can change in the guest. The broker looks at the window id in the
second field, the guest at the first character: lines that do not start with `W` go to the
native compositor. -/

namespace Pippin.Broker
open Checked Keyed
open Native (Compositor)
open Native.Compositor
open Client.WindowServer (command_drops accepted_drops command_spares command_effect)

variable {s t : Compositor} {line : Str} {id : UInt32}

/-- `Desktop::command` behind the bridge. A fault stops the guest. -/
def guestCommand (s : Checked Compositor) (line : Str) : Bool × Checked Compositor :=
  match s >>= fun s => s.desktopCommand line with
  | .ok (t, accepted, _) => (accepted, .ok t)
  | .error e => (false, .error e)

def delivered (s : Compositor) (line : Str) : Checked Compositor :=
  if sendable line then (Bridge.feed guestCommand .new (.ok s) (line.bytes ++ [10])).2.1 else .ok s

/-- The native compositor is as before and so are the other client windows, in their order;
a press and a grab stay, or end with the window they are on. Focus and the place of the
window itself are free. -/
structure Confined (s t : Compositor) (id : UInt32) : Prop where
  native : { t with clients := s.clients } = s
  others : without Client.Window.id id t.clients.windows = without Client.Window.id id s.clients.windows
  pressed : t.clients.pressed = s.clients.pressed ∨
    t.clients.pressed = none ∧ ∀ a, s.clients.pressed = some a → a = id
  grab : t.clients.grab = s.clients.grab ∨ t.clients.grab = none ∧ ∀ g, s.clients.grab = some g → g.id = id

/-- Whoever sends the line: if it is forwarded, its change is confined to a window of the sender. -/
def Isolated (s : Compositor) (line : Str) : Prop :=
  ∀ (κ : Type) [DecidableEq κ] (owners owners' : Owners κ) (client : κ) (id : UInt32) (t : Compositor),
    checkOwner owners client line = (.forward id, owners') → delivered s line = .ok t →
    owners' id = some client ∧ Confined s t id

/-- The surface is on the screen as the line asks for it, or there is no room for it. -/
def Already (s : Compositor) : Surface → Prop
  | .wallpaper color => s.wallpaperBase = color
  | .window id role x y width height title rows =>
    match s.windows.findIdx? fun w => w.id = id with
    | none => Native.maxWindows ≤ s.windows.length
    | some index => ∀ w v, s.windows[index]? = some w →
      { w with role, x, y, width, height, title, rows, minimized := false }.clampScroll = .ok v →
      (∀ u ∈ s.windows.drop index, u = v) ∧ (∀ e ∈ s.edits, e.windowId ≠ id) ∧ s.repairFocusScope = s

/-- A line that cannot reach beyond the window it names. -/
def Inert (s : Compositor) (line : Str) : Prop :=
  match line with
  | 'W' :: _ => s.clients.validate line = true → ¬s.clients.Cancels line
  | 'R' :: '|' :: id => ∀ index w, s.windows.findIdx? (fun w => w.id = id) = some index →
      s.windows[index]? = some w →
      (∀ u ∈ s.windows.drop index, u = { w with minimized := false }) ∧ s.focusScope = w.scopeForWindow
  | 'M' :: '|' :: id => ∀ index w, s.windows.findIdx? (fun w => w.id = id) = some index →
      s.windows[index]? = some w → w.minimized = true ∧ s.repairFocusScope = s
  | 'X' :: '|' :: id => (∀ w ∈ s.windows, w.id ≠ id) ∧ (∀ e ∈ s.edits, e.windowId ≠ id) ∧
      (id = "wallpaper".toList → s.wallpaperBase = 0x001c5f91) ∧ s.repairFocusScope = s
  | 'S' :: '|' :: payload => ∀ surface, parseSurface payload = some surface → Already s surface
  | _ => True

theorem Confined.refl (s : Compositor) (id : UInt32) : Confined s s id := ⟨rfl, rfl, Or.inl rfl, Or.inl rfl⟩

/-! ## Over the line -/

theorem delivered_eq (hcr : '\r' ∉ line) (hlf : '\n' ∉ line) : delivered s line =
    if line.units ≤ 380 ∧ line.len ≤ 384 ∧ line ≠ "H|1".toList ∧ line ≠ "H|2".toList then
      (s.desktopCommand line).map Prod.fst else .ok s := by
  unfold delivered sendable
  by_cases hu : line.units ≤ 380
  · rw [if_pos (decide_eq_true hu), Bridge.feed_line hcr hlf]
    by_cases hl : line.len ≤ 384
    · rw [if_pos (show line.len ≤ maxLine from hl)]
      unfold Bridge.answer
      by_cases h1 : line = "H|1".toList
      · rw [if_pos h1, if_neg (by simp [h1])]
      · by_cases h2 : line = "H|2".toList
        · rw [if_neg h1, if_pos h2, if_neg (by simp [h2])]
        · rw [if_neg h1, if_neg h2, if_pos ⟨hu, hl, h1, h2⟩]
          unfold guestCommand
          rw [ok_bind]
          cases s.desktopCommand line with
          | error e => rfl
          | ok r =>
            obtain ⟨t, accepted, events⟩ := r
            cases accepted <;> rfl
    · rw [if_neg (show ¬line.len ≤ maxLine from hl), if_neg fun h => hl h.2.1]
  · rw [if_neg (by simpa using hu), if_neg fun h => hu h.1]

/-! ## Client commands -/

theorem reads_address {r : Client.Request} (h : Client.Reads line r) :
    ∃ op args, Client.address line = some (op, r.id, args) := by
  cases h with
  | create h | destroy h | unhide h | hide h | retitle h | move h | resize h | setCursor h | redraw h
  | beginUpdate h | write h | endUpdate h => exact ⟨_, _, h⟩

theorem accepted_applies {c : Client.WindowServer} {events : List Client.Event} (hs : s.clients.Reachable)
    (hv : s.clients.validate line = true) (hc : s.clients.command line = .ok (c, events))
    (hid : windowId line = some id) :
    ∃ r op args, Client.Reads line r ∧ Client.address line = some (op, r.id, args) ∧ r.id = id ∧
      c.windows = r.apply s.clients.windows := by
  obtain ⟨r, hread, hallow⟩ := Client.validate_reads hv
  obtain ⟨u, events', hc', hu⟩ := Client.command_applies hs.inv hread hallow
  rw [hc] at hc'
  cases hc'
  obtain ⟨op, args, haddr⟩ := reads_address hread
  exact ⟨r, op, args, hread, haddr, Option.some.inj ((windowId_of_address haddr).symm.trans hid), hu⟩

/-- An accepted command keeps to its window, unless it is a `WD` that ends the press or the
grab of another one. -/
theorem clientCommand_confined {accepted : Bool} {events : List Client.Event} (hs : s.clients.Reachable)
    (hid : windowId line = some id) (h : s.clientCommand line = .ok (t, accepted, events)) :
    Confined s t id ↔ (s.clients.validate line = true → ¬s.clients.Cancels line) := by
  rcases clientCommand_cases h with ⟨hv, rfl, -⟩ | ⟨hv, -, ht, hc⟩
  · rw [hv]
    exact ⟨fun _ => nofun, fun _ => Confined.refl t id⟩
  · obtain ⟨r, op, args, hread, haddr, rfl, hu⟩ := accepted_applies hs hv hc hid
    rw [forall_prop_of_true hv]
    constructor
    · rintro hconf ⟨a, args', haddr', hheld⟩
      rw [haddr] at haddr'
      cases haddr'
      obtain ⟨hp, hg⟩ := command_drops hs.inv hc (accepted_drops hv haddr)
      rcases hheld with ⟨b, hb, hne⟩ | ⟨g, hb, hne⟩
      · rcases hconf.pressed with he | ⟨-, hown⟩
        · cases hp.symm.trans (he.trans hb)
        · exact hne (hown b hb)
      · rcases hconf.grab with he | ⟨-, hown⟩
        · cases hg.symm.trans (he.trans hb)
        · exact hne (hown g hb)
    · intro hfree
      have hothers := hu ▸ r.without_apply s.clients.windows
      by_cases hd : s.clients.Drops line
      · obtain ⟨hp, hg⟩ := command_drops hs.inv hc hd
        obtain ⟨a, args', haddr', -⟩ := hd
        rw [haddr] at haddr'
        cases haddr'
        refine ⟨by rw [ht], hothers, Or.inr ⟨hp, fun b hb => ?_⟩, Or.inr ⟨hg, fun g hb => ?_⟩⟩
        · by_contra hne
          exact hfree ⟨r.id, args, haddr, Or.inl ⟨b, hb, hne⟩⟩
        · by_contra hne
          exact hfree ⟨r.id, args, haddr, Or.inr ⟨g, hb, hne⟩⟩
      · obtain ⟨hp, hg⟩ := command_spares ((command_effect hs.inv line).of_eq hc) hd
        exact ⟨by rw [ht], hothers, Or.inl hp, Or.inl hg⟩

/-! ## Native commands -/

theorem append_singleton_eq_cons {α : Type} {x v : α} {l : List α} :
    l ++ [v] = x :: l ↔ ∀ u ∈ x :: l, u = v := by
  induction l generalizing x with
  | nil => simp [eq_comm]
  | cons y l ih =>
    rw [List.cons_append, List.cons.injEq, ih]
    constructor
    · rintro ⟨rfl, h⟩
      exact List.forall_mem_cons.mpr ⟨h y List.mem_cons_self, h⟩
    · intro h
      obtain ⟨hx, h⟩ := List.forall_mem_cons.mp h
      exact ⟨(h y List.mem_cons_self).trans hx.symm, h⟩

theorem eraseIdx_append_eq_self {α : Type} {l : List α} {i : Nat} {v : α} (hi : i < l.length) :
    l.eraseIdx i ++ [v] = l ↔ ∀ u ∈ l.drop i, u = v := by
  conv_lhs => rhs; rw [← List.take_append_drop i l]
  rw [List.eraseIdx_eq_take_drop_succ, List.append_assoc, List.append_cancel_left_eq, List.drop_eq_getElem_cons hi]
  exact append_singleton_eq_cons

theorem modify_eq_self {α : Type} {l : List α} {i : Nat} {a : α} {f : α → α} (h : l[i]? = some a) :
    l.modify i f = l ↔ f a = a := by
  constructor
  · intro he
    have hi := congrArg (fun l => l[i]?) he
    simp only [List.getElem?_modify_eq, h] at hi
    exact Option.some.inj hi
  · intro he
    refine List.ext_getElem? fun j => ?_
    rw [List.getElem?_modify]
    split
    · rename_i hj
      subst hj
      rw [h]
      exact congrArg some he
    · exact Option.map_id'

theorem repairFocusScope_eq (s : Compositor) : ∃ focusScope focusedControl,
    s.repairFocusScope = { s with focusScope, focusedControl } := by
  have hscope : ∀ scope, ∃ focusScope focusedControl,
      s.setFocusScope scope = { s with focusScope, focusedControl } := by
    intro scope
    unfold setFocusScope
    split <;> exact ⟨_, _, rfl⟩
  unfold repairFocusScope
  dsimp only
  split_ifs
  · exact ⟨_, _, rfl⟩
  · exact ⟨_, _, rfl⟩
  · exact hscope _
  · obtain ⟨_, _, he⟩ := hscope (((s.windows.reverse.find? fun w => !w.minimized && w.role.framed).map
      Native.Window.scopeForWindow).getD .Desktop)
    rw [he]
    exact ⟨_, _, rfl⟩

theorem repair_eq_self {u : Compositor} : u.repairFocusScope = s ↔ u.windows = s.windows ∧ u.edits = s.edits ∧
    u.wallpaperBase = s.wallpaperBase ∧
    repairFocusScope { u with windows := s.windows, edits := s.edits, wallpaperBase := s.wallpaperBase } = s := by
  obtain ⟨scope, focused, he⟩ := repairFocusScope_eq u
  constructor
  · intro h
    rw [he] at h
    have h1 : u.windows = s.windows := by rw [← h]
    have h2 : u.edits = s.edits := by rw [← h]
    have h3 : u.wallpaperBase = s.wallpaperBase := by rw [← h]
    refine ⟨h1, h2, h3, ?_⟩
    rw [← h1, ← h2, ← h3, ← h, ← he]
  · rintro ⟨h1, h2, h3, h⟩
    rwa [← h1, ← h2, ← h3] at h

theorem findIdx?_getElem? {nid : Str} {index : Nat} (h : s.windows.findIdx? (fun w => w.id = nid) = some index) :
    ∃ w, s.windows[index]? = some w := by
  obtain ⟨hi, -⟩ := List.findIdx?_eq_some_iff_findIdx_eq.mp h
  exact ⟨_, List.getElem?_eq_getElem hi⟩

theorem setFocusScope_eq_self {u : Compositor} {scope : Native.FocusScope} (hu : u.windows = s.windows → u = s) :
    u.setFocusScope scope = s ↔ u.windows = s.windows ∧ s.focusScope = scope := by
  constructor
  · intro h
    have hw : u.windows = s.windows := by rw [← h, setFocusScope_windows]
    refine ⟨hw, ?_⟩
    obtain rfl := hu hw
    by_contra hne
    unfold setFocusScope at h
    rw [if_pos hne] at h
    exact hne (by rw [← h])
  · rintro ⟨hw, hscope⟩
    obtain rfl := hu hw
    unfold setFocusScope
    rw [if_neg (not_not.mpr hscope)]

theorem restoreCommand_inert (nid : Str) : Yields (s.restoreCommand nid) fun t => t = s ↔
    ∀ index w, s.windows.findIdx? (fun w => w.id = nid) = some index → s.windows[index]? = some w →
      (∀ u ∈ s.windows.drop index, u = { w with minimized := false }) ∧ s.focusScope = w.scopeForWindow := by
  unfold restoreCommand
  cases hfind : s.windows.findIdx? fun w => w.id = nid with
  | none => exact yields_ok ⟨fun _ _ _ h => absurd h (by simp), fun _ => rfl⟩
  | some index =>
    obtain ⟨w, hw⟩ := findIdx?_getElem? hfind
    have hi := (List.getElem?_eq_some_iff.mp hw).1
    dsimp only
    rw [remove_eq hw]
    refine yields_ok ?_
    have hself : ∀ ws, ws = s.windows → { s with windows := ws } = s := by
      rintro ws rfl
      rfl
    rw [setFocusScope_eq_self (hself _), eraseIdx_append_eq_self hi]
    constructor
    · rintro h _ v ⟨⟩ hv
      rw [hw] at hv
      cases hv
      exact h
    · exact fun h => h index w rfl hw

theorem minimizeCommand_inert (nid : Str) : Yields (s.minimizeCommand nid) fun t => t = s ↔
    ∀ index w, s.windows.findIdx? (fun w => w.id = nid) = some index → s.windows[index]? = some w →
      w.minimized = true ∧ s.repairFocusScope = s := by
  unfold minimizeCommand
  cases hfind : s.windows.findIdx? fun w => w.id = nid with
  | none => exact yields_ok ⟨fun _ _ _ h => absurd h (by simp), fun _ => rfl⟩
  | some index =>
    obtain ⟨w, hw⟩ := findIdx?_getElem? hfind
    have hi := (List.getElem?_eq_some_iff.mp hw).1
    dsimp only
    rw [modify_eq _ hi]
    refine yields_ok ?_
    have hmod : s.windows.modify index (fun w => { w with minimized := true }) = s.windows ↔ w.minimized = true := by
      rw [modify_eq_self hw]
      exact ⟨fun h => by rw [← h], fun h => by rw [← h]⟩
    rw [repair_eq_self]
    constructor
    · rintro ⟨h, -, -, hrep⟩ _ v ⟨⟩ hv
      rw [hw] at hv
      cases hv
      exact ⟨hmod.mp h, hrep⟩
    · intro h
      obtain ⟨hmin, hrep⟩ := h index w rfl hw
      exact ⟨hmod.mpr hmin, rfl, rfl, hrep⟩

theorem closeCommand_inert (nid : Str) : s.closeCommand nid = s ↔ (∀ w ∈ s.windows, w.id ≠ nid) ∧
    (∀ e ∈ s.edits, e.windowId ≠ nid) ∧ (nid = "wallpaper".toList → s.wallpaperBase = 0x001c5f91) ∧
    s.repairFocusScope = s := by
  unfold closeCommand
  rw [repair_eq_self]
  dsimp only
  rw [List.filter_eq_self, List.filter_eq_self]
  refine and_congr (by simp) (and_congr (by simp) (and_congr ?_ Iff.rfl))
  split
  · rename_i h
    exact ⟨fun he _ => he.symm, fun he => (he h).symm⟩
  · rename_i h
    exact ⟨fun _ h' => absurd h' h, fun _ => rfl⟩

theorem clampScroll_yields {w : Native.Window} (hw : 30 ≤ w.height ∧ w.height ≤ 768) :
    Yields w.clampScroll fun _ => True := by
  have hmax : Yields w.maxScroll fun _ => True := by
    unfold Native.Window.maxScroll
    split
    · exact yields_ok trivial
    · rw [i32_eq (by omega) (by omega)]
      exact yields_ok trivial
  exact hmax.bind fun _ _ => yields_ok trivial

theorem surfaceCommand_inert (surface : Surface) (hsize : ∀ id role x y width height title rows,
      surface = .window id role x y width height title rows → 30 ≤ height ∧ height ≤ 768) :
    Yields (s.surfaceCommand surface) fun r => (∀ t, r = some t → t = s) ↔ Already s surface := by
  cases surface with
  | wallpaper color =>
    refine yields_ok ⟨fun h => ?_, ?_⟩
    · show s.wallpaperBase = color
      rw [← h _ rfl]
    · rintro (h : s.wallpaperBase = color) t ⟨⟩
      rw [← h]
  | window nid role x y width height title rows =>
    unfold surfaceCommand Already
    dsimp only
    cases hfind : s.windows.findIdx? fun w => w.id = nid with
    | none =>
      dsimp only
      split
      · rename_i hfull
        exact yields_ok ⟨fun _ => hfull, by rintro - t ⟨⟩⟩
      · rename_i hroom
        refine yields_ok ⟨fun h => ?_, fun h => absurd h hroom⟩
        have hwin := congrArg Compositor.windows (h _ rfl)
        rw [repairFocusScope_windows] at hwin
        exact absurd (congrArg List.length hwin) (by simp)
    | some index =>
      obtain ⟨w, hw⟩ := findIdx?_getElem? hfind
      have hi := (List.getElem?_eq_some_iff.mp hw).1
      dsimp only
      rw [remove_eq hw]
      obtain ⟨v, hv, -⟩ := clampScroll_yields
        (w := { w with role, x, y, width, height, title, rows, minimized := false }) (hsize _ _ _ _ _ _ _ _ rfl)
      rw [ok_bind]
      dsimp only
      rw [hv]
      refine yields_ok ?_
      have hedits : (s.edits.filter fun e => e.windowId ≠ nid) = s.edits ↔ ∀ e ∈ s.edits, e.windowId ≠ nid := by
        rw [List.filter_eq_self]
        simp
      -- replacing a surface changes nothing only if it was on top, alike and had no text state
      have hsame := repair_eq_self (s := s)
        (u := { s with windows := s.windows.eraseIdx index ++ [v], edits := s.edits.filter fun e => e.windowId ≠ nid })
      constructor
      · intro h u v' hu hv'
        rw [hw] at hu
        cases hu
        cases hv.symm.trans hv'
        obtain ⟨h1, h2, -, h3⟩ := hsame.mp (h _ rfl)
        exact ⟨(eraseIdx_append_eq_self hi).mp h1, hedits.mp h2, h3⟩
      · rintro h t ⟨⟩
        obtain ⟨h1, h2, h3⟩ := h w v hw hv
        exact hsame.mpr ⟨(eraseIdx_append_eq_self hi).mpr h1, hedits.mpr h2, rfl, h3⟩

theorem surfaceLine_inert (payload : Str) : Yields (s.command ('S' :: '|' :: payload)) fun r => r.1 = s ↔
    ∀ surface, parseSurface payload = some surface → Already s surface := by
  rw [command_surfaceLine]
  cases hp : parseSurface payload with
  | none => exact yields_ok ⟨fun _ _ h => absurd h.symm (Option.some_ne_none _), fun _ => rfl⟩
  | some surface =>
    have hall : (∀ surface', some surface = some surface' → Already s surface') ↔ Already s surface :=
      ⟨fun h => h surface rfl, fun h _ he => Option.some.inj he ▸ h⟩
    rw [hall]
    refine (surfaceCommand_inert surface ?_).bind fun r hr => ?_
    · rintro _ _ _ _ _ _ _ _ rfl
      obtain ⟨-, -, -, -, hlo, -, hhi⟩ := parseSurface_reads hp
      exact ⟨hlo, hhi⟩
    · cases r with
      | none => exact yields_ok ⟨fun _ => hr.mp fun _ h => absurd h.symm (Option.some_ne_none _), fun _ => rfl⟩
      | some t => exact yields_ok ⟨fun h => hr.mp fun _ he => Option.some.inj he ▸ h, fun h => hr.mpr h t rfl⟩

theorem command_inert (hW : ∀ rest, line ≠ 'W' :: rest) :
    Yields (s.command line) fun r => r.1 = s ↔ Inert s line := by
  unfold Inert
  split
  · exact absurd rfl (hW _)
  · exact (restoreCommand_inert _).bind fun t ht => yields_ok ht
  · exact (minimizeCommand_inert _).bind fun t ht => yields_ok ht
  · exact yields_ok (closeCommand_inert _)
  · exact surfaceLine_inert _
  · rename_i hR hM hX hS
    have hnone : s.command line = .ok (s, false) := by
      unfold command
      split
      · exact (hR _ rfl).elim
      · exact (hM _ rfl).elim
      · exact (hX _ rfl).elim
      · exact (hS _ rfl).elim
      · rfl
    rw [hnone]
    exact yields_ok ⟨fun _ => trivial, fun _ => rfl⟩

theorem confined_iff_eq (hc : t.clients = s.clients) : Confined s t id ↔ t = s := by
  constructor
  · intro h
    rw [← h.native, ← hc]
  · rintro rfl
    exact Confined.refl t id

/-! ## Both -/

theorem desktopCommand_confined (hs : s.clients.Reachable) (hid : windowId line = some id) :
    Yields (s.desktopCommand line) fun r => Confined s r.1 id ↔ Inert s line := by
  unfold desktopCommand
  split
  · rename_i rest
    have hrun : Yields (s.clientCommand ('W' :: rest)) fun _ => True := by
      unfold clientCommand
      split
      · exact yields_ok trivial
      · exact (Client.WindowServer.command_yields hs.inv _).bind fun _ _ => yields_ok trivial
    obtain ⟨⟨t, accepted, events⟩, hr, -⟩ := hrun
    rw [hr]
    exact yields_ok (clientCommand_confined hs hid hr)
  · rename_i hW
    obtain ⟨⟨t, accepted⟩, hr, ht⟩ := command_inert (s := s) fun rest h => hW rest h
    rw [hr]
    exact yields_ok ((confined_iff_eq (command_held line _ hr).clients).trans ht)

theorem exists_checkOwner (hid : windowId line = some id) : ∃ owners',
    checkOwner (fun _ => if creates line then none else some ()) () line = (.forward id, owners') := by
  unfold checkOwner
  rw [hid]
  cases creates line with
  | true => exact ⟨_, rfl⟩
  | false => exact ⟨_, rfl⟩

/-- Client isolation: a line keeps to the sender's window exactly when it is not delivered or
is inert. -/
theorem client_isolation {shell : List Native.ShellSurface} (hs : Reachable shell s)
    (hcr : '\r' ∉ line) (hlf : '\n' ∉ line) :
    Isolated s line ↔ windowId line = none ∨ 380 < line.units ∨ 384 < line.len ∨ Inert s line := by
  constructor
  · intro h
    by_contra hno
    simp only [not_or, Nat.not_lt] at hno
    obtain ⟨hsome, hu, hl, hinert⟩ := hno
    obtain ⟨id, hid⟩ := Option.ne_none_iff_exists'.mp hsome
    -- The handshakes of the bridge are inert, so the line reaches `Desktop::command`.
    have hhand : line ≠ "H|1".toList ∧ line ≠ "H|2".toList :=
      ⟨fun he => hinert (he ▸ trivial), fun he => hinert (he ▸ trivial)⟩
    obtain ⟨r, hr, hconf⟩ := desktopCommand_confined hs.clients hid
    obtain ⟨owners', hcheck⟩ := exists_checkOwner hid
    have hdel : delivered s line = .ok r.1 := by
      rw [delivered_eq hcr hlf, if_pos ⟨hu, hl, hhand⟩, hr]
      rfl
    exact hinert (hconf.mp (h Unit _ owners' () id r.1 hcheck hdel).2)
  · intro h κ _ owners owners' client id t hcheck hdel
    obtain ⟨hid, hown, -, -⟩ := checkOwner_forward hcheck
    refine ⟨hown, ?_⟩
    rw [delivered_eq hcr hlf] at hdel
    split at hdel
    · rename_i hlive
      have hinert : Inert s line := by
        rcases h with h | h | h | h
        · rw [hid] at h
          cases h
        · exact absurd hlive.1 (Nat.not_le.mpr h)
        · exact absurd hlive.2.1 (Nat.not_le.mpr h)
        · exact h
      obtain ⟨r, hr, hconf⟩ := desktopCommand_confined hs.clients hid
      rw [hr] at hdel
      cases hdel
      exact hconf.mpr hinert
    · cases hdel
      exact Confined.refl s id

def oneClient : Compositor := { new [] with clients := Client.WindowServer.single }

theorem clientCommand_oneClient : (new []).clientCommand "WC|1|0|0|80|50|a".toList =
    .ok (oneClient, true, [⟨1, .WindowCreated, 0, 0⟩, ⟨1, .Redraw, 80, 50⟩]) := by
  unfold clientCommand
  rw [if_neg (by decide +kernel), show (new []).clients = .new from rfl, Client.WindowServer.command_single]
  rfl

theorem reachable_oneClient : Reachable [] oneClient := .clientCommand _ .new clientCommand_oneClient

theorem client_isolation_show : Isolated oneClient "WS|1".toList :=
  (client_isolation reachable_oneClient (by decide) (by decide)).mpr
    (Or.inr (Or.inr (Or.inr fun _ => Client.WindowServer.not_cancels (by decide))))

theorem wallpaper_reached : Reachable [] oneClient ∧ ¬Isolated oneClient "S|1|B|0|0|0|0|#ff0000|x".toList := by
  refine ⟨reachable_oneClient, fun h => ?_⟩
  have hid : windowId "S|1|B|0|0|0|0|#ff0000|x".toList = some 1 := by decide +kernel
  obtain ⟨owners', hcheck⟩ := exists_checkOwner hid
  have hdel : delivered oneClient "S|1|B|0|0|0|0|#ff0000|x".toList =
      .ok { oneClient with wallpaperBase := 0xff0000 } := by
    rw [delivered_eq (by decide +kernel) (by decide +kernel), if_pos (by decide +kernel)]
    decide +kernel
  have hnative := (h Unit _ owners' () 1 _ hcheck hdel).2.native
  exact absurd (congrArg Compositor.wallpaperBase hnative) (by decide)

end Pippin.Broker
