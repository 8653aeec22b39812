import Pippin.Broker.Isolation

/-! The client windows of the guest as the broker's lines see them: which lines add a window
and which drop one. -/

namespace Pippin.Broker
open Checked Keyed Str
open Native (Compositor)
open Native.Compositor

/-- The closure of `poll_bridge`. The desktop opens with the first surface or client window;
`opened` is what `Desktop::open` returns. No command faults in a reachable state. -/
def pollCommand (opened desktop : Option Compositor) (line : Str) : Bool × Option Compositor :=
  let desktop := if desktop.isNone && ("S|".toList.isPrefixOf line || "WC|".toList.isPrefixOf line) then opened
    else desktop
  match desktop with
  | none => (false, none)
  | some s =>
    match s.desktopCommand line with
    | .ok (t, accepted, _) => (accepted, some t)
    | .error _ => (false, some s)

theorem pollCommand_keeps {Q : Compositor → Prop} {opened desktop : Option Compositor} {line : Str}
    (hopened : ∀ u, opened = some u → Q u) (h : ∀ s, desktop = some s → Q s)
    (hcommand : ∀ s, Q s → Ensures (s.desktopCommand line) fun r => Q r.1) :
    ∀ s, (pollCommand opened desktop line).2 = some s → Q s := by
  intro t ht
  unfold pollCommand at ht
  dsimp only at ht
  split at ht
  · cases ht
  · rename_i s hs
    have hQ : Q s := by
      split_ifs at hs
      · exact hopened s hs
      · exact h s hs
    split at ht
    · rename_i hcmd
      cases ht
      exact hcommand s hQ _ hcmd
    · cases ht
      exact hQ

def windowIds (desktop : Option Compositor) : List UInt32 := (desktop.map fun s => s.clients.ids).getD []

/-- The client windows are in a state of their server. -/
def Healthy (desktop : Option Compositor) : Prop := ∀ s, desktop = some s → s.clients.Reachable

structure Effect (desktop desktop' : Option Compositor) (line : Str) (accepted : Bool) : Prop where
  healthy : Healthy desktop'
  added : ∀ id ∈ windowIds desktop', id ∉ windowIds desktop →
    accepted = true ∧ creates line = true ∧ destroys line = false ∧ windowId line = some id
  dropped : accepted = true → destroys line = true → ∀ id, windowId line = some id → id ∉ windowIds desktop'

variable {s t : Compositor} {desktop desktop' opened : Option Compositor} {line : Str} {id : UInt32}

theorem effect_refl (h : Healthy desktop) : Effect desktop desktop line false :=
  ⟨h, fun _ hid hn => absurd hid hn, nofun⟩

theorem clientCommand_effect {accepted : Bool} {events : List Client.Event} (hs : s.clients.Reachable)
    (h : s.clientCommand line = .ok (t, accepted, events)) : Effect (some s) (some t) line accepted := by
  rcases clientCommand_cases h with ⟨-, rfl, rfl⟩ | ⟨hv, rfl, -, hc⟩
  · exact effect_refl fun _ he => Option.some.inj he ▸ hs
  · refine ⟨fun _ he => Option.some.inj he ▸ hs.command line hc, fun id hid hn => ?_, fun _ hd id hid => ?_⟩
    · obtain ⟨args, haddr⟩ := (((Client.WindowServer.command_yields hs.inv line).of_eq hc).2 id).1 hid hn
      exact ⟨rfl, (creates_of_address haddr).1, (creates_of_address haddr).2, windowId_of_address haddr⟩
    · obtain ⟨r, op, args, hread, haddr, rfl, hu⟩ := accepted_applies hs hv hc hid
      have hop := (destroys_line hd).2 op r.id args haddr
      subst hop
      cases hread with
      | destroy _ =>
        intro hmem
        obtain ⟨w, hw, hwid⟩ := Client.WindowServer.mem_ids.mp hmem
        rw [hu] at hw
        exact (mem_without.mp hw).2 hwid
      | create h' | unhide h' | hide h' | retitle h' | move h' | resize h' | setCursor h' | redraw h'
      | beginUpdate h' | write h' | endUpdate h' =>
        cases haddr.symm.trans h'

theorem desktopCommand_effect {accepted : Bool} {events : List Client.Event} (hs : s.clients.Reachable)
    (h : s.desktopCommand line = .ok (t, accepted, events)) : Effect (some s) (some t) line accepted := by
  unfold desktopCommand at h
  split at h
  · exact clientCommand_effect hs h
  · rename_i hW
    obtain ⟨⟨u, acc⟩, hr, h⟩ := bind_eq_ok h
    cases h
    have hclients : t.clients = s.clients := (command_held line _ hr).clients
    refine ⟨fun _ he => ?_, fun id hid hn => ?_, fun _ hd => ?_⟩
    · rw [← Option.some.inj he, hclients]
      exact hs
    · have hid : id ∈ t.clients.ids := hid
      rw [hclients] at hid
      exact absurd hid hn
    · obtain ⟨rest, rfl⟩ := (destroys_line hd).1
      exact (hW rest rfl).elim

theorem healthy_opened (hopened : ∀ u, opened = some u → u.clients = .new) (h : Healthy desktop) (opens : Bool) :
    Healthy (if desktop.isNone && opens then opened else desktop) ∧
      windowIds (if desktop.isNone && opens then opened else desktop) = windowIds desktop := by
  cases desktop with
  | some s => exact ⟨h, rfl⟩
  | none =>
    cases opens with
    | false => exact ⟨h, rfl⟩
    | true =>
      cases opened with
      | none => exact ⟨h, rfl⟩
      | some u =>
        have hu := hopened u rfl
        refine ⟨fun _ he => ?_, ?_⟩
        · rw [← Option.some.inj he, hu]
          exact .new
        · show u.clients.ids = []
          rw [hu]
          rfl

theorem pollCommand_effect (hopened : ∀ u, opened = some u → u.clients = .new) (h : Healthy desktop) :
    Effect desktop (pollCommand opened desktop line).2 line (pollCommand opened desktop line).1 := by
  obtain ⟨hhealthy, hids⟩ := healthy_opened hopened h ("S|".toList.isPrefixOf line || "WC|".toList.isPrefixOf line)
  unfold pollCommand
  dsimp only
  generalize (if desktop.isNone && ("S|".toList.isPrefixOf line || "WC|".toList.isPrefixOf line) then opened
    else desktop) = found at hhealthy hids
  have heffect : ∀ {d accepted}, Effect found d line accepted → Effect desktop d line accepted :=
    fun he => ⟨he.healthy, fun id hid hn => he.added id hid (hids ▸ hn), he.dropped⟩
  cases found with
  | none => exact heffect (effect_refl hhealthy)
  | some s =>
    dsimp only
    cases hr : s.desktopCommand line with
    | error e => exact heffect (effect_refl hhealthy)
    | ok r => exact heffect (desktopCommand_effect (hhealthy s rfl) hr)

def destroyLine (id : UInt32) : Str := "WD|".toList ++ decimal id.toNat

theorem address_destroyLine (h : id ≠ 0) : Client.address (destroyLine id) = some (some .WD, id, []) :=
  Client.address_bare h (by decide : '|' ∉ "WD".toList)

theorem validate_destroyLine (h : id ≠ 0) (hmem : id ∈ s.clients.ids) : s.clients.validate (destroyLine id) = true := by
  obtain ⟨w, hw, hid⟩ := Client.WindowServer.mem_ids.mp hmem
  have hfind : (s.clients.windows.find? fun w => w.id = id).isSome = true := by
    rw [List.find?_isSome]
    exact ⟨w, hw, by simpa using hid⟩
  obtain ⟨v, hv⟩ := Option.isSome_iff_exists.mp hfind
  unfold Client.WindowServer.validate
  rw [address_destroyLine h]
  dsimp only
  rw [hv]
  rfl

theorem pollCommand_destroyLine (hopened : ∀ u, opened = some u → u.clients = .new) (h : Healthy desktop)
    (hid : id ≠ 0) :
    id ∉ windowIds (pollCommand opened desktop (destroyLine id)).2 := by
  have heffect := @pollCommand_effect desktop opened (destroyLine id) hopened h
  cases hacc : (pollCommand opened desktop (destroyLine id)).1 with
  | true =>
    rw [hacc] at heffect
    exact heffect.dropped rfl rfl id (windowId_of_address (address_destroyLine hid))
  | false =>
    cases desktop with
    | none => exact List.not_mem_nil
    | some s =>
      intro hmem
      have hpoll : pollCommand opened (some s) (destroyLine id) = match s.clientCommand (destroyLine id) with
        | .ok (t, accepted, _) => (accepted, some t)
        | .error _ => (false, some s) := rfl
      have hmem' : id ∈ s.clients.ids := by
        by_contra hn
        have hadded := (heffect.added id hmem hn).1
        rw [hacc] at hadded
        cases hadded
      obtain ⟨r, hr, -⟩ := Client.WindowServer.command_yields (h s rfl).inv (destroyLine id)
      have hclient : s.clientCommand (destroyLine id) = .ok ({ s with clients := r.1 }, true, r.2) := by
        unfold clientCommand
        rw [if_neg (by simp [validate_destroyLine hid hmem']), hr]
        rfl
      rw [hpoll, hclient] at hacc
      cases hacc

end Pippin.Broker
