import Pippin.Client.Focus
import Pippin.Client.Protocol

/-! Mouse buttons. A session feeds each packet the button state of the packet before it,
and carries the window that still waits for its release. -/

namespace Pippin.Client
open Checked Keyed

def targets (kind : EventKind) (events : List Event) : List UInt32 :=
  (events.filter fun e => e.kind = kind).map Event.id

theorem targets_append (kind : EventKind) (es fs : List Event) :
    targets kind (es ++ fs) = targets kind es ++ targets kind fs := by
  unfold targets
  rw [List.filter_append, List.map_append]

theorem targets_eq_nil {kind : EventKind} {events : List Event} (h : ∀ e ∈ events, e.kind ≠ kind) :
    targets kind events = [] := by
  unfold targets
  rw [List.filter_eq_nil_iff.mpr fun e he => by simpa using h e he]
  rfl

namespace WindowServer

variable {s t : WindowServer} {w : Window} {id : UInt32} {x y : Int} {line : Str} {events : List Event}
  {left wasLeft owned : Bool} {waiting : Option UInt32}

/-- Whether the line destroys the window `id`. -/
def destroys (line : Str) (id : UInt32) : Bool :=
  match address line with
  | some (some .WD, i, _) => i = id
  | _ => false

/-- Sessions of accepted commands that all satisfy `ok` and of on-screen packets: the
server, the last button state and the window that waits for its release. -/
inductive Session (ok : WindowServer → Str → Prop) : WindowServer → Bool → Option UInt32 → Prop where
  | new : Session ok new false none
  | command {s t : WindowServer} {left : Bool} {waiting : Option UInt32} {events : List Event} (line : Str)
      (hs : Session ok s left waiting) (hv : s.validate line = true) (hl : ok s line)
      (h : s.command line = .ok (t, events)) : Session ok t left (waiting.filter fun a => !destroys line a)
  | pointer {s t : WindowServer} {wasLeft owned : Bool} {waiting : Option UInt32} {events : List Event} {x y : Int}
      (left : Bool) (hs : Session ok s wasLeft waiting) (hx : 0 ≤ x ∧ x ≤ 1023) (hy : 0 ≤ y ∧ y ≤ 767)
      (h : s.pointer x y left wasLeft = .ok (owned, t, events)) :
      Session ok t left (if left then (targets .MouseDown events).getLast?.or waiting else none)

/-- The next packet sends the release that is waited for, at the packet that releases the
button and at no other, and a press only while none is waited for. -/
def Paired (s : WindowServer) (wasLeft : Bool) (waiting : Option UInt32) : Prop :=
  ∀ x y left owned t events, 0 ≤ x ∧ x ≤ 1023 → 0 ≤ y ∧ y ≤ 767 →
    s.pointer x y left wasLeft = .ok (owned, t, events) →
    targets .MouseUp events = (if wasLeft && !left then waiting.toList else []) ∧
    (targets .MouseDown events = [] ∨ waiting = none ∧ left = true ∧ ∃ a, targets .MouseDown events = [a])

/-- A command leaves the press and the grab of every window but its own alone. -/
def LeavesOthers (s t : WindowServer) (line : Str) : Prop :=
  ∀ op id args, address line = some (op, id, args) → (∀ a, s.pressed = some a → a ≠ id → t.pressed = some a) ∧
    ∀ g, s.grab = some g → g.id ≠ id → t.grab = some g

/-- `WD` of a window while another one is pressed or grabbed. -/
def Cancels (s : WindowServer) (line : Str) : Prop := ∃ id args, address line = some (some .WD, id, args) ∧
  ((∃ a, s.pressed = some a ∧ a ≠ id) ∨ ∃ g, s.grab = some g ∧ g.id ≠ id)

/-- The pressed window is the one waiting, and nothing is held while the button is up. -/
structure Held (s : WindowServer) (left : Bool) (waiting : Option UInt32) : Prop where
  pressed : s.pressed = waiting
  up : left = false → s.pressed = none ∧ s.grab = none

theorem targets_geometry {kind : EventKind} (hk : kind = .MouseUp ∨ kind = .MouseDown) (h : Geometry id events) :
    targets kind events = [] := by
  refine targets_eq_nil fun e he => ?_
  rcases (h e he).2 with h | h | h <;> rcases hk with rfl | rfl <;> simp [h]

theorem targets_focusEvents {kind : EventKind} (hk : kind = .MouseUp ∨ kind = .MouseDown) :
    targets kind (s.focusEvents id) = [] := by
  refine targets_eq_nil fun e he => ?_
  rcases focusEvents_kind he with h | h <;> rcases hk with rfl | rfl <;> simp [h]

theorem targets_press {grab : Option Grab} {pressed : Option UInt32} (hs : s.pressed = none)
    (hp : PressEffect s w x y grab pressed events) :
    targets .MouseUp events = [] ∧ targets .MouseDown events = pressed.toList := by
  cases hp with
  | down lx ly => exact ⟨rfl, rfl⟩
  | close => exact ⟨rfl, by rw [hs]; rfl⟩
  | move => exact ⟨rfl, by rw [hs]; rfl⟩
  | resize => exact ⟨rfl, by rw [hs]; rfl⟩
  | frame => exact ⟨rfl, by rw [hs]; rfl⟩

/-- One packet: the release that is waited for comes with the button, and only then. -/
theorem Held.packet (h : Held s wasLeft waiting) (he : PointerEffect s x y left wasLeft owned t events) :
    Held t left (if left then (targets .MouseDown events).getLast?.or waiting else none) ∧
    targets .MouseUp events = (if wasLeft && !left then waiting.toList else []) ∧
    (targets .MouseDown events = [] ∨ waiting = none ∧ left = true ∧ ∃ a, targets .MouseDown events = [a]) := by
  cases he with
  | drag hg hf hev =>
    rw [targets_geometry (Or.inl rfl) hev, targets_geometry (Or.inr rfl) hev]
    refine ⟨⟨h.pressed, nofun⟩, ?_, Or.inl rfl⟩
    simp
  | @press w grab pressed events hg hw hc hp =>
    obtain ⟨hp0, -⟩ := h.up rfl
    obtain ⟨hups, hdowns⟩ := targets_press hp0 hp
    have hw0 : waiting = none := h.pressed.symm.trans hp0
    rw [targets_append, targets_append, targets_focusEvents (Or.inl rfl), targets_focusEvents (Or.inr rfl),
      List.nil_append, List.nil_append, hups, hdowns, hw0]
    refine ⟨⟨?_, nofun⟩, rfl, ?_⟩
    · cases pressed <;> rfl
    · cases pressed with
      | none => exact Or.inl rfl
      | some a => exact Or.inr ⟨rfl, rfl, a, rfl⟩
  | outside hg => exact ⟨⟨h.pressed, nofun⟩, rfl, Or.inl rfl⟩
  | release hw hp =>
    rw [← h.pressed, hp]
    exact ⟨⟨rfl, fun _ => ⟨rfl, rfl⟩⟩, rfl, Or.inl rfl⟩
  | @hover left wasLeft owned events hl hr hev =>
    have hups : targets .MouseUp events = [] := targets_eq_nil fun e he => by simp [(hev e he).1]
    have hdowns : targets .MouseDown events = [] := targets_eq_nil fun e he => by simp [(hev e he).1]
    rw [hups, hdowns]
    cases left with
    | true => exact ⟨⟨h.pressed, nofun⟩, by simp, Or.inl rfl⟩
    | false =>
      have hp0 : s.pressed = none := by
        cases wasLeft with
        | true => exact hr rfl rfl
        | false => exact (h.up rfl).1
      have hw0 : waiting = none := h.pressed.symm.trans hp0
      refine ⟨⟨hp0, fun _ => ⟨hp0, rfl⟩⟩, ?_, Or.inl rfl⟩
      simp [hw0]

theorem destroys_iff {a : UInt32} : destroys line a = true ↔ ∃ args, address line = some (some .WD, a, args) := by
  unfold destroys
  split
  · rename_i i args h
    simp [h]
  · rename_i h
    simp only [Bool.false_eq_true, false_iff, not_exists]
    exact h a

def Drops (s : WindowServer) (line : Str) : Prop :=
  ∃ id args, address line = some (some .WD, id, args) ∧ id ∈ s.ids

theorem command_drops (hs : s.Inv) (hc : s.command line = .ok (t, events)) (hd : s.Drops line) :
    t.pressed = none ∧ t.grab = none := by
  obtain ⟨id, args, haddr, hid⟩ := hd
  obtain ⟨index, w, hw, rfl, he⟩ := command_execute haddr nofun hid
  have hd : s.command line = s.destroy w.id index := he
  rw [hc, destroy_eq hs hw] at hd
  cases hd
  exact ⟨rfl, rfl⟩

theorem command_spares (he : CommandEffect s line t events) (hd : ¬s.Drops line) :
    t.pressed = s.pressed ∧ t.grab = s.grab := by
  cases he with
  | destroy haddr hw => exact absurd ⟨_, _, haddr, mem_ids.mpr ⟨_, hw, rfl⟩⟩ hd
  | keep | create | unhide | hide | change => exact ⟨rfl, rfl⟩

theorem Held.command (h : Held s left waiting) (hs : s.Inv) (hc : s.command line = .ok (t, events))
    (hl : ¬s.Cancels line) : Held t left (waiting.filter fun a => !destroys line a) := by
  by_cases hd : s.Drops line
  · obtain ⟨hp, hg⟩ := command_drops hs hc hd
    obtain ⟨id, args, haddr, hid⟩ := hd
    refine ⟨hp.trans ?_, fun _ => ⟨hp, hg⟩⟩
    cases hwait : waiting with
    | none => rfl
    | some a =>
      obtain rfl : a = id := by
        by_contra hne
        exact hl ⟨id, args, haddr, Or.inl ⟨a, h.pressed.trans hwait, hne⟩⟩
      rw [Option.filter_some, destroys_iff.mpr ⟨args, haddr⟩]
      rfl
  · obtain ⟨hp, hg⟩ := command_spares ((command_effect hs line).of_eq hc) hd
    refine ⟨?_, fun hup => ?_⟩
    · rw [hp, h.pressed]
      cases hwait : waiting with
      | none => rfl
      | some a =>
        have hkeep : destroys line a = false := by
          rw [Bool.eq_false_iff]
          intro ha
          obtain ⟨args, haddr⟩ := destroys_iff.mp ha
          exact hd ⟨a, args, haddr, hs.pressed a (h.pressed.trans hwait)⟩
        rw [Option.filter_some, hkeep]
        rfl
    · rw [hp, hg]
      exact h.up hup

theorem accepted_drops {args : List Str} (hv : s.validate line = true)
    (haddr : address line = some (some .WD, id, args)) : s.Drops line := by
  obtain ⟨r, hread, hallow⟩ := validate_reads hv
  cases hread with
  | destroy h => exact ⟨_, _, h, hallow⟩
  | create h | unhide h | hide h | retitle h | move h | resize h | setCursor h | redraw h | beginUpdate h
  | write h | endUpdate h =>
    rw [haddr] at h
    cases h

theorem leavesOthers_iff (hs : s.Inv) (hv : s.validate line = true) (hc : s.command line = .ok (t, events)) :
    s.LeavesOthers t line ↔ ¬s.Cancels line := by
  constructor
  · rintro h ⟨id, args, haddr, hheld⟩
    obtain ⟨hp, hg⟩ := command_drops hs hc (accepted_drops hv haddr)
    obtain ⟨h1, h2⟩ := h _ _ _ haddr
    rcases hheld with ⟨a, ha, hne⟩ | ⟨g, hg', hne⟩
    · cases hp.symm.trans (h1 a ha hne)
    · cases hg.symm.trans (h2 g hg' hne)
  · intro hl op id args haddr
    by_cases hd : s.Drops line
    · obtain ⟨i, args', haddr', -⟩ := hd
      rw [haddr] at haddr'
      cases haddr'
      exact ⟨fun a ha hne => absurd ⟨id, args, haddr, Or.inl ⟨a, ha, hne⟩⟩ hl,
        fun g hg hne => absurd ⟨id, args, haddr, Or.inr ⟨g, hg, hne⟩⟩ hl⟩
    · obtain ⟨hp, hg⟩ := command_spares ((command_effect hs line).of_eq hc) hd
      exact ⟨fun a ha _ => hp.trans ha, fun g hg' _ => hg.trans hg'⟩

theorem Session.reachable {ok : WindowServer → Str → Prop} (h : Session ok s left waiting) : Reachable s := by
  induction h with
  | new => exact .new
  | command line _ _ _ h ih => exact .command line ih h
  | pointer left _ hx hy h ih => exact .pointer left _ hx hy ih h

theorem Session.held (h : Session (fun s line => ¬s.Cancels line) s left waiting) : Held s left waiting := by
  induction h with
  | new => exact ⟨rfl, fun _ => ⟨rfl, rfl⟩⟩
  | command line hr _ hl h ih => exact ih.command hr.reachable.inv h hl
  | pointer left hr hx hy h ih =>
    exact (ih.packet ((pointer_effect hr.reachable.inv hx hy left _).of_eq h)).1

/-! ## A sample session -/

/-- `two` after a press inside the first window. -/
def pressedOne : WindowServer :=
  ⟨[{ created 2 "b".toList 500 500 80 50 with visible := true },
    { created 1 "a".toList 0 0 80 50 with visible := true }], some 1, none, some 1⟩

theorem pointer_pressedOne : two.pointer 10 60 true false =
    .ok (true, pressedOne, [⟨2, .FocusLost, 0, 0⟩, ⟨1, .FocusGained, 0, 0⟩, ⟨1, .MouseDown, 9, 16⟩]) := rfl

theorem session_two {ok : WindowServer → Str → Prop}
    (h : ∀ s line, (address line).map Prod.fst ≠ some (some .WD) → ok s line) : Session ok two false none := by
  have h1 := Session.command _ .new (by decide) (h _ _ (by decide)) command_single
  have h2 := Session.command _ h1 (by decide) (h _ _ (by decide)) command_one
  have h3 := Session.command _ h2 (by decide) (h _ _ (by decide)) command_oneHidden
  exact Session.command _ h3 (by decide) (h _ _ (by decide)) command_two

theorem session_pressedOne {ok : WindowServer → Str → Prop}
    (h : ∀ s line, (address line).map Prod.fst ≠ some (some .WD) → ok s line) :
    Session ok pressedOne true (some 1) :=
  .pointer true (session_two h) (by decide) (by decide) pointer_pressedOne

theorem not_cancels (h : (address line).map Prod.fst ≠ some (some .WD)) : ¬s.Cancels line := by
  rintro ⟨id, args, haddr, -⟩
  rw [haddr] at h
  exact h rfl

/-- Button pairing: without `WD` of one window while another is pressed or grabbed, each press
gets its one release, and every command leaves the other windows' gestures alone; such a
command does not. -/
theorem button_pairing (h : Session (fun s line => ¬s.Cancels line) s left waiting) : s.Paired left waiting ∧
    ∀ line t events, s.validate line = true → s.command line = .ok (t, events) →
      (s.LeavesOthers t line ↔ ¬s.Cancels line) := by
  refine ⟨fun x y left' owned t events hx hy hp => ?_, fun line t events hv hc => ?_⟩
  · exact (h.held.packet ((pointer_effect h.reachable.inv hx hy left' left).of_eq hp)).2
  · exact leavesOthers_iff h.reachable.inv hv hc

theorem button_pairing_press : pressedOne.Paired true (some 1) ∧ ∃ owned t events,
    pressedOne.pointer 10 60 false true = .ok (owned, t, events) ∧ targets .MouseUp events = [1] :=
  ⟨(button_pairing (session_pressedOne fun _ _ => not_cancels)).1, _, _, _, rfl, rfl⟩

/-- A press in window 1, `WD` of window 2, a release: window 1 never gets its release. -/
theorem release_lost : ¬∀ s left waiting, Session (fun _ _ => True) s left waiting → s.Paired left waiting := by
  intro h
  have hdrop : pressedOne.command "WD|2".toList = .ok (⟨[{ created 1 "a".toList 0 0 80 50 with visible := true }],
    some 1, none, none⟩, []) := rfl
  have hrun := h _ _ _ (.command "WD|2".toList (session_pressedOne fun _ _ _ => trivial) (by decide) trivial hdrop)
  cases (hrun 10 60 false _ _ _ (by decide) (by decide) rfl).1

end WindowServer

end Pippin.Client
