import Pippin.Client.Focus

/-! Windows off the screen. Hit testing never finds them, but a grab names its window by
id: what happens to a window that is hidden in the middle of a gesture. -/

namespace Pippin.Client
open Checked Keyed

def Window.sameContent (w v : Window) : Prop :=
  v.x = w.x ∧ v.y = w.y ∧ v.width = w.width ∧ v.height = w.height ∧ v.surface = w.surface

def EventKind.forShown (kind : EventKind) : Prop :=
  kind = .Move ∨ kind = .Resize ∨ kind = .Redraw ∨ kind = .MouseDown ∨ kind = .MouseMove

namespace WindowServer

variable {s t : WindowServer} {w : Window} {id : UInt32} {x y : Int} {line : Str} {events : List Event}

def Spares (s t : WindowServer) (events : List Event) : Prop := ∀ w ∈ s.windows, w.visible = false →
  (∃ v ∈ t.windows, v.id = w.id ∧ v.visible = false ∧ w.sameContent v) ∧
  ∀ e ∈ events, e.id = w.id → ¬e.kind.forShown

/-- Every further pointer packet on the screen returns and leaves the hidden windows alone. -/
def Inert (s : WindowServer) : Prop := ∀ x y left wasLeft, 0 ≤ x ∧ x ≤ 1023 → 0 ≤ y ∧ y ≤ 767 →
  ∃ owned t events, s.pointer x y left wasLeft = .ok (owned, t, events) ∧ Spares s t events

/-- `WH` of the window that is being moved or resized. -/
def HidesGrab (s : WindowServer) (line : Str) : Prop :=
  ∃ args g, s.grab = some g ∧ address line = some (some .WH, g.id, args)

/-- Runs in which a window is never hidden during its own gesture. -/
inductive Settled : WindowServer → Prop where
  | new : Settled new
  | command {s t : WindowServer} {events : List Event} (line : Str) (hs : Settled s) (hl : ¬s.HidesGrab line)
      (h : s.command line = .ok (t, events)) : Settled t
  | pointer {s t : WindowServer} {owned : Bool} {events : List Event} {x y : Int} (left wasLeft : Bool)
      (hx : 0 ≤ x ∧ x ≤ 1023) (hy : 0 ≤ y ∧ y ≤ 767) (hs : Settled s)
      (h : s.pointer x y left wasLeft = .ok (owned, t, events)) : Settled t

def GrabShown (s : WindowServer) : Prop :=
  ∀ g, s.grab = some g → ∃ w ∈ s.windows, w.id = g.id ∧ w.visible = true

theorem GrabShown.of_kept (h : s.GrabShown) (hg : t.grab = s.grab)
    (hk : ∀ g, s.grab = some g → ∀ w ∈ s.windows, w.id = g.id → w.visible = true →
      ∃ v ∈ t.windows, v.id = w.id ∧ v.visible = true) : t.GrabShown := by
  intro g hgrab
  rw [hg] at hgrab
  obtain ⟨w, hw, hid, hvis⟩ := h g hgrab
  obtain ⟨v, hv, hvid, hvvis⟩ := hk g hgrab w hw hid hvis
  exact ⟨v, hv, hvid.trans hid, hvvis⟩

theorem GrabShown.altered (h : s.GrabShown) {f : Window → Window} (hf : Quiet f) : (s.altered id f).GrabShown := by
  refine h.of_kept rfl fun g _ w hw _ hvis => ⟨_, List.mem_map_of_mem hw, ?_⟩
  split_ifs
  · exact ⟨hf.id w, (hf.visible w).trans hvis⟩
  · exact ⟨rfl, hvis⟩

theorem grabShown_command (hs : s.GrabShown) (hl : ¬s.HidesGrab line) (he : CommandEffect s line t events) :
    t.GrabShown := by
  cases he with
  | keep => exact hs
  | create haddr hnew =>
    exact hs.of_kept rfl fun _ _ w hw _ hvis => ⟨w, List.mem_append_left _ hw, rfl, hvis⟩
  | destroy haddr hw => exact fun _ h => (nomatch h)
  | @unhide v args haddr hv =>
    refine hs.of_kept rfl fun g _ w hw _ hvis => ?_
    refine ⟨_, raise_perm.mem_iff.mpr (List.mem_map_of_mem hw), ?_⟩
    split_ifs
    · exact ⟨rfl, rfl⟩
    · exact ⟨rfl, hvis⟩
  | @hide v args haddr hv =>
    -- the hidden window is not the grabbed one
    refine hs.of_kept rfl fun g hg w hw hid hvis => ⟨w, List.mem_map.mpr ⟨w, hw, if_neg fun h => ?_⟩, rfl, hvis⟩
    rw [← h, hid] at haddr
    exact hl ⟨args, g, hg, haddr⟩
  | change haddr hop hw hf hev => exact hs.altered hf

theorem grabShown_pointer {left wasLeft owned : Bool} (hs : s.GrabShown)
    (he : PointerEffect s x y left wasLeft owned t events) : t.GrabShown := by
  cases he with
  | drag hg hf hev => exact hs.altered hf
  | @press w grab pressed events hg hw hc hp =>
    simp only [Window.covers, Bool.and_eq_true] at hc
    have hshown : ∃ v ∈ raise Window.id w.id s.windows, v.id = w.id ∧ v.visible = true :=
      ⟨w, raise_perm.mem_iff.mpr hw, rfl, hc.1.1.1.1⟩
    intro g hgrab
    cases hp with
    | close | down | frame => cases hgrab
    | move | resize =>
      obtain rfl := Option.some.inj hgrab
      exact hshown
  | outside hg => exact hs
  | release hw hp => exact fun _ h => absurd h.symm (Option.some_ne_none _)
  | @hover left wasLeft owned events hl hr hev =>
    cases left with
    | true => exact hs
    | false => exact fun _ h => absurd h.symm (Option.some_ne_none _)

theorem Settled.reachable (h : Settled s) : Reachable s := by
  induction h with
  | new => exact .new
  | command line _ _ h ih => exact .command line ih h
  | pointer left wasLeft hx hy _ h ih => exact .pointer left wasLeft hx hy ih h

theorem Settled.grabShown (h : Settled s) : s.GrabShown := by
  induction h with
  | new => exact nofun
  | command line hr hl h ih => exact grabShown_command ih hl ((command_effect hr.reachable.inv line).of_eq h)
  | pointer left wasLeft hx hy hr h ih =>
    exact grabShown_pointer ih ((pointer_effect hr.reachable.inv hx hy left wasLeft).of_eq h)

/-! ## One packet -/

theorem Spares.of_perm (hp : t.windows.Perm s.windows)
    (hev : ∀ w ∈ s.windows, w.visible = false → ∀ e ∈ events, e.id = w.id → ¬e.kind.forShown) :
    Spares s t events := fun w hw hvis =>
  ⟨⟨w, hp.mem_iff.mpr hw, rfl, hvis, rfl, rfl, rfl, rfl, rfl⟩, hev w hw hvis⟩

theorem Inv.id_ne (hs : s.Inv) {v : Window} (hv : v ∈ s.windows) (hshown : v.visible = true) (hw : w ∈ s.windows)
    (hhidden : w.visible = false) : v.id ≠ w.id := by
  intro h
  rw [hs.distinct.eq hv hw h, hhidden] at hshown
  cases hshown

theorem not_forShown_focus {e : Event} (he : e ∈ s.focusEvents id) : ¬e.kind.forShown := by
  unfold EventKind.forShown
  rcases focusEvents_kind he with h | h <;> rw [h] <;> decide

theorem spares_pointer {left wasLeft owned : Bool} (hs : s.Inv) (hg : s.GrabShown)
    (he : PointerEffect s x y left wasLeft owned t events) : Spares s t events := by
  cases he with
  | @drag wasLeft g f events hgrab hf hev =>
    obtain ⟨v, hv, hid, hshown⟩ := hg g hgrab
    intro w hw hvis
    have hne : g.id ≠ w.id := hid ▸ hs.id_ne hv hshown hw hvis
    refine ⟨⟨w, List.mem_map.mpr ⟨w, hw, if_neg hne.symm⟩, rfl, hvis, rfl, rfl, rfl, rfl, rfl⟩, fun e he heq => ?_⟩
    exact absurd ((hev e he).1.symm.trans heq) hne
  | @press v grab pressed events hgrab hv hc hp =>
    simp only [Window.covers, Bool.and_eq_true] at hc
    refine .of_perm raise_perm fun w hw hvis e he heq => ?_
    have hne := hs.id_ne hv hc.1.1.1.1 hw hvis
    rcases List.mem_append.mp he with he | he
    · exact not_forShown_focus he
    · cases hp with
      | move | resize | frame => cases he
      | close | down =>
        obtain rfl := List.mem_singleton.mp he
        exact absurd heq hne
  | outside hgrab => exact .of_perm (List.Perm.refl _) fun _ _ _ _ he => absurd he List.not_mem_nil
  | release hw hp =>
    refine .of_perm (List.Perm.refl _) fun w hw hvis e he heq => ?_
    obtain rfl := List.mem_singleton.mp he
    simp [EventKind.forShown]
  | hover hl hr hev =>
    refine .of_perm (List.Perm.refl _) fun w hw hvis e he heq => ?_
    obtain ⟨-, v, hv, hid, hshown⟩ := hev e he
    exact absurd (hid.trans heq) (hs.id_ne hv hshown hw hvis)

theorem inert_of_shown (hs : s.Inv) (hg : s.GrabShown) : s.Inert := by
  intro x y left wasLeft hx hy
  obtain ⟨⟨owned, t, events⟩, hp, he⟩ := pointer_effect hs hx hy left wasLeft
  exact ⟨owned, t, events, hp, spares_pointer hs hg he⟩

/-! ## A sample session -/

def dragged : WindowServer := { one with grab := some (.Move 1 10 10) }

theorem pointer_dragged : one.pointer 10 10 true false = .ok (true, dragged, []) := rfl

theorem reachable_dragged : Reachable dragged :=
  .pointer true false (by decide) (by decide) (reachable_single.command _ command_one) pointer_dragged

theorem settled_oneHidden : Settled oneHidden := by
  have hides : ∀ {s : WindowServer} {line : Str}, s.grab = none → ¬s.HidesGrab line := by
    rintro s line hnone ⟨args, g, hg, -⟩
    cases hnone.symm.trans hg
  exact .command _ (.command _ (.command _ .new (hides rfl) command_single) (hides rfl) command_one) (hides rfl)
    command_oneHidden

/-- Hidden windows are inert, in every run that does not hide a window during its own gesture. -/
theorem hidden_inert (h : Settled s) : s.Inert := inert_of_shown h.reachable.inv h.grabShown

theorem hidden_inert_second : ∃ owned t events, oneHidden.pointer 510 550 true false = .ok (owned, t, events) ∧
    Spares oneHidden t events :=
  hidden_inert settled_oneHidden 510 550 true false (by decide) (by decide)

/-- A window hidden while it is dragged still follows the pointer. -/
theorem hidden_window_dragged : ¬∀ s, Reachable s → s.Inert := by
  intro h
  have hhide : dragged.command "WH|1".toList = .ok (⟨[created 1 "a".toList 0 0 80 50], none,
    some (.Move 1 10 10), none⟩, [⟨1, .FocusLost, 0, 0⟩]) := rfl
  obtain ⟨owned, t, events, hp, hs⟩ := h _ (reachable_dragged.command _ hhide) 110 10 true true (by decide) (by decide)
  have hmoved : pointer ⟨[created 1 "a".toList 0 0 80 50], none, some (.Move 1 10 10), none⟩ 110 10 true true =
    .ok (true, ⟨[{ created 1 "a".toList 0 0 80 50 with x := 100 }], none, some (.Move 1 10 10), none⟩,
      [⟨1, .Move, 100, 0⟩]) := rfl
  rw [hmoved] at hp
  cases hp
  exact (hs _ List.mem_cons_self rfl).2 _ List.mem_cons_self rfl (Or.inl rfl)

end WindowServer

end Pippin.Client
