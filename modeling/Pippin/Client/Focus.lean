import Pippin.Client.Steps

/-! Keyboard focus. A client that watches its own focus events knows whether it has the
keyboard; whether anyone has it depends on how the focused window went away. -/

namespace Pippin.Client
open Checked Keyed

/-- What a client keeps of its event stream: the focus events since its window was created. -/
def note (id : UInt32) (seen : List EventKind) (e : Event) : List EventKind :=
  if e.id ≠ id then seen
  else
    match e.kind with
    | .WindowCreated => []
    | .FocusGained => seen ++ [.FocusGained]
    | .FocusLost => seen ++ [.FocusLost]
    | _ => seen

def focusStream (id : UInt32) (events : List Event) : List EventKind := events.foldl (note id) []

/-- Gained and lost take turns, the first one being gained. -/
def Alternates (l : List EventKind) : Prop :=
  ∀ i < l.length, l[i]? = some (if i % 2 = 0 then .FocusGained else .FocusLost)

theorem Alternates.snoc {l : List EventKind} (h : Alternates l) :
    Alternates (l ++ [if l.length % 2 = 0 then .FocusGained else .FocusLost]) := by
  intro i hi
  rw [List.length_append, List.length_singleton] at hi
  by_cases hl : i < l.length
  · rw [List.getElem?_append_left hl]
    exact h i hl
  · obtain rfl : i = l.length := by omega
    rw [List.getElem?_concat_length]

theorem Alternates.last_iff {l : List EventKind} (h : Alternates l) :
    l.getLast? = some .FocusGained ↔ l.length % 2 = 1 := by
  rw [List.getLast?_eq_getElem?]
  by_cases h0 : l.length = 0
  · rw [List.length_eq_zero_iff.mp h0]
    decide
  · rw [h _ (by omega)]
    split_ifs with hp
    · simp only [true_iff]
      omega
    · simp only [Option.some.injEq, reduceCtorEq, false_iff]
      omega

/-- The focus event a change of the focus owes to `id`. -/
def owed (before after : Option UInt32) (id : UInt32) : List EventKind :=
  if before = some id then (if after = some id then [] else [.FocusLost])
  else if after = some id then [.FocusGained]
  else []

theorem owed_self (f : Option UInt32) (id : UInt32) : owed f f id = [] := by
  unfold owed
  split_ifs <;> rfl

namespace WindowServer

variable {s t : WindowServer} {w : Window} {id : UInt32} {x y : Int} {line : Str} {es events : List Event}
  {seen : List EventKind}

/-- Runs from `new`, with all the events sent on the way. -/
inductive Run : WindowServer → List Event → Prop where
  | new : Run new []
  | command {s t : WindowServer} {es events : List Event} (line : Str) (hs : Run s es)
      (h : s.command line = .ok (t, events)) : Run t (es ++ events)
  | pointer {s t : WindowServer} {owned : Bool} {es events : List Event} {x y : Int} (left wasLeft : Bool)
      (hx : 0 ≤ x ∧ x ≤ 1023) (hy : 0 ≤ y ∧ y ≤ 767) (hs : Run s es)
      (h : s.pointer x y left wasLeft = .ok (owned, t, events)) : Run t (es ++ events)

theorem Run.reachable (h : Run s es) : Reachable s := by
  induction h with
  | new => exact .new
  | command line _ h ih => exact .command line ih h
  | pointer left wasLeft hx hy _ h ih => exact .pointer left wasLeft hx hy ih h

/-- The focused id names an existing window on the screen. -/
def FocusShown (s : WindowServer) : Prop := ∀ id, s.focused = some id → ∃ w ∈ s.windows, w.id = id ∧ w.visible = true

structure FocusInv (s : WindowServer) (es : List Event) : Prop where
  shown : s.FocusShown
  told : ∀ id ∈ s.ids, s.focused = some id ↔ (focusStream id es).getLast? = some .FocusGained
  alternates : ∀ id, Alternates (focusStream id es)

/-- A step keeps its clients informed: each window that stays is told how the focus
changed for it, a new one starts afresh without the focus, and no one else hears of it. -/
structure Informs (s t : WindowServer) (events : List Event) : Prop where
  shown : t.FocusShown
  kept : ∀ id ∈ s.ids, id ∈ t.ids → ∀ seen, events.foldl (note id) seen = seen ++ owed s.focused t.focused id
  fresh : ∀ id ∈ t.ids, id ∉ s.ids → t.focused ≠ some id ∧ ∀ seen, events.foldl (note id) seen = []
  others : ∀ id, id ∉ t.ids → ∀ seen, events.foldl (note id) seen = seen

theorem FocusShown.mem (h : s.FocusShown) (hf : s.focused = some id) : id ∈ s.ids := by
  obtain ⟨w, hw, he, -⟩ := h id hf
  exact mem_ids.mpr ⟨w, hw, he⟩

theorem FocusInv.step (h : FocusInv s es) (hi : Informs s t events) : FocusInv t (es ++ events) := by
  have stream : ∀ id, focusStream id (es ++ events) = events.foldl (note id) (focusStream id es) := fun id =>
    List.foldl_append
  -- a kept window: the owed event is the one whose turn it is
  have kept : ∀ id ∈ s.ids, id ∈ t.ids → Alternates (focusStream id (es ++ events)) ∧
      (t.focused = some id ↔ (focusStream id (es ++ events)).length % 2 = 1) := by
    intro id hs ht
    have halt := h.alternates id
    have hlen : s.focused = some id ↔ (focusStream id es).length % 2 = 1 := (h.told id hs).trans halt.last_iff
    have hsnoc := halt.snoc
    rw [stream, hi.kept id hs ht]
    unfold owed
    split_ifs with h1 h2 h2
    · rw [List.append_nil]
      exact ⟨halt, by simp only [h2, true_iff]; exact hlen.mp h1⟩
    · have hodd := hlen.mp h1
      rw [if_neg (by omega)] at hsnoc
      refine ⟨hsnoc, ?_⟩
      rw [List.length_append, List.length_singleton]
      exact ⟨fun h => absurd h h2, fun h => by omega⟩
    · have heven : ¬(focusStream id es).length % 2 = 1 := fun h => h1 (hlen.mpr h)
      rw [if_pos (by omega)] at hsnoc
      refine ⟨hsnoc, fun _ => ?_, fun _ => h2⟩
      rw [List.length_append, List.length_singleton]
      omega
    · rw [List.append_nil]
      exact ⟨halt, fun h => absurd h h2, fun h => absurd (hlen.mpr h) h1⟩
  have alternates : ∀ id, Alternates (focusStream id (es ++ events)) := by
    intro id
    by_cases ht : id ∈ t.ids
    · by_cases hs : id ∈ s.ids
      · exact (kept id hs ht).1
      · rw [stream, (hi.fresh id ht hs).2]
        exact nofun
    · rw [stream, hi.others id ht]
      exact h.alternates id
  refine ⟨hi.shown, fun id ht => ?_, alternates⟩
  rw [(alternates id).last_iff]
  by_cases hs : id ∈ s.ids
  · exact (kept id hs ht).2
  · obtain ⟨hf, hn⟩ := hi.fresh id ht hs
    rw [stream, hn]
    exact ⟨fun h => absurd h hf, nofun⟩

/-! ## What the events of one step say about the focus -/

theorem foldl_note_quiet (h : ∀ e ∈ events, e.kind ≠ .WindowCreated ∧ e.kind ≠ .FocusGained ∧ e.kind ≠ .FocusLost) :
    events.foldl (note id) seen = seen := by
  induction events with
  | nil => rfl
  | cons e events ih =>
    have he := h e List.mem_cons_self
    have hnote : note id seen e = seen := by
      unfold note
      cases hk : e.kind <;> simp_all
    rw [List.foldl_cons, hnote, ih fun e he => h e (List.mem_cons_of_mem _ he)]

theorem foldl_note_geometry {i : UInt32} (h : Geometry i events) : events.foldl (note id) seen = seen := by
  refine foldl_note_quiet fun e he => ?_
  rcases (h e he).2 with hk | hk | hk <;> rw [hk] <;> decide

theorem focusEvents_kind {e : Event} (he : e ∈ s.focusEvents id) : e.kind = .FocusLost ∨ e.kind = .FocusGained := by
  unfold focusEvents at he
  split_ifs at he with hf
  · rcases List.mem_append.mp he with he | he
    · cases hold : s.focused with
      | none =>
        rw [hold] at he
        cases he
      | some old =>
        rw [hold] at he
        exact Or.inl (List.mem_singleton.mp he ▸ rfl)
    · exact Or.inr (List.mem_singleton.mp he ▸ rfl)
  · cases he

theorem foldl_note_focus (f : UInt32) :
    (s.focusEvents f).foldl (note id) seen = seen ++ owed s.focused (some f) id := by
  unfold focusEvents
  by_cases hf : s.focused = some f
  · rw [if_neg (not_not.mpr hf), hf, owed_self, List.append_nil]
    rfl
  · rw [if_pos hf]
    cases hs : s.focused with
    | none => by_cases h2 : f = id <;> simp [owed, note, h2]
    | some old =>
      have hne : old ≠ f := fun h => hf (h ▸ hs)
      by_cases h1 : old = id
      · subst h1
        simp [owed, note, hne.symm]
      · by_cases h2 : f = id <;> simp [owed, note, h1, h2]

theorem refocus_mem {next : UInt32} (h : s.refocus id = some next) (hf : s.focused = some id) :
    ∃ v ∈ without Window.id id s.windows, v.id = next ∧ v.visible = true := by
  unfold refocus at h
  rw [if_pos hf] at h
  obtain ⟨v, hv, rfl⟩ := Option.map_eq_some_iff.mp h
  exact ⟨v, List.mem_reverse.mp (List.mem_of_find?_eq_some hv), rfl, List.find?_some hv⟩

theorem foldl_note_refocus {i : UInt32} (hne : id ≠ i) : (s.refocusEvents i).foldl (note id) seen =
    seen ++ owed s.focused (s.refocus i) id := by
  unfold refocusEvents
  split_ifs with hf
  · cases hr : s.refocus i with
    | none => simp [owed, hf, hne.symm]
    | some next => by_cases hn : next = id <;> simp [owed, hf, hne.symm, note, hn]
  · rw [show s.refocus i = s.focused from if_neg hf, owed_self, List.append_nil]
    rfl

theorem Informs.of_ids (hs : s.FocusShown) (ht : t.FocusShown) (hids : ∀ id, id ∈ t.ids ↔ id ∈ s.ids)
    (h : ∀ id seen, events.foldl (note id) seen = seen ++ owed s.focused t.focused id) : Informs s t events := by
  refine ⟨ht, fun id _ _ => h id, fun id hin hout => absurd ((hids id).mp hin) hout, fun id hout seen => ?_⟩
  have h1 : s.focused ≠ some id := fun hf => hout ((hids id).mpr (hs.mem hf))
  have h2 : t.focused ≠ some id := fun hf => hout (ht.mem hf)
  rw [h, owed, if_neg h1, if_neg h2, List.append_nil]

theorem FocusShown.altered (h : s.FocusShown) {f : Window → Window} (hid : ∀ w, (f w).id = w.id)
    (hvis : ∀ w, w.visible = true → (f w).visible = true) : (s.altered id f).FocusShown := by
  intro i hi
  obtain ⟨w, hw, rfl, hv⟩ := h i hi
  refine ⟨_, List.mem_map_of_mem hw, ?_⟩
  split_ifs
  · exact ⟨hid w, hvis w hv⟩
  · exact ⟨rfl, hv⟩

theorem informs_command (hs : s.FocusShown) (he : CommandEffect s line t events) : Informs s t events := by
  cases he with
  | keep hev =>
    refine .of_ids hs hs (fun _ => Iff.rfl) fun id seen => ?_
    rw [owed_self, List.append_nil, foldl_note_geometry hev]
  -- `WindowCreated` starts the history of the new id afresh
  | @create i args title x y width height haddr hnew =>
    have hids : ∀ id, id ∈ ids { s with windows := s.windows ++ [created i title x y width height] } ↔
        id ∈ s.ids ∨ id = i := by
      intro id
      simp [ids, created]
    have other : ∀ id seen, id ≠ i → [(⟨i, .WindowCreated, clampX x, clampY y⟩ : Event),
        ⟨i, .Redraw, width, height⟩].foldl (note id) seen = seen := fun id seen hne => by simp [note, hne.symm]
    refine ⟨fun id hf => ?_, fun id hid _ seen => ?_, fun id hid hout => ?_, fun id hid seen => ?_⟩
    · obtain ⟨w, hw, h⟩ := hs id hf
      exact ⟨w, List.mem_append_left _ hw, h⟩
    · rw [owed_self, List.append_nil]
      exact other id seen fun h => hnew (h ▸ hid)
    · obtain rfl := ((hids id).mp hid).resolve_left hout
      exact ⟨fun hf => hout (hs.mem hf), fun seen => by simp [note]⟩
    · exact other id seen fun h => hid ((hids id).mpr (Or.inr h))
  | @destroy w args haddr hw =>
    have hids : ∀ id, id ∈ ids ⟨without Window.id w.id s.windows, s.refocus w.id, none, none⟩ ↔
        id ∈ s.ids ∧ id ≠ w.id := by
      intro id
      show id ∈ (without Window.id w.id s.windows).map Window.id ↔ _
      rw [ids_without, List.mem_filter, decide_eq_true_eq]
    have hshown : FocusShown ⟨without Window.id w.id s.windows, s.refocus w.id, none, none⟩ := by
      intro id hid
      by_cases hf : s.focused = some w.id
      · exact refocus_mem hid hf
      · have hid' : s.focused = some id := by rw [← hid]; exact (if_neg hf).symm
        obtain ⟨v, hv, rfl, hvis⟩ := hs id hid'
        exact ⟨v, mem_without.mpr ⟨hv, fun h => hf (h ▸ hid')⟩, rfl, hvis⟩
    refine ⟨hshown, fun id _ hid seen => foldl_note_refocus ((hids id).mp hid).2,
      fun id hin hout => absurd ((hids id).mp hin).1 hout, fun id hout seen => ?_⟩
    have hnext : s.refocus w.id ≠ some id := fun hf => hout (hshown.mem hf)
    -- the destroyed window is told nothing
    by_cases hid : id = w.id
    · subst hid
      unfold refocusEvents
      split_ifs with hf
      · cases hr : s.refocus w.id with
        | none => rfl
        | some next =>
          have hne : next ≠ w.id := fun h => hnext (h ▸ hr)
          simp [note, hne]
      · rfl
    · have hf : s.focused ≠ some id := fun hf => hout ((hids id).mpr ⟨hs.mem hf, hid⟩)
      rw [foldl_note_refocus hid, owed, if_neg hf, if_neg hnext, List.append_nil]
  | @unhide w args haddr hw =>
    refine .of_ids hs (fun id hid => ?_) (fun id => ?_) fun id seen => foldl_note_focus w.id
    · obtain rfl : w.id = id := Option.some.inj hid
      refine ⟨{ w with visible := true }, raise_perm.mem_iff.mpr ?_, rfl, rfl⟩
      exact List.mem_map.mpr ⟨w, hw, if_pos rfl⟩
    · have hids : (s.altered w.id fun v => { v with visible := true }).ids = s.ids := ids_altered fun _ => rfl
      rw [← hids]
      exact (raise_perm.map Window.id).mem_iff
  -- hiding the focused window drops the focus, so the invariant asks for nothing there
  | @hide w args haddr hw =>
    refine .of_ids hs (fun id hid => ?_) (fun id => ?_) fun id seen => ?_
    · dsimp only at hid
      split_ifs at hid with hf
      obtain ⟨v, hv, rfl, hvis⟩ := hs id hid
      have hne : v.id ≠ w.id := fun h => hf (h ▸ hid)
      exact ⟨v, List.mem_map.mpr ⟨v, hv, if_neg hne⟩, rfl, hvis⟩
    · have hids : (s.altered w.id fun v => { v with visible := false }).ids = s.ids := ids_altered fun _ => rfl
      rw [← hids]
      rfl
    · dsimp only
      split_ifs with hf
      · by_cases hid : w.id = id <;> simp [owed, note, hf, hid]
      · rw [owed_self, List.append_nil]
        rfl
  | change haddr hop hw hf hev =>
    refine .of_ids hs (hs.altered hf.id fun w hv => (hf.visible w).trans hv) (fun id => ?_) fun id seen => ?_
    · rw [ids_altered hf.id]
    · show _ = seen ++ owed s.focused s.focused id
      rw [foldl_note_geometry hev, owed_self, List.append_nil]

theorem informs_pointer {left wasLeft owned : Bool} (hs : s.FocusShown)
    (he : PointerEffect s x y left wasLeft owned t events) : Informs s t events := by
  cases he with
  | drag hg hf hev =>
    refine .of_ids hs (hs.altered hf.id fun w hv => (hf.visible w).trans hv) (fun id => ?_) fun id seen => ?_
    · rw [ids_altered hf.id]
    · show _ = seen ++ owed s.focused s.focused id
      rw [foldl_note_geometry hev, owed_self, List.append_nil]
  | @press w grab pressed events hg hw hc hp =>
    refine .of_ids hs (fun id hid => ?_) (fun id => ?_) fun id seen => ?_
    · obtain rfl : w.id = id := Option.some.inj hid
      simp only [Window.covers, Bool.and_eq_true] at hc
      exact ⟨w, raise_perm.mem_iff.mpr hw, rfl, hc.1.1.1.1⟩
    · exact (raise_perm.map Window.id).mem_iff
    · have hquiet : events.foldl (note id) (seen ++ owed s.focused (some w.id) id) = _ :=
        foldl_note_quiet fun e he => by cases hp <;> simp_all
      rw [List.foldl_append, foldl_note_focus, hquiet]
  | outside hg =>
    refine .of_ids hs hs (fun _ => Iff.rfl) fun id seen => ?_
    rw [owed_self, List.append_nil]
    rfl
  | release hw hp =>
    refine .of_ids hs hs (fun _ => Iff.rfl) fun id seen => ?_
    rw [owed_self, List.append_nil]
    exact foldl_note_quiet fun e he => by simp [List.mem_singleton.mp he]
  | hover hl hr hev =>
    refine .of_ids hs hs (fun _ => Iff.rfl) fun id seen => ?_
    rw [owed_self, List.append_nil]
    exact foldl_note_quiet fun e he => by simp [(hev e he).1]

theorem Run.focus (h : Run s es) : FocusInv s es := by
  induction h with
  | new => exact ⟨nofun, nofun, fun _ => nofun⟩
  | command line hr h ih =>
    exact ih.step (informs_command ih.shown ((command_effect hr.reachable.inv line).of_eq h))
  | pointer left wasLeft hx hy hr h ih =>
    exact ih.step (informs_pointer ih.shown ((pointer_effect hr.reachable.inv hx hy left wasLeft).of_eq h))

/-! ## A sample session -/

def one : WindowServer := ⟨[{ created 1 "a".toList 0 0 80 50 with visible := true }], some 1, none, none⟩

def oneHidden : WindowServer := { one with windows := one.windows ++ [created 2 "b".toList 500 500 80 50] }

def two : WindowServer :=
  ⟨[{ created 1 "a".toList 0 0 80 50 with visible := true },
    { created 2 "b".toList 500 500 80 50 with visible := true }], some 2, none, none⟩

theorem command_one : single.command "WS|1".toList = .ok (one, [⟨1, .FocusGained, 0, 0⟩]) := rfl

theorem command_oneHidden : one.command "WC|2|500|500|80|50|b".toList =
    .ok (oneHidden, [⟨2, .WindowCreated, 500, 500⟩, ⟨2, .Redraw, 80, 50⟩]) := by
  show one.create 2 ["500".toList, "500".toList, "80".toList, "50".toList, "b".toList] = _
  exact create_eq (by decide) (by decide) rfl rfl rfl rfl rfl rfl (by decide)

theorem command_two : oneHidden.command "WS|2".toList =
    .ok (two, [⟨1, .FocusLost, 0, 0⟩, ⟨2, .FocusGained, 0, 0⟩]) := rfl

/-- Focus protocol: the focused id names a visible window, and the focus events of a
window since its creation take turns and end in gained exactly while it is focused. -/
theorem focus_protocol (h : Run s es) :
    (∀ id, s.focused = some id → ∃ w ∈ s.windows, w.id = id ∧ w.visible = true) ∧
    (∀ w ∈ s.windows, s.focused = some w.id ↔ (focusStream w.id es).getLast? = some .FocusGained) ∧
    ∀ id, Alternates (focusStream id es) :=
  ⟨h.focus.shown, fun w hw => h.focus.told w.id (mem_ids.mpr ⟨w, hw, rfl⟩), h.focus.alternates⟩

theorem focus_protocol_two : ∃ es, Run two es ∧ focusStream 1 es = [.FocusGained, .FocusLost] ∧
    (∀ w ∈ two.windows, two.focused = some w.id ↔ (focusStream w.id es).getLast? = some .FocusGained) ∧
    ∀ id, Alternates (focusStream id es) := by
  have hrun := ((((Run.new).command _ command_single).command _ command_one).command _
    command_oneHidden).command _ command_two
  exact ⟨_, hrun, by decide, (focus_protocol hrun).2⟩

/-! ## Who gets the keys -/

theorem isActive_iff : s.isActive = true ↔ ∃ w ∈ s.windows, w.visible = true := List.any_eq_true

/-- While a window is on the screen, one of them gets every key. -/
def KeyTarget (s : WindowServer) : Prop := s.isActive = true → ∃ w ∈ s.windows, w.visible = true ∧
  s.focused = some w.id ∧ ∀ scan text, ∃ e es, s.key scan text = e :: es ∧ e.id = w.id ∧
    (e.kind = .KeyDown ∨ e.kind = .KeyUp)

/-- `WH` of the focused window while another window is on the screen. -/
def HidesFocus (s : WindowServer) (line : Str) : Prop := ∃ id args, address line = some (some .WH, id, args) ∧
  s.focused = some id ∧ ∃ w ∈ s.windows, w.id ≠ id ∧ w.visible = true

/-- Runs in which the focused window is never hidden while another is on the screen. -/
inductive Attended : WindowServer → Prop where
  | new : Attended new
  | command {s t : WindowServer} {events : List Event} (line : Str) (hs : Attended s) (hl : ¬s.HidesFocus line)
      (h : s.command line = .ok (t, events)) : Attended t
  | pointer {s t : WindowServer} {owned : Bool} {events : List Event} {x y : Int} (left wasLeft : Bool)
      (hx : 0 ≤ x ∧ x ≤ 1023) (hy : 0 ≤ y ∧ y ≤ 767) (hs : Attended s)
      (h : s.pointer x y left wasLeft = .ok (owned, t, events)) : Attended t

/-- Where a window is on the screen, one has the focus. -/
def Guarded (s : WindowServer) : Prop := (∃ w ∈ s.windows, w.visible = true) → ∃ id, s.focused = some id

theorem Guarded.of_visible (h : s.Guarded) (hf : t.focused = s.focused)
    (hv : ∀ v ∈ t.windows, v.visible = true → ∃ w ∈ s.windows, w.visible = true) : t.Guarded := by
  rintro ⟨v, hv', hvis⟩
  rw [hf]
  exact h (hv v hv' hvis)

theorem Guarded.altered (h : s.Guarded) {f : Window → Window} (hf : Quiet f) : (s.altered id f).Guarded := by
  refine h.of_visible rfl fun v hv hvis => ?_
  obtain ⟨w, hw, rfl | ⟨-, rfl⟩⟩ := mem_alter hv
  · exact ⟨v, hw, hvis⟩
  · exact ⟨w, hw, (hf.visible w).symm.trans hvis⟩

theorem guarded_command (hs : s.Guarded) (hl : ¬s.HidesFocus line) (he : CommandEffect s line t events) :
    t.Guarded := by
  cases he with
  | keep => exact hs
  | create haddr hnew =>
    refine hs.of_visible rfl fun v hv hvis => ?_
    rcases List.mem_append.mp hv with hv | hv
    · exact ⟨v, hv, hvis⟩
    · rw [List.mem_singleton.mp hv] at hvis
      cases hvis
  | @destroy w args haddr hw =>
    by_cases hf : s.focused = some w.id
    · rintro ⟨v, hv, hvis⟩
      have hfound : ((without Window.id w.id s.windows).reverse.find? (·.visible)).isSome := by
        rw [List.find?_isSome]
        exact ⟨v, List.mem_reverse.mpr hv, hvis⟩
      obtain ⟨next, hn⟩ := Option.isSome_iff_exists.mp hfound
      refine ⟨next.id, ?_⟩
      show s.refocus w.id = _
      rw [refocus, if_pos hf, hn]
      rfl
    · exact hs.of_visible (if_neg hf) fun v hv hvis => ⟨v, (mem_without.mp hv).1, hvis⟩
  | @unhide w args haddr hw => exact fun _ => ⟨w.id, rfl⟩
  | @hide w args haddr hw =>
    have kept : ∀ v ∈ alter Window.id w.id (fun v => { v with visible := false }) s.windows,
        v.visible = true → v ∈ s.windows ∧ v.id ≠ w.id := by
      intro v hv hvis
      obtain ⟨u, hu, rfl⟩ := List.mem_map.mp hv
      split_ifs at hvis ⊢ with hid
      exact ⟨hu, hid⟩
    by_cases hf : s.focused = some w.id
    · rintro ⟨v, hv, hvis⟩
      obtain ⟨hin, hne⟩ := kept v hv hvis
      exact absurd ⟨w.id, args, haddr, hf, v, hin, hne, hvis⟩ hl
    · exact hs.of_visible (if_neg hf) fun v hv hvis => ⟨v, (kept v hv hvis).1, hvis⟩
  | change haddr hop hw hf hev => exact hs.altered hf

theorem guarded_pointer {left wasLeft owned : Bool} (hs : s.Guarded)
    (he : PointerEffect s x y left wasLeft owned t events) : t.Guarded := by
  cases he with
  | drag hg hf hev => exact hs.altered hf
  | press hg hw hc hp => exact fun _ => ⟨_, rfl⟩
  | outside hg => exact hs
  | release hw hp => exact hs
  | hover hl hr hev => exact hs

theorem Attended.reachable (h : Attended s) : Reachable s := by
  induction h with
  | new => exact .new
  | command line _ _ h ih => exact .command line ih h
  | pointer left wasLeft hx hy _ h ih => exact .pointer left wasLeft hx hy ih h

theorem Attended.guarded (h : Attended s) : s.Guarded := by
  induction h with
  | new => exact nofun
  | command line hr hl h ih => exact guarded_command ih hl ((command_effect hr.reachable.inv line).of_eq h)
  | pointer left wasLeft hx hy hr h ih =>
    exact guarded_pointer ih ((pointer_effect hr.reachable.inv hx hy left wasLeft).of_eq h)

theorem Reachable.focusShown (h : Reachable s) : s.FocusShown := by
  induction h with
  | new => exact nofun
  | command line hr h ih => exact (informs_command ih ((command_effect hr.inv line).of_eq h)).shown
  | pointer left wasLeft hx hy hr h ih =>
    exact (informs_pointer ih ((pointer_effect hr.inv hx hy left wasLeft).of_eq h)).shown

theorem key_focused (hf : s.focused = some id) (scan : UInt8) (text : Option UInt8) :
    ∃ e es, s.key scan text = e :: es ∧ e.id = id ∧ (e.kind = .KeyDown ∨ e.kind = .KeyUp) := by
  unfold key
  rw [hf]
  refine ⟨_, _, rfl, rfl, ?_⟩
  dsimp only
  split_ifs
  · exact Or.inl rfl
  · exact Or.inr rfl

theorem HidesFocus.strands (hs : s.Inv) (hshown : s.FocusShown) (hl : s.HidesFocus line) :
    ∃ t events, s.command line = .ok (t, events) ∧ t.isActive = true ∧ t.focused = none := by
  obtain ⟨id, args, haddr, hf, v, hv, hne, hvis⟩ := hl
  obtain ⟨index, w, hw, rfl, hc⟩ := command_execute haddr nofun (hshown.mem hf)
  let f : Window → Window := fun u => { u with visible := false }
  refine ⟨⟨alter Window.id w.id f s.windows, none, s.grab, s.pressed⟩, [⟨w.id, .FocusLost, 0, 0⟩], ?_, ?_, rfl⟩
  · rw [hc]
    show (modify s.windows index f >>= _) = _
    rw [modify_found hs hw, ok_bind, if_pos hf]
    rfl
  · exact isActive_iff.mpr ⟨v, List.mem_map.mpr ⟨v, hv, if_neg hne⟩, hvis⟩

theorem reachable_two : Reachable two :=
  (((reachable_single.command _ command_one).command _ command_oneHidden).command _ command_two)

theorem not_hidesFocus (h : (address line).map Prod.fst ≠ some (some .WH)) : ¬s.HidesFocus line := by
  rintro ⟨id, args, haddr, -⟩
  rw [haddr] at h
  exact h rfl

/-- Keyboard target: without `WH` of the focused window next to a visible one, some visible
window gets every key; such a command leaves the keys to no one. -/
theorem keyboard_target (h : Attended s) : s.KeyTarget ∧
    ∀ line, s.HidesFocus line → ∃ t events, s.command line = .ok (t, events) ∧ ¬t.KeyTarget := by
  have hshown := h.reachable.focusShown
  refine ⟨fun hact => ?_, fun line hl => ?_⟩
  · obtain ⟨id, hf⟩ := h.guarded (isActive_iff.mp hact)
    obtain ⟨w, hw, rfl, hvis⟩ := hshown id hf
    exact ⟨w, hw, hvis, hf, key_focused hf⟩
  · obtain ⟨t, events, hc, hact, hnone⟩ := hl.strands h.reachable.inv hshown
    refine ⟨t, events, hc, fun ht => ?_⟩
    obtain ⟨w, -, -, hf, -⟩ := ht hact
    rw [hnone] at hf
    cases hf

theorem keyboard_target_two : two.KeyTarget ∧ two.isActive = true := by
  have h1 := Attended.command _ .new (not_hidesFocus (by decide)) command_single
  have h2 := Attended.command _ h1 (not_hidesFocus (by decide)) command_one
  have h3 := Attended.command _ h2 (not_hidesFocus (by decide)) command_oneHidden
  exact ⟨(keyboard_target (.command _ h3 (not_hidesFocus (by decide)) command_two)).1, rfl⟩

/-- Two windows on the screen and the focused one hidden: nobody gets the keys. -/
theorem keys_without_target : ¬∀ s, Reachable s → s.KeyTarget := by
  intro h
  obtain ⟨w, -, -, hf, -⟩ := h _ (reachable_two.command "WH|2".toList rfl) rfl
  cases hf

end WindowServer

end Pippin.Client
