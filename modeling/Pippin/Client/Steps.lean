import Pippin.Client.Representation

/-! All that one command or one pointer packet can do to a server in good shape, with the
events it sends. Invariants of runs are derived from these two relations. -/

namespace Pippin.Client
open Checked Keyed

def Grab.id : Grab → UInt32
  | .Move id _ _ => id
  | .Resize id _ _ _ _ => id

def Grab.follow (x y : Int) : Grab → Window → Window
  | .Move _ ox oy, w => { w with x := clampX (x - ox), y := clampY (y - oy) }
  | .Resize _ sx sy sw sh, w =>
    w.resized (clamp (sw + x - sx) 80 maxWidth) (clamp (sh + y - sy) 50 maxHeight)

namespace WindowServer

/-- Events that tell a client about its geometry only. -/
def Geometry (id : UInt32) (events : List Event) : Prop :=
  ∀ e ∈ events, e.id = id ∧ (e.kind = .Move ∨ e.kind = .Resize ∨ e.kind = .Redraw)

/-- A change of one window that keeps its id and whether it is shown. -/
structure Quiet (f : Window → Window) : Prop where
  id : ∀ w, (f w).id = w.id
  visible : ∀ w, (f w).visible = w.visible

inductive CommandEffect (s : WindowServer) (line : Str) : WindowServer → List Event → Prop
  | keep {id : UInt32} {events : List Event} (hev : Geometry id events) : CommandEffect s line s events
  | create {id : UInt32} {args : List Str} {title : Str} {x y width height : Int}
      (haddr : address line = some (some .WC, id, args)) (hnew : id ∉ s.ids) :
      CommandEffect s line { s with windows := s.windows ++ [created id title x y width height] }
        [⟨id, .WindowCreated, clampX x, clampY y⟩, ⟨id, .Redraw, width, height⟩]
  | destroy {w : Window} {args : List Str} (haddr : address line = some (some .WD, w.id, args)) (hw : w ∈ s.windows) :
      CommandEffect s line ⟨without Window.id w.id s.windows, s.refocus w.id, none, none⟩ (s.refocusEvents w.id)
  | unhide {w : Window} {args : List Str} (haddr : address line = some (some .WS, w.id, args)) (hw : w ∈ s.windows) :
      CommandEffect s line { s with
        windows := raise Window.id w.id (alter Window.id w.id (fun v => { v with visible := true }) s.windows)
        focused := some w.id } (s.focusEvents w.id)
  | hide {w : Window} {args : List Str} (haddr : address line = some (some .WH, w.id, args)) (hw : w ∈ s.windows) :
      CommandEffect s line { s with
        windows := alter Window.id w.id (fun v => { v with visible := false }) s.windows
        focused := if s.focused = some w.id then none else s.focused }
        (if s.focused = some w.id then [⟨w.id, .FocusLost, 0, 0⟩] else [])
  | change {w : Window} {op : Option Op} {args : List Str} {f : Window → Window} {events : List Event}
      (haddr : address line = some (op, w.id, args)) (hop : op ≠ some .WD) (hw : w ∈ s.windows) (hf : Quiet f)
      (hev : Geometry w.id events) : CommandEffect s line (s.altered w.id f) events

inductive PressEffect (s : WindowServer) (w : Window) (x y : Int) : Option Grab → Option UInt32 → List Event → Prop
  | close : PressEffect s w x y none s.pressed [⟨w.id, .CloseRequested, 0, 0⟩]
  | move : PressEffect s w x y (some (.Move w.id (x - w.x) (y - w.y))) s.pressed []
  | resize : PressEffect s w x y (some (.Resize w.id x y w.width w.height)) s.pressed []
  | down (lx ly : Int) : PressEffect s w x y none (some w.id) [⟨w.id, .MouseDown, lx, ly⟩]
  | frame : PressEffect s w x y none s.pressed []

inductive PointerEffect (s : WindowServer) (x y : Int) :
    Bool → Bool → Bool → WindowServer → List Event → Prop
  | drag {wasLeft : Bool} {g : Grab} {f : Window → Window} {events : List Event} (hg : s.grab = some g)
      (hf : Quiet f) (hev : Geometry g.id events) :
      PointerEffect s x y true wasLeft true (s.altered g.id f) events
  | press {w : Window} {grab : Option Grab} {pressed : Option UInt32} {events : List Event} (hg : s.grab = none)
      (hw : w ∈ s.windows) (hc : w.covers x y = true) (hp : PressEffect s w x y grab pressed events) :
      PointerEffect s x y true false true ⟨raise Window.id w.id s.windows, some w.id, grab, pressed⟩
        (s.focusEvents w.id ++ events)
  | outside (hg : s.grab = none) : PointerEffect s x y true false false s []
  | release {w : Window} {lx ly : Int} (hw : w ∈ s.windows) (hp : s.pressed = some w.id) :
      PointerEffect s x y false true true { s with grab := none, pressed := none } [⟨w.id, .MouseUp, lx, ly⟩]
  | hover {left wasLeft owned : Bool} {events : List Event} (hl : left = true → s.grab = none ∧ wasLeft = true)
      (hr : left = false → wasLeft = true → s.pressed = none)
      (hev : ∀ e ∈ events, e.kind = .MouseMove ∧ ∃ w ∈ s.windows, w.id = e.id ∧ w.visible = true) :
      PointerEffect s x y left wasLeft owned { s with grab := if left then s.grab else none } events

variable {s t : WindowServer} {w : Window} {id : UInt32} {index : Nat} {x y width height : Int} {line : Str}

theorem geometry_nil (id : UInt32) : Geometry id [] := nofun

theorem geometry_resize (w : Window) (width height : Int) : Geometry w.id (resizeEvents w width height) := by
  intro e he
  unfold resizeEvents at he
  split_ifs at he with h
  · cases he
  · simp only [List.mem_cons, List.not_mem_nil, or_false] at he
    rcases he with rfl | rfl
    · exact ⟨rfl, Or.inr (Or.inl rfl)⟩
    · exact ⟨rfl, Or.inr (Or.inr rfl)⟩

theorem quiet_resized (width height : Int) : Quiet (Window.resized width height) := by
  refine ⟨fun _ => Window.resized_id, fun w => ?_⟩
  unfold Window.resized
  split_ifs <;> rfl

theorem quiet_follow (g : Grab) (x y : Int) : Quiet (g.follow x y) := by
  cases g with
  | Move => exact ⟨fun _ => rfl, fun _ => rfl⟩
  | Resize => exact quiet_resized _ _

/-! ## Commands -/

section Execute

variable (hs : s.Inv) (hw : s.windows[index]? = some w) {args : List Str}

include hs hw

theorem change_yields {op : Option Op} (haddr : address line = some (op, w.id, args)) (hop : op ≠ some .WD)
    {f : Window → Window} (hf : Quiet f) {events : List Event} (hev : Geometry w.id events) :
    Yields (modify s.windows index f >>= fun ws => .ok ({ s with windows := ws }, events)) fun r =>
      CommandEffect s line r.1 r.2 := by
  rw [modify_found hs hw]
  exact yields_ok (.change haddr hop (List.mem_of_getElem? hw) hf hev)

theorem execute_effect {op : Option Op} (haddr : address line = some (op, w.id, args)) :
    Yields (execute s w.id index args op) fun r => CommandEffect s line r.1 r.2 := by
  have hmem : w ∈ s.windows := List.mem_of_getElem? hw
  have same : Yields (.ok (s, [])) fun r => CommandEffect s line r.1 r.2 := yields_ok (.keep (geometry_nil 0))
  -- one case for each operation; a malformed argument always lands in `same`
  cases op with
  | none => exact same
  | some op =>
    cases op with
    | WC => exact same
    | WD =>
      show Yields (destroy s w.id index) _
      rw [destroy_eq hs hw]
      exact yields_ok (.destroy haddr hmem)
    | WS =>
      rw [unhide_eq hs hw args]
      exact yields_ok (.unhide haddr hmem)
    | WH =>
      show Yields (modify s.windows index _ >>= _) _
      rw [modify_found hs hw, ok_bind]
      have hide := CommandEffect.hide haddr hmem
      split_ifs with hf
      · rw [if_pos hf, if_pos hf] at hide
        exact yields_ok hide
      · rw [if_neg hf, if_neg hf] at hide
        exact yields_ok hide
    | WT =>
      unfold execute
      dsimp only
      cases args[0]? with
      | none => exact same
      | some title =>
        dsimp only
        split_ifs with hlen
        · refine change_yields hs hw haddr (fun hop => by cases hop) ?_ (geometry_nil _)
          exact ⟨fun _ => rfl, fun _ => rfl⟩
        · exact same
    | WM =>
      unfold execute
      dsimp only
      split
      · rw [modify_found hs hw, ok_bind, ← modify_eq_alter hs.distinct hw rfl,
          get_eq (by rw [List.getElem?_modify_eq, hw]; rfl), modify_eq_alter hs.distinct hw rfl]
        refine yields_ok (.change haddr (fun hop => by cases hop) hmem ⟨fun _ => rfl, fun _ => rfl⟩ fun e he => ?_)
        rw [List.mem_singleton.mp he]
        exact ⟨rfl, Or.inl rfl⟩
      · exact same
    | WZ =>
      unfold execute
      dsimp only
      split
      · rename_i width height _ _
        by_cases hv : validSize width height = true
        · rw [resize_eq hs hw hv]
          exact yields_ok (.change haddr (fun hop => by cases hop) hmem (quiet_resized _ _) (geometry_resize _ _ _))
        · rw [resize_invalid hv]
          exact same
      · exact same
    | WK =>
      unfold execute
      dsimp only
      cases args[0]? with
      | none => exact same
      | some cursor =>
        refine change_yields hs hw haddr (fun hop => by cases hop) ?_ (geometry_nil _)
        exact ⟨fun _ => rfl, fun _ => rfl⟩
    | WI =>
      show Yields (Checked.get s.windows index >>= _) _
      rw [get_eq hw]
      have hev : Geometry w.id [⟨w.id, .Redraw, w.width, w.height⟩] := fun e he => by
        rw [List.mem_singleton.mp he]
        exact ⟨rfl, Or.inr (Or.inr rfl)⟩
      exact yields_ok (.keep hev)
    | WB =>
      refine change_yields hs hw haddr (fun hop => by cases hop) ?_ (geometry_nil _)
      exact ⟨fun _ => rfl, fun _ => rfl⟩
    | WP =>
      show Yields (Checked.get s.windows index >>= _) _
      rw [get_eq hw, ok_bind]
      split
      · rename_i offset _ _
        refine (writeRuns_yields _ w.surface offset (hs.windows w hmem).pixels).bind fun surface _ => ?_
        refine change_yields hs hw haddr (fun hop => by cases hop) ?_ (geometry_nil _)
        exact ⟨fun _ => rfl, fun _ => rfl⟩
      · exact same
    | WE =>
      refine change_yields hs hw haddr (fun hop => by cases hop) ?_ (geometry_nil _)
      exact ⟨fun _ => rfl, fun _ => rfl⟩

end Execute

theorem create_effect {args : List Str} (haddr : address line = some (some .WC, id, args)) :
    Yields (create s id args) fun r => CommandEffect s line r.1 r.2 := by
  obtain h | ⟨x, y, width, height, title, -, hnew, -, -, h⟩ := create_cases s id args
  · rw [h]
    exact yields_ok (.keep (geometry_nil 0))
  · rw [h]
    exact yields_ok (.create haddr hnew)

theorem command_effect (hs : s.Inv) (line : Str) : Yields (command s line) fun r => CommandEffect s line r.1 r.2 := by
  unfold command
  split
  · exact yields_ok (.keep (geometry_nil 0))
  · exact create_effect ‹_›
  · rename_i op id args _ haddr
    cases hfind : s.windows.findIdx? (fun w => w.id = id) with
    | none => exact yields_ok (.keep (geometry_nil 0))
    | some index =>
      obtain ⟨w, hw, rfl⟩ := findIdx?_spec hfind
      exact execute_effect hs hw haddr

/-! ## Pointer packets -/

theorem altered_self (s : WindowServer) (id : UInt32) : s.altered id (fun v => v) = s := by
  unfold altered alter
  simp

section Pointer

variable (hs : s.Inv) (hx : 0 ≤ x ∧ x ≤ 1023) (hy : 0 ≤ y ∧ y ≤ 767)

include hs hx hy

theorem drag_follows {g : Grab} (hg : s.grab = some g) :
    ∃ events, drag s x y g = .ok (s.altered g.id (g.follow x y), events) ∧ Geometry g.id events := by
  have hok := hs.grab g hg
  cases g with
  | Move id ox oy =>
    obtain ⟨hid, hox, hoy⟩ := hok
    obtain ⟨index, w, hfind, hw, rfl⟩ := index_of_id hid
    unfold drag
    dsimp only
    rw [hfind]
    dsimp only
    rw [i32_eq (by omega) (by omega), i32_eq (by omega) (by omega), get_eq hw]
    simp only [ok_bind]
    split_ifs with hmoved
    · rw [modify_found hs hw]
      refine ⟨_, rfl, fun e he => ?_⟩
      rw [List.mem_singleton.mp he]
      exact ⟨rfl, Or.inl rfl⟩
    · -- the window is there already
      rw [not_not, Prod.mk.injEq] at hmoved
      have hsame : s.altered w.id (Grab.follow x y (.Move w.id ox oy)) = s := by
        conv_rhs => rw [← altered_self s w.id]
        unfold altered
        rw [alter_congr hs.distinct (List.mem_of_getElem? hw) (Grab.follow x y (.Move w.id ox oy)) (fun v => v)]
        show { w with x := clampX (x - ox), y := clampY (y - oy) } = w
        rw [← hmoved.1, ← hmoved.2]
      exact ⟨[], congrArg (fun t => Except.ok (t, [])) hsame.symm, geometry_nil _⟩
  | Resize id sx sy sw sh =>
    obtain ⟨hid, ⟨hsx, hsy⟩, hsw, hsh⟩ := hok
    obtain ⟨index, w, hfind, hw, rfl⟩ := index_of_id hid
    unfold drag
    dsimp only
    rw [hfind]
    dsimp only
    rw [i32_eq (by omega) (by omega), i32_eq (by omega) (by omega), ok_bind,
      i32_eq (by omega) (by omega), ok_bind, ok_bind, i32_eq (by omega) (by omega), ok_bind]
    -- the clamped size is always one a window may have
    have hv : validSize (clamp (sw + x - sx) 80 maxWidth) (clamp (sh + y - sy) 50 maxHeight) = true := by
      rw [validSize_iff]
      unfold clamp maxWidth maxHeight
      split_ifs <;> omega
    exact ⟨_, resize_eq hs hw hv, geometry_resize _ _ _⟩

theorem drag_effect {g : Grab} (hg : s.grab = some g) (wasLeft : Bool) :
    Yields (drag s x y g) fun r => PointerEffect s x y true wasLeft true r.1 r.2 := by
  obtain ⟨events, hd, hev⟩ := drag_follows hs hx hy hg
  rw [hd]
  exact yields_ok (.drag hg (quiet_follow g x y) hev)

theorem press_effect (hg : s.grab = none) (hw : s.windows[index]? = some w) (hc : w.covers x y = true) :
    Yields (press s x y index) fun r => PointerEffect s x y true false true r.1 r.2 := by
  have hmem := List.mem_of_getElem? hw
  have hok := hs.windows w hmem
  have hc' := hc
  simp only [Window.covers, Bool.and_eq_true, decide_eq_true_eq] at hc'
  have hwx := hok.x
  have hwy := hok.y
  have hwidth := hok.width
  have effect : ∀ {grab pressed events}, PressEffect s w x y grab pressed events →
      Yields (.ok ((⟨raise Window.id w.id s.windows, some w.id, grab, pressed⟩ : WindowServer),
        s.focusEvents w.id ++ events)) fun r => PointerEffect s x y true false true r.1 r.2 :=
    fun hp => yields_ok (.press hg hmem hc hp)
  unfold press
  rw [get_eq hw, ok_bind]
  dsimp only
  rw [focus_eq hs.distinct hmem, ok_bind]
  dsimp only
  rw [raise_eq hs.distinct hmem, List.getLast?_concat, ← raise_eq hs.distinct hmem]
  show Yields (i32 (x - w.x) >>= _) _
  rw [i32_eq (by omega) (by omega), ok_bind, i32_eq (by omega) (by omega), ok_bind,
    Window.frameWidth_eq hok, ok_bind, i32_eq (by omega) (by omega)]
  rw [hg]
  -- close button, title, grip, content, then the rest of the frame
  split_ifs with htitle
  · rw [ok_bind]
    split_ifs
    · exact effect .close
    · have h := effect .move
      rwa [List.append_nil] at h
  · refine (Window.resizeCorner_yields hok).bind fun corner _ => ?_
    cases corner with
    | true =>
      have h := effect .resize
      rwa [List.append_nil] at h
    | false =>
      dsimp only
      rw [Window.localPoint_eq hok hx hy, ok_bind]
      dsimp only
      split_ifs
      · exact effect (.down _ _)
      · have h := effect .frame
        rwa [List.append_nil] at h

theorem hover_effect (left wasLeft : Bool) (hl : left = true → s.grab = none ∧ wasLeft = true)
    (hr : left = false → wasLeft = true → s.pressed = none) {hit : Option Nat}
    (hhit : ∀ i, hit = some i → ∃ w, s.windows[i]? = some w ∧ w.covers x y = true) :
    Yields (hover { s with grab := if left then s.grab else none } x y hit) fun r =>
      PointerEffect s x y left wasLeft r.1 r.2.1 r.2.2 := by
  cases hit with
  | none => exact yields_ok (.hover hl hr fun _ he => absurd he List.not_mem_nil)
  | some index =>
    obtain ⟨w, hw, hc⟩ := hhit index rfl
    have hmem := List.mem_of_getElem? hw
    unfold hover
    dsimp only
    rw [get_eq hw, ok_bind, Window.localPoint_eq (hs.windows w hmem) hx hy, ok_bind]
    dsimp only
    by_cases hin : x - w.x - 1 ≥ 0 ∧ y - w.y - 44 ≥ 0 ∧ x - w.x - 1 < w.width ∧ y - w.y - 44 < w.height
    · rw [if_pos hin]
      refine yields_ok (.hover hl hr fun e he => ?_)
      rw [List.mem_singleton.mp he]
      simp only [Window.covers, Bool.and_eq_true] at hc
      exact ⟨rfl, w, hmem, rfl, hc.1.1.1.1⟩
    · rw [if_neg hin]
      exact yields_ok (.hover hl hr fun _ he => absurd he List.not_mem_nil)

theorem pointer_effect (left wasLeft : Bool) : Yields (pointer s x y left wasLeft) fun r =>
    PointerEffect s x y left wasLeft r.1 r.2.1 r.2.2 := by
  have hit := yields_rposition (f := (·.contains x y)) fun w hw => Window.contains_eq (hs.windows w hw) x y
  unfold pointer
  split
  · rename_i grab hgrab
    exact (drag_effect hs hx hy hgrab wasLeft).bind fun r hr => yields_ok hr
  · rename_i hgrab
    unfold track
    refine hit.bind fun hit hhit => ?_
    cases wasLeft with
    | false =>
      cases hit with
      | none => exact yields_ok (.outside hgrab)
      | some index =>
        obtain ⟨w, hw, hc⟩ := hhit index rfl
        exact (press_effect hs hx hy hgrab hw hc).bind fun r hr => yields_ok hr
    | true => exact hover_effect hs hx hy true true (fun _ => ⟨hgrab, rfl⟩) nofun hhit
  · unfold track
    refine hit.bind fun hit hhit => ?_
    cases wasLeft with
    | false => exact hover_effect hs hx hy false false nofun nofun hhit
    | true =>
      simp only [Bool.false_and, Bool.not_false, Bool.true_and, Bool.false_eq_true, if_false, if_true]
      cases hp : s.pressed with
      | none =>
        have h : Yields (hover { s with grab := none } x y hit) fun r =>
            PointerEffect s x y false true r.1 r.2.1 r.2.2 :=
          hover_effect hs hx hy false true nofun (fun _ _ => hp) hhit
        rwa [hp] at h
      | some id =>
        obtain ⟨w, hw, rfl⟩ := mem_ids.mp (hs.pressed id hp)
        dsimp only
        unfold release
        rw [find?_of_mem hs.distinct hw]
        dsimp only
        rw [Window.localPoint_eq (hs.windows w hw) hx hy, ok_bind]
        exact yields_ok (.release hw hp)

end Pointer

end WindowServer

end Pippin.Client
