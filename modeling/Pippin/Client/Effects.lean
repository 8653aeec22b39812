import Pippin.Client.WindowServer
import Pippin.Lib.Keyed

/-! What the operations do on a server in good shape: each one changes, raises or drops
the addressed window and no check faults. -/

namespace Pippin.Client
open Checked Keyed

structure Window.Ok (w : Window) : Prop where
  id_ne : w.id ≠ 0
  width : 80 ≤ w.width ∧ w.width ≤ 600
  height : 50 ≤ w.height ∧ w.height ≤ 440
  length : w.surface.length = (w.width * w.height).toNat
  pixels : ∀ c ∈ w.surface, c ≤ 0xffffff
  x : 0 ≤ w.x ∧ w.x ≤ 984
  y : 0 ≤ w.y ∧ w.y ≤ 724
  title : w.title.len ≤ 48

/-- A grab names one of `ids`; its offsets come from an on-screen press. -/
def Grab.Ok (ids : List UInt32) : Grab → Prop
  | .Move id ox oy => id ∈ ids ∧ (0 ≤ ox ∧ ox ≤ 1023) ∧ 0 ≤ oy ∧ oy ≤ 767
  | .Resize id sx sy sw sh =>
    id ∈ ids ∧ ((0 ≤ sx ∧ sx ≤ 1023) ∧ 0 ≤ sy ∧ sy ≤ 767) ∧ (80 ≤ sw ∧ sw ≤ 600) ∧ 50 ≤ sh ∧ sh ≤ 440

namespace WindowServer

def ids (s : WindowServer) : List UInt32 := s.windows.map Window.id

structure Inv (s : WindowServer) : Prop where
  count : s.windows.length ≤ maxWindows
  distinct : Distinct Window.id s.windows
  windows : ∀ w ∈ s.windows, w.Ok
  grab : ∀ g, s.grab = some g → g.Ok s.ids
  pressed : ∀ id, s.pressed = some id → id ∈ s.ids

end WindowServer

variable {s : WindowServer} {w : Window} {id : UInt32} {index : Nat} {x y width height : Int}

theorem validSize_iff : validSize width height = true ↔
    (80 ≤ width ∧ width ≤ 600) ∧ 50 ≤ height ∧ height ≤ 440 := by
  unfold validSize maxWidth maxHeight
  simp only [Bool.and_eq_true, decide_eq_true_eq]
  omega

theorem clampX_bounds (x : Int) : 0 ≤ clampX x ∧ clampX x ≤ 984 := by
  unfold clampX clamp WIDTH
  split_ifs <;> omega

theorem clampY_bounds (y : Int) : 0 ≤ clampY y ∧ clampY y ≤ 724 := by
  unfold clampY clamp HEIGHT titleHeight
  split_ifs <;> omega

namespace Window

theorem frameWidth_eq (hw : w.Ok) : w.frameWidth = .ok (w.width + 2) := by
  have h := hw.width
  unfold frameWidth border
  rw [i32_eq (by decide) (by decide)]
  exact i32_eq (by omega) (by omega)

theorem frameHeight_eq (hw : w.Ok) : w.frameHeight = .ok (w.height + 45) := by
  have h := hw.height
  unfold frameHeight border titleHeight
  rw [i32_eq (by omega) (by omega)]
  show i32 (w.height + 44 + 1) = _
  rw [i32_eq (by omega) (by omega), Int.add_assoc]
  rfl

def covers (w : Window) (x y : Int) : Bool :=
  w.visible && decide (w.x ≤ x) && decide (w.y ≤ y) && decide (x < w.x + (w.width + 2)) &&
    decide (y < w.y + (w.height + 45))

theorem contains_eq (hw : w.Ok) (x y : Int) : w.contains x y = .ok (w.covers x y) := by
  have h1 := hw.width
  have h2 := hw.height
  have h3 := hw.x
  have h4 := hw.y
  unfold contains covers
  rw [frameWidth_eq hw, frameHeight_eq hw]
  show (if _ then i32 (w.x + (w.width + 2)) >>= fun r =>
    if x < r then i32 (w.y + (w.height + 45)) >>= fun b => pure (decide (y < b)) else pure false
    else pure false) = _
  rw [i32_eq (by omega) (by omega), i32_eq (by omega) (by omega)]
  split_ifs with h
  · rw [h, Bool.true_and]
    show (if x < w.x + (w.width + 2) then _ else _) = _
    split_ifs with hx
    · simp only [hx, decide_true, Bool.true_and]
      rfl
    · simp only [hx, decide_false, Bool.false_and]
      rfl
  · rw [Bool.eq_false_iff.mpr h]
    rfl

theorem localPoint_eq (hw : w.Ok) (hx : 0 ≤ x ∧ x ≤ 1023) (hy : 0 ≤ y ∧ y ≤ 767) :
    w.localPoint x y = .ok (x - w.x - 1, y - w.y - 44) := by
  have h3 := hw.x
  have h4 := hw.y
  unfold localPoint border titleHeight
  rw [i32_eq (by omega) (by omega), i32_eq (by omega) (by omega)]
  show (i32 (x - w.x - 1) >>= fun a => i32 (y - w.y - 44) >>= fun b => pure (a, b)) = _
  rw [i32_eq (by omega) (by omega), i32_eq (by omega) (by omega)]
  rfl

theorem resizeCorner_yields (hw : w.Ok) : Yields (w.resizeCorner x y) fun _ => True := by
  have h1 := hw.width
  have h2 := hw.height
  unfold resizeCorner
  rw [frameWidth_eq hw, frameHeight_eq hw]
  show Yields (i32 (w.width + 2 - 14) >>= fun a => if x ≥ a then
    i32 (w.height + 45 - 14) >>= fun b => pure (decide (y ≥ b)) else pure false) _
  rw [i32_eq (by omega) (by omega), i32_eq (by omega) (by omega)]
  show Yields (if x ≥ w.width + 2 - 14 then _ else _) _
  split_ifs <;> exact yields_ok trivial

def resized (width height : Int) (w : Window) : Window :=
  if w.width = width ∧ w.height = height then w
  else { w with width, height, surface := List.replicate (width * height).toNat SURFACE }

theorem resized_id : (w.resized width height).id = w.id := by
  unfold resized
  split_ifs <;> rfl

end Window

theorem area_eq (hw : 80 ≤ width ∧ width ≤ 600) (hh : 50 ≤ height ∧ height ≤ 440) :
    i32 (width * height) = .ok (width * height) := by
  have h1 : 0 ≤ width * height := Int.mul_nonneg (by omega) (by omega)
  have h2 : width * height ≤ 600 * 440 := Int.mul_le_mul hw.2 hh.2 (by omega) (by omega)
  exact i32_eq (by omega) (by omega)

namespace WindowServer

theorem mem_ids : id ∈ s.ids ↔ ∃ w ∈ s.windows, w.id = id := List.mem_map

theorem index_of_id (h : id ∈ s.ids) : ∃ (index : Nat) (w : Window),
    s.windows.findIdx? (fun w => w.id = id) = some index ∧ s.windows[index]? = some w ∧ w.id = id := by
  obtain ⟨v, hv, hid⟩ := mem_ids.mp h
  obtain ⟨index, hfind⟩ := findIdx?_of_mem hv hid
  obtain ⟨w, hw, hk⟩ := findIdx?_spec hfind
  exact ⟨index, w, hfind, hw, hk⟩

theorem modify_found (hs : s.Inv) (hw : s.windows[index]? = some w) (f : Window → Window) :
    modify s.windows index f = .ok (alter Window.id w.id f s.windows) := by
  rw [modify_eq f (List.getElem?_eq_some_iff.mp hw).1, modify_eq_alter hs.distinct hw rfl]

def altered (s : WindowServer) (id : UInt32) (f : Window → Window) : WindowServer :=
  { s with windows := alter Window.id id f s.windows }

def resizeEvents (w : Window) (width height : Int) : List Event :=
  if w.width = width ∧ w.height = height then []
  else [⟨w.id, .Resize, width, height⟩, ⟨w.id, .Redraw, width, height⟩]

theorem resize_eq (hs : s.Inv) (hw : s.windows[index]? = some w) (hv : validSize width height = true) :
    resize s index width height =
      .ok (s.altered w.id (Window.resized width height), resizeEvents w width height) := by
  obtain ⟨hwidth, hheight⟩ := validSize_iff.mp hv
  unfold resize
  rw [hv, get_eq hw, area_eq hwidth hheight]
  simp only [Bool.not_true, Bool.false_eq_true, if_false, ok_bind, modify_found hs hw]
  have hmem := List.mem_of_getElem? hw
  unfold altered resizeEvents
  split_ifs with h
  · have hid : alter Window.id w.id (fun v => v) s.windows = s.windows := by
      unfold alter
      simp
    rw [← alter_congr hs.distinct hmem (fun v => v) (Window.resized width height) (if_pos h).symm, hid]
    rfl
  · rw [alter_congr hs.distinct hmem _ (Window.resized width height) (if_neg h).symm]
    rfl

theorem resize_invalid (hv : ¬validSize width height = true) : resize s index width height = .ok (s, []) := by
  unfold resize
  rw [Bool.eq_false_iff.mpr hv]
  rfl

def created (id : UInt32) (title : Str) (x y width height : Int) : Window :=
  { id, title, x := clampX x, y := clampY y, width, height, visible := false,
    surface := List.replicate (width * height).toNat SURFACE, updating := false, cursor := 0 }

theorem create_eq {args : List Str} {title : Str} (hcount : s.windows.length < maxWindows) (hnew : id ∉ s.ids)
    (hx : int args 0 = some x) (hy : int args 1 = some y) (hw : int args 2 = some width)
    (hh : int args 3 = some height) (ht : args[4]? = some title) (hv : validSize width height = true)
    (hlen : title.len ≤ 48) : create s id args =
      .ok ({ s with windows := s.windows ++ [created id title x y width height] },
        [⟨id, .WindowCreated, clampX x, clampY y⟩, ⟨id, .Redraw, width, height⟩]) := by
  obtain ⟨hwidth, hheight⟩ := validSize_iff.mp hv
  have hnone : s.windows.any (fun w => w.id = id) = false := by
    rw [List.any_eq_false]
    intro w hw
    simpa using fun he => hnew (mem_ids.mpr ⟨w, hw, he⟩)
  unfold create
  rw [hnone, hx, hy, hw, hh, ht, decide_eq_false (Nat.not_le.mpr hcount)]
  simp only [hv, decide_eq_false (Nat.not_lt.mpr hlen), area_eq hwidth hheight, ok_bind, Bool.or_self,
    Bool.not_true, Bool.false_eq_true, if_false]
  rfl

def focusEvents (s : WindowServer) (id : UInt32) : List Event :=
  if s.focused ≠ some id then
    (match s.focused with
      | some old => [⟨old, .FocusLost, 0, 0⟩]
      | none => []) ++ [⟨id, .FocusGained, 0, 0⟩]
  else []

theorem focus_eq (hs : Distinct Window.id s.windows) (hw : w ∈ s.windows) :
    focus s w.id = .ok ({ s with windows := raise Window.id w.id s.windows, focused := some w.id },
      focusEvents s w.id) := by
  obtain ⟨index, hi⟩ : ∃ index, s.windows.findIdx? (fun v => v.id = w.id) = some index :=
    findIdx?_of_mem hw rfl
  obtain ⟨v, hv, hid⟩ := findIdx?_spec hi
  have hvw : v = w := hs.eq (List.mem_of_getElem? hv) hw hid
  subst hvw
  unfold focus
  dsimp only
  rw [hi, raise_eq hs hw, ← eraseIdx_eq_without hs hv rfl]
  show remove s.windows index >>= _ = _
  rw [remove_eq hv]
  rfl

/-- The focus after the window `id` is gone. -/
def refocus (s : WindowServer) (id : UInt32) : Option UInt32 :=
  if s.focused = some id then
    ((without Window.id id s.windows).reverse.find? (·.visible)).map Window.id
  else s.focused

def refocusEvents (s : WindowServer) (id : UInt32) : List Event :=
  if s.focused = some id then (s.refocus id).toList.map fun next => ⟨next, .FocusGained, 0, 0⟩ else []

theorem destroy_eq (hs : s.Inv) (hw : s.windows[index]? = some w) :
    destroy s w.id index = .ok (⟨without Window.id w.id s.windows, s.refocus w.id, none, none⟩,
      s.refocusEvents w.id) := by
  unfold destroy refocusEvents refocus
  rw [remove_eq hw, eraseIdx_eq_without hs.distinct hw rfl]
  show (if s.focused = some w.id then _ else _) = _
  split_ifs with hf
  · cases hn : (without Window.id w.id s.windows).reverse.find? (·.visible) with
    | none => rfl
    | some next => rfl
  · rfl

theorem command_execute {line : Str} {op : Op} {args : List Str} (h : address line = some (some op, id, args))
    (hop : op ≠ .WC) (hid : id ∈ s.ids) : ∃ index w, s.windows[index]? = some w ∧ w.id = id ∧
      s.command line = s.execute w.id index args (some op) := by
  obtain ⟨v, hv, hvid⟩ := mem_ids.mp hid
  obtain ⟨index, hi⟩ : ∃ index, s.windows.findIdx? (fun w => w.id = id) = some index := findIdx?_of_mem hv hvid
  obtain ⟨w, hw, rfl⟩ := findIdx?_spec hi
  refine ⟨index, w, hw, rfl, ?_⟩
  unfold command
  rw [h]
  cases op with
  | WC => exact absurd rfl hop
  | _ =>
    dsimp only
    rw [hi]

end WindowServer

end Pippin.Client
