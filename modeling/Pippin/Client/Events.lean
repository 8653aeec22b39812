import Pippin.Client.Library
import Pippin.Client.Steps

/-! Events on their way to a client: the guest prints one on a line, the broker finds the owner of its window,
and the client library reads it back. -/

namespace Pippin.Client
open Checked Keyed Str

def EventKind.name : EventKind → Str
  | .WindowCreated => "WindowCreated".toList
  | .CloseRequested => "CloseRequested".toList
  | .Resize => "Resize".toList
  | .Move => "Move".toList
  | .FocusGained => "FocusGained".toList
  | .FocusLost => "FocusLost".toList
  | .MouseMove => "MouseMove".toList
  | .MouseDown => "MouseDown".toList
  | .MouseUp => "MouseUp".toList
  | .KeyDown => "KeyDown".toList
  | .KeyUp => "KeyUp".toList
  | .TextInput => "TextInput".toList
  | .Redraw => "Redraw".toList

namespace Event

def line (e : Event) : Str :=
  ['|'].intercalate ["EV".toList, decimal e.id.toNat, e.kind.name, decimalInt e.a, decimalInt e.b]

def Word (e : Event) : Prop := I32 e.a ∧ I32 e.b

end Event

/-- The window that the broker forwards a line of the guest for, `none` if the line is an answer. -/
def forwarded (line : Str) : Option (Option UInt32) :=
  if "EV|".toList.isPrefixOf line then
    match line.splitOn '|' with
    | _ :: id :: _ :: _ => some (tryParseUInt id)
    | _ => some none
  else none

namespace WindowClient

structure WindowEvent where
  windowId : UInt32
  kind : Str
  a : Int
  b : Int
deriving DecidableEq, Repr

inductive Incoming where
  | event (e : WindowEvent)
  | dropped
  | reply (line : Str)
deriving DecidableEq, Repr

/-- What `ReadLoopAsync` makes of a line. -/
def readLine (line : Str) : Incoming :=
  if "EV|".toList.isPrefixOf line then
    match line.splitOn '|' with
    | [_, id, kind, a, b] =>
      match tryParseUInt id, tryParseInt a, tryParseInt b with
      | some id, some a, some b => .event ⟨id, kind, a, b⟩
      | _, _, _ => .dropped
    | _ => .dropped
  else .reply line

end WindowClient

/-! ## A line is read back -/

variable {e : Event}

theorem name_injective {k l : EventKind} (h : k.name = l.name) : k = l := by
  revert h
  cases k <;> cases l <;> decide

theorem plain_name (kind : EventKind) : WindowClient.Plain kind.name := by
  cases kind <;> exact forall_of_all (by decide)

namespace Event

theorem line_eq (e : Event) : ∃ rest, e.line = "EV|".toList ++ rest := by
  refine ⟨['|'].intercalate [decimal e.id.toNat, e.kind.name, decimalInt e.a, decimalInt e.b], ?_⟩
  unfold line
  rw [List.intercalate_cons_cons]
  rfl

theorem starts_line (e : Event) : "EV|".toList.isPrefixOf e.line = true := by
  obtain ⟨rest, hrest⟩ := e.line_eq
  rw [hrest]
  exact List.isPrefixOf_iff_prefix.mpr (List.prefix_append _ _)

theorem splitOn_line (e : Event) :
    e.line.splitOn '|' = ["EV".toList, decimal e.id.toNat, e.kind.name, decimalInt e.a, decimalInt e.b] := by
  refine List.splitOn_intercalate '|' (fun f hf => ?_) (List.cons_ne_nil _ _)
  simp only [List.mem_cons, List.not_mem_nil, or_false] at hf
  intro hbar
  rcases hf with rfl | rfl | rfl | rfl | rfl
  · exact absurd hbar (by decide)
  · exact (WindowClient.plain_decimal _ _ hbar).2.2 rfl
  · exact (plain_name _ _ hbar).2.2 rfl
  · exact (WindowClient.plain_decimalInt _ _ hbar).2.2 rfl
  · exact (WindowClient.plain_decimalInt _ _ hbar).2.2 rfl

theorem forwarded_line (e : Event) : forwarded e.line = some (some e.id) := by
  unfold forwarded
  rw [e.starts_line, e.splitOn_line, if_pos rfl]
  exact congrArg some (tryParseUInt_decimal e.id)

theorem readLine_line (h : e.Word) : WindowClient.readLine e.line = .event ⟨e.id, e.kind.name, e.a, e.b⟩ := by
  unfold WindowClient.readLine
  rw [e.starts_line, e.splitOn_line, if_pos rfl]
  dsimp only
  rw [tryParseUInt_decimal, tryParseInt_decimalInt h.1, tryParseInt_decimalInt h.2]

end Event

/-! ## What the server tells its clients -/

def Words (events : List Event) : Prop := ∀ e ∈ events, e.Word

variable {events events' : List Event} {w : Window} {x y width height : Int} {id : UInt32} {index : Nat}

theorem words_nil : Words [] := fun _ h => absurd h List.not_mem_nil

theorem words_singleton {kind : EventKind} {a b : Int} (ha : I32 a) (hb : I32 b) : Words [⟨id, kind, a, b⟩] := by
  intro e he
  rw [List.mem_singleton.mp he]
  exact ⟨ha, hb⟩

theorem Words.append (h : Words events) (h' : Words events') : Words (events ++ events') := by
  intro e he
  exact (List.mem_append.mp he).elim (h e) (h' e)

theorem i32_zero : I32 0 := by decide

theorem i32_clampX (x : Int) : I32 (clampX x) := by
  have h := clampX_bounds x
  constructor <;> omega

theorem i32_clampY (y : Int) : I32 (clampY y) := by
  have h := clampY_bounds y
  constructor <;> omega

theorem i32_size (h : validSize width height = true) : I32 width ∧ I32 height := by
  have h := validSize_iff.mp h
  refine ⟨⟨?_, ?_⟩, ?_, ?_⟩ <;> omega

theorem localPoint_words : Ensures (w.localPoint x y) fun p => I32 p.1 ∧ I32 p.2 := by
  unfold Window.localPoint
  refine ensures_bind fun _ _ => ensures_bind fun a ha => ensures_bind fun _ _ => ensures_bind fun b hb => ?_
  obtain ⟨rfl, hx⟩ := i32_of_ok ha
  obtain ⟨rfl, hy⟩ := i32_of_ok hb
  exact ensures_ok ⟨hx, hy⟩

namespace WindowServer

variable {s t : WindowServer} {line : Str}

theorem focusEvents_words (s : WindowServer) (id : UInt32) : Words (s.focusEvents id) := by
  unfold focusEvents
  split_ifs
  · refine Words.append ?_ (words_singleton i32_zero i32_zero)
    split
    · exact words_singleton i32_zero i32_zero
    · exact words_nil
  · exact words_nil

theorem resize_words (width height : Int) : Ensures (resize s index width height) fun r => Words r.2 := by
  unfold resize
  split_ifs with hv
  · exact ensures_ok words_nil
  · rw [Bool.not_eq_true', Bool.not_eq_false] at hv
    obtain ⟨hw, hh⟩ := i32_size hv
    refine ensures_bind fun _ _ => ?_
    split_ifs
    · exact ensures_ok words_nil
    · refine ensures_bind fun _ _ => ensures_bind fun _ _ => ensures_ok ?_
      exact (words_singleton hw hh).append (words_singleton hw hh)

theorem focus_words (id : UInt32) : Ensures (focus s id) fun r => Words r.2 := by
  unfold focus
  dsimp only
  split
  · exact ensures_ok (focusEvents_words s id)
  · exact ensures_bind fun _ _ => ensures_ok (focusEvents_words s id)

theorem execute_words (hs : s.Inv) (args : List Str) (op : Option Op) :
    Ensures (execute s id index args op) fun r => Words r.2 := by
  have same : Ensures (.ok (s, [])) fun r : WindowServer × List Event => Words r.2 := ensures_ok words_nil
  have set : ∀ f : Window → Window, Ensures (modify s.windows index f >>= fun ws => .ok ({ s with windows := ws }, []))
      fun r : WindowServer × List Event => Words r.2 := fun f => ensures_bind fun _ _ => ensures_ok words_nil
  -- an event carries a clamped position, a size of a window or two zeros
  cases op with
  | none => exact same
  | some op =>
    cases op with
    | WC => exact same
    | WD =>
      unfold execute destroy
      refine ensures_bind fun r _ => ?_
      dsimp only
      split_ifs
      · split
        · exact ensures_ok (words_singleton i32_zero i32_zero)
        · exact ensures_ok words_nil
      · exact ensures_ok words_nil
    | WS => exact ensures_bind fun _ _ => focus_words id
    | WH =>
      refine ensures_bind fun _ _ => ?_
      split_ifs
      · exact ensures_ok (words_singleton i32_zero i32_zero)
      · exact ensures_ok words_nil
    | WT =>
      unfold execute
      dsimp only
      split
      · split_ifs
        · exact set _
        · exact same
      · exact same
    | WM =>
      unfold execute
      dsimp only
      split
      · rename_i x y _ _
        refine ensures_bind fun ws hws => ensures_bind fun v hv => ensures_ok ?_
        obtain ⟨w, hw⟩ : ∃ w : Window, v = { w with x := clampX x, y := clampY y } := by
          rw [modify_of_ok hws] at hv
          obtain ⟨w, -, rfl⟩ := Option.map_eq_some_iff.mp ((List.getElem?_modify_eq _ _ _).symm.trans (get_of_ok hv))
          exact ⟨w, rfl⟩
        rw [hw]
        exact words_singleton (i32_clampX x) (i32_clampY y)
      · exact same
    | WZ =>
      unfold execute
      dsimp only
      split
      · exact resize_words _ _
      · exact same
    | WK =>
      unfold execute
      dsimp only
      split
      · exact set _
      · exact same
    -- the size of a window is at most the screen's
    | WI =>
      refine ensures_bind fun w hw => ensures_ok ?_
      have hok := hs.windows w (List.mem_of_getElem? (get_of_ok hw))
      have hwidth := hok.width
      have hheight := hok.height
      exact words_singleton ⟨by omega, by omega⟩ ⟨by omega, by omega⟩
    | WB => exact set _
    | WP =>
      refine ensures_bind fun w _ => ?_
      split
      · exact ensures_bind fun _ _ => ensures_bind fun _ _ => ensures_ok words_nil
      · exact ensures_ok words_nil
    | WE => exact set _

theorem command_words (hs : s.Inv) (line : Str) : Ensures (s.command line) fun r => Words r.2 := by
  unfold command
  split
  · exact ensures_ok words_nil
  · rename_i id args _
    rcases create_cases s id args with h | ⟨x, y, width, height, title, -, -, hv, -, h⟩
    · rw [h]
      exact ensures_ok words_nil
    · rw [h]
      obtain ⟨hw, hh⟩ := i32_size hv
      exact ensures_ok ((words_singleton (i32_clampX x) (i32_clampY y)).append (words_singleton hw hh))
  · split
    · exact ensures_ok words_nil
    · exact execute_words hs _ _

theorem drag_words (g : Grab) : Ensures (drag s x y g) fun r => Words r.2 := by
  cases g with
  | Move id ox oy =>
    unfold drag
    dsimp only
    split
    · exact ensures_ok words_nil
    · refine ensures_bind fun _ _ => ensures_bind fun _ _ => ensures_bind fun _ _ => ?_
      split_ifs
      · exact ensures_bind fun _ _ => ensures_ok (words_singleton (i32_clampX _) (i32_clampY _))
      · exact ensures_ok words_nil
  | Resize id sx sy sw sh =>
    unfold drag
    dsimp only
    split
    · exact ensures_ok words_nil
    · refine ensures_bind fun _ _ => ensures_bind fun _ _ => ensures_bind fun _ _ => ensures_bind fun _ _ => ?_
      exact resize_words _ _

theorem press_words (index : Nat) : Ensures (press s x y index) fun r => Words r.2 := by
  unfold press
  refine ensures_bind fun v _ => ensures_bind fun r hr => ?_
  have hfocus := focus_words _ r hr
  dsimp only
  refine ensures_bind fun w _ => ensures_bind fun _ _ => ensures_bind fun _ _ => ?_
  split_ifs
  · refine ensures_bind fun _ _ => ensures_bind fun _ _ => ?_
    split_ifs
    · exact ensures_ok (hfocus.append (words_singleton i32_zero i32_zero))
    · exact ensures_ok hfocus
  · refine ensures_bind fun corner _ => ?_
    split
    · exact ensures_ok hfocus
    · refine ensures_bind fun p hp => ?_
      obtain ⟨hx, hy⟩ := localPoint_words p hp
      split_ifs
      · exact ensures_ok (hfocus.append (words_singleton hx hy))
      · exact ensures_ok hfocus

theorem release_words (id : UInt32) : Ensures (release s x y id) fun r => Words r.2 := by
  unfold release
  split
  · refine ensures_bind fun p hp => ?_
    obtain ⟨hx, hy⟩ := localPoint_words p hp
    exact ensures_ok (words_singleton hx hy)
  · exact ensures_ok words_nil

theorem hover_words (hit : Option Nat) : Ensures (hover s x y hit) fun r => Words r.2.2 := by
  unfold hover
  split
  · refine ensures_bind fun w _ => ensures_bind fun p hp => ?_
    obtain ⟨hx, hy⟩ := localPoint_words p hp
    dsimp only
    split_ifs
    · exact ensures_ok (words_singleton hx hy)
    · exact ensures_ok words_nil
  · exact ensures_ok words_nil

theorem track_words (left wasLeft : Bool) : Ensures (track s x y left wasLeft) fun r => Words r.2.2 := by
  unfold track
  refine ensures_bind fun hit _ => ?_
  split_ifs
  · split
    · exact ensures_ok words_nil
    · exact ensures_bind fun r hr => ensures_ok (press_words _ r hr)
  · split
    · exact ensures_bind fun r hr => ensures_ok (release_words _ r hr)
    · exact hover_words hit
  · exact hover_words hit

theorem pointer_words (left wasLeft : Bool) : Ensures (pointer s x y left wasLeft) fun r => Words r.2.2 := by
  unfold pointer
  split
  · exact ensures_bind fun r hr => ensures_ok (drag_words _ r hr)
  · exact track_words true wasLeft
  · exact track_words false wasLeft

theorem key_words (scan : UInt8) (text : Option UInt8) : Words (s.key scan text) := by
  have byte : ∀ b : UInt8, I32 b.toNat := by
    intro b
    have := b.toNat_lt
    constructor <;> omega
  unfold key
  split
  · exact words_nil
  · rw [← List.singleton_append]
    refine Words.append (words_singleton (byte _) i32_zero) ?_
    split
    · exact words_singleton (byte _) i32_zero
    · exact words_nil

inductive Emits : List Event → Prop where
  | command {s t : WindowServer} {events : List Event} (line : Str) (hs : Reachable s)
      (h : s.command line = .ok (t, events)) : Emits events
  | pointer {s t : WindowServer} {owned : Bool} {events : List Event} (x y : Int) (left wasLeft : Bool)
      (hs : Reachable s) (h : s.pointer x y left wasLeft = .ok (owned, t, events)) : Emits events
  | key {s : WindowServer} (scan : UInt8) (text : Option UInt8) (hs : Reachable s) : Emits (s.key scan text)

theorem Emits.words (h : Emits events) : Words events := by
  cases h with
  | command line hs h => exact command_words hs.inv line _ h
  | pointer x y left wasLeft hs h => exact pointer_words left wasLeft _ h
  | key scan text hs => exact key_words scan text

end WindowServer

/-- No event is lost or changed on the line: for every event of every run, the broker takes the line for an event
of that window, and the library of the client reads the window, the kind and both values. -/
theorem event_round_trip (h : WindowServer.Emits events) (he : e ∈ events) : forwarded e.line = some (some e.id) ∧
    WindowClient.readLine e.line = .event ⟨e.id, e.kind.name, e.a, e.b⟩ ∧
    ∀ e' ∈ events, e'.line = e.line → e' = e := by
  have hread := Event.readLine_line (h.words e he)
  refine ⟨e.forwarded_line, hread, fun e' he' hline => ?_⟩
  have hread' := Event.readLine_line (h.words e' he')
  rw [hline, hread] at hread'
  obtain ⟨id, kind, a, b⟩ := e
  obtain ⟨id', kind', a', b'⟩ := e'
  simp only [WindowClient.Incoming.event.injEq, WindowClient.WindowEvent.mk.injEq] at hread'
  obtain ⟨rfl, hkind, rfl, rfl⟩ := hread'
  rw [name_injective hkind]

theorem event_round_trip_created :
    WindowClient.readLine "EV|1|Redraw|80|50".toList = .event ⟨1, "Redraw".toList, 80, 50⟩ ∧
      forwarded "EV|1|Redraw|80|50".toList = some (some 1) := by
  have hline : Event.line ⟨1, .Redraw, 80, 50⟩ = "EV|1|Redraw|80|50".toList := by decide +kernel
  have h := event_round_trip (.command _ .new WindowServer.command_single) (List.mem_cons_of_mem _ List.mem_cons_self)
  rw [hline] at h
  exact ⟨h.2.1, h.1⟩

end Pippin.Client
