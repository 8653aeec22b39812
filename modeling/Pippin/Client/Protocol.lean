import Pippin.Client.Representation

/-! Agreement of `validate` and `command`. A request is what a line asks for, with its
fields parsed; `apply` is its effect on the windows. An accepted line reads as a request
that the executor carries out in full. -/

namespace Pippin.Client
open Checked Keyed Str

inductive Request where
  | create (id : UInt32) (x y width height : Int) (title : Str)
  | destroy (id : UInt32)
  | unhide (id : UInt32)
  | hide (id : UInt32)
  | retitle (id : UInt32) (title : Str)
  | move (id : UInt32) (x y : Int)
  | resize (id : UInt32) (width height : Int)
  | setCursor (id : UInt32) (cursor : UInt8)
  | redraw (id : UInt32)
  | beginUpdate (id : UInt32)
  | write (id : UInt32) (offset : Nat) (runs : List (Nat × UInt32))
  | endUpdate (id : UInt32)

inductive CursorName : Str → UInt8 → Prop where
  | default : CursorName "default".toList 0
  | hand : CursorName "hand".toList 1
  | text : CursorName "text".toList 2

/-- The request a line stands for: every field is there, parses, and none is left over. -/
inductive Reads (line : Str) : Request → Prop where
  | create {id a b c d x y width height title} (h : address line = some (some .WC, id, [a, b, c, d, title]))
      (hx : parseI32 a = some x) (hy : parseI32 b = some y) (hw : parseI32 c = some width)
      (hh : parseI32 d = some height) : Reads line (.create id x y width height title)
  | destroy {id} (h : address line = some (some .WD, id, [])) : Reads line (.destroy id)
  | unhide {id} (h : address line = some (some .WS, id, [])) : Reads line (.unhide id)
  | hide {id} (h : address line = some (some .WH, id, [])) : Reads line (.hide id)
  | retitle {id title} (h : address line = some (some .WT, id, [title])) : Reads line (.retitle id title)
  | move {id a b x y} (h : address line = some (some .WM, id, [a, b])) (hx : parseI32 a = some x)
      (hy : parseI32 b = some y) : Reads line (.move id x y)
  | resize {id a b width height} (h : address line = some (some .WZ, id, [a, b]))
      (hw : parseI32 a = some width) (hh : parseI32 b = some height) : Reads line (.resize id width height)
  | setCursor {id a cursor} (h : address line = some (some .WK, id, [a])) (hc : CursorName a cursor) :
      Reads line (.setCursor id cursor)
  | redraw {id} (h : address line = some (some .WI, id, [])) : Reads line (.redraw id)
  | beginUpdate {id} (h : address line = some (some .WB, id, [])) : Reads line (.beginUpdate id)
  | write {id a b offset runs} (h : address line = some (some .WP, id, [a, b]))
      (ho : parseUsize a = some offset) (hr : (b.splitOn ';').mapM parseRun = some runs) :
      Reads line (.write id offset runs)
  | endUpdate {id} (h : address line = some (some .WE, id, [])) : Reads line (.endUpdate id)

def runPixels (runs : List (Nat × UInt32)) : List UInt32 :=
  runs.flatMap fun r => List.replicate r.1 (r.2 &&& 0x00ffffff)

def splice (surface : List UInt32) (offset : Nat) (data : List UInt32) : List UInt32 :=
  surface.take offset ++ data ++ surface.drop (offset + data.length)

namespace Request

def id : Request → UInt32
  | create id .. | destroy id | unhide id | hide id | retitle id _ | move id .. | resize id ..
  | setCursor id _ | redraw id | beginUpdate id | write id .. | endUpdate id => id

def apply : Request → List Window → List Window
  | create id x y width height title, ws => ws ++ [WindowServer.created id title x y width height]
  | destroy id, ws => without Window.id id ws
  | unhide id, ws => raise Window.id id (alter Window.id id (fun w => { w with visible := true }) ws)
  | hide id, ws => alter Window.id id (fun w => { w with visible := false }) ws
  | retitle id title, ws => alter Window.id id (fun w => { w with title }) ws
  | move id x y, ws => alter Window.id id (fun w => { w with x := clampX x, y := clampY y }) ws
  | resize id width height, ws => alter Window.id id (Window.resized width height) ws
  | setCursor id cursor, ws => alter Window.id id (fun w => { w with cursor }) ws
  | redraw _, ws => ws
  | beginUpdate id, ws => alter Window.id id (fun w => { w with updating := true }) ws
  | write id offset runs, ws =>
    alter Window.id id (fun w => { w with surface := splice w.surface offset (runPixels runs) }) ws
  | endUpdate id, ws => alter Window.id id (fun w => { w with updating := false }) ws

/-- What the state must allow for a request to be carried out. -/
def Allowed (s : WindowServer) : Request → Prop
  | create id _ _ width height title =>
    s.windows.length < maxWindows ∧ id ∉ s.ids ∧ validSize width height = true ∧ title.len ≤ 48
  | retitle id title => id ∈ s.ids ∧ title.len ≤ 48
  | resize id width height => id ∈ s.ids ∧ validSize width height = true
  | write id offset runs => ∃ w ∈ s.windows, w.id = id ∧ w.updating = true ∧ (∀ r ∈ runs, 0 < r.1) ∧
      offset + (runPixels runs).length ≤ w.surface.length
  | r => r.id ∈ s.ids

end Request

variable {s : WindowServer} {line : Str} {w : Window}

theorem length_runPixels_cons (r : Nat × UInt32) (runs : List (Nat × UInt32)) :
    (runPixels (r :: runs)).length = r.1 + (runPixels runs).length := by
  simp [runPixels]

theorem checkedAdd_eq {a b c : Nat} (h : checkedAdd a b = some c) : c = a + b := by
  unfold checkedAdd at h
  split_ifs at h
  exact (Option.some.inj h).symm

theorem validRuns_spec {len pos : Nat} {runs : List Str} (h : WindowServer.validRuns len pos runs = true) :
    ∃ parsed, runs.mapM parseRun = some parsed ∧ (∀ r ∈ parsed, 0 < r.1) ∧
      (runs ≠ [] → pos + (runPixels parsed).length ≤ len) := by
  -- on the runs: `pos` is where the next one starts
  induction runs generalizing pos with
  | nil => exact ⟨[], rfl, nofun, fun h => absurd rfl h⟩
  | cons run runs ih =>
    unfold WindowServer.validRuns at h
    cases hrun : parseRun run with
    | none =>
      rw [hrun] at h
      cases h
    | some r =>
      rw [hrun] at h
      dsimp only at h
      cases hadd : checkedAdd pos r.1 with
      | none =>
        rw [hadd] at h
        cases h
      | some stop =>
        rw [hadd] at h
        dsimp only at h
        split_ifs at h with hbad
        obtain ⟨parsed, hp, hpos, hlen⟩ := ih h
        have hstop := checkedAdd_eq hadd
        refine ⟨r :: parsed, ?_, ?_, ?_⟩
        · rw [List.mapM_cons, hrun, hp]
          rfl
        · intro q hq
          rcases List.mem_cons.mp hq with rfl | hq
          · omega
          · exact hpos q hq
        · intro _
          rw [length_runPixels_cons]
          cases runs with
          | nil =>
            cases hp
            show pos + (r.1 + 0) ≤ len
            omega
          | cons run' runs =>
            have := hlen (List.cons_ne_nil _ _)
            omega

theorem splice_splice {surface d e : List UInt32} {pos : Nat}
    (h : pos + (d.length + e.length) ≤ surface.length) :
    splice (splice surface pos d) (pos + d.length) e = splice surface pos (d ++ e) := by
  have hpos : (surface.take pos).length = pos := by
    rw [List.length_take]
    omega
  have hhead : (surface.take pos ++ d).length = pos + d.length := by rw [List.length_append, hpos]
  have htail : List.drop (pos + d.length + e.length) (surface.take pos ++ d ++ surface.drop (pos + d.length)) =
      surface.drop (pos + (d ++ e).length) := by
    rw [← hhead, List.drop_length_add_append, hhead, List.drop_drop, List.length_append, Nat.add_assoc]
  unfold splice
  rw [List.take_left' hhead, htail, List.append_assoc _ d e]

theorem fillSlice_splice {surface : List UInt32} {pos count : Nat} (c : UInt32)
    (h : pos + count ≤ surface.length) :
    fillSlice surface pos (pos + count) c = .ok (splice surface pos (List.replicate count c)) := by
  rw [fillSlice_eq c (Nat.le_add_right _ _) h, splice, List.length_replicate, Nat.add_sub_cancel_left]

theorem writeRuns_eq {surface : List UInt32} {pos : Nat} {runs : List Str} {parsed : List (Nat × UInt32)}
    (hp : runs.mapM parseRun = some parsed) (hpos : ∀ r ∈ parsed, 0 < r.1)
    (hlen : pos + (runPixels parsed).length ≤ surface.length) (hsmall : surface.length < 2 ^ 64) :
    WindowServer.writeRuns surface pos runs = .ok (splice surface pos (runPixels parsed)) := by
  induction runs generalizing surface pos parsed with
  | nil =>
    cases hp
    show Except.ok surface = .ok (surface.take pos ++ [] ++ surface.drop pos)
    rw [List.append_nil, List.take_append_drop]
  | cons run runs ih =>
    rw [List.mapM_cons] at hp
    obtain ⟨r, hr, hp⟩ := Option.bind_eq_some_iff.mp hp
    obtain ⟨rest, hrest, hp⟩ := Option.bind_eq_some_iff.mp hp
    cases hp
    rw [length_runPixels_cons] at hlen
    have hr0 : 0 < r.1 := hpos r List.mem_cons_self
    have hadd : checkedAdd pos r.1 = some (pos + r.1) := if_pos (by omega)
    have hfit : ¬(r.1 = 0 ∨ pos + r.1 > surface.length) := by omega
    have hpix : runPixels (r :: rest) = List.replicate r.1 (r.2 &&& 0x00ffffff) ++ runPixels rest :=
      List.flatMap_cons
    have hsl : (splice surface pos (List.replicate r.1 (r.2 &&& 0x00ffffff))).length = surface.length := by
      simp only [splice, List.length_append, List.length_take, List.length_replicate, List.length_drop]
      omega
    unfold WindowServer.writeRuns
    rw [hr]
    dsimp only
    rw [hadd]
    dsimp only
    rw [if_neg hfit, fillSlice_splice _ (by omega), ok_bind,
      ih hrest (fun q hq => hpos q (List.mem_cons_of_mem r hq)) (by omega) (by omega), hpix,
      ← splice_splice (by rw [List.length_replicate]; omega), List.length_replicate]

theorem getElem?_isNone {args : List Str} {n : Nat} : args[n]?.isNone = true ↔ args.length ≤ n := by
  rw [Option.isNone_iff_eq_none, List.getElem?_eq_none_iff]

theorem address_join {op : Str} {id : UInt32} {fields : List Str} (hid : id ≠ 0) (hop : '|' ∉ op)
    (hf : ∀ f ∈ fields, '|' ∉ f) :
    address (['|'].intercalate (op :: decimal id.toNat :: fields)) = some (Op.read op, id, fields) := by
  have hbar : ∀ f ∈ op :: decimal id.toNat :: fields, '|' ∉ f := by
    intro f h
    rcases List.mem_cons.mp h with rfl | h
    · exact hop
    rcases List.mem_cons.mp h with rfl | h
    · exact not_mem_decimal (by decide)
    · exact hf f h
  unfold address
  rw [List.splitOn_intercalate '|' hbar (List.cons_ne_nil _ _)]
  dsimp only
  rw [parseU32_decimal]
  exact if_neg hid

theorem address_bare {op : Str} {id : UInt32} (hid : id ≠ 0) (hop : '|' ∉ op) :
    address (op ++ '|' :: decimal id.toNat) = some (Op.read op, id, []) := by
  have hline : op ++ '|' :: decimal id.toNat = ['|'].intercalate [op, decimal id.toNat] := by
    simp [List.intercalate_cons_cons]
  rw [hline]
  exact address_join hid hop nofun

theorem validRuns_of_fits {len pos : Nat} {runs : List Str} {parsed : List (Nat × UInt32)}
    (hp : runs.mapM parseRun = some parsed) (hpos : ∀ r ∈ parsed, 0 < r.1)
    (hlen : pos + (runPixels parsed).length ≤ len) (hsmall : len < 2 ^ 64) :
    WindowServer.validRuns len pos runs = true := by
  induction runs generalizing pos parsed with
  | nil => rfl
  | cons run runs ih =>
    rw [List.mapM_cons] at hp
    obtain ⟨r, hr, hp⟩ := Option.bind_eq_some_iff.mp hp
    obtain ⟨rest, hrest, hp⟩ := Option.bind_eq_some_iff.mp hp
    cases hp
    rw [length_runPixels_cons] at hlen
    have hr0 : 0 < r.1 := hpos r List.mem_cons_self
    have hadd : checkedAdd pos r.1 = some (pos + r.1) := if_pos (by omega)
    have hfit : ¬(r.1 = 0 ∨ pos + r.1 > len) := by omega
    unfold WindowServer.validRuns
    rw [hr]
    dsimp only
    rw [hadd]
    dsimp only
    rw [if_neg hfit]
    exact ih hrest (fun q hq => hpos q (List.mem_cons_of_mem r hq)) (by omega)

/-! How many fields an accepted operation has left. -/

theorem no_field_left {args : List Str} (h : args[0]?.isNone = true) : args = [] :=
  List.length_eq_zero_iff.mp (Nat.le_zero.mp (getElem?_isNone.mp h))

theorem one_field_left {args : List Str} {a : Str} (h0 : args[0]? = some a) (h1 : args[1]?.isNone = true) :
    args = [a] := by
  match args, Nat.le_antisymm (getElem?_isNone.mp h1) (List.getElem?_eq_some_iff.mp h0).1 with
  | [b], _ =>
    cases h0
    rfl

theorem two_fields_left {args : List Str} {b : Str} (h1 : args[1]? = some b) (h2 : args[2]?.isNone = true) :
    ∃ a, args = [a, b] := by
  match args, Nat.le_antisymm (getElem?_isNone.mp h2) (List.getElem?_eq_some_iff.mp h1).1 with
  | [a, c], _ =>
    cases h1
    exact ⟨a, rfl⟩

theorem five_fields_left {args : List Str} {e : Str} (h4 : args[4]? = some e) (h : args.length ≤ 5) :
    ∃ a b c d, args = [a, b, c, d, e] := by
  match args, Nat.le_antisymm h (List.getElem?_eq_some_iff.mp h4).1 with
  | [a, b, c, d, f], _ =>
    cases h4
    exact ⟨a, b, c, d, rfl⟩

theorem validate_reads (hv : s.validate line = true) : ∃ r, Reads line r ∧ r.Allowed s := by
  unfold WindowServer.validate at hv
  split at hv
  · cases hv
  · rename_i id args h
    split at hv
    · rename_i x y width height title hx hy hw hh ht
      simp only [Bool.and_eq_true, decide_eq_true_eq, getElem?_isNone] at hv
      obtain ⟨⟨⟨⟨hcount, hnew⟩, hsize⟩, hlen⟩, hend⟩ := hv
      obtain ⟨a, b, c, d, rfl⟩ := five_fields_left ht hend
      refine ⟨_, .create h hx hy hw hh, hcount, fun hid => ?_, hsize, hlen⟩
      obtain ⟨v, hv, rfl⟩ := WindowServer.mem_ids.mp hid
      simp only [Bool.not_eq_true', List.any_eq_false, decide_eq_true_eq] at hnew
      exact hnew v hv rfl
    · cases hv
  · rename_i op id args hop h
    split at hv
    · cases hv
    · rename_i w hfind
      have hid : w.id = id := by simpa using List.find?_some hfind
      have hwin := List.mem_of_find?_eq_some hfind
      have hmem : id ∈ s.ids := WindowServer.mem_ids.mpr ⟨w, hwin, hid⟩
      -- each operation has exactly the fields of its request, no more
      cases op with
      | none => cases hv
      | some op =>
        cases op with
        | WC => exact (hop rfl).elim
        | WD => exact ⟨_, .destroy (no_field_left hv ▸ h), hmem⟩
        | WS => exact ⟨_, .unhide (no_field_left hv ▸ h), hmem⟩
        | WH => exact ⟨_, .hide (no_field_left hv ▸ h), hmem⟩
        | WI => exact ⟨_, .redraw (no_field_left hv ▸ h), hmem⟩
        | WB => exact ⟨_, .beginUpdate (no_field_left hv ▸ h), hmem⟩
        | WE => exact ⟨_, .endUpdate (no_field_left hv ▸ h), hmem⟩
        | WT =>
          simp only [Bool.and_eq_true, Option.any_eq_true, decide_eq_true_eq] at hv
          obtain ⟨⟨title, ht, hlen⟩, hend⟩ := hv
          exact ⟨_, .retitle (one_field_left ht hend ▸ h), hmem, hlen⟩
        | WM =>
          simp only [Bool.and_eq_true, Option.isSome_iff_exists] at hv
          obtain ⟨⟨⟨x, hx⟩, y, hy⟩, hend⟩ := hv
          obtain ⟨b, hb, -⟩ := Option.bind_eq_some_iff.mp hy
          obtain ⟨a, rfl⟩ := two_fields_left hb hend
          exact ⟨_, .move h hx hy, hmem⟩
        | WZ =>
          dsimp only at hv
          split at hv
          · rename_i width height hw hh
            simp only [Bool.and_eq_true] at hv
            obtain ⟨b, hb, -⟩ := Option.bind_eq_some_iff.mp hh
            obtain ⟨a, rfl⟩ := two_fields_left hb hv.2
            exact ⟨_, .resize h hw hh, hmem, hv.1⟩
          · cases hv
        | WK =>
          simp only [Bool.and_eq_true, Option.any_eq_true, Bool.or_eq_true, beq_iff_eq] at hv
          obtain ⟨⟨c, hc, hname⟩, hend⟩ := hv
          have hargs := one_field_left hc hend
          subst hargs
          rcases hname with (rfl | rfl) | rfl
          · exact ⟨_, .setCursor h .default, hmem⟩
          · exact ⟨_, .setCursor h .hand, hmem⟩
          · exact ⟨_, .setCursor h .text, hmem⟩
        | WP =>
          dsimp only at hv
          split_ifs at hv with hup
          split at hv
          · rename_i pos runs hpos hruns
            split_ifs at hv with hbad
            simp only [Bool.or_eq_true, not_or, Bool.not_eq_true, Option.isSome_eq_false_iff] at hbad
            obtain ⟨a, rfl⟩ := two_fields_left hruns hbad.2
            obtain ⟨parsed, hp, hcount, hlen⟩ := validRuns_spec hv
            refine ⟨_, .write h hpos hp, w, hwin, hid, ?_, hcount, hlen (List.splitOn_ne_nil _ _)⟩
            simpa using hup
          · cases hv

theorem surface_lt (hw : w.Ok) : w.surface.length < 2 ^ 64 := by
  have hwidth := hw.width
  have hheight := hw.height
  have hb : w.width * w.height ≤ 600 * 440 := Int.mul_le_mul hwidth.2 hheight.2 (by omega) (by omega)
  rw [hw.length]
  omega

theorem validate_update {op : Op} (hop : op = .WB ∨ op = .WE) (hw : w ∈ s.windows)
    (h : address line = some (some op, w.id, [])) : s.validate line = true := by
  have hfind : (s.windows.find? fun v => v.id = w.id).isSome = true := by
    rw [List.find?_isSome]
    exact ⟨w, hw, by simp⟩
  obtain ⟨v, hv⟩ := Option.isSome_iff_exists.mp hfind
  unfold WindowServer.validate
  rw [h]
  rcases hop with rfl | rfl
  all_goals
    dsimp only
    rw [hv]
    rfl

theorem validate_write {a b : Str} {offset : Nat} {runs : List (Nat × UInt32)} (hs : s.Inv) (hw : w ∈ s.windows)
    (h : address line = some (some .WP, w.id, [a, b])) (ho : parseUsize a = some offset)
    (hr : (b.splitOn ';').mapM parseRun = some runs) (hup : w.updating = true) (hpos : ∀ r ∈ runs, 0 < r.1)
    (hlen : offset + (runPixels runs).length ≤ w.surface.length) : s.validate line = true := by
  have hb : b.isEmpty = false := by
    cases b with
    | nil => cases hr
    | cons c b => rfl
  unfold WindowServer.validate
  rw [h]
  dsimp only
  rw [find?_of_mem hs.distinct hw]
  have ho' : [a, b][0]?.bind parseUsize = some offset := ho
  have hb' : [a, b][1]? = some b := rfl
  simp only [hup, ho', hb', hb]
  exact validRuns_of_fits hr hpos hlen (surface_lt (hs.windows w hw))

theorem set_eq {index : Nat} (hs : s.Inv) (hw : s.windows[index]? = some w) (f : Window → Window)
    (events : List Event) : (modify s.windows index f >>= fun ws =>
      (pure ({ s with windows := ws }, events) : Checked (WindowServer × List Event))) =
        .ok (s.altered w.id f, events) := by
  rw [WindowServer.modify_found hs hw]
  rfl

theorem command_applies {r : Request} (hs : s.Inv) (hr : Reads line r) (ha : r.Allowed s) :
    ∃ t events, s.command line = .ok (t, events) ∧ t.windows = r.apply s.windows := by
  cases hr with
  | @create id a b c d x y width height title h hx hy hw hh =>
    obtain ⟨hcount, hnew, hsize, hlen⟩ := ha
    have hc : s.command line = s.create id [a, b, c, d, title] := by
      unfold WindowServer.command
      rw [h]
    have hx' : int [a, b, c, d, title] 0 = some x := hx
    rw [hc, WindowServer.create_eq hcount hnew hx' hy hw hh rfl hsize hlen]
    exact ⟨_, _, rfl, rfl⟩
  | destroy h =>
    obtain ⟨index, w, hw, rfl, hc⟩ := WindowServer.command_execute h nofun ha
    exact ⟨_, _, hc.trans (WindowServer.destroy_eq hs hw), rfl⟩
  | unhide h =>
    obtain ⟨index, w, hw, rfl, hc⟩ := WindowServer.command_execute h nofun ha
    exact ⟨_, _, hc.trans (WindowServer.unhide_eq hs hw []), rfl⟩
  -- `WH` also drops the focus, which the table of windows does not show
  | hide h =>
    obtain ⟨index, w, hw, rfl, hc⟩ := WindowServer.command_execute h nofun ha
    let f : Window → Window := fun v => { v with visible := false }
    have he : s.execute w.id index [] (some .WH) = if s.focused = some w.id then
        .ok ({ s.altered w.id f with focused := none }, [⟨w.id, .FocusLost, 0, 0⟩])
        else .ok (s.altered w.id f, []) := by
      show (modify s.windows index f >>= fun ws => if s.focused = some w.id then _ else _) = _
      rw [WindowServer.modify_found hs hw]
      rfl
    rw [hc, he]
    split_ifs <;> exact ⟨_, _, rfl, rfl⟩
  | retitle h =>
    obtain ⟨index, w, hw, rfl, hc⟩ := WindowServer.command_execute h nofun ha.1
    refine ⟨_, _, hc.trans ((if_pos ha.2).trans (set_eq hs hw _ _)), rfl⟩
  | @move id a b x y h hx hy =>
    obtain ⟨index, w, hw, rfl, hc⟩ := WindowServer.command_execute h nofun ha
    have hx' : int [a, b] 0 = some x := hx
    have hy' : int [a, b] 1 = some y := hy
    unfold WindowServer.execute at hc
    rw [hx', hy'] at hc
    dsimp only at hc
    rw [modify_eq _ (List.getElem?_eq_some_iff.mp hw).1, ok_bind,
      get_eq (by rw [List.getElem?_modify_eq, hw]; rfl)] at hc
    exact ⟨_, _, hc, modify_eq_alter hs.distinct hw rfl _⟩
  | @resize id a b width height h hx hy =>
    obtain ⟨index, w, hw, rfl, hc⟩ := WindowServer.command_execute h nofun ha.1
    have hx' : int [a, b] 0 = some width := hx
    have hy' : int [a, b] 1 = some height := hy
    unfold WindowServer.execute at hc
    rw [hx', hy'] at hc
    exact ⟨_, _, hc.trans (WindowServer.resize_eq hs hw ha.2), rfl⟩
  | setCursor h hcur =>
    obtain ⟨index, w, hw, rfl, hc⟩ := WindowServer.command_execute h nofun ha
    cases hcur <;> exact ⟨_, _, hc.trans (set_eq hs hw _ _), rfl⟩
  | redraw h =>
    obtain ⟨index, w, hw, rfl, hc⟩ := WindowServer.command_execute h nofun ha
    simp only [WindowServer.execute, get_eq hw, ok_bind] at hc
    exact ⟨s, _, hc, rfl⟩
  | beginUpdate h =>
    obtain ⟨index, w, hw, rfl, hc⟩ := WindowServer.command_execute h nofun ha
    exact ⟨_, _, hc.trans (set_eq hs hw _ _), rfl⟩
  -- the only request that reads the window before it writes
  | @write id a b offset runs h ho hruns =>
    obtain ⟨v, hv, rfl, hup, hpos, hlen⟩ := ha
    obtain ⟨index, w, hw, hid, hc⟩ := WindowServer.command_execute h nofun (WindowServer.mem_ids.mpr ⟨v, hv, rfl⟩)
    obtain rfl : w = v := hs.distinct.eq (List.mem_of_getElem? hw) hv hid
    have hsmall := surface_lt (hs.windows w hv)
    have ho' : [a, b][0]?.bind parseUsize = some offset := ho
    simp only [WindowServer.execute, get_eq hw, ok_bind, hup, ho'] at hc
    have hb : ([a, b][1]?.getD []).splitOn ';' = b.splitOn ';' := rfl
    rw [hb, writeRuns_eq hruns hpos hlen hsmall, ok_bind] at hc
    exact ⟨_, _, hc.trans (set_eq hs hw _ _), alter_congr hs.distinct hv _ _ rfl⟩
  | endUpdate h =>
    obtain ⟨index, w, hw, rfl, hc⟩ := WindowServer.command_execute h nofun ha
    exact ⟨_, _, hc.trans (set_eq hs hw _ _), rfl⟩

theorem Request.without_apply (r : Request) (ws : List Window) :
    without Window.id r.id (r.apply ws) = without Window.id r.id ws := by
  cases r with
  | create id x y width height title =>
    show without Window.id id (ws ++ [WindowServer.created id title x y width height]) = without Window.id id ws
    unfold without
    rw [List.filter_append, List.filter_cons_of_neg (by simp [WindowServer.created]), List.filter_nil,
      List.append_nil]
  | destroy id =>
    show without Window.id id (without Window.id id ws) = without Window.id id ws
    exact without_of_forall_ne fun w hw => (mem_without.mp hw).2
  | unhide id => exact without_raise.trans (without_alter fun _ => rfl)
  | resize id width height => exact without_alter fun _ => Window.resized_id
  | redraw id => rfl
  | hide id => exact without_alter fun _ => rfl
  | retitle id title => exact without_alter fun _ => rfl
  | move id x y => exact without_alter fun _ => rfl
  | setCursor id cursor => exact without_alter fun _ => rfl
  | beginUpdate id => exact without_alter fun _ => rfl
  | write id offset runs => exact without_alter fun _ => rfl
  | endUpdate id => exact without_alter fun _ => rfl

namespace WindowServer

/-- Validator and executor agree: an accepted line reads as a request, whose whole effect
the command has, and every other window keeps its attributes and its place. -/
theorem accepted_command (hr : Reachable s) (hv : s.validate line = true) :
    ∃ r t events, Reads line r ∧ r.Allowed s ∧ s.command line = .ok (t, events) ∧
      t.windows = r.apply s.windows ∧
      without Window.id r.id t.windows = without Window.id r.id s.windows := by
  obtain ⟨r, hread, hallow⟩ := validate_reads hv
  obtain ⟨t, events, hc, ht⟩ := command_applies hr.inv hread hallow
  exact ⟨r, t, events, hread, hallow, hc, ht, ht ▸ r.without_apply s.windows⟩

theorem accepted_command_create :
    ∃ r t events, Reads "WC|1|0|0|80|50|a".toList r ∧ r.Allowed new ∧
      new.command "WC|1|0|0|80|50|a".toList = .ok (t, events) ∧ t.windows = r.apply new.windows ∧
      without Window.id r.id t.windows = without Window.id r.id new.windows :=
  accepted_command .new (by decide)

/-- Size and position commands do not set exactly the named attribute: a new size also
blanks the surface, and a position is clamped to the screen. -/
theorem resize_and_move_do_more : ∃ s t u : WindowServer, ∃ w v : Window, ∃ events events',
    Reachable s ∧ s.windows = [w] ∧
    (s.validate "WZ|1|81|50".toList = true ∧ s.command "WZ|1|81|50".toList = .ok (t, events) ∧
      t.windows = [v] ∧ v.surface ≠ w.surface) ∧
    s.validate "WM|1|5000|0".toList = true ∧ s.command "WM|1|5000|0".toList = .ok (u, events') ∧
      u.windows = [{ w with x := 984, y := 0 }] := by
  have hz : single.command "WZ|1|81|50".toList = .ok (single.altered 1 (Window.resized 81 50),
      [⟨1, .Resize, 81, 50⟩, ⟨1, .Redraw, 81, 50⟩]) := by
    have hv : validSize 81 50 = true := rfl
    have hc : single.command "WZ|1|81|50".toList = single.resize 0 81 50 := rfl
    rw [hc, resize_eq (w := created 1 "a".toList 0 0 80 50) reachable_single.inv rfl hv]
    rfl
  refine ⟨single, _, _, _, _, _, _, reachable_single, rfl, ⟨by decide, hz, rfl, fun h => ?_⟩, by decide, rfl, rfl⟩
  have hlen := congrArg List.length h
  revert hlen
  show (List.replicate _ SURFACE).length = (List.replicate _ SURFACE).length → False
  rw [List.length_replicate, List.length_replicate]
  decide

end WindowServer

end Pippin.Client
