import Pippin.Client.Effects
import Pippin.Client.Paint

/-! The representation invariant of the window server over commands on arbitrary
lines and on-screen pointer packets; under it no check faults, painting included. -/

namespace Pippin.Client
open Checked Keyed

variable {s t : WindowServer} {w : Window} {id : UInt32} {index : Nat} {x y width height : Int}

theorem Grab.Ok.mono {ids ids' : List UInt32} {g : Grab} (h : ids ⊆ ids') (hg : g.Ok ids) : g.Ok ids' := by
  cases g with
  | Move id ox oy => exact ⟨h hg.1, hg.2⟩
  | Resize id sx sy sw sh => exact ⟨h hg.1, hg.2⟩

theorem replicate_surface_le {n : Nat} : ∀ c ∈ List.replicate n SURFACE, c ≤ 0xffffff := by
  intro c hc
  rw [List.eq_of_mem_replicate hc]
  decide

namespace Window

theorem Ok.resized (hw : w.Ok) (hv : validSize width height = true) : (w.resized width height).Ok := by
  obtain ⟨hwidth, hheight⟩ := validSize_iff.mp hv
  unfold Window.resized
  split_ifs with h
  · exact hw
  · exact ⟨hw.id_ne, hwidth, hheight, List.length_replicate, replicate_surface_le, hw.x, hw.y, hw.title⟩

theorem Ok.flags (hw : w.Ok) (visible updating : Bool) (cursor : UInt8) :
    Ok { w with visible, updating, cursor } :=
  ⟨hw.id_ne, hw.width, hw.height, hw.length, hw.pixels, hw.x, hw.y, hw.title⟩

theorem Ok.moved (hw : w.Ok) (x y : Int) : Ok { w with x := clampX x, y := clampY y } :=
  ⟨hw.id_ne, hw.width, hw.height, hw.length, hw.pixels, clampX_bounds x, clampY_bounds y, hw.title⟩

end Window

namespace WindowServer

theorem writeRuns_yields (runs : List Str) (surface : List UInt32) (pos : Nat)
    (hp : ∀ c ∈ surface, c ≤ 0xffffff) : Yields (writeRuns surface pos runs) fun t =>
      t.length = surface.length ∧ ∀ c ∈ t, c ≤ 0xffffff := by
  induction runs generalizing surface pos with
  | nil => exact yields_ok ⟨rfl, hp⟩
  | cons run runs ih =>
    unfold writeRuns
    cases parseRun run with
    | none => exact yields_ok ⟨rfl, hp⟩
    | some r =>
      obtain ⟨count, color⟩ := r
      dsimp only
      cases hadd : checkedAdd pos count with
      | none => exact yields_ok ⟨rfl, hp⟩
      | some stop =>
        dsimp only
        split_ifs with hbad
        · exact yields_ok ⟨rfl, hp⟩
        · have hstop : stop = pos + count := by
            unfold checkedAdd at hadd
            split_ifs at hadd
            exact (Option.some.inj hadd).symm
          have hle : stop ≤ surface.length := by omega
          rw [fillSlice_eq _ (by omega) hle, ok_bind]
          refine (ih _ stop fun c hc => ?_).mono fun t ht => ⟨ht.1.trans ?_, ht.2⟩
          · rcases List.mem_append.mp hc with hc | hc
            · rcases List.mem_append.mp hc with hc | hc
              · exact hp c (List.mem_of_mem_take hc)
              · rw [List.eq_of_mem_replicate hc]
                exact UInt32.le_iff_toNat_le.mpr (UInt32.toNat_and color _ ▸ Nat.and_le_right)
            · exact hp c (List.mem_of_mem_drop hc)
          · simp only [List.length_append, List.length_take, List.length_replicate, List.length_drop]
            omega

theorem Inv.of_ids (hs : s.Inv) (hids : t.ids.Perm s.ids) (hok : ∀ w ∈ t.windows, w.Ok)
    (hgrab : t.grab = s.grab) (hpressed : t.pressed = s.pressed) : t.Inv := by
  have hlen : t.windows.length = s.windows.length := by
    simpa only [ids, List.length_map] using hids.length_eq
  refine ⟨hlen ▸ hs.count, hids.nodup_iff.mpr hs.distinct, hok, fun g hg => ?_, fun id hid => ?_⟩
  · exact (hs.grab g (hgrab ▸ hg)).mono hids.symm.subset
  · exact hids.symm.subset (hs.pressed id (hpressed ▸ hid))

theorem ids_altered {f : Window → Window} (hf : ∀ w, (f w).id = w.id) : (s.altered id f).ids = s.ids :=
  map_key_alter hf

theorem Inv.altered (hs : s.Inv) {f : Window → Window} (hf : ∀ w, (f w).id = w.id)
    (hok : ∀ w, w ∈ s.windows → w.id = id → (f w).Ok) : (s.altered id f).Inv := by
  refine hs.of_ids (List.Perm.of_eq (ids_altered hf)) (fun v hv => ?_) rfl rfl
  obtain ⟨w, hw, rfl | ⟨hid, rfl⟩⟩ := mem_alter hv
  · exact hs.windows _ hw
  · exact hok w hw hid

theorem Inv.focused (hs : s.Inv) (focused : Option UInt32) : Inv { s with focused } :=
  ⟨hs.count, hs.distinct, hs.windows, hs.grab, hs.pressed⟩

theorem ids_raise : List.Perm (WindowServer.ids { s with windows := raise Window.id id s.windows }) s.ids :=
  raise_perm.map Window.id

theorem Inv.raised (hs : s.Inv) (id : UInt32) : Inv { s with windows := raise Window.id id s.windows } :=
  hs.of_ids ids_raise (fun v hv => hs.windows v (raise_perm.mem_iff.mp hv)) rfl rfl

theorem ids_without : (without Window.id id s.windows).map Window.id = s.ids.filter (· ≠ id) := by
  unfold without ids
  rw [List.filter_map]
  rfl

theorem Inv.removed (hs : s.Inv) (id : UInt32) (focused : Option UInt32) :
    Inv ⟨without Window.id id s.windows, focused, none, none⟩ := by
  refine ⟨Nat.le_trans (List.length_filter_le _ _) hs.count, ?_,
    fun v hv => hs.windows v (mem_without.mp hv).1, nofun, nofun⟩
  show List.Nodup _
  rw [ids_without]
  exact hs.distinct.filter _

/-- The outcome of an operation: the invariant, with the same ids. -/
def Keeps (s t : WindowServer) : Prop := t.Inv ∧ t.ids.Perm s.ids

theorem Inv.keeps (hs : s.Inv) : Keeps s s := ⟨hs, List.Perm.refl _⟩

theorem Inv.keeps_altered (hs : s.Inv) (f : Window → Window) (hf : ∀ w, (f w).id = w.id)
    (hok : ∀ w, w ∈ s.windows → w.id = id → (f w).Ok) : Keeps s (s.altered id f) :=
  ⟨hs.altered hf hok, List.Perm.of_eq (ids_altered hf)⟩

theorem resize_yields (hs : s.Inv) (hw : s.windows[index]? = some w) (width height : Int) :
    Yields (resize s index width height) fun r => Keeps s r.1 := by
  by_cases hv : validSize width height = true
  · rw [resize_eq hs hw hv]
    exact yields_ok (hs.keeps_altered _ (fun _ => Window.resized_id) fun v h _ => (hs.windows v h).resized hv)
  · rw [resize_invalid hv]
    exact yields_ok hs.keeps

theorem focus_yields (hs : s.Inv) (hw : w ∈ s.windows) : Yields (focus s w.id) fun r =>
    Keeps s r.1 ∧ r.1.windows = raise Window.id w.id s.windows := by
  rw [focus_eq hs.distinct hw]
  exact yields_ok ⟨⟨(hs.raised w.id).focused _, ids_raise⟩, rfl⟩

section Execute

variable (hs : s.Inv) (hw : s.windows[index]? = some w) (args : List Str)

include hs hw

theorem modify_yields (f : Window → Window) (hf : ∀ w, (f w).id = w.id) (hok : (f w).Ok) :
    Yields (modify s.windows index f) fun ws => Keeps s { s with windows := ws } := by
  rw [modify_found hs hw]
  refine yields_ok (hs.keeps_altered f hf fun v hv hid => ?_)
  rwa [hs.distinct.eq hv (List.mem_of_getElem? hw) hid]

theorem unhide_eq : execute s w.id index args (some .WS) = .ok ({ s with
    windows := raise Window.id w.id (alter Window.id w.id (fun v => { v with visible := true }) s.windows)
    focused := some w.id }, s.focusEvents w.id) := by
  let f : Window → Window := fun v => { v with visible := true }
  have hin : f w ∈ (s.altered w.id f).windows :=
    List.mem_map.mpr ⟨w, List.mem_of_getElem? hw, if_pos rfl⟩
  have hd : Distinct Window.id (s.altered w.id f).windows := by
    show (s.altered w.id f).ids.Nodup
    rw [ids_altered (f := f) fun _ => rfl]
    exact hs.distinct
  show (modify s.windows index f >>= _) = _
  rw [modify_found hs hw]
  show focus (s.altered w.id f) (f w).id = _
  rw [focus_eq hd hin]
  rfl

theorem execute_yields (op : Option Op) : Yields (execute s w.id index args op) fun r =>
    r.1.Inv ∧ (r.1.ids.Perm s.ids ∨ op = some .WD ∧ r.1.ids = s.ids.filter (· ≠ w.id)) := by
  have hmem : w ∈ s.windows := List.mem_of_getElem? hw
  have hok : w.Ok := hs.windows w hmem
  -- every branch but `WD` ends in a state that keeps the ids
  have keep : ∀ {m : Checked (WindowServer × List Event)}, Yields m (fun r => Keeps s r.1) →
      Yields m fun r => r.1.Inv ∧ (r.1.ids.Perm s.ids ∨ op = some .WD ∧ r.1.ids = s.ids.filter (· ≠ w.id)) :=
    fun hm => hm.mono fun r hr => ⟨hr.1, Or.inl hr.2⟩
  have same : ∀ events : List Event, Yields (.ok (s, events)) fun r => Keeps s r.1 := fun _ => yields_ok hs.keeps
  have set : ∀ (f : Window → Window) (events : List Event), (∀ w, (f w).id = w.id) → (f w).Ok →
      Yields (modify s.windows index f >>= fun ws => .ok ({ s with windows := ws }, events)) fun r =>
        Keeps s r.1 := fun f _ hf hf' => (modify_yields hs hw f hf hf').bind fun _ hk => yields_ok hk
  cases op with
  | none => exact keep (same [])
  | some op =>
    cases op with
    | WC => exact keep (same [])
    | WD =>
      show Yields (destroy s w.id index) _
      rw [destroy_eq hs hw]
      exact yields_ok ⟨hs.removed w.id _, Or.inr ⟨rfl, ids_without⟩⟩
    -- raising asks for the id among the windows just altered
    | WS =>
      refine keep ((modify_yields hs hw (fun v => { v with visible := true }) (fun _ => rfl)
        (hok.flags true w.updating w.cursor)).bind fun ws hk => ?_)
      obtain ⟨v, hv, hid⟩ := mem_ids.mp (hk.2.symm.subset (mem_ids.mpr ⟨w, hmem, rfl⟩))
      rw [← hid]
      exact (focus_yields hk.1 hv).mono fun r hr => ⟨hr.1.1, hr.1.2.trans hk.2⟩
    | WH =>
      refine keep ((modify_yields hs hw (fun v => { v with visible := false }) (fun _ => rfl)
        (hok.flags false w.updating w.cursor)).bind fun ws hk => ?_)
      split_ifs
      · exact yields_ok ⟨hk.1.focused none, hk.2⟩
      · exact yields_ok hk
    | WT =>
      unfold execute
      dsimp only
      cases args[0]? with
      | none => exact keep (same [])
      | some title =>
        dsimp only
        split_ifs with hlen
        · exact keep (set _ [] (fun _ => rfl) ⟨hok.id_ne, hok.width, hok.height, hok.length, hok.pixels, hok.x,
            hok.y, hlen⟩)
        · exact keep (same [])
    | WM =>
      unfold execute
      dsimp only
      split
      · rename_i x y _ _
        have hk := modify_yields hs hw (fun v => { v with x := clampX x, y := clampY y }) (fun _ => rfl)
          (hok.moved x y)
        rw [modify_eq _ (List.getElem?_eq_some_iff.mp hw).1] at hk ⊢
        rw [ok_bind, get_eq (by rw [List.getElem?_modify_eq, hw]; rfl)]
        exact keep (yields_ok (hk.of_eq rfl))
      · exact keep (same [])
    | WZ =>
      unfold execute
      dsimp only
      split
      · exact keep (resize_yields hs hw _ _)
      · exact keep (same [])
    | WK =>
      unfold execute
      dsimp only
      cases args[0]? with
      | none => exact keep (same [])
      | some cursor =>
        exact keep (set _ [] (fun _ => rfl) (hok.flags w.visible w.updating _))
    | WI =>
      show Yields (Checked.get s.windows index >>= _) _
      rw [get_eq hw]
      exact keep (same _)
    | WB => exact keep (set _ [] (fun _ => rfl) (hok.flags w.visible true w.cursor))
    | WP =>
      show Yields (Checked.get s.windows index >>= _) _
      rw [get_eq hw, ok_bind]
      split
      · rename_i offset _ _
        refine keep ((writeRuns_yields _ w.surface offset hok.pixels).bind fun surface hsurf => ?_)
        exact set _ [] (fun _ => rfl) ⟨hok.id_ne, hok.width, hok.height, hsurf.1.trans hok.length, hsurf.2,
          hok.x, hok.y, hok.title⟩
      · exact keep (same [])
    | WE => exact keep (set _ [] (fun _ => rfl) (hok.flags w.visible false w.cursor))

end Execute

theorem Inv.of_created (hs : s.Inv) (hid : id ≠ 0) {title : Str} (hcount : s.windows.length < maxWindows)
    (hnew : id ∉ s.ids) (hv : validSize width height = true) (ht : title.len ≤ 48) :
    Inv { s with windows := s.windows ++ [created id title x y width height] } := by
  obtain ⟨hwidth, hheight⟩ := validSize_iff.mp hv
  have hok : (created id title x y width height).Ok := ⟨hid, hwidth, hheight, List.length_replicate,
    replicate_surface_le, clampX_bounds x, clampY_bounds y, ht⟩
  have hids : WindowServer.ids { s with windows := s.windows ++ [created id title x y width height] } =
      s.ids ++ [id] := List.map_append
  refine ⟨?_, ?_, fun v hv => ?_, fun g hg => ?_, fun i hi => ?_⟩
  · rw [List.length_append]
    exact hcount
  · show (WindowServer.ids { s with windows := s.windows ++ [created id title x y width height] }).Nodup
    rw [hids]
    exact List.Nodup.append hs.distinct (List.nodup_singleton id) (List.disjoint_singleton.mpr hnew)
  · rcases List.mem_append.mp hv with h | h
    · exact hs.windows v h
    · exact List.mem_singleton.mp h ▸ hok
  · exact (hs.grab g hg).mono (hids ▸ List.subset_append_left _ _)
  · exact hids ▸ List.mem_append_left _ (hs.pressed i hi)

theorem create_cases (s : WindowServer) (id : UInt32) (args : List Str) : create s id args = .ok (s, []) ∨
    ∃ x y width height title, s.windows.length < maxWindows ∧ id ∉ s.ids ∧ validSize width height = true ∧
      title.len ≤ 48 ∧ create s id args = .ok
        ({ s with windows := s.windows ++ [created id title x y width height] },
          [⟨id, .WindowCreated, clampX x, clampY y⟩, ⟨id, .Redraw, width, height⟩]) := by
  unfold create
  split_ifs with hfull
  · exact Or.inl rfl
  · simp only [Bool.or_eq_true, decide_eq_true_eq, List.any_eq_true, not_or, not_exists, not_and] at hfull
    obtain ⟨hcount, hnew⟩ := hfull
    have hnew' : id ∉ s.ids := fun h => by
      obtain ⟨v, hv, rfl⟩ := mem_ids.mp h
      exact hnew v hv rfl
    split
    · rename_i x y width height title _ _ _ _ _
      split_ifs with hbad
      · exact Or.inl rfl
      · simp only [Bool.or_eq_true, Bool.not_eq_true', decide_eq_true_eq, not_or, Bool.not_eq_false] at hbad
        obtain ⟨hwidth, hheight⟩ := validSize_iff.mp hbad.1
        rw [area_eq hwidth hheight]
        exact Or.inr ⟨x, y, width, height, title, Nat.lt_of_not_le hcount, hnew', hbad.1,
          Nat.le_of_not_lt hbad.2, rfl⟩
    · exact Or.inl rfl

theorem create_yields (hs : s.Inv) (hid : id ≠ 0) (args : List Str) : Yields (create s id args) fun r =>
    r.1.Inv ∧ (r.1.ids = s.ids ∨ r.1.ids = s.ids ++ [id]) := by
  obtain h | ⟨x, y, width, height, title, hcount, hnew, hv, ht, h⟩ := create_cases s id args
  · rw [h]
    exact yields_ok ⟨hs, Or.inl rfl⟩
  · rw [h]
    exact yields_ok ⟨hs.of_created hid hcount hnew hv ht, Or.inr List.map_append⟩

theorem address_id_ne {line : Str} {op : Option Op} {args : List Str} (h : address line = some (op, id, args)) :
    id ≠ 0 := by
  unfold address at h
  split at h
  · obtain ⟨i, -, h⟩ := Option.bind_eq_some_iff.mp h
    split_ifs at h with h0
    cases h
    exact h0
  · cases h

def IdsLaw (s t : WindowServer) (line : Str) : Prop :=
  ∀ id, (id ∈ t.ids → id ∉ s.ids → ∃ args, address line = some (some .WC, id, args)) ∧
    (id ∈ s.ids → id ∉ t.ids → ∃ args, address line = some (some .WD, id, args))

theorem IdsLaw.of_iff {line : Str} (h : ∀ id, id ∈ t.ids ↔ id ∈ s.ids) : IdsLaw s t line :=
  fun id => ⟨fun ht hn => absurd ((h id).mp ht) hn, fun hs hn => absurd ((h id).mpr hs) hn⟩

theorem command_yields (hs : s.Inv) (line : Str) : Yields (command s line) fun r =>
    r.1.Inv ∧ IdsLaw s r.1 line := by
  unfold command
  split
  · exact yields_ok ⟨hs, IdsLaw.of_iff fun _ => Iff.rfl⟩
  · rename_i id args haddr
    refine (create_yields hs (address_id_ne haddr) args).mono fun r hr => ⟨hr.1, ?_⟩
    rcases hr.2 with he | he
    · exact IdsLaw.of_iff fun _ => he ▸ Iff.rfl
    · refine fun i => ⟨fun hi hn => ?_, fun hi hn => ?_⟩
      · rw [he, List.mem_append] at hi
        rw [List.mem_singleton.mp (hi.resolve_left hn)]
        exact ⟨args, haddr⟩
      · exact absurd (he ▸ List.mem_append_left _ hi) hn
  · rename_i op id args _ haddr
    cases hfind : s.windows.findIdx? (fun w => w.id = id) with
    | none => exact yields_ok ⟨hs, IdsLaw.of_iff fun _ => Iff.rfl⟩
    | some index =>
      obtain ⟨w, hw, rfl⟩ := findIdx?_spec hfind
      refine (execute_yields hs hw args op).mono fun r hr => ⟨hr.1, ?_⟩
      rcases hr.2 with hperm | ⟨rfl, he⟩
      · exact IdsLaw.of_iff fun _ => hperm.mem_iff
      · refine fun i => ⟨fun hi hn => ?_, fun hi hn => ?_⟩
        · rw [he] at hi
          exact absurd (List.mem_of_mem_filter hi) hn
        · rw [he, List.mem_filter, not_and, decide_eq_true_eq, not_not] at hn
          rw [hn hi]
          exact ⟨args, haddr⟩

section Pointer

variable (hs : s.Inv) (hx : 0 ≤ x ∧ x ≤ 1023) (hy : 0 ≤ y ∧ y ≤ 767)

include hs hx hy

theorem drag_yields {g : Grab} (hg : g.Ok s.ids) : Yields (drag s x y g) fun r => Keeps s r.1 := by
  cases g with
  | Move id ox oy =>
    obtain ⟨-, hox, hoy⟩ := hg
    unfold drag
    dsimp only
    cases hfind : s.windows.findIdx? (fun w => w.id = id) with
    | none => exact yields_ok hs.keeps
    | some index =>
      obtain ⟨w, hw, rfl⟩ := findIdx?_spec hfind
      dsimp only
      rw [i32_eq (by omega) (by omega), i32_eq (by omega) (by omega), get_eq hw]
      simp only [ok_bind]
      split_ifs
      · refine (modify_yields hs hw (fun v => { v with x := clampX (x - ox), y := clampY (y - oy) })
          (fun _ => rfl) ((hs.windows w (List.mem_of_getElem? hw)).moved _ _)).bind fun ws hk => ?_
        exact yields_ok hk
      · exact yields_ok hs.keeps
  | Resize id sx sy sw sh =>
    obtain ⟨-, ⟨hsx, hsy⟩, hsw, hsh⟩ := hg
    unfold drag
    dsimp only
    cases hfind : s.windows.findIdx? (fun w => w.id = id) with
    | none => exact yields_ok hs.keeps
    | some index =>
      obtain ⟨w, hw, rfl⟩ := findIdx?_spec hfind
      dsimp only
      rw [i32_eq (by omega) (by omega), i32_eq (by omega) (by omega), ok_bind,
        i32_eq (by omega) (by omega), ok_bind, ok_bind, i32_eq (by omega) (by omega)]
      exact resize_yields hs hw _ _

theorem press_yields (hw : s.windows[index]? = some w) (hc : w.covers x y = true) :
    Yields (press s x y index) fun r => Keeps s r.1 := by
  have hmem := List.mem_of_getElem? hw
  have hok := hs.windows w hmem
  simp only [Window.covers, Bool.and_eq_true, decide_eq_true_eq] at hc
  have hlast : (raise Window.id w.id s.windows).getLast? = some w := by
    rw [raise_eq hs.distinct hmem, List.getLast?_concat]
  have hid : w.id ∈ s.ids := mem_ids.mpr ⟨w, hmem, rfl⟩
  have hwidth := hok.width
  have hheight := hok.height
  have hwx := hok.x
  have hwy := hok.y
  unfold press
  rw [get_eq hw, ok_bind]
  refine (focus_yields hs hmem).bind fun r hr => ?_
  obtain ⟨t, events⟩ := r
  obtain ⟨⟨ht, hperm⟩, hwin⟩ := hr
  dsimp only at ht hperm hwin ⊢
  rw [← hwin] at hlast
  rw [hlast]
  show Yields (i32 (x - w.x) >>= _) _
  rw [i32_eq (by omega) (by omega), ok_bind, i32_eq (by omega) (by omega), ok_bind,
    Window.frameWidth_eq hok, ok_bind, i32_eq (by omega) (by omega)]
  have hid' : w.id ∈ t.ids := hperm.symm.subset hid
  -- a grab names a window that is there, with numbers the invariant bounds
  have grab : ∀ g : Grab, g.Ok t.ids → Keeps s { t with grab := some g } := fun g hg =>
    ⟨⟨ht.count, ht.distinct, ht.windows, fun g' hg' => Option.some.inj hg' ▸ hg, ht.pressed⟩, hperm⟩
  split_ifs with htitle
  · rw [ok_bind]
    split_ifs
    · exact yields_ok ⟨ht, hperm⟩
    · refine yields_ok (grab _ ⟨hid', ?_, ?_⟩) <;> omega
  · refine (Window.resizeCorner_yields hok).bind fun corner _ => ?_
    cases corner with
    | true => exact yields_ok (grab _ ⟨hid', ⟨hx, hy⟩, hwidth, hheight⟩)
    | false =>
      dsimp only
      rw [Window.localPoint_eq hok hx hy, ok_bind]
      dsimp only
      split_ifs
      · refine yields_ok ⟨⟨ht.count, ht.distinct, ht.windows, ht.grab, fun i hi => ?_⟩, hperm⟩
        exact Option.some.inj hi ▸ hid'
      · exact yields_ok ⟨ht, hperm⟩

theorem hover_yields {hit : Option Nat} (hhit : ∀ i, hit = some i → ∃ w, s.windows[i]? = some w) :
    Yields (hover s x y hit) fun r => Keeps s r.2.1 := by
  cases hit with
  | none => exact yields_ok hs.keeps
  | some index =>
    obtain ⟨w, hw⟩ := hhit index rfl
    unfold hover
    dsimp only
    rw [get_eq hw, ok_bind, Window.localPoint_eq (hs.windows w (List.mem_of_getElem? hw)) hx hy, ok_bind]
    dsimp only
    split_ifs <;> exact yields_ok hs.keeps

theorem track_yields (left wasLeft : Bool) : Yields (track s x y left wasLeft) fun r => Keeps s r.2.1 := by
  unfold track
  refine (yields_rposition fun w hw => Window.contains_eq (hs.windows w hw) x y).bind fun hit hhit => ?_
  have hhover : Yields (hover s x y hit) fun r => Keeps s r.2.1 := by
    refine hover_yields hs hx hy fun i hi => ?_
    obtain ⟨w, hw, -⟩ := hhit i hi
    exact ⟨w, hw⟩
  split_ifs
  · cases hit with
    | none => exact yields_ok hs.keeps
    | some index =>
      obtain ⟨w, hw, hc⟩ := hhit index rfl
      exact (press_yields hs hx hy hw hc).bind fun r hr => yields_ok hr
  · cases s.pressed with
    | none => exact hhover
    | some id =>
      have ht : Keeps s { s with pressed := none } :=
        ⟨⟨hs.count, hs.distinct, hs.windows, hs.grab, nofun⟩, List.Perm.refl _⟩
      dsimp only
      unfold release
      cases hfind : s.windows.find? (fun w => w.id = id) with
      | none => exact yields_ok ht
      | some w =>
        dsimp only
        rw [Window.localPoint_eq (hs.windows w (List.mem_of_find?_eq_some hfind)) hx hy]
        exact yields_ok ht
  · exact hhover

theorem pointer_yields (left wasLeft : Bool) : Yields (pointer s x y left wasLeft) fun r => Keeps s r.2.1 := by
  unfold pointer
  split
  · rename_i grab hgrab
    exact (drag_yields hs hx hy (hs.grab grab hgrab)).bind fun r hr => yields_ok hr
  · exact track_yields hs hx hy true wasLeft
  · have ht : Inv { s with grab := none } := ⟨hs.count, hs.distinct, hs.windows, nofun, hs.pressed⟩
    exact track_yields ht hx hy false wasLeft

end Pointer

end WindowServer

section Paint

variable {pixels : Pixels} {color : UInt32}

def Screen (pixels : Pixels) : Prop := pixels.size = WIDTH * HEIGHT

theorem pixel_lt {row col : Int} (hr : 0 ≤ row ∧ row < HEIGHT) (hc : 0 ≤ col ∧ col < WIDTH) :
    row.toNat * WIDTH + col.toNat < WIDTH * HEIGHT := by
  unfold WIDTH HEIGHT at *
  omega

theorem set_yields (hp : Screen pixels) {row col : Int} (hr : 0 ≤ row ∧ row < HEIGHT)
    (hc : 0 ≤ col ∧ col < WIDTH) : Yields (set pixels (row.toNat * WIDTH + col.toNat) color) Screen := by
  have hlt := pixel_lt hr hc
  unfold Screen at hp ⊢
  rw [← hp] at hlt ⊢
  exact yields_set hlt

theorem fill_yields (hp : Screen pixels) {x y w h : Int} (hx : -2 ^ 31 ≤ x + w ∧ x + w < 2 ^ 31)
    (hy : -2 ^ 31 ≤ y + h ∧ y + h < 2 ^ 31) : Yields (fill pixels x y w h color) Screen := by
  unfold fill
  rw [i32_eq hy.1 hy.2, ok_bind]
  refine yields_foldlM Screen _ (fun pixels hp row hrow => ?_) pixels hp
  rw [i32_eq hx.1 hx.2, ok_bind]
  refine yields_foldlM Screen _ (fun pixels hp col hcol => ?_) pixels hp
  rw [mem_range] at hrow hcol
  exact set_yields hp (by omega) (by omega)

theorem length_glyph (byte : UInt8) : (glyph byte).length = 7 := by
  unfold glyph
  split <;> rfl

theorem text_yields (hp : Screen pixels) {x y : Int} {label : List UInt8} {maxChars : Nat}
    (hx : -10000 ≤ x ∧ x ≤ 10000) (hy : -10000 ≤ y ∧ y ≤ 10000) (hl : label.length ≤ 48) :
    Yields (text pixels x y label color maxChars) Screen := by
  unfold text
  refine yields_foldlM Screen _ (fun pixels hp p hpair => ?_) pixels hp
  obtain ⟨byte, index⟩ := p
  have hindex : index < (label.take maxChars).length := by
    have h := List.snd_lt_of_mem_zipIdx hpair
    omega
  have htake : (label.take maxChars).length ≤ label.length :=
    List.length_take ▸ Nat.min_le_right _ _
  refine yields_foldlM Screen _ (fun pixels hp q hq => ?_) pixels hp
  obtain ⟨bits, row⟩ := q
  have hrow : row < (glyph (toAsciiUppercase byte)).length := by
    have h := List.snd_lt_of_mem_zipIdx hq
    omega
  rw [length_glyph] at hrow
  refine yields_foldlM Screen _ (fun pixels hp col hcol => ?_) pixels hp
  have hcol' := List.mem_range.mp hcol
  split_ifs
  · rw [i32_eq (by omega) (by omega), ok_bind, i32_eq (by omega) (by omega), ok_bind,
      i32_eq (by omega) (by omega), ok_bind, i32_eq (by omega) (by omega)]
    exact fill_yields hp (by omega) (by omega)
  · exact yields_ok hp

theorem surface_index_lt (hw : w.Ok) {sx sy : Int} (hsx : 0 ≤ sx ∧ sx < w.width) (hsy : 0 ≤ sy ∧ sy < w.height) :
    sy.toNat * w.width.toNat + sx.toNat < w.surface.length := by
  have h1 := hw.width
  have h2 := hw.height
  have hmul : (w.width * w.height).toNat = w.height.toNat * w.width.toNat := by
    rw [Int.toNat_mul (by omega) (by omega), Nat.mul_comm]
  rw [hw.length, hmul]
  calc sy.toNat * w.width.toNat + sx.toNat < sy.toNat * w.width.toNat + w.width.toNat := by omega
    _ = (sy.toNat + 1) * w.width.toNat := (Nat.succ_mul _ _).symm
    _ ≤ w.height.toNat * w.width.toNat := Nat.mul_le_mul_right _ (by omega)

theorem paintSurface_yields (hw : w.Ok) (hp : Screen pixels) : Yields (paintSurface w pixels) Screen := by
  have h1 := hw.width
  have h2 := hw.height
  have h3 := hw.x
  have h4 := hw.y
  unfold paintSurface titleHeight border
  refine yields_foldlM Screen _ (fun pixels hp sy hsy => ?_) pixels hp
  rw [mem_range] at hsy
  rw [i32_eq (by omega) (by omega), ok_bind, i32_eq (by omega) (by omega), ok_bind]
  split_ifs with hout
  · exact yields_ok hp
  · refine yields_foldlM Screen _ (fun pixels hp sx hsx => ?_) pixels hp
    rw [mem_range] at hsx
    rw [i32_eq (by omega) (by omega), ok_bind, i32_eq (by omega) (by omega), ok_bind]
    split_ifs with hin
    · rw [get_eq (List.getElem?_eq_getElem (surface_index_lt hw hsx hsy))]
      exact set_yields hp (by omega) hin
    · exact yields_ok hp

theorem paintFrame_yields (hw : w.Ok) (hp : Screen pixels) (focused : Bool) :
    Yields (paintFrame w focused (w.width + 2) (w.height + 45) pixels) Screen := by
  have h1 := hw.width
  have h2 := hw.height
  have h3 := hw.x
  have h4 := hw.y
  unfold paintFrame titleHeight
  simp (disch := omega) only [i32_eq, ok_bind]
  refine (fill_yields hp (by omega) (by omega)).bind fun pixels hp => ?_
  refine (fill_yields hp (by omega) (by omega)).bind fun pixels hp => ?_
  refine (fill_yields hp (by omega) (by omega)).bind fun pixels hp => ?_
  refine (fill_yields hp (by omega) (by omega)).bind fun pixels hp => ?_
  refine (fill_yields hp (by omega) (by omega)).bind fun pixels hp => ?_
  exact fill_yields hp (by omega) (by omega)

theorem tdiv_two_bounds {v : Int} (h : -1000 ≤ v ∧ v ≤ 1000) : -1000 ≤ v.tdiv 2 ∧ v.tdiv 2 ≤ 1000 := by
  rw [Int.tdiv_eq_ediv]
  split_ifs
  · omega
  · rw [Int.sign_eq_one_of_pos (by decide)]
    omega

theorem paintTitle_yields (hw : w.Ok) (hp : Screen pixels) (focused : Bool) :
    Yields (paintTitle w focused (w.width + 2) pixels) Screen := by
  have h1 := hw.width
  have h2 := hw.height
  have h3 := hw.x
  have h4 := hw.y
  have h5 := hw.title
  unfold paintTitle
  have hhalf : ∀ n : Nat, -1000 ≤ (w.width + 2 - (min w.title.len n : Nat) * 7).tdiv 2 ∧
      (w.width + 2 - (min w.title.len n : Nat) * 7).tdiv 2 ≤ 1000 := fun n => tdiv_two_bounds (by omega)
  simp (disch := omega) only [i32_eq, ok_bind]
  refine (fill_yields hp (by omega) (by omega)).bind fun pixels hp => ?_
  refine (fill_yields hp (by omega) (by omega)).bind fun pixels hp => ?_
  refine (text_yields hp (by omega) (by omega) (by decide)).bind fun pixels hp => ?_
  have hb := hhalf (max ((w.width + 2 - 88).tdiv 7) 0).toNat
  rw [i32_eq (by omega) (by omega), ok_bind]
  exact text_yields hp (by omega) (by omega) h5

theorem paintWindow_yields (hw : w.Ok) (hp : Screen pixels) (focused : Bool) :
    Yields (paintWindow w focused pixels) Screen := by
  have h1 := hw.width
  have h2 := hw.height
  have h3 := hw.x
  have h4 := hw.y
  unfold paintWindow titleHeight border
  rw [Window.frameWidth_eq hw, ok_bind, Window.frameHeight_eq hw, ok_bind]
  simp (disch := omega) only [i32_eq, ok_bind]
  refine (paintFrame_yields hw hp focused).bind fun pixels hp => ?_
  refine (paintTitle_yields hw hp focused).bind fun pixels hp => ?_
  refine (fill_yields hp (by omega) (by omega)).bind fun pixels hp => ?_
  refine (paintSurface_yields hw hp).bind fun pixels hp => ?_
  refine (fill_yields hp (by omega) (by omega)).bind fun pixels hp => ?_
  exact fill_yields hp (by omega) (by omega)

theorem WindowServer.paint_yields (hs : s.Inv) (hp : Screen pixels) : Yields (s.paint pixels) Screen := by
  unfold paint
  refine yields_foldlM Screen _ (fun pixels hp w hw => ?_) pixels hp
  split_ifs
  · exact yields_ok hp
  · exact paintWindow_yields (hs.windows w hw) hp _

end Paint

namespace WindowServer

/-- The states reached from `new` by commands and by on-screen pointer packets. -/
inductive Reachable : WindowServer → Prop where
  | new : Reachable new
  | command {s t : WindowServer} {events : List Event} (line : Str) (hs : Reachable s)
      (h : s.command line = .ok (t, events)) : Reachable t
  | pointer {s t : WindowServer} {owned : Bool} {events : List Event} {x y : Int} (left wasLeft : Bool)
      (hx : 0 ≤ x ∧ x ≤ 1023) (hy : 0 ≤ y ∧ y ≤ 767) (hs : Reachable s)
      (h : s.pointer x y left wasLeft = .ok (owned, t, events)) : Reachable t

theorem Reachable.inv (h : Reachable s) : s.Inv := by
  induction h with
  | new => exact ⟨Nat.zero_le _, List.nodup_nil, nofun, nofun, nofun⟩
  | command line _ h ih => exact ((command_yields ih line).of_eq h).1
  | pointer left wasLeft hx hy _ h ih => exact ((pointer_yields ih hx hy left wasLeft).of_eq h).1

def single : WindowServer := ⟨[created 1 "a".toList 0 0 80 50], none, none, none⟩

theorem command_single : new.command "WC|1|0|0|80|50|a".toList =
    .ok (single, [⟨1, .WindowCreated, 0, 0⟩, ⟨1, .Redraw, 80, 50⟩]) := by
  show new.create 1 ["0".toList, "0".toList, "80".toList, "50".toList, "a".toList] = _
  exact create_eq (by decide) nofun rfl rfl rfl rfl rfl rfl (by decide)

theorem reachable_single : Reachable single := .command _ .new command_single

/-- Representation invariant: every reachable server is in good shape, ids come and go by
`WC` and `WD` only, and no command, pointer packet or repaint faults. -/
theorem window_representation (h : Reachable s) :
    (s.windows.length ≤ 8 ∧ s.ids.Nodup ∧ (∀ w ∈ s.windows, w.Ok) ∧
      (∀ g, s.grab = some g → g.Ok s.ids) ∧ ∀ id, s.pressed = some id → id ∈ s.ids) ∧
    (∀ line, ∃ t events, s.command line = .ok (t, events) ∧ IdsLaw s t line) ∧
    (∀ x y left wasLeft, 0 ≤ x ∧ x ≤ 1023 → 0 ≤ y ∧ y ≤ 767 → ∃ owned t events,
      s.pointer x y left wasLeft = .ok (owned, t, events) ∧ ∀ id, id ∈ t.ids ↔ id ∈ s.ids) ∧
    ∀ pixels, Screen pixels → ∃ pixels', s.paint pixels = .ok pixels' ∧ Screen pixels' := by
  have hs := h.inv
  refine ⟨⟨hs.count, hs.distinct, hs.windows, hs.grab, hs.pressed⟩, fun line => ?_,
    fun x y left wasLeft hx hy => ?_, fun pixels hp => paint_yields hs hp⟩
  · obtain ⟨⟨t, events⟩, hc, -, hlaw⟩ := command_yields hs line
    exact ⟨t, events, hc, hlaw⟩
  · obtain ⟨⟨owned, t, events⟩, hc, -, hperm⟩ := pointer_yields hs hx hy left wasLeft
    exact ⟨owned, t, events, hc, fun _ => hperm.mem_iff⟩

theorem window_representation_single : single.ids = [1] ∧
    ∃ t events, single.command "WD|1".toList = .ok (t, events) ∧ IdsLaw single t "WD|1".toList :=
  ⟨rfl, (window_representation reachable_single).2.1 _⟩

end WindowServer

end Pippin.Client
