import Pippin.Lib.Around
import Pippin.Native.Focus

/-! Tab goes around the controls of the focus scope. The list is rebuilt at every key, after the
scope has been repaired; Tab itself changes nothing the list is made from. -/

namespace Pippin.Native
open Checked

namespace Compositor

variable {s t u : Compositor} {w : Window} {c : Control} {r : Row} {id : Str} {i row : Nat} {text : Option UInt8}

/-! ## What the list is made from -/

def query (s : Compositor) (id : Str) : List UInt8 := (s.searchQuery id).getD []

theorem rowMatchesSearch_query (s : Compositor) (w : Window) (r : Row) : s.rowMatchesSearch w r =
    (!searches w.id || r.structural || r.action.isEmpty || (s.query w.id).isEmpty ||
      asciiContainsCaseInsensitive r.text.bytes (s.query w.id)) := by
  unfold rowMatchesSearch query
  cases !searches w.id || r.structural || r.action.isEmpty with
  | true => rfl
  | false =>
    cases s.searchQuery w.id with
    | none => rfl
    | some q => rfl

/-- The same windows scrolled, the same scope and the same queries. -/
structure Alike (s t : Compositor) : Prop where
  windows : List.Forall₂ Window.Scroll s.windows t.windows
  focusScope : t.focusScope = s.focusScope
  query : ∀ id, t.query id = s.query id

theorem Alike.trans (h : Alike s t) (h' : Alike t u) : Alike s u :=
  ⟨forall₂_trans (R := Window.Scroll) (fun h h' => h.trans h') h.windows h'.windows, h'.focusScope.trans h.focusScope,
    fun id => (h'.query id).trans (h.query id)⟩

theorem find?_scrolled {ws vs : List Window} {p q : Window → Bool} (hp : ∀ w v : Window, w.Scroll v → p w = q v)
    (h : List.Forall₂ Window.Scroll ws vs) : Option.Rel Window.Scroll (ws.find? p) (vs.find? q) := by
  induction h with
  | nil => exact .none
  | @cons w v ws vs hv _ ih =>
    rw [List.find?_cons, List.find?_cons, ← hp w v hv]
    cases p w with
    | true => exact .some hv
    | false => exact ih

theorem searchQuery_scrolled (h : List.Forall₂ Window.Scroll s.windows t.windows) (he : t.edits = s.edits) (id : Str) :
    t.searchQuery id = s.searchQuery id := by
  have hedit : t.editIndex = s.editIndex := by
    unfold editIndex
    rw [he]
  have hfind := find?_scrolled (p := fun w => w.id = id) (q := fun w => w.id = id) (fun w v hv => by
    obtain ⟨_, rfl, -⟩ := hv
    rfl) h
  unfold searchQuery
  rw [he, hedit]
  generalize s.windows.find? (fun w => decide (w.id = id)) = found, t.windows.find? (fun w => decide (w.id = id)) =
    found' at hfind ⊢
  cases hfind with
  | none => rfl
  | some hv =>
    obtain ⟨_, rfl, -⟩ := hv
    rfl

theorem Scrolled.alike (h : Scrolled s t) : Alike s t := by
  have hedits : t.edits = s.edits := by rw [h.rest]
  refine ⟨h.windows, by rw [h.rest], fun id => ?_⟩
  unfold query
  rw [searchQuery_scrolled h.windows hedits]

theorem ensureEditState_query (windowId : Str) (row : Nat) (id : Str) :
    (s.ensureEditState windowId row).1.query id = s.query id := by
  unfold ensureEditState
  cases s.editIndex windowId row with
  | some index => rfl
  | none =>
    unfold query searchQuery editIndex
    dsimp only
    cases s.windows.find? fun w => decide (w.id = id) with
    | none => rfl
    | some w =>
      cases hrow : w.rows.findIdx? fun r => decide (r.kind = kindSearch) with
      | none =>
        simp only [Option.bind_eq_bind, Option.bind_some, hrow, Option.bind_none]
      | some k =>
        simp only [Option.bind_eq_bind, Option.bind_some, hrow, List.findIdx?_append]
        cases hold : s.edits.findIdx? fun e => decide (e.windowId = id ∧ e.row = k) with
        | some index =>
          have hlt : index < s.edits.length := (List.findIdx?_eq_some_iff_getElem.mp hold).1
          simp only [Option.some_or, Option.bind_some, List.getElem?_append_left hlt]
        | none =>
          by_cases hnew : windowId = id ∧ row = k
          · simp [hnew]
          · simp [hnew]

theorem ensureEditState_alike (windowId : Str) (row : Nat) : Alike s (s.ensureEditState windowId row).1 := by
  obtain ⟨edits, heq⟩ := ensureEditState_edits (s := s) windowId row
  exact ⟨by rw [heq]; exact forall₂_scroll_refl _, by rw [heq], ensureEditState_query windowId row⟩

theorem Alike.accepts (h : Alike s t) {v : Window} (hv : w.Scroll v) :
    s.focusScopeAccepts w = t.focusScopeAccepts v := by
  obtain ⟨_, rfl, -⟩ := hv
  unfold focusScopeAccepts
  rw [h.focusScope]

theorem Alike.matches (h : Alike s t) {v : Window} (hv : w.Scroll v) (r : Row) :
    s.rowMatchesSearch w r = t.rowMatchesSearch v r := by
  obtain ⟨_, rfl, -⟩ := hv
  rw [rowMatchesSearch_query, rowMatchesSearch_query, h.query]

theorem Alike.tabControls (h : Alike s t) : t.tabControls = s.tabControls := by
  have key : ∀ ws vs : List Window, List.Forall₂ Window.Scroll ws vs → ∀ f g : Window → List Control,
      (∀ w v, w.Scroll v → f w = g v) → vs.flatMap g = ws.flatMap f := by
    intro ws vs hf f g hfg
    induction hf with
    | nil => rfl
    | cons hv _ ih => rw [List.flatMap_cons, List.flatMap_cons, hfg _ _ hv, ih]
  refine key _ _ h.windows _ _ fun w v hv => ?_
  rw [← h.accepts hv]
  simp only [← h.matches hv]
  obtain ⟨_, rfl, -⟩ := hv
  rfl

theorem Alike.scopeValid (h : Alike s t) : t.scopeValid = s.scopeValid := by
  have hany : ∀ id, (t.windows.any fun w => !w.minimized && w.id == id) =
      s.windows.any fun w => !w.minimized && w.id == id := by
    intro id
    have key : ∀ ws vs : List Window, List.Forall₂ Window.Scroll ws vs →
        (vs.any fun w => !w.minimized && w.id == id) = ws.any fun w => !w.minimized && w.id == id := by
      intro ws vs hf
      induction hf with
      | nil => rfl
      | cons hv _ ih =>
        obtain ⟨_, rfl, -⟩ := hv
        rw [List.any_cons, List.any_cons, ih]
    exact key _ _ h.windows
  unfold Compositor.scopeValid
  rw [h.focusScope]
  simp only [hany]

theorem Alike.keepsFocus (h : Alike s t) (c : Control) : t.keepsFocus c = s.keepsFocus c := by
  have hrel : Option.Rel Window.Scroll (s.shown c.1) (t.shown c.1) := find?_scrolled (fun w v hv => by
    obtain ⟨_, rfl, -⟩ := hv
    rfl) h.windows
  unfold Compositor.keepsFocus
  generalize s.shown c.1 = found, t.shown c.1 = found' at hrel ⊢
  cases hrel with
  | none => rfl
  | some hv =>
    simp only [Option.any_some]
    rw [← h.accepts hv]
    simp only [← h.matches hv]
    obtain ⟨_, rfl, -⟩ := hv
    rfl

theorem Alike.checked (h : Alike s t) (hc : t.focusedControl = s.focusedControl) :
    Alike (if s.focusedControl.any s.keepsFocus then s else { s with focusedControl := none })
        (if t.focusedControl.any t.keepsFocus then t else { t with focusedControl := none }) ∧
      (if t.focusedControl.any t.keepsFocus then t else { t with focusedControl := none }).focusedControl =
        (if s.focusedControl.any s.keepsFocus then s else { s with focusedControl := none }).focusedControl := by
  have hkeeps : t.keepsFocus = s.keepsFocus := funext h.keepsFocus
  rw [hc, hkeeps]
  split
  · exact ⟨h, hc⟩
  · exact ⟨⟨h.windows, h.focusScope, h.query⟩, rfl⟩

theorem repair_query (id : Str) : s.repairFocusScope.query id = s.query id := by
  unfold query searchQuery editIndex
  rw [repairFocusScope_windows, repairFocusScope_edits]

theorem Alike.repair (h : Alike s t) (hc : t.focusedControl = s.focusedControl) :
    Alike s.repairFocusScope t.repairFocusScope ∧
      t.repairFocusScope.focusedControl = s.repairFocusScope.focusedControl := by
  unfold repairFocusScope
  dsimp only
  rw [h.scopeValid]
  split
  · exact h.checked hc
  · have hrel := find?_scrolled (p := fun w => !w.minimized && w.role.framed)
      (q := fun w => !w.minimized && w.role.framed)
      (fun w v hv => by
        obtain ⟨_, rfl, -⟩ := hv
        rfl) (List.rel_reverse h.windows)
    have hscope : (t.windows.reverse.find? fun w => !w.minimized && w.role.framed).map Window.scopeForWindow =
        (s.windows.reverse.find? fun w => !w.minimized && w.role.framed).map Window.scopeForWindow := by
      generalize s.windows.reverse.find? _ = found, t.windows.reverse.find? _ = found' at hrel ⊢
      cases hrel with
      | none => rfl
      | some hv =>
        obtain ⟨_, rfl, -⟩ := hv
        rfl
    rw [hscope]
    generalize ((s.windows.reverse.find? fun w => !w.minimized && w.role.framed).map Window.scopeForWindow).getD
      .Desktop = scope
    unfold setFocusScope
    rw [h.focusScope]
    split
    · exact Alike.checked (s := { s with focusScope := scope, focusedControl := none })
        (t := { t with focusScope := scope, focusedControl := none }) ⟨h.windows, rfl, h.query⟩ rfl
    · exact h.checked hc

/-! ## Repaired states -/

theorem repair_scopeValid (s : Compositor) : s.repairFocusScope.scopeValid = true := by
  have hscope := (focusInv_repair s).scope
  unfold scopeValid
  cases hfocus : s.repairFocusScope.focusScope with
  | Desktop => rfl
  | Window id =>
    obtain ⟨w, hw, hmin, rfl⟩ := hscope id hfocus
    refine List.any_eq_true.mpr ⟨w, hw, ?_⟩
    rw [hmin, beq_self_eq_true]
    rfl

theorem shown_eq (hn : s.ids.Nodup) (hw : w ∈ s.windows) (hmin : w.minimized = false) : s.shown w.id = some w := by
  unfold shown
  cases hfind : s.windows.find? fun v => !v.minimized && v.id == w.id with
  | none =>
    have hno := List.find?_eq_none.mp hfind w hw
    simp [hmin] at hno
  | some v =>
    have hspec := shown_spec hfind
    rw [List.inj_on_of_nodup_map hn hspec.1 hw hspec.2.2]

theorem keepsFocus_of_mem (hn : s.ids.Nodup) (hc : c ∈ s.tabControls) : s.keepsFocus c = true := by
  obtain ⟨w, hw, hmin, haccepts, hid, r, hr, hstop⟩ := mem_tabControls_iff.mp hc
  unfold tabStop at hstop
  simp only [Bool.and_eq_true] at hstop
  obtain ⟨⟨⟨⟨-, hfocusable⟩, henabled⟩, haction⟩, hmatch⟩ := hstop
  unfold keepsFocus
  rw [← hid, shown_eq hn hw hmin, Option.any_some, haccepts, hr, Option.any_some, hfocusable, henabled, haction, hmatch]
  rfl

theorem repair_valid (hvalid : s.scopeValid = true) : s.repairFocusScope =
    if s.focusedControl.any s.keepsFocus then s else { s with focusedControl := none } := by
  unfold repairFocusScope
  rw [if_pos hvalid]

theorem repair_kept (hn : s.ids.Nodup) (hvalid : s.scopeValid = true) (hfocus : s.focusedControl = some c)
    (hc : c ∈ s.tabControls) : s.repairFocusScope = s := by
  rw [repair_valid hvalid, hfocus, Option.any_some, if_pos (keepsFocus_of_mem hn hc)]

theorem repair_tabControls (hvalid : s.scopeValid = true) : s.repairFocusScope.tabControls = s.tabControls := by
  rw [repair_valid hvalid]
  split <;> rfl

theorem tabControls_nodup (hn : s.ids.Nodup) : s.tabControls.Nodup := by
  refine List.nodup_flatMap.mpr ⟨fun w _ => ?_, ?_⟩
  · split
    · exact List.nodup_nil
    · have hall : (w.rows.zipIdx.map fun r => (w.id, r.2)).Nodup := by
        have hmap : (w.rows.zipIdx.map fun r => (w.id, r.2)) = (w.rows.zipIdx.map Prod.snd).map (Prod.mk w.id) :=
          (List.map_map ..).symm
        rw [hmap, List.zipIdx_map_snd]
        exact List.Nodup.map (fun _ _ h => (Prod.mk.inj h).2) List.nodup_range'
      exact hall.sublist (List.filter_sublist.map _)
  · refine (List.pairwise_map.mp hn).imp fun {w v} hne c hw hv => ?_
    have hid : ∀ u : Window, c ∈ (if u.minimized || !s.focusScopeAccepts u then [] else (u.rows.zipIdx.filter fun r =>
        r.1.laidOut && r.1.focusable && !r.1.disabled && !r.1.action.isEmpty && s.rowMatchesSearch u r.1).map
          fun r => (u.id, r.2)) → c.1 = u.id := by
      intro u hu
      split at hu
      · cases hu
      · obtain ⟨_, -, rfl⟩ := List.mem_map.mp hu
        rfl
    exact hne ((hid w hw).symm.trans (hid v hv))

/-! ## The key -/

theorem focusNext_eq (s : Compositor) (reverse : Bool) : s.focusNext reverse = .ok { s.repairFocusScope with
    focusedControl := Around.step s.repairFocusScope.tabControls reverse s.repairFocusScope.focusedControl } := by
  unfold focusNext
  generalize s.repairFocusScope = u
  dsimp only
  by_cases hempty : u.tabControls.isEmpty = true
  · rw [if_pos hempty, List.isEmpty_iff.mp hempty]
    unfold Around.step
    cases Around.place [] u.focusedControl <;> cases reverse <;> rfl
  · rw [if_neg hempty]
    have hpos : 0 < u.tabControls.length := List.length_pos_iff.mpr fun h => hempty (List.isEmpty_iff.mpr h)
    have select : ∀ k, k < u.tabControls.length → (do return { u with focusedControl := some (← get u.tabControls k) } :
        Checked Compositor) = .ok { u with focusedControl := u.tabControls[k]? } := fun k hk => by
      rw [List.getElem?_eq_getElem hk, get_eq (List.getElem?_eq_getElem hk)]
      rfl
    have hplace : (u.focusedControl.bind fun c => u.tabControls.findIdx? (· = c)) =
        Around.place u.tabControls u.focusedControl := rfl
    rw [hplace]
    unfold Around.step
    cases hplace : Around.place u.tabControls u.focusedControl with
    | none =>
      cases reverse with
      | true => exact select (u.tabControls.length - 1) (by omega)
      | false => exact select 0 hpos
    | some i =>
      cases reverse with
      | true =>
        have hi : i < u.tabControls.length := by
          obtain ⟨c, -, hc⟩ := Option.bind_eq_some_iff.mp hplace
          exact (List.findIdx?_eq_some_iff_getElem.mp hc).1
        -- the source steps back by a test, the cycle by a sum modulo its length
        have hprevious : (i + (u.tabControls.length - 1)) % u.tabControls.length =
            if i = 0 then u.tabControls.length - 1 else i - 1 := by
          split
          · subst i
            rw [Nat.zero_add, Nat.mod_eq_of_lt (by omega)]
          · rw [show i + (u.tabControls.length - 1) = i - 1 + u.tabControls.length by omega, Nat.add_mod_right,
              Nat.mod_eq_of_lt (by omega)]
        simp only [if_true]
        rw [hprevious]
        exact select _ (by split <;> omega)
      | false => exact select _ (Nat.mod_lt _ hpos)

def Blank (text : Option UInt8) : Prop := (text.filter fun byte => decide (0x20 ≤ byte ∧ byte ≤ 0x7e)) = none

theorem handleEditKey_tab (htext : Blank text) : ∃ t, s.handleEditKey 0x0f text false = .ok (t, false, none) ∧
    Alike s t ∧ t.focusedControl = s.focusedControl := by
  unfold handleEditKey
  cases s.editableFocus with
  | none => exact ⟨s, rfl, (Scrolled.refl s).alike, rfl⟩
  | some c =>
    obtain ⟨windowId, row⟩ := c
    obtain ⟨edit, hget, -⟩ := ensureEditState_get (s := s) windowId row
    obtain ⟨_, hedits⟩ := ensureEditState_edits (s := s) windowId row
    refine ⟨(s.ensureEditState windowId row).1, ?_, ensureEditState_alike windowId row, by rw [hedits]⟩
    have hkey : ∀ action kind, editKey action kind 0x0f text false edit = .ok none := by
      intro action kind
      unfold editKey typeText
      rw [htext]
      rfl
    dsimp only
    rw [get_eq hget, ok_bind, hkey]
    rfl

theorem keyScancode_tab (hclient : s.clients.isActive = false) (htext : Blank text) (reverse : Bool) : ∃ u,
    s.keyScancode 0x0f text reverse false = (do return (← u.ensureFocusedVisible >>= rehover, none, [])) ∧
      Alike s.repairFocusScope u ∧
      u.focusedControl = Around.step s.repairFocusScope.tabControls reverse s.repairFocusScope.focusedControl := by
  obtain ⟨t, hedit, halike, hfocus⟩ := handleEditKey_tab (s := s) htext
  obtain ⟨hrepair, hrepaired⟩ := halike.repair hfocus
  refine ⟨{ t.repairFocusScope with
    focusedControl := Around.step t.repairFocusScope.tabControls reverse t.repairFocusScope.focusedControl }, ?_,
    ⟨hrepair.windows, hrepair.focusScope, hrepair.query⟩, ?_⟩
  · unfold keyScancode
    rw [hclient, if_neg (by decide), hedit, ok_bind]
    simp only [Bool.false_eq_true, if_false, ok_bind]
    unfold plainKey tabKey
    rw [if_pos rfl, focusNext_eq, ok_bind]
  · dsimp only
    rw [hrepair.tabControls, hrepaired]

def Tab (reverse : Bool) (s t : Compositor) : Prop := ∃ text action events, Blank text ∧
  s.keyScancode 0x0f text reverse false = .ok (t, action, events)

/-- A state whose scope is repaired, with a control of `cs` in focus. -/
structure OnStop (cs : List Control) (s : Compositor) (c : Control) : Prop where
  nodup : s.ids.Nodup
  clients : s.clients.isActive = false
  repaired : s.repairFocusScope = s
  tabControls : s.tabControls = cs
  focus : s.focusedControl = some c
  mem : c ∈ cs

theorem Tab.onStop {reverse : Bool} (hn : s.ids.Nodup) (hclient : s.clients.isActive = false)
    (hne : s.repairFocusScope.tabControls ≠ []) (h : Tab reverse s t) : ∃ c,
    OnStop s.repairFocusScope.tabControls t c ∧
      Around.step s.repairFocusScope.tabControls reverse s.repairFocusScope.focusedControl = some c := by
  obtain ⟨text, action, events, htext, hkey⟩ := h
  have hstill := keyScancode_still _ _ _ _ _ hkey
  have hn' : t.ids.Nodup := hstill.framed.ids ▸ hn
  obtain ⟨u, heq, halike, hfocus⟩ := keyScancode_tab hclient htext reverse
  obtain ⟨c, hc, hstep⟩ := Around.step_mem hne reverse s.repairFocusScope.focusedControl
  rw [heq] at hkey
  obtain ⟨v', hv', hkey⟩ := bind_eq_ok hkey
  obtain ⟨v, hv, hv'⟩ := bind_eq_ok hv'
  obtain ⟨_, -, hv'⟩ := bind_eq_ok hv'
  cases hkey
  cases hv'
  have hscrolled := ensureFocusedVisible_scrolled v hv
  -- the hovered control is not read
  have hall : Alike s.repairFocusScope { v with hoveredControl := _ } :=
    ⟨(halike.trans hscrolled.alike).windows, (halike.trans hscrolled.alike).focusScope,
      (halike.trans hscrolled.alike).query⟩
  have hfocus' : v.focusedControl = some c := by
    rw [← hstep, ← hfocus, hscrolled.rest]
  have hlist := hall.tabControls
  have hvalid := hall.scopeValid.trans (repair_scopeValid s)
  exact ⟨c, ⟨hn', hstill.clients ▸ hclient, repair_kept hn' hvalid hfocus' (hlist ▸ hc), hlist, hfocus', hc⟩, hstep⟩

theorem OnStop.tab {cs : List Control} {reverse : Bool} (hs : OnStop cs s c) (h : Tab reverse s t) : ∃ c',
    OnStop cs t c' ∧ Around.step cs reverse (some c) = some c' := by
  have hlist : s.repairFocusScope.tabControls = cs := by rw [hs.repaired, hs.tabControls]
  obtain ⟨c', ht, hstep⟩ := Tab.onStop hs.nodup hs.clients (hlist ▸ List.ne_nil_of_mem hs.mem) h
  rw [hlist] at ht hstep
  rw [hs.repaired, hs.focus] at hstep
  exact ⟨c', ht, hstep⟩

inductive TabRun : Compositor → List Bool → List Compositor → Prop where
  | nil (s : Compositor) : TabRun s [] []
  | cons {s t : Compositor} {reverse : Bool} {keys : List Bool} {ts : List Compositor} (h : Tab reverse s t)
      (hts : TabRun t keys ts) : TabRun s (reverse :: keys) (t :: ts)

theorem OnStop.run {cs : List Control} {keys : List Bool} {ts : List Compositor} (hs : OnStop cs s c)
    (h : TabRun s keys ts) : ∀ t ∈ ts, ∃ c, OnStop cs t c := by
  induction h generalizing c with
  | nil => exact fun _ h => (nomatch h)
  | cons h _ ih =>
    obtain ⟨c', ht, -⟩ := hs.tab h
    intro u hu
    rcases List.mem_cons.mp hu with rfl | hu
    · exact ⟨c', ht⟩
    · exact ih ht u hu

theorem OnStop.walk {cs : List Control} {n : Nat} {ts : List Compositor} (hs : OnStop cs s c)
    (h : TabRun s (List.replicate n false) ts) : ts.map focusedControl = Around.walk cs n (some c) := by
  induction n generalizing s c ts with
  | zero =>
    cases h
    rfl
  | succ n ih =>
    cases h with
    | cons h hts =>
      obtain ⟨c', ht, hstep⟩ := hs.tab h
      rw [List.map_cons, Around.walk, ih ht hts, hstep, ht.focus]

theorem TabRun.walk {n : Nat} {ts : List Compositor} (hn : s.ids.Nodup) (hclient : s.clients.isActive = false)
    (hne : s.repairFocusScope.tabControls ≠ []) (h : TabRun s (List.replicate n false) ts) :
    ts.map focusedControl = Around.walk s.repairFocusScope.tabControls n s.repairFocusScope.focusedControl := by
  cases n with
  | zero =>
    cases h
    rfl
  | succ n =>
    cases h with
    | cons h hts =>
      obtain ⟨c, ht, hstep⟩ := Tab.onStop hn hclient hne h
      rw [List.map_cons, Around.walk, ht.walk hts, hstep, ht.focus]

/-- Tab traversal: the controls of the repaired scope are distinct, and Tab and Shift+Tab go
around them one by one, from the ends without a focus. As many Tabs as there are controls visit
each once, the opposite key takes a key back, and no key leads anywhere else. -/
theorem tab_cycle (hn : s.ids.Nodup) (hclient : s.clients.isActive = false) {cs : List Control}
    (hcs : s.repairFocusScope.tabControls = cs) (hne : cs ≠ []) :
    (cs.Nodup ∧ ∀ c, c ∈ cs ↔ ∃ w ∈ s.windows, w.minimized = false ∧ s.repairFocusScope.focusScopeAccepts w = true ∧
      w.id = c.1 ∧ ∃ r, w.rows[c.2]? = some r ∧ s.tabStop w r = true) ∧
    (s.scopeValid = true → ∀ c ∈ cs, s.focusedControl = some c → s.repairFocusScope.focusedControl = some c) ∧
    (∀ reverse, ∃ u, s.focusNext reverse = .ok u ∧ ∀ t, Tab reverse s t → t.focusedControl = u.focusedControl ∧
      (∀ i c, cs[i]? = some c → s.repairFocusScope.focusedControl = some c →
        t.focusedControl = cs[(if reverse then i + (cs.length - 1) else i + 1) % cs.length]?) ∧
      (s.repairFocusScope.focusedControl = none → t.focusedControl = cs[if reverse then cs.length - 1 else 0]?)) ∧
    (∀ ts, TabRun s (List.replicate cs.length false) ts → (ts.map focusedControl).Perm (cs.map some)) ∧
    (∀ reverse t u c, c ∈ cs → s.repairFocusScope.focusedControl = some c → Tab reverse s t → Tab (!reverse) t u →
      u.focusedControl = some c) ∧
    ∀ keys ts, TabRun s keys ts → ∀ t ∈ ts, ∃ c ∈ cs, t.focusedControl = some c := by
  have hnodup : cs.Nodup := by
    rw [← hcs]
    refine tabControls_nodup ?_
    unfold ids
    rw [repairFocusScope_windows]
    exact hn
  subst hcs
  -- every part is a fact of the cycle of stops, once one Tab is one step around it
  refine ⟨⟨hnodup, fun c => ?_⟩, fun hvalid c hc hfocus => ?_, fun reverse => ?_, fun ts h => ?_, ?_,
    fun keys ts h => ?_⟩
  · rw [mem_tabControls_iff, repairFocusScope_windows]
    have hstop : s.repairFocusScope.tabStop = s.tabStop := by
      funext w r
      unfold tabStop
      rw [rowMatchesSearch_query, rowMatchesSearch_query, repair_query]
    rw [hstop]
  · rw [repair_tabControls hvalid] at hc
    rw [repair_kept hn hvalid hfocus hc, hfocus]
  · refine ⟨_, focusNext_eq s reverse, fun t h => ?_⟩
    obtain ⟨c, ht, hstep⟩ := Tab.onStop hn hclient hne h
    rw [ht.focus, ← hstep]
    refine ⟨rfl, fun i c hi hfocus => ?_, fun hfocus => ?_⟩
    · rw [hfocus]
      cases reverse with
      | true => exact Around.step_previous hnodup hi
      | false => exact Around.step_next hnodup hi
    · rw [hfocus]
      cases reverse <;> rfl
  · rw [TabRun.walk hn hclient hne h]
    exact Around.walk_perm hnodup hne _
  · intro reverse t u c hc hfocus h h'
    obtain ⟨c', ht, hstep⟩ := Tab.onStop hn hclient hne h
    obtain ⟨c'', hu, hstep'⟩ := ht.tab h'
    rw [hfocus] at hstep
    rw [hu.focus, ← hstep', ← hstep]
    exact Around.step_back hnodup hc reverse
  · cases h with
    | nil => exact fun _ h => (nomatch h)
    | cons h hts =>
      obtain ⟨c, ht, -⟩ := Tab.onStop hn hclient hne h
      intro u hu
      rcases List.mem_cons.mp hu with rfl | hu
      · exact ⟨c, ht.mem, ht.focus⟩
      · obtain ⟨c', hu⟩ := ht.run hts u hu
        exact ⟨c', hu.mem, hu.focus⟩

def onSearch : Compositor := { opened with focusedControl := some ("launcher".toList, 1) }

def stops : List Control :=
  [("launcher".toList, 1), ("launcher".toList, 2), ("launcher".toList, 3), ("launcher".toList, 4)]

theorem tab_cycle_launcher : Tab false onSearch onFiles ∧ onFiles.focusedControl = stops[1]? := by
  have htab : Tab false onSearch onFiles := ⟨none, none, [], rfl, tab_onFiles⟩
  have hstops : onSearch.repairFocusScope.tabControls = stops := by decide +kernel
  have hcycle := tab_cycle (s := onSearch) (by decide) rfl hstops (by decide)
  obtain ⟨_, -, hstep⟩ := hcycle.2.2.1 false
  exact ⟨htab, (hstep _ htab).2.1 0 ("launcher".toList, 1) rfl (by decide +kernel)⟩

def stale : Compositor := { onSearch with focusScope := .Window "gone".toList }

def deep : Compositor :=
  { opened with
    windows := [{ launcherWindow with
      rows := [⟨"Deep".toList, "deep".toList, 98, 0, flagFocusable, 20, 2147483640, 10, 30⟩] }] }

/-- From a focus in a stale scope Tab starts over, and scrolling to a control may overflow. -/
theorem tab_cycle_stale :
    (¬∀ (s : Compositor) cs i c t, s.ids.Nodup → s.clients.isActive = false →
      s.repairFocusScope.tabControls = cs → cs[i]? = some c → s.focusedControl = some c → Tab false s t →
      t.focusedControl = cs[(i + 1) % cs.length]?) ∧
    ¬∀ s : Compositor, s.ids.Nodup → s.clients.isActive = false → s.repairFocusScope.tabControls ≠ [] →
      ∃ r, s.keyScancode 0x0f none false false = .ok r := by
  refine ⟨fun h => ?_, fun h => ?_⟩
  · have htab : stale.keyScancode 0x0f none false false =
        .ok ({ onSearch with edits := [⟨"launcher".toList, 1, [], 0⟩] }, none, []) := by decide +kernel
    have hfocus := h stale stops 0 _ _ (by decide) rfl (by decide +kernel) rfl rfl ⟨none, none, [], rfl, htab⟩
    cases hfocus
  · obtain ⟨r, hr⟩ := h deep (by decide) rfl (by decide +kernel)
    have hfault : deep.keyScancode 0x0f none false false = .error .overflow := by decide +kernel
    cases hfault.symm.trans hr

end Compositor

end Pippin.Native
