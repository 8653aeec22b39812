import Pippin.Native.CaretRuns

/-! How large the numbers of a surface are. Titles, rows and texts are bounded by the shell model
and by what an `S|` line may say, so that sums of them stay far from the ends of an i32. -/

namespace Pippin.Native
open Checked Str
open Pippin.Client (WIDTH HEIGHT)

structure Row.Small (r : Row) : Prop where
  x : 0 ≤ r.x ∧ r.x ≤ 1024
  y : 0 ≤ r.y ∧ r.y ≤ 1024
  width : 0 ≤ r.width ∧ r.width ≤ 1024
  height : 0 ≤ r.height ∧ r.height ≤ 1024
  text : r.text.len ≤ 96

structure Window.Small (w : Window) : Prop where
  title : w.title.len ≤ 40
  length : w.rows.length ≤ 16
  rows : ∀ r ∈ w.rows, r.Small

/-- A surface of the shell model with its corner on the screen. -/
structure ShellSurface.Placed (surface : ShellSurface) : Prop where
  x : 0 ≤ surface.x ∧ surface.x ≤ 1024
  y : 0 ≤ surface.y ∧ surface.y ≤ 768
  title : surface.title.len ≤ 40
  items : ∀ item ∈ surface.items, item.row.Small

theorem ShellSurface.Placed.word {surface : ShellSurface} (h : surface.Placed) : surface.Word := by
  obtain ⟨hx, hy, -⟩ := h
  unfold Word IsI32
  omega

variable {s t : Compositor} {w v : Window} {r : Row} {i : Nat} {shell : List ShellSurface}

theorem Window.Small.congr (h : w.Small) (htitle : v.title = w.title) (hrows : v.rows = w.rows) : v.Small :=
  ⟨htitle ▸ h.title, hrows ▸ h.length, hrows ▸ h.rows⟩

theorem Window.Small.index (h : w.Small) (hr : w.rows[i]? = some r) : i < 16 :=
  Nat.lt_of_lt_of_le (List.getElem?_eq_some_iff.mp hr).1 h.length

theorem Window.Small.row (h : w.Small) (hr : w.rows[i]? = some r) : r.Small := h.rows r (List.mem_of_getElem? hr)

namespace Compositor

/-! ## Lines of the host -/

theorem len_append (a b : Str) : (a ++ b).len = a.len + b.len := by
  unfold Str.len Str.bytes
  rw [List.flatMap_append, List.length_append]

theorem len_splitOnce {c : Char} {a b line : Str} (h : splitOnce c line = some (a, b)) : b.len ≤ line.len := by
  rw [(splitOnce_some h).1, len_append, ← List.singleton_append, len_append]
  omega

theorem plainRow_small {text : Str} (h : text.len ≤ 96) (action : Str) (kind : UInt8) :
    (plainRow text action kind).Small :=
  have zero : (0 : Int) ≤ 0 ∧ (0 : Int) ≤ 1024 := by decide
  ⟨zero, zero, zero, zero, h⟩

theorem parseRow_small {part : Str} (h : parseRow part = some r) : r.Small := by
  unfold parseRow at h
  dsimp only at h
  split at h
  · cases h
  · rename_i hlen
    have htext := Nat.le_of_not_lt (not_or.mp hlen).1
    cases h
    refine plainRow_small ?_ _ _
    split
    · rename_i kind value hsplit
      exact Nat.le_trans (len_splitOnce hsplit) htext
    · exact htext

theorem length_mapM {α β : Type} {f : α → Option β} {l : List α} {m : List β} (h : l.mapM f = some m) :
    m.length = l.length := by
  induction l generalizing m with
  | nil =>
    cases h
    rfl
  | cons a l ih =>
    rw [List.mapM_cons] at h
    obtain ⟨b, -, h⟩ := Option.bind_eq_some_iff.mp h
    obtain ⟨m', hm, h⟩ := Option.bind_eq_some_iff.mp h
    cases h
    rw [List.length_cons, List.length_cons, ih hm]

theorem parseSurface_small {payload id title : Str} {role : Role} {x y width height : Int} {rows : List Row}
    (h : parseSurface payload = some (.window id role x y width height title rows)) :
    title.len ≤ 40 ∧ rows.length ≤ 8 ∧ ∀ r ∈ rows, r.Small := by
  obtain ⟨-, -, ⟨part, hrows⟩, -⟩ := parseSurface_reads h
  have hlength : rows.length ≤ 8 := by
    rw [length_mapM hrows]
    exact Nat.le_trans (List.length_filter_le _ _) (List.length_take_le _ _)
  refine ⟨?_, hlength, fun r hr => ?_⟩
  · unfold parseSurface at h
    split at h
    · split at h
      · cases h
      · rename_i hlimits
        simp only [not_or, Nat.not_lt] at hlimits
        split at h
        · split at h
          · obtain ⟨_, -, h⟩ := Option.map_eq_some_iff.mp h
            cases h
          · cases h
        · obtain ⟨_, -, h⟩ := Option.bind_eq_some_iff.mp h
          obtain ⟨_, -, h⟩ := Option.bind_eq_some_iff.mp h
          obtain ⟨_, -, h⟩ := Option.bind_eq_some_iff.mp h
          obtain ⟨_, -, h⟩ := Option.bind_eq_some_iff.mp h
          obtain ⟨_, -, h⟩ := Option.bind_eq_some_iff.mp h
          obtain ⟨_, -, h⟩ := Option.bind_eq_some_iff.mp h
          split at h
          · cases h
          · obtain ⟨_, -, h⟩ := Option.bind_eq_some_iff.mp h
            cases h
            exact hlimits.2.2.1
    · cases h
  · obtain ⟨part, -, hpart⟩ := mem_of_mapM hrows r hr
    exact parseRow_small hpart

/-! ## Runs -/

theorem small_rule (hshell : ∀ surface ∈ shell, surface.Placed) : WindowRule shell Window.Small where
  new surface hin w hw := by
    obtain ⟨-, -, htitle, hitems⟩ := hshell surface hin
    unfold ShellSurface.window? at hw
    split at hw
    · cases hw
    · obtain ⟨role, -, rfl⟩ := Option.map_eq_some_iff.mp hw
      refine ⟨htitle, ?_, fun r hr => ?_⟩
      · rw [List.length_map]
        exact List.length_take_le _ _
      · obtain ⟨item, hitem, rfl⟩ := List.mem_map.mp hr
        exact hitems item (List.mem_of_mem_take hitem)
  shift w v h hv := by
    obtain ⟨x, y, scrollY, rfl, -⟩ := hv
    exact h.congr rfl rfl
  minimized w minimized h := h.congr rfl rfl
  toggled w h v hv := by
    obtain ⟨m, -, hv⟩ := bind_eq_ok hv
    cases hv
    refine h.congr ?_ toggleMaximized_content.1
    show w.toggleMaximized.title = w.title
    unfold Window.toggleMaximized
    split
    · split <;> rfl
    · rfl
  replaced w payload id role x y width height title rows hp _ v hv := by
    obtain ⟨htitle, hlength, hrows⟩ := parseSurface_small hp
    obtain ⟨m, -, hv⟩ := bind_eq_ok hv
    cases hv
    exact ⟨htitle, Nat.le_trans hlength (by decide), hrows⟩
  added payload id role x y width height title rows hp := by
    obtain ⟨htitle, hlength, hrows⟩ := parseSurface_small hp
    exact ⟨htitle, Nat.le_trans hlength (by decide), hrows⟩
  test id x y _ _ := by
    refine ⟨(by decide : Str.len "WINDOW TEST".toList ≤ 40), (by decide : 2 ≤ 16), fun r hr => ?_⟩
    simp only [testWindow, List.mem_cons, List.not_mem_nil, or_false] at hr
    rcases hr with rfl | rfl <;> exact plainRow_small (by decide) _ _

theorem Reachable.small (hshell : ∀ surface ∈ shell, surface.Placed) (h : Reachable shell s) :
    ∀ w ∈ s.windows, w.Small := (small_rule hshell).reachable h

/-! ## Frames under a query -/

/-- The running values of the reflow after `n` rows. -/
structure Reflow.Small (n : Nat) (f : Reflow) : Prop where
  firstX : f.firstX = 2 ^ 31 - 1 ∨ 0 ≤ f.firstX ∧ f.firstX ≤ 1024
  lastRight : f.lastRight ≤ 2048
  gap : 0 ≤ f.gap ∧ f.gap ≤ 1024
  before : f.visibleBefore ≤ n
  total : f.visibleTotal ≤ n
  previous : ∀ right, f.previousRight = some right → 0 ≤ right ∧ right ≤ 2048

theorem gap_small {f : Reflow} {r : Row} (hx : 0 ≤ r.x ∧ r.x ≤ 1024) (hgap : 0 ≤ f.gap ∧ f.gap ≤ 1024)
    (hprevious : ∀ right, f.previousRight = some right → 0 ≤ right ∧ right ≤ 2048) :
    Yields (match f.previousRight with
      | some right => do pure (max (← i32 (r.x - right)) 0)
      | none => pure f.gap : Checked Int) fun gap => 0 ≤ gap ∧ gap ≤ 1024 := by
  cases hp : f.previousRight with
  | none => exact yields_ok hgap
  | some right =>
    have hrange := hprevious right hp
    dsimp only
    rw [i32_eq (by omega) (by omega)]
    exact yields_ok (by omega)

theorem reflow_next_small {n index : Nat} {f : Reflow} {p : Row × Nat} (hf : f.Small n) (hr : p.1.Small) :
    Yields (Reflow.next s w index f p) (Reflow.Small (n + 1)) := by
  obtain ⟨hfirst, hlast, hgap, hbefore, htotal, hprevious⟩ := hf
  have hx := hr.x
  have hwidth := hr.width
  unfold Reflow.next
  dsimp only
  split
  · exact yields_ok ⟨hfirst, hlast, hgap, by omega, by omega, hprevious⟩
  · have hright : saturate (p.1.x + p.1.width) = p.1.x + p.1.width := by
      unfold saturate
      omega
    rw [hright]
    refine (gap_small hx hgap hprevious).bind fun gap hgap => yields_ok ⟨?_, ?_, hgap, ?_, ?_, ?_⟩
    · dsimp only
      omega
    · dsimp only
      omega
    · dsimp only
      split <;> omega
    · dsimp only
      split <;> omega
    · rintro right ⟨⟩
      omega

theorem reflow_fold_small {n index : Nat} {f : Reflow} {l : List (Row × Nat)} (hf : f.Small n)
    (hl : ∀ p ∈ l, p.1.Small) :
    Yields (l.foldlM (Reflow.next s w index) f) (Reflow.Small (n + l.length)) := by
  induction l generalizing n f with
  | nil => exact yields_ok hf
  | cons p l ih =>
    rw [List.foldlM_cons, List.length_cons, Nat.add_comm l.length, ← Nat.add_assoc]
    exact (reflow_next_small hf (hl p List.mem_cons_self)).bind fun g hg =>
      ih hg fun q hq => hl q (List.mem_cons_of_mem p hq)

theorem mul_small {v m : Int} {n : Nat} (hv : 0 ≤ v ∧ v ≤ m) (hn : n ≤ 16) :
    0 ≤ v * (n : Int) ∧ v * (n : Int) ≤ m * 16 :=
  ⟨Int.mul_nonneg hv.1 (Int.natCast_nonneg n),
    Int.mul_le_mul hv.2 (Int.ofNat_le.mpr hn) (Int.natCast_nonneg n) (Int.le_trans hv.1 hv.2)⟩

theorem tdiv_le {a m : Int} (hm : 0 ≤ m) (ha : a ≤ m) (n : Nat) : a.tdiv n ≤ m := by
  rcases Int.le_total 0 a with hpos | hneg
  · exact Int.le_trans (Int.tdiv_le_self n hpos) ha
  · refine Int.le_trans ?_ hm
    have hneg' := Int.tdiv_nonneg (Int.neg_nonneg_of_nonpos hneg) (Int.natCast_nonneg n)
    rw [Int.neg_tdiv] at hneg'
    omega

theorem filteredFrame_yields (hw : w.Small) (hr : r.Small) : Yields (s.filteredFrame w i r) fun f =>
    (0 ≤ f.1 ∧ f.1 ≤ 2 ^ 16) ∧ (0 ≤ f.2.1 ∧ f.2.1 ≤ 1024) ∧ (0 ≤ f.2.2.1 ∧ f.2.2.1 ≤ 2048) ∧ 0 ≤ f.2.2.2 ∧
    f.2.2.2 ≤ 1024 := by
  obtain ⟨hx, hy, hwidth, hheight, -⟩ := hr
  have own : (0 ≤ r.frame.1 ∧ r.frame.1 ≤ 2 ^ 16) ∧ (0 ≤ r.frame.2.1 ∧ r.frame.2.1 ≤ 1024) ∧
      (0 ≤ r.frame.2.2.1 ∧ r.frame.2.2.1 ≤ 2048) ∧ 0 ≤ r.frame.2.2.2 ∧ r.frame.2.2.2 ≤ 1024 := by
    unfold Row.frame
    dsimp only
    omega
  unfold filteredFrame
  split
  · exact yields_ok own
  · have hstart : Reflow.start.Small 0 := ⟨Or.inl rfl, by decide, by decide, Nat.le_refl 0, Nat.le_refl 0, nofun⟩
    have hall : ∀ p ∈ w.rows.zipIdx, p.1.Small := fun p hp => by
      obtain ⟨k, hk⟩ := List.mem_iff_getElem?.mp hp
      exact hw.row (getElem?_zipIdx hk).2
    refine (reflow_fold_small hstart hall).bind fun g hg => ?_
    split
    · exact yields_ok own
    · rename_i hgroup
      obtain ⟨hfirst, hlast, hgap, hbefore, htotal, -⟩ := hg
      rw [List.length_zipIdx, Nat.zero_add] at hbefore htotal
      have hlength := hw.length
      have hgaps := mul_small hgap (n := g.visibleTotal - 1) (by omega)
      rw [i32_eq (by omega) (by omega), ok_bind]
      have hsaturate : saturate (g.gap * (g.visibleTotal - 1 : Nat)) = g.gap * (g.visibleTotal - 1 : Nat) := by
        unfold saturate
        omega
      rw [hsaturate]
      generalize g.gap * (g.visibleTotal - 1 : Nat) = gaps at hgaps ⊢
      dsimp only
      rw [i32_eq (by omega) (by omega), ok_bind]
      -- the quotient is at most the room, which is small
      have hshare : (g.lastRight - g.firstX - gaps).tdiv g.visibleTotal ≤ 2048 := tdiv_le (by decide) (by omega) _
      generalize (g.lastRight - g.firstX - gaps).tdiv g.visibleTotal = share at hshare ⊢
      have hoffset := mul_small (v := max share 1 + g.gap) (m := 3072) (n := g.visibleBefore) (by omega) (by omega)
      rw [Int.mul_comm] at hoffset
      rw [i32_eq (by omega) (by omega), ok_bind, i32_eq (by omega) (by omega), ok_bind, i32_eq (by omega) (by omega)]
      exact yields_ok (by dsimp only; omega)

end Compositor

end Pippin.Native
