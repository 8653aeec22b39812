import Pippin.Ui.Containment
import Pippin.Ui.Flow
import Mathlib.Data.Rat.Cast.Order
import Mathlib.Tactic.FieldSimp
import Mathlib.Tactic.Linarith

/-! How a flow shares out its space. The running target is a rounded part of the whole, so the
rounding of one control is taken back by the next ones and no pixel is lost. -/

namespace Pippin.Ui
open Checked

theorem share_step {s : Int} {u w total : Nat} (hs : 0 ≤ s) (htotal : 0 < total) :
    |(((s * (u + w : Nat)).tdiv total - (s * u).tdiv total : Int) : ℚ) - s * w / total| < 1 := by
  have hpos : (0 : Int) < total := Int.natCast_pos.mpr htotal
  have hu : 0 ≤ s * (u : Int) := Int.mul_nonneg hs (Int.natCast_nonneg u)
  have huw : 0 ≤ s * ((u + w : Nat) : Int) := Int.mul_nonneg hs (Int.natCast_nonneg _)
  rw [Int.tdiv_eq_ediv_of_nonneg hu, Int.tdiv_eq_ediv_of_nonneg huw]
  have hfrom := Int.mul_ediv_add_emod (s * u) total
  have hto := Int.mul_ediv_add_emod (s * (u + w : Nat)) total
  have hfrom_lo := Int.emod_nonneg (s * u) hpos.ne'
  have hfrom_hi := Int.emod_lt_of_pos (s * u) hpos
  have hto_lo := Int.emod_nonneg (s * (u + w : Nat)) hpos.ne'
  have hto_hi := Int.emod_lt_of_pos (s * (u + w : Nat)) hpos
  generalize s * u / (total : Int) = p at *
  generalize s * (u + w : Nat) / (total : Int) = q at *
  have hsplit : s * ((u + w : Nat) : Int) = s * u + s * w := by
    rw [Int.natCast_add, Int.mul_add]
  have hdiff : (total : Int) * (q - p) - s * w = s * u % total - s * (u + w : Nat) % total := by
    rw [Int.mul_sub]
    omega
  have hlo : -(total : Int) < total * (q - p) - s * w := by omega
  have hhi : (total : Int) * (q - p) - s * w < total := by omega
  have htotal' : (0 : ℚ) < total := Nat.cast_pos.mpr htotal
  have hexact : ((q - p : Int) : ℚ) - s * w / total = ((total * (q - p) - s * w : Int) : ℚ) / total := by
    push_cast
    field_simp
  rw [hexact, abs_lt, lt_div_iff₀ htotal', div_lt_iff₀ htotal']
  constructor
  · have hlo : ((-(total : Int) : Int) : ℚ) < ((total * (q - p) - s * w : Int) : ℚ) := Int.cast_lt.mpr hlo
    push_cast at hlo ⊢
    linarith
  · have hhi : ((total * (q - p) - s * w : Int) : ℚ) < ((total : Int) : ℚ) := Int.cast_lt.mpr hhi
    push_cast at hhi ⊢
    linarith

theorem share_all {s : Int} {total : Nat} (htotal : 0 < total) : (s * total).tdiv total = s :=
  Int.mul_tdiv_cancel s (Int.natCast_pos.mpr htotal).ne'

/-! ## The controls of a flow -/

theorem leavesFrom_map_leaf (axis : Axis) (gap : Int) (frame : Rect) (all : List Node) (specs : List ControlSpec) :
    ∀ i k : Nat, (leavesFrom axis gap frame all i (specs.map leaf))[k]? =
      specs[k]?.map fun spec => spec.placed (cell axis gap frame all (leaf spec) (i + k)) := by
  induction specs with
  | nil =>
    intro i k
    rfl
  | cons spec specs ih =>
    intro i k
    rw [List.map_cons]
    unfold leavesFrom leaves leaf
    rw [List.singleton_append]
    cases k with
    | zero => rfl
    | succ k =>
      rw [List.getElem?_cons_succ, List.getElem?_cons_succ, ← Nat.add_assoc, Nat.add_right_comm i k 1]
      exact ih (i + 1) k

def Flow.bases (specs : List ControlSpec) : Int := (specs.map fun spec => spec.basis).sum
def Flow.weights (specs : List ControlSpec) : Nat := (specs.map fun spec => spec.grow.toNat).sum

def Flow.remaining (layout : Flow) (specs : List ControlSpec) : Int :=
  max 0 (layout.mainSize - Flow.bases specs - gapSum layout.gap specs.length)

structure Flow.Distributes (layout : Flow) (specs : List ControlSpec) (items : List Control) : Prop where
  length : items.length = specs.length
  first : ∀ c : Control, items[0]? = some c → c.frame.lo layout.axis = layout.frame.lo layout.axis
  next : ∀ (i : Nat) (c d : Control), items[i]? = some c → items[i + 1]? = some d →
    d.frame.lo layout.axis = c.frame.lo layout.axis + c.frame.len layout.axis + layout.gap
  fixed : ∀ (i : Nat) (spec : ControlSpec) (c : Control), specs[i]? = some spec → items[i]? = some c → spec.grow = 0 →
    c.frame.len layout.axis = spec.basis
  grown : ∀ (i : Nat) (spec : ControlSpec) (c : Control), specs[i]? = some spec → items[i]? = some c → spec.grow ≠ 0 →
    |(c.frame.len layout.axis : ℚ) - (spec.basis + layout.remaining specs * spec.grow.toNat / Flow.weights specs)| < 1
  whole : 0 < Flow.weights specs → Flow.bases specs + gapSum layout.gap specs.length ≤ layout.mainSize →
    (items.map fun c => c.frame.len layout.axis).sum + gapSum layout.gap specs.length = layout.mainSize

section

variable {layout : Flow} {specs : List ControlSpec} {items : List Control}

theorem mainSize_eq (layout : Flow) : layout.mainSize = layout.frame.len layout.axis := by
  unfold Flow.mainSize
  cases layout.axis <;> rfl

theorem bases_eq (specs : List ControlSpec) :
    ((specs.map leaf).map fun c => c.layout.basis).sum = Flow.bases specs := by
  unfold Flow.bases
  rw [List.map_map]
  rfl

theorem weights_eq (specs : List ControlSpec) :
    ((specs.map leaf).map fun c => c.layout.grow.toNat).sum = Flow.weights specs := by
  unfold Flow.weights
  rw [List.map_map]
  rfl

theorem spare_leaves (layout : Flow) (specs : List ControlSpec) :
    spare layout.axis layout.gap layout.frame (specs.map leaf) = layout.remaining specs := by
  unfold spare Flow.remaining nonNegative
  rw [basisSum_length, bases_eq, List.length_map, mainSize_eq]
  split <;> omega

theorem remaining_word (hflow : flow layout specs = .ok items) : layout.remaining specs < 2 ^ 31 := by
  unfold flow at hflow
  obtain ⟨totals, htotals, hflow⟩ := bind_eq_ok hflow
  obtain ⟨gaps, hgaps, hflow⟩ := bind_eq_ok hflow
  obtain ⟨room, hroom, hflow⟩ := bind_eq_ok hflow
  obtain ⟨rest, hrest, -⟩ := bind_eq_ok hflow
  have hbases : totals.1 = Flow.bases specs := by
    rw [← specTotals_eq] at htotals
    rw [(nodeTotals_eq _ 0 0 _ htotals).1, Int.zero_add, bases_eq]
  have hgaps : gaps = gapSum layout.gap specs.length := by
    unfold gapSum
    split at hgaps
    · rename_i hmany
      rw [if_pos hmany]
      exact (i32_of_ok hgaps).1
    · rename_i hfew
      rw [if_neg hfew]
      cases hgaps
      rfl
  obtain ⟨rfl, -⟩ := i32_of_ok hroom
  obtain ⟨rfl, -, hbound⟩ := i32_of_ok hrest
  unfold Flow.remaining
  rw [← hbases, ← hgaps]
  omega

theorem flow_leaves (hflow : flow layout specs = .ok items) :
    items = leavesFrom layout.axis layout.gap layout.frame (specs.map leaf) 0 (specs.map leaf) := by
  cases specs with
  | nil =>
    unfold flow at hflow
    obtain ⟨totals, -, hflow⟩ := bind_eq_ok hflow
    obtain ⟨gaps, -, hflow⟩ := bind_eq_ok hflow
    obtain ⟨room, -, hflow⟩ := bind_eq_ok hflow
    obtain ⟨rest, -, hflow⟩ := bind_eq_ok hflow
    unfold flowItems at hflow
    cases hflow
    rfl
  | cons spec specs =>
    have htree := flow_eq_layoutTree layout spec specs _ (Nat.le_refl _)
    rw [hflow] at htree
    have hitems := (layoutTree_eq _ _ _ htree).2 rfl
    unfold group leaves at hitems
    exact hitems

theorem flow_item (hflow : flow layout specs = .ok items) (i : Nat) : items[i]? = specs[i]?.map fun spec =>
    spec.placed (cell layout.axis layout.gap layout.frame (specs.map leaf) (leaf spec) i) := by
  rw [flow_leaves hflow, leavesFrom_map_leaf, Nat.zero_add]

theorem flow_length (hflow : flow layout specs = .ok items) : items.length = specs.length := by
  have hle : ∀ i, items.length ≤ i ↔ specs.length ≤ i := by
    intro i
    rw [← List.getElem?_eq_none_iff, flow_item hflow, Option.map_eq_none_iff, List.getElem?_eq_none_iff]
  exact Nat.le_antisymm ((hle _).mpr (Nat.le_refl _)) ((hle _).mp (Nat.le_refl _))

theorem grown_leaves (hword : layout.remaining specs < 2 ^ 31) (hweights : Flow.weights specs < 2 ^ 32) (i : Nat) :
    grown layout.axis layout.gap layout.frame (specs.map leaf) i =
      (layout.remaining specs * (weightSum (specs.map leaf) i : Nat)).tdiv (Flow.weights specs) := by
  have hall : weightSum (specs.map leaf) (specs.map leaf).length = Flow.weights specs := by
    rw [weightSum_length, weights_eq, Nat.mod_eq_of_lt hweights]
  have hsum : ((specs.map leaf).map fun c => c.layout.grow.toNat).sum < 2 ^ 32 := by rwa [weights_eq]
  have hnonneg : 0 ≤ layout.remaining specs := Int.le_max_left _ _
  have hle : weightSum (specs.map leaf) i ≤ Flow.weights specs := by
    rw [weightSum_eq hsum, ← weights_eq]
    exact List.Sublist.sum_le_sum (List.take_sublist _ _) fun v _ => Nat.zero_le v
  obtain ⟨hlo, -, hhi⟩ := share_mono hnonneg (Nat.le_refl (weightSum (specs.map leaf) i)) hle
  unfold grown
  rw [spare_leaves, hall]
  exact toI32_eq hlo (by omega)

theorem leaf_at {i : Nat} {spec : ControlSpec} (h : specs[i]? = some spec) :
    (specs.map leaf)[i]? = some (leaf spec) := by
  rw [List.getElem?_map, h]
  rfl

theorem item_frame {i : Nat} {spec : ControlSpec} {c : Control} (hflow : flow layout specs = .ok items)
    (hspec : specs[i]? = some spec) (hc : items[i]? = some c) :
    c.frame.lo layout.axis = mainStart layout.axis layout.gap layout.frame (specs.map leaf) i ∧
    c.frame.len layout.axis = mainLength layout.axis layout.gap layout.frame (specs.map leaf) (leaf spec) i := by
  rw [flow_item hflow, hspec] at hc
  cases hc
  exact ⟨lo_ofSpans _ _ _, len_ofSpans _ _ _⟩

theorem item_spec {i : Nat} {c : Control} (hflow : flow layout specs = .ok items) (hc : items[i]? = some c) :
    ∃ spec, specs[i]? = some spec := by
  rw [flow_item hflow] at hc
  obtain ⟨spec, hspec, -⟩ := Option.map_eq_some_iff.mp hc
  exact ⟨spec, hspec⟩

theorem lengths_take (hflow : flow layout specs = .ok items) (k : Nat) (hk : k ≤ items.length) :
    ((items.take k).map fun c => c.frame.len layout.axis).sum =
      basisSum (specs.map leaf) k + grown layout.axis layout.gap layout.frame (specs.map leaf) k := by
  induction k with
  | zero =>
    rw [grown_zero]
    rfl
  | succ k ih =>
    have hc : items[k]? = some items[k] := List.getElem?_eq_getElem hk
    obtain ⟨spec, hspec⟩ := item_spec hflow hc
    rw [List.take_add_one, hc, Option.toList_some, List.map_append, List.sum_append, ih (Nat.le_of_succ_le hk),
      basisSum_succ (leaf_at hspec), List.map_singleton, List.sum_singleton, (item_frame hflow hspec hc).2]
    unfold mainLength
    omega

theorem flow_next (hflow : flow layout specs = .ok items) (i : Nat) (c d : Control) (hc : items[i]? = some c)
    (hd : items[i + 1]? = some d) :
    d.frame.lo layout.axis = c.frame.lo layout.axis + c.frame.len layout.axis + layout.gap := by
  obtain ⟨spec, hspec⟩ := item_spec hflow hc
  obtain ⟨next, hnext⟩ := item_spec hflow hd
  obtain ⟨hlo, hlen⟩ := item_frame hflow hspec hc
  rw [(item_frame hflow hnext hd).1, hlo, hlen, mainEnd_eq (leaf_at hspec)]
  unfold mainStart
  rw [Int.natCast_succ, Int.mul_add, Int.mul_one]
  omega

theorem flow_grown (hweights : Flow.weights specs < 2 ^ 32) (hflow : flow layout specs = .ok items) (i : Nat)
    (spec : ControlSpec) (c : Control) (hspec : specs[i]? = some spec) (hc : items[i]? = some c)
    (hgrow : spec.grow ≠ 0) :
    |(c.frame.len layout.axis : ℚ) -
      (spec.basis + layout.remaining specs * spec.grow.toNat / Flow.weights specs)| < 1 := by
  have hword := remaining_word hflow
  have hsum : ((specs.map leaf).map fun c => c.layout.grow.toNat).sum < 2 ^ 32 := by rwa [weights_eq]
  have hpos : 0 < Flow.weights specs := by
    have hmem : spec.grow.toNat ∈ specs.map fun spec => spec.grow.toNat :=
      List.mem_map_of_mem (List.mem_of_getElem? hspec)
    have hne : spec.grow.toNat ≠ 0 := fun h => hgrow (UInt8.toNat_inj.mp h)
    exact Nat.lt_of_lt_of_le (Nat.pos_of_ne_zero hne) (List.single_le_sum (fun v _ => Nat.zero_le v) _ hmem)
  have hnext : weightSum (specs.map leaf) (i + 1) = weightSum (specs.map leaf) i + spec.grow.toNat := by
    rw [weightSum_eq hsum, weightSum_eq hsum, List.take_add_one, List.getElem?_map, leaf_at hspec]
    simp [leaf, Node.layout, nodeLayout]
  have hnonneg : 0 ≤ layout.remaining specs := Int.le_max_left 0 _
  have hstep := share_step (u := weightSum (specs.map leaf) i) (w := spec.grow.toNat) hnonneg hpos
  rw [(item_frame hflow hspec hc).2]
  unfold mainLength
  rw [grown_leaves hword hweights, grown_leaves hword hweights, hnext]
  have hbasis : (leaf spec).layout.basis = spec.basis := rfl
  rw [hbasis]
  push_cast at hstep ⊢
  rwa [add_sub_add_left_eq_sub]

theorem flow_whole (hweights : Flow.weights specs < 2 ^ 32) (hflow : flow layout specs = .ok items)
    (hgrow : 0 < Flow.weights specs) (hfit : Flow.bases specs + gapSum layout.gap specs.length ≤ layout.mainSize) :
    (items.map fun c => c.frame.len layout.axis).sum + gapSum layout.gap specs.length = layout.mainSize := by
  have hall := lengths_take hflow items.length (Nat.le_refl _)
  have hlength : items.length = (specs.map leaf).length := by rw [flow_length hflow, List.length_map]
  have hcount : weightSum (specs.map leaf) (specs.map leaf).length = Flow.weights specs := by
    rw [weightSum_length, weights_eq, Nat.mod_eq_of_lt hweights]
  rw [List.take_length, hlength, basisSum_length, bases_eq, grown_leaves (remaining_word hflow) hweights, hcount,
    share_all hgrow] at hall
  rw [hall]
  unfold Flow.remaining
  omega

/-- A flow shares out the main axis exactly. -/
theorem flow_distributes (hweights : Flow.weights specs < 2 ^ 32) (hflow : flow layout specs = .ok items) :
    layout.Distributes specs items where
  length := flow_length hflow
  first := by
    intro c hc
    obtain ⟨spec, hspec⟩ := item_spec hflow hc
    rw [(item_frame hflow hspec hc).1]
    unfold mainStart
    rw [grown_zero, basisSum_zero]
    simp
  next := flow_next hflow
  fixed := by
    intro i spec c hspec hc hzero
    rw [(item_frame hflow hspec hc).2]
    unfold mainLength grown
    rw [weightSum_same (leaf_at hspec) hzero]
    simp [leaf, Node.layout, nodeLayout]
  grown := flow_grown hweights hflow
  whole := flow_whole hweights hflow

theorem not_distributes_of_lt {i : Nat} {spec : ControlSpec} {c : Control} (hspec : specs[i]? = some spec)
    (hc : items[i]? = some c) (hgrow : spec.grow ≠ 0) (hlt : c.frame.len layout.axis < spec.basis) :
    ¬layout.Distributes specs items := by
  intro hdist
  have hshare := (abs_lt.mp (hdist.grown i spec c hspec hc hgrow)).1
  have hnonneg : (0 : ℚ) ≤ layout.remaining specs := Int.cast_nonneg (Int.le_max_left 0 _)
  have hgrows : (0 : ℚ) ≤ (spec.grow.toNat : ℚ) := Nat.cast_nonneg _
  have hexact := div_nonneg (mul_nonneg hnonneg hgrows) (Nat.cast_nonneg (Flow.weights specs))
  have hlen : (c.frame.len layout.axis : ℚ) ≤ spec.basis - 1 := by
    have hle : c.frame.len layout.axis ≤ spec.basis - 1 := by omega
    exact_mod_cast hle
  linarith

end

def launcherRow : Flow := ⟨⟨24, 156, 452, 90⟩, .HORIZONTAL, 12⟩

def launcherButton (text action : String) : ControlSpec :=
  { item text.toList action.toList 98 .PLAIN 0 1 with crossBasis := 64, crossAlign := .CENTER }

def launcherButtons : List ControlSpec :=
  [launcherButton "Files" "files.open", launcherButton "Settings" "settings.open",
    launcherButton "Terminal" "terminal.open"]

theorem flow_distributes_launcher : ∃ items, items.map Control.frame = [⟨24, 169, 142, 64⟩, ⟨178, 169, 143, 64⟩,
    ⟨333, 169, 143, 64⟩] ∧ launcherRow.Distributes launcherButtons items := by
  have hflow : flow launcherRow launcherButtons = .ok [(launcherButton "Files" "files.open").placed ⟨24, 169, 142, 64⟩,
      (launcherButton "Settings" "settings.open").placed ⟨178, 169, 143, 64⟩,
      (launcherButton "Terminal" "terminal.open").placed ⟨333, 169, 143, 64⟩] := by decide +kernel
  exact ⟨_, rfl, flow_distributes (by decide) hflow⟩

theorem crowd_flow {n : Nat} (h : 2 ^ 31 ≤ 255 * (n + 1) % 2 ^ 32) :
    ∃ items, flow ⟨pixel, .HORIZONTAL, 0⟩ (List.replicate (n + 1) filler) = .ok items := by
  obtain ⟨out, hout⟩ := crowd_layout (n + 1) h
  have hleaves : (List.replicate (n + 1) filler).map leaf = crowd (n + 1) := List.map_replicate
  have htree := flow_eq_layoutTree ⟨pixel, .HORIZONTAL, 0⟩ filler (List.replicate n filler) (n + 1) (by simp)
  rw [← List.replicate_succ, hleaves, hout] at htree
  cases hflow : flow ⟨pixel, .HORIZONTAL, 0⟩ (List.replicate (n + 1) filler) with
  | error e =>
    rw [hflow] at htree
    cases htree
  | ok items => exact ⟨items, rfl⟩

/-- Where the counter wraps, a control that grows is narrower than its basis. -/
theorem crowd_shrinks : ∃ items c, flow ⟨pixel, .HORIZONTAL, 0⟩ (List.replicate 25264514 filler) = .ok items ∧
    items[16843009]? = some c ∧ filler.grow = 255 ∧ c.frame.width = filler.basis - 1 ∧
    ¬(⟨pixel, .HORIZONTAL, 0⟩ : Flow).Distributes (List.replicate 25264514 filler) items := by
  obtain ⟨items, hflow⟩ := crowd_flow (n := 25264513) (by decide)
  have hspec : (List.replicate 25264514 filler)[16843009]? = some filler := List.getElem?_replicate_of_lt (by decide)
  have hlength := flow_length hflow
  rw [List.length_replicate] at hlength
  obtain ⟨c, hc⟩ : ∃ c, items[16843009]? = some c := ⟨_, List.getElem?_eq_getElem (by omega)⟩
  have hleaves : (List.replicate 25264514 filler).map leaf = crowd 25264514 := List.map_replicate
  have hwidth : c.frame.width = filler.basis - 1 := by
    have hlen : c.frame.len .HORIZONTAL = _ := (item_frame hflow hspec hc).2
    rw [hleaves] at hlen
    unfold mainLength at hlen
    rw [crowd_grown (by decide), crowd_grown (by decide)] at hlen
    exact hlen.trans (by decide)
  refine ⟨items, c, hflow, hc, rfl, hwidth, not_distributes_of_lt hspec hc (by decide) ?_⟩
  show c.frame.width < filler.basis
  omega

end Pippin.Ui
