import Pippin.Ui.Geometry
import Mathlib.Algebra.Order.BigOperators.Group.List
import Mathlib.Algebra.Order.Ring.Int
import Mathlib.Algebra.Order.Ring.Nat

/-! Nothing is laid out outside its parent, and no two controls share a pixel. One axis at a
time: a frame is inside another along an axis when the groups and insets along that axis have
room. -/

namespace Pippin.Ui
open Checked

variable {a axis : Axis} {gap : Int} {frame f g : Rect} {children : List Node} {node child : Node} {i j : Nat}

def Rect.Inside (a : Axis) (f g : Rect) : Prop := g.lo a ≤ f.lo a ∧ f.lo a + f.len a ≤ g.lo a + g.len a

def Rect.Has (r : Rect) (px py : Int) : Prop := r.x ≤ px ∧ r.y ≤ py ∧ px < r.x + r.width ∧ py < r.y + r.height

def Rect.Apart (f g : Rect) : Prop := ∀ px py, ¬(f.Has px py ∧ g.Has px py)

def Rect.Word (r : Rect) : Prop := ∀ a, r.len a < 2 ^ 31

theorem Rect.Inside.trans {h : Rect} (hf : f.Inside a g) (hg : g.Inside a h) : f.Inside a h :=
  ⟨Int.le_trans hg.1 hf.1, Int.le_trans hf.2 hg.2⟩

theorem Rect.Inside.refl (f : Rect) : f.Inside a f := ⟨Int.le_refl _, Int.le_refl _⟩

def Insets.before : Axis → Insets → Int
  | .HORIZONTAL, insets => insets.left
  | .VERTICAL, insets => insets.top

def Insets.after : Axis → Insets → Int
  | .HORIZONTAL, insets => insets.right
  | .VERTICAL, insets => insets.bottom

/-- A group has room: no negative sizes, and the fixed sizes and the gaps are not more than the frame. -/
structure Sized (axis : Axis) (gap : Int) (frame : Rect) (children : List Node) : Prop where
  gap_nonneg : 0 ≤ gap
  bases : ∀ c ∈ children, 0 ≤ c.layout.basis
  sizes : (children.map fun c => c.layout.basis).sum + gap * (children.length - 1 : Nat) ≤ frame.len axis

def Node.Room (a : Axis) : Node → Rect → Prop
  | .leaf _ _, _ => True
  | .proxy _ insets _, f => 0 ≤ insets.before a ∧ 0 ≤ insets.after a ∧ insets.before a + insets.after a ≤ f.len a
  | .group _ axis gap children, f => axis = a → Sized axis gap f children

def Node.Counts : Node → Prop
  | .leaf _ _ | .proxy _ _ _ => True
  | .group _ _ _ children => (children.map fun c => c.layout.grow.toNat).sum < 2 ^ 32

structure Fits (axis : Axis) (gap : Int) (frame : Rect) (children : List Node) : Prop
    extends Sized axis gap frame children where
  weights : (children.map fun c => c.layout.grow.toNat).sum < 2 ^ 32

inductive Child : Node → Rect → Node → Rect → Prop where
  | proxy {layout : NodeLayout} {insets : Insets} {child : Node} {f : Rect} :
      Child (.proxy layout insets (some child)) f child (f.inset insets)
  | group {layout : NodeLayout} {axis : Axis} {gap : Int} {children : List Node} {child : Node} {f : Rect} {i : Nat}
      (h : children[i]? = some child) :
      Child (.group layout axis gap children) f child (cell axis gap f children child i)

inductive Reaches : Node → Rect → Node → Rect → Prop where
  | refl (node : Node) (f : Rect) : Reaches node f node f
  | step {node child sub : Node} {f g h : Rect} (hc : Child node f child g) (hr : Reaches child g sub h) :
      Reaches node f sub h

/-! ## Sharing the space -/

theorem sum_take_le {M : Type} [AddCommMonoid M] [PartialOrder M] [IsOrderedAddMonoid M] {l : List M}
    (h : ∀ v ∈ l, 0 ≤ v) (hij : i ≤ j) : (l.take i).sum ≤ (l.take j).sum := by
  have hsplit : l.take i ++ (l.take j).drop i = l.take j := by
    have hparts := List.take_append_drop i (l.take j)
    rwa [List.take_take, Nat.min_eq_left hij] at hparts
  rw [← hsplit, List.sum_append]
  refine le_add_of_nonneg_right (List.sum_nonneg fun v hv => ?_)
  exact h v (List.mem_of_mem_take (List.mem_of_mem_drop hv))

theorem basisSum_mono (h : ∀ c ∈ children, 0 ≤ c.layout.basis) (hij : i ≤ j) :
    basisSum children i ≤ basisSum children j := by
  unfold basisSum
  rw [List.map_take, List.map_take]
  refine sum_take_le (fun v hv => ?_) hij
  obtain ⟨c, hc, rfl⟩ := List.mem_map.mp hv
  exact h c hc

theorem weightSum_eq (h : (children.map fun c => c.layout.grow.toNat).sum < 2 ^ 32) (i : Nat) :
    weightSum children i = ((children.map fun c => c.layout.grow.toNat).take i).sum := by
  unfold weightSum
  rw [List.map_take]
  refine Nat.mod_eq_of_lt (Nat.lt_of_le_of_lt ?_ h)
  exact List.Sublist.sum_le_sum (List.take_sublist _ _) fun v _ => Nat.zero_le v

theorem weightSum_mono (h : (children.map fun c => c.layout.grow.toNat).sum < 2 ^ 32) (hij : i ≤ j) :
    weightSum children i ≤ weightSum children j := by
  rw [weightSum_eq h, weightSum_eq h]
  exact sum_take_le (fun v _ => Nat.zero_le v) hij

theorem toI32_eq {v : Int} (hlo : 0 ≤ v) (hhi : v < 2 ^ 31) : toI32 v = v := by
  unfold toI32
  omega

theorem share_mono {s : Int} {u v total : Nat} (hs : 0 ≤ s) (huv : u ≤ v) (hv : v ≤ total) :
    0 ≤ (s * u).tdiv total ∧ (s * u).tdiv total ≤ (s * v).tdiv total ∧ (s * v).tdiv total ≤ s := by
  have hu : 0 ≤ s * u := Int.mul_nonneg hs (Int.natCast_nonneg u)
  have huv : s * u ≤ s * v := Int.mul_le_mul_of_nonneg_left (Int.ofNat_le.mpr huv) hs
  rw [Int.tdiv_eq_ediv_of_nonneg hu, Int.tdiv_eq_ediv_of_nonneg (Int.le_trans hu huv)]
  rcases Nat.eq_zero_or_pos total with rfl | hpos
  · simp [hs]
  · have hpos : (0 : Int) < total := Int.natCast_pos.mpr hpos
    refine ⟨Int.ediv_nonneg hu (Int.le_of_lt hpos), Int.ediv_le_ediv hpos huv, ?_⟩
    refine Int.ediv_le_of_le_mul hpos ?_
    exact Int.mul_le_mul_of_nonneg_left (Int.ofNat_le.mpr hv) hs

/-! ## The children of a group -/

section

variable (h : Fits axis gap frame children) (hword : frame.len axis < 2 ^ 31)
include h

theorem Fits.gaps_nonneg (n : Nat) : 0 ≤ gap * n := Int.mul_nonneg h.gap_nonneg (Int.natCast_nonneg n)

theorem Fits.gaps_mono (hij : i ≤ j) : gap * i ≤ gap * j :=
  Int.mul_le_mul_of_nonneg_left (Int.ofNat_le.mpr hij) h.gap_nonneg

theorem Fits.basis_nonneg (i : Nat) : 0 ≤ basisSum children i := basisSum_mono h.bases (Nat.zero_le i)

include hword

theorem Fits.gapSum_eq : gapSum gap children.length = gap * (children.length - 1 : Nat) := by
  unfold gapSum
  split
  · -- a gap that is not zero is counted at most as often as the frame has pixels
    have hsizes := h.sizes
    have hbasis := h.basis_nonneg children.length
    rw [basisSum_length] at hbasis
    rcases Int.lt_or_eq_of_le h.gap_nonneg with hpos | rfl
    · have hcount : 1 * ((children.length - 1 : Nat) : Int) ≤ gap * (children.length - 1 : Nat) :=
        Int.mul_le_mul_of_nonneg_right hpos (Int.natCast_nonneg _)
      rw [toI32_eq (Int.natCast_nonneg _) (by omega)]
    · simp
  · have hzero : children.length - 1 = 0 := by omega
    rw [hzero]
    simp

theorem Fits.spare_eq : spare axis gap frame children =
    frame.len axis - basisSum children children.length - gap * (children.length - 1 : Nat) := by
  unfold spare nonNegative
  have hsizes := h.sizes
  rw [h.gapSum_eq hword, basisSum_length]
  split <;> omega

theorem Fits.spare_bounds : 0 ≤ spare axis gap frame children ∧ spare axis gap frame children < 2 ^ 31 := by
  have hsizes := h.sizes
  have hbasis := h.basis_nonneg children.length
  have hgaps := h.gaps_nonneg (children.length - 1)
  rw [h.spare_eq hword]
  rw [basisSum_length] at hbasis ⊢
  omega

theorem Fits.grown_mono (hij : i ≤ j) (hj : j ≤ children.length) :
    0 ≤ grown axis gap frame children i ∧ grown axis gap frame children i ≤ grown axis gap frame children j ∧
    grown axis gap frame children j ≤ spare axis gap frame children := by
  obtain ⟨hspare, hbound⟩ := h.spare_bounds hword
  obtain ⟨hlo, hle, hhi⟩ := share_mono hspare (weightSum_mono h.weights hij) (weightSum_mono h.weights hj)
  unfold grown
  rw [toI32_eq hlo (by omega), toI32_eq (Int.le_trans hlo hle) (by omega)]
  exact ⟨hlo, hle, hhi⟩

end

theorem mainEnd_eq (hchild : children[i]? = some child) :
    mainStart axis gap frame children i + mainLength axis gap frame children child i =
      frame.lo axis + basisSum children (i + 1) + gap * i + grown axis gap frame children (i + 1) := by
  unfold mainStart mainLength
  rw [basisSum_succ hchild]
  omega

theorem Fits.main_inside (h : Fits axis gap frame children) (hword : frame.len axis < 2 ^ 31)
    (hchild : children[i]? = some child) :
    frame.lo axis ≤ mainStart axis gap frame children i ∧ 0 ≤ mainLength axis gap frame children child i ∧
    mainStart axis gap frame children i + mainLength axis gap frame children child i ≤
      frame.lo axis + frame.len axis := by
  have hi : i < children.length := (List.getElem?_eq_some_iff.mp hchild).1
  obtain ⟨hfrom, hstep, hto⟩ := h.grown_mono hword (j := i + 1) (Nat.le_succ i) hi
  have hbase := h.bases child (List.mem_of_getElem? hchild)
  have hbases := basisSum_mono h.bases (i := i + 1) hi
  have hstart := h.basis_nonneg i
  have hgap := h.gaps_nonneg i
  have hgaps := h.gaps_mono (Nat.le_sub_one_of_lt hi)
  have hspare := h.spare_eq hword
  rw [mainEnd_eq hchild]
  unfold mainStart mainLength
  omega

theorem Fits.main_apart (h : Fits axis gap frame children) (hword : frame.len axis < 2 ^ 31)
    (hchild : children[i]? = some child) (hij : i < j) (hj : j ≤ children.length) :
    mainStart axis gap frame children i + mainLength axis gap frame children child i ≤
      mainStart axis gap frame children j := by
  obtain ⟨-, hgrown, -⟩ := h.grown_mono hword (i := i + 1) hij hj
  have hbases := basisSum_mono h.bases (i := i + 1) hij
  have hgaps := h.gaps_mono (Nat.le_of_lt hij)
  rw [mainEnd_eq hchild]
  unfold mainStart
  omega

theorem crossSpan_inside (layout : NodeLayout) (lo len : Int) : lo ≤ (crossSpan layout lo len).1 ∧
    (crossSpan layout lo len).1 + (crossSpan layout lo len).2 ≤ lo + len ∧
    (0 ≤ len → 0 ≤ (crossSpan layout lo len).2) := by
  unfold crossSpan
  split
  · exact ⟨Int.le_refl _, Int.le_refl _, id⟩
  · cases layout.crossAlign <;> dsimp only
    · omega
    · rw [Int.tdiv_eq_ediv_of_nonneg (by omega)]
      omega
    · omega
    · omega

/-! ## Frames inside frames -/

theorem lo_ofSpans (axis : Axis) (main cross : Int × Int) : (Rect.ofSpans axis main cross).lo axis = main.1 := by
  cases axis <;> rfl

theorem len_ofSpans (axis : Axis) (main cross : Int × Int) : (Rect.ofSpans axis main cross).len axis = main.2 := by
  cases axis <;> rfl

theorem lo_other (axis : Axis) (main cross : Int × Int) :
    (Rect.ofSpans axis main cross).lo axis.other = cross.1 := by
  cases axis <;> rfl

theorem len_other (axis : Axis) (main cross : Int × Int) :
    (Rect.ofSpans axis main cross).len axis.other = cross.2 := by
  cases axis <;> rfl

theorem Axis.eq_other (h : axis ≠ a) : a = axis.other := by
  cases a <;> cases axis <;> first | rfl | exact absurd rfl h

theorem Child.inside (hc : Child node f child g) (hroom : node.Room a f ∧ node.Counts) (hword : f.len a < 2 ^ 31) :
    g.Inside a f ∧ (0 ≤ f.len a → 0 ≤ g.len a) := by
  unfold Rect.Inside
  cases hc with
  | @proxy layout insets child f =>
    obtain ⟨⟨hbefore, hafter, hfits⟩, -⟩ := hroom
    cases a
    all_goals
      simp only [Insets.before, Insets.after, Rect.inset, Rect.lo, Rect.len, nonNegative] at *
      split <;> omega
  | @group layout axis gap children child f i hchild =>
    unfold cell
    by_cases haxis : axis = a
    · subst haxis
      have hfits : Fits axis gap f children := ⟨hroom.1 rfl, hroom.2⟩
      obtain ⟨hlo, hlen, hhi⟩ := hfits.main_inside hword hchild
      rw [lo_ofSpans, len_ofSpans]
      exact ⟨⟨hlo, hhi⟩, fun _ => hlen⟩
    · rw [Axis.eq_other haxis, lo_other, len_other]
      obtain ⟨hlo, hhi, hlen⟩ := crossSpan_inside child.layout (f.lo axis.other) (f.len axis.other)
      exact ⟨⟨hlo, hhi⟩, hlen⟩

theorem Child.len_lt (hc : Child node f child g) (hroom : node.Room a f ∧ node.Counts) (hword : f.len a < 2 ^ 31) :
    g.len a < 2 ^ 31 := by
  obtain ⟨⟨hlo, hhi⟩, -⟩ := hc.inside hroom hword
  omega

theorem Reaches.inside {sub : Node} (hr : Reaches node f sub g)
    (hroom : ∀ sub g, Reaches node f sub g → sub.Room a g ∧ sub.Counts) (hword : f.len a < 2 ^ 31) :
    g.Inside a f ∧ (0 ≤ f.len a → 0 ≤ g.len a) := by
  induction hr with
  | refl node f => exact ⟨.refl f, id⟩
  | step hc _ ih =>
    obtain ⟨hin, hlen⟩ := hc.inside (hroom _ _ (.refl _ _)) hword
    obtain ⟨hin', hlen'⟩ := ih (fun sub g hr => hroom sub g (.step hc hr))
      (hc.len_lt (hroom _ _ (.refl _ _)) hword)
    exact ⟨hin'.trans hin, fun h => hlen' (hlen h)⟩

theorem Reaches.trans {mid sub : Node} {h : Rect} (hr : Reaches node f mid g) (hs : Reaches mid g sub h) :
    Reaches node f sub h := by
  induction hr with
  | refl => exact hs
  | step hc _ ih => exact .step hc (ih hs)

/-! ## The controls -/

theorem mem_leavesFrom {all rest : List Node} {c : Control} (hrest : all.drop i = rest)
    (hc : c ∈ leavesFrom axis gap frame all i rest) :
    ∃ j child, i ≤ j ∧ all[j]? = some child ∧ c ∈ leaves child (cell axis gap frame all child j) := by
  induction rest generalizing i with
  | nil =>
    unfold leavesFrom at hc
    cases hc
  | cons child rest ih =>
    unfold leavesFrom at hc
    rcases List.mem_append.mp hc with hc | hc
    · exact ⟨i, child, Nat.le_refl i, (drop_cons hrest).1, hc⟩
    · obtain ⟨j, child, hij, hchild, hc⟩ := ih (drop_cons hrest).2 hc
      exact ⟨j, child, Nat.le_of_succ_le hij, hchild, hc⟩

theorem mem_leaves (node : Node) : ∀ f, ∀ c ∈ leaves node f,
    ∃ layout spec g, Reaches node f (.leaf layout spec) g ∧ c = spec.placed g := by
  induction node using Node.induct with
  | leaf layout spec =>
    intro f c hc
    unfold leaves at hc
    exact ⟨layout, spec, f, .refl _ _, List.mem_singleton.mp hc⟩
  | empty layout insets =>
    intro f c hc
    unfold leaves at hc
    cases hc
  | proxy layout insets child ih =>
    intro f c hc
    unfold leaves at hc
    obtain ⟨layout, spec, g, hr, rfl⟩ := ih _ c hc
    exact ⟨layout, spec, g, .step .proxy hr, rfl⟩
  | group layout axis gap children ih =>
    intro f c hc
    unfold leaves at hc
    obtain ⟨j, child, -, hchild, hc⟩ := mem_leavesFrom rfl hc
    obtain ⟨layout, spec, g, hr, rfl⟩ := ih child (List.mem_of_getElem? hchild) _ c hc
    exact ⟨layout, spec, g, .step (.group hchild) hr, rfl⟩

theorem apart_of_le (h : f.lo a + f.len a ≤ g.lo a) : f.Apart g := by
  unfold Rect.Apart Rect.Has
  intro px py
  cases a <;> simp only [Rect.lo, Rect.len] at h <;> omega

theorem leaves_inside {c : Control} (hroom : ∀ sub g, Reaches node f sub g → sub.Room a g ∧ sub.Counts)
    (hword : f.len a < 2 ^ 31) (hc : c ∈ leaves node f) : c.frame.Inside a f := by
  obtain ⟨layout, spec, g, hr, rfl⟩ := mem_leaves node f c hc
  exact (hr.inside hroom hword).1

theorem leavesFrom_apart {all rest : List Node} {layout : NodeLayout} (hrest : all.drop i = rest)
    (hroom : ∀ sub g, Reaches (.group layout axis gap all) frame sub g → ∀ a, sub.Room a g ∧ sub.Counts)
    (hword : frame.Word) (hchild : ∀ j c, all[j]? = some c →
      (leaves c (cell axis gap frame all c j)).Pairwise fun c d => c.frame.Apart d.frame) :
    (leavesFrom axis gap frame all i rest).Pairwise fun c d => c.frame.Apart d.frame := by
  obtain ⟨hsized, hcounts⟩ := hroom _ _ (.refl _ _) axis
  have hfits : Fits axis gap frame all := ⟨hsized rfl, hcounts⟩
  have hcell : ∀ j child c, all[j]? = some child → c ∈ leaves child (cell axis gap frame all child j) →
      mainStart axis gap frame all j ≤ c.frame.lo axis ∧
      c.frame.lo axis + c.frame.len axis ≤
        mainStart axis gap frame all j + mainLength axis gap frame all child j := by
    intro j child c hj hc
    have hstep : Child (.group layout axis gap all) frame child (cell axis gap frame all child j) := .group hj
    have hlen := hstep.len_lt (hroom _ _ (.refl _ _) axis) (hword axis)
    have hin := leaves_inside (fun sub g hr => hroom sub g (.step hstep hr) axis) hlen hc
    unfold Rect.Inside cell at hin
    rwa [lo_ofSpans, len_ofSpans] at hin
  induction rest generalizing i with
  | nil =>
    unfold leavesFrom
    exact .nil
  | cons child rest ih =>
    obtain ⟨hi, hnext⟩ := drop_cons hrest
    unfold leavesFrom
    refine List.pairwise_append.mpr ⟨hchild i child hi, ih hnext, ?_⟩
    intro c hc d hd
    obtain ⟨j, child', hij, hj, hd⟩ := mem_leavesFrom hnext hd
    have hlt : j < all.length := (List.getElem?_eq_some_iff.mp hj).1
    have hapart := hfits.main_apart (hword axis) hi hij (Nat.le_of_lt hlt)
    have hc := (hcell i child c hi hc).2
    have hd := (hcell j child' d hj hd).1
    refine apart_of_le (a := axis) ?_
    omega

theorem leaves_apart (node : Node) : ∀ f, f.Word → (∀ sub g, Reaches node f sub g → ∀ a, sub.Room a g ∧ sub.Counts) →
    (leaves node f).Pairwise fun c d => c.frame.Apart d.frame := by
  induction node using Node.induct with
  | leaf layout spec =>
    intro f hword hroom
    unfold leaves
    exact List.pairwise_singleton _ _
  | empty layout insets =>
    intro f hword hroom
    unfold leaves
    exact .nil
  | proxy layout insets child ih =>
    intro f hword hroom
    unfold leaves
    refine ih _ (fun a => ?_) fun sub g hr => hroom sub g (.step .proxy hr)
    exact Child.proxy.len_lt (hroom _ _ (.refl _ _) a) (hword a)
  | group layout axis gap children ih =>
    intro f hword hroom
    unfold leaves
    refine leavesFrom_apart rfl hroom hword fun j c hj => ?_
    refine ih c (List.mem_of_getElem? hj) _ (fun a => ?_) fun sub g hr => hroom sub g (.step (.group hj) hr)
    exact (Child.group hj).len_lt (hroom _ _ (.refl _ _) a) (hword a)

/-- Tree layout puts every control inside the frame of the tree and of every node above it, and no two
controls share a pixel. -/
theorem layoutTree_contained {capacity : Nat} {root : Node} {out : TreeLayout} (hword : frame.Word)
    (hroom : ∀ sub g, Reaches root frame sub g → ∀ a, sub.Room a g)
    (hcounts : ∀ sub g, Reaches root frame sub g → sub.Counts) (hout : layoutTree capacity root frame = .ok out) :
    (∀ c ∈ out.items, ∃ layout spec, Reaches root frame (.leaf layout spec) c.frame ∧ c = spec.placed c.frame ∧
      (∀ a, c.frame.Inside a frame) ∧
      ∀ anc g, Reaches root frame anc g → Reaches anc g (.leaf layout spec) c.frame →
        ∀ a, c.frame.Inside a g) ∧
    out.items.Pairwise fun c d => c.frame.Apart d.frame := by
  have hfits : ∀ sub g, Reaches root frame sub g → ∀ a, sub.Room a g ∧ sub.Counts :=
    fun sub g hr a => ⟨hroom sub g hr a, hcounts sub g hr⟩
  obtain ⟨hitems, -⟩ := layoutTree_eq root frame out hout
  rw [hitems]
  constructor
  · intro c hc
    obtain ⟨layout, spec, g, hr, rfl⟩ := mem_leaves root frame c (List.mem_of_mem_take hc)
    refine ⟨layout, spec, hr, rfl, fun a => ?_, fun anc g' hanc hsub a => ?_⟩
    · exact (hr.inside (fun sub g hr => hfits sub g hr a) (hword a)).1
    · have hin := (hanc.inside (fun sub g hr => hfits sub g hr a) (hword a)).1
      have hlen : g'.len a < 2 ^ 31 := by
        have hword := hword a
        obtain ⟨hlo, hhi⟩ := hin
        omega
      exact (hsub.inside (fun sub g hr => hfits sub g (hanc.trans hr) a) hlen).1
  · exact (leaves_apart root frame hword hfits).sublist (List.take_sublist _ _)

theorem reaches_leaf {layout : NodeLayout} {spec : ControlSpec} {sub : Node}
    (hr : Reaches (.leaf layout spec) f sub g) : sub = .leaf layout spec := by
  cases hr with
  | refl => rfl
  | step hc _ => cases hc

def row : List Node :=
  [leaf (item [] [] 108 .PLAIN 20 1), leaf { label [] with basis := 40, crossBasis := 20, crossAlign := .CENTER }]
def bordered : Node := proxy (group .HORIZONTAL row 4) ⟨8, 8, 8, 8⟩

theorem mem_row {c : Node} (hc : c ∈ row) : (∃ layout spec, c = .leaf layout spec) ∧ 0 ≤ c.layout.basis := by
  rcases List.mem_cons.mp hc with rfl | hc
  · exact ⟨⟨_, _, rfl⟩, by decide⟩
  · cases List.mem_singleton.mp hc
    exact ⟨⟨_, _, rfl⟩, by decide⟩

theorem bordered_reaches {sub : Node} (hr : Reaches bordered ⟨0, 44, 200, 60⟩ sub g) :
    (∀ a, sub.Room a g) ∧ sub.Counts := by
  cases hr with
  | refl =>
    refine ⟨fun a => ?_, trivial⟩
    cases a <;> exact ⟨by decide, by decide, by decide⟩
  | step hc hr =>
    cases hc
    cases hr with
    | refl =>
      refine ⟨?_, ?_⟩
      · rintro a rfl
        exact ⟨by decide, fun c hc => (mem_row hc).2, by decide⟩
      · show (row.map fun c => c.layout.grow.toNat).sum < 2 ^ 32
        decide
    | step hc hr =>
      cases hc with
      | group hchild =>
        obtain ⟨⟨layout, spec, rfl⟩, -⟩ := mem_row (List.mem_of_getElem? hchild)
        cases reaches_leaf hr
        exact ⟨fun a => trivial, trivial⟩

theorem layoutTree_contained_bordered : ∃ out, layoutTree 2 bordered ⟨0, 44, 200, 60⟩ = .ok out ∧
    out.items.map (fun c => c.frame) = [⟨8, 52, 140, 44⟩, ⟨152, 64, 40, 20⟩] ∧
    (∀ c ∈ out.items, ∀ a, c.frame.Inside a ⟨0, 44, 200, 60⟩) ∧
    out.items.Pairwise fun c d => c.frame.Apart d.frame := by
  have hword : (⟨0, 44, 200, 60⟩ : Rect).Word := by
    intro a
    cases a <;> decide
  obtain ⟨hin, hapart⟩ := layoutTree_contained hword (fun sub g hr => (bordered_reaches hr).1)
    (fun sub g hr => (bordered_reaches hr).2) (rfl : layoutTree 2 bordered ⟨0, 44, 200, 60⟩ = .ok _)
  refine ⟨_, rfl, by decide, fun c hc => ?_, hapart⟩
  obtain ⟨layout, spec, -, -, hroot, -⟩ := hin c hc
  exact hroot

/-! ## A counter that wraps

The weights of a group are added as unsigned numbers. Where they pass `2 ^ 32`, the shares start again
from the left. -/

/-- One pixel for `n` controls that grow. -/
def pixel : Rect := ⟨0, 0, 1, 1⟩
def filler : ControlSpec := item [] [] 108 .PLAIN 0 255
def crowd (n : Nat) : List Node := List.replicate n (leaf filler)

theorem crowd_sized (n : Nat) : Sized .HORIZONTAL 0 pixel (crowd n) where
  gap_nonneg := Int.le_refl 0
  bases := by
    intro c hc
    rw [List.eq_of_mem_replicate hc]
    exact Int.le_refl 0
  sizes := by
    unfold crowd
    rw [List.map_replicate, List.sum_replicate]
    simp [leaf, Node.layout, nodeLayout, filler, item, Rect.len, pixel]

theorem crowd_room {n : Nat} {sub : Node} (hr : Reaches (group .HORIZONTAL (crowd n) 0) pixel sub g) (a : Axis) :
    sub.Room a g := by
  cases hr with
  | refl =>
    rintro rfl
    exact crowd_sized n
  | step hc hr =>
    cases hc with
    | group hchild =>
      cases List.eq_of_mem_replicate (List.mem_of_getElem? hchild)
      cases reaches_leaf hr
      trivial

theorem crowd_weight {n : Nat} (hi : i ≤ n) : weightSum (crowd n) i = 255 * i % 2 ^ 32 := by
  unfold weightSum crowd
  rw [List.take_replicate, Nat.min_eq_left hi, List.map_replicate, List.sum_replicate_nat, Nat.mul_comm]
  rfl

theorem crowd_grown {n : Nat} (hi : i ≤ n) : grown .HORIZONTAL 0 pixel (crowd n) i =
    toI32 (((1 : Int) * (255 * i % 2 ^ 32 : Nat)).tdiv (255 * n % 2 ^ 32 : Nat)) := by
  have hspare : spare .HORIZONTAL 0 pixel (crowd n) = 1 := by
    unfold spare crowd basisSum gapSum
    rw [List.take_length, List.map_replicate, List.sum_replicate]
    simp [leaf, Node.layout, nodeLayout, filler, item, Rect.len, pixel, nonNegative]
  have hlength : (crowd n).length = n := List.length_replicate
  unfold grown
  rw [hspare, hlength, crowd_weight hi, crowd_weight (Nat.le_refl n)]

theorem crowd_totals (n : Nat) (growTotal : UInt32) : ∃ r, nodeTotals (crowd n) 0 growTotal = .ok (0, r) := by
  induction n generalizing growTotal with
  | zero => exact ⟨growTotal, rfl⟩
  | succ n ih => exact ih _

theorem crowd_target {growTotal : UInt32} (h : 2 ^ 31 ≤ growTotal.toNat) (usedGrow : UInt32) :
    0 ≤ toI32 (((1 : Int) * usedGrow.toNat).tdiv growTotal.toNat) ∧
    toI32 (((1 : Int) * usedGrow.toNat).tdiv growTotal.toNat) ≤ 1 := by
  have hquot : usedGrow.toNat / growTotal.toNat < 2 := by
    have hused := usedGrow.toNat_lt
    refine Nat.div_lt_of_lt_mul ?_
    omega
  rw [Int.one_mul, ← Int.ofNat_tdiv]
  generalize usedGrow.toNat / growTotal.toNat = share at hquot ⊢
  rw [toI32_eq (Int.natCast_nonneg _) (by omega)]
  omega

theorem crowd_children {growTotal : UInt32} {capacity : Nat} (h : 2 ^ 31 ≤ growTotal.toNat) (n : Nat) :
    ∀ (assigned : Int) (usedGrow : UInt32) (out : TreeLayout), 0 ≤ assigned → assigned ≤ 1 →
      ∃ out', layoutChildren capacity .HORIZONTAL 0 pixel 1 growTotal (crowd n) assigned assigned usedGrow out =
        .ok out' := by
  induction n with
  | zero =>
    intro assigned usedGrow out _ _
    exact ⟨out, by unfold crowd layoutChildren; rfl⟩
  | succ n ih =>
    intro assigned usedGrow out hlo hhi
    have hpos : growTotal ≠ 0 := by
      rintro rfl
      simp at h
    obtain ⟨htlo, hthi⟩ := crowd_target h (usedGrow + (255 : UInt8).toUInt32)
    generalize htarget : toI32 _ = target at htlo hthi
    have hcons : crowd (n + 1) = leaf filler :: crowd n := rfl
    have hlayout : (leaf filler).layout = ⟨0, 255, 0, .FILL⟩ := rfl
    have hgrow : (255 : UInt8) ≠ 0 ∧ growTotal ≠ 0 := ⟨by decide, hpos⟩
    have hcross : ∀ c : Rect, alignNodeCross .HORIZONTAL pixel c ⟨0, 255, 0, .FILL⟩ = .ok c := fun c => rfl
    have hnode : ∀ (c : Rect) out,
        layoutNode capacity (leaf filler) c out = .ok (out.put capacity (filler.placed c)) := by
      intro c out
      unfold leaf layoutNode
      rfl
    have hpure : ∀ v : Int × Int × UInt32, (pure v : Checked (Int × Int × UInt32)) = .ok v := fun v => rfl
    have hadvance : assigned + (0 + (target - assigned) + 0) = target := by omega
    rw [hcons]
    unfold layoutChildren
    rw [hlayout, if_pos hgrow]
    dsimp only
    rw [htarget, i32_eq (v := target - assigned) (by omega) (by omega), ok_bind,
      i32_eq (v := 0 + (target - assigned)) (by omega) (by omega)]
    rw [ok_bind, hpure, ok_bind]
    dsimp only
    rw [if_pos rfl, hcross, ok_bind, hnode, ok_bind, i32_eq (v := 0 + (target - assigned) + 0) (by omega) (by omega),
      ok_bind, hadvance, i32_eq (by omega) (by omega), ok_bind]
    exact ih target _ _ htlo hthi

theorem crowd_layout {n : Nat} (capacity : Nat) (h : 2 ^ 31 ≤ 255 * n % 2 ^ 32) :
    ∃ out, layoutTree capacity (group .HORIZONTAL (crowd n) 0) pixel = .ok out := by
  obtain ⟨growTotal, htotals⟩ := crowd_totals n 0
  have hweight : growTotal.toNat = 255 * n % 2 ^ 32 := by
    have hsum := (nodeTotals_eq (crowd n) 0 0 _ htotals).2
    rw [← crowd_weight (Nat.le_refl n)]
    have hlength : (crowd n).length = n := List.length_replicate
    have hall : weightSum (crowd n) (crowd n).length = _ := weightSum_length
    rw [hlength] at hall
    rw [hall, hsum]
    simp
  have hmany : (crowd n).length ≠ 0 := by
    intro hzero
    have hlength : (crowd n).length = n := List.length_replicate
    rw [hlength] at hzero
    rw [hzero] at h
    simp at h
  have hgaps : (if (crowd n).length > 1 then i32 (0 * toI32 ((crowd n).length - 1 : Nat)) else .ok 0) = .ok 0 := by
    rw [Int.zero_mul]
    split <;> rfl
  have hroom : i32 (pixel.width - 0) = .ok 1 := rfl
  have hrest : i32 (1 - 0) = .ok 1 := rfl
  unfold layoutTree group layoutNode
  rw [if_neg hmany, htotals, ok_bind]
  dsimp only
  rw [hgaps, if_pos rfl, ok_bind, hroom, ok_bind, hrest, ok_bind]
  exact crowd_children (hweight ▸ h) n 0 0 ⟨[], false⟩ (Int.le_refl 0) (by decide)

theorem leavesFrom_crowd (n : Nat) {all : List Node} : ∀ (i k : Nat), k < n →
    (leavesFrom .HORIZONTAL 0 pixel all i (crowd n))[k]? =
      some (filler.placed (cell .HORIZONTAL 0 pixel all (leaf filler) (i + k))) := by
  induction n with
  | zero =>
    intro i k hk
    cases hk
  | succ n ih =>
    intro i k hk
    have hcons : crowd (n + 1) = leaf filler :: crowd n := rfl
    rw [hcons]
    unfold leavesFrom leaves leaf
    rw [List.singleton_append]
    cases k with
    | zero => rfl
    | succ k =>
      rw [List.getElem?_cons_succ]
      rw [show i + (k + 1) = i + 1 + k by omega]
      exact ih (i + 1) k (by omega)

theorem crowd_cell {n : Nat} (hfrom : grown .HORIZONTAL 0 pixel (crowd n) i = 0)
    (hto : grown .HORIZONTAL 0 pixel (crowd n) (i + 1) = 1) :
    cell .HORIZONTAL 0 pixel (crowd n) (leaf filler) i = pixel := by
  have hbasis : basisSum (crowd n) i = 0 := by
    unfold basisSum crowd
    rw [List.take_replicate, List.map_replicate, List.sum_replicate]
    simp [leaf, Node.layout, nodeLayout, filler, item]
  unfold cell mainStart mainLength
  rw [hfrom, hto, hbasis, Int.zero_mul]
  rfl

theorem crowd_item {n : Nat} {out : TreeLayout} (hout : layoutTree n (group .HORIZONTAL (crowd n) 0) pixel = .ok out)
    (hi : i < n) (hfrom : grown .HORIZONTAL 0 pixel (crowd n) i = 0)
    (hto : grown .HORIZONTAL 0 pixel (crowd n) (i + 1) = 1) : out.items[i]? = some (filler.placed pixel) := by
  rw [(layoutTree_eq _ _ out hout).1, List.getElem?_take_of_lt hi]
  unfold group leaves
  rw [leavesFrom_crowd n 0 i hi, Nat.zero_add, crowd_cell hfrom hto]

/-- Without a bound on the weights two controls of a group that has room get the same pixel. -/
theorem crowd_overlaps : ∃ out, layoutTree 25264514 (group .HORIZONTAL (crowd 25264514) 0) pixel = .ok out ∧
    pixel.Word ∧ (∀ sub g, Reaches (group .HORIZONTAL (crowd 25264514) 0) pixel sub g → ∀ a, sub.Room a g) ∧
    ¬out.items.Pairwise fun c d => c.frame.Apart d.frame := by
  obtain ⟨out, hout⟩ := crowd_layout (n := 25264514) 25264514 (by decide)
  refine ⟨out, hout, ?_, fun sub g hr a => crowd_room hr a, ?_⟩
  · intro a
    cases a <;> decide
  · intro hapart
    -- the counter reaches the total once before it wraps and once after
    have hfirst : out.items[8421504]? = some (filler.placed pixel) := by
      refine crowd_item hout (by decide) ?_ ?_
      · rw [crowd_grown (by decide)]
        decide
      · rw [crowd_grown (by decide)]
        decide
    have hlast : out.items[25264513]? = some (filler.placed pixel) := by
      refine crowd_item hout (by decide) ?_ ?_
      · rw [crowd_grown (by decide)]
        decide
      · rw [crowd_grown (by decide)]
        decide
    obtain ⟨hi, hfirst⟩ := List.getElem?_eq_some_iff.mp hfirst
    obtain ⟨hj, hlast⟩ := List.getElem?_eq_some_iff.mp hlast
    have hpair := List.pairwise_iff_getElem.mp hapart 8421504 25264513 hi hj (by decide)
    rw [hfirst, hlast] at hpair
    have hin : pixel.Has 0 0 := ⟨by decide, by decide, by decide, by decide⟩
    exact hpair 0 0 ⟨hin, hin⟩

end Pippin.Ui
