import Pippin.Ui.Geometry

/-! A tree is flattened into its controls, depth first and from left to right. The array takes
the first ones; a control that finds it full leaves the overflow flag behind, which nothing
clears. -/

namespace Pippin.Ui
open Checked

variable {capacity : Nat} {axis : Axis} {gap : Int} {frame : Rect}

mutual

def Node.controls : Node → List ControlSpec
  | .leaf _ control => [control]
  | .proxy _ _ none => []
  | .proxy _ _ (some child) => child.controls
  | .group _ _ _ children => controlsOf children

def controlsOf : List Node → List ControlSpec
  | [] => []
  | child :: children => child.controls ++ controlsOf children

end

/-- The text, action, kind, style and flags are those of the spec. -/
def Control.Of (c : Control) (spec : ControlSpec) : Prop := c = spec.placed c.frame

theorem leavesFrom_of {all : List Node} (rest : List Node)
    (h : ∀ child ∈ rest, ∀ f, List.Forall₂ Control.Of (leaves child f) child.controls) (i : Nat) :
    List.Forall₂ Control.Of (leavesFrom axis gap frame all i rest) (controlsOf rest) := by
  induction rest generalizing i with
  | nil =>
    unfold leavesFrom controlsOf
    exact .nil
  | cons child rest ih =>
    unfold leavesFrom controlsOf
    have hrest := ih (fun c hc => h c (List.mem_cons_of_mem _ hc)) (i + 1)
    exact List.rel_append (h child List.mem_cons_self _) hrest

theorem leaves_of (node : Node) : ∀ f, List.Forall₂ Control.Of (leaves node f) node.controls := by
  induction node using Node.induct with
  | leaf layout control =>
    intro f
    unfold leaves Node.controls
    exact .cons rfl .nil
  | empty layout insets =>
    intro f
    unfold leaves Node.controls
    exact .nil
  | proxy layout insets child ih =>
    intro f
    unfold leaves Node.controls
    exact ih _
  | group layout axis gap children ih =>
    intro f
    unfold leaves Node.controls
    exact leavesFrom_of children ih 0

/-! ## Nothing but an overflow stops the layout -/

theorem onlyOverflows_ite {α : Type} {p : Prop} [Decidable p] {m m' : Checked α} (h : OnlyOverflows m)
    (h' : OnlyOverflows m') :
    OnlyOverflows (if p then m else m') := by
  split
  · exact h
  · exact h'

theorem onlyOverflows_inset (r : Rect) (insets : Insets) : OnlyOverflows (inset r insets) :=
  .bind (onlyOverflows_i32 _) fun _ _ => .bind (onlyOverflows_i32 _) fun _ _ => .bind (onlyOverflows_i32 _) fun _ _ =>
    .bind (onlyOverflows_i32 _) fun _ _ => .bind (onlyOverflows_i32 _) fun _ _ => .bind (onlyOverflows_i32 _) fun _ _ =>
      onlyOverflows_ok _

theorem onlyOverflows_align (axis : Axis) (parent c : Rect) (layout : NodeLayout) :
    OnlyOverflows (alignNodeCross axis parent c layout) := by
  unfold alignNodeCross
  refine onlyOverflows_ite (onlyOverflows_ok _) (.bind ?_ fun _ _ => onlyOverflows_ok _)
  cases layout.crossAlign with
  | START | FILL => exact onlyOverflows_ok _
  | CENTER | END => exact .bind (onlyOverflows_i32 _) fun _ _ => onlyOverflows_i32 _

theorem onlyOverflows_totals (children : List Node) (fixedTotal : Int) (growTotal : UInt32) :
    OnlyOverflows (nodeTotals children fixedTotal growTotal) := by
  induction children generalizing fixedTotal growTotal with
  | nil => exact onlyOverflows_ok _
  | cons child children ih => exact .bind (onlyOverflows_i32 _) fun _ _ => ih _ _

theorem onlyOverflows_children {remaining : Int} {growTotal : UInt32} (rest : List Node)
    (h : ∀ c ∈ rest, ∀ f out, OnlyOverflows (layoutNode capacity c f out)) (cursor assignedGrow : Int)
    (usedGrow : UInt32) (out : TreeLayout) :
    OnlyOverflows
      (layoutChildren capacity axis gap frame remaining growTotal rest cursor assignedGrow usedGrow out) := by
  induction rest generalizing cursor assignedGrow usedGrow out with
  | nil =>
    unfold layoutChildren
    exact onlyOverflows_ok _
  | cons child rest ih =>
    unfold layoutChildren
    refine .bind (onlyOverflows_ite ?_ (onlyOverflows_ok _)) fun share _ => ?_
    · exact .bind (onlyOverflows_i32 _) fun _ _ => .bind (onlyOverflows_i32 _) fun _ _ => onlyOverflows_ok _
    · refine .bind (onlyOverflows_align _ _ _ _) fun c _ => .bind (h child List.mem_cons_self _ _) fun out _ => ?_
      refine .bind (onlyOverflows_i32 _) fun _ _ => .bind (onlyOverflows_i32 _) fun _ _ => ?_
      exact ih (fun c hc => h c (List.mem_cons_of_mem _ hc)) _ _ _ _

theorem onlyOverflows_layoutNode (node : Node) : ∀ f out, OnlyOverflows (layoutNode capacity node f out) := by
  induction node using Node.induct with
  | leaf layout control | empty layout insets =>
    intro f out
    unfold layoutNode
    exact onlyOverflows_ok _
  | proxy layout insets child ih =>
    intro f out
    unfold layoutNode
    exact .bind (onlyOverflows_inset _ _) fun _ _ => ih _ _
  | group layout axis gap children ih =>
    intro f out
    unfold layoutNode
    refine onlyOverflows_ite (onlyOverflows_ok _) (.bind (onlyOverflows_totals _ _ _) fun totals _ => ?_)
    refine .bind (onlyOverflows_ite (onlyOverflows_i32 _) (onlyOverflows_ok _)) fun gaps _ => ?_
    refine .bind (onlyOverflows_i32 _) fun room _ => .bind (onlyOverflows_i32 _) fun rest _ => ?_
    exact onlyOverflows_children children ih _ _ _ _

/-- Tree layout emits the first controls of the tree, as many as the array holds, and says so when there are
more. An int32 overflow, which ends the compilation, is all that can keep it from a result. -/
theorem layoutTree_flattens (capacity : Nat) (root : Node) (frame : Rect) :
    Ensures (layoutTree capacity root frame) (fun out =>
      List.Forall₂ Control.Of out.items (root.controls.take capacity) ∧
      out.items.length = min root.controls.length capacity ∧
      (out.overflow = true ↔ capacity < root.controls.length)) ∧
    OnlyOverflows (layoutTree capacity root frame) := by
  refine ⟨fun out hout => ?_, onlyOverflows_layoutNode root frame _⟩
  have hof := leaves_of root frame
  have hlength := hof.length_eq
  have hitems := (layoutTree_eq root frame out hout).1
  have hover := (foldl_put (leaves root frame) ⟨[], false⟩ (Nat.zero_le capacity)).2
  rw [← layoutNode_eq root frame ⟨[], false⟩ out hout, List.length_nil, Nat.zero_add, hlength] at hover
  refine ⟨?_, ?_, ?_⟩
  · rw [hitems]
    exact List.forall₂_take capacity hof
  · rw [hitems, List.length_take, hlength, Nat.min_comm]
  · rw [← Bool.not_eq_false, hover]
    simp

/-- A group with nothing in it, an empty proxy and a nested group: the third control finds the array full. -/
example : (layoutTree 2 (group .VERTICAL [group .HORIZONTAL [] 0, leaf (label "one".toList), .proxy ⟨0, 1, 0, .FILL⟩ ⟨0, 0, 0, 0⟩ none,
    group .HORIZONTAL [leaf (label "two".toList), leaf (label "three".toList)] 0] 0) ⟨0, 0, 100, 100⟩).map
      (fun out => (out.items.map Control.text, out.overflow)) = .ok (["one".toList, "two".toList], true) := by
  decide +kernel

end Pippin.Ui
