import Pippin.Ui.Control

/-! A flat flow is the tree layout of one group of leaves. Each has its own loop and its own
alignment; they overflow in the same places too. -/

namespace Pippin.Ui
open Checked

theorem alignCross_eq (layout : Flow) (cell : Rect) (spec : ControlSpec) :
    alignNodeCross layout.axis layout.frame cell (nodeLayout spec) =
      alignCross layout cell spec.crossBasis spec.crossAlign := by
  unfold alignNodeCross alignCross Flow.crossSize Flow.crossStart nodeLayout
  rfl

theorem cell_eq (layout : Flow) (cursor main : Int) :
    (if layout.axis = .HORIZONTAL then (⟨cursor, layout.frame.y, main, layout.crossSize⟩ : Rect)
      else ⟨layout.frame.x, cursor, layout.crossSize, main⟩) =
    if layout.axis = .HORIZONTAL then ⟨cursor, layout.frame.y, main, layout.frame.height⟩
      else ⟨layout.frame.x, cursor, layout.frame.width, main⟩ := by
  unfold Flow.crossSize
  split <;> rfl

theorem specTotals_eq (specs : List ControlSpec) (fixedTotal : Int) (growTotal : UInt32) :
    nodeTotals (specs.map leaf) fixedTotal growTotal = specTotals specs fixedTotal growTotal := by
  induction specs generalizing fixedTotal growTotal with
  | nil => rfl
  | cons spec specs ih =>
    rw [List.map_cons]
    unfold nodeTotals specTotals
    simp only [ih]
    rfl

theorem flowItems_eq (layout : Flow) (remaining : Int) (growTotal : UInt32) {capacity : Nat} (specs : List ControlSpec)
    (cursor assignedGrow : Int) (usedGrow : UInt32) (out : TreeLayout)
    (h : out.items.length + specs.length ≤ capacity) :
    layoutChildren capacity layout.axis layout.gap layout.frame remaining growTotal (specs.map leaf) cursor assignedGrow
        usedGrow out =
      (flowItems layout remaining growTotal specs cursor assignedGrow usedGrow).map fun items =>
        ⟨out.items ++ items, out.overflow⟩ := by
  induction specs generalizing cursor assignedGrow usedGrow out with
  | nil =>
    rw [List.map_nil]
    unfold layoutChildren flowItems
    simp [Except.map]
  | cons spec specs ih =>
    rw [List.map_cons]
    unfold layoutChildren flowItems
    rw [List.length_cons] at h
    rw [map_bind]
    refine bind_congr fun share => ?_
    dsimp only
    have hlayout : (leaf spec).layout = nodeLayout spec := rfl
    rw [cell_eq, map_bind, hlayout, alignCross_eq]
    refine bind_congr fun frame => ?_
    have hleaf : layoutNode capacity (leaf spec) frame out =
        .ok ⟨out.items ++ [spec.placed frame], out.overflow⟩ := by
      unfold leaf layoutNode
      rw [TreeLayout.put_of_lt (by omega)]
    rw [hleaf, ok_bind, map_bind]
    refine bind_congr fun advance => ?_
    rw [map_bind]
    refine bind_congr fun cursor' => ?_
    rw [ih _ _ _ _ (by rw [List.length_append, List.length_singleton]; omega), map_bind]
    cases flowItems layout remaining growTotal specs cursor' share.2.1 share.2.2 with
    | error e => rfl
    | ok items =>
      exact congrArg (fun all => (.ok ⟨all, out.overflow⟩ : Checked TreeLayout)) (List.append_assoc out.items [_] items)

/-- A flow gives the controls of the tree layout, in the same frames and order, for every
capacity that holds them. -/
theorem flow_eq_layoutTree (layout : Flow) (spec : ControlSpec) (specs : List ControlSpec) (capacity : Nat)
    (h : (spec :: specs).length ≤ capacity) :
    layoutTree capacity (group layout.axis ((spec :: specs).map leaf) layout.gap) layout.frame =
      (flow layout (spec :: specs)).map fun items => ⟨items, false⟩ := by
  unfold layoutTree group flow layoutNode
  rw [List.length_map, if_neg (by simp), specTotals_eq, map_bind]
  refine bind_congr fun totals => ?_
  dsimp only
  rw [map_bind]
  refine bind_congr fun gaps => ?_
  unfold Flow.mainSize
  rw [map_bind]
  refine bind_congr fun room => ?_
  rw [map_bind]
  refine bind_congr fun remaining => ?_
  rw [flowItems_eq layout _ _ (spec :: specs) _ _ _ ⟨[], false⟩ (by simpa using h)]
  rfl

def dock : Flow := ⟨⟨12, 8, 344, 52⟩, .HORIZONTAL, 16⟩

def apps : ControlSpec := fixed "Apps".toList "launcher.open".toList 98 .TILE 104

def dockSpecs : List ControlSpec := [fixed "Files".toList "files.open".toList 98 .TILE 104,
  fixed "Settings".toList "settings.open".toList 98 .TILE 104]

theorem flow_eq_layoutTree_dock : ∃ items, items.map Control.frame = [⟨12, 8, 104, 52⟩, ⟨132, 8, 104, 52⟩,
    ⟨252, 8, 104, 52⟩] ∧ layoutTree 4 (group dock.axis ((apps :: dockSpecs).map leaf) dock.gap) dock.frame =
      .ok ⟨items, false⟩ := by
  have hflow : flow dock (apps :: dockSpecs) = .ok [apps.placed ⟨12, 8, 104, 52⟩,
      (fixed "Files".toList "files.open".toList 98 .TILE 104).placed ⟨132, 8, 104, 52⟩,
      (fixed "Settings".toList "settings.open".toList 98 .TILE 104).placed ⟨252, 8, 104, 52⟩] := by decide +kernel
  refine ⟨_, ?_, (flow_eq_layoutTree dock apps dockSpecs 4 (by decide)).trans (congrArg (Except.map _) hflow)⟩
  rfl

end Pippin.Ui
