import Pippin.Ui.Control

/-! Where tree layout puts every node, in closed form: the children of a group stand one after
the other, each with its basis and its share of the space that is left. The loops compute this,
control by control. -/

namespace Pippin.Ui
open Checked

/-! ## Spans -/

def Rect.lo : Axis → Rect → Int
  | .HORIZONTAL, r => r.x
  | .VERTICAL, r => r.y

def Rect.len : Axis → Rect → Int
  | .HORIZONTAL, r => r.width
  | .VERTICAL, r => r.height

def Axis.other : Axis → Axis
  | .HORIZONTAL => .VERTICAL
  | .VERTICAL => .HORIZONTAL

def Rect.ofSpans (axis : Axis) (main cross : Int × Int) : Rect :=
  match axis with
  | .HORIZONTAL => ⟨main.1, cross.1, main.2, cross.2⟩
  | .VERTICAL => ⟨cross.1, main.1, cross.2, main.2⟩

def crossSpan (layout : NodeLayout) (lo len : Int) : Int × Int :=
  if layout.crossBasis ≤ 0 then (lo, len)
  else
    let size := min layout.crossBasis len
    match layout.crossAlign with
    | .FILL => (lo, len)
    | .START => (lo, size)
    | .CENTER => (lo + (len - size).tdiv 2, size)
    | .END => (lo + (len - size), size)

def Rect.inset (r : Rect) (insets : Insets) : Rect :=
  ⟨r.x + insets.left, r.y + insets.top, nonNegative (r.width - insets.left - insets.right),
    nonNegative (r.height - insets.top - insets.bottom)⟩

/-! ## The children of a group -/

def basisSum (children : List Node) (i : Nat) : Int := ((children.take i).map fun c => c.layout.basis).sum

def weightSum (children : List Node) (i : Nat) : Nat :=
  ((children.take i).map fun c => c.layout.grow.toNat).sum % 2 ^ 32

def gapSum (gap : Int) (n : Nat) : Int := if n > 1 then gap * toI32 (n - 1 : Nat) else 0

section

variable (axis : Axis) (gap : Int) (frame : Rect) (children : List Node)

def spare : Int :=
  nonNegative (frame.len axis - basisSum children children.length - gapSum gap children.length)

def grown (i : Nat) : Int :=
  toI32 ((spare axis gap frame children * weightSum children i).tdiv (weightSum children children.length))

def mainStart (i : Nat) : Int :=
  frame.lo axis + basisSum children i + gap * i + grown axis gap frame children i

def mainLength (child : Node) (i : Nat) : Int :=
  child.layout.basis + (grown axis gap frame children (i + 1) - grown axis gap frame children i)

def cell (child : Node) (i : Nat) : Rect :=
  .ofSpans axis (mainStart axis gap frame children i, mainLength axis gap frame children child i)
    (crossSpan child.layout (frame.lo axis.other) (frame.len axis.other))

end

mutual

def leaves : Node → Rect → List Control
  | .leaf _ control, frame => [control.placed frame]
  | .proxy _ _ none, _ => []
  | .proxy _ insets (some child), frame => leaves child (frame.inset insets)
  | .group _ axis gap children, frame => leavesFrom axis gap frame children 0 children

def leavesFrom (axis : Axis) (gap : Int) (frame : Rect) (all : List Node) : Nat → List Node → List Control
  | _, [] => []
  | i, child :: children =>
    leaves child (cell axis gap frame all child i) ++ leavesFrom axis gap frame all (i + 1) children

end

variable {capacity : Nat} {axis : Axis} {gap : Int} {frame : Rect} {children : List Node}

theorem Node.induct {P : Node → Prop} (leaf : ∀ layout control, P (.leaf layout control))
    (empty : ∀ layout insets, P (.proxy layout insets none))
    (proxy : ∀ layout insets child, P child → P (.proxy layout insets (some child)))
    (group : ∀ layout axis gap children, (∀ c ∈ children, P c) → P (.group layout axis gap children)) : ∀ n, P n
  | .leaf layout control => leaf layout control
  | .proxy layout insets none => empty layout insets
  | .proxy layout insets (some child) => proxy layout insets child (Node.induct leaf empty proxy group child)
  | .group layout axis gap children =>
    group layout axis gap children fun c _ => Node.induct leaf empty proxy group c

/-! ## The loops -/

theorem drop_cons {α : Type} {l rest : List α} {v : α} {i : Nat} (h : l.drop i = v :: rest) :
    l[i]? = some v ∧ l.drop (i + 1) = rest := by
  constructor
  · rw [← List.head?_drop, h]
    rfl
  · rw [← List.drop_drop, h]
    rfl

theorem inset_eq (r : Rect) (insets : Insets) : Ensures (inset r insets) fun f => f = r.inset insets := by
  refine ensures_bind fun x hx => ensures_bind fun y hy => ensures_bind fun w hw => ensures_bind fun w' hw' => ?_
  refine ensures_bind fun h hh => ensures_bind fun h' hh' => ensures_ok ?_
  obtain ⟨rfl, -⟩ := i32_of_ok hx
  obtain ⟨rfl, -⟩ := i32_of_ok hy
  obtain ⟨rfl, -⟩ := i32_of_ok hw
  obtain ⟨rfl, -⟩ := i32_of_ok hw'
  obtain ⟨rfl, -⟩ := i32_of_ok hh
  obtain ⟨rfl, -⟩ := i32_of_ok hh'
  rfl

theorem size_eq (requested available : Int) :
    (if requested < available then requested else available) = min requested available := by
  split <;> omega

theorem start_eq (start difference : Int) (part : Int → Int) :
    Ensures (do i32 (start + part (← i32 difference))) fun v => v = start + part difference := by
  refine ensures_bind fun d hd => fun v hv => ?_
  obtain ⟨rfl, -⟩ := i32_of_ok hd
  exact (i32_of_ok hv).1

theorem alignNodeCross_spans (axis : Axis) (frame : Rect) (cursor main : Int) (layout : NodeLayout) :
    Ensures (alignNodeCross axis frame (if axis = .HORIZONTAL then ⟨cursor, frame.y, main, frame.height⟩
        else ⟨frame.x, cursor, frame.width, main⟩) layout)
      fun c => c = .ofSpans axis (cursor, main) (crossSpan layout (frame.lo axis.other) (frame.len axis.other)) := by
  unfold alignNodeCross crossSpan
  dsimp only
  rw [size_eq]
  by_cases hbasis : layout.crossBasis ≤ 0
  · rw [if_pos (Or.inl hbasis), if_pos hbasis]
    cases axis <;> exact ensures_ok rfl
  · rw [if_neg hbasis]
    cases halign : layout.crossAlign with
    | FILL =>
      rw [if_pos (Or.inr rfl)]
      cases axis <;> exact ensures_ok rfl
    | START =>
      rw [if_neg (by simpa using hbasis)]
      cases axis <;> exact ensures_ok rfl
    | CENTER =>
      rw [if_neg (by simpa using hbasis)]
      refine ensures_bind fun start hstart => ensures_ok ?_
      rw [start_eq _ _ (fun d => d.tdiv 2) start hstart]
      cases axis <;> rfl
    | END =>
      rw [if_neg (by simpa using hbasis)]
      refine ensures_bind fun start hstart => ensures_ok ?_
      rw [start_eq _ _ id start hstart]
      cases axis <;> rfl

theorem basisSum_zero : basisSum children 0 = 0 := rfl

theorem basisSum_length : basisSum children children.length = (children.map fun c => c.layout.basis).sum := by
  unfold basisSum
  rw [List.take_length]

theorem weightSum_length :
    weightSum children children.length = (children.map fun c => c.layout.grow.toNat).sum % 2 ^ 32 := by
  unfold weightSum
  rw [List.take_length]

theorem grown_zero : grown axis gap frame children 0 = 0 := by
  unfold grown
  have hzero : weightSum children 0 = 0 := rfl
  rw [hzero]
  simp [toI32]

theorem basisSum_succ {child : Node} {i : Nat} (h : children[i]? = some child) :
    basisSum children (i + 1) = basisSum children i + child.layout.basis := by
  unfold basisSum
  rw [List.take_add_one, h]
  simp

theorem weightSum_succ {child : Node} {i : Nat} (h : children[i]? = some child) :
    weightSum children (i + 1) = (weightSum children i + child.layout.grow.toNat) % 2 ^ 32 := by
  unfold weightSum
  rw [List.take_add_one, h]
  simp

theorem weightSum_same {child : Node} {i : Nat} (h : children[i]? = some child) (hgrow : child.layout.grow = 0) :
    weightSum children (i + 1) = weightSum children i := by
  rw [weightSum_succ h, hgrow]
  exact Nat.mod_mod _ _

theorem nodeTotals_eq (rest : List Node) (fixedTotal : Int) (growTotal : UInt32) :
    Ensures (nodeTotals rest fixedTotal growTotal) fun r =>
      r.1 = fixedTotal + (rest.map fun c => c.layout.basis).sum ∧
      r.2.toNat = (growTotal.toNat + (rest.map fun c => c.layout.grow.toNat).sum) % 2 ^ 32 := by
  induction rest generalizing fixedTotal growTotal with
  | nil =>
    refine ensures_ok ⟨by simp, ?_⟩
    simp
  | cons child rest ih =>
    unfold nodeTotals
    refine ensures_bind fun total htotal r hr => ?_
    obtain ⟨rfl, -⟩ := i32_of_ok htotal
    obtain ⟨hbasis, hweight⟩ := ih _ _ r hr
    rw [List.map_cons, List.map_cons, List.sum_cons, List.sum_cons, hbasis, hweight, UInt32.toNat_add,
      UInt8.toNat_toUInt32, Nat.mod_add_mod]
    exact ⟨by omega, by rw [Nat.add_assoc]⟩

theorem share_eq {child : Node} {i : Nat} {remaining assignedGrow : Int} {growTotal usedGrow : UInt32}
    (hchild : children[i]? = some child) (hremaining : remaining = spare axis gap frame children)
    (htotal : growTotal.toNat = weightSum children children.length)
    (hassigned : assignedGrow = grown axis gap frame children i)
    (hused : growTotal ≠ 0 → usedGrow.toNat = weightSum children i) :
    Ensures (if child.layout.grow ≠ 0 ∧ growTotal ≠ 0 then do
        let usedGrow := usedGrow + child.layout.grow.toUInt32
        let target := toI32 ((remaining * usedGrow.toNat).tdiv growTotal.toNat)
        pure (← i32 (child.layout.basis + (← i32 (target - assignedGrow))), target, usedGrow)
      else pure (child.layout.basis, assignedGrow, usedGrow) : Checked (Int × Int × UInt32)) fun r =>
      r.1 = mainLength axis gap frame children child i ∧ r.2.1 = grown axis gap frame children (i + 1) ∧
      (growTotal ≠ 0 → r.2.2.toNat = weightSum children (i + 1)) := by
  unfold mainLength
  split
  · rename_i hgrow
    have hnext : (usedGrow + child.layout.grow.toUInt32).toNat = weightSum children (i + 1) := by
      rw [UInt32.toNat_add, UInt8.toNat_toUInt32, hused hgrow.2, weightSum_succ hchild]
    have htarget : toI32 ((remaining * (usedGrow + child.layout.grow.toUInt32).toNat).tdiv growTotal.toNat) =
        grown axis gap frame children (i + 1) := by
      rw [hnext, hremaining, htotal]
      rfl
    refine ensures_bind fun step hstep => ensures_bind fun main hmain => ensures_ok ?_
    obtain ⟨rfl, -⟩ := i32_of_ok hstep
    obtain ⟨rfl, -⟩ := i32_of_ok hmain
    rw [htarget, hassigned]
    exact ⟨rfl, rfl, fun _ => hnext⟩
  · rename_i hgrow
    -- no weight, or no weights at all: nothing is added
    have hno : growTotal ≠ 0 → weightSum children (i + 1) = weightSum children i := by
      intro hne
      refine weightSum_same hchild ?_
      by_contra h
      exact hgrow ⟨h, hne⟩
    have hsame : grown axis gap frame children (i + 1) = grown axis gap frame children i := by
      unfold grown
      by_cases hzero : growTotal = 0
      · rw [hzero] at htotal
        rw [← htotal]
        simp
      · rw [hno hzero]
    refine ensures_ok ⟨?_, hassigned.trans hsame.symm, fun hne => (hused hne).trans (hno hne).symm⟩
    dsimp only
    omega

theorem layoutChildren_eq {all : List Node} {remaining : Int} {growTotal : UInt32}
    (hremaining : remaining = spare axis gap frame all) (htotal : growTotal.toNat = weightSum all all.length)
    (rest : List Node) (i : Nat) (hrest : all.drop i = rest)
    (hnode : ∀ c ∈ rest, ∀ f out, Ensures (layoutNode capacity c f out) fun out' =>
      out' = (leaves c f).foldl (TreeLayout.put capacity) out)
    (cursor assignedGrow : Int) (usedGrow : UInt32) (out : TreeLayout)
    (hcursor : cursor = mainStart axis gap frame all i) (hassigned : assignedGrow = grown axis gap frame all i)
    (hused : growTotal ≠ 0 → usedGrow.toNat = weightSum all i) :
    Ensures (layoutChildren capacity axis gap frame remaining growTotal rest cursor assignedGrow usedGrow out)
      fun out' => out' = (leavesFrom axis gap frame all i rest).foldl (TreeLayout.put capacity) out := by
  induction rest generalizing i cursor assignedGrow usedGrow out with
  | nil =>
    unfold layoutChildren leavesFrom
    exact ensures_ok rfl
  | cons child rest ih =>
    obtain ⟨hchild, hnext⟩ := drop_cons hrest
    unfold layoutChildren leavesFrom
    refine ensures_bind fun share hshare => ?_
    obtain ⟨hmain, hgrown, hweight⟩ := share_eq hchild hremaining htotal hassigned hused share hshare
    refine ensures_bind fun c hc => ensures_bind fun out₁ h₁ => ensures_bind fun step hstep => ?_
    refine ensures_bind fun cursor' hcursor' => ?_
    have hcell : c = cell axis gap frame all child i := by
      rw [alignNodeCross_spans axis frame cursor share.1 child.layout c hc, hcursor, hmain]
      rfl
    obtain ⟨rfl, -⟩ := i32_of_ok hstep
    obtain ⟨rfl, -⟩ := i32_of_ok hcursor'
    intro out' hout
    have h₁ := hnode child List.mem_cons_self _ _ out₁ h₁
    have hrest := ih (i + 1) hnext (fun c hc => hnode c (List.mem_cons_of_mem _ hc)) _ _ _ _ ?_ hgrown hweight out' hout
    · rw [hrest, h₁, hcell, List.foldl_append]
    · unfold mainStart at hcursor ⊢
      unfold mainLength at hmain
      rw [basisSum_succ hchild, Int.natCast_succ, Int.mul_add, Int.mul_one]
      omega

theorem layoutNode_eq (node : Node) : ∀ f out, Ensures (layoutNode capacity node f out) fun out' =>
    out' = (leaves node f).foldl (TreeLayout.put capacity) out := by
  -- on the node: a group asks it of the children, with the sums before each child
  induction node using Node.induct with
  | leaf layout control =>
    intro f out
    unfold layoutNode leaves
    exact ensures_ok rfl
  | empty layout insets =>
    intro f out
    unfold layoutNode leaves
    exact ensures_ok rfl
  | proxy layout insets child ih =>
    intro f out
    unfold layoutNode leaves
    refine ensures_bind fun g hg => ?_
    rw [inset_eq f insets g hg]
    exact ih _ _
  | group layout axis gap children ih =>
    intro f out
    unfold layoutNode leaves
    split
    · rename_i hempty
      cases List.eq_nil_of_length_eq_zero hempty
      unfold leavesFrom
      exact ensures_ok rfl
    · refine ensures_bind fun totals htotals => ensures_bind fun gaps hgaps => ?_
      refine ensures_bind fun room hroom => ensures_bind fun remaining hremaining => ?_
      obtain ⟨hbasis, hweight⟩ := nodeTotals_eq children 0 0 totals htotals
      have hgaps : gaps = gapSum gap children.length := by
        unfold gapSum
        split at hgaps
        · rename_i hmany
          rw [if_pos hmany]
          exact (i32_of_ok hgaps).1
        · rename_i hfew
          rw [if_neg hfew]
          cases hgaps
          rfl
      obtain ⟨rfl, -⟩ := i32_of_ok hroom
      obtain ⟨rfl, -⟩ := i32_of_ok hremaining
      have hstart : grown axis gap f children 0 = 0 := grown_zero
      have hlen : (if axis = .HORIZONTAL then f.width else f.height) = f.len axis := by cases axis <;> rfl
      have hlo : (if axis = .HORIZONTAL then f.x else f.y) = f.lo axis := by cases axis <;> rfl
      refine layoutChildren_eq ?_ ?_ children 0 rfl ih _ _ _ _ ?_ hstart.symm ?_
      · unfold spare nonNegative
        rw [hlen, hbasis, hgaps, basisSum_length, Int.zero_add]
      · rw [hweight, weightSum_length, UInt32.toNat_zero, Nat.zero_add]
      · unfold mainStart
        rw [hlo, hstart, basisSum_zero]
        simp
      · intro _
        rfl

theorem foldl_put (controls : List Control) (out : TreeLayout) (h : out.items.length ≤ capacity) :
    (controls.foldl (TreeLayout.put capacity) out).items = out.items ++ controls.take (capacity - out.items.length) ∧
    ((controls.foldl (TreeLayout.put capacity) out).overflow = false ↔
      out.overflow = false ∧ out.items.length + controls.length ≤ capacity) := by
  induction controls generalizing out with
  | nil =>
    refine ⟨by simp, ?_⟩
    simp [h]
  | cons control controls ih =>
    rw [List.foldl_cons]
    rcases Nat.lt_or_ge out.items.length capacity with hlt | hfull
    · rw [TreeLayout.put_of_lt hlt]
      obtain ⟨hitems, hover⟩ := ih ⟨out.items ++ [control], out.overflow⟩ (by simpa using Nat.succ_le_of_lt hlt)
      have htake : capacity - out.items.length = capacity - (out.items.length + 1) + 1 := by omega
      rw [List.length_append, List.length_singleton] at hitems hover
      refine ⟨?_, ?_⟩
      · rw [hitems, htake, List.take_succ_cons, List.append_assoc, List.singleton_append]
      · rw [hover, List.length_cons]
        refine and_congr Iff.rfl ?_
        omega
    · rw [TreeLayout.put_of_le hfull]
      obtain ⟨hitems, hover⟩ := ih ⟨out.items, true⟩ h
      have hzero : capacity - out.items.length = 0 := by omega
      refine ⟨?_, ?_⟩
      · rw [hitems, hzero]
        rfl
      · rw [hover, List.length_cons]
        constructor
        · rintro ⟨h, -⟩
          cases h
        · rintro ⟨-, h⟩
          omega

theorem layoutTree_eq (root : Node) (frame : Rect) : Ensures (layoutTree capacity root frame) fun out =>
    out.items = (leaves root frame).take capacity ∧ (out.overflow = false → out.items = leaves root frame) := by
  intro out hout
  rw [layoutNode_eq root frame ⟨[], false⟩ out hout]
  obtain ⟨hitems, hover⟩ := foldl_put (leaves root frame) ⟨[], false⟩ (Nat.zero_le capacity)
  have hitems : (List.foldl (TreeLayout.put capacity) ⟨[], false⟩ (leaves root frame)).items =
      (leaves root frame).take capacity := hitems
  refine ⟨hitems, fun h => ?_⟩
  have hle := (hover.mp h).2
  rw [List.length_nil, Nat.zero_add] at hle
  rw [hitems, List.take_of_length_le hle]

end Pippin.Ui
