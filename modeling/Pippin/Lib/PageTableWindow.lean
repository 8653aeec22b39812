import Pippin.Lib.PageTable

/-! Tables that show one directory through several slots of the root. What such tables
translate does not depend on the size of the pages below the directory. -/

namespace PageTable

/-- The slots `S` of the root lead to the table `pdpt` and slot 0 of that one leads to
the directory `pd`. The two tables have no other entries. -/
structure Window (E : Entries) (root pdpt pd : Nat) (S : Nat → Prop) : Prop where
  top : ∀ i < 512, S i → isLink (E root i) = true ∧ target (E root i) = pdpt
  top_absent : ∀ i < 512, ¬S i → present (E root i) = false
  middle : isLink (E pdpt 0) = true ∧ target (E pdpt 0) = pd
  middle_absent : ∀ i < 512, i ≠ 0 → present (E pdpt i) = false

/-- The directory maps its `2 ^ 18` pages in order from page 0 on, for the kernel only;
a leaf leaves `n` indices over. -/
def Identity (E : Entries) (pd n : Nat) : Prop :=
  ∀ k < 512, ∀ l < 512, ∃ leaf, walk E pd [k, l] = some leaf ∧ leaf.page = k * 512 + l ∧
    leaf.rest.length = n ∧ user leaf.entry = false

variable {E : Entries} {root pdpt pd n : Nat} {S : Nat → Prop} [DecidablePred S] {i j k l : Nat}

theorem Window.walk_eq (h : Window E root pdpt pd S) (hi : i < 512) (hj : j < 512) :
    ∃ b, walk E root [i, j, k, l] = if S i ∧ j = 0 then (walk E pd [k, l]).map (Leaf.under b) else none := by
  by_cases hS : S i
  · obtain ⟨hlink, htop⟩ := h.top i hi hS
    by_cases hj0 : j = 0
    · obtain ⟨hlink', hmid⟩ := h.middle
      refine ⟨user (E root i) && user (E pdpt 0), ?_⟩
      rw [if_pos ⟨hS, hj0⟩, walk_cons_link hlink (List.cons_ne_nil _ _), htop, hj0,
        walk_cons_link hlink' (List.cons_ne_nil _ _), hmid, Option.map_map]
      congr 1
      funext lf
      exact under_under _ _ lf
    · refine ⟨false, ?_⟩
      rw [if_neg (fun hc => hj0 hc.2), walk_cons_link hlink (List.cons_ne_nil _ _), htop,
        walk_cons_absent (h.middle_absent j hj hj0), Option.map_none]
  · refine ⟨false, ?_⟩
    rw [if_neg (fun hc => hS hc.1), walk_cons_absent (h.top_absent i hi hS)]

theorem Window.pageOf_eq (h : Window E root pdpt pd S) (hI : Identity E pd n) (hi : i < 512) (hj : j < 512)
    (hk : k < 512) (hl : l < 512) :
    pageOf E root [i, j, k, l] = if S i ∧ j = 0 then some (k * 512 + l) else none := by
  obtain ⟨leaf, hw, hpage, -⟩ := hI k hk l hl
  obtain ⟨b, hwalk⟩ := h.walk_eq (k := k) (l := l) hi hj
  rw [pageOf, hwalk, hw]
  split_ifs
  · simp only [Option.map_some, Option.some.injEq]
    exact hpage
  · rfl

theorem Window.leaf_spec (h : Window E root pdpt pd S) (hI : Identity E pd n) (hi : i < 512) (hj : j < 512)
    (hk : k < 512) (hl : l < 512) {leaf : Leaf} (hw : walk E root [i, j, k, l] = some leaf) :
    leaf.rest.length = n ∧ user leaf.entry = false := by
  obtain ⟨leaf', hw', -, hrest, huser⟩ := hI k hk l hl
  obtain ⟨b, hwalk⟩ := h.walk_eq (k := k) (l := l) hi hj
  rw [hwalk, hw'] at hw
  split_ifs at hw
  cases hw
  exact ⟨hrest, huser⟩

end PageTable
