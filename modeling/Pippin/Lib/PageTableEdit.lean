import Pippin.Lib.PageTable

/-! The three ways page tables grow: linking a fresh table in place of an absent entry
or a large page, opening a link to user access, and setting one page entry. Each keeps
the tables well formed, and only the last one changes a translation. -/

namespace PageTable

variable {E E' : Entries} {root t f : Nat} {p q p₀ : List Nat} {i i₀ t₀ : Nat}

/-- A slot that was no link now links to the fresh table `f`, whose entries are leaves
with the translations the slot had. -/
structure Link (E E' : Entries) (root : Nat) (p₀ : List Nat) (i₀ t₀ f : Nat) : Prop
    extends Edit E E' root p₀ i₀ t₀ where
  level : p₀.length < 3
  old : isLink (E t₀ i₀) = false
  links : isLink (E' t₀ i₀) = true
  points : target (E' t₀ i₀) = f
  low : (E' t₀ i₀).toNat < 2 ^ 30
  fresh : ∀ p t, TablePath p → descend E root p = some t → t ≠ f
  leaves : ∀ j < 512, p₀.length = 2 ∨ E' f j = 0 ∨ present (E' f j) = true ∧ huge (E' f j) = true
  pages : ∀ is, is.length + p₀.length = 3 → (∀ i ∈ is, i < 512) →
    (walk E' f is).map Leaf.page = (walk E t₀ (i₀ :: is)).map Leaf.page

theorem not_link_of_leaf {e : UInt64} (h : e = 0 ∨ present e = true ∧ huge e = true) : isLink e = false := by
  rcases h with rfl | ⟨-, hh⟩
  · rfl
  · rw [isLink, hh, Bool.not_true, Bool.and_false]

theorem Link.descend_eq (h : Link E E' root p₀ i₀ t₀ f) (hq : TablePath q) :
    descend E' root q = if q = p₀ ++ [i₀] then some f else descend E root q := by
  by_cases hb : p₀ ++ [i₀] <+: q
  · obtain ⟨is, rfl⟩ := below_cases hb
    rw [(h.below h.links is).1, h.points]
    have hold : descend E root (p₀ ++ i₀ :: is) = none := by
      rw [descend_append, h.parent, Option.bind_some, descend, h.old]
      rfl
    cases is with
    | nil =>
      rw [if_pos rfl]
      rfl
    | cons j is =>
      have hlen := hq.length
      rw [List.length_append, List.length_cons, List.length_cons] at hlen
      have hj : j < 512 := hq.lower.1 j (by simp)
      have hleaf := (h.leaves j hj).resolve_left (by omega)
      rw [if_neg (by simp), hold, descend, not_link_of_leaf hleaf]
      rfl
  · rw [(h.apart hq.lower (by have := hq.length; omega) hb).1, if_neg]
    rintro rfl
    exact hb (List.prefix_refl _)

theorem Link.descend_kept (h : Link E E' root p₀ i₀ t₀ f) (hq : TablePath q) {u : Nat}
    (hu : descend E root q = some u) : descend E' root q = some u := by
  rw [h.descend_eq hq, if_neg, hu]
  rintro rfl
  rw [descend_snoc h.parent, h.old] at hu
  cases hu

theorem Link.slot_path (h : Link E E' root p₀ i₀ t₀ f) : TablePath (p₀ ++ [i₀]) := by
  refine ⟨h.slot.1, ?_⟩
  have hlev := h.level
  rw [List.length_append, List.length_singleton]
  omega

theorem Link.table_iff (h : Link E E' root p₀ i₀ t₀ f) {u : Nat} :
    (∃ q, TablePath q ∧ descend E' root q = some u) ↔ (∃ q, TablePath q ∧ descend E root q = some u) ∨ u = f := by
  constructor
  · rintro ⟨q, hq, hu⟩
    rw [h.descend_eq hq] at hu
    split_ifs at hu
    · exact Or.inr (Option.some.inj hu).symm
    · exact Or.inl ⟨q, hq, hu⟩
  · rintro (⟨q, hq, hu⟩ | rfl)
    · exact ⟨q, hq, h.descend_kept hq hu⟩
    · exact ⟨p₀ ++ [i₀], h.slot_path, by rw [h.descend_eq h.slot_path, if_pos rfl]⟩

theorem Link.descend_cases (h : Link E E' root p₀ i₀ t₀ f) (hq : TablePath q)
    (ht : descend E' root q = some t) :
    q = p₀ ++ [i₀] ∧ t = f ∨ q ≠ p₀ ++ [i₀] ∧ descend E root q = some t := by
  rw [h.descend_eq hq] at ht
  split_ifs at ht with he
  · exact Or.inl ⟨he, (Option.some.inj ht).symm⟩
  · exact Or.inr ⟨he, ht⟩

theorem Link.slot_cases (h : Link E E' root p₀ i₀ t₀ f) (hs : Slot p i) (ht : descend E' root p = some t) :
    p = p₀ ++ [i₀] ∧ t = f ∨ descend E root p = some t ∧ userPath E' root p = userPath E root p ∧
      (p = p₀ ∧ i = i₀ ∧ t = t₀ ∨ E' t i = E t i) := by
  rcases h.descend_cases hs.tablePath ht with hf | ⟨hne, hold⟩
  · exact Or.inl hf
  · refine Or.inr ((h.toEdit.slot_cases hs ht).resolve_left fun hb => ?_)
    obtain ⟨is, rfl⟩ := below_cases hb
    rw [descend_append, h.parent, Option.bind_some, descend, h.old] at hold
    cases hold

theorem Link.wellFormed (h : Link E E' root p₀ i₀ t₀ f) (hwf : WellFormed E root) : WellFormed E' root := by
  refine ⟨hwf.root_aligned, hwf.root_low, ?_, ?_, ?_, ?_⟩
  · intro p q t hp hq hpt hqt
    rcases h.descend_cases hp hpt with ⟨rfl, rfl⟩ | ⟨-, hpo⟩
    · rcases h.descend_cases hq hqt with ⟨rfl, -⟩ | ⟨-, hqo⟩
      · rfl
      · exact absurd rfl (h.fresh q _ hq hqo)
    · rcases h.descend_cases hq hqt with ⟨-, rfl⟩ | ⟨-, hqo⟩
      · exact absurd rfl (h.fresh p _ hp hpo)
      · exact hwf.tree hp hq hpo hqo
  · intro p t i hs hlen ht hpr
    rcases h.slot_cases hs ht with ⟨rfl, rfl⟩ | ⟨hold, -, ⟨rfl, rfl, rfl⟩ | he⟩
    · rw [List.length_append, List.length_singleton] at hlen
      rcases (h.leaves i hs.lt).resolve_left (by omega) with h0 | ⟨hp, -⟩
      · exact h0
      · rw [hpr] at hp
        cases hp
    · rw [(isLink_iff.mp h.links).1] at hpr
      cases hpr
    · rw [he] at hpr ⊢
      exact hwf.absent hs hlen hold hpr
  · intro p t i hs hlen ht hl
    rcases h.slot_cases hs ht with ⟨rfl, rfl⟩ | ⟨hold, -, ⟨rfl, rfl, rfl⟩ | he⟩
    · rw [List.length_append, List.length_singleton] at hlen
      rw [not_link_of_leaf ((h.leaves i hs.lt).resolve_left (by omega))] at hl
      cases hl
    · exact h.low
    · rw [he] at hl ⊢
      exact hwf.low hs hlen hold hl
  · intro i hs
    rcases h.slot_cases hs (rfl : descend E' root [] = some root) with ⟨hp, -⟩ | ⟨-, -, ⟨rfl, rfl, rfl⟩ | he⟩
    · simp at hp
    · exact (isLink_iff.mp h.links).2
    · rw [he]
      exact hwf.top hs

theorem Link.leaf (h : Link E E' root p₀ i₀ t₀ f) {is : List Nat} (hlen : is.length + p₀.length = 3)
    (hr : ∀ i ∈ is, i < 512) {l : Leaf} (hw : walk E' f is = some l) :
    ∃ j < 512, l.user = user (E' f j) := by
  cases is with
  | nil => cases hw
  | cons j is =>
    have hj : j < 512 := hr j List.mem_cons_self
    refine ⟨j, hj, ?_⟩
    rw [List.length_cons] at hlen
    have hleaf : is = [] ∨ E' f j = 0 ∨ present (E' f j) = true ∧ huge (E' f j) = true := by
      rcases h.leaves j hj with h2 | hl
      · exact Or.inl (List.length_eq_zero_iff.mp (by omega))
      · exact Or.inr hl
    cases hpr : present (E' f j) with
    | false =>
      rw [walk_cons_absent hpr] at hw
      cases hw
    | true =>
      rw [walk_cons_leaf hpr] at hw
      · cases hw
        rfl
      · rcases hleaf with h0 | h0 | ⟨-, hh⟩
        · exact Or.inl h0
        · rw [h0] at hpr
          cases hpr
        · exact Or.inr hh

theorem page_under {o : Option Leaf} {b : Bool} : (o.map (Leaf.under b)).map Leaf.page = o.map Leaf.page := by
  rw [Option.map_map]
  rfl

theorem PagePath.rest (hq : PagePath (p₀ ++ i₀ :: p)) : p.length + p₀.length = 3 ∧ ∀ i ∈ p, i < 512 := by
  have hlen := hq.length
  rw [List.length_append, List.length_cons] at hlen
  exact ⟨by omega, fun i hi => hq.lower.1 i (by simp [hi])⟩

theorem Link.below_ne {is : List Nat} (h : Link E E' root p₀ i₀ t₀ f) (hq : PagePath (p₀ ++ i₀ :: is)) : is ≠ [] := by
  have hlen := hq.rest.1
  have hlev := h.level
  rintro rfl
  rw [List.length_nil] at hlen
  omega

theorem Link.huge_of_present (h : Link E E' root p₀ i₀ t₀ f) (hpr : present (E t₀ i₀) = true) :
    huge (E t₀ i₀) = true := by
  have hold := h.old
  rw [isLink, hpr, Bool.true_and] at hold
  simpa using hold

theorem Link.pageOf_eq (h : Link E E' root p₀ i₀ t₀ f) (hq : PagePath q) :
    pageOf E' root q = pageOf E root q := by
  by_cases hb : p₀ ++ [i₀] <+: q
  · obtain ⟨is, rfl⟩ := below_cases hb
    obtain ⟨hlen, hr⟩ := hq.rest
    unfold pageOf
    rw [(h.below h.links is).2.2 (h.below_ne hq), h.points, page_under, walk_append h.parent (List.cons_ne_nil _ _),
      page_under, h.pages is hlen hr]
  · unfold pageOf
    rw [(h.apart hq.lower hq.length.le hb).2.1]

theorem Link.walk_small (h : Link E E' root p₀ i₀ t₀ f) (hq : PagePath q) {l : Leaf}
    (hw : walk E root q = some l) (hl : l.rest = []) : walk E' root q = some l := by
  by_cases hb : p₀ ++ [i₀] <+: q
  · obtain ⟨is, rfl⟩ := below_cases hb
    rw [walk_append h.parent (List.cons_ne_nil _ _)] at hw
    obtain ⟨l', hw', rfl⟩ := Option.map_eq_some_iff.mp hw
    cases hpr : present (E t₀ i₀) with
    | false =>
      rw [walk_cons_absent hpr] at hw'
      cases hw'
    | true =>
      rw [walk_cons_leaf hpr (Or.inr (h.huge_of_present hpr))] at hw'
      cases hw'
      exact absurd hl (h.below_ne hq)
  · rw [(h.apart hq.lower hq.length.le hb).2.1]
    exact hw

theorem Link.userClosed (h : Link E E' root p₀ i₀ t₀ f) (hu : UserClosed E root)
    (hk : ∀ j < 512, user (E' f j) = false) : UserClosed E' root := by
  refine ⟨?_, ?_⟩
  · intro p t i hs hlen ht hh
    rcases h.slot_cases hs ht with ⟨rfl, rfl⟩ | ⟨hold, -, ⟨rfl, rfl, rfl⟩ | he⟩
    · exact hk i hs.lt
    · rw [(isLink_iff.mp h.links).2] at hh
      cases hh
    · rw [he] at hh ⊢
      exact hu.large hs hlen hold hh
  · intro p t i hs hlen ht hpr husr
    rcases h.slot_cases hs ht with ⟨rfl, rfl⟩ | ⟨hold, hup, ⟨rfl, rfl, rfl⟩ | he⟩
    · rw [hk i hs.lt] at husr
      cases husr
    · exact absurd h.level (by omega)
    · rw [he] at hpr husr
      rw [hup]
      exact hu.small hs hlen hold hpr husr

theorem any_under_false {o : Option Leaf} {b : Bool} (h : ∀ l, o = some l → l.user = false) :
    (o.map (Leaf.under b)).any Leaf.user = false := by
  rw [any_under]
  cases o with
  | none => exact Bool.and_false b
  | some l =>
    rw [Option.any_some, h l rfl, Bool.and_false]

theorem Link.accessible_eq (h : Link E E' root p₀ i₀ t₀ f) (hu : UserClosed E root)
    (hk : ∀ j < 512, user (E' f j) = false) (hq : PagePath q) :
    accessible E' root q = accessible E root q := by
  by_cases hb : p₀ ++ [i₀] <+: q
  · obtain ⟨is, rfl⟩ := below_cases hb
    obtain ⟨hlen, hr⟩ := hq.rest
    unfold accessible
    rw [(h.below h.links is).2.2 (h.below_ne hq), h.points, walk_append h.parent (List.cons_ne_nil _ _),
      any_under_false, any_under_false]
    · intro l hw
      cases hpr : present (E t₀ i₀) with
      | false =>
        rw [walk_cons_absent hpr] at hw
        cases hw
      | true =>
        have hh := h.huge_of_present hpr
        rw [walk_cons_leaf hpr (Or.inr hh)] at hw
        cases hw
        exact hu.large h.slot h.level h.parent hh
    · intro l hw
      obtain ⟨j, hj, hl⟩ := h.leaf hlen hr hw
      rw [hl, hk j hj]
  · unfold accessible
    rw [(h.apart hq.lower hq.length.le hb).2.1]

theorem Link.userPath_eq (h : Link E E' root p₀ i₀ t₀ f) (hm : user (E' t₀ i₀) = true) :
    userPath E' root (p₀ ++ [i₀]) = userPath E root p₀ := by
  rw [(h.below h.links []).2.1, hm, Bool.and_true]
  exact Bool.and_true _

/-- A link whose user bit is set, with nothing else changed. -/
structure Mark (E E' : Entries) (root : Nat) (p₀ : List Nat) (i₀ t₀ : Nat) : Prop
    extends Edit E E' root p₀ i₀ t₀ where
  level : p₀.length < 3
  links : isLink (E t₀ i₀) = true
  links' : isLink (E' t₀ i₀) = true
  points : target (E' t₀ i₀) = target (E t₀ i₀)
  low : (E' t₀ i₀).toNat < 2 ^ 30
  marked : user (E' t₀ i₀) = true

theorem Mark.behind (h : Mark E E' root p₀ i₀ t₀) {is : List Nat} (hq : Lower (p₀ ++ i₀ :: is))
    (hlen : (p₀ ++ i₀ :: is).length ≤ 4) :
    descend E' (target (E t₀ i₀)) is = descend E (target (E t₀ i₀)) is ∧
      walk E' (target (E t₀ i₀)) is = walk E (target (E t₀ i₀)) is ∧
      userPath E' (target (E t₀ i₀)) is = userPath E (target (E t₀ i₀)) is := by
  have hassoc : p₀ ++ [i₀] ++ is = p₀ ++ i₀ :: is := by simp
  refine h.agree.below (p := p₀ ++ [i₀]) ?_ (hassoc ▸ hq) (hassoc ▸ hlen) fun r i hr _ hX => ?_
  · rw [descend_snoc h.parent, if_pos h.links]
  · exact not_below_self (hX.1 ▸ hr)

theorem Mark.descend_eq (h : Mark E E' root p₀ i₀ t₀) (hq : TablePath q) :
    descend E' root q = descend E root q := by
  by_cases hb : p₀ ++ [i₀] <+: q
  · obtain ⟨is, rfl⟩ := below_cases hb
    rw [(h.below h.links' is).1, h.points, (h.behind hq.lower (by have := hq.length; omega)).1,
      descend_append, h.parent, Option.bind_some, descend, if_pos h.links]
  · exact (h.apart hq.lower (by have := hq.length; omega) hb).1

theorem Mark.slot_cases (h : Mark E E' root p₀ i₀ t₀) (hs : Slot p i) (ht : descend E' root p = some t) :
    descend E root p = some t ∧ (p = p₀ ∧ i = i₀ ∧ t = t₀ ∨ E' t i = E t i) := by
  rw [h.descend_eq hs.tablePath] at ht
  refine ⟨ht, ?_⟩
  by_cases hX : p = p₀ ∧ i = i₀
  · obtain ⟨rfl, rfl⟩ := hX
    rw [h.parent] at ht
    cases ht
    exact Or.inl ⟨rfl, rfl, rfl⟩
  · exact Or.inr (h.agree p t i hs hX ht)

theorem Mark.wellFormed (h : Mark E E' root p₀ i₀ t₀) (hwf : WellFormed E root) : WellFormed E' root := by
  refine ⟨hwf.root_aligned, hwf.root_low, ?_, ?_, ?_, ?_⟩
  · intro p q t hp hq hpt hqt
    rw [h.descend_eq hp] at hpt
    rw [h.descend_eq hq] at hqt
    exact hwf.tree hp hq hpt hqt
  · intro p t i hs hlen ht hpr
    obtain ⟨hold, ⟨rfl, rfl, rfl⟩ | he⟩ := h.slot_cases hs ht
    · rw [(isLink_iff.mp h.links').1] at hpr
      cases hpr
    · rw [he] at hpr ⊢
      exact hwf.absent hs hlen hold hpr
  · intro p t i hs hlen ht hl
    obtain ⟨hold, ⟨rfl, rfl, rfl⟩ | he⟩ := h.slot_cases hs ht
    · exact h.low
    · rw [he] at hl ⊢
      exact hwf.low hs hlen hold hl
  · intro i hs
    obtain ⟨-, ⟨rfl, rfl, rfl⟩ | he⟩ := h.slot_cases hs (rfl : descend E' root [] = some root)
    · exact (isLink_iff.mp h.links').2
    · rw [he]
      exact hwf.top hs

theorem Mark.userPath_mono (h : Mark E E' root p₀ i₀ t₀) (hq : TablePath q)
    (hu : userPath E root q = true) : userPath E' root q = true := by
  by_cases hb : p₀ ++ [i₀] <+: q
  · obtain ⟨is, rfl⟩ := below_cases hb
    rw [userPath_append h.parent, userPath, h.links, Bool.true_and, Bool.and_eq_true, Bool.and_eq_true] at hu
    rw [(h.below h.links' is).2.1, h.points, h.marked, hu.1,
      (h.behind hq.lower (by have := hq.length; omega)).2.2, hu.2.2]
    rfl
  · rw [(h.apart hq.lower (by have := hq.length; omega) hb).2.2]
    exact hu

theorem Mark.userClosed (h : Mark E E' root p₀ i₀ t₀) (hu : UserClosed E root) : UserClosed E' root := by
  refine ⟨?_, ?_⟩
  · intro p t i hs hlen ht hh
    obtain ⟨hold, ⟨rfl, rfl, rfl⟩ | he⟩ := h.slot_cases hs ht
    · rw [(isLink_iff.mp h.links').2] at hh
      cases hh
    · rw [he] at hh ⊢
      exact hu.large hs hlen hold hh
  · intro p t i hs hlen ht hpr husr
    obtain ⟨hold, ⟨rfl, rfl, rfl⟩ | he⟩ := h.slot_cases hs ht
    · exact absurd h.level (by omega)
    · rw [he] at hpr husr
      exact h.userPath_mono hs.tablePath (hu.small hs hlen hold hpr husr)

theorem Mark.walk_eq (h : Mark E E' root p₀ i₀ t₀) {is : List Nat} (hq : PagePath (p₀ ++ i₀ :: is)) :
    walk E' root (p₀ ++ i₀ :: is) =
        (walk E (target (E t₀ i₀)) is).map (Leaf.under (userPath E root p₀)) ∧
      walk E root (p₀ ++ i₀ :: is) =
        (walk E (target (E t₀ i₀)) is).map (Leaf.under (userPath E root p₀ && user (E t₀ i₀))) := by
  have hlev := h.level
  have hne : is ≠ [] := fun h0 => by
    have hlen := hq.rest.1
    rw [h0, List.length_nil] at hlen
    omega
  refine ⟨?_, ?_⟩
  · rw [(h.below h.links' is).2.2 hne, h.points, (h.behind hq.lower hq.length.le).2.1, h.marked, Bool.and_true]
  · rw [walk_append h.parent (List.cons_ne_nil _ _), walk_cons_link h.links hne, Option.map_map]
    congr 1
    funext l
    exact under_under _ _ _

theorem Mark.pageOf_eq (h : Mark E E' root p₀ i₀ t₀) (hq : PagePath q) :
    pageOf E' root q = pageOf E root q := by
  unfold pageOf
  by_cases hb : p₀ ++ [i₀] <+: q
  · obtain ⟨is, rfl⟩ := below_cases hb
    rw [(h.walk_eq hq).1, (h.walk_eq hq).2, page_under, page_under]
  · rw [(h.apart hq.lower hq.length.le hb).2.1]

theorem Mark.walk_user (h : Mark E E' root p₀ i₀ t₀) (hq : PagePath q) {l : Leaf}
    (hw : walk E root q = some l) (hl : l.user = true) : walk E' root q = some l := by
  by_cases hb : p₀ ++ [i₀] <+: q
  · obtain ⟨is, rfl⟩ := below_cases hb
    obtain ⟨hnew, hold⟩ := h.walk_eq hq
    rw [hw] at hold
    obtain ⟨l', hw', rfl⟩ := Option.map_eq_some_iff.mp hold.symm
    have hway : (userPath E root p₀ && user (E t₀ i₀)) = true := (Bool.and_eq_true_iff.mp hl).1
    rw [hnew, hw', hway, (Bool.and_eq_true_iff.mp hway).1]
    rfl
  · rw [(h.apart hq.lower hq.length.le hb).2.1]
    exact hw

theorem walk_leaf {is : List Nat} {l : Leaf} (hw : walk E t is = some l) :
    ∃ p i t', is = p ++ i :: l.rest ∧ descend E t p = some t' ∧ l.entry = E t' i ∧ present (E t' i) = true ∧
      (l.rest = [] ∨ huge (E t' i) = true) ∧ l.user = (userPath E t p && user (E t' i)) := by
  induction is generalizing t l with
  | nil => cases hw
  | cons i is ih =>
    cases hpr : present (E t i) with
    | false =>
      rw [walk_cons_absent hpr] at hw
      cases hw
    | true =>
      by_cases hl : is = [] ∨ huge (E t i) = true
      · rw [walk_cons_leaf hpr hl] at hw
        cases hw
        exact ⟨[], i, t, rfl, rfl, rfl, hpr, hl, rfl⟩
      · rw [not_or, Bool.not_eq_true] at hl
        have hlink := isLink_iff.mpr ⟨hpr, hl.2⟩
        rw [walk_cons_link hlink hl.1] at hw
        obtain ⟨l', hw', rfl⟩ := Option.map_eq_some_iff.mp hw
        obtain ⟨p, j, t', rfl, hd, he, hp, hlf, hu⟩ := ih hw'
        refine ⟨i :: p, j, t', rfl, ?_, he, hp, hlf, ?_⟩
        · rw [descend, if_pos hlink, hd]
        · show (user (E t i) && l'.user) = _
          rw [hu, userPath, hlink, Bool.true_and, Bool.and_assoc]

theorem UserClosed.userPath (hu : UserClosed E root) (hq : PagePath q) {l : Leaf}
    (hw : walk E root q = some l) (hl : user l.entry = true) (hb : p₀ ++ [i₀] <+: q)
    (hlev : p₀.length < 3) (ht : descend E root p₀ = some t₀) (hlink : isLink (E t₀ i₀) = true) :
    (PageTable.userPath E root p₀ && user (E t₀ i₀)) = true := by
  obtain ⟨p, i, t', rfl, hd, he, hpr, hlf, -⟩ := walk_leaf hw
  have hlen := hq.length
  rw [List.length_append, List.length_cons] at hlen
  have hslot : Slot p i := ⟨hq.lower.mono ⟨l.rest, by simp⟩, by omega⟩
  rw [he] at hl
  have h3 : p.length = 3 := by
    rcases hlf with h0 | hh
    · rw [h0, List.length_nil] at hlen
      omega
    · by_contra h3
      rw [hu.large hslot (by omega) hd hh] at hl
      cases hl
  have hpath := hu.small hslot h3 hd hpr hl
  have hpre : p₀ ++ [i₀] <+: p := by
    refine List.prefix_of_prefix_length_le hb (List.prefix_append p _) ?_
    rw [List.length_append, List.length_singleton]
    omega
  obtain ⟨r, rfl⟩ := below_cases hpre
  rw [userPath_append ht, PageTable.userPath, hlink, Bool.true_and, ← Bool.and_assoc] at hpath
  exact (Bool.and_eq_true_iff.mp hpath).1

theorem Mark.accessible_eq (h : Mark E E' root p₀ i₀ t₀) (hu : UserClosed E root) (hq : PagePath q) :
    accessible E' root q = accessible E root q := by
  unfold accessible
  by_cases hb : p₀ ++ [i₀] <+: q
  · obtain ⟨is, rfl⟩ := below_cases hb
    obtain ⟨hnew, hold⟩ := h.walk_eq hq
    rw [hnew, hold]
    cases hw : walk E (target (E t₀ i₀)) is with
    | none => rfl
    | some l =>
      rw [hw] at hold
      show (userPath E root p₀ && l.user) = (userPath E root p₀ && user (E t₀ i₀) && l.user)
      -- access could only be gained by a leaf that allows it, and that already has the way open
      cases hl : l.user with
      | false => rw [Bool.and_false, Bool.and_false]
      | true =>
        obtain ⟨p, i, t', -, -, he, -, -, huser⟩ := walk_leaf hw
        rw [hl] at huser
        have hle : user l.entry = true := by
          rw [he]
          exact (Bool.and_eq_true_iff.mp huser.symm).2
        have hway := hu.userPath hq hold hle hb h.level h.parent h.links
        rw [hway, (Bool.and_eq_true_iff.mp hway).1]
  · rw [(h.apart hq.lower hq.length.le hb).2.1]

theorem Mark.userPath_eq (h : Mark E E' root p₀ i₀ t₀) :
    userPath E' root (p₀ ++ [i₀]) = userPath E root p₀ := by
  rw [(h.below h.links' []).2.1, h.marked, Bool.and_true]
  exact Bool.and_true _

/-! ## Setting one page -/

section SetPage

variable (h : Edit E E' root p₀ i₀ t₀) (hlev : p₀.length = 3)

include h hlev

theorem Edit.descend_of_page (hq : TablePath q) : descend E' root q = descend E root q ∧
    userPath E' root q = userPath E root q := by
  have hn : ¬p₀ ++ [i₀] <+: q := fun hb => by
    have hle := hb.length_le
    have hlen := hq.length
    rw [List.length_append, List.length_singleton] at hle
    omega
  obtain ⟨h1, -, h3⟩ := h.apart hq.lower (by have := hq.length; omega) hn
  exact ⟨h1, h3⟩

theorem Edit.slot_of_page (hs : Slot p i) (ht : descend E' root p = some t) :
    descend E root p = some t ∧ (p = p₀ ∧ i = i₀ ∧ t = t₀ ∨ E' t i = E t i) := by
  rw [(h.descend_of_page hlev hs.tablePath).1] at ht
  refine ⟨ht, ?_⟩
  by_cases hX : p = p₀ ∧ i = i₀
  · obtain ⟨rfl, rfl⟩ := hX
    rw [h.parent] at ht
    cases ht
    exact Or.inl ⟨rfl, rfl, rfl⟩
  · exact Or.inr (h.agree p t i hs hX ht)

theorem Edit.wellFormed_of_page (hwf : WellFormed E root) : WellFormed E' root := by
  refine ⟨hwf.root_aligned, hwf.root_low, ?_, ?_, ?_, ?_⟩
  · intro p q t hp hq hpt hqt
    rw [(h.descend_of_page hlev hp).1] at hpt
    rw [(h.descend_of_page hlev hq).1] at hqt
    exact hwf.tree hp hq hpt hqt
  · intro p t i hs hlen ht hpr
    obtain ⟨hold, ⟨rfl, rfl, rfl⟩ | he⟩ := h.slot_of_page hlev hs ht
    · omega
    · rw [he] at hpr ⊢
      exact hwf.absent hs hlen hold hpr
  · intro p t i hs hlen ht hl
    obtain ⟨hold, ⟨rfl, rfl, rfl⟩ | he⟩ := h.slot_of_page hlev hs ht
    · omega
    · rw [he] at hl ⊢
      exact hwf.low hs hlen hold hl
  · intro i hs
    obtain ⟨-, ⟨rfl, rfl, rfl⟩ | he⟩ := h.slot_of_page hlev hs (rfl : descend E' root [] = some root)
    · cases hlev
    · rw [he]
      exact hwf.top hs

theorem Edit.userClosed_of_page (hu : UserClosed E root)
    (hk : user (E' t₀ i₀) = true → userPath E root p₀ = true) : UserClosed E' root := by
  refine ⟨?_, ?_⟩
  · intro p t i hs hlen ht hh
    obtain ⟨hold, ⟨rfl, rfl, rfl⟩ | he⟩ := h.slot_of_page hlev hs ht
    · omega
    · rw [he] at hh ⊢
      exact hu.large hs hlen hold hh
  · intro p t i hs hlen ht hpr husr
    rw [(h.descend_of_page hlev hs.tablePath).2]
    obtain ⟨hold, ⟨rfl, rfl, rfl⟩ | he⟩ := h.slot_of_page hlev hs ht
    · exact hk husr
    · rw [he] at hpr husr
      exact hu.small hs hlen hold hpr husr

theorem Edit.walk_of_page (hq : PagePath q) (hne : q ≠ p₀ ++ [i₀]) : walk E' root q = walk E root q := by
  refine (h.apart hq.lower hq.length.le fun hb => hne ?_).2.1
  refine (hb.eq_of_length ?_).symm
  rw [List.length_append, List.length_singleton, hlev, hq.length]

omit hlev in
theorem Edit.walk_at_page (hpr : present (E' t₀ i₀) = true) :
    walk E' root (p₀ ++ [i₀]) = some ⟨E' t₀ i₀, [], userPath E root p₀ && user (E' t₀ i₀)⟩ := by
  obtain ⟨hd, hu⟩ := h.parent'
  rw [walk_append hd (List.cons_ne_nil _ _), walk_cons_leaf hpr (Or.inl rfl), hu]
  rfl

omit hlev in
theorem Edit.walk_at_absent (hpr : present (E' t₀ i₀) = false) : walk E' root (p₀ ++ [i₀]) = none := by
  obtain ⟨hd, -⟩ := h.parent'
  rw [walk_append hd (List.cons_ne_nil _ _), walk_cons_absent hpr]
  rfl

end SetPage

end PageTable
