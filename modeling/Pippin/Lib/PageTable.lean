import Mathlib.Data.List.Basic
import Mathlib.Data.List.Infix
import Pippin.Lib.Words

/-! Four-level page tables. `E t i` is entry `i` of the table at address `t`; a path is a
list of entry indices from the root. Tables are reached by `descend`, pages by `walk`,
and two sets of entries are compared slot by slot, a slot being the path of its table
and its index. -/

namespace PageTable

abbrev Entries := Nat → Nat → UInt64

def present (e : UInt64) : Bool := e &&& 1 != 0
def user (e : UInt64) : Bool := e &&& 4 != 0
def huge (e : UInt64) : Bool := e &&& 128 != 0

def frameNumber (e : UInt64) : Nat := e.toNat % 2 ^ 52 / 4096

def target (e : UInt64) : Nat := frameNumber e * 4096

theorem present_eq (e : UInt64) : present e = e.toNat.testBit 0 :=
  Word.bne_and_bit (k := 0) (by decide)

theorem user_eq (e : UInt64) : user e = e.toNat.testBit 2 :=
  Word.bne_and_bit (k := 2) (by decide)

theorem huge_eq (e : UInt64) : huge e = e.toNat.testBit 7 :=
  Word.bne_and_bit (k := 7) (by decide)

theorem flags_or {a c : UInt64} (ha : a.toNat % 4096 = 0) :
    present (a ||| c) = present c ∧ user (a ||| c) = user c ∧ huge (a ||| c) = huge c := by
  simp only [present_eq, user_eq, huge_eq]
  exact ⟨Word.testBit_or_aligned (n := 12) ha (by decide), Word.testBit_or_aligned (n := 12) ha (by decide),
    Word.testBit_or_aligned (n := 12) ha (by decide)⟩

theorem frameNumber_or {a c : UInt64} (hc : c.toNat < 4096) : frameNumber (a ||| c) = frameNumber a := by
  have h := Word.toNat_or_div (a := a) (k := 12) hc
  unfold frameNumber
  omega

/-- Where a walk ends: the entry, the indices it leaves over (of a large page), and
whether all entries on the way allow user access. -/
structure Leaf where
  entry : UInt64
  rest : List Nat
  user : Bool

def offset (is : List Nat) : Nat := is.foldl (fun a i => a * 512 + i) 0

def Leaf.page (l : Leaf) : Nat :=
  frameNumber l.entry / 512 ^ l.rest.length * 512 ^ l.rest.length + offset l.rest

def Leaf.under (b : Bool) (l : Leaf) : Leaf := { l with user := b && l.user }

def isLink (e : UInt64) : Bool := present e && !huge e

def descend (E : Entries) (t : Nat) : List Nat → Option Nat
  | [] => some t
  | i :: p => if isLink (E t i) then descend E (target (E t i)) p else none

def walk (E : Entries) (t : Nat) : List Nat → Option Leaf
  | [] => none
  | i :: is =>
    if !present (E t i) then none
    else if is.isEmpty || huge (E t i) then some ⟨E t i, is, user (E t i)⟩
    else (walk E (target (E t i)) is).map (Leaf.under (user (E t i)))

def userPath (E : Entries) (t : Nat) : List Nat → Bool
  | [] => true
  | i :: p => isLink (E t i) && user (E t i) && userPath E (target (E t i)) p

def pageOf (E : Entries) (root : Nat) (q : List Nat) : Option Nat := (walk E root q).map Leaf.page

def accessible (E : Entries) (root : Nat) (q : List Nat) : Bool := (walk E root q).any Leaf.user

/-- Indices in range, the first one in the lower half. -/
def Lower (q : List Nat) : Prop := (∀ i ∈ q, i < 512) ∧ ∀ i ∈ q.head?, i < 256

def Slot (p : List Nat) (i : Nat) : Prop := Lower (p ++ [i]) ∧ p.length ≤ 3

structure TablePath (p : List Nat) : Prop where
  lower : Lower p
  length : p.length ≤ 3

structure PagePath (q : List Nat) : Prop where
  lower : Lower q
  length : q.length = 4

variable {E E' : Entries} {root t : Nat} {p q r : List Nat} {i : Nat}

theorem Lower.mono (h : Lower q) (hp : p <+: q) : Lower p := by
  obtain ⟨r, rfl⟩ := hp
  refine ⟨fun i hi => h.1 i (List.mem_append_left r hi), fun i hi => h.2 i ?_⟩
  cases p with
  | nil => cases hi
  | cons j p => exact hi

theorem Slot.tablePath (h : Slot p i) : TablePath p := ⟨h.1.mono (List.prefix_append p [i]), h.2⟩

theorem Slot.lt (h : Slot p i) : i < 512 := h.1.1 i (List.mem_append_right p List.mem_cons_self)

theorem descend_append (E : Entries) (t : Nat) (p q : List Nat) :
    descend E t (p ++ q) = (descend E t p).bind fun t' => descend E t' q := by
  induction p generalizing t with
  | nil => rfl
  | cons i p ih =>
    rw [List.cons_append, descend, descend]
    split_ifs
    · exact ih _
    · rfl

theorem descend_snoc (h : descend E root p = some t) :
    descend E root (p ++ [i]) = if isLink (E t i) then some (target (E t i)) else none := by
  rw [descend_append, h]
  rfl

theorem userPath_append (h : descend E root p = some t) :
    userPath E root (p ++ q) = (userPath E root p && userPath E t q) := by
  induction p generalizing root with
  | nil =>
    cases h
    rfl
  | cons i p ih =>
    rw [descend] at h
    split_ifs at h with hl
    rw [List.cons_append, userPath, userPath, ih h, ← Bool.and_assoc]

theorem under_under (a b : Bool) (l : Leaf) : (l.under b).under a = l.under (a && b) := by
  simp only [Leaf.under, Bool.and_assoc]

theorem isLink_iff {e : UInt64} : isLink e = true ↔ present e = true ∧ huge e = false := by
  simp [isLink]

theorem walk_cons_link {is : List Nat} (h : isLink (E t i) = true) (hne : is ≠ []) :
    walk E t (i :: is) = (walk E (target (E t i)) is).map (Leaf.under (user (E t i))) := by
  obtain ⟨hp, hh⟩ := isLink_iff.mp h
  rw [walk, hp, hh, List.isEmpty_eq_false_iff.mpr hne]
  rfl

theorem walk_cons_absent {is : List Nat} (h : present (E t i) = false) : walk E t (i :: is) = none := by
  rw [walk, h]
  rfl

theorem walk_cons_leaf {is : List Nat} (h : present (E t i) = true) (hl : is = [] ∨ huge (E t i) = true) :
    walk E t (i :: is) = some ⟨E t i, is, user (E t i)⟩ := by
  have hb : (is.isEmpty || huge (E t i)) = true := by
    rcases hl with rfl | hl
    · rfl
    · rw [hl, Bool.or_true]
  rw [walk, h, hb]
  rfl

theorem any_under (b : Bool) (o : Option Leaf) : (o.map (Leaf.under b)).any Leaf.user = (b && o.any Leaf.user) := by
  cases o with
  | none => simp
  | some l => rfl

theorem any_walk_cons (is : List Nat) : (walk E t (i :: is)).any Leaf.user =
    (present (E t i) && user (E t i) &&
      (is.isEmpty || huge (E t i) || (walk E (target (E t i)) is).any Leaf.user)) := by
  rw [walk]
  cases present (E t i) with
  | false => rfl
  | true =>
    cases hleaf : is.isEmpty || huge (E t i) with
    | true => simp
    | false => simp [any_under]
theorem walk_append (h : descend E root p = some t) (hq : q ≠ []) :
    walk E root (p ++ q) = (walk E t q).map (Leaf.under (userPath E root p)) := by
  induction p generalizing root with
  | nil =>
    cases h
    show walk E t q = (walk E t q).map (Leaf.under true)
    have hid : Leaf.under true = id := by
      funext l
      rfl
    rw [hid, Option.map_id]
    rfl
  | cons i p ih =>
    rw [descend] at h
    split_ifs at h with hl
    rw [List.cons_append, walk_cons_link hl (by simp [hq]), ih h, Option.map_map]
    congr 1
    funext l
    rw [Function.comp, under_under, userPath, hl, Bool.true_and]

theorem offset_lt {is : List Nat} (h : ∀ i ∈ is, i < 512) : offset is < 512 ^ is.length := by
  have hgen : ∀ (is : List Nat) (a : Nat), (∀ i ∈ is, i < 512) →
      is.foldl (fun a i => a * 512 + i) a < (a + 1) * 512 ^ is.length := by
    intro is
    induction is with
    | nil =>
      intro a _
      simp
    | cons i is ih =>
      intro a hi
      have h1 := hi i List.mem_cons_self
      have h2 := ih (a * 512 + i) fun j hj => hi j (List.mem_cons_of_mem i hj)
      refine h2.trans_le ?_
      rw [List.length_cons, pow_succ', ← Nat.mul_assoc]
      exact Nat.mul_le_mul_right _ (by omega)
  rw [← Nat.one_mul (512 ^ is.length)]
  exact hgen is 0 h

theorem walk_rest {l : Leaf} (h : walk E t q = some l) : l.rest.length < q.length ∧ ∀ i ∈ l.rest, i ∈ q := by
  induction q generalizing t l with
  | nil => cases h
  | cons i q ih =>
    rw [walk] at h
    split_ifs at h
    · cases h
      exact ⟨Nat.lt_succ_self _, fun j hj => List.mem_cons_of_mem i hj⟩
    · obtain ⟨l', hl', rfl⟩ := Option.map_eq_some_iff.mp h
      obtain ⟨h1, h2⟩ := ih hl'
      exact ⟨Nat.lt_succ_of_lt h1, fun j hj => List.mem_cons_of_mem i (h2 j hj)⟩

/-- When a table is lost to an entry `v` that leads to an empty frame, a walk that ended
on a large page ends there still or finds nothing. -/
theorem walk_lost {v : UInt64} {l : Leaf} (hv : isLink v = true) (hz : ∀ i < 512, E' (target v) i = 0)
    (hE : ∀ t i, t % 4096 = 0 → i < 512 → E' t i = E t i ∨ E' t i = v) (hq : ∀ i ∈ q, i < 512)
    (ht : t % 4096 = 0) (hw : walk E t q = some l) (hl : l.rest ≠ []) :
    walk E' t q = some l ∨ walk E' t q = none := by
  induction q generalizing t l with
  | nil => cases hw
  | cons i is ih =>
    have hne : is ≠ [] := by
      rintro rfl
      exact hl (List.length_eq_zero_iff.mp (by have := (walk_rest hw).1; simpa using this))
    rcases hE t i ht (hq i List.mem_cons_self) with he | he
    · rw [walk, he]
      rw [walk] at hw
      split_ifs at hw with h1 h2
      · rw [if_neg h1, if_pos h2]
        exact Or.inl hw
      · rw [if_neg h1, if_neg h2]
        obtain ⟨l', hl', rfl⟩ := Option.map_eq_some_iff.mp hw
        have hal : target (E t i) % 4096 = 0 := Nat.mul_mod_left _ _
        rcases ih (fun j hj => hq j (List.mem_cons_of_mem i hj)) hal hl' hl with h | h
        · rw [h]
          exact Or.inl rfl
        · rw [h]
          exact Or.inr rfl
    · right
      rw [walk_cons_link (by rw [he]; exact hv) hne, he]
      cases is with
      | nil => exact absurd rfl hne
      | cons j js =>
        rw [walk_cons_absent, Option.map_none]
        rw [hz j (hq j (List.mem_cons_of_mem i List.mem_cons_self))]
        rfl

/-! ## Comparing two sets of entries -/

/-- The same entries in every slot of a lower-half table, but for those in `X`. -/
def Agree (X : List Nat → Nat → Prop) (E E' : Entries) (root : Nat) : Prop :=
  ∀ p t i, Slot p i → ¬X p i → descend E root p = some t → E' t i = E t i

theorem Agree.below {X : List Nat → Nat → Prop} (h : Agree X E E' root) (hp : descend E root p = some t)
    (hq : Lower (p ++ q)) (hlen : (p ++ q).length ≤ 4)
    (hX : ∀ r i, p <+: r → r ++ [i] <+: p ++ q → ¬X r i) :
    descend E' t q = descend E t q ∧ walk E' t q = walk E t q ∧ userPath E' t q = userPath E t q := by
  induction q generalizing p t with
  | nil => exact ⟨rfl, rfl, rfl⟩
  | cons i q ih =>
    have hpre : p ++ [i] <+: p ++ i :: q := ⟨q, by simp⟩
    have hslot : Slot p i := by
      refine ⟨hq.mono hpre, ?_⟩
      simp only [List.length_append, List.length_cons] at hlen
      omega
    have he : E' t i = E t i := h p t i hslot (hX p i (List.prefix_refl p) hpre) hp
    have hassoc : p ++ [i] ++ q = p ++ i :: q := by simp
    rw [descend, descend, userPath, userPath, walk, walk, he]
    by_cases hl : isLink (E t i) = true
    · obtain ⟨h1, h2, h3⟩ := ih (p := p ++ [i]) (t := target (E t i)) (by rw [descend_snoc hp, if_pos hl])
        (hassoc ▸ hq) (hassoc ▸ hlen)
        fun r j hr hrj => hX r j ((List.prefix_append p [i]).trans hr) (hassoc ▸ hrj)
      rw [h1, h2, h3]
      exact ⟨rfl, rfl, rfl⟩
    · refine ⟨by rw [if_neg hl, if_neg hl], ?_, by simp [hl]⟩
      cases hpr : present (E t i) with
      | false => rfl
      | true =>
        have hh : huge (E t i) = true := by
          cases hh : huge (E t i) with
          | true => rfl
          | false => exact absurd (isLink_iff.mpr ⟨hpr, hh⟩) hl
        rw [hh, Bool.or_true]
        rfl

/-! ## Well-formed tables -/

/-- The lower-half tables form a tree of aligned frames below 1 GiB; absent entries are
zero and the top level has no large pages. -/
structure WellFormed (E : Entries) (root : Nat) : Prop where
  root_aligned : root % 4096 = 0
  root_low : root < 2 ^ 30
  tree : ∀ {p q t}, TablePath p → TablePath q → descend E root p = some t → descend E root q = some t → p = q
  absent : ∀ {p t i}, Slot p i → p.length < 3 → descend E root p = some t → present (E t i) = false → E t i = 0
  low : ∀ {p t i}, Slot p i → p.length < 3 → descend E root p = some t → isLink (E t i) = true →
    (E t i).toNat < 2 ^ 30
  top : ∀ {i}, Slot [] i → huge (E root i) = false

/-- User access is decided by the leaf: large pages do not allow it, and a page that
does is reached through entries that do. -/
structure UserClosed (E : Entries) (root : Nat) : Prop where
  large : ∀ {p t i}, Slot p i → p.length < 3 → descend E root p = some t → huge (E t i) = true →
    user (E t i) = false
  small : ∀ {p t i}, Slot p i → p.length = 3 → descend E root p = some t → present (E t i) = true →
    user (E t i) = true → userPath E root p = true

theorem target_of_lt {e : UInt64} (h : e.toNat < 2 ^ 30) : target e = e.toNat / 4096 * 4096 := by
  unfold target frameNumber
  omega

theorem WellFormed.present_of_huge (h : WellFormed E root) (hs : Slot p i) (hlev : p.length < 3)
    (hd : descend E root p = some t) (hh : huge (E t i) = true) : present (E t i) = true := by
  cases hpr : present (E t i) with
  | true => rfl
  | false =>
    rw [h.absent hs hlev hd hpr] at hh
    cases hh

theorem WellFormed.table_aligned (h : WellFormed E root) (hp : TablePath p) (ht : descend E root p = some t) :
    t % 4096 = 0 ∧ t < 2 ^ 30 := by
  rcases List.eq_nil_or_concat p with rfl | ⟨p', i, rfl⟩
  · cases ht
    exact ⟨h.root_aligned, h.root_low⟩
  · rw [List.concat_eq_append] at *
    rw [descend_append] at ht
    obtain ⟨t', ht', ht⟩ := Option.bind_eq_some_iff.mp ht
    rw [descend] at ht
    split_ifs at ht with hl
    have hlen := hp.length
    rw [List.length_append, List.length_singleton] at hlen
    have hlow := h.low ⟨hp.lower, by omega⟩ (by omega) ht' hl
    cases ht
    rw [target_of_lt hlow]
    omega

theorem Agree.same (h : Agree (fun _ _ => False) E E' root) (hq : Lower q) (hlen : q.length ≤ 4) :
    descend E' root q = descend E root q ∧ walk E' root q = walk E root q ∧
      userPath E' root q = userPath E root q :=
  h.below (p := []) rfl hq hlen fun _ _ _ _ => id

theorem Agree.slot (h : Agree (fun _ _ => False) E E' root) (hs : Slot p i) (ht : descend E' root p = some t) :
    descend E root p = some t ∧ E' t i = E t i := by
  have hp := hs.tablePath
  rw [(h.same hp.lower (Nat.le_succ_of_le hp.length)).1] at ht
  exact ⟨ht, h p t i hs id ht⟩

theorem Agree.wellFormed (h : Agree (fun _ _ => False) E E' root) (hw : WellFormed E root) :
    WellFormed E' root where
  root_aligned := hw.root_aligned
  root_low := hw.root_low
  tree := fun hp hq h1 h2 => by
    rw [(h.same hp.lower (Nat.le_succ_of_le hp.length)).1] at h1
    rw [(h.same hq.lower (Nat.le_succ_of_le hq.length)).1] at h2
    exact hw.tree hp hq h1 h2
  absent := fun hs hlev ht hpr => by
    obtain ⟨h1, h2⟩ := h.slot hs ht
    rw [h2] at hpr ⊢
    exact hw.absent hs hlev h1 hpr
  low := fun hs hlev ht hl => by
    obtain ⟨h1, h2⟩ := h.slot hs ht
    rw [h2] at hl ⊢
    exact hw.low hs hlev h1 hl
  top := fun hs => by
    rw [(h.slot hs rfl).2]
    exact hw.top hs

theorem Agree.userClosed (h : Agree (fun _ _ => False) E E' root) (hu : UserClosed E root) :
    UserClosed E' root where
  large := fun hs hlev ht hh => by
    obtain ⟨h1, h2⟩ := h.slot hs ht
    rw [h2] at hh ⊢
    exact hu.large hs hlev h1 hh
  small := fun hs hlev ht hpr husr => by
    obtain ⟨h1, h2⟩ := h.slot hs ht
    have hp := hs.tablePath
    rw [h2] at hpr husr
    rw [(h.same hp.lower (Nat.le_succ_of_le hp.length)).2.2]
    exact hu.small hs hlev h1 hpr husr

/-- Only slot `i₀` of the table `t₀` at path `p₀` changes. -/
structure Edit (E E' : Entries) (root : Nat) (p₀ : List Nat) (i₀ t₀ : Nat) : Prop where
  slot : Slot p₀ i₀
  parent : descend E root p₀ = some t₀
  agree : Agree (fun p i => p = p₀ ∧ i = i₀) E E' root

section Edit

variable {p₀ : List Nat} {i₀ t₀ : Nat}

theorem Edit.apart (h : Edit E E' root p₀ i₀ t₀) (hq : Lower q) (hlen : q.length ≤ 4)
    (hn : ¬p₀ ++ [i₀] <+: q) :
    descend E' root q = descend E root q ∧ walk E' root q = walk E root q ∧
      userPath E' root q = userPath E root q := by
  refine h.agree.below (p := []) rfl hq hlen fun r i _ hr hX => hn ?_
  obtain ⟨rfl, rfl⟩ := hX
  exact hr

theorem not_below_self : ¬p₀ ++ [i₀] <+: p₀ := by
  intro h
  have hlen := h.length_le
  rw [List.length_append, List.length_singleton] at hlen
  omega

theorem Edit.parent' (h : Edit E E' root p₀ i₀ t₀) :
    descend E' root p₀ = some t₀ ∧ userPath E' root p₀ = userPath E root p₀ := by
  have hp := h.slot.tablePath
  obtain ⟨h1, -, h3⟩ := h.apart hp.lower (by have := hp.length; omega) not_below_self
  exact ⟨h1.trans h.parent, h3⟩

theorem Edit.below (h : Edit E E' root p₀ i₀ t₀) (hl : isLink (E' t₀ i₀) = true) (is : List Nat) :
    descend E' root (p₀ ++ i₀ :: is) = descend E' (target (E' t₀ i₀)) is ∧
    userPath E' root (p₀ ++ i₀ :: is) =
      (userPath E root p₀ && user (E' t₀ i₀) && userPath E' (target (E' t₀ i₀)) is) ∧
    (is ≠ [] → walk E' root (p₀ ++ i₀ :: is) =
      (walk E' (target (E' t₀ i₀)) is).map (Leaf.under (userPath E root p₀ && user (E' t₀ i₀)))) := by
  obtain ⟨hd, hu⟩ := h.parent'
  refine ⟨?_, ?_, fun hne => ?_⟩
  · rw [descend_append, hd, Option.bind_some, descend, if_pos hl]
  · rw [userPath_append hd, userPath, hl, hu, Bool.true_and, Bool.and_assoc]
  · rw [walk_append hd (List.cons_ne_nil _ _), walk_cons_link hl hne, Option.map_map, hu]
    congr 1
    funext l
    exact under_under _ _ _

theorem Edit.slot_cases (h : Edit E E' root p₀ i₀ t₀) (hs : Slot p i) (ht : descend E' root p = some t) :
    p₀ ++ [i₀] <+: p ∨ descend E root p = some t ∧ userPath E' root p = userPath E root p ∧
      (p = p₀ ∧ i = i₀ ∧ t = t₀ ∨ E' t i = E t i) := by
  by_cases hb : p₀ ++ [i₀] <+: p
  · exact Or.inl hb
  · have hp := hs.tablePath
    obtain ⟨h1, -, h3⟩ := h.apart hp.lower (by have := hp.length; omega) hb
    rw [h1] at ht
    refine Or.inr ⟨ht, h3, ?_⟩
    by_cases hX : p = p₀ ∧ i = i₀
    · obtain ⟨rfl, rfl⟩ := hX
      rw [h.parent] at ht
      cases ht
      exact Or.inl ⟨rfl, rfl, rfl⟩
    · exact Or.inr (h.agree p t i hs hX ht)

theorem below_cases (h : p₀ ++ [i₀] <+: q) : ∃ is, q = p₀ ++ i₀ :: is := by
  obtain ⟨is, rfl⟩ := h
  exact ⟨is, by simp⟩

end Edit

end PageTable
