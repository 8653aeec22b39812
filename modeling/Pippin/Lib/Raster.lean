import Pippin.Lib.Checked
import Mathlib.Tactic.Ring

/-! Pictures as arrays of colours, row after row. A drawing step stays within a region when it
changes no pixel outside; steps in a row stay within the union, a loop within the region of its
body. -/

namespace Raster
open Checked

variable {α β : Type} {width : Nat}

abbrev Region := Int → Int → Prop

def fillSlice (p : Array α) (i j : Nat) (a : α) : Checked (Array α) :=
  if i ≤ j ∧ j ≤ p.size then .ok (p.mapIdx fun k v => if i ≤ k ∧ k < j then a else v) else .error .index

def fillRows (width : Nat) (p : Array α) (left top right bottom : Nat) (a : α) : Checked (Array α) :=
  (List.range' top (bottom - top)).foldlM (fun p row => fillSlice p (row * width + left) (row * width + right) a) p

structure Within (width : Nat) (R : Region) (p q : Array α) : Prop where
  size : q.size = p.size
  same : ∀ x y : Nat, x < width → ¬R x y → q[y * width + x]? = p[y * width + x]?

structure Fills (width : Nat) (R : Region) (a : α) (p q : Array α) : Prop extends Within width R p q where
  inside : ∀ x y : Nat, x < width → y * width + x < p.size → R x y → q[y * width + x]? = some a

variable {R R' : Region} {p q r : Array α}

theorem Within.refl (p : Array α) : Within width R p p := ⟨rfl, fun _ _ _ _ => rfl⟩

theorem Within.trans (h : Within width R p q) (h' : Within width R q r) : Within width R p r :=
  ⟨h'.size.trans h.size, fun x y hx hout => (h'.same x y hx hout).trans (h.same x y hx hout)⟩

theorem Within.mono (h : Within width R p q) (hR : ∀ x y, R x y → R' x y) : Within width R' p q :=
  ⟨h.size, fun x y hx hout => h.same x y hx fun hin => hout (hR x y hin)⟩

theorem Fills.congr {a : α} (h : Fills width R a p q)
    (hR : ∀ x y : Nat, x < width → y * width + x < p.size → (R x y ↔ R' x y)) :
    Fills width R' a p q := by
  refine ⟨⟨h.size, fun x y hx hout => ?_⟩, fun x y hx hy hin => h.inside x y hx hy ((hR x y hx hy).mpr hin)⟩
  by_cases hy : y * width + x < p.size
  · exact h.same x y hx fun hin => hout ((hR x y hx hy).mp hin)
  · have hsize := h.size
    have hq : q.size ≤ y * width + x := by omega
    have hp : p.size ≤ y * width + x := by omega
    rw [Array.getElem?_eq_none hq, Array.getElem?_eq_none hp]

/-! ## Steps -/

/-- A step on pictures of a size that stays within the region, if it does not fault. -/
def Draws (width size : Nat) (R : Region) (m : Array α → Checked (Array α)) : Prop :=
  ∀ p, p.size = size → Ensures (m p) (Within width R p)

variable {size : Nat}

theorem draws_ok : Draws width size R (fun p : Array α => .ok p) := fun p _ => ensures_ok (.refl p)

theorem Draws.bind {m n : Array α → Checked (Array α)} (hm : Draws width size R m) (hn : Draws width size R n) :
    Draws width size R fun p => m p >>= n := by
  refine fun p hp => ensures_bind fun q hq r hr => ?_
  have hfirst := hm p hp q hq
  exact hfirst.trans (hn q (hfirst.size.trans hp) r hr)

theorem draws_of_value {c : Checked β} {m : β → Array α → Checked (Array α)}
    (h : ∀ b, c = .ok b → Draws width size R (m b)) : Draws width size R fun p => c >>= fun b => m b p :=
  fun p hp => ensures_bind fun b hb => h b hb p hp

theorem Draws.mono {m : Array α → Checked (Array α)} (h : Draws width size R m) (hR : ∀ x y, R x y → R' x y) :
    Draws width size R' m := fun p hp q hq => (h p hp q hq).mono hR

theorem Draws.ite {c : Prop} [Decidable c] {m n : Array α → Checked (Array α)} (hm : Draws width size R m)
    (hn : Draws width size R n) : Draws width size R fun p => if c then m p else n p := by
  intro p hp
  split
  · exact hm p hp
  · exact hn p hp

theorem Draws.foldlM {f : Array α → β → Checked (Array α)} {l : List β}
    (h : ∀ b ∈ l, Draws width size R fun p => f p b) :
    Draws width size R fun p => l.foldlM f p := by
  induction l with
  | nil => exact draws_ok
  | cons b l ih =>
    intro p hp
    show Ensures ((b :: l).foldlM f p) _
    rw [List.foldlM_cons]
    exact (h b List.mem_cons_self).bind (ih fun c hc => h c (List.mem_cons_of_mem b hc)) p hp

/-! ## One pixel -/

def Other (x y : Nat) : Region := fun px py => ¬(px = x ∧ py = y)

/-- A step that leaves a colour at a pixel, if it does not fault. -/
def Puts (width size x y : Nat) (a : α) (m : Array α → Checked (Array α)) : Prop :=
  ∀ p, p.size = size → Ensures (m p) fun q => q.size = size ∧ q[y * width + x]? = some a

section

variable {x y : Nat} {a : α}

theorem Puts.keep {m n : Array α → Checked (Array α)} (hm : Puts width size x y a m) (hn : Draws width size R n)
    (hx : x < width) (hout : ¬R x y) : Puts width size x y a fun p => m p >>= n := by
  refine fun p hp => ensures_bind fun q hq r hr => ?_
  obtain ⟨hsize, hcolor⟩ := hm p hp q hq
  have hwithin := hn q hsize r hr
  exact ⟨hwithin.size.trans hsize, (hwithin.same x y hx hout).trans hcolor⟩

theorem Draws.puts {m n : Array α → Checked (Array α)} (hm : Draws width size R m) (hn : Puts width size x y a n) :
    Puts width size x y a fun p => m p >>= n :=
  fun p hp => ensures_bind fun q hq => hn q ((hm p hp q hq).size.trans hp)

theorem Puts.foldlM {f : Array α → β → Checked (Array α)} {l : List β} {i : Nat} {b : β} (hx : x < width)
    (hb : l[i]? = some b) (hput : Puts width size x y a fun p => f p b)
    (hbefore : ∀ c ∈ l, Draws width size (fun _ _ => True) fun p => f p c)
    (hafter : ∀ j > i, ∀ c, l[j]? = some c → Draws width size (Other x y) fun p => f p c) :
    Puts width size x y a fun p => l.foldlM f p := by
  induction l generalizing i with
  | nil => cases hb
  | cons c l ih =>
    intro p hp
    show Ensures ((c :: l).foldlM f p) _
    rw [List.foldlM_cons]
    cases i with
    | zero =>
      cases hb
      have hrest : Draws width size (Other x y) fun p => l.foldlM f p := Draws.foldlM fun c hc => by
        obtain ⟨j, hj⟩ := List.mem_iff_getElem?.mp hc
        exact hafter (j + 1) (Nat.succ_pos j) c hj
      exact hput.keep hrest hx (fun h => h ⟨rfl, rfl⟩) p hp
    | succ i =>
      refine (hbefore c List.mem_cons_self).puts (ih hb ?_ ?_) p hp
      · exact fun d hd => hbefore d (List.mem_cons_of_mem c hd)
      · exact fun j hj d hd => hafter (j + 1) (Nat.succ_lt_succ hj) d hd

end

/-! ## Steps that follow others -/

/-- Where the second step succeeds so does the first, and the pictures stay related. -/
def Follows {σ τ : Type} (Rel : σ → τ → Prop) (m : σ → Checked σ) (n : τ → Checked τ) : Prop :=
  ∀ p c, Rel p c → ∀ c', n c = .ok c' → Yields (m p) fun q => Rel q c'

section

variable {σ τ : Type} {Rel : σ → τ → Prop}

theorem follows_ok : Follows Rel (fun p => .ok p) (fun c => .ok c) := by
  rintro p c hrel c' ⟨⟩
  exact yields_ok hrel

theorem Follows.bind {m m' : σ → Checked σ} {n n' : τ → Checked τ} (h : Follows Rel m n) (h' : Follows Rel m' n') :
    Follows Rel (fun p => m p >>= m') (fun c => n c >>= n') := by
  intro p c hrel c' hc
  obtain ⟨b, hb, hc⟩ := bind_eq_ok hc
  exact (h p c hrel b hb).bind fun q hq => h' q b hq c' hc

theorem follows_of_value {v : Checked β} {m : β → σ → Checked σ} {n : β → τ → Checked τ}
    (h : ∀ b, Follows Rel (m b) (n b)) :
    Follows Rel (fun p => v >>= fun b => m b p) (fun c => v >>= fun b => n b c) := by
  intro p c hrel c' hc
  obtain ⟨b, rfl, hc⟩ := bind_eq_ok hc
  exact h b p c hrel c' hc

theorem Follows.ite {b : Prop} [Decidable b] {m m' : σ → Checked σ} {n n' : τ → Checked τ} (h : Follows Rel m n)
    (h' : Follows Rel m' n') : Follows Rel (fun p => if b then m p else m' p) (fun c => if b then n c else n' c) := by
  by_cases hb : b
  · simpa only [if_pos hb] using h
  · simpa only [if_neg hb] using h'

theorem Follows.foldlM {f : σ → β → Checked σ} {g : τ → β → Checked τ} {l : List β}
    (h : ∀ b, Follows Rel (fun p => f p b) (fun c => g c b)) :
    Follows Rel (fun p => l.foldlM f p) (fun c => l.foldlM g c) := by
  induction l with
  | nil => exact follows_ok
  | cons b l ih =>
    simp only [List.foldlM_cons]
    exact (h b).bind ih

end

/-! ## Filling rows -/

theorem index_iff {k row left right : Nat} (hright : right ≤ width) :
    row * width + left ≤ k ∧ k < row * width + right ↔ k / width = row ∧ left ≤ k % width ∧ k % width < right := by
  have hsplit := Nat.div_add_mod k width
  constructor
  · rintro ⟨hlo, hhi⟩
    have hrow : k / width = row := by
      refine Nat.div_eq_of_lt_le (by omega) ?_
      rw [Nat.succ_mul]
      omega
    rw [hrow, Nat.mul_comm] at hsplit
    omega
  · rintro ⟨rfl, hlo, hhi⟩
    rw [Nat.mul_comm] at hsplit
    omega

theorem fillRows_eq {left top right bottom : Nat} (a : α) (hlr : left ≤ right) (hright : right ≤ width)
    (hbottom : bottom * width ≤ p.size) : fillRows width p left top right bottom a =
      .ok (p.mapIdx fun k v =>
        if top ≤ k / width ∧ k / width < bottom ∧ left ≤ k % width ∧ k % width < right then a else v) := by
  have hloop := foldlM_range' (f := fun p row => fillSlice p (row * width + left) (row * width + right) a)
    (fun n => p.mapIdx fun k v =>
      if top ≤ k / width ∧ k / width < top + n ∧ left ≤ k % width ∧ k % width < right then a else v)
    top (bottom - top) fun n hn => ?_
  · unfold fillRows
    have hnone : (p.mapIdx fun k v =>
        if top ≤ k / width ∧ k / width < top + 0 ∧ left ≤ k % width ∧ k % width < right then a else v) = p := by
      refine Array.ext (Array.size_mapIdx ..) fun k _ _ => ?_
      rw [Array.getElem_mapIdx, if_neg (by omega)]
    rw [hnone] at hloop
    rw [hloop]
    refine congrArg Except.ok (Array.ext (by simp) fun k _ _ => ?_)
    rw [Array.getElem_mapIdx, Array.getElem_mapIdx]
    refine if_congr ?_ rfl rfl
    omega
  · have hrow : (top + n + 1) * width ≤ bottom * width := Nat.mul_le_mul_right width (by omega)
    rw [Nat.add_mul, Nat.one_mul] at hrow
    unfold fillSlice
    rw [Array.size_mapIdx, if_pos ⟨by omega, by omega⟩]
    refine congrArg Except.ok (Array.ext (by simp) fun k _ _ => ?_)
    rw [Array.getElem_mapIdx, Array.getElem_mapIdx, Array.getElem_mapIdx]
    by_cases hin : (top + n) * width + left ≤ k ∧ k < (top + n) * width + right
    · have hat := (index_iff hright).mp hin
      rw [if_pos hin, if_pos (by omega)]
    · have hat : ¬(k / width = top + n ∧ left ≤ k % width ∧ k % width < right) :=
        fun h => hin ((index_iff hright).mpr h)
      rw [if_neg hin]
      refine if_congr ?_ rfl rfl
      omega

theorem fillRows_fills {left top right bottom : Nat} (a : α) (hlr : left ≤ right) (hright : right ≤ width)
    (hbottom : bottom * width ≤ p.size) : Yields (fillRows width p left top right bottom a)
      (Fills width (fun x y => left ≤ x ∧ x < right ∧ top ≤ y ∧ y < bottom) a p) := by
  rw [fillRows_eq a hlr hright hbottom]
  have hat : ∀ x y : Nat, x < width → (y * width + x) / width = y ∧ (y * width + x) % width = x := by
    intro x y hx
    rw [Nat.mul_comm, Nat.mul_add_div (by omega), Nat.div_eq_of_lt hx, Nat.mul_add_mod, Nat.mod_eq_of_lt hx]
    exact ⟨Nat.add_zero y, rfl⟩
  refine yields_ok ⟨⟨Array.size_mapIdx .., fun x y hx hout => ?_⟩, fun x y hx hy hin => ?_⟩
  · obtain ⟨hdiv, hmod⟩ := hat x y hx
    rw [Array.getElem?_mapIdx, hdiv, hmod]
    cases p[y * width + x]? with
    | none => rfl
    | some v =>
      rw [Option.map_some, if_neg (by omega)]
  · obtain ⟨hdiv, hmod⟩ := hat x y hx
    rw [Array.getElem?_mapIdx, hdiv, hmod, Array.getElem?_eq_getElem hy, Option.map_some, if_pos (by omega)]

end Raster
