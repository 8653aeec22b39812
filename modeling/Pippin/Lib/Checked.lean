import Mathlib.Algebra.Order.Ring.Int
import Mathlib.Data.List.Basic
import Mathlib.Data.List.Perm.Basic

/-! Computations that may fault: an i32 operation out of range, an index out of
bounds, an `unwrap` of nothing. `Yields m Q` says that `m` does not fault and its
result satisfies `Q`, `Ensures m Q` that its result satisfies `Q` if it does not fault. -/

inductive Fault where
  | overflow
  | index
  | unwrap
deriving DecidableEq, Repr

abbrev Checked (α : Type) := Except Fault α

namespace Checked

variable {α β : Type}

def i32 (v : Int) : Checked Int :=
  if -2 ^ 31 ≤ v ∧ v < 2 ^ 31 then .ok v else .error .overflow

def unwrap : Option α → Checked α
  | some a => .ok a
  | none => .error .unwrap

def get (l : List α) (i : Nat) : Checked α :=
  match l[i]? with
  | some a => .ok a
  | none => .error .index

def modify (l : List α) (i : Nat) (f : α → α) : Checked (List α) :=
  if i < l.length then .ok (l.modify i f) else .error .index

def remove (l : List α) (i : Nat) : Checked (α × List α) := do
  return (← get l i, l.eraseIdx i)

def insert (l : List α) (i : Nat) (a : α) : Checked (List α) :=
  if i ≤ l.length then .ok (l.take i ++ a :: l.drop i) else .error .index

def set (p : Array α) (i : Nat) (a : α) : Checked (Array α) :=
  if h : i < p.size then .ok (p.set i a h) else .error .index

def fillSlice (l : List α) (i j : Nat) (a : α) : Checked (List α) :=
  if i ≤ j ∧ j ≤ l.length then .ok (l.take i ++ List.replicate (j - i) a ++ l.drop j)
  else .error .index

def slice (l : List α) (i j : Nat) : Checked (List α) :=
  if i ≤ j ∧ j ≤ l.length then .ok ((l.take j).drop i) else .error .index

/-- The last position satisfying `f`, tested from the back. -/
def rposition (f : α → Checked Bool) : List α → Checked (Option Nat)
  | [] => .ok none
  | a :: l => do
    match ← rposition f l with
    | some i => return some (i + 1)
    | none => return if ← f a then some 0 else none

/-- The first position satisfying `f`. -/
def position (f : α → Checked Bool) : List α → Checked (Option Nat)
  | [] => .ok none
  | a :: l => do
    if ← f a then return some 0
    else return (← position f l).map (· + 1)

def saturate (v : Int) : Int := max (-2 ^ 31) (min v (2 ^ 31 - 1))

def range (lo hi : Int) : List Int := (List.range (hi - lo).toNat).map fun k : Nat => lo + k

def Yields (m : Checked α) (Q : α → Prop) : Prop := ∃ a, m = .ok a ∧ Q a

@[simp] theorem ok_bind (a : α) (f : α → Checked β) : (Except.ok a >>= f) = f a := rfl

theorem yields_ok {a : α} {Q : α → Prop} (h : Q a) : Yields (.ok a) Q := ⟨a, rfl, h⟩

theorem Yields.bind {m : Checked α} {f : α → Checked β} {P : α → Prop} {Q : β → Prop}
    (hm : Yields m P) (hf : ∀ a, P a → Yields (f a) Q) : Yields (m >>= f) Q := by
  obtain ⟨a, rfl, ha⟩ := hm
  exact hf a ha

theorem Yields.mono {m : Checked α} {P Q : α → Prop} (hm : Yields m P) (h : ∀ a, P a → Q a) :
    Yields m Q := by
  obtain ⟨a, rfl, ha⟩ := hm
  exact yields_ok (h a ha)

theorem Yields.of_eq {m : Checked α} {a : α} {Q : α → Prop} (hm : Yields m Q) (h : m = .ok a) : Q a := by
  obtain ⟨b, rfl, hb⟩ := hm
  cases h
  exact hb

def Ensures (m : Checked α) (Q : α → Prop) : Prop := ∀ a, m = .ok a → Q a

theorem ensures_ok {a : α} {Q : α → Prop} (h : Q a) : Ensures (.ok a) Q := by
  intro b hb
  cases hb
  exact h

theorem ensures_bind {m : Checked α} {f : α → Checked β} {Q : β → Prop}
    (h : ∀ a, m = .ok a → Ensures (f a) Q) : Ensures (m >>= f) Q := by
  intro b hb
  cases m with
  | error e => cases hb
  | ok a => exact h a rfl b hb

theorem bind_eq_ok {m : Checked α} {f : α → Checked β} {b : β} (h : (m >>= f) = .ok b) :
    ∃ a, m = .ok a ∧ f a = .ok b := by
  cases m with
  | error e => cases h
  | ok a => exact ⟨a, rfl, h⟩

theorem map_bind {γ : Type} (g : β → γ) (m : Checked α) (f : α → Checked β) :
    (m >>= f).map g = m >>= fun a => (f a).map g := by
  cases m <;> rfl

theorem i32_eq {v : Int} (hl : -2 ^ 31 ≤ v) (hu : v < 2 ^ 31) : i32 v = .ok v := if_pos ⟨hl, hu⟩

theorem i32_of_ok {v a : Int} (h : i32 v = .ok a) : a = v ∧ -2 ^ 31 ≤ v ∧ v < 2 ^ 31 := by
  unfold i32 at h
  split_ifs at h with hv
  cases h
  exact ⟨rfl, hv⟩

theorem get_eq {l : List α} {i : Nat} {a : α} (h : l[i]? = some a) : get l i = .ok a := by
  unfold get
  rw [h]

theorem modify_eq {l : List α} {i : Nat} (f : α → α) (h : i < l.length) :
    modify l i f = .ok (l.modify i f) := if_pos h

theorem remove_eq {l : List α} {i : Nat} {a : α} (h : l[i]? = some a) :
    remove l i = .ok (a, l.eraseIdx i) := by
  unfold remove
  rw [get_eq h]
  rfl

theorem get_of_ok {l : List α} {i : Nat} {a : α} (h : get l i = .ok a) : l[i]? = some a := by
  unfold get at h
  split at h
  · cases h
    assumption
  · cases h

theorem modify_of_ok {l l' : List α} {i : Nat} {f : α → α} (h : modify l i f = .ok l') : l' = l.modify i f := by
  unfold modify at h
  split_ifs at h
  cases h
  rfl

theorem remove_of_ok {l rest : List α} {i : Nat} {a : α} (h : remove l i = .ok (a, rest)) :
    l[i]? = some a ∧ rest = l.eraseIdx i := by
  obtain ⟨b, hb, h⟩ := bind_eq_ok h
  cases h
  exact ⟨get_of_ok hb, rfl⟩

theorem remove_perm {l rest : List α} {i : Nat} {a : α} (h : remove l i = .ok (a, rest)) : (a :: rest).Perm l := by
  obtain ⟨ha, rfl⟩ := remove_of_ok h
  obtain ⟨hi, rfl⟩ := List.getElem?_eq_some_iff.mp ha
  exact List.getElem_cons_eraseIdx_perm hi

theorem fillSlice_eq {l : List α} {i j : Nat} (a : α) (h : i ≤ j) (hj : j ≤ l.length) :
    fillSlice l i j a = .ok (l.take i ++ List.replicate (j - i) a ++ l.drop j) := if_pos ⟨h, hj⟩

theorem slice_eq {l : List α} {i j : Nat} (h : i ≤ j) (hj : j ≤ l.length) : slice l i j = .ok ((l.take j).drop i) :=
  if_pos ⟨h, hj⟩

def Returns (m : Checked α) : Prop := ∃ a, m = .ok a

theorem returns_ok (a : α) : Returns (.ok a) := ⟨a, rfl⟩

theorem Yields.returns {m : Checked α} {Q : α → Prop} (h : Yields m Q) : Returns m := h.imp fun _ h => h.1

theorem returns_i32 {v : Int} (hl : -2 ^ 31 ≤ v) (hu : v < 2 ^ 31) : Returns (i32 v) := ⟨v, i32_eq hl hu⟩

theorem Returns.bind {m : Checked α} {f : α → Checked β} (hm : Returns m) (hf : ∀ a, m = .ok a → Returns (f a)) :
    Returns (m >>= f) := by
  obtain ⟨a, ha⟩ := hm
  rw [ha]
  exact hf a ha

theorem Returns.yields {m : Checked α} (h : Returns m) : Yields m fun a => m = .ok a := h.imp fun _ h => ⟨h, h⟩

theorem yields_mapM {f : α → Checked β} {l : List α} {Q : β → Prop} (h : ∀ a ∈ l, Yields (f a) Q) :
    Yields (l.mapM f) fun r => ∀ b ∈ r, Q b := by
  induction l with
  | nil => exact yields_ok nofun
  | cons a l ih =>
    rw [List.mapM_cons]
    refine (h a List.mem_cons_self).bind fun b hb => ?_
    refine (ih fun c hc => h c (List.mem_cons_of_mem a hc)).bind fun r hr => yields_ok ?_
    exact List.forall_mem_cons.mpr ⟨hb, hr⟩

/-- No access faults: all that can go wrong is an i32 operation. -/
def OnlyOverflows (m : Checked α) : Prop := ∀ fault, m = .error fault → fault = .overflow

theorem onlyOverflows_ok (a : α) : OnlyOverflows (.ok a) := nofun

theorem onlyOverflows_i32 (v : Int) : OnlyOverflows (i32 v) := by
  intro fault h
  unfold i32 at h
  split_ifs at h
  cases h
  rfl

theorem OnlyOverflows.bind {m : Checked α} {f : α → Checked β} (hm : OnlyOverflows m)
    (hf : ∀ a, m = .ok a → OnlyOverflows (f a)) : OnlyOverflows (m >>= f) := by
  cases m with
  | error fault =>
    intro fault' h
    cases h
    exact hm fault rfl
  | ok a => exact hf a rfl

theorem yields_set {p : Array α} {i : Nat} {a : α} (h : i < p.size) :
    Yields (set p i a) fun q => q.size = p.size := by
  unfold set
  rw [dif_pos h]
  exact yields_ok (Array.size_set h)

theorem mem_range {lo hi v : Int} : v ∈ range lo hi ↔ lo ≤ v ∧ v < hi := by
  unfold range
  rw [List.mem_map]
  constructor
  · rintro ⟨k, hk, rfl⟩
    rw [List.mem_range] at hk
    omega
  · rintro ⟨h1, h2⟩
    exact ⟨(v - lo).toNat, List.mem_range.mpr (by omega), by omega⟩

theorem of_getElem?_range {lo hi v : Int} {i : Nat} (h : (range lo hi)[i]? = some v) : v = lo + i := by
  unfold range at h
  rw [List.getElem?_map, Option.map_eq_some_iff] at h
  obtain ⟨k, hk, rfl⟩ := h
  obtain ⟨hi, rfl⟩ := List.getElem?_eq_some_iff.mp hk
  rw [List.getElem_range]

theorem getElem?_range {width v : Int} (hv : 0 ≤ v ∧ v < width) : (range 0 width)[v.toNat]? = some v := by
  unfold range
  rw [List.getElem?_map, List.getElem?_range (by omega), Option.map_some]
  congr 1
  omega

theorem foldlM_range' {f : β → Nat → Checked β} (g : Nat → β) (start n : Nat)
    (h : ∀ i < n, f (g i) (start + i) = .ok (g (i + 1))) : (List.range' start n).foldlM f (g 0) = .ok (g n) := by
  induction n with
  | zero => rfl
  | succ n ih =>
    rw [List.range'_concat, List.foldlM_append, ih fun i hi => h i (Nat.lt_succ_of_lt hi), ok_bind, List.foldlM_cons,
      Nat.one_mul, h n (Nat.lt_succ_self n), ok_bind]
    rfl

theorem yields_foldlM {f : β → α → Checked β} (I : β → Prop) (l : List α)
    (step : ∀ b, I b → ∀ a ∈ l, Yields (f b a) I) : ∀ b, I b → Yields (l.foldlM f b) I := by
  induction l with
  | nil => exact fun b hb => yields_ok hb
  | cons a l ih =>
    intro b hb
    rw [List.foldlM_cons]
    refine (step b hb a List.mem_cons_self).bind fun b' hb' => ?_
    exact ih (fun c hc x hx => step c hc x (List.mem_cons_of_mem a hx)) b' hb'

theorem position_some {f : α → Checked Bool} {l : List α} {i : Nat} (h : position f l = .ok (some i)) :
    (∃ a, l[i]? = some a ∧ f a = .ok true) ∧ ∀ j < i, ∀ a, l[j]? = some a → f a = .ok false := by
  induction l generalizing i with
  | nil => cases h
  | cons a l ih =>
    unfold position at h
    obtain ⟨b, hb, h⟩ := bind_eq_ok h
    cases b with
    | true =>
      cases h
      exact ⟨⟨a, rfl, hb⟩, nofun⟩
    | false =>
      obtain ⟨r, hr, h⟩ := bind_eq_ok h
      cases r with
      | none => cases h
      | some k =>
        cases h
        obtain ⟨hk, hbefore⟩ := ih hr
        refine ⟨hk, fun j hj c hc => ?_⟩
        cases j with
        | zero =>
          cases hc
          exact hb
        | succ j => exact hbefore j (Nat.lt_of_succ_lt_succ hj) c hc

theorem position_none {f : α → Checked Bool} {l : List α} (h : position f l = .ok none) :
    ∀ a ∈ l, f a = .ok false := by
  induction l with
  | nil => exact nofun
  | cons a l ih =>
    unfold position at h
    obtain ⟨b, hb, h⟩ := bind_eq_ok h
    cases b with
    | true => cases h
    | false =>
      obtain ⟨r, hr, h⟩ := bind_eq_ok h
      cases r with
      | some k => cases h
      | none =>
        intro c hc
        rcases List.mem_cons.mp hc with rfl | hc
        · exact hb
        · exact ih hr c hc

theorem position_returns {f : α → Checked Bool} {l : List α} (h : ∀ a ∈ l, ∃ b, f a = .ok b) :
    ∃ r, position f l = .ok r := by
  induction l with
  | nil => exact ⟨none, rfl⟩
  | cons a l ih =>
    obtain ⟨b, hb⟩ := h a List.mem_cons_self
    unfold position
    rw [hb, ok_bind]
    cases b with
    | true => exact ⟨some 0, rfl⟩
    | false =>
      obtain ⟨r, hr⟩ := ih fun c hc => h c (List.mem_cons_of_mem a hc)
      rw [hr]
      exact ⟨_, rfl⟩

theorem rposition_eq {f : α → Checked Bool} {l : List α} {i : Nat} {a : α} (ha : l[i]? = some a)
    (hf : f a = .ok true) (hafter : ∀ j > i, ∀ b, l[j]? = some b → f b = .ok false) :
    rposition f l = .ok (some i) := by
  have none_of : ∀ {l : List α}, (∀ b ∈ l, f b = .ok false) → rposition f l = .ok none := by
    intro l
    induction l with
    | nil => exact fun _ => rfl
    | cons b l ih =>
      intro h
      unfold rposition
      rw [ih fun c hc => h c (List.mem_cons_of_mem b hc), ok_bind, h b List.mem_cons_self]
      rfl
  induction l generalizing i with
  | nil => cases ha
  | cons b l ih =>
    unfold rposition
    cases i with
    | zero =>
      cases ha
      have hrest : rposition f l = .ok none := none_of fun c hc => by
        obtain ⟨j, hj⟩ := List.mem_iff_getElem?.mp hc
        exact hafter (j + 1) (Nat.succ_pos j) c hj
      rw [hrest, ok_bind, hf]
      rfl
    | succ i =>
      rw [ih ha fun j hj c hc => hafter (j + 1) (Nat.succ_lt_succ hj) c hc]
      rfl

theorem mapM_getElem? {f : α → Checked β} {l : List α} {r : List β} {i : Nat} {a : α} (h : l.mapM f = .ok r)
    (ha : l[i]? = some a) : ∃ b, r[i]? = some b ∧ f a = .ok b := by
  induction l generalizing r i with
  | nil => cases ha
  | cons c l ih =>
    rw [List.mapM_cons] at h
    obtain ⟨b, hb, h⟩ := bind_eq_ok h
    obtain ⟨r', hr, h⟩ := bind_eq_ok h
    cases h
    cases i with
    | zero =>
      cases ha
      exact ⟨b, rfl, hb⟩
    | succ i =>
      have hrest := ih hr ha
      exact hrest

theorem rposition_some {f : α → Checked Bool} {l : List α} {i : Nat} (h : rposition f l = .ok (some i)) :
    (∃ a, l[i]? = some a ∧ f a = .ok true) ∧ ∀ j > i, ∀ a, l[j]? = some a → f a = .ok false := by
  have none_spec : ∀ {l : List α}, rposition f l = .ok none → ∀ a ∈ l, f a = .ok false := by
    intro l
    induction l with
    | nil => exact fun _ _ ha => (nomatch ha)
    | cons a l ih =>
      intro h b hb
      obtain ⟨r, hr, h⟩ := bind_eq_ok h
      cases r with
      | some i => cases h
      | none =>
        obtain ⟨q, hq, h⟩ := bind_eq_ok h
        rcases List.mem_cons.mp hb with rfl | hb
        · cases q with
          | true => cases h
          | false => exact hq
        · exact ih hr b hb
  induction l generalizing i with
  | nil => cases h
  | cons a l ih =>
    obtain ⟨r, hr, h⟩ := bind_eq_ok h
    cases r with
    | some k =>
      cases h
      obtain ⟨⟨b, hb, hf⟩, hafter⟩ := ih hr
      refine ⟨⟨b, hb, hf⟩, fun j hj c hc => ?_⟩
      cases j with
      | zero => omega
      | succ j => exact hafter j (by omega) c hc
    | none =>
      obtain ⟨q, hq, h⟩ := bind_eq_ok h
      cases q with
      | false => cases h
      | true =>
        cases h
        refine ⟨⟨a, rfl, hq⟩, fun j hj c hc => ?_⟩
        cases j with
        | zero => omega
        | succ j => exact none_spec hr c (List.mem_of_getElem? hc)

theorem yields_rposition {f : α → Checked Bool} {p : α → Bool} {l : List α}
    (h : ∀ a ∈ l, f a = .ok (p a)) :
    Yields (rposition f l) fun r => ∀ i, r = some i → ∃ a, l[i]? = some a ∧ p a = true := by
  induction l with
  | nil => exact yields_ok (by simp)
  | cons a l ih =>
    unfold rposition
    refine (ih fun b hb => h b (List.mem_cons_of_mem a hb)).bind fun r hr => ?_
    cases r with
    | some i =>
      refine yields_ok fun j hj => ?_
      cases hj
      exact hr i rfl
    | none =>
      rw [h a List.mem_cons_self]
      refine yields_ok fun j hj => ?_
      cases hp : p a with
      | true =>
        rw [hp] at hj
        cases hj
        exact ⟨a, rfl, hp⟩
      | false =>
        rw [hp] at hj
        cases hj

end Checked
