import Mathlib.Data.List.Nodup
import Mathlib.Data.List.Perm.Basic

/-! Lists of records told apart by a key: changing, dropping and raising the record
with a given key, and how these read as list operations at its index. -/

namespace Keyed

variable {α κ : Type} {key : α → κ} {k : κ} {f : α → α} {l : List α} {i : Nat} {a : α}

def Distinct (key : α → κ) (l : List α) : Prop := (l.map key).Nodup

theorem Distinct.tail (h : Distinct key (a :: l)) : Distinct key l := (List.nodup_cons.mp h).2

theorem Distinct.ne_head (h : Distinct key (a :: l)) {b : α} (hb : b ∈ l) : key b ≠ key a := by
  intro he
  exact (List.nodup_cons.mp h).1 (he ▸ List.mem_map_of_mem hb)

theorem Distinct.eq (h : Distinct key l) {b : α} (ha : a ∈ l) (hb : b ∈ l) (he : key a = key b) : a = b :=
  List.inj_on_of_nodup_map h ha hb he

theorem map_key_modify (hf : ∀ a, l[i]? = some a → key (f a) = key a) : (l.modify i f).map key = l.map key := by
  refine List.ext_getElem? fun j => ?_
  rw [List.getElem?_map, List.getElem?_map, List.getElem?_modify]
  cases ha : l[j]? with
  | none => rfl
  | some a =>
    refine congrArg some ?_
    dsimp only
    split_ifs with hi
    · subst hi
      exact hf a ha
    · rfl

theorem mem_modify {b : α} (h : b ∈ l.modify i f) : b ∈ l ∨ ∃ a, l[i]? = some a ∧ b = f a := by
  obtain ⟨j, hj⟩ := List.mem_iff_getElem?.mp h
  rw [List.getElem?_modify] at hj
  obtain ⟨a, ha, rfl⟩ := Option.map_eq_some_iff.mp hj
  split_ifs with hi
  · subst hi
    exact Or.inr ⟨a, ha, rfl⟩
  · exact Or.inl (List.mem_of_getElem? ha)

variable [DecidableEq κ]

def alter (key : α → κ) (k : κ) (f : α → α) (l : List α) : List α :=
  l.map fun a => if key a = k then f a else a

def without (key : α → κ) (k : κ) (l : List α) : List α := l.filter fun a => key a ≠ k

def raise (key : α → κ) (k : κ) (l : List α) : List α :=
  without key k l ++ l.filter fun a => key a = k

theorem findIdx?_spec (h : l.findIdx? (fun a => key a = k) = some i) : ∃ a, l[i]? = some a ∧ key a = k := by
  obtain ⟨hi, hk, -⟩ := List.findIdx?_eq_some_iff_getElem.mp h
  exact ⟨l[i], List.getElem?_eq_getElem hi, of_decide_eq_true hk⟩

theorem findIdx?_of_mem (ha : a ∈ l) (hk : key a = k) : ∃ i, l.findIdx? (fun a => key a = k) = some i := by
  cases h : l.findIdx? (fun a => key a = k) with
  | some i => exact ⟨i, rfl⟩
  | none =>
    have := List.findIdx?_eq_none_iff.mp h a ha
    simp [hk] at this

theorem find?_of_mem (hd : Distinct key l) (ha : a ∈ l) : l.find? (fun b => key b = key a) = some a := by
  cases h : l.find? (fun b => key b = key a) with
  | none => simpa using List.find?_eq_none.mp h a ha
  | some b =>
    have hb : key b = key a := by simpa using List.find?_some h
    rw [hd.eq (List.mem_of_find?_eq_some h) ha hb]

theorem find?_of_count [BEq κ] [LawfulBEq κ] (ha : a ∈ l) (h : (l.map key).count (key a) ≤ 1) :
    l.find? (fun b => key b = key a) = some a := by
  induction l with
  | nil => cases ha
  | cons b l ih =>
    rw [List.map_cons, List.count_cons] at h
    rw [List.find?_cons]
    rcases List.mem_cons.mp ha with rfl | hl
    · rw [decide_eq_true (by rfl)]
    · have hin := List.count_pos_iff.mpr (List.mem_map_of_mem (f := key) hl)
      have hne : ¬key b = key a := fun he => by
        rw [if_pos (by simpa using he)] at h
        omega
      rw [decide_eq_false hne]
      exact ih hl (by omega)

theorem alter_of_forall_ne (h : ∀ a ∈ l, key a ≠ k) : alter key k f l = l := by
  unfold alter
  conv_rhs => rw [← List.map_id l]
  exact List.map_congr_left fun a ha => if_neg (h a ha)

theorem alter_congr (hd : Distinct key l) (ha : a ∈ l) (f g : α → α) (h : f a = g a) :
    alter key (key a) f l = alter key (key a) g l := by
  refine List.map_congr_left fun b hb => ?_
  split_ifs with he
  · rw [hd.eq hb ha he, h]
  · rfl

theorem without_of_forall_ne (h : ∀ a ∈ l, key a ≠ k) : without key k l = l :=
  List.filter_eq_self.mpr fun a ha => decide_eq_true (h a ha)

theorem modify_eq_alter (hd : Distinct key l) (h : l[i]? = some a) (hk : key a = k) (f : α → α) :
    l.modify i f = alter key k f l := by
  induction l generalizing i with
  | nil => cases h
  | cons b l ih =>
    cases i with
    | zero =>
      cases h
      rw [List.modify_zero_cons, alter, List.map_cons, if_pos hk, ← alter,
        alter_of_forall_ne fun c hc => hk ▸ hd.ne_head hc]
    | succ i =>
      have hb : key b ≠ k := fun he => hd.ne_head (List.mem_of_getElem? h) (hk.trans he.symm)
      rw [List.modify_succ_cons, ih hd.tail h, alter, alter, List.map_cons, if_neg hb]

theorem eraseIdx_eq_without (hd : Distinct key l) (h : l[i]? = some a) (hk : key a = k) :
    l.eraseIdx i = without key k l := by
  induction l generalizing i with
  | nil => cases h
  | cons b l ih =>
    cases i with
    | zero =>
      cases h
      rw [List.eraseIdx_cons_zero, without, List.filter_cons_of_neg (by simp [hk]), ← without,
        without_of_forall_ne fun c hc => hk ▸ hd.ne_head hc]
    | succ i =>
      have hb : key b ≠ k := fun he => hd.ne_head (List.mem_of_getElem? h) (hk.trans he.symm)
      rw [List.eraseIdx_cons_succ, ih hd.tail h, without, without, List.filter_cons_of_pos (by simp [hb])]

theorem filter_eq_singleton (hd : Distinct key l) (ha : a ∈ l) : (l.filter fun b => key b = key a) = [a] := by
  induction l with
  | nil => cases ha
  | cons b l ih =>
    rcases List.mem_cons.mp ha with rfl | hl
    · rw [List.filter_cons_of_pos (by simp), List.filter_eq_nil_iff.mpr]
      intro c hc
      simp [hd.ne_head hc]
    · rw [List.filter_cons_of_neg (by simp [(hd.ne_head hl).symm]), ih hd.tail hl]

theorem raise_eq (hd : Distinct key l) (ha : a ∈ l) : raise key (key a) l = without key (key a) l ++ [a] := by
  rw [raise, filter_eq_singleton hd ha]

theorem map_key_alter (hf : ∀ a, key (f a) = key a) : (alter key k f l).map key = l.map key := by
  unfold alter
  rw [List.map_map]
  refine List.map_congr_left fun a _ => ?_
  show key (if key a = k then f a else a) = key a
  split_ifs with h
  · exact hf a
  · rfl

theorem mem_alter {b : α} (h : b ∈ alter key k f l) : ∃ a ∈ l, b = a ∨ key a = k ∧ b = f a := by
  obtain ⟨a, ha, rfl⟩ := List.mem_map.mp h
  refine ⟨a, ha, ?_⟩
  split_ifs with hk
  · exact Or.inr ⟨hk, rfl⟩
  · exact Or.inl rfl

theorem mem_without {b : α} : b ∈ without key k l ↔ b ∈ l ∧ key b ≠ k := by simp [without]

theorem raise_perm : (raise key k l).Perm l := by
  have h := List.filter_append_perm (fun a => decide (key a ≠ k)) l
  unfold raise without
  simpa using h

theorem without_alter (hf : ∀ a, key (f a) = key a) : without key k (alter key k f l) = without key k l := by
  induction l with
  | nil => rfl
  | cons a l ih =>
    unfold without alter at ih ⊢
    rw [List.map_cons]
    by_cases h : key a = k
    · rw [if_pos h, List.filter_cons_of_neg (by simp [hf, h]), List.filter_cons_of_neg (by simp [h]), ih]
    · rw [if_neg h, List.filter_cons_of_pos (by simp [h]), List.filter_cons_of_pos (by simp [h]), ih]

theorem find?_modify {b : α} (hd : Distinct key l) (h : l[i]? = some a) (hb : key b = key a) (k : κ) :
    (l.modify i fun _ => b).find? (fun c => key c = k) = if key a = k then some b else l.find? fun c => key c = k := by
  induction l generalizing i with
  | nil => cases h
  | cons c l ih =>
    cases i with
    | zero =>
      cases h
      rw [List.modify_zero_cons, List.find?_cons, List.find?_cons, hb]
      by_cases hk : key a = k
      · rw [decide_eq_true hk, if_pos hk]
      · rw [decide_eq_false hk, if_neg hk]
    | succ i =>
      rw [List.modify_succ_cons, List.find?_cons, List.find?_cons, ih hd.tail h]
      by_cases hk : key c = k
      · have hne : key a ≠ k := fun ha => hd.ne_head (List.mem_of_getElem? h) (ha.trans hk.symm)
        rw [decide_eq_true hk, if_neg hne, if_neg hne]
      · rw [decide_eq_false hk]

theorem without_raise : without key k (raise key k l) = without key k l := by
  unfold raise without
  rw [List.filter_append, List.filter_filter, List.filter_filter]
  simp

end Keyed
