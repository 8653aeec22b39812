import Mathlib.Data.List.Rotate
import Mathlib.Data.List.Nodup

/-! Going around a list. A place in it is an element, or none yet; a step goes to the next
element or back to the previous one, and past either end to the other. -/

namespace Around

variable {α : Type} [DecidableEq α] {l : List α} {a : α} {c : Option α} {i m n : Nat}

def place (l : List α) (c : Option α) : Option Nat := c.bind fun a => l.findIdx? (· = a)

def step (l : List α) (reverse : Bool) (c : Option α) : Option α :=
  match place l c with
  | some i => if reverse then l[(i + (l.length - 1)) % l.length]? else l[(i + 1) % l.length]?
  | none => if reverse then l[l.length - 1]? else l[0]?

theorem place_getElem (hn : l.Nodup) (h : l[i]? = some a) : place l (some a) = some i := by
  obtain ⟨hi, rfl⟩ := List.getElem?_eq_some_iff.mp h
  refine List.findIdx?_eq_some_iff_getElem.mpr ⟨hi, decide_eq_true rfl, fun j hj => ?_⟩
  have hne : l[j] ≠ l[i] := fun heq => Nat.ne_of_lt hj ((hn.getElem_inj_iff).mp heq)
  simpa using hne

theorem step_next (hn : l.Nodup) (h : l[i]? = some a) : step l false (some a) = l[(i + 1) % l.length]? := by
  unfold step
  rw [place_getElem hn h]
  rfl

theorem step_previous (hn : l.Nodup) (h : l[i]? = some a) :
    step l true (some a) = l[(i + (l.length - 1)) % l.length]? := by
  unfold step
  rw [place_getElem hn h]
  rfl

theorem step_mem (hl : l ≠ []) (reverse : Bool) (c : Option α) : ∃ a ∈ l, step l reverse c = some a := by
  have hpos : 0 < l.length := List.length_pos_iff.mpr hl
  have hin : ∀ k, k < l.length → ∃ a ∈ l, l[k]? = some a := fun k hk =>
    ⟨_, List.getElem_mem hk, List.getElem?_eq_getElem hk⟩
  unfold step
  cases place l c <;> cases reverse <;> exact hin _ (by first | exact Nat.mod_lt _ hpos | omega)

theorem step_back (hn : l.Nodup) (ha : a ∈ l) (reverse : Bool) :
    step l (!reverse) (step l reverse (some a)) = some a := by
  obtain ⟨i, hi, rfl⟩ := List.getElem_of_mem ha
  have hget : l[i]? = some l[i] := List.getElem?_eq_getElem hi
  have there : ∀ k, ∃ b, l[k % l.length]? = some b := fun k =>
    ⟨_, List.getElem?_eq_getElem (Nat.mod_lt k (by omega))⟩
  have home : ∀ k, k + 1 = l.length + (i + 1) → l[k % l.length]? = some l[i] := fun k hk => by
    have hk : k % l.length = i := by
      rw [show k = i + l.length by omega, Nat.add_mod_right, Nat.mod_eq_of_lt hi]
    rw [hk, hget]
  cases reverse with
  | false =>
    obtain ⟨b, hb⟩ := there (i + 1)
    rw [step_next hn hget, hb, Bool.not_false, step_previous hn hb, Nat.mod_add_mod]
    exact home _ (by omega)
  | true =>
    obtain ⟨b, hb⟩ := there (i + (l.length - 1))
    rw [step_previous hn hget, hb, Bool.not_true, step_next hn hb, Nat.mod_add_mod]
    exact home _ (by omega)

def walk (l : List α) : Nat → Option α → List (Option α)
  | 0, _ => []
  | n + 1, c => step l false c :: walk l n (step l false c)

theorem walk_eq (hn : l.Nodup) (hl : l ≠ []) (h : step l false c = l[m % l.length]?) (n : Nat) :
    walk l n c = (List.range n).map fun j => l[(j + m) % l.length]? := by
  have hpos : 0 < l.length := List.length_pos_iff.mpr hl
  induction n generalizing c m with
  | zero => rfl
  | succ n ih =>
    obtain ⟨b, hget⟩ : ∃ b, l[m % l.length]? = some b := ⟨_, List.getElem?_eq_getElem (Nat.mod_lt m hpos)⟩
    have hnext : step l false (step l false c) = l[(m + 1) % l.length]? := by
      rw [h, hget, step_next hn hget, Nat.mod_add_mod]
    rw [walk, ih hnext, h, List.range_succ_eq_map, List.map_cons, List.map_map, Nat.zero_add]
    refine congrArg _ (List.map_congr_left fun j _ => ?_)
    rw [Function.comp_apply, show j + (m + 1) = j.succ + m by omega]

theorem walk_perm (hn : l.Nodup) (hl : l ≠ []) (c : Option α) : (walk l l.length c).Perm (l.map some) := by
  obtain ⟨m, hm⟩ : ∃ m, step l false c = l[m % l.length]? := by
    unfold step
    cases place l c with
    | none => exact ⟨0, by rw [Nat.zero_mod]; rfl⟩
    | some i => exact ⟨i + 1, rfl⟩
  have hrotate : walk l l.length c = (l.rotate m).map some := by
    refine List.ext_getElem? fun j => ?_
    rw [walk_eq hn hl hm, List.getElem?_map, List.getElem?_map]
    rcases Nat.lt_or_ge j l.length with hj | hj
    · rw [List.getElem?_range hj, List.getElem?_rotate hj, Option.map_some,
        List.getElem?_eq_getElem (Nat.mod_lt _ (Nat.zero_lt_of_lt hj)), Option.map_some]
    · rw [List.getElem?_eq_none (by rw [List.length_range]; exact hj),
        List.getElem?_eq_none (by rw [List.length_rotate]; exact hj)]
      rfl
  rw [hrotate]
  exact (List.rotate_perm l m).map some

end Around
