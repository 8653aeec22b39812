import Mathlib.Logic.Basic

/-! Programs that read an unreliable device. A run returns, gives up, or is cut off where
the bound on a loop is used up. `Triple d P x Q` says that a run of `x` on the device `d`
from a state in `P` ends in `Q`; `Refines x y` that `y` runs as `x` where `x` is not cut off. -/

inductive Outcome (α : Type) where
  | returned (a : α)
  | gaveUp
  | unfinished
deriving DecidableEq, Repr

def Outcome.ofOption {α : Type} : Option α → Outcome α
  | some a => .returned a
  | none => .gaveUp

def Program (δ σ α : Type) : Type := δ → σ → Outcome α × σ

namespace Program

variable {δ σ α β : Type}

def follow (d : δ) (f : α → Program δ σ β) : Outcome α × σ → Outcome β × σ
  | (.returned a, s) => f a d s
  | (.gaveUp, s) => (.gaveUp, s)
  | (.unfinished, s) => (.unfinished, s)

instance : Monad (Program δ σ) where
  pure a := fun _ s => (.returned a, s)
  bind x f := fun d s => follow d f (x d s)

def giveUp : Program δ σ α := fun _ s => (.gaveUp, s)

def cutOff : Program δ σ α := fun _ s => (.unfinished, s)

def ofOption : Option α → Program δ σ α
  | some a => pure a
  | none => giveUp

def Triple (d : δ) (P : σ → Prop) (x : Program δ σ α) (Q : Outcome α → σ → Prop) : Prop :=
  ∀ s, P s → Q (x d s).1 (x d s).2

variable {d : δ} {P : σ → Prop} {x : Program δ σ α} {f : α → Program δ σ β}

theorem Triple.pure {a : α} {Q : Outcome α → σ → Prop} (h : ∀ s, P s → Q (.returned a) s) :
    Triple d P (Pure.pure a) Q := h

theorem Triple.giveUp {Q : Outcome α → σ → Prop} (h : ∀ s, P s → Q .gaveUp s) :
    Triple d P Program.giveUp Q := h

theorem Triple.mono {Q R : Outcome α → σ → Prop} (h : Triple d P x Q) (hQR : ∀ o s, Q o s → R o s) :
    Triple d P x R := fun s hs => hQR _ _ (h s hs)

theorem Triple.bind {R : Outcome α → σ → Prop} {Q : Outcome β → σ → Prop} (hx : Triple d P x R)
    (hf : ∀ a, Triple d (R (.returned a)) (f a) Q) (hg : ∀ s, R .gaveUp s → Q .gaveUp s)
    (hu : ∀ s, R .unfinished s → Q .unfinished s) : Triple d P (x >>= f) Q := by
  intro s hs
  have h := hx s hs
  show Q (follow d f (x d s)).1 (follow d f (x d s)).2
  generalize x d s = r at h
  obtain ⟨o, s'⟩ := r
  cases o with
  | returned a => exact hf a s' h
  | gaveUp => exact hg s' h
  | unfinished => exact hu s' h

/-! ## Known outcomes -/

/-- A run from `P` has the outcome `o` and ends in `P'`. -/
def Yields (d : δ) (P : σ → Prop) (x : Program δ σ α) (o : Outcome α) (P' : σ → Prop) : Prop :=
  Triple d P x fun o' s => o' = o ∧ P' s

variable {P' : σ → Prop} {Q : Outcome β → σ → Prop}

theorem Yields.pure (a : α) : Yields d P (Pure.pure a) (.returned a) P := fun _ hs => ⟨rfl, hs⟩

theorem Yields.giveUp : Yields d P (Program.giveUp : Program δ σ α) .gaveUp P := fun _ hs => ⟨rfl, hs⟩

theorem Yields.ofOption (o : Option α) : Yields d P (Program.ofOption o) (Outcome.ofOption o) P := by
  cases o with
  | none => exact Yields.giveUp
  | some a => exact Yields.pure a

theorem Yields.bind {a : α} (hx : Yields d P x (.returned a) P') (hf : Triple d P' (f a) Q) :
    Triple d P (x >>= f) Q := by
  refine Triple.bind hx (fun b s hs => ?_) (fun s hs => nomatch hs.1) fun s hs => nomatch hs.1
  cases hs.1
  exact hf s hs.2

theorem Yields.bind_gaveUp (hx : Yields d P x .gaveUp P') (h : ∀ s, P' s → Q .gaveUp s) :
    Triple d P (x >>= f) Q :=
  Triple.bind hx (fun _ _ hs => nomatch hs.1) (fun s hs => h s hs.2) fun _ hs => nomatch hs.1

/-! ## Invariants -/

/-- A run keeps `I` and is not cut off, and what it returns satisfies `R`. -/
def Safe (d : δ) (I : σ → Prop) (x : Program δ σ α) (R : α → Prop) : Prop :=
  Triple d I x fun o s => I s ∧ o ≠ .unfinished ∧ ∀ a, o = .returned a → R a

variable {I : σ → Prop} {R R' : α → Prop} {S : β → Prop}

theorem Safe.pure {a : α} (h : R a) : Safe d I (Pure.pure a) R :=
  Triple.pure fun _ hs => ⟨hs, nofun, fun _ ha => Outcome.returned.inj ha ▸ h⟩

theorem Safe.giveUp : Safe d I Program.giveUp R := Triple.giveUp fun _ hs => ⟨hs, nofun, nofun⟩

theorem Safe.ofOption {o : Option α} (h : ∀ a, o = some a → R a) : Safe d I (Program.ofOption o) R := by
  cases o with
  | none => exact Safe.giveUp
  | some a => exact Safe.pure (h a rfl)

theorem Safe.bind (hx : Safe d I x R) (hf : ∀ a, R a → Safe d I (f a) S) : Safe d I (x >>= f) S := by
  refine Triple.bind hx (fun a s hs => ?_) (fun s hs => ⟨hs.1, nofun, nofun⟩) fun s hs => absurd rfl hs.2.1
  exact hf a (hs.2.2 a rfl) s hs.1

theorem Safe.mono (h : Safe d I x R) (hR : ∀ a, R a → R' a) : Safe d I x R' :=
  Triple.mono h fun _ _ ho => ⟨ho.1, ho.2.1, fun a ha => hR a (ho.2.2 a ha)⟩

/-! ## Bounds on loops -/

def Refines (x y : Program δ σ α) : Prop := ∀ d s, (x d s).1 = .unfinished ∨ x d s = y d s

theorem Refines.refl (x : Program δ σ α) : Refines x x := fun _ _ => Or.inr rfl

theorem Refines.cutOff (y : Program δ σ α) : Refines Program.cutOff y := fun _ _ => Or.inl rfl

theorem Refines.bind {y : Program δ σ α} {g : α → Program δ σ β} (hx : Refines x y)
    (hf : ∀ a, Refines (f a) (g a)) : Refines (x >>= f) (y >>= g) := by
  intro d s
  have h := hx d s
  show (follow d f (x d s)).1 = .unfinished ∨ follow d f (x d s) = follow d g (y d s)
  generalize x d s = r at h
  obtain ⟨o, s'⟩ := r
  rcases h with h | h
  · cases h
    exact Or.inl rfl
  · rw [← h]
    cases o with
    | returned a => exact hf a d s'
    | gaveUp => exact Or.inr rfl
    | unfinished => exact Or.inl rfl

theorem Refines.run_eq {y : Program δ σ α} (h : Refines x y) {s : σ} (hx : (x d s).1 ≠ .unfinished) :
    y d s = x d s :=
  ((h d s).resolve_left hx).symm

end Program
