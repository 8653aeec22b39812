import Mathlib.Algebra.Order.Ring.Int
import Mathlib.Data.List.Infix
import Mathlib.Logic.Relation

/-! A client that asks one question at a time. Questions and answers travel in order; the server answers each question
once, and the client takes an answer for the answer to the question it asked last. -/

universe u v

/-- What the client waits for, what is on the way, and what has happened so far. -/
structure LockStep (α : Type u) (β : Type v) where
  waiting : Option α
  questions : List α
  answers : List β
  sent : List α
  answered : List (α × β)
  outcomes : List (α × β)

namespace LockStep

variable {α : Type u} {β : Type v} {s t : LockStep α β}

def new : LockStep α β := ⟨none, [], [], [], [], []⟩

inductive Step : LockStep α β → LockStep α β → Prop where
  | ask {s : LockStep α β} (a : α) (h : s.waiting = none) : Step s
      { s with waiting := some a, questions := s.questions ++ [a], sent := s.sent ++ [a] }
  | answer {s : LockStep α β} {a : α} {rest : List α} (b : β) (h : s.questions = a :: rest) : Step s
      { s with questions := rest, answers := s.answers ++ [b], answered := s.answered ++ [(a, b)] }
  | take {s : LockStep α β} {a : α} {b : β} {rest : List β} (hw : s.waiting = some a) (h : s.answers = b :: rest) :
      Step s { s with waiting := none, answers := rest, outcomes := s.outcomes ++ [(a, b)] }

def asks (s : LockStep α β) (question : Option α) : LockStep α β :=
  { s with waiting := question, questions := s.questions ++ question.toList, sent := s.sent ++ question.toList }

theorem run_asks (h : s.waiting = none) (question : Option α) : Relation.ReflTransGen Step s (s.asks question) := by
  cases question with
  | none =>
    have hsame : s.asks none = s := by
      obtain ⟨waiting, questions, answers, sent, answered, outcomes⟩ := s
      cases h
      simp [asks]
    rw [hsame]
  | some a => exact .single (.ask a h)

def takes (s : LockStep α β) (a : α) (b : β) (rest : List β) : LockStep α β :=
  { s with waiting := none, answers := rest, outcomes := s.outcomes ++ [(a, b)] }

/-- Either nothing is on the way, or the last question, or the answer to it. -/
inductive Sync : LockStep α β → Prop where
  | idle (past : List (α × β)) : Sync ⟨none, [], [], past.map Prod.fst, past, past⟩
  | asked (past : List (α × β)) (a : α) : Sync ⟨some a, [a], [], past.map Prod.fst ++ [a], past, past⟩
  | answered (past : List (α × β)) (a : α) (b : β) :
      Sync ⟨some a, [], [b], past.map Prod.fst ++ [a], past ++ [(a, b)], past⟩

theorem sync_new : Sync (new : LockStep α β) := .idle []

theorem Sync.step (h : Sync s) (hstep : Step s t) : Sync t := by
  cases h with
  | idle past =>
    cases hstep with
    | ask a _ => exact .asked past a
    | answer b h => cases h
    | take hw h => cases hw
  | asked past a =>
    cases hstep with
    | ask _ h => cases h
    | answer b h =>
      cases h
      exact .answered past a b
    | take hw h => cases h
  | answered past a b =>
    cases hstep with
    | ask _ h => cases h
    | answer _ h => cases h
    | take hw h =>
      cases hw
      cases h
      have hmap : (past ++ [(a, b)]).map Prod.fst = past.map Prod.fst ++ [a] := List.map_append
      exact hmap ▸ .idle (past ++ [(a, b)])

theorem Sync.run (h : Sync s) (hrun : Relation.ReflTransGen Step s t) : Sync t := by
  induction hrun with
  | refl => exact h
  | tail _ hstep ih => exact ih.step hstep

theorem Sync.outcomes (h : Sync s) : s.outcomes <+: s.answered := by
  cases h with
  | idle past => exact List.prefix_rfl
  | asked past a => exact List.prefix_rfl
  | answered past a b => exact List.prefix_append _ _

theorem Sync.sent (h : Sync s) : s.sent = s.outcomes.map Prod.fst ++ s.waiting.toList := by
  cases h with
  | idle past => exact (List.append_nil _).symm
  | asked past a => rfl
  | answered past a b => rfl

theorem Sync.answered_sent (h : Sync s) : s.answered.map Prod.fst <+: s.sent := by
  cases h with
  | idle past => exact List.prefix_rfl
  | asked past a => exact List.prefix_append _ _
  | answered past a b => simp

theorem Sync.idle_empty (h : Sync s) (hidle : s.waiting = none) :
    s.questions = [] ∧ s.answers = [] ∧ s.answered = s.outcomes := by
  cases h with
  | idle past => exact ⟨rfl, rfl, rfl⟩
  | asked past a => cases hidle
  | answered past a b => cases hidle

theorem Sync.waiting_way (h : Sync s) {a : α} (hw : s.waiting = some a) :
    s.questions = [a] ∧ s.answers = [] ∧ s.answered = s.outcomes ∨
      ∃ b, s.questions = [] ∧ s.answers = [b] ∧ s.answered = s.outcomes ++ [(a, b)] := by
  cases h with
  | idle past => cases hw
  | asked past a' =>
    cases hw
    exact Or.inl ⟨rfl, rfl, rfl⟩
  | answered past a' b =>
    cases hw
    exact Or.inr ⟨b, rfl, rfl, rfl⟩

end LockStep
