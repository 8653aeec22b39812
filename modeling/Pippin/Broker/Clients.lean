import Pippin.Client.WindowServer
import Mathlib.Logic.Function.Basic

/-! What the broker checks of a client's line before it goes to the guest: the second field
is a window id, which the client owns or, with `WC`, takes. -/

namespace Pippin.Broker
open Str

abbrev Owners (κ : Type) := UInt32 → Option κ

def fields (line : Str) : Option (Str × Str) :=
  (splitOnce '|' line).map fun p => (p.1, ((splitOnce '|' p.2).map Prod.fst).getD p.2)

def windowId (line : Str) : Option UInt32 := do
  let id ← tryParseUInt (← fields line).2
  if id = 0 then none else return id

def creates (line : Str) : Bool := (fields line).any fun f => f.1 == "WC".toList
def destroys (line : Str) : Bool := (fields line).any fun f => f.1 == "WD".toList

inductive Admission where
  | badWindowId
  | windowOwnership
  | forward (id : UInt32)
deriving DecidableEq, Repr

variable {κ : Type} [DecidableEq κ] {owners owners' : Owners κ} {client : κ} {line : Str} {id : UInt32}

def checkOwner (owners : Owners κ) (client : κ) (line : Str) : Admission × Owners κ :=
  match windowId line with
  | none => (.badWindowId, owners)
  | some id =>
    if creates line then
      if owners id = none then (.forward id, Function.update owners id (some client)) else (.windowOwnership, owners)
    else if owners id = some client then (.forward id, owners)
    else (.windowOwnership, owners)

def sendable (line : Str) : Bool := decide (line.units ≤ 380)

theorem checkOwner_forward (h : checkOwner owners client line = (.forward id, owners')) :
    windowId line = some id ∧ owners' id = some client ∧ (∀ a, a ≠ id → owners' a = owners a) ∧
      (creates line = true ∧ owners id = none ∨ creates line = false ∧ owners id = some client) := by
  unfold checkOwner at h
  split at h
  · cases h
  · rename_i id' hid
    split at h
    · rename_i hcreates
      split at h
      · rename_i hnone
        cases h
        exact ⟨hid, Function.update_self _ _ _, fun a ha => Function.update_of_ne ha _ _, Or.inl ⟨hcreates, hnone⟩⟩
      · cases h
    · rename_i hcreates
      split at h
      · rename_i howner
        cases h
        exact ⟨hid, howner, fun _ _ => rfl, Or.inr ⟨Bool.eq_false_iff.mpr hcreates, howner⟩⟩
      · cases h

theorem windowId_ne (h : windowId line = some id) : id ≠ 0 := by
  unfold windowId at h
  obtain ⟨f, -, h⟩ := Option.bind_eq_some_iff.mp h
  obtain ⟨n, -, h⟩ := Option.bind_eq_some_iff.mp h
  split at h
  · cases h
  · rename_i h0
    cases h
    exact h0

theorem fields_of_address {op : Option Client.Op} {args : List Str} (h : Client.address line = some (op, id, args)) :
    ∃ head field, fields line = some (head, field) ∧ op = Client.Op.read head ∧ tryParseUInt field = some id ∧
    id ≠ 0 := by
  unfold Client.address at h
  split at h
  · rename_i head field args' hsplit
    obtain ⟨n, hn, h⟩ := Option.bind_eq_some_iff.mp h
    have hfield : fields line = some (head, field) := by
      unfold fields
      rw [splitOn_eq] at hsplit
      split at hsplit
      · rename_i l r hl
        rw [hl]
        rw [splitOn_eq] at hsplit
        split at hsplit
        · rename_i l' r' hl'
          cases hsplit
          simp [hl']
        · rename_i hr
          cases hsplit
          simp [hr]
      · cases hsplit
    split_ifs at h with h0
    cases h
    exact ⟨head, field, hfield, rfl, tryParseUInt_of_parseU32 hn, h0⟩
  · cases h

theorem windowId_of_address {op : Option Client.Op} {args : List Str} (h : Client.address line = some (op, id, args)) :
    windowId line = some id := by
  obtain ⟨head, field, hfields, -, hid, h0⟩ := fields_of_address h
  unfold windowId
  rw [hfields]
  dsimp only [Option.bind_eq_bind, Option.bind_some]
  rw [hid]
  simp [h0]

theorem creates_of_address {args : List Str} (h : Client.address line = some (some .WC, id, args)) :
    creates line = true ∧ destroys line = false := by
  obtain ⟨head, field, hfields, hop, -, -⟩ := fields_of_address h
  have hhead : head = "WC".toList := by
    unfold Client.Op.read at hop
    split at hop <;> first | rfl | cases hop
  unfold creates destroys
  rw [hfields, hhead]
  exact ⟨rfl, rfl⟩

theorem destroys_line (h : destroys line = true) : (∃ rest, line = 'W' :: rest) ∧
    ∀ op id args, Client.address line = some (op, id, args) → op = some .WD := by
  unfold destroys at h
  cases hf : fields line with
  | none =>
    rw [hf] at h
    cases h
  | some f =>
    rw [hf] at h
    have hhead : f.1 = "WD".toList := by simpa using h
    obtain ⟨⟨l, r⟩, hsplit, he⟩ := Option.map_eq_some_iff.mp hf
    refine ⟨⟨'D' :: '|' :: r, ?_⟩, fun op id args haddr => ?_⟩
    · have hl : l = "WD".toList := by
        rw [← hhead, ← he]
      rw [(splitOnce_some hsplit).1, hl]
      rfl
    · obtain ⟨head, field, hfields, rfl, -, -⟩ := fields_of_address haddr
      rw [hf] at hfields
      cases hfields
      rw [show head = "WD".toList from hhead]
      rfl

end Pippin.Broker
