import Pippin.Lib.Words

/-! The object zones of `zones.rs`: handles pack a zone, a slot and the generation of the
slot. Every call runs with interrupts off; the caller's process id is an argument. -/

namespace Pippin.Zones

abbrev maxZones : Nat := 4
abbrev objectsPerZone : Nat := 16
def objectBytes : Nat := 64

structure Object where
  used : Bool
  generation : UInt32
  kind : UInt16
  data : List UInt8
deriving DecidableEq, Repr

def Object.empty : Object := ⟨false, 1, 0, List.replicate objectBytes 0⟩

structure Zone where
  owner : UInt32
  objects : Fin objectsPerZone → Object

def Zone.empty : Zone := ⟨0, fun _ => Object.empty⟩

abbrev ZoneTable := Fin maxZones → Zone

def encode (zone object : Nat) (generation : UInt32) : UInt64 :=
  ((UInt64.ofNat zone + 1) <<< 48) ||| ((UInt64.ofNat object + 1) <<< 32) ||| generation.toUInt64

def decode (handle : UInt64) : Option (Fin maxZones × Fin objectsPerZone × UInt32) :=
  let z := ((handle >>> 48) &&& 0xFFFF).toNat
  let o := ((handle >>> 32) &&& 0xFFFF).toNat
  if h : z ≠ 0 ∧ z ≤ maxZones ∧ o ≠ 0 ∧ o ≤ objectsPerZone then
    some (⟨z - 1, by omega⟩, ⟨o - 1, by omega⟩, handle.toUInt32)
  else none

def zoneIndex (id : UInt8) : Option (Fin maxZones) :=
  if h : id.toNat ≠ 0 ∧ id.toNat ≤ maxZones then some ⟨id.toNat - 1, by omega⟩ else none

def setObject (zones : ZoneTable) (z : Fin maxZones) (o : Fin objectsPerZone) (obj : Object) : ZoneTable :=
  Function.update zones z { zones z with objects := Function.update (zones z).objects o obj }

def create (zones : ZoneTable) (pid : UInt32) : Option UInt8 × ZoneTable :=
  match (List.finRange maxZones).find? fun z => (zones z).owner = 0 with
  | some z => (some (UInt8.ofNat (z + 1)), Function.update zones z { Zone.empty with owner := pid })
  | none => (none, zones)

def alloc (zones : ZoneTable) (pid : UInt32) (zoneId : UInt8) (kind : UInt16) : Option UInt64 × ZoneTable :=
  match zoneIndex zoneId with
  | none => (none, zones)
  | some z =>
    if (zones z).owner = pid then
      match (List.finRange objectsPerZone).find? fun o => ((zones z).objects o).used = false with
      | some o =>
        let obj := (zones z).objects o
        (some (encode z o obj.generation),
          setObject zones z o { obj with used := true, kind, data := List.replicate objectBytes 0 })
      | none => (none, zones)
    else (none, zones)

/-- The check that `write`, `read` and `free` share. -/
def opens (zones : ZoneTable) (pid : UInt32) (z : Fin maxZones) (o : Fin objectsPerZone) (generation : UInt32) : Bool :=
  decide ((zones z).owner = pid) && ((zones z).objects o).used &&
    decide (((zones z).objects o).generation = generation)

def pad (data : List UInt8) : List UInt8 := data ++ (List.replicate objectBytes 0).drop data.length

def write (zones : ZoneTable) (pid : UInt32) (handle : UInt64) (data : List UInt8) : Bool × ZoneTable :=
  if data.length > objectBytes then (false, zones)
  else
    match decode handle with
    | none => (false, zones)
    | some (z, o, generation) =>
      if opens zones pid z o generation then
        (true, setObject zones z o { (zones z).objects o with data := pad data })
      else (false, zones)

def read (zones : ZoneTable) (pid : UInt32) (handle : UInt64) : Option (UInt16 × List UInt8) :=
  match decode handle with
  | none => none
  | some (z, o, generation) =>
    if opens zones pid z o generation then
      some (((zones z).objects o).kind, ((zones z).objects o).data)
    else none

def free (zones : ZoneTable) (pid : UInt32) (handle : UInt64) : Bool × ZoneTable :=
  match decode handle with
  | none => (false, zones)
  | some (z, o, generation) =>
    if opens zones pid z o generation then
      let obj := (zones z).objects o
      (true, setObject zones z o { obj with used := false, generation := max (obj.generation + 1) 1 })
    else (false, zones)

/-! ## Handles as words -/

variable {zones zones' : ZoneTable} {pid : UInt32} {z : Fin maxZones} {o : Fin objectsPerZone} {g : UInt32}
  {handle : UInt64}

theorem toNat_encode (z : Fin maxZones) (o : Fin objectsPerZone) (g : UInt32) :
    (encode z o g).toNat = (z + 1) * 2 ^ 48 + (o + 1) * 2 ^ 32 + g.toNat := by
  have hg := g.toNat_lt
  have hzlt : z.val < 4 := z.isLt
  have holt : o.val < 16 := o.isLt
  have hz : ((UInt64.ofNat z + 1) <<< 48).toNat = (z + 1) * 2 ^ 48 := by
    clear hzlt
    revert z
    decide
  have ho : ((UInt64.ofNat o + 1) <<< 32).toNat = (o + 1) * 2 ^ 32 := by
    clear holt
    revert o
    decide
  have hzo : (((UInt64.ofNat z + 1) <<< 48) ||| ((UInt64.ofNat o + 1) <<< 32)).toNat =
      (z + 1) * 2 ^ 48 + (o + 1) * 2 ^ 32 := by
    rw [Word.toNat_or_low (k := 48), hz, ho]
    · omega
    · omega
  rw [encode, Word.toNat_or_low (k := 32), hzo, UInt32.toNat_toUInt64]
  · omega
  · rw [UInt32.toNat_toUInt64]
    exact hg

theorem decode_fields (handle : UInt64) : ((handle >>> 48) &&& 0xFFFF).toNat = handle.toNat / 2 ^ 48 ∧
    ((handle >>> 32) &&& 0xFFFF).toNat = handle.toNat / 2 ^ 32 % 2 ^ 16 := by
  have hlt := handle.toNat_lt
  have hmask : ∀ x : UInt64, (x &&& 0xFFFF).toNat = x.toNat % 2 ^ 16 := fun x =>
    Word.toNat_and_pred (a := 0x10000) (k := 16) (by decide)
  rw [hmask, hmask, UInt64.toNat_shiftRight, UInt64.toNat_shiftRight]
  simp only [Nat.shiftRight_eq_div_pow]
  refine ⟨?_, rfl⟩
  show handle.toNat / 2 ^ 48 % 2 ^ 16 = _
  omega

theorem decode_encode (z : Fin maxZones) (o : Fin objectsPerZone) (g : UInt32) :
    decode (encode z o g) = some (z, o, g) := by
  have hn := toNat_encode z o g
  have hg := g.toNat_lt
  have hz : z.val < 4 := z.isLt
  have ho : o.val < 16 := o.isLt
  obtain ⟨h1, h2⟩ := decode_fields (encode z o g)
  have hzv : ((encode z o g) >>> 48 &&& 0xFFFF).toNat = z + 1 := by omega
  have hov : ((encode z o g) >>> 32 &&& 0xFFFF).toNat = o + 1 := by omega
  have hgv : (encode z o g).toUInt32 = g := by
    rw [← UInt32.toNat_inj, UInt64.toNat_toUInt32]
    omega
  unfold decode
  simp only [hzv, hov, hgv]
  rw [dif_pos (by omega)]
  simp

theorem eq_encode_of_decode (h : decode handle = some (z, o, g)) : handle = encode z o g := by
  obtain ⟨h1, h2⟩ := decode_fields handle
  have hlt := handle.toNat_lt
  unfold decode at h
  simp only [h1, h2] at h
  split_ifs at h with hr
  simp only [Option.some.injEq, Prod.mk.injEq] at h
  obtain ⟨rfl, rfl, rfl⟩ := h
  rw [← UInt64.toNat_inj, toNat_encode, UInt64.toNat_toUInt32]
  dsimp only
  omega

theorem encode_inj {z' : Fin maxZones} {o' : Fin objectsPerZone} {g' : UInt32}
    (h : encode z o g = encode z' o' g') : z = z' ∧ o = o' ∧ g = g' := by
  have hd := congrArg decode h
  rw [decode_encode, decode_encode] at hd
  simpa using hd

/-! ## The ledger of handles -/

structure Entry where
  zone : Fin maxZones
  kind : UInt16
  data : List UInt8

/-- Handles returned so far, those not yet freed with their contents, and how often each
slot was freed. -/
structure Ledger where
  returned : List UInt64
  live : UInt64 → Option Entry
  frees : Fin maxZones → Fin objectsPerZone → Nat

namespace Ledger

def allocated (l : Ledger) (handle : UInt64) (e : Entry) : Ledger :=
  { l with returned := handle :: l.returned, live := Function.update l.live handle (some e) }

def written (l : Ledger) (handle : UInt64) (data : List UInt8) : Ledger :=
  { l with live := Function.update l.live handle ((l.live handle).map fun e => { e with data := pad data }) }

def freed (l : Ledger) (handle : UInt64) (z : Fin maxZones) (o : Fin objectsPerZone) : Ledger :=
  { l with
    live := Function.update l.live handle none
    frees := Function.update l.frees z (Function.update (l.frees z) o (l.frees z o + 1)) }

theorem allocated_live (l : Ledger) (handle : UInt64) (e : Entry) : (l.allocated handle e).live handle = some e :=
  Function.update_self ..

/-- No slot was freed so often that its generation came round. -/
def Bounded (l : Ledger) : Prop := ∀ z o, l.frees z o < 2 ^ 32 - 1

end Ledger

/-- Every interleaving of the calls of processes; `read` changes nothing. -/
inductive Run : ZoneTable → Ledger → Prop
  | boot : Run (fun _ => Zone.empty) ⟨[], fun _ => none, fun _ _ => 0⟩
  | create {zones zones' l pid r} (hr : Run zones l) (hpid : pid ≠ 0) (hc : create zones pid = (r, zones')) :
      Run zones' l
  | alloc {zones zones' l pid zoneId z kind handle} (hr : Run zones l) (hpid : pid ≠ 0)
      (hz : zoneIndex zoneId = some z) (ha : alloc zones pid zoneId kind = (some handle, zones')) :
      Run zones' (l.allocated handle ⟨z, kind, List.replicate objectBytes 0⟩)
  | noAlloc {zones zones' l pid zoneId kind} (hr : Run zones l) (hpid : pid ≠ 0)
      (ha : alloc zones pid zoneId kind = (none, zones')) : Run zones' l
  | write {zones zones' l pid handle data} (hr : Run zones l) (hpid : pid ≠ 0)
      (hw : write zones pid handle data = (true, zones')) : Run zones' (l.written handle data)
  | noWrite {zones zones' l pid handle data} (hr : Run zones l) (hpid : pid ≠ 0)
      (hw : write zones pid handle data = (false, zones')) : Run zones' l
  | free {zones zones' l pid handle z o g} (hr : Run zones l) (hpid : pid ≠ 0)
      (hd : decode handle = some (z, o, g)) (hf : free zones pid handle = (true, zones')) :
      Run zones' (l.freed handle z o)
  | noFree {zones zones' l pid handle} (hr : Run zones l) (hpid : pid ≠ 0)
      (hf : free zones pid handle = (false, zones')) : Run zones' l

variable {l : Ledger} {kind : UInt16} {data : List UInt8} {zoneId : UInt8}

def entryAt (zones : ZoneTable) (z : Fin maxZones) (o : Fin objectsPerZone) (g : UInt32) : Option Entry :=
  let obj := (zones z).objects o
  if obj.used = true ∧ obj.generation = g then some ⟨z, obj.kind, obj.data⟩ else none

structure ZoneInv (zones : ZoneTable) (l : Ledger) : Prop where
  generation : ∀ z o, ((zones z).objects o).generation.toNat = l.frees z o + 1
  live : ∀ (z : Fin maxZones) (o : Fin objectsPerZone) g, l.live (encode z o g) = entryAt zones z o g
  outside : ∀ handle, decode handle = none → l.live handle = none
  returned : ∀ (z : Fin maxZones) (o : Fin objectsPerZone) g, encode z o g ∈ l.returned →
    g.toNat < ((zones z).objects o).generation.toNat ∨ g = ((zones z).objects o).generation ∧
      ((zones z).objects o).used = true
  unowned : ∀ z, (zones z).owner = 0 → (zones z).objects = fun _ => Object.empty

/-! ## One call -/

theorem setObject_owner (obj : Object) (z' : Fin maxZones) :
    (setObject zones z o obj z').owner = (zones z').owner := by
  unfold setObject
  by_cases h : z' = z
  · rw [h, Function.update_self]
  · rw [Function.update_of_ne h]

theorem setObject_self (obj : Object) : (setObject zones z o obj z).objects o = obj := by
  unfold setObject
  rw [Function.update_self]
  exact Function.update_self ..

theorem setObject_of_ne (obj : Object) {z' : Fin maxZones} {o' : Fin objectsPerZone} (h : ¬(z' = z ∧ o' = o)) :
    (setObject zones z o obj z').objects o' = (zones z').objects o' := by
  unfold setObject
  by_cases hz : z' = z
  · subst hz
    rw [Function.update_self]
    exact Function.update_of_ne (fun ho => h ⟨rfl, ho⟩) ..
  · rw [Function.update_of_ne hz]

theorem alloc_cases (zones : ZoneTable) (pid : UInt32) (zoneId : UInt8) (kind : UInt16) :
    alloc zones pid zoneId kind = (none, zones) ∨ ∃ z o, zoneIndex zoneId = some z ∧ (zones z).owner = pid ∧
      ((zones z).objects o).used = false ∧
      alloc zones pid zoneId kind = (some (encode z o ((zones z).objects o).generation), setObject zones z o
        { (zones z).objects o with used := true, kind, data := List.replicate objectBytes 0 }) := by
  unfold alloc
  cases hz : zoneIndex zoneId with
  | none => exact Or.inl rfl
  | some z =>
    dsimp only
    split_ifs with how
    · cases hf : (List.finRange objectsPerZone).find? fun o => ((zones z).objects o).used = false with
      | none => exact Or.inl rfl
      | some o => exact Or.inr ⟨z, o, rfl, how, by simpa using List.find?_some hf, rfl⟩
    · exact Or.inl rfl

theorem alloc_some (h : alloc zones pid zoneId kind = (some handle, zones')) : ∃ z o, zoneIndex zoneId = some z ∧
    (zones z).owner = pid ∧ ((zones z).objects o).used = false ∧
    handle = encode z o ((zones z).objects o).generation ∧ zones' = setObject zones z o
      { (zones z).objects o with used := true, kind, data := List.replicate objectBytes 0 } := by
  rcases alloc_cases zones pid zoneId kind with hn | ⟨z, o, hz, how, hf, hs⟩
  · rw [hn] at h
    cases h
  · rw [hs] at h
    cases h
    exact ⟨z, o, hz, how, hf, rfl, rfl⟩

theorem alloc_none (h : alloc zones pid zoneId kind = (none, zones')) : zones' = zones := by
  rcases alloc_cases zones pid zoneId kind with hn | ⟨z, o, -, -, -, hs⟩
  · rw [hn] at h
    cases h
    rfl
  · rw [hs] at h
    cases h

theorem write_eq (zones : ZoneTable) (pid : UInt32) (handle : UInt64) (data : List UInt8) :
    (∃ z o g, decode handle = some (z, o, g) ∧ opens zones pid z o g = true ∧ data.length ≤ 64 ∧
      write zones pid handle data = (true, setObject zones z o { (zones z).objects o with data := pad data })) ∨
    (write zones pid handle data = (false, zones) ∧ ∀ z o g, decode handle = some (z, o, g) →
      data.length ≤ 64 → opens zones pid z o g = false) := by
  unfold write
  by_cases hlen : data.length > objectBytes
  · rw [if_pos hlen]
    exact Or.inr ⟨rfl, fun _ _ _ _ hle => absurd hle (Nat.not_le.mpr hlen)⟩
  rw [if_neg hlen]
  cases hd : decode handle with
  | none => exact Or.inr ⟨rfl, nofun⟩
  | some p =>
    obtain ⟨z, o, g⟩ := p
    dsimp only
    cases ho : opens zones pid z o g with
    | true => exact Or.inl ⟨z, o, g, rfl, ho, Nat.not_lt.mp hlen, if_pos rfl⟩
    | false =>
      refine Or.inr ⟨if_neg Bool.false_ne_true, fun z' o' g' hd' _ => ?_⟩
      cases hd'
      exact ho

theorem free_eq (zones : ZoneTable) (pid : UInt32) (handle : UInt64) :
    (∃ z o g, decode handle = some (z, o, g) ∧ opens zones pid z o g = true ∧
      free zones pid handle = (true, setObject zones z o { (zones z).objects o with
        used := false, generation := max (((zones z).objects o).generation + 1) 1 })) ∨
    (free zones pid handle = (false, zones) ∧ ∀ z o g, decode handle = some (z, o, g) →
      opens zones pid z o g = false) := by
  unfold free
  cases hd : decode handle with
  | none => exact Or.inr ⟨rfl, nofun⟩
  | some p =>
    obtain ⟨z, o, g⟩ := p
    dsimp only
    cases ho : opens zones pid z o g with
    | true => exact Or.inl ⟨z, o, g, rfl, ho, if_pos rfl⟩
    | false =>
      refine Or.inr ⟨if_neg Bool.false_ne_true, fun z' o' g' hd' => ?_⟩
      cases hd'
      exact ho

theorem opens_iff : opens zones pid z o g = true ↔
    (zones z).owner = pid ∧ ((zones z).objects o).used = true ∧ ((zones z).objects o).generation = g := by
  simp only [opens, Bool.and_eq_true, decide_eq_true_eq, and_assoc]

theorem ZoneInv.opens_iff_live (hinv : ZoneInv zones l) (hd : decode handle = some (z, o, g)) :
    opens zones pid z o g = true ↔ ∃ e, l.live handle = some e ∧ (zones e.zone).owner = pid := by
  rw [eq_encode_of_decode hd, hinv.live, entryAt, opens_iff]
  split_ifs with h
  · simp [h]
  · simp only [false_and, exists_false, iff_false, not_and]
    exact fun _ hu hg => h ⟨hu, hg⟩

/-! ## Steps and runs -/

theorem ZoneInv.set {l' : Ledger} (hinv : ZoneInv zones l) (how : (zones z).owner ≠ 0) (obj : Object)
    (hgen : obj.generation.toNat = l'.frees z o + 1)
    (hfrees : ∀ z' o', ¬(z' = z ∧ o' = o) → l'.frees z' o' = l.frees z' o')
    (hself : ∀ g, l'.live (encode z o g) =
      if obj.used = true ∧ obj.generation = g then some ⟨z, obj.kind, obj.data⟩ else none)
    (hlive : ∀ handle, (∀ g, handle ≠ encode z o g) → l'.live handle = l.live handle)
    (hold : ∀ g, encode z o g ∈ l'.returned →
      g.toNat < obj.generation.toNat ∨ g = obj.generation ∧ obj.used = true)
    (hret : ∀ handle, (∀ g, handle ≠ encode z o g) → handle ∈ l'.returned → handle ∈ l.returned) :
    ZoneInv (setObject zones z o obj) l' := by
  have hne : ∀ {z' : Fin maxZones} {o' : Fin objectsPerZone} {g' : UInt32}, ¬(z' = z ∧ o' = o) →
      ∀ g, encode z' o' g' ≠ encode z o g := fun h _ he => h ⟨(encode_inj he).1, (encode_inj he).2.1⟩
  refine ⟨fun z' o' => ?_, fun z' o' g => ?_, fun handle hd => ?_, fun z' o' g hm => ?_, fun z' h => ?_⟩
  · by_cases he : z' = z ∧ o' = o
    · rw [he.1, he.2, setObject_self, hgen]
    · rw [setObject_of_ne _ he, hfrees z' o' he]
      exact hinv.generation z' o'
  · by_cases he : z' = z ∧ o' = o
    · rw [he.1, he.2, hself, entryAt, setObject_self]
    · rw [hlive _ (hne he), hinv.live, entryAt, entryAt, setObject_of_ne _ he]
  · rw [hlive handle fun g he => ?_, hinv.outside handle hd]
    rw [he, decode_encode] at hd
    cases hd
  · by_cases he : z' = z ∧ o' = o
    · rw [he.1, he.2] at hm ⊢
      rw [setObject_self]
      exact hold g hm
    · rw [setObject_of_ne _ he]
      exact hinv.returned z' o' g (hret _ (hne he) hm)
  · rw [setObject_owner] at h
    have hz : z' ≠ z := fun he => how (he ▸ h)
    funext o'
    rw [setObject_of_ne obj fun hc => hz hc.1, hinv.unowned z' h]

theorem ZoneInv.create {r : Option UInt8} (hinv : ZoneInv zones l) (hc : create zones pid = (r, zones')) :
    ZoneInv zones' l := by
  unfold Zones.create at hc
  cases hf : (List.finRange maxZones).find? fun z => (zones z).owner = 0 with
  | none =>
    rw [hf] at hc
    cases hc
    exact hinv
  | some z =>
    rw [hf] at hc
    cases hc
    have hfree : (zones z).owner = 0 := by simpa using List.find?_some hf
    -- the zone was never used, so that clearing it changes its owner only
    have hobj : ∀ z', (Function.update zones z { Zone.empty with owner := pid } z').objects = (zones z').objects := by
      intro z'
      by_cases he : z' = z
      · rw [he, Function.update_self, hinv.unowned z hfree]
        rfl
      · rw [Function.update_of_ne he]
    refine ⟨fun z' o => ?_, fun z' o g => ?_, hinv.outside, fun z' o g hm => ?_, fun z' h => ?_⟩
    · rw [hobj]
      exact hinv.generation z' o
    · rw [hinv.live, entryAt, entryAt, hobj]
    · rw [hobj]
      exact hinv.returned z' o g hm
    · rw [hobj]
      refine hinv.unowned z' ?_
      by_cases he : z' = z
      · rwa [he]
      · rwa [Function.update_of_ne he] at h

theorem ZoneInv.alloc (hinv : ZoneInv zones l) (hpid : pid ≠ 0) (hz : zoneIndex zoneId = some z)
    (ha : alloc zones pid zoneId kind = (some handle, zones')) :
    handle ∉ l.returned ∧ ZoneInv zones' (l.allocated handle ⟨z, kind, List.replicate objectBytes 0⟩) := by
  obtain ⟨z', o, hz', how, hfree, rfl, rfl⟩ := alloc_some ha
  rw [hz] at hz'
  cases hz'
  have hold : ∀ g, encode z o g ∈ l.returned → g.toNat < ((zones z).objects o).generation.toNat := by
    intro g hm
    rcases hinv.returned z o g hm with h | ⟨-, h⟩
    · exact h
    · rw [hfree] at h
      cases h
  refine ⟨fun hm => Nat.lt_irrefl _ (hold _ hm), hinv.set (how ▸ hpid) _ (hinv.generation z o) (fun _ _ _ => rfl)
    (fun g => ?_) (fun h hne => Function.update_of_ne (hne _) ..) (fun g hm => ?_) fun h hne hm => ?_⟩
  · dsimp only
    by_cases hg : g = ((zones z).objects o).generation
    · rw [hg, if_pos ⟨rfl, rfl⟩]
      exact Function.update_self ..
    · rw [if_neg fun hc => hg hc.2.symm]
      refine (Function.update_of_ne (fun hc => hg (encode_inj hc).2.2) ..).trans ?_
      rw [hinv.live, entryAt, if_neg fun hc => Bool.false_ne_true (hfree.symm.trans hc.1)]
  · rcases List.mem_cons.mp hm with hm | hm
    · exact Or.inr ⟨(encode_inj hm).2.2, rfl⟩
    · exact Or.inl (hold g hm)
  · exact (List.mem_cons.mp hm).resolve_left (hne _)

theorem ZoneInv.write (hinv : ZoneInv zones l) (hpid : pid ≠ 0) (hw : write zones pid handle data = (true, zones')) :
    ZoneInv zones' (l.written handle data) := by
  rcases write_eq zones pid handle data with ⟨z, o, g, hd, ho, -, heq⟩ | ⟨heq, -⟩
  swap
  · rw [heq] at hw
    cases hw
  rw [heq] at hw
  cases hw
  obtain ⟨how, hused, hgen⟩ := opens_iff.mp ho
  rw [eq_encode_of_decode hd]
  refine hinv.set (how ▸ hpid) _ (hinv.generation z o) (fun _ _ _ => rfl) (fun g' => ?_)
    (fun h hne => Function.update_of_ne (hne _) ..) (hinv.returned z o) fun _ _ hm => hm
  dsimp only
  by_cases hg : g' = g
  · rw [hg, if_pos ⟨hused, hgen⟩]
    refine (Function.update_self ..).trans ?_
    rw [hinv.live, entryAt, if_pos ⟨hused, hgen⟩]
    rfl
  · have hno : ¬(((zones z).objects o).used = true ∧ ((zones z).objects o).generation = g') := fun hc =>
      hg (hc.2.symm.trans hgen)
    rw [if_neg hno]
    refine (Function.update_of_ne (fun hc => hg (encode_inj hc).2.2) ..).trans ?_
    rw [hinv.live, entryAt, if_neg hno]

theorem toNat_next {g : UInt32} (h : g.toNat + 1 < 2 ^ 32) : (max (g + 1) 1).toNat = g.toNat + 1 := by
  have hadd : (g + 1).toNat = g.toNat + 1 := by
    rw [UInt32.toNat_add]
    exact Nat.mod_eq_of_lt h
  show (if g + 1 ≤ 1 then 1 else g + 1).toNat = _
  split_ifs with hle
  · rw [UInt32.le_iff_toNat_le, hadd] at hle
    exact Nat.le_antisymm (Nat.le_add_left 1 _) hle
  · exact hadd

theorem Ledger.freed_frees (l : Ledger) (handle : UInt64) (z z' : Fin maxZones) (o o' : Fin objectsPerZone) :
    (l.freed handle z o).frees z' o' = if z' = z ∧ o' = o then l.frees z o + 1 else l.frees z' o' := by
  show Function.update l.frees z (Function.update (l.frees z) o (l.frees z o + 1)) z' o' = _
  by_cases hz : z' = z
  · subst hz
    rw [Function.update_self]
    by_cases ho : o' = o
    · rw [ho, Function.update_self, if_pos ⟨rfl, rfl⟩]
    · rw [Function.update_of_ne ho, if_neg fun hc => ho hc.2]
  · rw [Function.update_of_ne hz, if_neg fun hc => hz hc.1]

theorem Ledger.Bounded.of_freed (h : (l.freed handle z o).Bounded) : l.Bounded := by
  intro z' o'
  have hb := h z' o'
  rw [Ledger.freed_frees] at hb
  split_ifs at hb with he
  · obtain ⟨rfl, rfl⟩ := he
    omega
  · exact hb

theorem ZoneInv.free (hinv : ZoneInv zones l) (hpid : pid ≠ 0) (hd : decode handle = some (z, o, g))
    (hb : (l.freed handle z o).Bounded) (hf : free zones pid handle = (true, zones')) :
    ZoneInv zones' (l.freed handle z o) := by
  rcases free_eq zones pid handle with ⟨z₁, o₁, g₁, hd₁, ho, heq⟩ | ⟨heq, -⟩
  swap
  · rw [heq] at hf
    cases hf
  rw [hd] at hd₁
  cases hd₁
  rw [heq] at hf
  cases hf
  obtain ⟨how, hused, hgen⟩ := opens_iff.mp ho
  have hb' := hb z o
  rw [Ledger.freed_frees, if_pos ⟨rfl, rfl⟩] at hb'
  have hnow := hinv.generation z o
  have hnext := toNat_next (g := ((zones z).objects o).generation) (by omega)
  rw [eq_encode_of_decode hd]
  refine hinv.set (how ▸ hpid) _ ?_ (fun z' o' he => ?_) (fun g' => ?_)
    (fun h hne => Function.update_of_ne (hne _) ..) (fun g' hm => ?_) fun _ _ hm => hm
  · rw [Ledger.freed_frees, if_pos ⟨rfl, rfl⟩, hnext, hnow]
  · rw [Ledger.freed_frees, if_neg he]
  · rw [if_neg fun hc => Bool.false_ne_true hc.1]
    by_cases hg : g' = g
    · rw [hg]
      exact Function.update_self ..
    · refine (Function.update_of_ne (fun hc => hg (encode_inj hc).2.2) ..).trans ?_
      rw [hinv.live, entryAt, if_neg fun hc => hg (hc.2.symm.trans hgen)]
  · dsimp only
    rw [hnext]
    rcases hinv.returned z o g' hm with h | ⟨rfl, -⟩
    · exact Or.inl (Nat.lt_succ_of_lt h)
    · exact Or.inl (Nat.lt_succ_self _)

theorem Run.inv (hr : Run zones l) (hb : l.Bounded) : ZoneInv zones l := by
  induction hr with
  | boot =>
    refine ⟨fun _ _ => rfl, fun _ _ _ => ?_, fun _ _ => rfl, fun _ _ _ hm => ?_, fun _ _ => rfl⟩
    · rw [entryAt, if_neg]
      exact fun hc => Bool.false_ne_true hc.1
    · cases hm
  | create _ _ hc ih => exact (ih hb).create hc
  | alloc _ hpid hz ha ih => exact ((ih hb).alloc hpid hz ha).2
  | noAlloc _ _ ha ih =>
    rw [alloc_none ha]
    exact ih hb
  | write _ hpid hw ih => exact (ih hb).write hpid hw
  | @noWrite zones _ _ pid handle data _ _ hw ih =>
    rcases write_eq zones pid handle data with ⟨_, _, _, -, -, -, heq⟩ | ⟨heq, -⟩
    · rw [heq] at hw
      cases hw
    · rw [heq] at hw
      cases hw
      exact ih hb
  | free _ hpid hd hf ih => exact (ih hb.of_freed).free hpid hd hb hf
  | @noFree zones _ _ pid handle _ _ hf ih =>
    rcases free_eq zones pid handle with ⟨_, _, _, -, -, heq⟩ | ⟨heq, -⟩
    · rw [heq] at hf
      cases hf
    · rw [heq] at hf
      cases hf
      exact ih hb

/-- The calls of a process `pid` against the ledger. -/
structure HandleLaw (zones : ZoneTable) (l : Ledger) : Prop where
  alloc_new : ∀ pid zoneId kind handle zones', pid ≠ 0 →
    alloc zones pid zoneId kind = (some handle, zones') → handle ∉ l.returned
  read_iff : ∀ pid handle kind data, read zones pid handle = some (kind, data) ↔
    ∃ e, l.live handle = some e ∧ (zones e.zone).owner = pid ∧ e.kind = kind ∧ e.data = data
  write_iff : ∀ pid handle data, (write zones pid handle data).1 = true ↔
    data.length ≤ 64 ∧ ∃ e, l.live handle = some e ∧ (zones e.zone).owner = pid
  free_iff : ∀ pid handle, (free zones pid handle).1 = true ↔
    ∃ e, l.live handle = some e ∧ (zones e.zone).owner = pid
  create_failed : ∀ pid zones', create zones pid = (none, zones') → zones' = zones
  alloc_failed : ∀ pid zoneId kind zones', alloc zones pid zoneId kind = (none, zones') → zones' = zones
  write_failed : ∀ pid handle data zones', write zones pid handle data = (false, zones') → zones' = zones
  free_failed : ∀ pid handle zones', free zones pid handle = (false, zones') → zones' = zones

theorem create_none (h : create zones pid = (none, zones')) : zones' = zones := by
  unfold create at h
  cases hf : (List.finRange maxZones).find? fun z => (zones z).owner = 0 with
  | none =>
    rw [hf] at h
    cases h
    rfl
  | some z =>
    rw [hf] at h
    cases h

theorem ZoneInv.read_iff (hinv : ZoneInv zones l) : read zones pid handle = some (kind, data) ↔
    ∃ e, l.live handle = some e ∧ (zones e.zone).owner = pid ∧ e.kind = kind ∧ e.data = data := by
  unfold read
  cases hd : decode handle with
  | none =>
    rw [hinv.outside handle hd]
    simp
  | some p =>
    obtain ⟨z, o, g⟩ := p
    dsimp only
    rw [eq_encode_of_decode hd, hinv.live, entryAt]
    by_cases ho : opens zones pid z o g = true
    · obtain ⟨how, hused, hgen⟩ := opens_iff.mp ho
      rw [if_pos ho, if_pos ⟨hused, hgen⟩]
      simp [how]
    · rw [if_neg ho]
      split_ifs with hlive
      · rw [opens_iff, not_and] at ho
        simp only [false_iff, Option.some.injEq, exists_eq_left', not_and]
        exact fun how => absurd hlive (ho how)
      · simp

/-- Handle safety: a handle works for the owner of its zone from its allocation to its
release and never again, and no other word works at all. -/
theorem handles_safe (hr : Run zones l) (hb : l.Bounded) : HandleLaw zones l := by
  have hinv := hr.inv hb
  -- each clause reads the simulation at one operation
  refine ⟨fun pid zoneId kind handle zones' hpid ha => ?_, fun pid handle kind data => hinv.read_iff,
    fun pid handle data => ?_, fun pid handle => ?_, fun pid zones' hc => create_none hc,
    fun pid zoneId kind zones' ha => alloc_none ha, fun pid handle data zones' hw => ?_,
    fun pid handle zones' hf => ?_⟩
  · obtain ⟨z, o, hz, -⟩ := alloc_some ha
    exact (hinv.alloc hpid hz ha).1
  · rcases write_eq zones pid handle data with ⟨z, o, g, hd, ho, hlen, heq⟩ | ⟨heq, hno⟩
    · rw [heq]
      exact ⟨fun _ => ⟨hlen, (hinv.opens_iff_live hd).mp ho⟩, fun _ => rfl⟩
    · rw [heq]
      refine ⟨nofun, fun ⟨hlen, e, he, how⟩ => ?_⟩
      cases hd : decode handle with
      | none =>
        rw [hinv.outside handle hd] at he
        cases he
      | some p => exact (hno _ _ _ hd hlen).symm.trans ((hinv.opens_iff_live hd).mpr ⟨e, he, how⟩)
  · rcases free_eq zones pid handle with ⟨z, o, g, hd, ho, heq⟩ | ⟨heq, hno⟩
    · rw [heq]
      exact ⟨fun _ => (hinv.opens_iff_live hd).mp ho, fun _ => rfl⟩
    · rw [heq]
      refine ⟨nofun, fun ⟨e, he, how⟩ => ?_⟩
      cases hd : decode handle with
      | none =>
        rw [hinv.outside handle hd] at he
        cases he
      | some p => exact (hno _ _ _ hd).symm.trans ((hinv.opens_iff_live hd).mpr ⟨e, he, how⟩)
  · rcases write_eq zones pid handle data with ⟨_, _, _, -, -, -, heq⟩ | ⟨heq, -⟩
    · rw [heq] at hw
      cases hw
    · rw [heq] at hw
      cases hw
      rfl
  · rcases free_eq zones pid handle with ⟨_, _, _, -, -, heq⟩ | ⟨heq, -⟩
    · rw [heq] at hf
      cases hf
    · rw [heq] at hf
      cases hf
      rfl

theorem run_first : ∃ zones l, Run zones l ∧ l.Bounded ∧ (zones 0).owner = 1 ∧
    l.live (encode 0 0 1) = some ⟨0, 7, List.replicate 64 0⟩ := by
  have hc : create (fun _ => Zone.empty) 1 = (some 1, _) := rfl
  have ha : alloc (create (fun _ => Zone.empty) 1).2 1 1 7 = (some (encode 0 0 1), _) := rfl
  have hz : zoneIndex 1 = some 0 := rfl
  refine ⟨_, _, (Run.boot.create (by decide) hc).alloc (by decide) hz ha, fun _ _ => ?_, rfl, ?_⟩
  · exact (by decide : 0 < 2 ^ 32 - 1)
  · exact Ledger.allocated_live ..

theorem handles_safe_first : ∃ zones l, Run zones l ∧ l.Bounded ∧
    read zones 1 (encode 0 0 1) = some (7, List.replicate 64 0) ∧ read zones 2 (encode 0 0 1) = none := by
  obtain ⟨zones, l, hr, hb, how, hlive⟩ := run_first
  have hlaw := handles_safe hr hb
  refine ⟨zones, l, hr, hb, (hlaw.read_iff ..).mpr ⟨_, hlive, how, rfl, rfl⟩, ?_⟩
  rw [Option.eq_none_iff_forall_ne_some]
  rintro ⟨kind, data⟩ hc
  obtain ⟨e, he, how', -⟩ := (hlaw.read_iff ..).mp hc
  cases hlive.symm.trans he
  cases how.symm.trans how'

/-- The owner of a live handle cannot write more than an object holds. -/
theorem write_too_long : ¬∀ zones l, Run zones l → l.Bounded → ∀ pid handle data, pid ≠ 0 →
    ((write zones pid handle data).1 = true ↔ ∃ e, l.live handle = some e ∧ (zones e.zone).owner = pid) := by
  intro hall
  obtain ⟨zones, l, hr, hb, how, hlive⟩ := run_first
  have hok := (hall zones l hr hb 1 (encode 0 0 1) (List.replicate 65 0) (by decide)).mpr ⟨_, hlive, how⟩
  have hlen : (List.replicate 65 (0 : UInt8)).length > objectBytes := by decide
  rw [write, if_pos hlen] at hok
  cases hok

end Pippin.Zones
