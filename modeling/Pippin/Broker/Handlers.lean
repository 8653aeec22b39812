import Pippin.Broker.GuestWindows

/-! `HandleClientAsync` for any number of clients, with the task that forwards events. Every
await is a place where others may run; each call of the guest has its own reply. The creator
of a window is a ghost. -/

namespace Pippin.Broker
open Native (Compositor)
open Native.Compositor (new)

variable {κ : Type}

inductive Handler where
  | reading
  | calling (line : Str) (id : UInt32)
  | answered (line : Str) (id : UInt32) (accepted : Bool)
  | confirming (line : Str) (id : UInt32)
  | refusing
  | cleaning (ids : List UInt32)
  | destroying (id : UInt32) (ids : List UInt32)
  | destroyed (ids : List UInt32)
  | finished

structure System (κ : Type) where
  owners : Owners κ
  desktop : Option Compositor
  creator : UInt32 → Option κ
  handler : κ → Option Handler
  event : Option (UInt32 × κ)

/-- Input in the guest: keys, the pointer, test windows, entering and leaving the desktop. -/
inductive GuestInput : Option Compositor → Option Compositor → Prop where
  | key {s t : Compositor} {action : Option Str} {events : List Client.Event} (scan : UInt8) (text : Option UInt8)
      (reverseFocus extended : Bool) (h : s.keyScancode scan text reverseFocus extended = .ok (t, action, events)) :
      GuestInput (some s) (some t)
  | pointer {s t : Compositor} {action : Option Str} {events : List Client.Event} (packet : UInt32)
      (h : s.pointerPacket packet = .ok (t, action, events)) : GuestInput (some s) (some t)
  | testWindow {s t : Compositor} (h : s.openTestWindow = .ok t) : GuestInput (some s) (some t)
  | command {s t : Compositor} {accepted : Bool} (line : Str) (h : s.command line = .ok (t, accepted)) :
      GuestInput (some s) (some t)
  | leave (desktop : Option Compositor) : GuestInput desktop none
  | enter (shell : List Native.ShellSurface) : GuestInput none (some (new shell))

inductive Label (κ : Type) where
  | connect (client : κ)
  | line (client : κ) (line : Str)
  | execute (client : κ)
  | resume (client : κ)
  | confirm (client : κ) (written : Bool)
  | refuse (client : κ) (written : Bool)
  | hangUp (client : κ)
  | release (client : κ)
  | destroy (client : κ)
  | next (client : κ)
  | finish (client : κ)
  | input
  | lookup (id : UInt32)
  | deliver (written : Bool)

def Opens (opened : Option Compositor) : Prop := ∀ u, opened = some u → ∃ shell, u = new shell

namespace System

def start : System κ := ⟨fun _ => none, none, fun _ => none, fun _ => none, none⟩

section Steps

variable [DecidableEq κ]

def goto (s : System κ) (client : κ) (h : Handler) : System κ :=
  { s with handler := Function.update s.handler client (some h) }

def drop (s : System κ) (id : UInt32) : System κ := { s with owners := Function.update s.owners id none }

/-- The guest answers a line of `client`; windows that were not there before are its own. -/
def answer (s : System κ) (client : κ) (desktop : Option Compositor) : System κ :=
  { s with desktop
           creator := fun id =>
             if id ∈ windowIds desktop ∧ id ∉ windowIds s.desktop then some client else s.creator id }

def Entries (s : System κ) (client : κ) (ids : List UInt32) : Prop :=
  ids.Nodup ∧ ∀ id, id ∈ ids ↔ s.owners id = some client

inductive Step (s : System κ) : Label κ → System κ → Prop where
  | connect {client : κ} (h : s.handler client = none) : Step s (.connect client) (s.goto client .reading)
  | refused {client : κ} {line : Str} (h : s.handler client = some .reading)
      (ha : ∀ id, (checkOwner s.owners client line).1 ≠ .forward id) :
      Step s (.line client line) (s.goto client .refusing)
  | forwarded {client : κ} {line : Str} {id : UInt32} {owners : Owners κ} (h : s.handler client = some .reading)
      (ha : checkOwner s.owners client line = (.forward id, owners)) (hl : sendable line = true) :
      Step s (.line client line) (goto { s with owners } client (.calling line id))
  | tooLong {client : κ} {line : Str} {id : UInt32} {owners : Owners κ} (h : s.handler client = some .reading)
      (ha : checkOwner s.owners client line = (.forward id, owners)) (hl : sendable line = false) :
      Step s (.line client line) (goto (if creates line then drop { s with owners } id else { s with owners }) client
        .refusing)
  | execute {client : κ} {line : Str} {id : UInt32} {opened desktop : Option Compositor} {reply : Reply}
      (h : s.handler client = some (.calling line id)) (ho : Opens opened) (hl : line.len ≤ maxLine)
      (hr : Bridge.answer (pollCommand opened) s.desktop line = (desktop, reply)) :
      Step s (.execute client) ((s.answer client desktop).goto client (.answered line id (reply = .A)))
  | accepted {client : κ} {line : Str} {id : UInt32} (h : s.handler client = some (.answered line id true)) :
      Step s (.resume client) (s.goto client (.confirming line id))
  | rejected {client : κ} {line : Str} {id : UInt32} (h : s.handler client = some (.answered line id false)) :
      Step s (.resume client) ((if creates line then s.drop id else s).goto client .refusing)
  | confirm {client : κ} {line : Str} {id : UInt32} (h : s.handler client = some (.confirming line id)) :
      Step s (.confirm client true) ((if destroys line then s.drop id else s).goto client .reading)
  -- the generic `catch`, although the guest has answered
  | confirmFails {client : κ} {line : Str} {id : UInt32} (h : s.handler client = some (.confirming line id)) :
      Step s (.confirm client false) ((if creates line then s.drop id else s).goto client .refusing)
  | refuse {client : κ} (h : s.handler client = some .refusing) :
      Step s (.refuse client true) (s.goto client .reading)
  | refuseFails {client : κ} {ids : List UInt32} (h : s.handler client = some .refusing) (hids : s.Entries client ids) :
      Step s (.refuse client false) (s.goto client (.cleaning ids))
  | hangUp {client : κ} {ids : List UInt32} (h : s.handler client = some .reading) (hids : s.Entries client ids) :
      Step s (.hangUp client) (s.goto client (.cleaning ids))
  -- the entry goes before the `WD` is sent
  | release {client : κ} {id : UInt32} {ids : List UInt32} (h : s.handler client = some (.cleaning (id :: ids))) :
      Step s (.release client) ((s.drop id).goto client (.destroying id ids))
  | destroy {client : κ} {id : UInt32} {ids : List UInt32} {opened : Option Compositor}
      (h : s.handler client = some (.destroying id ids)) (ho : Opens opened) :
      Step s (.destroy client) ((s.answer client (pollCommand opened s.desktop (destroyLine id)).2).goto client
        (.destroyed ids))
  | next {client : κ} {ids : List UInt32} (h : s.handler client = some (.destroyed ids)) :
      Step s (.next client) (s.goto client (.cleaning ids))
  | finish {client : κ} (h : s.handler client = some (.cleaning [])) :
      Step s (.finish client) (s.goto client .finished)
  | input {desktop : Option Compositor} (h : GuestInput s.desktop desktop) : Step s .input { s with desktop }
  | lookup {client : κ} {id : UInt32} (h : s.event = none) (ho : s.owners id = some client) :
      Step s (.lookup id) { s with event := some (id, client) }
  | deliver {client : κ} {id : UInt32} (h : s.event = some (id, client)) :
      Step s (.deliver true) { s with event := none }
  | deliverFails {client : κ} {id : UInt32} (h : s.event = some (id, client)) :
      Step s (.deliver false) { s.drop id with event := none }

/-- Runs whose steps all satisfy `ok`. -/
inductive Run (ok : System κ → Label κ → Prop) : System κ → Prop where
  | start : Run ok start
  | step {s t : System κ} {label : Label κ} (hs : Run ok s) (hok : ok s label) (h : Step s label t) : Run ok t

end Steps

/-- A window whose creator has finished is gone; until then it has its entry, unless the
cleanup has just taken the entry and sends its `WD`. -/
def NoOrphans (s : System κ) : Prop :=
  ∀ id ∈ windowIds s.desktop, ∀ client, s.creator id = some client →
    s.handler client ≠ some .finished ∧
    (s.owners id = some client ∨ ∃ ids, s.handler client = some (.destroying id ids))

/-- No `OK` for a `WC` is lost and no event for a window with an entry. -/
def Delivers (s : System κ) : Label κ → Prop
  | .confirm client false => ∀ line id, s.handler client = some (.confirming line id) → creates line = false
  | .deliver false => ∀ id client, s.event = some (id, client) → s.owners id = none
  | _ => True

end System

/-! ## The invariant -/

/-- The entry of `id` is not about to go, or the cleanup will come to it. -/
def Handler.Keeps (id : UInt32) : Handler → Prop
  | .reading | .refusing => True
  | .calling line i => ¬(creates line = true ∧ i = id)
  | .answered line i false => ¬(creates line = true ∧ i = id)
  | .answered line i true => ¬(destroys line = true ∧ i = id)
  | .confirming line i => ¬(destroys line = true ∧ i = id)
  | .cleaning ids | .destroying _ ids | .destroyed ids => id ∈ ids
  | .finished => False

def Handler.Holds (owners : Owners κ) (client : κ) : Handler → Prop
  | .calling line id | .answered line id _ | .confirming line id => windowId line = some id ∧ owners id = some client
  | .cleaning ids | .destroyed ids => ids.Nodup ∧ ∀ i ∈ ids, owners i = some client
  | .destroying id ids => id ≠ 0 ∧ ids.Nodup ∧ ∀ i ∈ ids, owners i = some client
  | _ => True

/-- The window `id` of `client` is looked after by handler `h`. -/
def Handler.Tracks (owners : Owners κ) (client : κ) (id : UInt32) (h : Handler) : Prop :=
  (∃ ids, h = .destroying id ids) ∨ owners id = some client ∧ h.Keeps id

variable {client : κ} {id : UInt32} {h : Handler}

theorem Handler.Holds.mono {owners owners' : Owners κ} (hh : h.Holds owners client)
    (ho : ∀ i, owners i = some client → owners' i = some client) : h.Holds owners' client := by
  cases h with
  | reading | refusing | finished => trivial
  | calling | answered | confirming => exact ⟨hh.1, ho _ hh.2⟩
  | cleaning | destroyed => exact ⟨hh.1, fun i hi => ho i (hh.2 i hi)⟩
  | destroying => exact ⟨hh.1, hh.2.1, fun i hi => ho i (hh.2.2 i hi)⟩

theorem Handler.Tracks.mono {owners owners' : Owners κ} (hh : h.Tracks owners client id)
    (ho : ∀ i, owners i = some client → owners' i = some client) : h.Tracks owners' client id :=
  hh.imp_right fun hk => ⟨ho id hk.1, hk.2⟩

theorem drop_some {owners : Owners κ} {i : UInt32} (h : Function.update owners id none i = some client) :
    i ≠ id ∧ owners i = some client := by
  by_cases hi : i = id
  · subst hi
    rw [Function.update_self] at h
    cases h
  · rw [Function.update_of_ne hi] at h
    exact ⟨hi, h⟩

theorem Handler.Tracks.drop {owners : Owners κ} {h' : Handler} {i : UInt32} (htr : h.Tracks owners client i)
    (hdestroy : ∀ ids, h ≠ .destroying i ids) (hkeeps : h.Keeps i → i ≠ id ∧ h'.Keeps i) :
    h'.Tracks (Function.update owners id none) client i := by
  rcases htr with ⟨ids, he⟩ | ⟨ho, hk⟩
  · exact absurd he (hdestroy ids)
  · obtain ⟨hi, hk'⟩ := hkeeps hk
    exact Or.inr ⟨(Function.update_of_ne hi _ _).trans ho, hk'⟩

theorem Handler.Tracks.keep {owners : Owners κ} {h' : Handler} (htr : h.Tracks owners client id)
    (hdestroy : ∀ ids, h ≠ .destroying id ids) (hkeeps : h.Keeps id → h'.Keeps id) : h'.Tracks owners client id := by
  rcases htr with ⟨ids, he⟩ | ⟨ho, hk⟩
  · exact absurd he (hdestroy ids)
  · exact Or.inr ⟨ho, hkeeps hk⟩

namespace System

variable {s t : System κ}

structure Inv (s : System κ) : Prop where
  healthy : Healthy s.desktop
  ids : ∀ id client, s.owners id = some client → id ≠ 0
  holds : ∀ client h, s.handler client = some h → h.Holds s.owners client
  tracked : ∀ id ∈ windowIds s.desktop, ∃ client h, s.creator id = some client ∧
    s.handler client = some h ∧ h.Tracks s.owners client id

theorem Inv.noOrphans (hs : s.Inv) : s.NoOrphans := by
  intro id hid client hcreator
  obtain ⟨c, h, hc, hh, htracks⟩ := hs.tracked id hid
  rw [hcreator] at hc
  cases hc
  rw [hh]
  rcases htracks with ⟨ids, rfl⟩ | ⟨howner, hkeeps⟩
  · exact ⟨nofun, Or.inr ⟨ids, rfl⟩⟩
  · refine ⟨fun he => ?_, Or.inl howner⟩
    rw [Option.some.inj he] at hkeeps
    exact hkeeps

theorem inv_start : (start : System κ).Inv := by
  refine ⟨fun s h => ?_, fun id c h => ?_, fun c k h => ?_, fun id h => absurd h List.not_mem_nil⟩ <;> cases h

theorem answer_creator (s : System κ) (client : κ) {desktop : Option Compositor} (hi : id ∈ windowIds desktop)
    (hn : id ∉ windowIds s.desktop) : (s.answer client desktop).creator id = some client := if_pos ⟨hi, hn⟩

section Preservation

variable [DecidableEq κ]

@[simp] theorem goto_handler_self (s : System κ) (client : κ) (h : Handler) :
    (s.goto client h).handler client = some h :=
  Function.update_self _ _ _

@[simp] theorem goto_handler_of_ne (s : System κ) {c : κ} (hc : c ≠ client) (h : Handler) :
    (s.goto client h).handler c = s.handler c := Function.update_of_ne hc _ _

@[simp] theorem goto_creator (s : System κ) (client : κ) (h : Handler) : (s.goto client h).creator = s.creator := rfl

theorem Inv.goto (hs : s.Inv) {h' : Handler} {owners : Owners κ} (hh : s.handler client = some h)
    (hother : ∀ i c, c ≠ client → s.owners i = some c → owners i = some c)
    (hids : ∀ i c, owners i = some c → i ≠ 0) (hholds : h'.Holds owners client)
    (htracks : ∀ id ∈ windowIds s.desktop, h.Tracks s.owners client id → h'.Tracks owners client id) :
    (System.goto { s with owners } client h').Inv := by
  refine ⟨hs.healthy, hids, fun c k hk => ?_, fun id hid => ?_⟩
  · by_cases hc : c = client
    · subst hc
      rw [goto_handler_self] at hk
      cases hk
      exact hholds
    · rw [goto_handler_of_ne _ hc] at hk
      exact (hs.holds c k hk).mono fun i => hother i c hc
  · obtain ⟨c, k, hcreator, hk, htr⟩ := hs.tracked id hid
    by_cases hc : c = client
    · subst hc
      rw [hh] at hk
      cases hk
      exact ⟨c, h', hcreator, goto_handler_self _ _ _, htracks id hid htr⟩
    · exact ⟨c, k, hcreator, (goto_handler_of_ne _ hc _).trans hk, htr.mono fun i => hother i c hc⟩

theorem Inv.goto_same (hs : s.Inv) {h' : Handler} (hh : s.handler client = some h) (hholds : h'.Holds s.owners client)
    (htracks : ∀ id ∈ windowIds s.desktop, h.Tracks s.owners client id → h'.Tracks s.owners client id) :
    (s.goto client h').Inv :=
  hs.goto hh (fun _ _ _ ho => ho) hs.ids hholds htracks

theorem Inv.goto_keep (hs : s.Inv) {h' : Handler} (hh : s.handler client = some h)
    (hdestroy : ∀ i ids, h ≠ .destroying i ids) (hholds : h'.Holds s.owners client)
    (hkeeps : ∀ i, h.Keeps i → h'.Keeps i) : (s.goto client h').Inv :=
  hs.goto_same hh hholds fun i _ htr => htr.keep (hdestroy i) (hkeeps i)

theorem Inv.goto_drop (hs : s.Inv) {h' : Handler} (hh : s.handler client = some h) (howner : s.owners id = some client)
    (hholds : h'.Holds (s.drop id).owners client)
    (htracks : ∀ i ∈ windowIds s.desktop, h.Tracks s.owners client i → h'.Tracks (s.drop id).owners client i) :
    ((s.drop id).goto client h').Inv := by
  refine hs.goto hh (fun i c hc ho => ?_) (fun i c ho => hs.ids i c (drop_some ho).2) hholds htracks
  have hi : i ≠ id := by
    rintro rfl
    rw [howner] at ho
    exact hc (Option.some.inj ho).symm
  exact (Function.update_of_ne hi _ _).trans ho

/-! ## Steps -/

theorem Inv.connect (hs : s.Inv) (hh : s.handler client = none) : (s.goto client .reading).Inv := by
  refine ⟨hs.healthy, hs.ids, fun c k hk => ?_, fun id hid => ?_⟩
  · by_cases hc : c = client
    · subst hc
      rw [goto_handler_self] at hk
      cases hk
      trivial
    · rw [goto_handler_of_ne _ hc] at hk
      exact hs.holds c k hk
  · obtain ⟨c, k, hcreator, hk, htr⟩ := hs.tracked id hid
    have hc : c ≠ client := by
      rintro rfl
      rw [hh] at hk
      cases hk
    exact ⟨c, k, hcreator, (goto_handler_of_ne _ hc _).trans hk, htr⟩

theorem Inv.forwarded (hs : s.Inv) {line : Str} {owners : Owners κ} (hh : s.handler client = some .reading)
    (ha : checkOwner s.owners client line = (.forward id, owners)) :
    (System.goto { s with owners } client (.calling line id)).Inv := by
  obtain ⟨hid, howner, hkeep, hnew⟩ := checkOwner_forward ha
  refine hs.goto hh ?_ ?_ ⟨hid, howner⟩ ?_
  -- a `WC` takes a free id, every other line one that the client has
  · intro i c hc ho
    have hi : i ≠ id := by
      rintro rfl
      rcases hnew with hnew | hnew
      · rw [hnew.2] at ho
        cases ho
      · rw [hnew.2] at ho
        exact hc (Option.some.inj ho).symm
    rw [hkeep i hi]
    exact ho
  · intro i c ho
    by_cases hi : i = id
    · rw [hi]
      exact windowId_ne hid
    · rw [hkeep i hi] at ho
      exact hs.ids i c ho
  · rintro i - (⟨ids, he⟩ | ⟨ho, -⟩)
    · cases he
    · have hmine : owners i = some client := by
        by_cases hi : i = id
        · rw [hi]
          exact howner
        · rw [hkeep i hi]
          exact ho
      refine Or.inr ⟨hmine, ?_⟩
      rintro ⟨hc, rfl⟩
      rcases hnew with hnew | hnew
      · rw [hnew.2] at ho
        cases ho
      · rw [hnew.1] at hc
        cases hc

theorem Inv.answer (hs : s.Inv) {desktop : Option Compositor} {h' : Handler} (hh : s.handler client = some h)
    (hhealthy : Healthy desktop) (hholds : h'.Holds s.owners client)
    (hnew : ∀ i ∈ windowIds desktop, i ∉ windowIds s.desktop → h'.Tracks s.owners client i)
    (hold : ∀ i ∈ windowIds desktop, h.Tracks s.owners client i → h'.Tracks s.owners client i) :
    ((s.answer client desktop).goto client h').Inv := by
  refine ⟨hhealthy, hs.ids, fun c k hk => ?_, fun i hi => ?_⟩
  · by_cases hc : c = client
    · subst hc
      rw [goto_handler_self] at hk
      cases hk
      exact hholds
    · rw [goto_handler_of_ne _ hc] at hk
      exact hs.holds c k hk
  · by_cases hn : i ∈ windowIds s.desktop
    · obtain ⟨c, k, hcreator, hk, htr⟩ := hs.tracked i hn
      have hcreator' : ((s.answer client desktop).goto client h').creator i = some c :=
        (if_neg fun hnew => hnew.2 hn).trans hcreator
      by_cases hc : c = client
      · subst hc
        rw [hh] at hk
        cases hk
        exact ⟨c, h', hcreator', goto_handler_self _ _ _, hold i hi htr⟩
      · exact ⟨c, k, hcreator', (goto_handler_of_ne _ hc _).trans hk, htr⟩
    · exact ⟨client, h', answer_creator s client hi hn, goto_handler_self _ _ _, hnew i hi hn⟩

theorem opens_new {opened : Option Compositor} (ho : Opens opened) : ∀ u, opened = some u → u.clients = .new := by
  intro u hu
  obtain ⟨shell, rfl⟩ := ho u hu
  rfl

theorem answer_effect {desktop desktop' opened : Option Compositor} {line : Str} {reply : Reply} (ho : Opens opened)
    (h : Healthy desktop) (hr : Bridge.answer (pollCommand opened) desktop line = (desktop', reply)) :
    Effect desktop desktop' line (reply = .A) := by
  have heffect := @pollCommand_effect desktop opened line (opens_new ho) h
  unfold Bridge.answer at hr
  split at hr
  · cases hr
    exact effect_refl h
  · split at hr
    · cases hr
      exact effect_refl h
    · split at hr
      all_goals
        rename_i hpoll
        rw [hpoll] at heffect
        cases hr
        exact heffect

theorem Inv.execute (hs : s.Inv) {line : Str} {opened desktop : Option Compositor} {reply : Reply}
    (hh : s.handler client = some (.calling line id)) (ho : Opens opened)
    (hr : Bridge.answer (pollCommand opened) s.desktop line = (desktop, reply)) :
    ((s.answer client desktop).goto client (.answered line id (reply = .A))).Inv := by
  obtain ⟨hid, howner⟩ := hs.holds client _ hh
  have heffect := answer_effect ho hs.healthy hr
  generalize decide (reply = .A) = accepted at heffect ⊢
  refine hs.answer hh heffect.healthy ⟨hid, howner⟩ (fun i hi hn => ?_) fun i hi htr => ?_
  · -- a new window comes from an accepted `WC`, and the handler holds its entry
    obtain ⟨rfl, hcreates, hdestroys, hi'⟩ := heffect.added i hi hn
    rw [hid] at hi'
    cases hi'
    refine Or.inr ⟨howner, ?_⟩
    rintro ⟨hd, -⟩
    rw [hdestroys] at hd
    cases hd
  · refine htr.keep (fun _ he => (nomatch he)) fun hk => ?_
    cases accepted with
    | false => exact hk
    | true =>
      rintro ⟨hd, rfl⟩
      exact heffect.dropped rfl hd _ hid hi

theorem Inv.goto_dropIf (hs : s.Inv) {h' : Handler} (c : Bool) (hh : s.handler client = some h)
    (hdestroy : ∀ i ids, h ≠ .destroying i ids) (howner : s.owners id = some client)
    (hholds : ∀ owners : Owners κ, h'.Holds owners client)
    (hkeeps : ∀ i, h.Keeps i → ¬(c = true ∧ id = i) ∧ h'.Keeps i) :
    ((if c then s.drop id else s).goto client h').Inv := by
  split
  · rename_i hc
    refine hs.goto_drop hh howner (hholds _) fun i _ htr => ?_
    exact htr.drop (hdestroy i) fun hk => ⟨fun hi => (hkeeps i hk).1 ⟨hc, hi.symm⟩, (hkeeps i hk).2⟩
  · exact hs.goto_keep hh hdestroy (hholds _) fun i hk => (hkeeps i hk).2

theorem Inv.rejected (hs : s.Inv) {line : Str} (hh : s.handler client = some (.answered line id false)) :
    ((if creates line then s.drop id else s).goto client .refusing).Inv :=
  hs.goto_dropIf (creates line) hh (fun _ _ he => (nomatch he)) (hs.holds client _ hh).2 (fun _ => trivial)
    fun _ hk => ⟨hk, trivial⟩

theorem Inv.confirm (hs : s.Inv) {line : Str} (hh : s.handler client = some (.confirming line id)) :
    ((if destroys line then s.drop id else s).goto client .reading).Inv :=
  hs.goto_dropIf (destroys line) hh (fun _ _ he => (nomatch he)) (hs.holds client _ hh).2 (fun _ => trivial)
    fun _ hk => ⟨hk, trivial⟩

theorem Inv.clean (hs : s.Inv) {ids : List UInt32} (hh : s.handler client = some h)
    (hdestroy : ∀ i ids, h ≠ .destroying i ids) (hids : s.Entries client ids) :
    (s.goto client (.cleaning ids)).Inv := by
  refine hs.goto_same hh ⟨hids.1, fun i hi => (hids.2 i).mp hi⟩ ?_
  rintro i - (⟨ids', he⟩ | ⟨ho, -⟩)
  · exact absurd he (hdestroy i ids')
  · exact Or.inr ⟨ho, (hids.2 i).mpr ho⟩

theorem Inv.release (hs : s.Inv) {ids : List UInt32} (hh : s.handler client = some (.cleaning (id :: ids))) :
    ((s.drop id).goto client (.destroying id ids)).Inv := by
  obtain ⟨hnodup, hall⟩ := hs.holds client _ hh
  obtain ⟨hnot, hnodup⟩ := List.nodup_cons.mp hnodup
  have howner := hall id List.mem_cons_self
  refine hs.goto_drop hh howner ⟨hs.ids id client howner, hnodup, fun i hi => ?_⟩ fun i _ htr => ?_
  · have hne : i ≠ id := fun he => hnot (he ▸ hi)
    exact (Function.update_of_ne hne _ _).trans (hall i (List.mem_cons_of_mem _ hi))
  · by_cases hi : i = id
    · subst hi
      exact Or.inl ⟨ids, rfl⟩
    · exact htr.drop (fun _ he => (nomatch he)) fun hk => ⟨hi, (List.mem_cons.mp hk).resolve_left hi⟩

theorem Inv.destroy (hs : s.Inv) {ids : List UInt32} {opened : Option Compositor}
    (hh : s.handler client = some (.destroying id ids)) (ho : Opens opened) :
    ((s.answer client (pollCommand opened s.desktop (destroyLine id)).2).goto client (.destroyed ids)).Inv := by
  obtain ⟨hid, hnodup, hall⟩ := hs.holds client _ hh
  have heffect := @pollCommand_effect s.desktop opened (destroyLine id) (opens_new ho) hs.healthy
  have hgone := pollCommand_destroyLine (opens_new ho) hs.healthy hid
  refine hs.answer hh heffect.healthy ⟨hnodup, hall⟩ (fun i hi hn => ?_) fun i hi htr => ?_
  · have hcreates := (heffect.added i hi hn).2.1
    cases hcreates
  · rcases htr with ⟨ids', he⟩ | ⟨howner, hk⟩
    · cases he
      exact absurd hi hgone
    · exact Or.inr ⟨howner, hk⟩

theorem input_effect {desktop desktop' : Option Compositor} (h : Healthy desktop) (hi : GuestInput desktop desktop') :
    Healthy desktop' ∧ ∀ id ∈ windowIds desktop', id ∈ windowIds desktop := by
  have same : ∀ {s t : Compositor}, Healthy (some s) → t.clients = s.clients →
      Healthy (some t) ∧ ∀ id ∈ windowIds (some t), id ∈ windowIds (some s) := by
    intro s t hs hc
    refine ⟨fun u hu => ?_, fun id hid => ?_⟩
    · rw [← Option.some.inj hu, hc]
      exact hs s rfl
    · show id ∈ s.clients.ids
      rw [← hc]
      exact hid
  cases hi with
  | key scan text reverseFocus extended hk => exact same h (Native.Compositor.keyScancode_framed _ _ _ _ _ hk).clients
  | testWindow ht => exact same h (Native.Compositor.openTestWindow_held _ ht).clients
  | command line hc => exact same h (Native.Compositor.command_held line _ hc).clients
  | leave => exact ⟨fun _ he => (nomatch he), fun _ hid => absurd hid List.not_mem_nil⟩
  | enter shell =>
    refine ⟨fun u hu => ?_, fun _ hid => absurd hid List.not_mem_nil⟩
    rw [← Option.some.inj hu]
    exact .new
  | pointer packet hp =>
    rename_i s t action events
    obtain ⟨-, x, y, handled, hx, hy, hpointer⟩ := Native.Compositor.pointerPacket_keeps hp
    have hkeeps := (Client.WindowServer.pointer_yields (h s rfl).inv hx hy _ _).of_eq hpointer
    refine ⟨fun u hu => ?_, fun id hid => hkeeps.2.mem_iff.mp hid⟩
    rw [← Option.some.inj hu]
    exact .pointer _ _ hx hy (h s rfl) hpointer

theorem tooLong_eq {line : Str} {owners : Owners κ} (ha : checkOwner s.owners client line = (.forward id, owners)) :
    (if creates line then System.drop { s with owners } id else { s with owners }) = s := by
  obtain ⟨-, howner, hkeep, hnew⟩ := checkOwner_forward ha
  have hsame : (if creates line then Function.update owners id none else owners) = s.owners := by
    funext i
    by_cases hi : i = id
    · subst hi
      rcases hnew with ⟨hc, hn⟩ | ⟨hc, hn⟩
      · rw [hc, if_pos rfl, Function.update_self, hn]
      · rw [hc, if_neg Bool.false_ne_true, howner, hn]
    · rw [← hkeep i hi]
      split
      · exact Function.update_of_ne hi _ _
      · rfl
  rw [show (if creates line then System.drop { s with owners } id else { s with owners }) =
    { s with owners := if creates line then Function.update owners id none else owners } by split <;> rfl, hsame]

theorem Inv.step (hs : s.Inv) {label : Label κ} (hok : s.Delivers label) (hstep : Step s label t) : t.Inv := by
  -- the steps that change no owner only move the handler on
  cases hstep with
  | connect hh => exact hs.connect hh
  | refused hh => exact hs.goto_keep hh (fun _ _ he => (nomatch he)) trivial fun _ _ => trivial
  | forwarded hh ha => exact hs.forwarded hh ha
  | tooLong hh ha =>
    rw [tooLong_eq ha]
    exact hs.goto_keep hh (fun _ _ he => (nomatch he)) trivial fun _ _ => trivial
  | execute hh ho _ hr => exact hs.execute hh ho hr
  | accepted hh =>
    have hholds := hs.holds _ _ hh
    exact hs.goto_keep hh (fun _ _ he => (nomatch he)) hholds fun _ hk => hk
  | rejected hh => exact hs.rejected hh
  | confirm hh => exact hs.confirm hh
  | confirmFails hh =>
    rw [hok _ _ hh]
    exact hs.goto_keep hh (fun _ _ he => (nomatch he)) trivial fun _ _ => trivial
  | refuse hh => exact hs.goto_keep hh (fun _ _ he => (nomatch he)) trivial fun _ _ => trivial
  | refuseFails hh hids => exact hs.clean hh (fun _ _ he => (nomatch he)) hids
  | hangUp hh hids => exact hs.clean hh (fun _ _ he => (nomatch he)) hids
  | release hh => exact hs.release hh
  | destroy hh ho => exact hs.destroy hh ho
  | next hh =>
    have hholds := hs.holds _ _ hh
    exact hs.goto_keep hh (fun _ _ he => (nomatch he)) hholds fun _ hk => hk
  | finish hh =>
    exact hs.goto_keep hh (fun _ _ he => (nomatch he)) trivial fun _ hk => absurd hk List.not_mem_nil
  | input hi =>
    obtain ⟨hhealthy, hsub⟩ := input_effect hs.healthy hi
    exact ⟨hhealthy, hs.ids, hs.holds, fun id hid => hs.tracked id (hsub id hid)⟩
  | lookup => exact ⟨hs.healthy, hs.ids, hs.holds, hs.tracked⟩
  | deliver => exact ⟨hs.healthy, hs.ids, hs.holds, hs.tracked⟩
  -- the client that cannot be told is no owner any more
  | deliverFails he =>
    rename_i client id
    have hnone : Function.update s.owners id none = s.owners := by
      rw [← hok id client he]
      exact Function.update_eq_self _ _
    refine ⟨hs.healthy, ?_, ?_, ?_⟩
    all_goals
      simp only [drop, hnone]
    · exact hs.ids
    · exact hs.holds
    · exact hs.tracked

theorem Run.inv (hr : Run Delivers s) : s.Inv := by
  induction hr with
  | start => exact inv_start
  | step _ hok h ih => exact ih.step hok h

/-- No orphan windows, in runs that deliver each `OK` of a `WC` and each event. -/
theorem no_orphan_windows (hr : Run Delivers s) : s.NoOrphans := hr.inv.noOrphans

/-! ## Two runs -/

def created : Str := "WC|1|0|0|80|50|a".toList

theorem answer_created : Bridge.answer (pollCommand (some (new []))) none created = (some oneClient, .A) := by
  have hc : (new []).desktopCommand created =
      .ok (oneClient, true, [⟨1, .WindowCreated, 0, 0⟩, ⟨1, .Redraw, 80, 50⟩]) := clientCommand_oneClient
  have hpoll : pollCommand (some (new [])) none created = (true, some oneClient) := by
    unfold pollCommand
    rw [if_pos (by decide)]
    simp only [hc]
  unfold Bridge.answer
  rw [if_neg (by decide), if_neg (by decide), hpoll]

theorem run_created {ok : System Unit → Label Unit → Prop}
    (hok : ∀ s, ok s (.connect ()) ∧ ok s (.line () created) ∧ ok s (.execute ()) ∧ ok s (.resume ())) :
    ∃ s, Run ok s ∧ s.handler () = some (.confirming created 1) ∧ s.desktop = some oneClient ∧
      s.creator 1 = some () ∧ s.owners = Function.update (fun _ => none) 1 (some ()) := by
  have h₁ := Run.start.step (hok _).1 (.connect rfl)
  have hid : windowId created = some 1 := by decide +kernel
  have hcheck : checkOwner (fun _ => none) () created = (.forward 1, Function.update (fun _ => none) 1 (some ())) := by
    unfold checkOwner
    rw [hid]
    rfl
  have h₂ := h₁.step (hok _).2.1 (.forwarded (goto_handler_self _ _ _) hcheck rfl)
  have hopens : Opens (some (new [])) := fun _ hu => ⟨[], (Option.some.inj hu).symm⟩
  have h₃ := h₂.step (hok _).2.2.1 (.execute (goto_handler_self _ _ _) hopens (by decide) answer_created)
  have h₄ := h₃.step (hok _).2.2.2 (.accepted (goto_handler_self _ _ _))
  refine ⟨_, h₄, goto_handler_self _ _ _, rfl, ?_, rfl⟩
  rw [goto_creator, goto_creator]
  exact answer_creator _ _ (by decide) (by decide)

theorem no_orphan_windows_created : ∃ s : System Unit, Run Delivers s ∧ 1 ∈ windowIds s.desktop ∧ s.NoOrphans := by
  have hcreated := @run_created Delivers fun _ => ⟨trivial, trivial, trivial, trivial⟩
  obtain ⟨s, hs, hh, hdesktop, -, -⟩ := hcreated
  have hlast := @Run.step Unit _ Delivers _ _ (.confirm () true) hs trivial (.confirm hh)
  refine ⟨_, hlast, ?_, no_orphan_windows hlast⟩
  show 1 ∈ windowIds s.desktop
  rw [hdesktop]
  decide

/-- The client is gone before its `OK` is written; the window stays. -/
theorem lost_ok_orphans : ¬∀ s : System Unit, Run (fun _ _ => True) s → s.NoOrphans := by
  intro h
  have hcreated := @run_created (fun _ _ => True) fun _ => ⟨trivial, trivial, trivial, trivial⟩
  obtain ⟨s, hs, hh, hdesktop, hcreator, howners⟩ := hcreated
  have hlost := hs.step trivial (.confirmFails hh)
  rw [if_pos (by decide)] at hlost
  -- the entry is gone, so the cleanup has nothing to destroy
  have hentries : ((s.drop 1).goto () .refusing).Entries () [] := by
    refine ⟨List.nodup_nil, fun id => ⟨nofun, fun ho => ?_⟩⟩
    obtain ⟨hid, ho⟩ := drop_some ho
    rw [howners, Function.update_of_ne hid] at ho
    cases ho
  have hclean := hlost.step trivial (.refuseFails (goto_handler_self _ _ _) hentries)
  have hend := hclean.step trivial (.finish (goto_handler_self _ _ _))
  have hwindow : 1 ∈ windowIds s.desktop := by
    rw [hdesktop]
    decide
  exact (h _ hend 1 hwindow () hcreator).1 (goto_handler_self _ _ _)

end Preservation

end System

end Pippin.Broker
