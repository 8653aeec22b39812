import Pippin.Client.Library
import Pippin.Kernel.Capture
import Pippin.Kernel.ShellRuns
import Pippin.Lib.Lines
import Pippin.Native.Clicks
import Pippin.Native.Returns

/-! The actions that the guest sends. Names of surfaces and of controls come from the shell model and from lines of
the host, texts from the keyboard. None of them can break a line or fill one. -/

namespace Pippin.Kernel
open Checked Str
open Pippin.Native
open Pippin.Native.Compositor (parseSurface parseRow parseRows splitN)

variable {s t : Compositor} {w v : Window} {r : Row} {n : Nat} {text part payload : Str} {model : List ShellSurface}

theorem inline_typed {typed : List UInt8} (h : ∀ b ∈ typed, 0x20 ≤ b ∧ b ≤ 0x7e) (hlength : typed.length ≤ n) :
    Inline n (typed.map fun b => Char.ofNat b.toNat) := by
  refine .of_printable (fun c hc => ?_) (by rwa [List.length_map])
  obtain ⟨b, hb, rfl⟩ := List.mem_map.mp hc
  have hvalid : b.toNat.isValidChar := Or.inl (Nat.lt_of_le_of_lt (UInt8.le_iff_toNat_le.mp (h b hb).2) (by decide))
  unfold Char.ofNat
  rw [dif_pos hvalid]
  exact h b hb

/-! ## Lines of the host -/

theorem splitOnce_subset {c : Char} {a b : Str} (h : splitOnce c text = some (a, b)) : a ⊆ text ∧ b ⊆ text := by
  rw [(splitOnce_some h).1]
  exact ⟨List.subset_append_left _ _, List.Subset.trans (List.subset_cons_self _ _) (List.subset_append_right _ _)⟩

theorem splitN_subset (k : Nat) (c : Char) (text : Str) : ∀ part ∈ splitN k c text, part ⊆ text := by
  have single : ∀ part ∈ [text], part ⊆ text := by simp
  induction k generalizing text with
  | zero => exact fun part hpart => absurd hpart List.not_mem_nil
  | succ k ih =>
    cases k with
    | zero => exact single
    | succ k =>
      unfold splitN
      split
      · rename_i head rest hsplit
        obtain ⟨hhead, hrest⟩ := splitOnce_subset hsplit
        intro part hpart
        rcases List.mem_cons.mp hpart with rfl | hpart
        · exact hhead
        · exact List.Subset.trans (ih rest (by simp) part hpart) hrest
      · exact single

theorem splitOn_subset (c : Char) (text : Str) : ∀ part ∈ text.splitOn c, part ⊆ text := by
  induction hlength : text.length using Nat.strong_induction_on generalizing text with
  | _ m ih =>
    rw [splitOn_eq]
    cases hsplit : splitOnce c text with
    | none =>
      intro part hpart
      rw [List.mem_singleton.mp hpart]
      exact List.Subset.refl _
    | some p =>
      obtain ⟨hhead, hrest⟩ := splitOnce_subset hsplit
      have hless : p.2.length < m := by
        rw [← hlength, (splitOnce_some hsplit).1, List.length_append, List.length_cons]
        omega
      intro part hpart
      rcases List.mem_cons.mp hpart with rfl | hpart
      · exact hhead
      · exact List.Subset.trans (ih _ hless p.2 rfl part hpart) hrest

theorem parseRow_action (h : parseRow part = some r) : r.action ⊆ part ∧ r.action.len ≤ 64 := by
  unfold parseRow at h
  dsimp only at h
  split_ifs at h with hlimits
  simp only [not_or, Nat.not_lt] at hlimits
  cases h
  refine ⟨?_, hlimits.2⟩
  show ((splitOnce '@' part).getD (part, [])).2 ⊆ part
  cases hsplit : splitOnce '@' part with
  | none => exact List.nil_subset _
  | some p => exact (splitOnce_subset hsplit).2

theorem parseSurface_names {id title : Str} {role : Role} {x y width height : Int} {rows : List Row}
    (h : parseSurface payload = some (.window id role x y width height title rows)) :
    (id ⊆ payload ∧ id.len ≤ 32) ∧ ∀ r ∈ rows, r.action ⊆ payload ∧ r.action.len ≤ 64 := by
  have hparts := splitN_subset 8 '|' payload
  unfold parseSurface at h
  split at h
  · rename_i id' role' x' y' width' height' title' rows' hsplit
    rw [hsplit] at hparts
    split_ifs at h with hlimits hwallpaper
    · split at h
      · obtain ⟨_, -, h⟩ := Option.map_eq_some_iff.mp h
        cases h
      · cases h
    · obtain ⟨_, -, h⟩ := Option.bind_eq_some_iff.mp h
      obtain ⟨_, -, h⟩ := Option.bind_eq_some_iff.mp h
      obtain ⟨_, -, h⟩ := Option.bind_eq_some_iff.mp h
      obtain ⟨_, -, h⟩ := Option.bind_eq_some_iff.mp h
      obtain ⟨_, -, h⟩ := Option.bind_eq_some_iff.mp h
      obtain ⟨_, -, h⟩ := Option.bind_eq_some_iff.mp h
      split at h
      · cases h
      · obtain ⟨_, hrows, h⟩ := Option.bind_eq_some_iff.mp h
        cases h
        simp only [not_or, Nat.not_lt] at hlimits
        refine ⟨⟨hparts id (by simp), hlimits.2.1⟩, fun r hr => ?_⟩
        obtain ⟨part, hpart, hparse⟩ := Compositor.mem_of_mapM hrows r hr
        obtain ⟨haction, hlen⟩ := parseRow_action hparse
        have hin := List.mem_of_mem_take (List.mem_of_mem_filter hpart)
        exact ⟨List.Subset.trans haction (List.Subset.trans (splitOn_subset ';' rows' part hin)
          (hparts rows' (by simp))), hlen⟩
  · cases h

/-! ## Surfaces -/

/-- The names of a surface, its own and those of its controls. -/
structure Tidy (w : Window) : Prop where
  id : Inline 32 w.id
  actions : ∀ r ∈ w.rows, Inline 64 r.action

theorem Tidy.congr (h : Tidy w) (hid : v.id = w.id) (hrows : v.rows = w.rows) : Tidy v :=
  ⟨hid ▸ h.id, hrows ▸ h.actions⟩

theorem tidy_packets : Compositor.PacketRule Tidy where
  scroll w v h hscroll := by
    obtain ⟨_, rfl, -⟩ := hscroll
    exact h.congr rfl rfl
  moved w x y h _ _ := h.congr rfl rfl
  minimized w minimized h := h.congr rfl rfl
  toggled w x y h _ _ _ v hv := by
    have hsame := Compositor.toggleMaximized_same v hv
    exact h.congr hsame.id hsame.rows

theorem tidy_commands {line : Str} (hline : Inline n line) : Compositor.CommandRule s line Tidy where
  minimized w minimized h := h.congr rfl rfl
  replaced w _ payload role x y width height title rows hpayload hparse h v hv := by
    subst hpayload
    obtain ⟨hid, hrows, -⟩ := Compositor.clampScroll_content v hv
    refine ⟨hid ▸ h.id, fun r hr => ?_⟩
    obtain ⟨haction, hlen⟩ := (parseSurface_names hparse).2 r (by rwa [hrows] at hr)
    exact hline.of_subset (fun c hc => by simp [haction hc]) hlen
  added payload id role x y width height title rows hpayload hparse := by
    subst hpayload
    obtain ⟨⟨hid, hlen⟩, hrows⟩ := parseSurface_names hparse
    refine ⟨hline.of_subset (fun c hc => by simp [hid hc]) hlen, fun r hr => ?_⟩
    obtain ⟨haction, hlen⟩ := hrows r hr
    exact hline.of_subset (fun c hc => by simp [haction hc]) hlen

theorem tidy_new (hmodel : ∀ surface ∈ model, Inline 32 surface.id ∧ ∀ item ∈ surface.items, Inline 64 item.action) :
    ∀ w ∈ (Compositor.new model).windows, Tidy w := by
  intro w hw
  obtain ⟨surface, hin, hwindow⟩ := List.mem_filterMap.mp hw
  obtain ⟨hid, hitems⟩ := hmodel surface (List.mem_of_mem_take hin)
  unfold ShellSurface.window? at hwindow
  split_ifs at hwindow
  obtain ⟨role, -, rfl⟩ := Option.map_eq_some_iff.mp hwindow
  refine ⟨hid, fun r hr => ?_⟩
  obtain ⟨item, hitem, rfl⟩ := List.mem_map.mp hr
  exact hitems item (List.mem_of_mem_take hitem)

theorem inline_nextName (s : Compositor) : Inline 32 s.nextName := by
  have hnumber : Inline 10 (decimal s.nextId.toNat) :=
    .of_printable (fun c hc => (Client.WindowClient.plain_decimal _ c hc).imp_right And.left)
      (length_decimal (by decide) (Nat.lt_trans s.nextId.toNat_lt (by decide)))
  have hname : s.nextName = "native".toList ++ decimal s.nextId.toNat := by
    show _ ++ (Nat.repr s.nextId.toNat).toList = _
    simp [Nat.repr, decimal]
  have hword : Inline 6 "native".toList := ⟨by decide, by decide, by decide⟩
  rw [hname]
  exact (hword.append hnumber).mono (by decide)

theorem tidy_test (h : ∀ w ∈ s.windows, Tidy w) : Ensures s.openTestWindow fun t => ∀ w ∈ t.windows, Tidy w := by
  unfold Compositor.openTestWindow
  split_ifs
  · exact ensures_ok h
  · refine ensures_bind fun _ _ => ensures_bind fun x _ => ensures_bind fun y _ => ensures_ok ?_
    refine Compositor.forall_append h ⟨inline_nextName s, fun r hr => ?_⟩
    have hempty : Inline 64 [] := ⟨List.not_mem_nil, List.not_mem_nil, Nat.zero_le _⟩
    simp only [List.mem_cons, List.not_mem_nil, or_false] at hr
    rcases hr with rfl | rfl <;> exact hempty

/-! ## What the compositor sends -/

variable {action : Str} {events : List Client.Event} {scan : UInt8} {typed : Option UInt8}
  {reverseFocus extended : Bool}
  {packet : UInt32}

theorem keyScancode_action (hu : s.FocusUnique) (hfields : s.FieldsSound)
    (hkey : s.keyScancode scan typed reverseFocus extended = .ok (t, some action, events)) :
    s.keySubmission scan = some action ∨ t.focusedAction = some action := by
  unfold Compositor.keyScancode at hkey
  split at hkey
  · cases hkey
  · obtain ⟨r, hr, hspec⟩ := Compositor.handleEditKey_spec hu hfields scan typed extended
    rw [hr, ok_bind] at hkey
    obtain ⟨s₁, consumed, payload⟩ := r
    obtain ⟨-, -, -, hsubmit⟩ := hspec
    cases consumed with
    | true =>
      obtain ⟨v, -, hkey⟩ := bind_eq_ok hkey
      cases hkey
      exact Or.inl (hsubmit rfl).symm
    | false =>
      obtain ⟨⟨s₂, handled⟩, -, hkey⟩ := bind_eq_ok hkey
      cases handled with
      | true =>
        obtain ⟨v, -, hkey⟩ := bind_eq_ok hkey
        cases hkey
      | false =>
        dsimp only at hkey
        unfold Compositor.plainKey at hkey
        split_ifs at hkey
        · obtain ⟨v, -, hkey⟩ := bind_eq_ok hkey
          cases hkey
        · unfold Compositor.activateKey at hkey
          split at hkey
          · rename_i activated hfocused
            cases hkey
            exact Or.inr hfocused
          · cases hkey
        · cases hkey

def maxAction : Nat := 129

theorem inline_submission (hfields : s.FieldsSound) (h : ∀ w ∈ s.windows, Tidy w)
    (hsubmit : s.keySubmission scan = some action) : Inline maxAction action := by
  obtain ⟨⟨c, r⟩, hfield, hsubmit⟩ := Option.bind_eq_some_iff.mp hsubmit
  unfold Compositor.focusedField at hfield
  obtain ⟨⟨id, i⟩, -, hfield⟩ := Option.bind_eq_some_iff.mp hfield
  obtain ⟨w, hshown, hfield⟩ := Option.bind_eq_some_iff.mp hfield
  obtain ⟨r', hrow, hfield⟩ := Option.bind_eq_some_iff.mp hfield
  split_ifs at hfield
  cases hfield
  have hname := (h w (Compositor.shown_spec hshown).1).actions r (List.mem_of_getElem? hrow)
  unfold submission at hsubmit
  split_ifs at hsubmit
  cases hsubmit
  have hseparator : Inline 1 [actionValueSeparator] := ⟨by decide, by decide, by decide⟩
  have htext : Inline 64 ((s.field (id, i)).text.map fun b => Char.ofNat b.toNat) := by
    rw [Compositor.field_eq]
    cases hfind : s.edits.find? fun e => decide (e.control = (id, i)) with
    | none => exact inline_typed (fun b hb => absurd hb List.not_mem_nil) (Nat.zero_le _)
    | some e =>
      have hsound := hfields.sound e (List.mem_of_find?_eq_some hfind)
      have htext : e.buffer.text = e.value := SplitBuffer.text_split
      rw [Option.map_some, Option.getD_some, htext]
      exact inline_typed hsound.printable hsound.length
  exact hname.append (hseparator.append htext)

theorem key_inline (hu : s.FocusUnique) (hfields : s.FieldsSound) (h : ∀ w ∈ s.windows, Tidy w)
    (hkey : s.keyScancode scan typed reverseFocus extended = .ok (t, some action, events)) :
    Inline maxAction action := by
  rcases keyScancode_action hu hfields hkey with hsubmit | hfocused
  · exact inline_submission hfields h hsubmit
  -- The control is one of the state after the key, whose surfaces have their names still.
  · obtain ⟨w, i, hactivates⟩ := Compositor.focusedAction_spec hfocused
    obtain ⟨r, hrow, -, -, rfl, -⟩ := hactivates.row
    have htidy := tidy_packets.keyScancode h _ _ _ _ _ hkey w hactivates.window.1
    exact (htidy.actions r (List.mem_of_getElem? hrow)).mono (by decide)

theorem pointer_inline (h : ∀ w ∈ s.windows, Tidy w)
    (hpointer : s.pointerPacket packet = .ok (t, some action, events)) : Inline maxAction action := by
  obtain ⟨s₁, s₂, s₃, handled, htrack, hpress, -, -⟩ := Compositor.pointerPacket_parts hpointer
  have h₁ := Compositor.forall_related tidy_packets.scroll h (Compositor.trackPointer_still htrack).windows
  rcases Compositor.pressOrRelease_cases hpress with ⟨-, -, -, hdown⟩ | ⟨-, -, -, ⟨-, hnone⟩ | ⟨-, hrelease⟩⟩
    | ⟨-, hnone, -⟩
  -- A press on the close box names the surface, a release its control.
  · obtain ⟨w, ⟨index, -, hw⟩, -, rfl⟩ := Compositor.pointerDown_action _ hdown action rfl
    have hclose : Inline 6 ".close".toList := ⟨by decide, by decide, by decide⟩
    exact ((h₁ w (List.mem_of_getElem? hw)).id.append hclose).mono (by decide)
  · cases hnone
  · obtain ⟨_, -, -, w, r, hshown, hrow, -, -, rfl⟩ := Compositor.releaseControl_action hrelease
    exact ((h₁ w (Compositor.shown_spec hshown).1).actions r (List.mem_of_getElem? hrow)).mono (by decide)
  · cases hnone

/-! ## What the shell sends -/

/-- The names in the shell model are short and on one line. -/
structure NamedModel (model : List ShellSurface) : Prop extends Compositor.ShellModel model where
  inline : ∀ surface ∈ model, Inline 32 surface.id ∧ ∀ item ∈ surface.items, Inline 64 item.action

theorem inline_builtin {line : Str} (h : surfaceCommand action = some line) : Inline 384 line := by
  have hid : ∀ id, builtin id = true → Inline 384 ('R' :: '|' :: id) ∧ Inline 384 ('M' :: '|' :: id) := by
    intro id hid
    simp only [builtin, Bool.or_eq_true, beq_iff_eq] at hid
    rcases hid with ((rfl | rfl) | rfl) | rfl <;>
      exact ⟨⟨by decide, by decide, by decide⟩, by decide, by decide, by decide⟩
  unfold surfaceCommand at h
  split at h
  · rename_i id _
    split_ifs at h with hbuiltin
    cases h
    exact (hid id hbuiltin).1
  · split at h
    · rename_i id _
      split_ifs at h with hbuiltin
      cases h
      exact (hid id hbuiltin).2
    · cases h

theorem inline_hexByte : ∀ b, Inline 2 (Shell.hexByte b) := by
  have hdigits : ∀ n < 256, '\r' ∉ Shell.hexByte (UInt8.ofNat n) ∧ '\n' ∉ Shell.hexByte (UInt8.ofNat n) ∧
      Str.len (Shell.hexByte (UInt8.ofNat n)) ≤ 2 := by decide +kernel
  intro b
  obtain ⟨hcr, hlf, hfits⟩ := hdigits b.toNat b.toNat_lt
  rw [UInt8.ofNat_toNat] at hcr hlf hfits
  exact ⟨hcr, hlf, hfits⟩

theorem diverted_inline {sh : Shell} (h : sh.diverted scan = some action) : Inline maxAction action := by
  have hword : Inline 18 "terminal.run".toList ∧ Inline 18 "terminal.backspace".toList ∧
      Inline 13 "terminal.key.".toList :=
    ⟨⟨by decide, by decide, by decide⟩, ⟨by decide, by decide, by decide⟩, by decide, by decide, by decide⟩
  unfold Shell.diverted at h
  split_ifs at h
  · cases h
    exact hword.1.mono (by decide)
  · cases h
    exact hword.2.1.mono (by decide)
  · obtain ⟨b, -, h⟩ := Option.bind_eq_some_iff.mp h
    split_ifs at h
    cases h
    exact (hword.2.2.append (inline_hexByte b)).mono (by decide)

theorem tidy_rule (hmodel : NamedModel model) : DesktopRule model (Inline 384)
    (fun s => Compositor.Reachable model s ∧ ∀ w ∈ s.windows, Tidy w) (Inline maxAction) where
  new := ⟨.new, tidy_new hmodel.inline⟩
  command s line hs hline := by
    unfold Compositor.desktopCommand
    split
    · intro r hr
      exact ⟨hs.1.clientCommand _ hr, Compositor.clientCommand_windows hr ▸ hs.2⟩
    · refine ensures_bind fun r hr => ensures_ok ⟨hs.1.command _ hr, ?_⟩
      exact (tidy_commands hline).command hs.2 r hr
  test s hs t ht := ⟨hs.1.testWindow ht, tidy_test hs.2 t ht⟩
  key s scan typed reverseFocus extended hs r hr := by
    refine ⟨⟨hs.1.key _ _ _ _ hr, tidy_packets.keyScancode hs.2 _ _ _ _ r hr⟩, fun action haction => ?_⟩
    obtain ⟨t, action', events⟩ := r
    cases haction
    exact key_inline (hs.1.focusUnique hmodel.ids hmodel.names) (hs.1.fieldsSound hmodel.ids hmodel.names) hs.2 hr
  pointer s packet hs r hr := by
    refine ⟨⟨hs.1.pointer packet hr, tidy_packets.pointerPacket hs.2 packet r hr⟩, fun action haction => ?_⟩
    obtain ⟨t, action', events⟩ := r
    cases haction
    exact pointer_inline hs.2 hr
  builtin action line := inline_builtin
  diverted sh scan action := diverted_inline
  terminal := ⟨by decide, by decide, by decide⟩

/-! ## Runs -/

structure Collecting (b : Broker.Bridge) : Prop where
  plain : ∀ x ∈ b.line, x ≠ 10 ∧ x ≠ 13
  fits : b.line.length ≤ Broker.maxLine

theorem collecting_new : Collecting .new := ⟨fun _ hx => absurd hx List.not_mem_nil, Nat.zero_le _⟩

variable {b : Broker.Bridge} {byte : UInt8} {line : Str} {sh sh' : Shell} {display : Bool} {input : Input}
  {ok : Bool → Shell → Input → Prop} {messages : List Message}

theorem Collecting.receive {σ : Type} (h : Collecting b) (command : σ → Str → Bool × σ) (state : σ) (byte : UInt8) :
    Collecting (Broker.Bridge.receive command b state byte).1 := by
  unfold Broker.Bridge.receive
  split
  · split
    · exact collecting_new
    · split <;> exact collecting_new
  · rename_i hend
    split
    · rename_i hkept
      split
      · rename_i hroom
        refine ⟨fun x hx => ?_, ?_⟩
        · rcases List.mem_append.mp hx with hx | hx
          · exact h.plain x hx
          · rw [List.mem_singleton.mp hx]
            exact ⟨hend, hkept.1⟩
        · rw [List.length_append]
          exact hroom
      · exact ⟨h.plain, h.fits⟩
    · exact h

theorem Collecting.inline (h : Collecting b) (hline : fromUtf8 b.line = some line) : Inline 384 line := by
  have hbytes := bytes_of_fromUtf8 hline
  have hmem : ∀ c ∈ line, ∀ x ∈ String.utf8EncodeChar c, x ∈ b.line := fun c hc x hx =>
    hbytes ▸ List.mem_flatMap.mpr ⟨c, hc, hx⟩
  refine ⟨fun hc => ?_, fun hc => ?_, ?_⟩
  · exact (h.plain 13 (hmem _ hc 13 (by decide))).2 rfl
  · exact (h.plain 10 (hmem _ hc 10 (by decide))).1 rfl
  · rw [len, hbytes]
    exact h.fits

theorem bridgeByte_collecting (h : Collecting sh.bridge) :
    Ensures (sh.bridgeByte model display byte) fun r => Collecting r.1.bridge := by
  refine ensures_bind fun r _ => ensures_ok ?_
  exact h.receive _ _ byte

structure Shell.Tidy (model : List ShellSurface) (sh : Shell) : Prop where
  bridge : Collecting sh.bridge
  desktop : sh.Desktop fun s => Compositor.Reachable model s ∧ ∀ w ∈ s.windows, Kernel.Tidy w

theorem Shell.step_tidy (hmodel : NamedModel model) (h : sh.Tidy model) (input : Input) :
    Ensures (sh.step model display input) fun r => r.1.Tidy model ∧
      ∀ action, .action action ∈ r.2 → Inline maxAction action := by
  have hrule := tidy_rule hmodel
  intro r hr
  have hkept := step_kept hrule h.desktop (fun line _ _ hline => h.bridge.inline hline) r hr
  refine ⟨⟨?_, hkept.desktop⟩, hkept.actions⟩
  by_cases hinput : ∀ byte, input ≠ .bridge byte
  · exact (step_quiet hrule h.desktop hinput r hr).bridge ▸ h.bridge
  · obtain ⟨byte, rfl⟩ := not_forall_not.mp hinput
    exact bridgeByte_collecting h.bridge r hr

theorem Run.tidy (hmodel : NamedModel model) (h : Run model ok sh) : sh.Tidy model := by
  induction h with
  | new => exact ⟨collecting_new, Shell.desktop_none rfl⟩
  | step display input _ _ _ hstep ih => exact (Shell.step_tidy hmodel ih input _ hstep).1

/-- Nothing that reaches the shell, from the host, the keyboard or the mouse, makes an action that the host could take
for an answer or for two lines: each is one line of at most 129 bytes. -/
theorem action_on_one_line (hmodel : NamedModel model) (h : Run model ok sh)
    (hstep : sh.step model display input = .ok (sh', messages)) {action : Str} (haction : .action action ∈ messages) :
    Inline maxAction action :=
  (Shell.step_tidy hmodel (h.tidy hmodel) input _ hstep).2 action haction

theorem namedModel_nil : NamedModel [] := by
  refine ⟨⟨List.nodup_nil, by simp, by simp, by simp⟩, by simp⟩

theorem action_on_one_line_typed : ∃ sh messages, Shell.opened.step [] true (.key 0x1e) = .ok (sh, messages) ∧
    Message.action "terminal.key.61".toList ∈ messages ∧ Inline maxAction "terminal.key.61".toList := by
  have hrun : Run [] (fun _ _ _ => True) Shell.opened :=
    Run.new.line rfl (fun _ _ _ => trivial) rfl (by decide +kernel) (by decide +kernel) (by decide +kernel) (by decide)
      trivial Shell.bridgeLine_opened
  have hstep : Shell.opened.step [] true (.key 0x1e) = .ok (Shell.opened, [.action "terminal.key.61".toList]) := by
    decide +kernel
  have hin : Message.action "terminal.key.61".toList ∈ [Message.action "terminal.key.61".toList] := List.mem_cons_self
  exact ⟨_, _, hstep, hin, action_on_one_line namedModel_nil hrun hstep hin⟩

end Pippin.Kernel
