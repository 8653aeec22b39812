import Pippin.Native.SurfaceRoom

/-! Where the geometry of the native compositor overflows. A step returns wherever the surfaces
are, drawing does for surfaces with room. -/

namespace Pippin.Native
open Checked
open Pippin.Client (Pixels)

variable {s t : Compositor} {w : Window} {r : Row} {i : Nat} {shell : List ShellSurface} {focused : Bool}

namespace Compositor

/-! ## Runs -/

/-- Where a run puts surfaces, and where it puts them back. -/
structure Sited (w : Window) : Prop where
  place : Near w.x w.y ∨ w.Hosted
  restore : ∀ x y width height, w.restore = some (x, y, width, height) → Near x y

theorem Sited.still (h : Sited w) (minimized : Bool) (scrollY : Int) : Sited { w with minimized, scrollY } := by
  refine ⟨h.place.imp (fun hnear => ⟨hnear.x, hnear.y⟩) fun hhost => ?_, h.restore⟩
  exact ⟨hhost.x, hhost.y, hhost.width, hhost.height, hhost.rows, hhost.room⟩

theorem Sited.clampScroll (h : Sited w) : Ensures w.clampScroll Sited :=
  ensures_bind fun _ _ => ensures_ok (h.still _ _)

theorem titleButton_near {x y : Int} (hx : 0 ≤ x ∧ x ≤ 1023) (hy : 0 ≤ y ∧ y ≤ 767)
    (h : w.titleButton x y = .ok (some .maximize)) : Near w.x w.y := by
  unfold Window.titleButton at h
  split at h
  · cases h
  · obtain ⟨top, htop, h⟩ := bind_eq_ok h
    obtain ⟨rfl, -⟩ := i32_of_ok htop
    split at h
    · cases h
    · obtain ⟨bottom, hbottom, h⟩ := bind_eq_ok h
      obtain ⟨rfl, -⟩ := i32_of_ok hbottom
      split at h
      · cases h
      · obtain ⟨left, hleft, h⟩ := bind_eq_ok h
        obtain ⟨rfl, -⟩ := i32_of_ok hleft
        obtain ⟨control, hcontrol, h⟩ := bind_eq_ok h
        obtain ⟨rfl, -⟩ := i32_of_ok hcontrol
        split at h
        · cases h
        · split at h
          · cases h
          · split at h
            · exact ⟨by omega, by omega⟩
            · cases h

theorem sited_packets : PacketRule Sited where
  scroll w v h hv := by
    obtain ⟨scrollY, rfl, -⟩ := hv
    exact h.still _ _
  moved w x y h hx hy := ⟨Or.inl ⟨by dsimp only; omega, by dsimp only; omega⟩, h.restore⟩
  minimized w minimized h := h.still _ _
  toggled w x y h hx hy hbutton := by
    have hnear := titleButton_near hx hy hbutton
    refine Sited.clampScroll ?_
    unfold Window.toggleMaximized
    split
    · split
      · rename_i hrestore
        have hback := h.restore _ _ _ _ hrestore
        exact ⟨Or.inl ⟨hback.x, hback.y⟩, nofun⟩
      · exact ⟨Or.inl ⟨hnear.x, hnear.y⟩, h.restore⟩
    · refine ⟨Or.inl ⟨(by decide : (-1024 : Int) ≤ 8 ∧ (8 : Int) ≤ 1024),
        (by decide : (-768 : Int) ≤ 58 ∧ (58 : Int) ≤ 768)⟩, ?_⟩
      rintro x y width height ⟨⟩
      exact hnear

/-- An `S|` line that is accepted leaves room around the place that it asks for. -/
def HasRoom (s : Compositor) (input : Input) : Prop :=
  ∀ payload id role x y width height title rows, input = .command ('S' :: '|' :: payload) →
    parseSurface payload = some (.window id role x y width height title rows) → s.Takes id →
      Room role x y width height title rows

theorem command_full {payload id title : Str} {role : Role} {x y width height : Int} {rows : List Row}
    (hp : parseSurface payload = some (.window id role x y width height title rows)) (hfull : ¬s.Takes id) :
    s.command ('S' :: '|' :: payload) = .ok (s, false) := by
  obtain ⟨hnew, hlength⟩ := not_or.mp hfull
  have hfind : s.windows.findIdx? (fun w => w.id = id) = none := by
    rw [List.findIdx?_eq_none_iff]
    exact fun w hw => decide_eq_false fun hid => hnew ⟨w, hw, hid⟩
  have hnone : s.surfaceCommand (.window id role x y width height title rows) = .ok none := by
    unfold surfaceCommand
    dsimp only
    rw [hfind]
    exact if_pos (Nat.le_of_not_lt hlength)
  simp only [command, hp, hnone, ok_bind]
  rfl

theorem sited_command (line : Str) (hroom : s.HasRoom (.command line)) (h : ∀ w ∈ s.windows, Sited w) :
    Ensures (s.command line) fun r => ∀ w ∈ r.1.windows, Sited w := by
  by_cases hfull : ∃ payload id role x y width height title rows, line = 'S' :: '|' :: payload ∧
      parseSurface payload = some (.window id role x y width height title rows) ∧ ¬s.Takes id
  · obtain ⟨payload, id, role, x, y, width, height, title, rows, rfl, hp, hfull⟩ := hfull
    rw [command_full hp hfull]
    exact ensures_ok h
  · have hosted : ∀ payload id role x y width height title rows, line = 'S' :: '|' :: payload →
        parseSurface payload = some (.window id role x y width height title rows) →
        Room role x y width height title rows := by
      intro payload id role x y width height title rows hline hp
      refine hroom payload id role x y width height title rows (congrArg Input.command hline) hp
        (by_contra fun htakes => ?_)
      exact hfull ⟨payload, id, role, x, y, width, height, title, rows, hline, hp, htakes⟩
    refine CommandRule.command (P := Sited) ⟨fun w minimized h => h.still _ _, ?_, ?_⟩ h
    · intro w _ payload role x y width height title rows hline hp hw
      obtain ⟨⟨_, hx⟩, ⟨_, hy⟩, ⟨_, hrows⟩, hsize⟩ := parseSurface_reads hp
      refine Sited.clampScroll ⟨Or.inr ⟨parseI32_ge hx, parseI32_ge hy, ?_, ?_, parseRows_plain hrows, ?_⟩, hw.restore⟩
      · exact hsize.1
      · exact hsize.2.1
      · exact hosted _ _ _ _ _ _ _ _ _ hline hp
    · intro payload id role x y width height title rows hline hp
      obtain ⟨⟨_, hx⟩, ⟨_, hy⟩, ⟨_, hrows⟩, hsize⟩ := parseSurface_reads hp
      refine ⟨Or.inr ⟨parseI32_ge hx, parseI32_ge hy, ?_, ?_, parseRows_plain hrows, ?_⟩, nofun⟩
      · exact hsize.1
      · exact hsize.2.1
      · exact hosted _ _ _ _ _ _ _ _ _ hline hp

theorem Run.sited (hshell : ShellModel shell) (h : Run shell HasRoom s) : ∀ w ∈ s.windows, Sited w := by
  induction h with
  | new =>
    intro w hw
    obtain ⟨surface, hin, hwindow⟩ := List.mem_filterMap.mp hw
    obtain ⟨hx, hy, -⟩ := hshell.placed surface (List.mem_of_mem_take hin)
    unfold ShellSurface.window? at hwindow
    split at hwindow
    · cases hwindow
    · obtain ⟨role, -, rfl⟩ := Option.map_eq_some_iff.mp hwindow
      exact ⟨Or.inl ⟨by dsimp only; omega, by dsimp only; omega⟩, nofun⟩
  | step input hr hok hstep ih =>
    cases input with
    | command line =>
      obtain ⟨r, hr, heq⟩ := bind_eq_ok hstep
      cases heq
      exact sited_command line hok ih _ hr
    | clientCommand line =>
      obtain ⟨r, hr, heq⟩ := bind_eq_ok hstep
      cases heq
      exact fun w hw => ih w (clientCommand_windows hr ▸ hw)
    | key scan text reverseFocus extended => exact sited_packets.keyScancode ih scan text reverseFocus extended _ hstep
    | pointer packet => exact sited_packets.pointerPacket ih packet _ hstep
    | testWindow =>
      obtain ⟨r, hr', heq⟩ := bind_eq_ok hstep
      cases heq
      -- test windows are put side by side, and the table is short
      have hlength := hr.reachable.length_le
      unfold maxWindows at hlength
      unfold openTestWindow at hr'
      split at hr'
      · cases hr'
        exact ih
      · obtain ⟨offset, hoffset, hr'⟩ := bind_eq_ok hr'
        obtain ⟨rfl, -⟩ := i32_of_ok hoffset
        obtain ⟨x, hx, hr'⟩ := bind_eq_ok hr'
        obtain ⟨rfl, -⟩ := i32_of_ok hx
        obtain ⟨y, hy, hr'⟩ := bind_eq_ok hr'
        obtain ⟨rfl, -⟩ := i32_of_ok hy
        cases hr'
        exact forall_append ih ⟨Or.inl ⟨by dsimp only; omega, by dsimp only; omega⟩, nofun⟩

theorem Reachable.focusable_near {v : Window} (hshell : ShellModel shell) (h : Reachable shell s) (hw : w ∈ s.windows)
    (hsited : Sited w) (hv : v ∈ s.windows) (hid : v.id = w.id) (hr : v.rows[i]? = some r)
    (hfocusable : r.focusable = true) :
    Near w.x w.y := by
  refine hsited.place.resolve_right fun hhost => ?_
  have hin := List.mem_of_getElem? hr
  cases eq_of_count hw hv hid.symm (h.count_of_focusable hshell.ids hshell.names hv hin hfocusable)
  obtain ⟨text, action, kind, rfl⟩ := hhost.rows r hin
  rw [plainRow_unfocusable] at hfocusable
  cases hfocusable

theorem Reachable.focus_near (hshell : ShellModel shell) (h : Reachable shell s) (hw : w ∈ s.windows) (hsited : Sited w)
    (hfocus : s.focusedControl = some (w.id, i)) : Near w.x w.y := by
  obtain ⟨v, hv, -, hid, r, hr, hfocusable, -⟩ := h.focus.control _ _ hfocus
  exact h.focusable_near hshell hw hsited hv hid hr hfocusable

theorem Reachable.query_near (hshell : ShellModel shell) (h : Reachable shell s) (hw : w ∈ s.windows) (hsited : Sited w)
    (hquery : (s.searchQuery w.id).getD [] ≠ []) : Near w.x w.y := by
  cases hq : s.searchQuery w.id with
  | none =>
    rw [hq] at hquery
    exact absurd rfl hquery
  | some query =>
    rw [hq] at hquery
    unfold searchQuery at hq
    obtain ⟨v, hfind, hq⟩ := Option.bind_eq_some_iff.mp hq
    obtain ⟨k, hk, hq⟩ := Option.bind_eq_some_iff.mp hq
    obtain ⟨index, hindex, hq⟩ := Option.bind_eq_some_iff.mp hq
    obtain ⟨edit, hedit, hq⟩ := Option.bind_eq_some_iff.mp hq
    cases hq
    have hid := List.find?_some hfind
    simp only [decide_eq_true_eq] at hid
    have hv := List.mem_of_find?_eq_some hfind
    have hr := List.getElem?_eq_getElem (List.findIdx?_eq_some_iff_getElem.mp hk).1
    have htext : (s.editSnapshot v.id k).1 ≠ [] := by
      unfold editSnapshot
      rw [hid, hindex, Option.bind_some, hedit]
      exact hquery
    have hfocusable := (h.text_row hshell.ids hshell.names hshell.fields hv hr htext).2
    exact h.focusable_near hshell hw hsited hv hid hr hfocusable

theorem Reachable.value_near (hshell : ShellModel shell) (h : Reachable shell s) (hw : w ∈ s.windows) (hsited : Sited w)
    (hr : w.rows[i]? = some r) (hvalue : (s.editSnapshot w.id i).1 ≠ []) : Near w.x w.y := by
  have hfocusable := (h.text_row hshell.ids hshell.names hshell.fields hw hr hvalue).2
  exact h.focusable_near hshell hw hsited hw rfl hr hfocusable

/-- Native geometry cannot overflow in a run whose surfaces all have room: every step returns, and so does drawing
any surface of any state on the screen. -/
theorem geometry_returns (hshell : ShellModel shell) (h : Run shell HasRoom s) : (∀ input, Returns (s.step input)) ∧
    ∀ w ∈ s.windows, ∀ focused pixels, pixels.size = screenSize → Returns (s.window w focused pixels) := by
  have hs := h.reachable
  refine ⟨fun input => hs.step_returns hshell input, fun w hw focused pixels hpixels => ?_⟩
  have hsited := h.sited hshell w hw
  have hplaced : w.Placed :=
    ⟨hs.fits hshell.word w hw, hs.small hshell.placed w hw, inRange_rule.reachable hs w hw, hsited.place⟩
  refine (window_yields hplaced (fun i r hr hvalue => ?_) (fun i hfocus => ?_) (fun hquery => ?_) hpixels).returns
  · exact hs.value_near hshell hw hsited hr hvalue
  · exact hs.focus_near hshell hw hsited hfocus
  · exact hs.query_near hshell hw hsited hquery

def noteWindow : Window :=
  hostWindow "note".toList .W 330 200 240 120 "Note".toList [plainRow "Open".toList "note.open".toList 116]

def noted : Compositor := { new [page] with windows := (new [page]).windows ++ [noteWindow] }

theorem command_noted : (new [page]).command "S|note|W|330|200|240|120|Note|t:Open@note.open".toList =
    .ok (noted, true) := by
  decide +kernel

theorem shellModel_page : ShellModel [page] := by
  refine ⟨by decide, nextName_not_mem (by decide), by decide +kernel, fun surface hin => ?_⟩
  rw [List.mem_singleton.mp hin]
  refine ⟨by decide, by decide, by decide, fun item hitem => ?_⟩
  rcases List.mem_cons.mp hitem with rfl | hitem
  · exact ⟨by decide, by decide, by decide, by decide, by decide⟩
  · rw [List.mem_singleton.mp hitem]
    exact ⟨by decide, by decide, by decide, by decide, by decide⟩

theorem geometry_returns_noted :
    noteWindow ∈ noted.windows ∧ Returns (noted.window noteWindow true (.replicate screenSize 0)) := by
  have hstep : (new [page]).step (.command "S|note|W|330|200|240|120|Note|t:Open@note.open".toList) =
    .ok (noted, none, []) := by
    rw [step, command_noted]
    rfl
  have hroom : (new [page]).HasRoom (.command "S|note|W|330|200|240|120|Note|t:Open@note.open".toList) := by
    intro payload id role x y width height title rows hline hp _
    cases hline
    have hparse : parseSurface "note|W|330|200|240|120|Note|t:Open@note.open".toList =
        some (.window "note".toList .W 330 200 240 120 "Note".toList
          [plainRow "Open".toList "note.open".toList 116]) := by
      rfl
    cases hparse.symm.trans hp
    exact ⟨by decide, by decide, by decide +kernel, by decide +kernel⟩
  have hin : noteWindow ∈ noted.windows := List.mem_append_right _ List.mem_cons_self
  have hreturns := (geometry_returns shellModel_page (.step _ .new hroom hstep)).2 _ hin
  exact ⟨hin, hreturns true _ Array.size_replicate⟩

def farWindow : Window := hostWindow "far".toList .W (2 ^ 31 - 1) 0 100 100 "Far".toList []

def far : Compositor := { new [page] with windows := (new [page]).windows ++ [farWindow] }

theorem command_far : (new [page]).command "S|far|W|2147483647|0|100|100|Far|".toList =
    .ok (far, true) := by decide +kernel

/-- The parser admits any place, and the right edge of this frame is no i32. -/
theorem geometry_overflows : ¬∀ (shell : List ShellSurface) (s : Compositor), ShellModel shell → Reachable shell s →
    ∀ w ∈ s.windows, ∀ focused pixels, pixels.size = screenSize → Returns (s.window w focused pixels) := by
  intro h
  have hin : farWindow ∈ far.windows := List.mem_append_right _ List.mem_cons_self
  obtain ⟨q, hq⟩ := h [page] far shellModel_page (.command _ .new command_far) farWindow hin true
    (.replicate screenSize 0) Array.size_replicate
  obtain ⟨d, hd, -⟩ := bind_eq_ok hq
  have hclip : farWindow.contentClip = .error .overflow := by decide +kernel
  have hfault : far.windowDraws farWindow true = .error .overflow := by
    have hunfold : far.windowDraws farWindow true = farWindow.contentClip >>= _ := rfl
    rw [hunfold, hclip]
    rfl
  cases hfault.symm.trans hd

end Compositor

end Pippin.Native
