import Pippin.Native.Command
import Pippin.Native.Drawing

/-! The compositor with its pixels: what `render` paints, and the commands with their redraws.
Each command is that of the compositor; a rejected one leaves the state and the picture alone. -/

namespace Pippin.Native
open Checked Raster Str
open Pippin.Client (Pixels WIDTH HEIGHT Event)

/-! ## Wallpaper and cursor -/

def stepBy (lo hi step : Int) : List Int :=
  (List.range ((hi - lo + step - 1) / step).toNat).map fun k : Nat => lo + k * step

def wallpaperColor (base t : UInt32) : UInt32 :=
  let r := min (((base >>> 16) &&& 0xff) * (760 - min t 600 / 4) / 760) 255
  let g := min (((base >>> 8) &&& 0xff) * (820 - min t 600 / 5) / 820) 255
  let b := min ((base &&& 0xff) + t / 18) 255
  (r <<< 16) ||| (g <<< 8) ||| b

def wallpaper (base : UInt32) (pixels : Pixels) : Checked Pixels := do
  let pixels ← (List.range HEIGHT).foldlM (fun pixels (y : Nat) =>
    fillRect 0 y WIDTH 1 (wallpaperColor base (UInt32.ofNat y)) pixels) pixels
  (stepBy 84 HEIGHT 72).foldlM (fun pixels y => do
    let offset ← i32 (y.tdiv 72 * 41)
    (stepBy (-80) WIDTH 190).foldlM (fun pixels x => do
      fillRect (← i32 (x + offset.tmod 190)) y 96 1 0x002f739f pixels) pixels) pixels

def handCursor (x y : Int) : Checked (List Draw) := do
  return [.fill (← i32 (x + 5)) (← i32 (y + 2)) 4 16 0x0019232d, .fill (← i32 (x + 9)) (← i32 (y + 8)) 11 11 0x0019232d,
    .fill (← i32 (x + 7)) (← i32 (y + 4)) 2 12 0x00ffffff, .fill (← i32 (x + 10)) (← i32 (y + 10)) 8 7 0x00ffffff]

def textCursor (x y : Int) : Checked (List Draw) := do
  return [.fill (← i32 (x + 5)) y 3 22 0x0019232d, .fill x y 13 3 0x0019232d,
    .fill x (← i32 (y + 19)) 13 3 0x0019232d, .fill (← i32 (x + 6)) (← i32 (y + 2)) 1 18 0x00ffffff]

def CURSOR : List String :=
  ["##......................", "#W#.....................", "#WW#....................", "#WWW#...................",
    "#WWWW#..................", "#WWWWW#.................", "#WWWWWW#................", "#WWWWWWW#...............",
    "#WWWWWWWW#..............", "#WWWWWWWWW#.............", "#WWWWWWWWWW#............", "#WWWWWWWWWWW#...........",
    "#WWWWWW#######..........", "#WWW#WW#.................", "#WW#.#WW#................", "#W#..#WW#................",
    "##....#WW#...............", "......#WW#...............", ".......#WW#..............", ".......#WW#..............",
    "........##...............", "........................", "........................", "........................"]

def arrowCursor (x y : Int) (pixels : Pixels) : Checked Pixels :=
  CURSOR.zipIdx.foldlM (fun pixels (row, dy) =>
    row.toList.zipIdx.foldlM (fun pixels (pixel, dx) =>
      match pixel with
      | '#' => do setPixel (← i32 (x + dx)) (← i32 (y + dy)) 0x0019232d pixels
      | 'W' => do setPixel (← i32 (x + dx)) (← i32 (y + dy)) 0x00ffffff pixels
      | _ => .ok pixels) pixels) pixels

namespace Compositor

def cursor (s : Compositor) (pixels : Pixels) : Checked Pixels := do
  match ← s.clients.cursorAt s.cursorX s.cursorY with
  | 1 => paint fillRect (← handCursor s.cursorX s.cursorY) pixels
  | 2 => paint fillRect (← textCursor s.cursorX s.cursorY) pixels
  | _ => arrowCursor s.cursorX s.cursorY pixels

def focusedIndex (s : Compositor) : Option Nat := (s.windows.zipIdx.reverse.find? fun w => !w.1.minimized).map Prod.snd

def render (s : Compositor) (pixels : Pixels) : Checked Pixels := do
  let pixels ← wallpaper s.wallpaperBase pixels
  let pixels ← s.windows.zipIdx.foldlM (fun pixels (w, index) =>
    if w.minimized then .ok pixels else s.window w (decide (s.focusedIndex = some index)) pixels) pixels
  let pixels ← s.clients.paint pixels
  s.cursor pixels

end Compositor

/-! ## Commands -/

structure Display where
  compositor : Compositor
  pixels : Pixels

namespace Display

variable {d e : Display} {line : Str}

def render (d : Display) (s : Compositor) : Checked Display := do return ⟨s, ← s.render d.pixels⟩

def known (d : Display) (id : Str) : Bool := (d.compositor.windows.findIdx? fun w => w.id = id).isSome

def command (d : Display) (line : Str) : Checked (Display × Bool) := do
  match line with
  | 'R' :: '|' :: id =>
    if d.known id then return (← d.render (← d.compositor.restoreCommand id), true) else return (d, true)
  | 'M' :: '|' :: id =>
    if d.known id then return (← d.render (← d.compositor.minimizeCommand id), true) else return (d, true)
  | 'X' :: '|' :: id => return (← d.render (d.compositor.closeCommand id), true)
  | 'S' :: '|' :: payload =>
    match Compositor.parseSurface payload with
    | none => return (d, false)
    | some surface =>
      match ← d.compositor.surfaceCommand surface with
      | none => return (d, false)
      | some s => return (← d.render s, true)
  | _ => return (d, false)

def redraws : Str → Bool
  | 'W' :: 'B' :: '|' :: _ => false
  | 'W' :: 'P' :: '|' :: _ => false
  | _ => true

def clientCommand (d : Display) (line : Str) : Checked (Display × Bool × List Event) := do
  if !d.compositor.clients.validate line then return (d, false, [])
  let (clients, events) ← d.compositor.clients.command line
  let s := { d.compositor with clients }
  if redraws line then return (← d.render s, true, events) else return (⟨s, d.pixels⟩, true, events)

theorem render_of_ok {s : Compositor} (h : d.render s = .ok e) : e.compositor = s := by
  obtain ⟨pixels, -, h⟩ := bind_eq_ok h
  cases h
  rfl

theorem known_compositor {id : Str} {accepted : Bool} {m : Checked Compositor}
    (hnone : d.known id = false → m = .ok d.compositor)
    (h : (if d.known id then do return (← d.render (← m), true) else return (d, true) : Checked (Display × Bool)) =
      .ok (e, accepted)) : accepted = true ∧ m = .ok e.compositor := by
  split at h
  · obtain ⟨s, hs, h⟩ := bind_eq_ok h
    obtain ⟨e', hrender, h⟩ := bind_eq_ok h
    cases h
    exact ⟨rfl, hs.trans (congrArg Except.ok (render_of_ok hrender).symm)⟩
  · rename_i hk
    cases h
    exact ⟨rfl, hnone (Bool.eq_false_iff.mpr hk)⟩

theorem known_eq_false {id : Str} (h : d.known id = false) :
    (d.compositor.windows.findIdx? fun w => w.id = id) = none := by
  unfold known at h
  exact Option.isSome_eq_false_iff.mp h |> Option.isNone_iff_eq_none.mp

/-- What a command does: the compositor makes the same step, and a rejected line does nothing. -/
theorem command_cases {accepted : Bool} (h : d.command line = .ok (e, accepted)) :
    d.compositor.command line = .ok (e.compositor, accepted) ∧ (accepted = false → e = d) := by
  -- painting only adds pixels, so each command is the compositor's own
  unfold command at h
  split at h
  · rename_i id
    obtain ⟨rfl, hm⟩ := known_compositor (m := d.compositor.restoreCommand id)
      (fun hk => by unfold Compositor.restoreCommand; rw [known_eq_false hk]; rfl) h
    refine ⟨?_, nofun⟩
    show (do return (← d.compositor.restoreCommand id, true)) = _
    rw [hm]
    rfl
  · rename_i id
    obtain ⟨rfl, hm⟩ := known_compositor (m := d.compositor.minimizeCommand id)
      (fun hk => by unfold Compositor.minimizeCommand; rw [known_eq_false hk]; rfl) h
    refine ⟨?_, nofun⟩
    show (do return (← d.compositor.minimizeCommand id, true)) = _
    rw [hm]
    rfl
  · obtain ⟨e', hrender, h⟩ := bind_eq_ok h
    cases h
    rw [render_of_ok hrender]
    exact ⟨rfl, nofun⟩
  · rename_i payload
    show (match Compositor.parseSurface payload with
      | none => return (d.compositor, false)
      | some surface => do
        match ← d.compositor.surfaceCommand surface with
        | none => return (d.compositor, false)
        | some s => return (s, true)) = Except.ok (e.compositor, accepted) ∧ _
    split at h
    · cases h
      exact ⟨rfl, fun _ => rfl⟩
    · obtain ⟨t, ht, h⟩ := bind_eq_ok h
      rw [ht]
      cases t with
      | none =>
        cases h
        exact ⟨rfl, fun _ => rfl⟩
      | some t =>
        obtain ⟨e', hrender, h⟩ := bind_eq_ok h
        cases h
        rw [render_of_ok hrender]
        exact ⟨rfl, nofun⟩
  -- no other line is a command on either side
  · rename_i hR hM hX hS
    cases h
    refine ⟨?_, fun _ => rfl⟩
    unfold Compositor.command
    split
    · exact absurd rfl (hR _)
    · exact absurd rfl (hM _)
    · exact absurd rfl (hX _)
    · exact absurd rfl (hS _)
    · rfl

theorem clientCommand_cases {accepted : Bool} {events : List Event}
    (h : d.clientCommand line = .ok (e, accepted, events)) :
    d.compositor.clientCommand line = .ok (e.compositor, accepted, events) ∧
      (accepted = false → e = d ∧ events = []) := by
  unfold clientCommand at h
  unfold Compositor.clientCommand
  split at h
  · rename_i hv
    cases h
    exact ⟨if_pos hv, fun _ => ⟨rfl, rfl⟩⟩
  · rename_i hv
    rw [if_neg hv]
    obtain ⟨r, hr, h⟩ := bind_eq_ok h
    rw [hr]
    dsimp only at h
    split at h
    · obtain ⟨e', hrender, h⟩ := bind_eq_ok h
      cases h
      rw [render_of_ok hrender]
      exact ⟨rfl, nofun⟩
    · cases h
      exact ⟨rfl, nofun⟩

/-- A rejected line leaves the state and the picture as they are, and no client hears of it. -/
theorem rejected_unchanged (d : Display) (line : Str) :
    Ensures (d.command line) (fun r => r.2 = false → r.1 = d) ∧
      Ensures (d.clientCommand line) fun r => r.2.1 = false → r.1 = d ∧ r.2.2 = [] :=
  ⟨fun _ h => (command_cases h).2, fun _ h => (clientCommand_cases h).2⟩

end Display

end Pippin.Native
