import Pippin.Native.OnScreen
import Pippin.Native.Returns
import Pippin.Native.ShapeRoom

/-! When a surface is drawn without overflow. Drawing adds to the place that an `S|` line gives,
and the sums that are made for each kind of surface say how much room the place needs. -/

namespace Pippin.Native
open Checked
open Pippin.Client (Pixels)

/-! ## Room -/

/-- The fixed place of a row, and of what is drawn of it when its top is above the bottom of the frame: a
heading, a text field and a button end with the row, a toggle ends before. -/
def RowRoom (x y width height : Int) (row : Row × Nat) : Prop :=
  y + 60 + 42 * row.2 < 2 ^ 31 ∧ (48 < width → 61 + 42 * row.2 < height →
    y + 60 + 42 * row.2 +
    (if row.1.kind = 104 ∨ row.1.kind = kindSearch ∨ row.1.kind = kindEdit ∨ row.1.action ≠ [] then 34
      else if row.1.kind = 116 then 27 else 10) < 2 ^ 31 ∧
    TextRoom (x + if row.1.kind = 104 then 28 else 38) (y + 60 + 42 * row.2 + 10) row.1.text.bytes 2 ∧
    (row.1.kind = kindEdit → x + 38 + 12 * row.1.text.len < 2 ^ 31) ∧
    (row.1.kind = 116 → -2 ^ 31 ≤ x + width - 76))

instance (x y width height : Int) (row : Row × Nat) : Decidable (RowRoom x y width height row) :=
  inferInstanceAs (Decidable (_ ∧ _))

/-- Where a panel without a layout writes its rows: at the left, around the middle, and at the right. -/
def panelText (x : Int) (row : Row × Nat) : Int :=
  x + if row.2 = 0 then 48 else if row.2 = 1 then 512 - 3 * row.1.text.len else 850

def Room (role : Role) (x y width height : Int) (title : Str) (rows : List Row) : Prop :=
  match role with
  | .P => x + (if 2 < rows.length then 850 else 778) < 2 ^ 31 ∧ y + max height 41 < 2 ^ 31 ∧
    ∀ row ∈ (rows.take 3).zipIdx, TextRoom (panelText x row) (y + 17) row.1.text.bytes 1
  | .D => x + 9 < 2 ^ 31 ∧ y + height + 7 < 2 ^ 31 ∧
    (rows ≠ [] → x + 120 * (min rows.length 8 : Nat) - 59 < 2 ^ 31 ∧ y + 60 < 2 ^ 31) ∧
    ∀ row ∈ (rows.take 8).zipIdx, TextRoom (x + 61 + 120 * row.2) (y + 30) row.1.text.bytes 1
  | .N => x + 8 < 2 ^ 31 ∧ y + height + 5 < 2 ^ 31 ∧
    (rows ≠ [] → x + 18 < 2 ^ 31 ∧ y + 18 * rows.length < 2 ^ 31) ∧
    ∀ row ∈ rows.zipIdx, TextRoom (x + 18) (y + 18 + 18 * row.2) row.1.text.bytes 1
  | .W | .L => x + max width 92 < 2 ^ 31 ∧ y + max (height + 11) 75 < 2 ^ 31 ∧
    TextRoom (x + max ((width - title.len * 12).tdiv 2) 92) (y + 15) title.bytes 2 ∧
    ∀ row ∈ rows.zipIdx, RowRoom x y width height row

structure Window.Hosted (w : Window) : Prop where
  x : -2 ^ 31 ≤ w.x
  y : -2 ^ 31 ≤ w.y
  width : 40 ≤ w.width
  height : 30 ≤ w.height
  rows : ∀ r ∈ w.rows, ∃ text action kind, r = Compositor.plainRow text action kind
  room : Room w.role w.x w.y w.width w.height w.title w.rows

variable {s t : Compositor} {w : Window} {r : Row} {i : Nat} {focused : Bool}

/-- What drawing relies on: a surface near the screen, or one of the host with room. -/
structure Window.Placed (w : Window) : Prop where
  fits : w.Fits
  small : w.Small
  range : w.InRange
  place : Near w.x w.y ∨ w.Hosted

namespace Compositor

theorem half_cases (v : Int) : 0 ≤ v ∧ v.tdiv 2 = v / 2 ∨ v < 0 ∧ v.tdiv 2 = -(-v / 2) := by
  rcases lt_or_ge v 0 with hneg | hpos
  · refine Or.inr ⟨hneg, ?_⟩
    rw [← Int.tdiv_eq_ediv_of_nonneg (by omega), Int.neg_tdiv, Int.neg_neg]
  · exact Or.inl ⟨hpos, Int.tdiv_eq_ediv_of_nonneg hpos⟩

theorem centred_yields (outer inner : Int) (ho : -2 ^ 20 ≤ outer ∧ outer ≤ 2 ^ 20)
    (hi : -2 ^ 20 ≤ inner ∧ inner ≤ 2 ^ 20) :
    Yields (centred outer inner) fun c => 0 ≤ c ∧ 2 * c ≤ max (outer - inner) 0 := by
  have hhalf := half_cases (outer - inner)
  unfold centred
  rw [i32_eq (by omega) (by omega), ok_bind]
  exact yields_ok (by omega)

theorem mem_zipIdx_take {n : Nat} {p : Row × Nat} (h : p ∈ (w.rows.take n).zipIdx) :
    w.rows[p.2]? = some p.1 ∧ p.2 < n := by
  obtain ⟨k, hk⟩ := List.mem_iff_getElem?.mp h
  obtain ⟨rfl, hr⟩ := getElem?_zipIdx hk
  have hlt := (List.getElem?_eq_some_iff.mp hr).1
  rw [List.length_take] at hlt
  rw [List.getElem?_take_of_lt (by omega)] at hr
  exact ⟨hr, by omega⟩

theorem mem_zipIdx_rows {p : Row × Nat} (h : p ∈ w.rows.zipIdx) : w.rows[p.2]? = some p.1 := by
  obtain ⟨k, hk⟩ := List.mem_iff_getElem?.mp h
  obtain ⟨rfl, hr⟩ := getElem?_zipIdx hk
  exact hr

end Compositor

open Compositor

theorem Window.Small.label (h : w.Small) (hr : w.rows[i]? = some r) : i < 16 ∧ r.text.bytes.length ≤ 96 :=
  ⟨h.index hr, (h.row hr).text⟩

namespace Window.Placed

variable (h : w.Placed)

include h

theorem laidOut (hr : w.rows[i]? = some r) (hlaid : r.laidOut = true) : Near w.x w.y := by
  refine h.place.resolve_right fun hhost => ?_
  obtain ⟨text, action, kind, rfl⟩ := hhost.rows r (List.mem_of_getElem? hr)
  cases hlaid

theorem left : -2 ^ 31 ≤ w.x + w.width - 8 := by
  have hwidth := h.fits.frame.width
  rcases h.place with ⟨hx, -⟩ | ⟨hx, -, hwide, -⟩ <;> omega

theorem frame {d e : Int} (hd : 0 ≤ d ∧ d ≤ 9) (he : 0 ≤ e ∧ e ≤ 11) (hright : w.x + d + 4 < 2 ^ 31)
    (hbottom : w.y + e + w.height < 2 ^ 31) (color borderColor : UInt32) :
    (Draw.rounded (w.x + d) (w.y + e) w.width w.height color borderColor).Room := by
  obtain ⟨hx, hy, hwidth, hheight⟩ := h.fits.frame
  unfold Draw.Room RoundedRoom BorderRoom
  rcases h.place with ⟨hx', hy'⟩ | ⟨-, -, hwide, hhigh, -⟩ <;> omega

theorem plainFrame (hright : w.x + 4 < 2 ^ 31) (hbottom : w.y + w.height < 2 ^ 31) (color borderColor : UInt32) :
    (Draw.rounded w.x w.y w.width w.height color borderColor).Room := by
  have hframe := h.frame (d := 0) (e := 0) (by decide) (by decide) (by omega) (by omega) color borderColor
  rw [Int.add_zero, Int.add_zero] at hframe
  exact hframe

theorem rowRoom (hnear : Near w.x w.y) (hr : r.Small) (hi : i < 16) : RowRoom w.x w.y w.width w.height (r, i) := by
  obtain ⟨hx, hy⟩ := hnear
  have htext := hr.text
  have hbytes : r.text.bytes.length ≤ 96 := hr.text
  have hwidth := h.fits.frame.width
  refine ⟨by dsimp only; omega, fun _ _ => ⟨?_, ?_, fun _ => by dsimp only; omega, fun _ => by omega⟩⟩
  · dsimp only
    split
    · omega
    · split <;> omega
  · exact .of_right (by decide) (by dsimp only; split <;> omega) (by dsimp only; omega)

theorem room : Room w.role w.x w.y w.width w.height w.title w.rows := by
  rcases h.place with hnear | hhost
  · obtain ⟨-, -, hwidth, hheight⟩ := h.fits.frame
    have hlength := h.small.length
    have htitle : w.title.bytes.length ≤ 40 := h.small.title
    have hhalf := half_cases (w.width - w.title.len * 12)
    have hrow : ∀ p ∈ w.rows.zipIdx, w.rows[p.2]? = some p.1 := fun p hp => mem_zipIdx_rows hp
    have hrows : ∀ p ∈ w.rows.zipIdx, RowRoom w.x w.y w.width w.height p := fun p hp =>
      h.rowRoom hnear (h.small.row (hrow p hp)) (h.small.index (hrow p hp))
    obtain ⟨hx, hy⟩ := hnear
    unfold Room
    cases w.role with
    | P =>
      refine ⟨by split <;> omega, by omega, fun p hp => ?_⟩
      obtain ⟨hindex, hlabel⟩ := h.small.label (mem_zipIdx_take hp).1
      refine .of_right (by decide) ?_ (by omega)
      unfold panelText
      split
      · omega
      · split <;> omega
    | D =>
      refine ⟨by omega, by omega, fun _ => ⟨by omega, by omega⟩, fun p hp => ?_⟩
      obtain ⟨hindex, hlabel⟩ := h.small.label (mem_zipIdx_take hp).1
      exact .of_right (by decide) (by omega) (by omega)
    | N =>
      refine ⟨by omega, by omega, fun _ => ⟨by omega, by omega⟩, fun p hp => ?_⟩
      obtain ⟨hindex, hlabel⟩ := h.small.label (hrow p hp)
      exact .of_right (by decide) (by omega) (by omega)
    | W | L => exact ⟨by omega, by omega, .of_right (by decide) (by omega) (by omega), hrows⟩
  · exact hhost.room

theorem framed (hrole : w.role.framed = true) :
    w.x + max w.width 92 < 2 ^ 31 ∧ w.y + max (w.height + 11) 75 < 2 ^ 31 ∧
    TextRoom (w.x + max ((w.width - w.title.len * 12).tdiv 2) 92) (w.y + 15) w.title.bytes 2 ∧
    ∀ i r, w.rows[i]? = some r → RowRoom w.x w.y w.width w.height (r, i) := by
  have hroom := h.room
  unfold Room at hroom
  generalize hw : w.role = role at hrole hroom
  cases role with
  | P => cases hrole
  | D => cases hrole
  | N => cases hrole
  | W | L =>
    obtain ⟨hx, hy, htitle, hrows⟩ := hroom
    exact ⟨hx, hy, htitle, fun i r hr => hrows _ (List.mem_of_getElem? (zipIdx_getElem? hr))⟩

end Window.Placed

namespace Compositor

/-! ## Shell surfaces -/

theorem panelRow_yields (h : w.Placed) (hr : w.rows[i]? = some r) : Yields (s.panelRow w (r, i)) Rooms := by
  unfold panelRow
  dsimp only
  cases hlaid : r.laidOut with
  | false => exact yields_ok .nil
  | true =>
    obtain ⟨hx, hy⟩ := h.laidOut hr hlaid
    obtain ⟨hrx, hry, hwidth, hheight, htext⟩ := h.small.row hr
    have hlabel : r.text.bytes.length ≤ 256 := (h.small.label hr).2.trans (by decide)
    have hhalf := half_cases (r.width - r.text.len * 6)
    have hface : ∀ fill border, (Draw.rounded (w.x + r.x) (w.y + r.y) r.width r.height fill border).Room := fun _ _ =>
      roundedNear (by omega) (by omega) (by omega) (by omega)
    have hnote : ∀ x color, w.x + r.x ≤ x ∧ x ≤ w.x + r.x + 1024 ∨ -2048 ≤ x ∧ x ≤ 4096 →
        (Draw.text x (w.y + r.y + 10) r.text.bytes 1 color).Room := fun x _ hplace =>
      textNear (by omega) (by omega) (by decide) hlabel
    simp (disch := omega) only [i32_eq, ok_bind, Bool.not_true, Bool.false_eq_true, if_false]
    split
    · exact yields_ok <| .cons (hface _ _) <| .cons trivial <| .cons (hnote _ _ (by omega)) .nil
    · split
      · exact yields_ok <| .cons (hface _ _) <| .cons trivial <| .cons trivial <| .cons trivial <|
          .cons (hnote _ _ (by omega)) .nil
      · split
        · exact yields_ok <| .cons (hface _ _) <| .cons (hnote _ _ (by omega)) .nil
        · exact yields_ok <| .cons (hface _ _) <| .cons (hnote _ _ (by omega)) .nil

theorem optional_yields {k : Nat} {draws : Row → Checked (List Draw)}
    (h : ∀ r, w.rows[k]? = some r → Yields (draws r) Rooms) :
    Yields (match w.rows[k]? with
      | some r => draws r
      | none => pure [] : Checked (List Draw)) Rooms := by
  cases hr : w.rows[k]? with
  | none => exact yields_ok .nil
  | some r => exact h r hr

theorem plainPanel_yields (h : w.Placed) (hrole : w.role = .P) : Yields (plainPanel w) Rooms := by
  have hroom := h.room
  have hx := h.fits.frame.x
  have hy := h.fits.frame.y
  rw [hrole] at hroom
  obtain ⟨hright, hbottom, htexts⟩ := hroom
  have hright' : w.x + 778 < 2 ^ 31 := by split at hright <;> omega
  have hbox : ∀ dx width, 0 ≤ dx ∧ dx ≤ 774 → 8 ≤ width ∧ width < 1024 →
      (Draw.rounded (w.x + dx) (w.y + 7) width 34 SHELL_SURFACE SHELL_BORDER).Room := fun dx width hdx hwidth => by
    unfold Draw.Room RoundedRoom BorderRoom
    omega
  have hlabel : ∀ k r, w.rows[k]? = some r → k < 3 → ∀ x color, x = panelText w.x (r, k) → -2 ^ 31 ≤ x →
      (Draw.text x (w.y + 17) r.text.bytes 1 color).Room := fun k r hr hk x color hplace hx => by
    have hin : (r, k) ∈ (w.rows.take 3).zipIdx := by
      refine List.mem_of_getElem? (zipIdx_getElem? (i := k) ?_)
      rw [List.getElem?_take_of_lt hk, hr]
    have hroom := htexts _ hin
    rw [← hplace] at hroom
    exact ⟨hx, by omega, by decide, (h.small.label hr).2.trans (by decide), hroom⟩
  unfold plainPanel
  simp (disch := omega) only [i32_eq, ok_bind]
  refine (optional_yields fun r hr => ?_).bind fun first hfirst => ?_
  · exact yields_ok <| .cons (hlabel 0 r hr (by decide) _ _ rfl (by omega)) .nil
  refine (optional_yields fun r hr => ?_).bind fun second hsecond => ?_
  · have htext := (h.small.row hr).text
    have hhalf := half_cases (r.text.len * 6)
    simp (disch := omega) only [i32_eq, ok_bind]
    refine yields_ok <| .cons (hlabel 1 r hr (by decide) _ _ ?_ (by omega)) .nil
    unfold panelText
    rw [if_neg Nat.one_ne_zero, if_pos rfl]
    dsimp only
    omega
  refine (optional_yields fun r hr => ?_).bind fun third hthird => ?_
  · have hlength := (List.getElem?_eq_some_iff.mp hr).1
    rw [if_pos hlength] at hright
    simp (disch := omega) only [i32_eq, ok_bind]
    exact yields_ok <| .cons (hlabel 2 r hr (by decide) _ _ rfl (by omega)) .nil
  exact yields_ok <| .append (.append (.cons (hbox 12 198 (by decide) (by decide)) hfirst)
    (.cons (hbox 420 184 (by decide) (by decide)) hsecond)) (.cons (hbox 774 238 (by decide) (by decide)) hthird)

theorem panelDraws_yields (h : w.Placed) (hrole : w.role = .P) : Yields (s.panelDraws w) Rooms := by
  have hroom := h.room
  rw [hrole] at hroom
  obtain ⟨-, hbottom, -⟩ := hroom
  have hy := h.fits.frame.y
  have hheight := h.fits.frame.height
  have hbar : Rooms [.fill w.x w.y w.width w.height SHELL_DARK,
      .fill w.x (w.y + w.height - 1) w.width 1 SHELL_BORDER] := .cons trivial (.cons trivial .nil)
  unfold panelDraws
  simp (disch := omega) only [i32_eq, ok_bind]
  split
  · refine (yields_mapM (Q := Rooms) fun p hp => ?_).bind fun rows hrows => yields_ok (hbar.append (.flatten hrows))
    exact panelRow_yields h (mem_zipIdx_take hp).1
  · exact (plainPanel_yields h hrole).bind fun rows hrows => yields_ok (hbar.append hrows)

theorem dockRow_yields (h : w.Placed) (hrole : w.role = .D) (hr : w.rows[i]? = some r) (hi : i < 8) :
    Yields (s.dockRow w (r, i)) Rooms := by
  have hlabel : r.text.bytes.length ≤ 256 := (h.small.label hr).2.trans (by decide)
  have hletter : (if i = 0 then [65] else if i = 1 then [70] else [83] : List UInt8).length = 1 := by
    split
    · rfl
    · split <;> rfl
  unfold dockRow
  dsimp only
  cases hlaid : r.laidOut with
  | true =>
    obtain ⟨hx, hy⟩ := h.laidOut hr hlaid
    obtain ⟨hrx, hry, hwidth, hheight, -⟩ := h.small.row hr
    obtain ⟨icon, hicon, hicon0, hicon'⟩ := centred_yields r.height 30 (by omega) (by omega)
    obtain ⟨text, htext, htext0, htext'⟩ := centred_yields r.height 7 (by omega) (by omega)
    simp only [hicon, htext, if_true, pure_bind, ok_bind]
    rw [i32_eq (by omega) (by omega), ok_bind, i32_eq (by omega) (by omega), ok_bind, i32_eq (by omega) (by omega),
      ok_bind, i32_eq (by omega) (by omega), ok_bind, i32_eq (by omega) (by omega), ok_bind,
      i32_eq (by omega) (by omega), ok_bind, i32_eq (by omega) (by omega), ok_bind, i32_eq (by omega) (by omega)]
    refine yields_ok <| .cons (roundedNear ?_ ?_ ?_ ?_) <| .cons (roundedNear ?_ ?_ (by decide) (by decide)) <|
      .cons (textNear ?_ ?_ (by decide) ?_) <| .cons (textNear ?_ ?_ (by decide) hlabel) .nil
    all_goals omega
  -- a row without a frame takes the slot of its index
  | false =>
    have hroom := h.room
    rw [hrole] at hroom
    obtain ⟨-, -, hrows, htexts⟩ := hroom
    have hlength := (List.getElem?_eq_some_iff.mp hr).1
    obtain ⟨hright, hbottom⟩ := hrows (List.ne_nil_of_length_pos (by omega))
    have hright : w.x + 120 * i + 61 < 2 ^ 31 := by omega
    have hin : (r, i) ∈ (w.rows.take 8).zipIdx := by
      refine List.mem_of_getElem? (zipIdx_getElem? (i := i) ?_)
      rw [List.getElem?_take_of_lt hi, hr]
    have hx := h.fits.frame.x
    have hy := h.fits.frame.y
    have hicon : centred 52 30 = .ok 11 := by decide
    have htext : centred 52 7 = .ok 22 := by decide
    simp only [hicon, htext, Bool.false_eq_true, if_false, ok_bind]
    rw [i32_eq (by omega) (by omega), ok_bind, i32_eq (by omega) (by omega), ok_bind, i32_eq (by omega) (by omega),
      ok_bind, i32_eq (by omega) (by omega), ok_bind, i32_eq (by omega) (by omega), ok_bind,
      i32_eq (by omega) (by omega), ok_bind, i32_eq (by omega) (by omega), ok_bind, i32_eq (by omega) (by omega),
      ok_bind, i32_eq (by omega) (by omega), ok_bind, i32_eq (by omega) (by omega)]
    have hname := htexts _ hin
    dsimp only at hname
    refine yields_ok <| .cons ?_ <| .cons ?_ <| .cons ⟨?_, ?_, by decide, ?_, ?_⟩ <|
      .cons ⟨?_, ?_, by decide, hlabel, ?_⟩ .nil
    · unfold Draw.Room RoundedRoom BorderRoom
      omega
    · unfold Draw.Room RoundedRoom BorderRoom
      omega
    · omega
    · omega
    · omega
    · exact .of_right (by decide) (by omega) (by omega)
    · omega
    · omega
    · have hleft : w.x + (12 + i * 120) + 49 = w.x + 61 + 120 * i := by omega
      have htop : w.y + 8 + 22 = w.y + 30 := by omega
      rw [hleft, htop]
      exact hname

theorem dockDraws_yields (h : w.Placed) (hrole : w.role = .D) : Yields (s.dockDraws w) Rooms := by
  have hroom := h.room
  rw [hrole] at hroom
  obtain ⟨hright, hbottom, -⟩ := hroom
  obtain ⟨hx, hy, hwidth, hheight⟩ := h.fits.frame
  have hbase : Rooms [.rounded (w.x + 5) (w.y + 7) w.width w.height 0x0010151a 0x0010151a,
      .rounded w.x w.y w.width w.height SHELL_DARK SHELL_BORDER] :=
    .cons (h.frame (by decide) (by decide) (by omega) (by omega) _ _) <|
      .cons (h.plainFrame (by omega) (by omega) _ _) .nil
  unfold dockDraws
  simp (disch := omega) only [i32_eq, ok_bind]
  refine (yields_mapM (Q := Rooms) fun p hp => ?_).bind fun rows hrows => yields_ok (hbase.append (.flatten hrows))
  obtain ⟨hr, hlt⟩ := mem_zipIdx_take hp
  exact dockRow_yields h hrole hr hlt

theorem noticeDraws_yields (h : w.Placed) (hrole : w.role = .N) : Yields (noticeDraws w) Rooms := by
  have hroom := h.room
  rw [hrole] at hroom
  obtain ⟨hright, hbottom, hrows, htexts⟩ := hroom
  obtain ⟨hx, hy, hwidth, hheight⟩ := h.fits.frame
  have hbase : Rooms [.rounded (w.x + 4) (w.y + 5) w.width w.height CHROME_SHADOW CHROME_SHADOW,
      .rounded w.x w.y w.width w.height SHELL_DARK SHELL_BORDER] :=
    .cons (h.frame (by decide) (by decide) (by omega) (by omega) _ _) <|
      .cons (h.plainFrame (by omega) (by omega) _ _) .nil
  unfold noticeDraws
  simp (disch := omega) only [i32_eq, ok_bind]
  refine (yields_mapM (Q := Draw.Room) fun p hp => ?_).bind fun rows hlines => yields_ok (hbase.append hlines)
  have hr := mem_zipIdx_rows hp
  have hlength := h.small.length
  have hindex := (List.getElem?_eq_some_iff.mp hr).1
  have hlabel : p.1.text.bytes.length ≤ 256 := (h.small.label hr).2.trans (by decide)
  obtain ⟨hright, hline⟩ := hrows (List.ne_nil_of_length_pos (by omega))
  have htext := htexts p hp
  rw [Int.mul_comm 18 (p.2 : Int)] at htext
  simp (disch := omega) only [i32_eq, ok_bind]
  exact yields_ok ⟨by omega, by omega, by decide, hlabel, htext⟩

/-! ## Framed surfaces -/

theorem buttonDraws_yields (h : w.Placed) (hrole : w.role.framed = true) : Yields (buttonDraws w) Rooms := by
  obtain ⟨hright, hbottom, -⟩ := h.framed hrole
  have hx := h.fits.frame.x
  have hy := h.fits.frame.y
  unfold buttonDraws
  simp (disch := omega) only [i32_eq, ok_bind]
  refine yields_ok <| .cons trivial <| .cons trivial <| .cons trivial <| .cons trivial <| .cons trivial <|
    .cons trivial <| .cons trivial <| .cons trivial <| .cons ?_ .nil
  unfold Draw.Room BorderRoom
  omega

theorem chromeDraws_yields (h : w.Placed) (hrole : w.role.framed = true) : Yields (chromeDraws w focused) Rooms := by
  obtain ⟨hright, hbottom, htext, -⟩ := h.framed hrole
  obtain ⟨hx, hy, hwidth, hheight⟩ := h.fits.frame
  have htitle := h.small.title
  have hbytes : w.title.bytes.length ≤ 256 := htitle.trans (by decide)
  have hhalf := half_cases (w.width - w.title.len * 12)
  unfold chromeDraws headerHeight
  simp (disch := omega) only [i32_eq, ok_bind]
  refine (buttonDraws_yields h hrole).bind fun buttons hbuttons => yields_ok ?_
  refine .append (.append ?_ hbuttons) (.cons ⟨by omega, by omega, by decide, hbytes, htext⟩ .nil)
  exact .cons (h.frame (by decide) (by decide) (by omega) (by omega) _ _) <|
    .cons (h.frame (by decide) (by decide) (by omega) (by omega) _ _) <|
    .cons (h.plainFrame (by omega) (by omega) _ _) <| .cons trivial <| .cons trivial .nil

theorem contentClip_framed (h : w.Placed) (hrole : w.role.framed = true) : w.contentClip = .ok w.clip := by
  obtain ⟨hright, hbottom, -⟩ := h.framed hrole
  obtain ⟨hx, hy, hwidth, hheight⟩ := h.fits.frame
  unfold Window.contentClip headerHeight
  dsimp only
  rw [if_pos hrole, if_pos hrole]
  simp (disch := omega) only [i32_eq, ok_bind]
  rfl

theorem scrollbarDraws_yields (h : w.Placed) (hrole : w.role.framed = true) : Yields (scrollbarDraws w) Rooms := by
  obtain ⟨hright, hbottom, -⟩ := h.framed hrole
  obtain ⟨hx, hy, hwidth, hheight⟩ := h.fits.frame
  have hleft := h.left
  have hscrollbar : Yields w.scrollbar fun b => ∀ bar, b = some bar →
      bar.trackTop = w.y + 51 ∧ bar.trackHeight = max (w.height - 58) 24 := by
    unfold Window.scrollbar
    rw [contentClip_framed h hrole, ok_bind]
    refine (Window.maxScroll_yields h.fits.rows hheight).bind fun m hm => ?_
    unfold Window.clip
    dsimp only
    split
    · rw [i32_eq (v := w.y + 44 + 1 + 6) (by omega) (by omega), ok_bind,
        i32_eq (v := w.y + w.height - 1 - (w.y + 44 + 1)) (by omega) (by omega), ok_bind,
        i32_eq (by omega) (by omega), ok_bind,
        ok_bind]
      have htrack : 24 ≤ max (w.y + w.height - 1 - (w.y + 44 + 1) - 12) 24 := Int.le_max_right _ _
      obtain ⟨hlow, hhigh⟩ :=
        Window.clamp_within (v := Window.asI32 ((max (w.y + w.height - 1 - (w.y + 44 + 1) - 12) 24 *
        max (w.y + w.height - 1 - (w.y + 44 + 1)) 1).tdiv
          (saturate (max (w.y + w.height - 1 - (w.y + 44 + 1)) 1 + m)))) htrack
      rw [i32_eq (by omega) (by omega), ok_bind]
      refine yields_ok ?_
      rintro bar ⟨⟩
      dsimp only
      omega
    · exact yields_ok nofun
  obtain ⟨b, hb, hplace⟩ := hscrollbar
  unfold scrollbarDraws
  rw [hb, ok_bind]
  cases b with
  | none => exact yields_ok .nil
  | some bar =>
    obtain ⟨htop, htrack⟩ := hplace bar rfl
    obtain ⟨-, hoffset, hthumb, hend⟩ := h.range.scrollbar _ hb bar rfl
    simp (disch := omega) only [i32_eq, ok_bind]
    refine yields_ok (.cons ?_ .nil)
    unfold Draw.Room RoundedRoom BorderRoom
    omega

structure RowPlace (s : Compositor) (w : Window) (r : Row) (i : Nat) (rect : Rect) : Prop where
  size : (0 ≤ rect.2.2.1 ∧ rect.2.2.1 ≤ 2048) ∧ 0 ≤ rect.2.2.2 ∧ rect.2.2.2 ≤ 1024
  left : -2 ^ 31 + 2 ≤ rect.1
  right : rect.1 + max rect.2.2.1 14 < 2 ^ 31
  top : -2 ^ 31 + 10 ≤ rect.2.1
  middle : 2 * rect.2.1 + max (rect.2.2.2 - 14) 6 < 2 ^ 32
  bottom : r.kind = 104 ∨ r.kind = kindSearch ∨ r.kind = kindEdit ∨ r.action ≠ [] → rect.2.1 + rect.2.2.2 < 2 ^ 31
  text : TextRoom (rect.1 + if r.kind = 104 then 4 else 14) (rect.2.1 + max ((rect.2.2.2 - 14).tdiv 2) 0) r.text.bytes 2
  label : r.kind = kindEdit → rect.1 + 14 + 12 * r.text.len < 2 ^ 31
  toggle : r.kind = 116 → -2 ^ 31 ≤ rect.1 + rect.2.2.1 - 52 ∧ 2 * rect.2.1 + max (rect.2.2.2 + 20) 40 < 2 ^ 32
  value : (s.editSnapshot w.id i).1 ≠ [] → rect.1 ≤ 2 ^ 20 ∧ rect.2.1 ≤ 2 ^ 20
  caret : s.focusedControl = some (w.id, i) → rect.1 ≤ 2 ^ 20 ∧ rect.2.1 ≤ 2 ^ 20

theorem rowPlace_near {rect : Rect} (hx : -2 ^ 12 ≤ rect.1 ∧ rect.1 ≤ 2 ^ 17)
    (hy : -2 ^ 12 ≤ rect.2.1 ∧ rect.2.1 ≤ 2 ^ 12)
    (hwidth : 0 ≤ rect.2.2.1 ∧ rect.2.2.1 ≤ 2048) (hheight : 0 ≤ rect.2.2.2 ∧ rect.2.2.2 ≤ 1024)
    (htext : r.text.len ≤ 96) :
    RowPlace s w r i rect := by
  have hbytes : r.text.bytes.length ≤ 96 := htext
  have hhalf := half_cases (rect.2.2.2 - 14)
  refine ⟨⟨hwidth, hheight⟩, ?_, ?_, ?_, ?_, fun _ => ?_, ?_, fun _ => ?_, fun _ => ⟨?_, ?_⟩, fun _ => ⟨?_, ?_⟩,
    fun _ => ⟨?_, ?_⟩⟩
  case refine_6 => exact .of_right (by decide) (by split <;> omega) (by omega)
  all_goals omega

theorem paintRow_yields (h : w.Placed) (hrole : w.role.framed = true) (hr : w.rows[i]? = some r)
    (hvalue : (s.editSnapshot w.id i).1 ≠ [] → Near w.x w.y)
    (hfocus : s.focusedControl = some (w.id, i) → Near w.x w.y) : Yields (s.paintRow w w.clip (r, i)) fun q =>
      ∀ rect, q = some rect → RowPlace s w r i rect := by
  obtain ⟨hright, hbottom, -, hrows⟩ := h.framed hrole
  obtain ⟨hx, hy, hwidth, hheight⟩ := h.fits.frame
  have hsmall := h.small.row hr
  have htext := hsmall.text
  have hindex := h.small.index hr
  have hscroll := h.fits.scroll
  have hclip : IsI32 (w.clip.right - w.clip.left) ∧ IsI32 (w.clip.bottom - w.clip.top) := by
    unfold Window.clip IsI32
    dsimp only
    omega
  unfold paintRow layoutFrame
  dsimp only
  split
  · exact yields_ok nofun
  -- a row with a frame is placed near the window, one without in a slot of 42 pixels
  · cases hlaid : r.laidOut with
    | true =>
      obtain ⟨hx, hy⟩ := h.laidOut hr hlaid
      obtain ⟨⟨x, y, width, height⟩, hf, hfx, hfy, hfwidth, hfheight⟩ :=
        filteredFrame_yields (s := s) (i := i) h.small hsmall
      dsimp only at hfx hfy hfwidth hfheight
      rw [if_pos rfl, hf, ok_bind]
      dsimp only
      rw [i32_eq (by omega) (by omega), ok_bind, i32_eq (by omega) (by omega), ok_bind, Bool.true_and,
        if_pos hrole, i32_eq (by omega) (by omega), ok_bind]
      refine (intersect_yields hclip).bind fun q _ => ?_
      split
      · exact yields_ok nofun
      · refine yields_ok ?_
        rintro rect ⟨⟩
        exact rowPlace_near (by dsimp only; omega) (by dsimp only; omega) (by dsimp only; omega) hfheight htext
    | false =>
      obtain ⟨htop, hroom⟩ := hrows i r hr
      dsimp only at htop hroom
      rw [if_neg Bool.false_ne_true, i32_eq (by omega) (by omega), ok_bind, i32_eq (by omega) (by omega), ok_bind,
        i32_eq (by omega) (by omega), ok_bind, pure_bind]
      dsimp only
      rw [i32_eq (by omega) (by omega), ok_bind, i32_eq (by omega) (by omega), ok_bind, Bool.false_and,
        if_neg Bool.false_ne_true, i32_eq (by omega) (by omega), ok_bind]
      refine (intersect_yields hclip).bind fun q hq => ?_
      split
      · exact yields_ok nofun
      · rename_i hsome
        refine yields_ok ?_
        rintro rect ⟨⟩
        obtain ⟨hwide, hhigh⟩ := hq (Bool.eq_false_of_not_eq_true hsome)
        unfold Window.clip at hhigh
        dsimp only at hhigh
        -- the room is asked only of a slot that meets the clip
        obtain ⟨hend, htext, hlabel, htoggle⟩ := hroom (by omega) (by omega)
        refine ⟨by dsimp only; omega, by dsimp only; omega, by dsimp only; omega, by dsimp only; omega, ?_,
          fun hkind => ?_, ?_, fun hkind => ?_, fun hkind => ⟨?_, ?_⟩, fun hvalued => ?_, fun hfocused => ?_⟩
        · dsimp only
          split at hend
          · omega
          · split at hend <;> omega
        · rw [if_pos hkind] at hend
          dsimp only
          omega
        · have hleft : w.x + 24 + (if r.kind = 104 then 4 else 14) = w.x + if r.kind = 104 then 28 else 38 := by
            split <;> omega
          have htop : w.y + (60 + i * 42) - 0 + max ((34 - 14 : Int).tdiv 2) 0 = w.y + 60 + 42 * i + 10 := by
            have hhalf : (34 - 14 : Int).tdiv 2 = 10 := by decide
            omega
          dsimp only
          rw [hleft, htop]
          exact htext
        · have hlabel := hlabel hkind
          dsimp only
          omega
        · have htoggle := htoggle hkind
          dsimp only
          omega
        · dsimp only
          split at hend <;> omega
        · obtain ⟨hx, hy⟩ := hvalue hvalued
          dsimp only
          omega
        · obtain ⟨hx, hy⟩ := hfocus hfocused
          dsimp only
          omega

theorem paintField_yields {rect : Rect} (hp : RowPlace s w r i rect) (htext : r.text.len ≤ 96) :
    Yields (s.paintField w r i rect) fun p => p.textX = rect.1 + 14 ∧
      p.textY = rect.2.1 + max ((rect.2.2.2 - 14).tdiv 2) 0 ∧ -2 ^ 31 ≤ p.valueX ∧ p.value.length ≤ 256 ∧
      TextRoom p.valueX p.textY p.value 2 := by
  obtain ⟨x, y, width, height⟩ := rect
  obtain ⟨⟨hwidth, hheight⟩, hleft, hright, htop, hmiddle, -, -, hlabel, -, hvalue, hcaret⟩ := hp
  dsimp only at hwidth hheight hleft hright htop hmiddle hlabel hvalue hcaret
  unfold paintField
  dsimp only
  have hhalf := half_cases (height - 14)
  rw [i32_eq (v := x + 14) (by omega) (by omega), ok_bind, i32_eq (by omega) (by omega), ok_bind,
    i32_eq (by omega) (by omega), ok_bind]
  have hlabel : Yields (if r.kind = kindEdit then i32 (r.text.len * 12) else pure 0) fun label =>
      (0 ≤ label ∧ label ≤ 2048) ∧ x + 14 + label < 2 ^ 31 := by
    split
    · rename_i hkind
      have hlabel := hlabel hkind
      exact ⟨_, i32_eq (by omega) (by omega), by omega⟩
    · exact yields_ok (by omega)
  refine hlabel.bind fun label hl => ?_
  obtain ⟨hrange, hend⟩ := hl
  rw [i32_eq (by omega) (by omega), ok_bind, i32_eq (v := width - 32) (by omega) (by omega), ok_bind,
    i32_eq (by omega) (by omega), ok_bind, shownText_eq, ok_bind]
  have hchars : asUsize ((max (width - 32 - label) 12).tdiv 12) ≤ 256 := by
    rw [Int.tdiv_eq_ediv_of_nonneg (by omega), asUsize_eq (by omega) (by omega)]
    omega
  generalize hshown : (s.editSnapshot w.id i).1 = value at hvalue
  generalize asUsize ((max (width - 32 - label) 12).tdiv 12) = maxChars at hchars
  generalize editVisibleStart value.length _ (max maxChars 1) = start
  have hlength : ((value.take (start + maxChars)).drop start).length ≤ maxChars := by
    rw [List.length_drop, List.length_take]
    omega
  -- an empty value is painted nowhere, so only a value asks for a window near the screen
  have hvisible : TextRoom (x + 14 + label) (y + max ((height - 14).tdiv 2) 0)
    ((value.take (start + maxChars)).drop start) 2 := by
    by_cases hempty : value = []
    · rw [hempty, List.take_nil, List.drop_nil]
      exact textRoom_nil
    · obtain ⟨hx, hy⟩ := hvalue hempty
      exact .of_right (by decide) (by omega) (by omega)
  have hcaret : Yields (if s.focusedControl = some (w.id, i) ∧ ¬r.disabled then do
      let x ← i32 (x + 14 + label + (← i32 (min ((s.editSnapshot w.id i).2 - start) maxChars * 12)))
      return some (x, ← i32 (y + 8), 2, max (← i32 (height - 16)) 10)
    else pure none : Checked (Option Rect)) fun _ => True := by
    split
    · rename_i hfocused
      obtain ⟨hx, hy⟩ := hcaret hfocused.1
      rw [i32_eq (by omega) (by omega), ok_bind, i32_eq (by omega) (by omega), ok_bind, i32_eq (by omega) (by omega),
        ok_bind, i32_eq (by omega) (by omega), ok_bind]
      exact yields_ok trivial
    · exact yields_ok trivial
  exact hcaret.bind fun _ _ => yields_ok ⟨rfl, rfl, by dsimp only; omega, hlength.trans hchars, hvisible⟩

theorem rowDraws_yields {rect : Rect} (hp : RowPlace s w r i rect) (htext : r.text.len ≤ 96) :
    Yields (s.rowDraws w focused r i rect) Rooms := by
  have hfield := paintField_yields hp htext
  have hbytes : r.text.bytes.length ≤ 256 := htext.trans (by decide)
  obtain ⟨x, y, width, height⟩ := rect
  obtain ⟨⟨hwidth, hheight⟩, hleft, hright, htop, hmiddle, hbottom, hroom, -, htoggle, -, -⟩ := hp
  dsimp only at hwidth hheight hleft hright htop hmiddle hbottom hroom htoggle hfield
  have hhalf := half_cases (height - 14)
  have hcentre : centred height 14 = .ok (max ((height - 14).tdiv 2) 0) := by
    unfold centred
    rw [i32_eq (by omega) (by omega), ok_bind]
    rfl
  have hface : r.kind = 104 ∨ r.kind = kindSearch ∨ r.kind = kindEdit ∨ r.action ≠ [] →
      ∀ fill border, (Draw.rounded x y width height fill border).Room := fun hkind _ _ => by
    have hend := hbottom hkind
    unfold Draw.Room RoundedRoom BorderRoom
    omega
  -- headings, fields and buttons are painted by different code, each below the bound the place gives
  unfold rowDraws
  dsimp only
  split
  · rename_i hkind
    have hheading := hbottom (.inl hkind)
    rw [if_pos hkind] at hroom
    rw [i32_eq (by omega) (by omega), ok_bind, hcentre, ok_bind, i32_eq (by omega) (by omega), ok_bind,
      i32_eq (by omega) (by omega), ok_bind, i32_eq (by omega) (by omega), ok_bind]
    exact yields_ok (.cons ⟨by omega, by omega, by decide, hbytes, hroom⟩ <| .cons trivial .nil)
  · rename_i hheading
    rw [if_neg hheading] at hroom
    split
    · rename_i hkind
      refine hfield.bind fun p hpaint => ?_
      obtain ⟨htextX, htextY, hvalueX, hvalue, hshown⟩ := hpaint
      have hlow : -2 ^ 31 ≤ p.textY := by omega
      rw [← htextX, ← htextY] at hroom
      refine yields_ok (.append (.append (.append ?_ ?_) ?_) ?_)
      · exact .cons (hface (.inr (hkind.imp_right .inl)) _ _) .nil
      · split
        · exact .cons ⟨by omega, hlow, by decide, hbytes, hroom⟩ .nil
        · exact .nil
      · exact .cons ⟨hvalueX, hlow, by decide, hvalue, hshown⟩ .nil
      · split
        · exact .cons trivial .nil
        · exact .nil
    · have hbutton : ∀ fill border,
        Rooms (if r.action.isEmpty then [] else [.rounded x y width height fill border]) := by
        intro fill border
        split
        · exact .nil
        · rename_i hsome
          exact .cons (hface (.inr (.inr (.inr fun hempty => hsome (hempty ▸ rfl)))) _ _) .nil
      rw [i32_eq (by omega) (by omega), ok_bind, hcentre, ok_bind, i32_eq (by omega) (by omega), ok_bind]
      have hlabel : ∀ color, (Draw.text (x + 14) (y + max ((height - 14).tdiv 2) 0) r.text.bytes 2 color).Room :=
        fun _ => ⟨by omega, by omega, by decide, hbytes, hroom⟩
      split
      · rename_i hkind
        -- a toggle paints its switch right of the label
        obtain ⟨hslot, hend⟩ := htoggle hkind
        have hhalf := half_cases (height - 20)
        rw [i32_eq (by omega) (by omega), ok_bind, i32_eq (by omega) (by omega), ok_bind,
          i32_eq (by omega) (by omega), ok_bind, i32_eq (by omega) (by omega), ok_bind, i32_eq (by omega) (by omega),
          ok_bind, i32_eq (by omega) (by omega), ok_bind, i32_eq (by omega) (by omega), ok_bind]
        refine yields_ok (.append (hbutton _ _) <| .cons (hlabel _) <| .cons ?_ <| .cons ?_ .nil)
        · unfold Draw.Room RoundedRoom BorderRoom
          omega
        · unfold Draw.Room RoundedRoom BorderRoom
          omega
      · exact yields_ok (.append (hbutton _ _) <| .cons (hlabel _) .nil)

theorem contentRow_yields (h : w.Placed) (hrole : w.role.framed = true) (hr : w.rows[i]? = some r)
    (hvalue : (s.editSnapshot w.id i).1 ≠ [] → Near w.x w.y)
    (hfocus : s.focusedControl = some (w.id, i) → Near w.x w.y) :
    Yields (s.contentRow w focused w.clip (r, i)) Rooms := by
  obtain ⟨q, hq, hplace⟩ := paintRow_yields h hrole hr hvalue hfocus
  unfold contentRow
  rw [hq, ok_bind]
  cases q with
  | none => exact yields_ok .nil
  | some rect => exact rowDraws_yields (hplace rect rfl) (h.small.row hr).text

theorem noMatchesDraws_yields (h : w.Placed) (hquery : (s.searchQuery w.id).getD [] ≠ [] → Near w.x w.y) :
    Yields (s.noMatchesDraws w) Rooms := by
  unfold noMatchesDraws
  split
  · rename_i hsearch
    simp only [Bool.and_eq_true, Bool.not_eq_true', List.isEmpty_eq_false_iff] at hsearch
    obtain ⟨hx, hy⟩ := hquery hsearch.1.2
    split
    · exact yields_ok .nil
    · rename_i row hfind
      obtain ⟨hrx, hry, -, hheight, -⟩ := h.small.rows row (List.mem_of_find?_eq_some hfind)
      have hscroll := h.fits.scroll
      have hoffset : 0 ≤ (if w.role.framed then w.scrollY else 0) ∧ (if w.role.framed then w.scrollY else 0) ≤ 788 := by
        split <;> omega
      rw [i32_eq (by omega) (by omega), ok_bind, i32_eq (by omega) (by omega), ok_bind, i32_eq (by omega) (by omega),
        ok_bind, i32_eq (by omega) (by omega), ok_bind, i32_eq (by omega) (by omega), ok_bind,
        i32_eq (by omega) (by omega), ok_bind]
      exact yields_ok (.cons (textNear (by omega) (by omega) (by decide) (by decide)) .nil)
  · exact yields_ok .nil

/-! ## Drawing -/

/-- What the drawing of a surface yields: shapes with room, and a clip of an i32 size. -/
structure Drawing.Room (d : Drawing) : Prop where
  shapes : Rooms d.shapes
  clip : IsI32 (d.clip.right - d.clip.left) ∧ IsI32 (d.clip.bottom - d.clip.top)
  content : Rooms d.content

theorem windowDraws_yields (h : w.Placed)
    (hvalue : ∀ i r, w.rows[i]? = some r → (s.editSnapshot w.id i).1 ≠ [] → Near w.x w.y)
    (hfocus : ∀ i, s.focusedControl = some (w.id, i) → Near w.x w.y)
    (hquery : (s.searchQuery w.id).getD [] ≠ [] → Near w.x w.y) : Yields (s.windowDraws w focused) Drawing.Room := by
  have hnone : IsI32 (0 - 0) ∧ IsI32 (0 - 0) := by
    unfold IsI32
    decide
  have bare : ∀ {draws : Checked (List Draw)}, Yields draws Rooms →
      Yields (do return ⟨← draws, ⟨0, 0, 0, 0⟩, []⟩ : Checked Drawing) Drawing.Room := fun hdraws =>
    hdraws.bind fun ds hds => yields_ok ⟨hds, hnone, .nil⟩
  have framed : w.role.framed = true → Yields (do
      let clip ← w.contentClip
      return ⟨← chromeDraws w focused, clip, ← s.contentDraws w focused clip⟩ : Checked Drawing) Drawing.Room :=
        fun hrole => by
    have hclip : IsI32 (w.clip.right - w.clip.left) ∧ IsI32 (w.clip.bottom - w.clip.top) := by
      obtain ⟨-, -, hwidth, hheight⟩ := h.fits.frame
      unfold Window.clip IsI32
      dsimp only
      omega
    rw [contentClip_framed h hrole, ok_bind]
    refine (chromeDraws_yields h hrole).bind fun chrome hchrome => ?_
    have hcontent : Yields (s.contentDraws w focused w.clip) Rooms := by
      unfold contentDraws
      refine (scrollbarDraws_yields h hrole).bind fun bar hbar => ?_
      refine (yields_mapM (Q := Rooms) fun p hp => ?_).bind fun rows hrows => ?_
      · exact contentRow_yields h hrole (mem_zipIdx_rows hp) (hvalue _ _ (mem_zipIdx_rows hp)) (hfocus p.2)
      · refine (noMatchesDraws_yields h hquery).bind fun note hnote => yields_ok ?_
        exact (hbar.append (.flatten hrows)).append hnote
    exact hcontent.bind fun content hcontent => yields_ok ⟨hchrome, hclip, hcontent⟩
  unfold windowDraws
  generalize hrole : w.role = role at framed
  cases role with
  | P => exact bare (panelDraws_yields h hrole)
  | D => exact bare (dockDraws_yields h hrole)
  | N => exact bare (noticeDraws_yields h hrole)
  | W => exact framed rfl
  | L => exact framed rfl

theorem window_yields (h : w.Placed)
    (hvalue : ∀ i r, w.rows[i]? = some r → (s.editSnapshot w.id i).1 ≠ [] → Near w.x w.y)
    (hfocus : ∀ i, s.focusedControl = some (w.id, i) → Near w.x w.y)
    (hquery : (s.searchQuery w.id).getD [] ≠ [] → Near w.x w.y) {pixels : Pixels} (hpixels : pixels.size = screenSize) :
    Yields (s.window w focused pixels) (·.size = screenSize) := by
  unfold window
  refine (windowDraws_yields h hvalue hfocus hquery).bind fun d hd => ?_
  refine (fillRect_total.paint hpixels hd.shapes).bind fun p hp => ?_
  exact (fillRectClipped_total hd.clip).paint hp hd.content

end Compositor

end Pippin.Native
