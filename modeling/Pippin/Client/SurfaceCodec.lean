import Pippin.Client.Protocol
import Pippin.Client.Steps

/-! Surface submission. The client cuts its pixels into chunks of run-length encoded parts;
the server writes each chunk from the offset it names. What the client sends is what the
window shows, whatever else the server does in between. -/

namespace Pippin.Client
open Checked Keyed Str

/-! ## The encoder -/

namespace WindowClient

/-- The inner loop: how many pixels, `count` of them seen already, are the same. -/
def runCount (pixel : UInt32) (count : Nat) : List UInt32 → Nat
  | [] => count
  | next :: rest => if next = pixel ∧ count < 65535 then runCount pixel (count + 1) rest else count

def part (count : Nat) (color : UInt32) : Str := decimal count ++ ',' :: hexUpper 6 color.toNat

def chunk (source : List UInt32) (parts : List Str) (chars offset : Nat) : List Str × Nat :=
  match source.drop offset with
  | [] => (parts, offset)
  | pixel :: rest =>
    if parts.length < 22 then
      let color := pixel &&& 0x00ffffff
      let count := runCount pixel 1 rest
      let part := part count color
      if parts.length > 0 ∧ chars + part.length + 1 > 320 then (parts, offset)
      else chunk source (parts ++ [part]) (chars + part.length + 1) (offset + count)
    else (parts, offset)
termination_by 22 - parts.length
decreasing_by
  simp only [List.length_append, List.length_singleton]
  omega

theorem runCount_spec (pixel : UInt32) (rest : List UInt32) (count : Nat) : ∃ k, runCount pixel count rest = count + k ∧
    rest.take k = List.replicate k pixel ∧ (count ≤ 65535 → count + k ≤ 65535) := by
  induction rest generalizing count with
  | nil => exact ⟨0, rfl, rfl, id⟩
  | cons next rest ih =>
    unfold runCount
    split_ifs with h
    · obtain ⟨k, hk, htake, hle⟩ := ih (count + 1)
      refine ⟨k + 1, by omega, ?_, fun _ => ?_⟩
      · rw [List.take_succ_cons, htake, h.1, List.replicate_succ]
      · have := hle h.2
        omega
    · exact ⟨0, rfl, rfl, id⟩

theorem run_pixels {source rest : List UInt32} {offset : Nat} {pixel : UInt32}
    (h : source.drop offset = pixel :: rest) : 0 < runCount pixel 1 rest ∧ runCount pixel 1 rest ≤ 65535 ∧
      (source.drop offset).take (runCount pixel 1 rest) = List.replicate (runCount pixel 1 rest) pixel := by
  obtain ⟨k, hk, htake, hle⟩ := runCount_spec pixel rest 1
  rw [hk]
  refine ⟨by omega, hle (by omega), ?_⟩
  rw [h, Nat.add_comm, List.take_succ_cons, htake, List.replicate_succ]

theorem chunk_lt {source : List UInt32} {offset : Nat} (h : offset < source.length) :
    offset < (chunk source [] 0 offset).2 := by
  have mono : ∀ parts chars offset, offset ≤ (chunk source parts chars offset).2 := by
    intro parts chars offset
    fun_induction chunk source parts chars offset with
    | case1 | case2 | case4 => exact Nat.le_refl _
    | case3 parts chars offset pixel rest h hparts color count part hfit ih =>
      exact Nat.le_trans (Nat.le_add_right _ _) ih
  obtain ⟨pixel, rest, hd⟩ : ∃ pixel rest, source.drop offset = pixel :: rest :=
    List.exists_cons_of_length_pos (by rw [List.length_drop]; omega)
  have hpos := (run_pixels hd).1
  rw [chunk, hd]
  show offset < (chunk source _ _ (offset + runCount pixel 1 rest)).2
  exact Nat.lt_of_lt_of_le (by omega) (mono _ _ _)

def chunkLine (id : UInt32) (start : Nat) (parts : List Str) : Str :=
  "WP|".toList ++ decimal id.toNat ++ '|' :: decimal start ++ '|' :: [';'].intercalate parts

def chunkLines (id : UInt32) (source : List UInt32) (offset : Nat) : List Str :=
  if offset < source.length then
    let next := chunk source [] 0 offset
    chunkLine id offset next.1 :: chunkLines id source next.2
  else []
termination_by source.length - offset
decreasing_by
  have := chunk_lt ‹offset < source.length›
  omega

def submitSurface (id : UInt32) (pixels : List UInt32) : List Str :=
  ("WB|".toList ++ decimal id.toNat) :: chunkLines id pixels 0 ++ ["WE|".toList ++ decimal id.toNat]

/-! ## What a chunk says -/

def masked (pixels : List UInt32) : List UInt32 := pixels.map (· &&& 0x00ffffff)

/-- The runs of a chunk: short enough to print, and the pixels of the array from `offset`. -/
structure Encodes (source : List UInt32) (offset : Nat) (runs : List (Nat × UInt32)) : Prop where
  count : ∀ r ∈ runs, 0 < r.1 ∧ r.1 ≤ 65535
  color : ∀ r ∈ runs, r.2.toNat < 16 ^ 6
  pixels : runPixels runs = masked ((source.drop offset).take (runPixels runs).length)

def parts (runs : List (Nat × UInt32)) : List Str := runs.map fun r => part r.1 r.2

theorem masked_lt (pixel : UInt32) : (pixel &&& 0x00ffffff).toNat < 16 ^ 6 := by
  rw [UInt32.toNat_and]
  exact Nat.lt_of_le_of_lt Nat.and_le_right (by decide)

theorem length_part {count : Nat} {color : UInt32} (hcount : count ≤ 65535) (hcolor : color.toNat < 16 ^ 6) :
    (part count color).length ≤ 12 := by
  have h1 : (decimal count).length ≤ 5 := length_decimal (by decide) (by omega)
  have h2 := length_hexUpper (by decide) hcolor
  unfold part
  rw [List.length_append, List.length_cons, h2]
  omega

theorem encodes_nil (source : List UInt32) (offset : Nat) : Encodes source offset [] := ⟨nofun, nofun, rfl⟩

theorem Encodes.cons {source : List UInt32} {offset count : Nat} {pixel : UInt32} {runs : List (Nat × UInt32)}
    (hpos : 0 < count) (hle : count ≤ 65535) (hrun : (source.drop offset).take count = List.replicate count pixel)
    (h : Encodes source (offset + count) runs) : Encodes source offset ((count, pixel &&& 0x00ffffff) :: runs) := by
  refine ⟨?_, ?_, ?_⟩
  · intro r hr
    rcases List.mem_cons.mp hr with rfl | hr
    · exact ⟨hpos, hle⟩
    · exact h.count r hr
  · intro r hr
    rcases List.mem_cons.mp hr with rfl | hr
    · exact masked_lt pixel
    · exact h.color r hr
  · have hmask : pixel &&& 0x00ffffff &&& 0x00ffffff = pixel &&& 0x00ffffff := by
      rw [UInt32.and_assoc, UInt32.and_self]
    have hpix : runPixels ((count, pixel &&& 0x00ffffff) :: runs) =
        List.replicate count (pixel &&& 0x00ffffff) ++ runPixels runs := by
      unfold runPixels
      rw [List.flatMap_cons]
      dsimp only
      rw [hmask]
    rw [hpix, List.length_append, List.length_replicate, List.take_add, hrun, List.drop_drop]
    unfold masked
    rw [List.map_append, List.map_replicate]
    exact congrArg _ h.pixels

theorem chunk_spec (source : List UInt32) (before : List Str) (chars offset : Nat) (hchars : chars ≤ 320)
    (hnone : before = [] → chars = 0) : ∃ runs, Encodes source offset runs ∧
      chunk source before chars offset = (before ++ parts runs, offset + (runPixels runs).length) ∧
      chars + ((parts runs).map fun p => p.length + 1).sum ≤ 320 := by
  fun_induction chunk source before chars offset with
  | case1 | case2 | case4 => exact ⟨[], encodes_nil _ _, by simp [parts, runPixels], hchars⟩
  | case3 before chars offset pixel rest hdrop hcount color count part hfit ih =>
    obtain ⟨hpos, hle, hrun⟩ := run_pixels hdrop
    have hpart : part.length ≤ 12 := length_part hle (masked_lt pixel)
    have hsum : chars + part.length + 1 ≤ 320 := by
      -- the first part always fits, the others are checked
      cases before with
      | nil =>
        have := hnone rfl
        omega
      | cons =>
        simp only [List.length_cons, gt_iff_lt, Nat.zero_lt_succ, true_and] at hfit
        omega
    obtain ⟨runs, henc, hchunk, hlen⟩ := ih hsum (by simp)
    refine ⟨_, henc.cons hpos hle hrun, ?_, ?_⟩
    · rw [hchunk, length_runPixels_cons, List.append_assoc, Nat.add_assoc]
      rfl
    · show chars + (part.length + 1 + ((parts runs).map fun p => p.length + 1).sum) ≤ 320
      omega

theorem chunk_runs {source : List UInt32} {offset : Nat} (h : offset < source.length) : ∃ runs,
    Encodes source offset runs ∧ runs ≠ [] ∧
      chunk source [] 0 offset = (parts runs, offset + (runPixels runs).length) ∧
      ((parts runs).map fun p => p.length + 1).sum ≤ 320 := by
  obtain ⟨runs, henc, hchunk, hlen⟩ := chunk_spec source [] 0 offset (by decide) fun _ => rfl
  refine ⟨runs, henc, ?_, hchunk, by omega⟩
  rintro rfl
  have hlt := chunk_lt h
  rw [hchunk] at hlt
  exact Nat.lt_irrefl _ hlt

/-! ## What a line says -/

variable {id : UInt32} {source pixels : List UInt32} {offset start : Nat} {runs : List (Nat × UInt32)}

theorem parseRun_part {count : Nat} (h : count ≤ 65535) (color : UInt32) :
    parseRun (part count color) = some (count, color) := by
  unfold parseRun part
  rw [splitOnce_append (not_mem_decimal (by decide))]
  show (parseUsize (decimal count) >>= fun n => parseU32 16 (hexUpper 6 color.toNat) >>= fun c => some (n, c)) = _
  rw [parseUsize_decimal (by omega), parseU32_hexUpper]
  rfl

theorem mapM_parts (h : ∀ r ∈ runs, r.1 ≤ 65535) : (parts runs).mapM parseRun = some runs := by
  induction runs with
  | nil => rfl
  | cons r runs ih =>
    have hr : parseRun (part r.1 r.2) = some r := parseRun_part (h r List.mem_cons_self) r.2
    have htail := ih fun q hq => h q (List.mem_cons_of_mem r hq)
    unfold parts at htail ⊢
    rw [List.map_cons, List.mapM_cons, hr, htail]
    rfl

theorem mem_part {count : Nat} {color : UInt32} {c : Char} (h : c ∈ part count color) : c = ',' ∨
    ∃ d, toDigit 16 c = some d := by
  rcases List.mem_append.mp h with h | h
  · have hd := (isDigit_of_magnitude (magnitude_decimal count)).2 c h
    simp only [Char.isDigit, Bool.and_eq_true, decide_eq_true_eq] at hd
    refine Or.inr ⟨c.toNat - 48, ?_⟩
    have h9 : c.toNat ≤ 57 := UInt32.le_iff_toNat_le.mp hd.2
    have hd' : '0' ≤ c ∧ c ≤ '9' := hd
    have h0 : '0'.toNat = 48 := rfl
    simp only [toDigit, if_pos hd', h0]
    rw [if_pos (by omega)]
  · rcases List.mem_cons.mp h with h | h
    · exact Or.inl h
    · exact Or.inr ((toDigit_of_magnitude (magnitude_hexUpper 6 color.toNat)).2 c h)

theorem not_mem_parts {c : Char} (hcomma : c ≠ ',') (hdigit : toDigit 16 c = none) : ∀ p ∈ parts runs, c ∉ p := by
  intro p hp hc
  obtain ⟨r, -, rfl⟩ := List.mem_map.mp hp
  rcases mem_part hc with h | ⟨d, hd⟩
  · exact hcomma h
  · cases hdigit.symm.trans hd

theorem chunkLine_reads (hid : id ≠ 0) (hstart : start < 2 ^ 64) (henc : Encodes source offset runs) (hne : runs ≠ []) :
    address (chunkLine id start (parts runs)) = some (some .WP, id, [decimal start, [';'].intercalate (parts runs)]) ∧
    parseUsize (decimal start) = some start ∧
    (([';'].intercalate (parts runs)).splitOn ';').mapM parseRun = some runs := by
  have hline : chunkLine id start (parts runs) =
      ['|'].intercalate ["WP".toList, decimal id.toNat, decimal start, [';'].intercalate (parts runs)] := by
    simp [chunkLine, List.intercalate_cons_cons]
  have hparts : parts runs ≠ [] := fun h => hne (List.map_eq_nil_iff.mp h)
  refine ⟨?_, parseUsize_decimal hstart, ?_⟩
  · rw [hline]
    refine address_join hid (by decide) fun f hf => ?_
    rcases List.mem_cons.mp hf with rfl | hf
    · exact not_mem_decimal (by decide)
    · obtain rfl := List.mem_singleton.mp hf
      intro hbar
      rcases mem_join hbar with h | ⟨p, hp, h⟩
      · cases h
      · exact not_mem_parts (by decide) (by decide) p hp h
  · rw [List.splitOn_intercalate ';' (not_mem_parts (by decide) (by decide)) hparts]
    exact mapM_parts fun r hr => (henc.count r hr).2

end WindowClient

/-! ## Delivery -/

namespace WindowServer
open WindowClient

variable {s t u : WindowServer} {w : Window} {id : UInt32} {x y : Int} {line : Str} {events : List Event}
  {pixels : List UInt32}

/-- What the server may do while the client of `id` submits its surface: commands for other
windows, and pointer packets that do not resize this one. -/
inductive Aside (id : UInt32) (s : WindowServer) : WindowServer → Prop where
  | refl : Aside id s s
  | command {t u : WindowServer} {events : List Event} (line : Str) (hs : Aside id s t)
      (hl : ∀ op i args, address line = some (op, i, args) → i ≠ id) (h : t.command line = .ok (u, events)) :
      Aside id s u
  | pointer {t u : WindowServer} {owned : Bool} {events : List Event} {x y : Int} (left wasLeft : Bool)
      (hx : 0 ≤ x ∧ x ≤ 1023) (hy : 0 ≤ y ∧ y ≤ 767) (hs : Aside id s t)
      (h : t.pointer x y left wasLeft = .ok (owned, u, events))
      (hsize : ∀ w ∈ t.windows, ∀ v ∈ u.windows, w.id = id → v.id = id → v.width = w.width ∧ v.height = w.height) :
      Aside id s u

/-- The lines arrive in order, with asides in between: each one is accepted and executed,
and `post` holds after the last. -/
def Delivers (id : UInt32) (post : WindowServer → Prop) : List Str → WindowServer → Prop
  | [], s => ∀ t, Aside id s t → post t
  | line :: lines, s => ∀ t, Aside id s t → t.validate line = true ∧
      ∃ u events, t.command line = .ok (u, events) ∧ Delivers id post lines u

/-- The window `id`, its update flag and its pixels satisfying `P`. -/
def Holds (id : UInt32) (P : Bool → List UInt32 → Prop) (s : WindowServer) : Prop :=
  ∃ w ∈ s.windows, w.id = id ∧ P w.updating w.surface

theorem follow_content (g : Grab) (x y : Int) (w : Window) : (g.follow x y w).updating = w.updating ∧
    ((g.follow x y w).width = w.width ∧ (g.follow x y w).height = w.height → (g.follow x y w).surface = w.surface) := by
  cases g with
  | Move => exact ⟨rfl, fun _ => rfl⟩
  | Resize id sx sy sw sh =>
    show (w.resized _ _).updating = _ ∧ ((w.resized _ _).width = _ ∧ (w.resized _ _).height = _ →
      (w.resized _ _).surface = _)
    unfold Window.resized
    split_ifs with hsame
    · exact ⟨rfl, fun _ => rfl⟩
    · exact ⟨rfl, fun h => absurd ⟨h.1.symm, h.2.symm⟩ hsame⟩

theorem pointer_content (hs : s.Inv) (hx : 0 ≤ x ∧ x ≤ 1023) (hy : 0 ≤ y ∧ y ≤ 767) (left wasLeft : Bool) :
    Yields (pointer s x y left wasLeft) fun r => ∀ w ∈ s.windows, ∃ v ∈ r.2.1.windows, v.id = w.id ∧
      v.updating = w.updating ∧ (v.width = w.width ∧ v.height = w.height → v.surface = w.surface) := by
  by_cases hgrab : left = true ∧ ∃ g, s.grab = some g
  · obtain ⟨rfl, g, hg⟩ := hgrab
    obtain ⟨events, hd, -⟩ := drag_follows hs hx hy hg
    have hp : pointer s x y true wasLeft = .ok (true, s.altered g.id (g.follow x y), events) := by
      unfold pointer
      rw [hg]
      dsimp only
      rw [hd]
      rfl
    rw [hp]
    refine yields_ok fun w hw => ⟨_, List.mem_map_of_mem hw, ?_⟩
    split_ifs
    · exact ⟨(quiet_follow g x y).id w, follow_content g x y w⟩
    · exact ⟨rfl, rfl, fun _ => rfl⟩
  · refine (pointer_effect hs hx hy left wasLeft).mono fun r hr w hw => ?_
    obtain ⟨owned, t, events⟩ := r
    -- without a drag the windows are at most reordered
    have hin : w ∈ t.windows := by
      cases hr with
      | drag hg => exact absurd ⟨rfl, _, hg⟩ hgrab
      | press => exact raise_perm.mem_iff.mpr hw
      | outside | release | hover => exact hw
    exact ⟨w, hin, rfl, rfl, fun _ => rfl⟩

theorem command_content (he : CommandEffect s line t events)
    (hl : ∀ op i args, address line = some (op, i, args) → i ≠ w.id) (hw : w ∈ s.windows) : w ∈ t.windows := by
  have altered : ∀ {op args v} {f : Window → Window}, address line = some (op, v, args) →
      w ∈ alter Window.id v f s.windows := fun h => List.mem_map.mpr ⟨w, hw, if_neg fun he => hl _ _ _ h he.symm⟩
  cases he with
  | keep => exact hw
  | create => exact List.mem_append_left _ hw
  | destroy haddr => exact mem_without.mpr ⟨hw, fun he => hl _ _ _ haddr he.symm⟩
  | unhide haddr => exact raise_perm.mem_iff.mpr (altered haddr)
  | hide haddr => exact altered haddr
  | change haddr => exact altered haddr

theorem Aside.keeps (h : Aside id s t) (hr : Reachable s) {P : Bool → List UInt32 → Prop} (hP : Holds id P s) :
    Reachable t ∧ Holds id P t := by
  induction h with
  | refl => exact ⟨hr, hP⟩
  | command line _ hl h ih =>
    obtain ⟨hrt, w, hw, rfl, hPw⟩ := ih
    exact ⟨.command line hrt h, w, command_content ((command_effect hrt.inv line).of_eq h) hl hw, rfl, hPw⟩
  | pointer left wasLeft hx hy _ h hsize ih =>
    obtain ⟨hrt, w, hw, hid, hPw⟩ := ih
    refine ⟨.pointer left wasLeft hx hy hrt h, ?_⟩
    obtain ⟨v, hv, hvid, hup, hsurf⟩ := (pointer_content hrt.inv hx hy left wasLeft).of_eq h w hw
    have hvid' := hvid.trans hid
    refine ⟨v, hv, hvid', ?_⟩
    rwa [hup, hsurf (hsize w hw v hv hid hvid')]

theorem Holds.altered {P : Bool → List UInt32 → Prop} {f : Window → Window} (hw : w ∈ s.windows)
    (ht : t.windows = alter Window.id w.id f s.windows) (hid : (f w).id = w.id) (hP : P (f w).updating (f w).surface) :
    Holds w.id P t := by
  refine ⟨f w, ?_, hid, hP⟩
  rw [ht]
  exact List.mem_map.mpr ⟨w, hw, if_pos rfl⟩

def Written (pixels : List UInt32) (offset : Nat) (updating : Bool) (surface : List UInt32) : Prop :=
  updating = true ∧ surface.length = pixels.length ∧ surface.take offset = masked (pixels.take offset)

theorem Written.splice {offset : Nat} {updating : Bool} {surface : List UInt32} {runs : List (Nat × UInt32)}
    (h : Written pixels offset updating surface) (hlt : offset < pixels.length) (henc : Encodes pixels offset runs) :
    offset + (runPixels runs).length ≤ surface.length ∧
      Written pixels (offset + (runPixels runs).length) updating (splice surface offset (runPixels runs)) := by
  obtain ⟨hup, hlen, htake⟩ := h
  have hpix := henc.pixels
  have hfit : (runPixels runs).length ≤ pixels.length - offset := by
    have hl := congrArg List.length hpix
    unfold masked at hl
    rw [List.length_map, List.length_take, List.length_drop] at hl
    omega
  have hhead : (surface.take offset ++ runPixels runs).length = offset + (runPixels runs).length := by
    rw [List.length_append, List.length_take]
    omega
  refine ⟨by omega, hup, ?_, ?_⟩
  · unfold Client.splice
    rw [List.length_append, hhead, List.length_drop]
    omega
  · unfold Client.splice
    rw [List.take_left' hhead, htake, List.take_add]
    unfold masked at hpix ⊢
    rw [List.map_append, ← hpix]

section Submit

variable (hid : id ≠ 0)

include hid

theorem delivers_chunks (hr : Reachable s) (offset : Nat) (hsmall : pixels.length < 2 ^ 64)
    (hs : Holds id (Written pixels offset) s) :
    Delivers id (Holds id fun updating surface => surface = masked pixels ∧ updating = false)
      (chunkLines id pixels offset ++ ["WE|".toList ++ decimal id.toNat]) s := by
  fun_induction chunkLines id pixels offset generalizing s with
  | case1 offset hlt next =>
    rename_i ih
    intro t ht
    obtain ⟨hrt, w, hw, rfl, hwritten⟩ := ht.keeps hr hs
    obtain ⟨runs, henc, hne, hchunk, -⟩ := chunk_runs hlt
    have hnext : next = (parts runs, offset + (runPixels runs).length) := hchunk
    have hstart' : offset < 2 ^ 64 := by omega
    obtain ⟨haddr, hstart, hruns⟩ := chunkLine_reads hid hstart' henc hne
    obtain ⟨hfit, hwritten'⟩ := hwritten.splice hlt henc
    have hpos : ∀ r ∈ runs, 0 < r.1 := fun r hr => (henc.count r hr).1
    rw [hnext] at ih ⊢
    refine ⟨validate_write hrt.inv hw haddr hstart hruns hwritten.1 hpos hfit, ?_⟩
    obtain ⟨u, events, hc, hu⟩ :=
      command_applies hrt.inv (.write haddr hstart hruns) ⟨w, hw, rfl, hwritten.1, hpos, hfit⟩
    exact ⟨u, events, hc, ih (.command _ hrt hc) (.altered hw hu rfl hwritten')⟩
  | case2 offset hge =>
    intro t ht
    obtain ⟨hrt, w, hw, rfl, hup, hlen, htake⟩ := ht.keeps hr hs
    have haddr := address_bare hid (by decide : '|' ∉ "WE".toList)
    refine ⟨validate_update (Or.inr rfl) hw haddr, ?_⟩
    obtain ⟨u, events, hc, hu⟩ := command_applies hrt.inv (.endUpdate haddr) (mem_ids.mpr ⟨w, hw, rfl⟩)
    refine ⟨u, events, hc, fun v hv => (hv.keeps (.command _ hrt hc) (.altered hw hu rfl ⟨?_, rfl⟩)).2⟩
    rwa [List.take_of_length_le (by omega), List.take_of_length_le (by omega)] at htake

theorem delivers_submit (hr : Reachable s) (hsmall : pixels.length < 2 ^ 64)
    (hs : Holds id (fun _ surface => surface.length = pixels.length) s) :
    Delivers id (Holds id fun updating surface => surface = masked pixels ∧ updating = false)
      (submitSurface id pixels) s := by
  intro t ht
  obtain ⟨hrt, w, hw, rfl, hlen⟩ := ht.keeps hr hs
  have haddr := address_bare hid (by decide : '|' ∉ "WB".toList)
  refine ⟨validate_update (Or.inl rfl) hw haddr, ?_⟩
  obtain ⟨u, events, hc, hu⟩ := command_applies hrt.inv (.beginUpdate haddr) (mem_ids.mpr ⟨w, hw, rfl⟩)
  exact ⟨u, events, hc, delivers_chunks hid (.command _ hrt hc) 0 hsmall (.altered hw hu rfl ⟨rfl, hlen, rfl⟩)⟩

end Submit

/-! ## How many lines, and how long -/

theorem length_chunkLines (id : UInt32) (pixels : List UInt32) (offset : Nat) :
    (chunkLines id pixels offset).length ≤ pixels.length - offset := by
  fun_induction chunkLines id pixels offset with
  | case1 offset hlt next ih =>
    have hnext : offset < next.2 := chunk_lt hlt
    rw [List.length_cons]
    omega
  | case2 => exact Nat.zero_le _

theorem length_decimal_id (id : UInt32) : (decimal id.toNat).length ≤ 10 :=
  length_decimal (by decide) (Nat.lt_of_lt_of_le id.toNat_lt (by decide))

theorem units_updateLine {op : Str} (hop : ∀ c ∈ op, c.toNat < 128) :
    units (op ++ decimal id.toNat) ≤ op.length + 10 := by
  have hid := length_decimal_id id
  rw [units_of_ascii, List.length_append]
  · omega
  · intro c hc
    rcases List.mem_append.mp hc with hc | hc
    · exact hop c hc
    · exact ascii_decimal hc

theorem units_chunkLine {start : Nat} {runs : List (Nat × UInt32)} (hstart : start < 10 ^ 6) (hne : runs ≠ [])
    (hlen : ((parts runs).map fun p => p.length + 1).sum ≤ 320) : units (chunkLine id start (parts runs)) ≤ 380 := by
  have hparts : parts runs ≠ [] := fun h => hne (List.map_eq_nil_iff.mp h)
  have hjoin := length_join ';' hparts
  have hid := length_decimal_id id
  have hdec : (decimal start).length ≤ 6 := length_decimal (by decide) hstart
  have hwp : "WP|".toList.length = 3 := rfl
  unfold chunkLine
  rw [units_of_ascii]
  · simp only [List.length_append, List.length_cons]
    omega
  · intro c hc
    simp only [List.mem_append, List.mem_cons] at hc
    rcases hc with ((hc | hc) | rfl | hc) | rfl | hc
    · have : ∀ c ∈ "WP|".toList, c.toNat < 128 := ascii_of_all (by decide)
      exact this c hc
    · exact ascii_decimal hc
    · decide
    · exact ascii_decimal hc
    · decide
    · rcases mem_join hc with rfl | ⟨p, hp, hc⟩
      · decide
      · obtain ⟨r, -, rfl⟩ := List.mem_map.mp hp
        rcases mem_part hc with rfl | ⟨d, hd⟩
        · decide
        · exact ascii_of_toDigit hd

theorem units_chunkLines (hsize : pixels.length ≤ 10 ^ 6) (offset : Nat) :
    ∀ line ∈ chunkLines id pixels offset, units line ≤ 380 := by
  fun_induction chunkLines id pixels offset with
  | case1 offset hlt next ih =>
    intro line hl
    rcases List.mem_cons.mp hl with rfl | hl
    · obtain ⟨runs, -, hne, hchunk, hlen⟩ := chunk_runs hlt
      have hnext : next = (parts runs, offset + (runPixels runs).length) := hchunk
      rw [hnext]
      exact units_chunkLine (by omega) hne hlen
    · exact ih line hl
  | case2 => exact fun _ h => (nomatch h)

/-- Surface codec: the lines of a submission are finitely many, none is too long to send, and
delivered in order they are all accepted and leave the window with exactly these pixels. -/
theorem surface_round_trip (hr : Reachable s) (hw : w ∈ s.windows)
    (hp : (pixels.length : Int) = w.width * w.height) :
    (submitSurface w.id pixels).length ≤ pixels.length + 2 ∧
    (∀ line ∈ submitSurface w.id pixels, units line ≤ 380) ∧
    Delivers w.id (fun t => ∃ v ∈ t.windows, v.id = w.id ∧ v.surface = pixels.map (· &&& 0x00ffffff) ∧
      v.updating = false) (submitSurface w.id pixels) s := by
  have hok := hr.inv.windows w hw
  have hwidth := hok.width
  have hheight := hok.height
  have harea : w.width * w.height ≤ 600 * 440 := Int.mul_le_mul hwidth.2 hheight.2 (by omega) (by omega)
  have hlen : w.surface.length = pixels.length := by
    have := hok.length
    omega
  refine ⟨?_, ?_, delivers_submit hok.id_ne hr (by omega) ⟨w, hw, rfl, hlen⟩⟩
  · have := length_chunkLines w.id pixels 0
    simp only [submitSurface, List.length_append, List.length_cons, List.length_nil]
    omega
  · intro line hl
    have hop : ∀ c ∈ "WB|".toList ++ "WE|".toList, c.toNat < 128 := ascii_of_all (by decide)
    simp only [submitSurface, List.cons_append, List.mem_cons, List.mem_append, List.not_mem_nil, or_false] at hl
    rcases hl with rfl | hl | rfl
    · exact Nat.le_trans (units_updateLine fun c hc => hop c (List.mem_append_left _ hc)) (by decide)
    · exact units_chunkLines (by omega) 0 line hl
    · exact Nat.le_trans (units_updateLine fun c hc => hop c (List.mem_append_right _ hc)) (by decide)

theorem surface_round_trip_single : ∃ v : Window, single.windows = [v] ∧
    (∀ line ∈ submitSurface 1 (List.replicate 4000 0xff123456), units line ≤ 380) ∧
    Delivers 1 (fun t => ∃ v ∈ t.windows, v.id = 1 ∧
      v.surface = (List.replicate 4000 0xff123456).map (· &&& 0x00ffffff) ∧ v.updating = false)
      (submitSurface 1 (List.replicate 4000 0xff123456)) single :=
  ⟨_, rfl, (surface_round_trip (w := created 1 "a".toList 0 0 80 50) reachable_single List.mem_cons_self
    (by rw [List.length_replicate]; rfl)).2⟩

end WindowServer

end Pippin.Client
