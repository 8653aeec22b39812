import Pippin.Broker.Isolation
import Pippin.Lib.Numbers

/-! The surfaces of the shell that runs on the host, and the lines that show them. The compositor reads in a line
the surface that it was made of, with the first eight controls of its content. -/

namespace Pippin.Host
open Checked Str
open Pippin.Native (Row Role)
open Pippin.Native.Compositor (parseSurface parseRows parseRow splitN plainRow)
open Pippin.Client (WIDTH HEIGHT)

/-- A record whose lists of children may be null, which is the same as no children. -/
structure UiNode where
  kind : Str
  text : Option Str
  action : Option Str
  children : List UiNode

namespace UiNode

def Label (text : Str) : UiNode := ⟨"label".toList, some text, none, []⟩
def Button (text action : Str) : UiNode := ⟨"button".toList, some text, some action, []⟩
def Heading (text : Str) : UiNode := ⟨"heading".toList, some text, none, []⟩
def Separator : UiNode := ⟨"separator".toList, none, none, []⟩
def Toggle (text action : Str) : UiNode := ⟨"toggle".toList, some text, some action, []⟩
def Search (placeholder action : Str) : UiNode := ⟨"search".toList, some placeholder, some action, []⟩
def Card (children : List UiNode) : UiNode := ⟨"card".toList, none, none, children⟩
def Column (children : List UiNode) : UiNode := ⟨"column".toList, none, none, children⟩
def Row (children : List UiNode) : UiNode := ⟨"row".toList, none, none, children⟩

end UiNode

inductive SurfaceRole where
  | Wallpaper | Panel | Dock | Launcher | Notification | AppWindow
deriving DecidableEq, Repr

structure Surface where
  id : Str
  role : SurfaceRole
  title : Str
  x : Int
  y : Int
  width : Int
  height : Int
  content : Option UiNode
  background : Option Str

def shown (kind : Str) : Bool :=
  kind == "label".toList || kind == "heading".toList || kind == "button".toList || kind == "toggle".toList ||
    kind == "search".toList

mutual

def flatten : UiNode → List UiNode
  | ⟨kind, text, action, children⟩ =>
    (if shown kind then [⟨kind, text, action, children⟩] else []) ++ flattenAll children

def flattenAll : List UiNode → List UiNode
  | [] => []
  | child :: children => flatten child ++ flattenAll children

end

def nodeKind (kind : Str) : Char :=
  if kind = "heading".toList then 'h'
  else if kind = "search".toList then 's'
  else if kind = "toggle".toList then 't'
  else if kind = "button".toList then 'b'
  else 'l'

def nodePrefix (kind : Str) : Str := [nodeKind kind, ':']

def safe (text : Option Str) : Str :=
  (text.getD []).filter fun c => decide (' ' ≤ c) && decide (c ≤ '~') && !(c == '|' || c == ';' || c == '@')

namespace UiNode

def row (node : UiNode) : Str := nodePrefix node.kind ++ safe node.text ++ '@' :: safe node.action

end UiNode

def SurfaceRole.letter : SurfaceRole → Str
  | Wallpaper => "B".toList
  | Panel => "P".toList
  | Dock => "D".toList
  | Launcher => "L".toList
  | Notification => "N".toList
  | AppWindow => "W".toList

namespace Surface

def nodes (s : Surface) : List UiNode := (s.content.map flatten).getD []

def caption (s : Surface) : Str := safe (if s.role = .Wallpaper then s.background else some s.title)

def rows (s : Surface) : Str := [';'].intercalate (s.nodes.map UiNode.row)

def fields (s : Surface) : List Str :=
  [s.id, s.role.letter, decimalInt s.x, decimalInt s.y, decimalInt s.width, decimalInt s.height, s.caption, s.rows]

def payload (s : Surface) : Str := ['|'].intercalate s.fields

def line (s : Surface) : Str := 'S' :: '|' :: s.payload

end Surface

/-! ## The surfaces of the shell -/

namespace Application

def wallpaper : Surface :=
  ⟨"wallpaper".toList, .Wallpaper, "Wallpaper".toList, 0, 0, 1024, 768, none, some "#2f80ed".toList⟩

def panel (now : Str) : Surface :=
  ⟨"panel".toList, .Panel, "Panel".toList, 0, 0, 1024, 48, some (.Row [
    .Button "Search".toList "launcher.open".toList,
    .Label now,
    .Button "WiFi  Vol  100%".toList "settings.open".toList]), none⟩

def dock : Surface :=
  ⟨"dock".toList, .Dock, "Dock".toList, 328, 688, 368, 68, some (.Row [
    .Button "Apps".toList "launcher.open".toList,
    .Button "Files".toList "files.open".toList,
    .Button "Settings".toList "settings.open".toList]), none⟩

def launcher : Surface :=
  ⟨"launcher".toList, .Launcher, "Applications".toList, 262, 112, 500, 400, some (.Column [
    .Heading "Applications".toList,
    .Search "Search apps".toList "launcher.search".toList, .Separator,
    .Card [.Button "Files".toList "files.open".toList, .Label "Browse your files".toList],
    .Card [.Button "Settings".toList "settings.open".toList, .Label "Configure Pippin".toList],
    .Card [.Button "Terminal".toList "terminal.open".toList, .Label "Pippin command terminal".toList]]), none⟩

def settings : Surface :=
  ⟨"settings".toList, .AppWindow, "Settings".toList, 272, 116, 520, 430, some (.Column [
    .Heading "Settings".toList, .Separator,
    .Card [.Heading "Appearance".toList,
      .Button "Change wallpaper".toList "wallpaper.select.gradient".toList,
      .Toggle "Animations".toList "settings.animations.toggle".toList],
    .Card [.Heading "Desktop".toList,
      .Toggle "Show dock".toList "settings.dock.toggle".toList,
      .Toggle "Notifications".toList "settings.notifications.toggle".toList]]), none⟩

def files : Surface :=
  ⟨"files".toList, .AppWindow, "Files".toList, 100, 94, 620, 500, some (.Column [
    .Heading "Home".toList,
    .Search "Search files".toList "files.search".toList, .Separator,
    .Card [.Button "Documents".toList "files.documents.open".toList, .Label "Documents".toList],
    .Card [.Button "Downloads".toList "files.downloads.open".toList, .Label "Downloads".toList]]), none⟩

def terminal (command output : Str) : Surface :=
  ⟨"terminal".toList, .AppWindow, "Terminal".toList, 190, 130, 640, 420, some (.Column [
    .Heading "Pippin Terminal".toList,
    .Label output,
    .Search ("pippin> ".toList ++ command) "terminal.input".toList,
    .Button "Run".toList "terminal.run".toList]), none⟩

def notifications : Surface :=
  ⟨"notifications".toList, .Notification, "Notifications".toList, 710, 58, 300, 96,
    some (.Label "Welcome to Pippin".toList), none⟩

end Application

/-! ## Reading a line back -/

def UiNode.read (node : UiNode) : Native.Row :=
  plainRow (safe node.text) (safe node.action) (UInt8.ofNat (nodeKind node.kind).toNat)

def UiNode.Fits (node : UiNode) : Prop := (safe node.text).length ≤ 94 ∧ (safe node.action).length ≤ 64

instance (node : UiNode) : Decidable node.Fits := inferInstanceAs (Decidable (_ ∧ _))

variable {text : Option Str} {c : Char} {node : UiNode} {nodes : List UiNode} {s : Surface}
  {parts : List Str} {role : Role}

theorem mem_safe (h : c ∈ safe text) : ' ' ≤ c ∧ c ≤ '~' ∧ c ≠ '|' ∧ c ≠ ';' ∧ c ≠ '@' := by
  have hc := (List.mem_filter.mp h).2
  simp only [Bool.and_eq_true, decide_eq_true_eq, Bool.not_eq_true', Bool.or_eq_false_iff, beq_eq_false_iff_ne] at hc
  exact ⟨hc.1.1, hc.1.2, hc.2.1.1, hc.2.1.2, hc.2.2⟩

theorem ascii_safe (h : c ∈ safe text) : c.toNat < 128 :=
  Nat.lt_of_le_of_lt (UInt32.le_iff_toNat_le.mp (mem_safe h).2.1) (by decide)

theorem len_safe (text : Option Str) : (safe text).len = (safe text).length := len_of_ascii fun _ h => ascii_safe h

theorem mem_nodePrefix {kind : Str} (h : c ∈ nodePrefix kind) : c ∈ "hstbl:".toList := by
  unfold nodePrefix nodeKind at h
  simp only [List.mem_cons, List.not_mem_nil, or_false] at h
  rcases h with rfl | rfl
  · split_ifs <;> decide
  · decide

theorem plain_letters : ∀ c ∈ "hstbl:".toList, (' ' ≤ c ∧ c ≤ '~') ∧ c ≠ '|' ∧ c ≠ ';' :=
  forall_of_all (by decide)

theorem mem_row (h : c ∈ node.row) : (' ' ≤ c ∧ c ≤ '~') ∧ c ≠ '|' ∧ c ≠ ';' := by
  unfold UiNode.row at h
  simp only [List.mem_append, List.mem_cons] at h
  rcases h with (h | h) | rfl | h
  · exact plain_letters c (mem_nodePrefix h)
  · obtain ⟨h1, h2, h3, h4, -⟩ := mem_safe h
    exact ⟨⟨h1, h2⟩, h3, h4⟩
  · decide
  · obtain ⟨h1, h2, h3, h4, -⟩ := mem_safe h
    exact ⟨⟨h1, h2⟩, h3, h4⟩

theorem parseRow_row (node : UiNode) : parseRow node.row = if node.Fits then some node.read else none := by
  have hat : '@' ∉ nodePrefix node.kind ++ safe node.text := by
    rw [List.mem_append]
    rintro (h | h)
    · exact absurd (mem_nodePrefix h) (by decide)
    · exact (mem_safe h).2.2.2.2 rfl
  have hcolon : ':' ∉ [nodeKind node.kind] := by
    unfold nodeKind
    rw [List.mem_singleton]
    split_ifs <;> decide
  have hbyte : (Str.bytes [nodeKind node.kind]).head? = some (UInt8.ofNat (nodeKind node.kind).toNat) := by
    unfold nodeKind
    split_ifs <;> rfl
  have hascii : ∀ c ∈ nodePrefix node.kind ++ safe node.text, c.toNat < 128 := by
    intro c hc
    rcases List.mem_append.mp hc with hc | hc
    · exact Nat.lt_of_le_of_lt (UInt32.le_iff_toNat_le.mp (plain_letters c (mem_nodePrefix hc)).1.2) (by decide)
    · exact ascii_safe hc
  have hlen : (nodePrefix node.kind ++ safe node.text).len = (safe node.text).length + 2 := by
    rw [len_of_ascii hascii, List.length_append]
    exact Nat.add_comm _ _
  have hfits : ((nodePrefix node.kind ++ safe node.text).len > 96 ∨ (safe node.action).len > 64) ↔ ¬node.Fits := by
    rw [hlen, len_safe]
    unfold UiNode.Fits
    omega
  have hsplit : splitOnce ':' (nodePrefix node.kind ++ safe node.text) = some ([nodeKind node.kind], safe node.text) :=
    splitOnce_append hcolon _
  unfold parseRow UiNode.row
  rw [splitOnce_append hat]
  simp only [Option.getD_some, hfits, ite_not, hsplit, hbyte]
  rfl

theorem mapM_parseRow (nodes : List UiNode) : (nodes.map UiNode.row).mapM parseRow =
    if ∀ node ∈ nodes, node.Fits then some (nodes.map UiNode.read) else none := by
  induction nodes with
  | nil => rfl
  | cons node nodes ih =>
    rw [List.map_cons, List.mapM_cons, parseRow_row, ih]
    by_cases hnode : node.Fits
    · by_cases hrest : ∀ n ∈ nodes, n.Fits
      · rw [if_pos hnode, if_pos hrest, if_pos (List.forall_mem_cons.mpr ⟨hnode, hrest⟩)]
        rfl
      · rw [if_pos hnode, if_neg hrest, if_neg fun h => hrest (List.forall_mem_cons.mp h).2]
        rfl
    · rw [if_neg hnode, if_neg fun h => hnode (List.forall_mem_cons.mp h).1]
      rfl

theorem parseRows_join (nodes : List UiNode) : parseRows ([';'].intercalate (nodes.map UiNode.row)) =
    if ∀ node ∈ nodes.take 8, node.Fits then some ((nodes.take 8).map UiNode.read) else none := by
  have hkeep : ((nodes.take 8).map UiNode.row).filter (fun part => !part.isEmpty) = (nodes.take 8).map UiNode.row := by
    refine List.filter_eq_self.mpr fun part hpart => ?_
    obtain ⟨node, -, rfl⟩ := List.mem_map.mp hpart
    rfl
  cases nodes with
  | nil => rfl
  | cons node nodes =>
    have hsplit : ([';'].intercalate ((node :: nodes).map UiNode.row)).splitOn ';' =
      (node :: nodes).map UiNode.row := by
      refine List.splitOn_intercalate ';' (fun part hpart hmem => ?_) (List.cons_ne_nil _ _)
      obtain ⟨n, -, rfl⟩ := List.mem_map.mp hpart
      exact (mem_row hmem).2.2 rfl
    unfold parseRows
    rw [hsplit, ← List.map_take, hkeep, mapM_parseRow]

theorem splitN_join {n : Nat} (hn : parts.length = n + 1) (h : ∀ p ∈ parts.dropLast, c ∉ p) :
    splitN (n + 1) c ([c].intercalate parts) = parts := by
  induction n generalizing parts with
  | zero =>
    obtain ⟨p, rfl⟩ := List.length_eq_one_iff.mp hn
    simp [splitN]
  | succ n ih =>
    obtain ⟨p, parts, rfl⟩ := List.exists_cons_of_length_eq_add_one hn
    obtain ⟨q, parts, rfl⟩ := List.exists_cons_of_length_eq_add_one (Nat.succ.inj hn)
    rw [List.dropLast_cons_cons] at h
    have hrest := ih (Nat.succ.inj hn) fun r hr => h r (List.mem_cons_of_mem p hr)
    rw [List.intercalate_cons_cons, List.append_assoc, List.singleton_append, splitN,
      splitOnce_append (h p List.mem_cons_self)]
    exact congrArg (p :: ·) hrest

def SurfaceRole.read : SurfaceRole → Option Role
  | .Wallpaper => none
  | .Panel => some .P
  | .Dock => some .D
  | .Launcher => some .L
  | .Notification => some .N
  | .AppWindow => some .W

namespace Surface

/-- What the compositor can read: bounded texts, and a window that is not too small. -/
structure Fits (s : Surface) : Prop where
  id : s.id ≠ [] ∧ s.id.len ≤ 32
  title : s.caption.length ≤ 40
  rows : s.rows.length ≤ 320

structure Shows (s : Surface) : Prop extends Fits s where
  size : (40 ≤ s.width ∧ s.width ≤ WIDTH) ∧ 30 ≤ s.height ∧ s.height ≤ HEIGHT
  nodes : ∀ node ∈ s.nodes.take 8, node.Fits

/-- The numbers are numbers of 32 bits, and the id is not cut. -/
structure Plain (s : Surface) : Prop where
  id : '|' ∉ s.id
  x : I32 s.x
  y : I32 s.y
  width : I32 s.width
  height : I32 s.height

theorem splitN_payload (hs : s.Plain) : splitN 8 '|' s.payload = s.fields := by
  refine splitN_join rfl fun p hp => ?_
  have hbar : ∀ v, '|' ∉ decimalInt v := fun v h => by
    rcases mem_decimalInt h with h | h
    · cases h
    · cases h
  have hletter : '|' ∉ s.role.letter := by cases s.role <;> decide
  have hcaption : '|' ∉ s.caption := fun h => (mem_safe h).2.2.1 rfl
  have hp : p ∈ [s.id, s.role.letter, decimalInt s.x, decimalInt s.y, decimalInt s.width, decimalInt s.height,
    s.caption] := hp
  simp only [List.mem_cons, List.not_mem_nil, or_false] at hp
  rcases hp with rfl | rfl | rfl | rfl | rfl | rfl | rfl
  · exact hs.id
  · exact hletter
  · exact hbar s.x
  · exact hbar s.y
  · exact hbar s.width
  · exact hbar s.height
  · exact hcaption

theorem mem_rows (h : c ∈ s.rows) : ' ' ≤ c ∧ c ≤ '~' := by
  rcases mem_join h with rfl | ⟨row, hrow, hc⟩
  · decide
  · obtain ⟨node, -, rfl⟩ := List.mem_map.mp hrow
    exact (mem_row hc).1

theorem ascii_rows (h : c ∈ s.rows) : c.toNat < 128 :=
  Nat.lt_of_le_of_lt (UInt32.le_iff_toNat_le.mp (mem_rows h).2) (by decide)

theorem header_iff : (s.id.isEmpty ∨ s.id.len > 32 ∨ s.caption.len > 40 ∨ s.rows.len > 320) ↔ ¬s.Fits := by
  have hcaption : s.caption.len = s.caption.length := Host.len_safe _
  have hrows : s.rows.len = s.rows.length := len_of_ascii fun _ h => ascii_rows h
  rw [hcaption, hrows, List.isEmpty_iff]
  constructor
  · rintro h ⟨⟨hne, hid⟩, htitle, hlength⟩
    rcases h with h | h | h | h
    · exact hne h
    all_goals omega
  · intro h
    by_contra hnot
    simp only [not_or, not_lt] at hnot
    exact h ⟨⟨hnot.1, hnot.2.1⟩, hnot.2.2.1, hnot.2.2.2⟩

/-- The compositor reads the surface it was sent, cut to the first eight controls, if its texts fit. -/
theorem parseSurface_payload (hs : s.Plain) (hrole : s.role.read = some role) (t : Native.Compositor.Surface) :
    parseSurface s.payload = some t ↔ s.Shows ∧ t = .window s.id role s.x s.y s.width s.height s.caption
      ((s.nodes.take 8).map UiNode.read) := by
  have hletter : s.role.letter ≠ "B".toList := by
    intro h
    cases hr : s.role <;> rw [hr] at h hrole <;> cases h
    cases hrole
  have hread : ∀ f : Role → Option Native.Compositor.Surface,
      (s.role.letter.bytes.head? >>= fun b => Role.read b >>= f) = f role := by
    intro f
    cases hr : s.role <;> rw [hr] at hrole <;> cases hrole <;> rfl
  have hrows : parseRows s.rows = if ∀ node ∈ s.nodes.take 8, node.Fits then some ((s.nodes.take 8).map UiNode.read)
      else none := parseRows_join s.nodes
  have hsize : ((40 ≤ s.width ∧ s.width ≤ WIDTH) ∧ 30 ≤ s.height ∧ s.height ≤ HEIGHT) ↔
      ¬(s.width < 40 ∨ s.height < 30 ∨ s.width > WIDTH ∨ s.height > HEIGHT) := by omega
  unfold parseSurface
  rw [splitN_payload hs]
  unfold fields
  dsimp only
  by_cases hfits : s.Fits
  · rw [if_neg fun h => header_iff.mp h hfits, if_neg hletter, hread, parseI32_decimalInt hs.x,
      parseI32_decimalInt hs.y, parseI32_decimalInt hs.width, parseI32_decimalInt hs.height, hrows]
    simp only [Option.bind_eq_bind, Option.bind_some]
    by_cases hbig : s.width < 40 ∨ s.height < 30 ∨ s.width > WIDTH ∨ s.height > HEIGHT
    · rw [if_pos hbig]
      exact ⟨fun h => (by cases h), fun h => absurd hbig (hsize.mp h.1.size)⟩
    · rw [if_neg hbig]
      by_cases hnodes : ∀ node ∈ s.nodes.take 8, node.Fits
      · rw [if_pos hnodes]
        refine ⟨fun h => ⟨⟨hfits, hsize.mpr hbig, hnodes⟩, ?_⟩, ?_⟩
        · cases h
          rfl
        · rintro ⟨-, rfl⟩
          rfl
      · rw [if_neg hnodes]
        exact ⟨fun h => (by cases h), fun h => absurd h.1.nodes hnodes⟩
  · rw [if_pos (header_iff.mpr hfits)]
    exact ⟨fun h => (by cases h), fun h => absurd h.1.toFits hfits⟩

theorem parseSurface_wallpaper (hs : s.Plain) (hrole : s.role = .Wallpaper) (t : Native.Compositor.Surface) :
    parseSurface s.payload = some t ↔ s.Fits ∧ ∃ hex color, s.caption = '#' :: hex ∧ parseU32 16 hex = some color ∧
      t = .wallpaper (color &&& 0x00ffffff) := by
  have hletter : s.role.letter = "B".toList := by
    rw [hrole]
    rfl
  unfold parseSurface
  rw [splitN_payload hs]
  unfold fields
  dsimp only
  by_cases hfits : s.Fits
  · rw [if_neg fun h => header_iff.mp h hfits, if_pos hletter]
    split
    · rename_i hex hcaption
      rw [Option.map_eq_some_iff]
      constructor
      · rintro ⟨color, hcolor, rfl⟩
        exact ⟨hfits, hex, color, hcaption, hcolor, rfl⟩
      · rintro ⟨-, hex', color, hcaption', hcolor, rfl⟩
        cases hcaption.symm.trans hcaption'
        exact ⟨color, hcolor, rfl⟩
    · rename_i hnot
      refine ⟨fun h => (by cases h), ?_⟩
      rintro ⟨-, hex, color, hcaption, -, -⟩
      exact absurd hcaption (hnot hex)
  · rw [if_pos (header_iff.mpr hfits)]
    exact ⟨fun h => (by cases h), fun h => absurd h.1 hfits⟩

/-! ## Showing a surface -/

structure Asks (s : Surface) (role : Role) (w : Native.Window) : Prop where
  id : w.id = s.id
  role : w.role = role
  place : w.x = s.x ∧ w.y = s.y ∧ w.width = s.width ∧ w.height = s.height
  title : w.title = s.caption
  rows : w.rows = (s.nodes.take 8).map UiNode.read
  shown : w.minimized = false

theorem surfaceCommand_asks {c : Native.Compositor} (hshows : s.Shows) : Yields (c.surfaceCommand (.window s.id role
    s.x s.y s.width s.height s.caption ((s.nodes.take 8).map UiNode.read))) fun r =>
      (r.isSome ↔ c.windows.length < 16 ∨ ∃ w ∈ c.windows, w.id = s.id) ∧
      ∀ t, r = some t → ∃ w, t.windows.getLast? = some w ∧ s.Asks role w := by
  unfold Native.Compositor.surfaceCommand
  dsimp only
  cases hfind : c.windows.findIdx? fun w => w.id = s.id with
  | none =>
    have hnone : ∀ w ∈ c.windows, w.id ≠ s.id := by simpa using List.findIdx?_eq_none_iff.mp hfind
    dsimp only
    split_ifs with hfull
    · refine yields_ok ⟨?_, fun t h => by cases h⟩
      refine ⟨fun h => (by cases h), ?_⟩
      rintro (hroom | ⟨w, hw, hid⟩)
      · exact absurd hfull (Nat.not_le.mpr hroom)
      · exact absurd hid (hnone w hw)
    · refine yields_ok ⟨⟨fun _ => Or.inl (Nat.not_le.mp hfull), fun _ => rfl⟩, fun t h => ?_⟩
      cases h
      refine ⟨_, by rw [Native.Compositor.repairFocusScope_windows, List.getLast?_concat], ?_⟩
      exact ⟨rfl, rfl, ⟨rfl, rfl, rfl, rfl⟩, rfl, rfl, rfl⟩
  | some index =>
    obtain ⟨w, hw, hid⟩ := Keyed.findIdx?_spec hfind
    have hsize := hshows.size
    unfold HEIGHT at hsize
    dsimp only
    rw [remove_eq hw, ok_bind]
    dsimp only
    obtain ⟨asked, hasked⟩ : ∃ asked : Native.Window, asked = { w with
        role, x := s.x, y := s.y, width := s.width, height := s.height, title := s.caption
        rows := (s.nodes.take 8).map UiNode.read, minimized := false } := ⟨_, rfl⟩
    obtain ⟨v, hclamp, -⟩ := Broker.clampScroll_yields (w := asked) (by rw [hasked]; exact hsize.2)
    obtain ⟨scrollY, rfl, -⟩ := Native.Window.clampScroll_scroll (w := asked) asked.scrollY v hclamp
    rw [← hasked, hclamp, ok_bind, hasked]
    refine yields_ok ⟨⟨fun _ => Or.inr ⟨w, List.mem_of_getElem? hw, hid⟩, fun _ => rfl⟩, fun t h => ?_⟩
    cases h
    refine ⟨_, by rw [Native.Compositor.repairFocusScope_windows, List.getLast?_concat], ?_⟩
    exact ⟨hid, rfl, ⟨rfl, rfl, rfl, rfl⟩, rfl, rfl, rfl⟩

/-- A line that shows a surface is accepted when its texts fit and there is room, and then the window on top is the
one that was asked for; a line that is not changes nothing. -/
theorem surface_line_read_back (c : Native.Compositor) (hs : s.Plain) (hrole : s.role.read = some role) :
    Yields (c.command s.line) fun r =>
      (r.2 = true ↔ s.Shows ∧ (c.windows.length < 16 ∨ ∃ w ∈ c.windows, w.id = s.id)) ∧
      (r.2 = true → ∃ w, r.1.windows.getLast? = some w ∧ s.Asks role w) ∧ (r.2 = false → r.1 = c) := by
  show Yields (c.command ('S' :: '|' :: s.payload)) _
  rw [Native.Compositor.command_surfaceLine]
  cases hparse : parseSurface s.payload with
  | none =>
    refine yields_ok ⟨⟨fun h => (by cases h), fun h => ?_⟩, fun h => (by cases h), fun _ => rfl⟩
    have hsome := (parseSurface_payload hs hrole _).mpr ⟨h.1, rfl⟩
    cases hparse.symm.trans hsome
  | some t =>
    obtain ⟨hshows, rfl⟩ := (parseSurface_payload hs hrole t).mp hparse
    refine (surfaceCommand_asks hshows).bind fun r hr => ?_
    cases r with
    | none =>
      refine yields_ok ⟨⟨fun h => (by cases h), fun h => ?_⟩, fun h => (by cases h), fun _ => rfl⟩
      cases hr.1.mpr h.2
    | some t =>
      exact yields_ok ⟨⟨fun _ => ⟨hshows, hr.1.mp rfl⟩, fun _ => rfl⟩, fun _ => hr.2 t rfl, fun h => (by cases h)⟩

theorem plain_files : Application.files.Plain := ⟨by decide, by decide, by decide, by decide, by decide⟩

theorem surface_line_read_back_files : Yields ((Native.Compositor.new []).command Application.files.line) fun r =>
    (r.2 = true ↔ Application.files.Shows ∧ ((Native.Compositor.new []).windows.length < 16 ∨
      ∃ w ∈ (Native.Compositor.new []).windows, w.id = Application.files.id)) ∧
    (r.2 = true → ∃ w, r.1.windows.getLast? = some w ∧ Application.files.Asks .W w) ∧
    (r.2 = false → r.1 = Native.Compositor.new []) :=
  surface_line_read_back (.new []) plain_files rfl

end Surface

end Pippin.Host
