import Pippin.Native.Command
import Pippin.Ui.Containment

/-! Laid out controls become the items of a shell surface. The C validator wants every frame inside
the surface, so a surface is imported only while its content does not have to scroll. -/

namespace Pippin.Ui
open Checked
open Pippin.Native (ShellItem ShellSurface Compositor Role maxWindows flagFocusable flagDisabled)
open Pippin.Client (WIDTH HEIGHT)

variable {a : Axis} {node child tree : Node} {frame f g : Rect} {layout : NodeLayout} {spec : ControlSpec} {i j : Nat}
  {capacity : Nat} {out : TreeLayout} {surface : ShellSurface}

def shellItem (control : Control) : ShellItem :=
  ⟨control.text, control.action, control.kind, control.style.code, control.flags, control.frame.x, control.frame.y,
    control.frame.width, control.frame.height⟩

def contentRect (width height : Int) : Rect := ⟨0, 44, width, height - 44⟩

/-- The validator passes the surface, and every compositor that is given it starts with its window. -/
def Imported (surface : ShellSurface) : Prop :=
  surface.valid = true ∧ ∀ shell, surface ∈ shell.take maxWindows →
    ∃ w ∈ (Compositor.new shell).windows, surface.window? = some w

/-- Every leaf lies between the left and the right edge. -/
def FitsAcross (width : Int) (tree : Node) (frame : Rect) : Prop :=
  ∀ layout spec g, Reaches tree frame (.leaf layout spec) g → 0 ≤ g.x ∧ 0 ≤ g.width ∧ g.x + g.width ≤ width

def LegalFlags (flags : UInt8) : Prop := flags = 0 ∨ flags = CONTROL_FOCUSABLE ∨ flags = CONTROL_DISABLED

instance (flags : UInt8) : Decidable (LegalFlags flags) := inferInstanceAs (Decidable (_ ∨ _ ∨ _))

/-- Every leaf has legal flags and starts below the top edge, and one that is not empty ends above the
bottom edge. -/
def FitsDown (height : Int) (tree : Node) (frame : Rect) : Prop :=
  ∀ layout spec g, Reaches tree frame (.leaf layout spec) g →
    LegalFlags spec.flags ∧ 0 ≤ g.y ∧ 0 ≤ g.height ∧ (g.width = 0 ∨ g.height = 0 ∨ g.y + g.height ≤ height)

/-! ## The leaves of a tree -/

theorem leaves_subset_leavesFrom {axis : Axis} {gap : Int} {all rest : List Node} (hrest : all.drop i = rest)
    (hij : i ≤ j) (hchild : all[j]? = some child) {c : Control}
    (hc : c ∈ leaves child (cell axis gap frame all child j)) :
    c ∈ leavesFrom axis gap frame all i rest := by
  induction rest generalizing i with
  | nil =>
    have hlt : j < all.length := (List.getElem?_eq_some_iff.mp hchild).1
    have hle : all.length ≤ i := List.drop_eq_nil_iff.mp hrest
    omega
  | cons first rest ih =>
    obtain ⟨hfirst, hnext⟩ := drop_cons hrest
    unfold leavesFrom
    refine List.mem_append.mpr ?_
    rcases Nat.lt_or_eq_of_le hij with hlt | rfl
    · exact Or.inr (ih hnext hlt)
    · cases hfirst.symm.trans hchild
      exact Or.inl hc

theorem Reaches.placed_mem (hr : Reaches node f (.leaf layout spec) g) : spec.placed g ∈ leaves node f := by
  generalize hleaf : Node.leaf layout spec = leaf at hr
  induction hr with
  | refl node f =>
    subst hleaf
    unfold leaves
    exact List.mem_singleton_self _
  | step hc _ ih =>
    have hmem := ih hleaf
    cases hc with
    | proxy =>
      unfold leaves
      exact hmem
    | group hchild =>
      unfold leaves
      exact leaves_subset_leavesFrom rfl (Nat.zero_le _) hchild hmem

theorem forall_leaves {P : Control → Prop} : (∀ c ∈ leaves tree frame, P c) ↔
    ∀ layout spec g, Reaches tree frame (.leaf layout spec) g → P (spec.placed g) := by
  constructor
  · intro hall layout spec g hr
    exact hall _ hr.placed_mem
  · intro hall c hc
    obtain ⟨layout, spec, g, hr, rfl⟩ := mem_leaves tree frame c hc
    exact hall layout spec g hr

theorem FitsAcross.of_leaves {width : Int}
    (h : ∀ c ∈ leaves tree frame, 0 ≤ c.frame.x ∧ 0 ≤ c.frame.width ∧ c.frame.x + c.frame.width ≤ width) :
    FitsAcross width tree frame := forall_leaves.mp h

theorem FitsDown.of_leaves {height : Int} (h : ∀ c ∈ leaves tree frame, LegalFlags c.flags ∧ 0 ≤ c.frame.y ∧
    0 ≤ c.frame.height ∧ (c.frame.width = 0 ∨ c.frame.height = 0 ∨ c.frame.y + c.frame.height ≤ height)) :
    FitsDown height tree frame := forall_leaves.mp h

/-! ## The validator -/

theorem legalFlags_iff (flags : UInt8) :
    (flags &&& ~~~(flagFocusable ||| flagDisabled) == 0 && !(flags &&& flagDisabled != 0 && flags &&& flagFocusable != 0))
      = true ↔ LegalFlags flags := by
  obtain ⟨bits⟩ := flags
  unfold LegalFlags
  revert bits
  decide +kernel

theorem shellItem_valid {control : Control} : (shellItem control).valid surface = true ↔
    LegalFlags control.flags ∧ 0 ≤ control.frame.width ∧ 0 ≤ control.frame.height ∧ 0 ≤ control.frame.x ∧
    0 ≤ control.frame.y ∧ (control.frame.width = 0 ∨ control.frame.height = 0 ∨
      control.frame.x + control.frame.width ≤ surface.width ∧
      control.frame.y + control.frame.height ≤ surface.height) := by
  unfold ShellItem.valid shellItem
  rw [← legalFlags_iff, Bool.and_eq_true, Bool.and_eq_true]
  simp [and_assoc, or_assoc]

theorem Imported.iff_valid (hwidth : 40 ≤ surface.width ∧ surface.width ≤ WIDTH)
    (hheight : 30 ≤ surface.height ∧ surface.height ≤ HEIGHT) : Imported surface ↔ surface.valid = true := by
  refine ⟨And.left, fun hvalid => ⟨hvalid, fun shell hmem => ?_⟩⟩
  have hsize : ¬(!surface.valid ∨ surface.width < 40 ∨ surface.height < 30 ∨ surface.width > WIDTH ∨
      surface.height > HEIGHT) := by
    rw [hvalid]
    simp
    omega
  have hrole : (Role.read surface.role).isSome = true := by
    unfold ShellSurface.valid at hvalid
    exact (Bool.and_eq_true_iff.mp hvalid).2
  obtain ⟨role, hrole⟩ := Option.isSome_iff_exists.mp hrole
  have hwindow : ∃ w, surface.window? = some w := by
    unfold ShellSurface.window?
    rw [if_neg hsize, hrole]
    exact ⟨_, rfl⟩
  obtain ⟨w, hw⟩ := hwindow
  exact ⟨w, List.mem_filterMap.mpr ⟨surface, hmem, hw⟩, hw⟩

/-- A surface of laid out controls is imported exactly when no leaf is below its bottom edge. -/
theorem surface_imported_iff (hrole : surface.role = 87 ∨ surface.role = 76)
    (hwidth : 40 ≤ surface.width ∧ surface.width ≤ WIDTH) (hheight : 30 ≤ surface.height ∧ surface.height ≤ HEIGHT)
    (hout : layoutTree capacity tree (contentRect surface.width surface.height) = .ok out)
    (hvalid : out.overflow = false) (hitems : surface.items = out.items.map shellItem)
    (hacross : FitsAcross surface.width tree (contentRect surface.width surface.height)) :
    Imported surface ↔ FitsDown surface.height tree (contentRect surface.width surface.height) := by
  have hread : (Role.read surface.role).isSome = true := by
    rcases hrole with h | h <;> rw [h] <;> rfl
  have hpos : 0 < surface.width ∧ 0 < surface.height := by omega
  rw [Imported.iff_valid hwidth hheight]
  unfold ShellSurface.valid
  rw [hread, decide_eq_true hpos.1, decide_eq_true hpos.2, hitems, (layoutTree_eq _ _ out hout).2 hvalid]
  simp only [Bool.and_true, Bool.true_and, List.all_map, List.all_eq_true, Function.comp_apply]
  rw [forall_leaves]
  refine forall_congr' fun layout => forall_congr' fun spec => forall_congr' fun g => forall_congr' fun hr => ?_
  obtain ⟨hx, hw, hright⟩ := hacross layout spec g hr
  rw [shellItem_valid]
  unfold ControlSpec.placed
  refine and_congr Iff.rfl ?_
  dsimp only
  omega

/-! ## The built-in surfaces -/

def settingsSection (title : Str) (control : ControlSpec) : Node :=
  (group .VERTICAL [leaf (heading title 26), leaf control] 8).fixed 72

def kAppearanceSection : Node :=
  settingsSection "Appearance".toList (toggle "Animations".toList "settings.animations.toggle".toList)
def kDesktopSection : Node :=
  settingsSection "Desktop".toList (toggle "Show dock".toList "settings.dock.toggle".toList)
def kInputSection : Node := settingsSection "Input".toList (label "Keyboard + mouse".toList)
def kSystemSection : Node := settingsSection "System".toList (label "Native ELF apps".toList)
def kAboutSection : Node := settingsSection "About".toList (label "Pippin 0.1.0".toList)

def kSettingsColumn : Node :=
  group .VERTICAL [leaf (heading "Settings".toList 30), kAppearanceSection, kDesktopSection, kInputSection,
    kSystemSection, kAboutSection] 14

def kSettingsTree : Node := proxy kSettingsColumn ⟨20, 24, 20, 24⟩

def shellItems (layout : Checked TreeLayout) : List ShellItem :=
  match layout with
  | .ok out => out.items.map shellItem
  | .error _ => []

def kSettings : ShellSurface :=
  ⟨"settings".toList, 87, false, 272, 116, 520, 430, "Settings".toList,
    shellItems (layoutTree 11 kSettingsTree (contentRect 520 430))⟩

/-- The built-in settings are laid out past the bottom of their window, and have no window. -/
theorem settings_not_imported : ∃ out, layoutTree 11 kSettingsTree (contentRect 520 430) = .ok out ∧
    out.overflow = false ∧ kSettings.items = out.items.map shellItem ∧
    FitsAcross 520 kSettingsTree (contentRect 520 430) ∧
    kSettings.valid = false ∧ (Compositor.new [kSettings]).windows = [] ∧ ¬Imported kSettings := by
  have hvalid : kSettings.valid = false := by decide +kernel
  refine ⟨_, rfl, rfl, rfl, .of_leaves (by decide +kernel), hvalid, by decide +kernel, fun h => ?_⟩
  exact absurd (hvalid.symm.trans h.1) Bool.false_ne_true

def kTerminalTree : Node :=
  proxy (group .VERTICAL [leaf (heading "Pippin Terminal".toList 30), leaf (label "Native C++ shell online.".toList),
    leaf (textField "pippin> ".toList "terminal.input".toList)] 10) ⟨20, 24, 20, 24⟩

def kTerminal : ShellSurface :=
  ⟨"terminal".toList, 87, false, 192, 132, 640, 420, "Terminal".toList,
    shellItems (layoutTree 3 kTerminalTree (contentRect 640 420))⟩

theorem surface_imported_terminal : Imported kTerminal := by
  have hacross : FitsAcross kTerminal.width kTerminalTree (contentRect kTerminal.width kTerminal.height) :=
    .of_leaves (by decide +kernel)
  have hdown : FitsDown kTerminal.height kTerminalTree (contentRect kTerminal.width kTerminal.height) :=
    .of_leaves (by decide +kernel)
  exact (surface_imported_iff (Or.inl rfl) (by decide) (by decide)
    (rfl : layoutTree 3 kTerminalTree (contentRect 640 420) = .ok _) rfl rfl hacross).mpr hdown

end Pippin.Ui
