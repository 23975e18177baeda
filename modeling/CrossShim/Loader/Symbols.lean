import CrossShim.Hle.Stubs
import CrossShim.Loader.Relocation

/-!
# Symbol lookup

The two lookups of `emulator.cpp` over the HLE functions, the global data symbols and the tables of the loaded
modules.  `resolve_import` binds the imports of a module that is loaded; `dl_sym` answers the guest.

They ask the tables in different orders, and only one of them knows of version suffixes:
`dlSym_resolveImport_iff` says for which tables they agree on a name.
-/

namespace CrossShim.Loader

open Lib Hle Option

structure SymbolState where
  hle : HleManager
  globalSymbols : Table
  modules : List LoadedModule

namespace SymbolState

variable (s : SymbolState)

def firstExport (name : String) : Option Word := s.modules.findSome? fun mod => mod.exports name

/-- The first module with a local symbol of the name. -/
def firstLocal (name : String) : Option Word := s.modules.findSome? fun mod => mod.localSymbols name

/-- `get_symbol_nolock` of a name. -/
def getSymbolNolock (name : String) : Word :=
  match s.firstExport name with
  | some addr => addr
  | none =>
    match s.globalSymbols name with
    | some addr => addr
    | none => (s.firstLocal name).getD 0

/-- What `resolve_import` finds past the HLE functions, under a name and that without the version. -/
def resolveData (symName baseName : String) : Word :=
  let versioned (t : Table) := (t symName).or (if baseName ≠ symName then t baseName else none)
  match versioned s.globalSymbols with
  | some addr => addr
  | none => (s.modules.findSome? fun mod => versioned mod.exports).getD 0

/-- `resolve_import`.  A function without a stub gets one. -/
def resolveImport (symName : String) : Word × HleManager :=
  let baseName := stripVersionSuffix symName
  let (addr, hle) := s.hle.getStubAddress symName
  if addr ≠ 0 then (addr, hle)
  else
    let (addr, hle) := if baseName ≠ symName then hle.getStubAddress baseName else (0, hle)
    if addr ≠ 0 then (addr, hle) else (s.resolveData symName baseName, hle)

def findModuleByBase (base : Word) : Option LoadedModule := s.modules.find? fun mod => mod.baseAddress = base

/-- `dl_sym`, with the error it leaves. -/
def dlSym (handle : Word) (name : String) : Word × HleManager × Option String :=
  let undefined := "dlsym: undefined symbol \"" ++ name ++ "\""
  if handle = 0 ∨ handle = BitVec.allOnes 64 then
    if s.getSymbolNolock name ≠ 0 then (s.getSymbolNolock name, s.hle, none)
    else
      let (addr, hle) := s.hle.getStubAddress name
      (addr, hle, if addr = 0 then some undefined else none)
  else
    match s.findModuleByBase handle with
    | none => (0, s.hle, some "dlsym: invalid handle")
    | some mod =>
      match mod.exports name with
      | some addr => (addr, s.hle, none)
      | none => (0, s.hle, some undefined)

/-! ### Agreement -/

def stub (name : String) : Word := (s.hle.getStubAddress name).1

/-- The address of the HLE function of the name without its version. -/
def baseStub (name : String) : Word :=
  if stripVersionSuffix name ≠ name then
    ((s.hle.getStubAddress name).2.getStubAddress (stripVersionSuffix name)).1
  else 0

def visible (name : String) : Option Word :=
  (s.firstExport name).or ((s.globalSymbols name).or (s.firstLocal name))

/-- What the first module with an export under either name has, if only under the second. -/
def exportUnderBase (name baseName : String) : Option Word :=
  (s.modules.find? fun mod => (mod.exports name).isSome ∨ (mod.exports baseName).isSome).bind fun mod =>
    if (mod.exports name).isSome then none else mod.exports baseName

/-- What is found for a name because of its name without the version. -/
def underBase (name : String) : Option Word :=
  if s.baseStub name ≠ 0 then some (s.baseStub name)
  else if (s.globalSymbols name).isSome ∨ stripVersionSuffix name = name then none
  else (s.globalSymbols (stripVersionSuffix name)).or (s.exportUnderBase name (stripVersionSuffix name))

/-- Tables on which the lookups agree: an HLE function is not also found elsewhere, a global data symbol is not
exported, and what is found without the version is there with it; or the addresses are the same. -/
structure Agrees (name : String) : Prop where
  hle : s.stub name ≠ 0 → ∀ addr, s.visible name = some addr → addr ≠ 0 → addr = s.stub name
  global : s.stub name = 0 → s.baseStub name = 0 → ∀ addr, s.globalSymbols name = some addr → addr ≠ 0 →
    ∀ exported, s.firstExport name = some exported → exported = addr
  version : s.stub name = 0 → ∀ addr, s.underBase name = some addr → addr ≠ 0 → s.visible name = some addr

variable {s} {name : String}

lemma getSymbolNolock_eq : s.getSymbolNolock name = (s.visible name).getD 0 := by
  unfold getSymbolNolock visible
  cases s.firstExport name with
  | some addr => rfl
  | none => cases s.globalSymbols name <;> rfl

lemma dlSym_default :
    (s.dlSym 0 name).1 = if (s.visible name).getD 0 ≠ 0 then (s.visible name).getD 0 else s.stub name := by
  simp only [dlSym, getSymbolNolock_eq, true_or, if_true]
  split_ifs <;> rfl

lemma resolveImport_of_stub (h : s.stub name ≠ 0) : (s.resolveImport name).1 = s.stub name := by
  unfold stub at h
  simp only [resolveImport, stub, if_pos h]

lemma resolveImport_of_not_stub (h : s.stub name = 0) : (s.resolveImport name).1 =
    if s.baseStub name ≠ 0 then s.baseStub name else s.resolveData name (stripVersionSuffix name) := by
  unfold stub at h
  simp only [resolveImport, baseStub, h, ne_eq, not_true_eq_false, if_false]
  by_cases hb : stripVersionSuffix name = name
  · simp [hb]
  · simp only [hb, not_false_eq_true, if_true]
    split_ifs <;> rfl

lemma resolveData_of_global {baseName : String} {addr : Word} (h : s.globalSymbols name = some addr) :
    s.resolveData name baseName = addr := by
  simp [resolveData, h]

lemma resolveData_unversioned (h : s.globalSymbols name = none) :
    s.resolveData name name = (s.firstExport name).getD 0 := by
  simp [resolveData, h, firstExport]

/-- The loop over the modules finds something under the second name only, or the export of the first. -/
lemma findSome_export (modules : List LoadedModule) (name baseName : String) :
    let loop := modules.findSome? fun mod => (mod.exports name).or (mod.exports baseName)
    let under := (modules.find? fun mod => (mod.exports name).isSome ∨ (mod.exports baseName).isSome).bind fun mod =>
      if (mod.exports name).isSome then none else mod.exports baseName
    loop = under ∨ under = none ∧ loop = modules.findSome? fun mod => mod.exports name := by
  induction modules with
  | nil => exact .inl rfl
  | cons mod rest ih =>
    cases hn : mod.exports name with
    | some addr =>
      right
      simp [hn]
    | none =>
      cases hb : mod.exports baseName with
      | some addr =>
        left
        simp [hn, hb]
      | none => simpa [List.findSome?_cons, hn, hb] using ih

lemma resolveData_versioned (hb : stripVersionSuffix name ≠ name) (h : s.globalSymbols name = none) :
    s.resolveData name (stripVersionSuffix name) =
      ((s.globalSymbols (stripVersionSuffix name)).or (s.modules.findSome? fun mod =>
        (mod.exports name).or (mod.exports (stripVersionSuffix name)))).getD 0 := by
  simp only [resolveData, h, hb, ne_eq, not_false_eq_true, if_true, none_or]
  cases s.globalSymbols (stripVersionSuffix name) <;> rfl

lemma found_iff (found visible : Option Word) :
    (found.getD 0 ≠ 0 → visible.getD 0 = found.getD 0) ↔
      ∀ addr, found = some addr → addr ≠ 0 → visible = some addr := by
  cases found with
  | none => simp
  | some addr =>
    cases visible with
    | none =>
      simp only [getD_some, getD_none, Option.some.injEq]
      exact ⟨fun h b hb hne => absurd (h (hb ▸ hne)) (hb ▸ hne.symm), fun h hne => absurd (h addr rfl hne) (by simp)⟩
    | some v =>
      simp only [getD_some, Option.some.injEq]
      exact ⟨fun h b hb hne => hb ▸ h (hb ▸ hne), fun h hne => h addr rfl hne⟩

lemma visible_of_export {addr : Word} (h : s.firstExport name = some addr) : s.visible name = some addr := by
  simp [visible, h]

lemma resolveData_iff (h0 : s.baseStub name = 0) :
    (s.resolveData name (stripVersionSuffix name) ≠ 0 →
        (s.visible name).getD 0 = s.resolveData name (stripVersionSuffix name)) ↔
      (∀ addr, s.globalSymbols name = some addr → addr ≠ 0 →
          ∀ exported, s.firstExport name = some exported → exported = addr) ∧
        ∀ addr, s.underBase name = some addr → addr ≠ 0 → s.visible name = some addr := by
  have hunder : s.underBase name = _ := if_neg (not_not.2 h0)
  cases hg : s.globalSymbols name with
  | some addr =>
    -- the data symbol hides what there is without the version; an export hides the data symbol
    rw [resolveData_of_global hg, hunder, hg, if_pos (.inl rfl)]
    have hvis : (s.visible name).getD 0 = (s.firstExport name).getD addr := by
      simp only [visible, hg]
      cases s.firstExport name <;> rfl
    rw [hvis]
    simp only [Option.some.injEq, reduceCtorEq, false_implies, implies_true, and_true]
    constructor
    · rintro h b rfl hne exported he
      simpa [he] using h hne
    · intro h hne
      cases he : s.firstExport name with
      | none => rfl
      | some exported => exact h addr rfl hne exported he
  | none =>
    simp only [reduceCtorEq, false_implies, implies_true, true_and]
    have hexport : ((s.firstExport name).getD 0 ≠ 0 → (s.visible name).getD 0 = (s.firstExport name).getD 0) :=
      (found_iff _ _).2 fun addr he _ => visible_of_export he
    by_cases hb : stripVersionSuffix name = name
    · rw [hunder, if_pos (.inr hb), hb, resolveData_unversioned hg]
      exact iff_of_true hexport (by simp)
    · have hno : ¬ ((s.globalSymbols name).isSome ∨ stripVersionSuffix name = name) := by simp [hg, hb]
      rw [hunder, if_neg hno, resolveData_versioned hb hg]
      cases hgb : s.globalSymbols (stripVersionSuffix name) with
      | some addr => exact found_iff (some addr) _
      | none =>
        rw [none_or, none_or]
        rcases findSome_export s.modules name (stripVersionSuffix name) with hloop | ⟨hno, hloop⟩
        · rw [hloop]
          exact found_iff _ _
        · rw [hloop, exportUnderBase, hno]
          exact iff_of_true hexport (by simp)

/-- **The two lookups.**  For a name that `resolve_import` finds, `dl_sym` gives the guest the same address just
when the tables agree on the name. -/
theorem dlSym_resolveImport_iff (s : SymbolState) (name : String) :
    ((s.resolveImport name).1 ≠ 0 → (s.dlSym 0 name).1 = (s.resolveImport name).1) ↔ s.Agrees name := by
  rw [dlSym_default]
  by_cases hstub : s.stub name = 0
  · have hsame : (if (s.visible name).getD 0 ≠ 0 then (s.visible name).getD 0 else s.stub name) =
        (s.visible name).getD 0 := by
      split_ifs with hv
      · rfl
      · rw [hstub, not_not.1 hv]
    rw [hsame, resolveImport_of_not_stub hstub]
    by_cases hbase : s.baseStub name = 0
    · rw [if_neg (not_not.2 hbase), resolveData_iff hbase]
      exact ⟨fun h => ⟨fun hne => absurd hstub hne, fun _ _ => h.1, fun _ => h.2⟩,
        fun h => ⟨h.global hstub hbase, h.version hstub⟩⟩
    · have hfound : s.underBase name = some (s.baseStub name) := if_pos hbase
      have hiff := found_iff (s.underBase name) (s.visible name)
      rw [if_pos hbase]
      rw [hfound, getD_some] at hiff
      rw [hiff, ← hfound]
      exact ⟨fun h => ⟨fun hne => absurd hstub hne, fun _ h0 => absurd h0 hbase, fun _ => h⟩,
        fun h => h.version hstub⟩
  · rw [resolveImport_of_stub hstub]
    constructor
    · intro h
      refine ⟨fun _ addr hv hne => ?_, fun h0 => absurd h0 hstub, fun h0 => absurd h0 hstub⟩
      have heq := h hstub
      rwa [hv, getD_some, if_pos hne] at heq
    · intro h _
      cases hv : s.visible name with
      | none => simp
      | some addr =>
        by_cases hne : addr = 0
        · simp [hne]
        · simp [h.hle hstub addr hv hne]

def exporting (name : String) (addr : Word) : LoadedModule :=
  { LoadedModule.blank with exports := Table.insert (fun _ => none) name addr }

/-- **The lookups disagree.** A module exports `malloc`: imports are bound to the HLE function, the guest is given the
export. -/
theorem export_shadows_hle : ¬ ∀ (s : SymbolState) (name : String), (s.resolveImport name).1 ≠ 0 →
    (s.dlSym 0 name).1 = (s.resolveImport name).1 := by
  intro h
  let hle : HleManager := { HleManager.init (fun _ => 0) with
    stubAddresses := Function.update (fun _ => none) "malloc" (some hleBase) }
  have heq := h ⟨hle, fun _ => none, [exporting "malloc" codeBase]⟩ "malloc"
  revert heq
  decide

end SymbolState

end CrossShim.Loader
