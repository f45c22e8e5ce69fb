import CatalogAudit.Decimal.Natural
import CatalogAudit.FileTree.Fault
import CatalogAudit.FileTree.Path
import CatalogAudit.Glob.Pattern
import CatalogAudit.Json.Cursor

/-!
# Faults

What stops an audit: a cause, and the contexts in which it arose, outermost first. A message is
written here and nowhere else, so a fault is compared by what happened and not by its wording.
-/

namespace CatalogAudit

inductive Cause where
  | file (fault : FileTree.Fault)
  | json (fault : Json.Fault)
  | pattern (fault : Glob.Fault)
  | number (fault : Natural.Fault)
  | catalogRequired
  | sourceMissing (root : Path)
  | sourceNotDirectory (root : Path)
  | duplicateKey (key : String) (path : Path)
  | noLocaleFiles (directory : Path)
  | baseLocaleMissing (base : String)
  | localeCode (code : String)
  | settingsExist (name : String)
deriving DecidableEq, Repr

def Cause.message : Cause → String
  | .file fault => fault.message
  | .json fault => fault.message
  | .pattern fault => fault.message
  | .number fault => fault.message
  | .catalogRequired => "Catalog path is required"
  | .sourceMissing root => "Source directory '" ++ root.shown ++ "' does not exist."
  | .sourceNotDirectory root => "'" ++ root.shown ++ "' is not a directory."
  | .duplicateKey key path => "Duplicate key '" ++ key ++ "' in " ++ path.shown
  | .noLocaleFiles directory => "No locale files found in '" ++ directory.shown ++ "'"
  | .baseLocaleMissing base => "Base locale '" ++ base ++ "' not found"
  | .localeCode code => "Base locale must be a two-letter code, got \"" ++ code ++ "\""
  | .settingsExist name => name ++ " already exists"

inductive Context where
  | workingDirectory
  | readCatalog (path : Path)
  | parseCatalog (path : Path)
  | sourcePattern (pattern : String)
  | walkSource (root : Path)
  | walkAt (path : Path) (fault : FileTree.Fault)
  | readSource (path : Path)
  | readIgnoreList (path : Path)
  | readLocales (directory : Path)
  | readCache (path : Path)
  | parseCache (path : Path)
  | writeCache (path : Path)
  | writeReport (path : Path)
  | readSettings (path : Path)
  | parseSettings (path : Path)
  | settingsPattern (pattern : String)
  | settingsLocale
  | writeSettings (path : Path)
  | depth (text : String)
deriving DecidableEq, Repr

def Context.message : Context → String
  | .workingDirectory => "Failed to determine the working directory"
  | .readCatalog path => "Failed to read catalog: " ++ path.shown
  | .parseCatalog path => "Failed to parse catalog: " ++ path.shown
  | .sourcePattern pattern => "Invalid source pattern: \"" ++ pattern ++ "\""
  | .walkSource root => "Failed to read source directory: " ++ root.shown
  | .walkAt path fault => "IO error for operation on " ++ path.shown ++ ": " ++ fault.message
  | .readSource path => "Failed to read source file: " ++ path.shown
  | .readIgnoreList path => "Failed to read ignore list: " ++ path.shown
  | .readLocales directory => "Failed to read locales directory: " ++ directory.shown
  | .readCache path => "Failed to read cache: " ++ path.shown
  | .parseCache path => "Invalid cache file: " ++ path.shown
  | .writeCache path => "Failed to write cache: " ++ path.shown
  | .writeReport path => "Failed to write report: " ++ path.shown
  | .readSettings path => "Failed to read config file: " ++ path.quoted
  | .parseSettings path => "Failed to parse config file: " ++ path.quoted
  | .settingsPattern pattern =>
      "Invalid glob pattern in 'sourcePatterns': \"" ++ pattern ++ "\""
  | .settingsLocale => "Invalid 'baseLocale' in config file"
  | .writeSettings path => "Failed to write " ++ path.shown
  | .depth text => "Invalid depth: \"" ++ text ++ "\""

structure Fault where
  contexts : List Context
  cause : Cause
deriving DecidableEq, Repr

namespace Fault

def of (cause : Cause) : Fault :=
  ⟨[], cause⟩

def within (context : Context) (fault : Fault) : Fault :=
  ⟨context :: fault.contexts, fault.cause⟩

def chain (fault : Fault) : List String :=
  fault.contexts.map (·.message) ++ [fault.cause.message]

def message (fault : Fault) : String :=
  match fault.contexts with
  | context :: _ => context.message
  | [] => fault.cause.message

def fullMessage (fault : Fault) : String :=
  ": ".intercalate fault.chain

end Fault

def withContext (cause : ε → Cause) (context : Context) : Except ε α → Except Fault α
  | .ok value => .ok value
  | .error fault => .error ⟨[context], cause fault⟩

/-!
# Results

What a result tells about the steps that led to it.
-/

theorem bind_eq_ok {ε α β : Type} {first : Except ε α} {next : α → Except ε β} {result : β} :
    (first >>= next) = .ok result ↔ ∃ value, first = .ok value ∧ next value = .ok result := by
  cases first with
  | error fault =>
      constructor
      · intro h
        cases h
      · intro h
        rcases h with ⟨value, hFirst, _⟩
        cases hFirst
  | ok value =>
      constructor
      · intro h
        exact ⟨value, rfl, h⟩
      · intro h
        rcases h with ⟨other, hFirst, hNext⟩
        cases hFirst
        exact hNext

theorem toOption_eq_some {ε α : Type} {result : Except ε α} {value : α} :
    result.toOption = some value ↔ result = .ok value := by
  cases result with
  | error fault => simp [Except.toOption]
  | ok other => simp [Except.toOption]

theorem eq_ok_congr {ε α : Type} {result result' : Except ε α}
    (h : result'.toOption = result.toOption) {value : α} :
    result' = .ok value ↔ result = .ok value := by
  rw [← toOption_eq_some, h, toOption_eq_some]

theorem withContext_eq_ok {ε α : Type} {cause : ε → Cause} {context : Context}
    {result : Except ε α} {value : α} :
    withContext cause context result = .ok value ↔ result = .ok value := by
  cases result with
  | error fault => simp [withContext]
  | ok value => simp [withContext]

/-- What follows a step depends only on its value if it has one, and not on its fault. -/
theorem bind_withContext_congr {ε α β : Type} {cause : ε → Cause} {context : Context}
    {first first' : Except ε α} (h : first'.toOption = first.toOption)
    {next : α → Except Fault β} {result : β} :
    (withContext cause context first' >>= next) = .ok result ↔
      (withContext cause context first >>= next) = .ok result := by
  simp only [bind_eq_ok, withContext_eq_ok, eq_ok_congr h]

/-!
# Lists of steps

Steps that are taken for the items of a list, until one of them fails.
-/

section Steps

variable {ε α β γ : Type} {step step' : α → Except ε β}

theorem mapM_cons_eq_ok {item : α} {items : List α} {values : List β} :
    (item :: items).mapM step = .ok values ↔
      ∃ value rest, step item = .ok value ∧ items.mapM step = .ok rest ∧
        values = value :: rest := by
  rw [List.mapM_cons]
  simp only [bind_eq_ok]
  constructor
  · intro h
    rcases h with ⟨value, hValue, rest, hRest, hEq⟩
    cases hEq
    exact ⟨value, rest, hValue, hRest, rfl⟩
  · intro h
    rcases h with ⟨value, rest, hValue, hRest, rfl⟩
    exact ⟨value, hValue, rest, hRest, rfl⟩

theorem exists_of_mapM_eq_ok {items : List α} {values : List β}
    (h : items.mapM step = .ok values) : ∀ item ∈ items, ∃ value, step item = .ok value := by
  induction items generalizing values with
  | nil => exact fun _ hItem => absurd hItem List.not_mem_nil
  | cons item items ih =>
      rcases mapM_cons_eq_ok.mp h with ⟨value, rest, hValue, hRest, _⟩
      exact List.forall_mem_cons.mpr ⟨⟨value, hValue⟩, ih hRest⟩

theorem exists_mapM_iff {items : List α} :
    (∃ values, items.mapM step = .ok values) ↔ ∀ item ∈ items, ∃ value, step item = .ok value := by
  constructor
  · intro h
    rcases h with ⟨values, hValues⟩
    exact exists_of_mapM_eq_ok hValues
  · intro h
    induction items with
    | nil => exact ⟨[], rfl⟩
    | cons item items ih =>
        rcases h item (List.mem_cons_self ..) with ⟨value, hValue⟩
        rcases ih fun other hOther => h other (List.mem_cons_of_mem item hOther) with ⟨rest, hRest⟩
        exact ⟨value :: rest, mapM_cons_eq_ok.mpr ⟨value, rest, hValue, hRest, rfl⟩⟩

theorem mem_of_mapM_eq_ok {items : List α} {values : List β} (h : items.mapM step = .ok values)
    {value : β} : value ∈ values ↔ ∃ item ∈ items, step item = .ok value := by
  induction items generalizing values with
  | nil =>
      cases h
      simp
  | cons item items ih =>
      rcases mapM_cons_eq_ok.mp h with ⟨first, rest, hFirst, hRest, rfl⟩
      simp [ih hRest, hFirst, eq_comm]

theorem map_eq_of_mapM_eq_ok {f : β → γ} {g : α → γ}
    (hStep : ∀ item value, step item = .ok value → f value = g item) {items : List α}
    {values : List β} (h : items.mapM step = .ok values) : values.map f = items.map g := by
  induction items generalizing values with
  | nil =>
      cases h
      rfl
  | cons item items ih =>
      rcases mapM_cons_eq_ok.mp h with ⟨value, rest, hValue, hRest, rfl⟩
      rw [List.map_cons, List.map_cons, hStep item value hValue, ih hRest]

theorem mapM_eq_ok_of_forall {items : List α}
    (hStep : ∀ item ∈ items, ∀ value, step item = .ok value → step' item = .ok value)
    {values : List β} (h : items.mapM step = .ok values) : items.mapM step' = .ok values := by
  induction items generalizing values with
  | nil => exact h
  | cons item items ih =>
      rcases mapM_cons_eq_ok.mp h with ⟨value, rest, hValue, hRest, rfl⟩
      have hValue' := hStep item (List.mem_cons_self ..) value hValue
      have hRest' := ih (fun other hOther => hStep other (List.mem_cons_of_mem item hOther)) hRest
      exact mapM_cons_eq_ok.mpr ⟨value, rest, hValue', hRest', rfl⟩

theorem forM_eq_ok {check : α → Except ε Unit} {items : List α} :
    items.forM check = .ok () ↔ ∀ item ∈ items, check item = .ok () := by
  induction items with
  | nil => exact iff_of_true rfl (List.forall_mem_nil _)
  | cons item items ih =>
      show (check item >>= fun _ => items.forM check) = .ok () ↔ _
      rw [bind_eq_ok, List.forall_mem_cons, ← ih]
      exact ⟨fun h => h.elim fun _ hBoth => hBoth, fun h => ⟨(), h⟩⟩

theorem mapM_eq_of_forall {items : List α} (h : ∀ item ∈ items, step' item = step item) :
    items.mapM step' = items.mapM step := by
  induction items with
  | nil => rfl
  | cons item items ih =>
      rw [List.mapM_cons, List.mapM_cons, h item (List.mem_cons_self ..),
        ih fun other hOther => h other (List.mem_cons_of_mem item hOther)]

end Steps

end CatalogAudit
