import CatalogAudit.Proofs.Json.Printed
import CatalogAudit.Settings.Reader

/-!
# Settings that are written and read back

The text of settings is read back as these settings, and members that are deleted leave nothing but
defaults. The order of the members and members of other names make no difference.
-/

namespace CatalogAudit
namespace Settings

open Json (IsFlat IsObjectText IsValue ReadsSpaced Spells printed)
open Utf8 (Bytes encode)

/-!
# Members
-/

def members (settings : Settings) : List (String × Json) :=
  match settings.toJson with
  | .object members => members
  | _ => []

def names : List String :=
  default.members.map (·.1)

theorem nodup_names : names.Nodup := by
  decide

theorem map_fields : fields.map (·.name) = names :=
  rfl

theorem find?_of_not_mem {name : String} (h : name ∉ names) :
    shape.fields.find? (fun field => field.name == name) = none := by
  rw [List.find?_eq_none]
  intro field hField hName
  rw [← map_fields] at h
  exact h (List.mem_map.mpr ⟨field, hField, beq_iff_eq.mp hName⟩)

theorem isFlat_of_mem_members {settings : Settings} {member : String × Json}
    (h : member ∈ settings.members) : IsFlat member.2 := by
  have hTexts : ∀ values, IsFlat (texts values) := by
    intro values item hItem
    rcases List.mem_map.mp hItem with ⟨s, _, rfl⟩
    exact ⟨s, rfl⟩
  have hOptional : ∀ {α : Type} (write : α → Json) (value : Option α),
      (∀ value, IsFlat (write value)) → IsFlat (optional write value) := by
    intro α write value hWrite
    cases value with
    | none => trivial
    | some value => exact hWrite value
  have hOptionalText : ∀ value, IsFlat (optional .string value) :=
    fun value => hOptional _ value fun _ => trivial
  simp only [members, toJson, List.mem_cons, List.not_mem_nil, or_false] at h
  rcases h with rfl | rfl | rfl | rfl | rfl | rfl | rfl | rfl | rfl | rfl | rfl
  · trivial
  · exact hOptionalText _
  · trivial
  · exact hOptional _ _ fun _ => trivial
  · trivial
  · exact hTexts _
  · exact hTexts _
  · exact hOptionalText _
  · trivial
  · trivial
  · trivial

/-!
# Defaults
-/

/-- The settings with the defaults for the fields of these names. -/
def without (settings : Settings) (isDeleted : String → Bool) : Settings where
  sourceRoot := if isDeleted "sourceRoot" then default.sourceRoot else settings.sourceRoot
  localePath := if isDeleted "localePath" then default.localePath else settings.localePath
  output := if isDeleted "output" then default.output else settings.output
  maxDepth := if isDeleted "maxDepth" then default.maxDepth else settings.maxDepth
  cache := if isDeleted "cache" then default.cache else settings.cache
  ignoredDirs := if isDeleted "ignoredDirs" then default.ignoredDirs else settings.ignoredDirs
  sourcePatterns :=
    if isDeleted "sourcePatterns" then default.sourcePatterns else settings.sourcePatterns
  ignoreKeys := if isDeleted "ignoreKeys" then default.ignoreKeys else settings.ignoreKeys
  localesDir := if isDeleted "localesDir" then default.localesDir else settings.localesDir
  baseLocale := if isDeleted "baseLocale" then default.baseLocale else settings.baseLocale
  untranslatedOutput :=
    if isDeleted "untranslatedOutput" then default.untranslatedOutput
    else settings.untranslatedOutput

theorem without_congr {settings : Settings} {isDeleted isDeleted' : String → Bool}
    (h : ∀ name ∈ names, isDeleted' name = isDeleted name) :
    settings.without isDeleted' = settings.without isDeleted := by
  unfold without
  rw [h "sourceRoot" (by decide), h "localePath" (by decide), h "output" (by decide),
    h "maxDepth" (by decide), h "cache" (by decide), h "ignoredDirs" (by decide),
    h "sourcePatterns" (by decide), h "ignoreKeys" (by decide), h "localesDir" (by decide),
    h "baseLocale" (by decide), h "untranslatedOutput" (by decide)]

/-!
# Fields
-/

section Fields

variable {text : Bytes}

theorem readsSpaced_string {s : String} (h : Spells (.string s) text) :
    ReadsSpaced Json.readText text s := by
  cases h
  exact Json.readsSpaced_readText s

theorem readsSpaced_flag {b : Bool} (h : Spells (.bool b) text) :
    ReadsSpaced Json.readFlag text b := by
  cases h
  exact Json.readsSpaced_readFlag b

theorem readsSpaced_optionalText {value : Option String}
    (h : Spells (optional .string value) text) :
    ReadsSpaced (Json.readOptional Json.readText) text value := by
  cases value with
  | none =>
      cases h
      exact Json.readsSpaced_readOptional_null _
  | some s =>
      cases h
      apply (Json.readsSpaced_readText s).readOptional
      exact ⟨0x22, _, Json.printed_string s, rfl, by decide⟩

theorem readsSpaced_optionalSize {value : Option Nat}
    (hBound : ∀ n, value = some n → n < Nat.pow 2 64)
    (h : Spells (optional (fun n => .number (.natural n)) value) text) :
    ReadsSpaced (Json.readOptional Json.readSize) text value := by
  cases value with
  | none =>
      cases h
      exact Json.readsSpaced_readOptional_null _
  | some n =>
      cases h
      rcases Json.exists_digit_of_natural n with ⟨b, more, hPrinted, hDigit⟩
      apply (Json.readsSpaced_readSize (hBound n rfl)).readOptional
      exact ⟨b, more, hPrinted, Json.isBlankByte_of_digit hDigit, Json.ne_of_digit hDigit rfl⟩

theorem readsSpaced_texts {values : List String} (h : Spells (texts values) text) :
    ReadsSpaced (Json.readList Json.readText) text values := by
  rcases h with ⟨inside, hInside, rfl⟩
  refine Json.readsSpaced_readList ?_ hInside
  rintro s _ bytes rfl
  exact ⟨Json.beginsValue_string s, (Json.reads_readText s).readsBefore⟩

end Fields

/-!
# Drafts

A draft knows the fields that have been given, and the others still have their defaults.
-/

def draftOf (settings : Settings) (given : List String) : Draft :=
  ⟨settings.without fun name => !given.contains name, given⟩

section Drafts

variable {settings : Settings} {given : List String}

theorem taken_of_field {β : Type} {name : String} {read : Json.Reader β}
    {put : Settings → β → Settings} {value : β} {text : Bytes}
    (hField : shape.fields.find? (fun field => field.name == name) = some (field name read put))
    (hNew : name ∉ given) (hRead : ReadsSpaced read text value)
    (hPut : put (draftOf settings given).settings value =
      (draftOf settings (name :: given)).settings) :
    ∃ field, shape.fields.find? (fun field => field.name == name) = some field ∧
      field.isGiven (draftOf settings given) = false ∧
      ReadsSpaced (field.read (draftOf settings given)) text
        (draftOf settings (name :: given)) := by
  refine ⟨_, hField, ?_, ?_⟩
  · show given.contains name = false
    simpa using hNew
  · have hGive := hRead.give fun value =>
      (⟨put (draftOf settings given).settings value, name :: given⟩ : Draft)
    rw [hPut] at hGive
    exact hGive

/-- A member that has not been read yet is taken by the field of its name. -/
theorem taken_of_mem_members (hDepth : ∀ n, settings.maxDepth = some n → n < Nat.pow 2 64)
    {name : String} {value : Json} {text : Bytes} (hMember : (name, value) ∈ settings.members)
    (hNew : name ∉ given) (hSpells : Spells value text) :
    ∃ field, shape.fields.find? (fun field => field.name == name) = some field ∧
      field.isGiven (draftOf settings given) = false ∧
      ReadsSpaced (field.read (draftOf settings given)) text
        (draftOf settings (name :: given)) := by
  simp only [members, toJson, List.mem_cons, List.not_mem_nil, or_false, Prod.mk.injEq] at hMember
  rcases hMember with ⟨rfl, rfl⟩ | ⟨rfl, rfl⟩ | ⟨rfl, rfl⟩ | ⟨rfl, rfl⟩ | ⟨rfl, rfl⟩ |
    ⟨rfl, rfl⟩ | ⟨rfl, rfl⟩ | ⟨rfl, rfl⟩ | ⟨rfl, rfl⟩ | ⟨rfl, rfl⟩ | ⟨rfl, rfl⟩
  · exact taken_of_field rfl hNew (readsSpaced_string hSpells) (by simp [draftOf, without])
  · exact taken_of_field rfl hNew (readsSpaced_optionalText hSpells) (by simp [draftOf, without])
  · exact taken_of_field rfl hNew (readsSpaced_string hSpells) (by simp [draftOf, without])
  · exact taken_of_field rfl hNew (readsSpaced_optionalSize hDepth hSpells)
      (by simp [draftOf, without])
  · exact taken_of_field rfl hNew (readsSpaced_flag hSpells) (by simp [draftOf, without])
  · exact taken_of_field rfl hNew (readsSpaced_texts hSpells) (by simp [draftOf, without])
  · exact taken_of_field rfl hNew (readsSpaced_texts hSpells) (by simp [draftOf, without])
  · exact taken_of_field rfl hNew (readsSpaced_optionalText hSpells) (by simp [draftOf, without])
  · exact taken_of_field rfl hNew (readsSpaced_string hSpells) (by simp [draftOf, without])
  · exact taken_of_field rfl hNew (readsSpaced_string hSpells) (by simp [draftOf, without])
  · exact taken_of_field rfl hNew (readsSpaced_string hSpells) (by simp [draftOf, without])

def namesIn (written : List (String × Bytes)) : List String :=
  (written.map (·.1)).filter fun name => names.contains name

/-- The member is one of the settings, with a text of its value. -/
def IsSpelledIn (settings : Settings) (member : String × Bytes) : Prop :=
  ∃ value, (member.1, value) ∈ settings.members ∧ Spells value member.2

/-- The members are some of those that have not been given, and any others. -/
structure Continues (settings : Settings) (given : List String) (written : List (String × Bytes)) :
    Prop where
  known : ∀ member ∈ written, member.1 ∈ names → IsSpelledIn settings member
  unknown : ∀ member ∈ written, member.1 ∉ names → IsValue member.2
  nodup : (namesIn written ++ given).Nodup

theorem namesIn_cons_of_mem {name : String} (h : name ∈ names) (text : Bytes)
    (written : List (String × Bytes)) :
    namesIn ((name, text) :: written) = name :: namesIn written :=
  List.filter_cons_of_pos (by simpa using h)

theorem namesIn_cons_of_not_mem {name : String} (h : name ∉ names) (text : Bytes)
    (written : List (String × Bytes)) : namesIn ((name, text) :: written) = namesIn written :=
  List.filter_cons_of_neg (by simpa using h)

theorem collects_of_continues (hDepth : ∀ n, settings.maxDepth = some n → n < Nat.pow 2 64)
    {written : List (String × Bytes)} (h : Continues settings given written) :
    ∃ given', Json.Collects shape (draftOf settings given) written (draftOf settings given') ∧
      ∀ name, name ∈ given' ↔ name ∈ namesIn written ∨ name ∈ given := by
  induction written generalizing given with
  | nil => exact ⟨given, .nil, fun name => by simp [namesIn]⟩
  | cons member written ih =>
      obtain ⟨name, text⟩ := member
      have hKnown := fun other hMem => h.known other (List.mem_cons_of_mem (name, text) hMem)
      have hUnknown := fun other hMem => h.unknown other (List.mem_cons_of_mem (name, text) hMem)
      have hNodup := h.nodup
      by_cases hName : name ∈ names
      · rw [namesIn_cons_of_mem hName, List.cons_append] at hNodup
        have hNew : name ∉ given := fun hGiven =>
          (List.nodup_cons.mp hNodup).1 (List.mem_append_right _ hGiven)
        rcases h.known (name, text) (List.mem_cons_self ..) hName with ⟨value, hMember, hSpells⟩
        rcases taken_of_mem_members hDepth hMember hNew hSpells with
          ⟨field, hField, hGiven, hRead⟩
        rcases ih ⟨hKnown, hUnknown, List.perm_middle.nodup_iff.mpr hNodup⟩ with
          ⟨given', hCollects, hNames⟩
        refine ⟨given', .taken hField hGiven hRead hCollects, ?_⟩
        intro other
        rw [hNames, namesIn_cons_of_mem hName, List.mem_cons, List.mem_cons]
        exact or_left_comm.trans or_assoc.symm
      · rw [namesIn_cons_of_not_mem hName] at hNodup
        rcases ih ⟨hKnown, hUnknown, hNodup⟩ with ⟨given', hCollects, hNames⟩
        refine ⟨given', .passed (find?_of_not_mem hName)
          (h.unknown (name, text) (List.mem_cons_self ..) hName) hCollects, ?_⟩
        intro other
        rw [hNames, namesIn_cons_of_not_mem hName]

end Drafts

/-!
# Variants
-/

/--
The text of an object with the members of the settings but for the deleted ones, in any order and
among members of other names that may have any values.
-/
def IsVariant (settings : Settings) (isDeleted : String → Bool) (text : Bytes) : Prop :=
  ∃ kept added written,
    (kept.map (·.1) = names.filter fun name => !isDeleted name) ∧
      (∀ member ∈ kept, IsSpelledIn settings member) ∧
      (∀ member ∈ added, member.1 ∉ names ∧ IsValue member.2) ∧
      written.Perm (kept ++ added) ∧ IsObjectText written text

section Variants

variable {settings : Settings} {isDeleted : String → Bool}

theorem perm_namesIn {kept added written : List (String × Bytes)}
    (hKept : kept.map (·.1) = names.filter fun name => !isDeleted name)
    (hAdded : ∀ member ∈ added, member.1 ∉ names) (hPerm : written.Perm (kept ++ added)) :
    (namesIn written).Perm (names.filter fun name => !isDeleted name) := by
  have hOthers : (added.map (·.1)).filter (fun name => names.contains name) = [] := by
    rw [List.filter_eq_nil_iff]
    intro name hName
    rcases List.mem_map.mp hName with ⟨member, hMember, rfl⟩
    simpa using hAdded member hMember
  have hAll : (kept.map (·.1)).filter (fun name => names.contains name) = kept.map (·.1) := by
    rw [List.filter_eq_self]
    intro name hName
    rw [hKept] at hName
    simpa using (List.mem_filter.mp hName).1
  have hSame : ((kept ++ added).map (·.1)).filter (fun name => names.contains name) =
      names.filter fun name => !isDeleted name := by
    rw [List.map_append, List.filter_append, hOthers, List.append_nil, hAll, hKept]
  rw [← hSame]
  exact (hPerm.map _).filter _

theorem parse_of_isVariant (hDepth : ∀ n, settings.maxDepth = some n → n < Nat.pow 2 64)
    {text : Bytes} (h : IsVariant settings isDeleted text) :
    parse text = .ok (settings.without isDeleted) := by
  rcases h with ⟨kept, added, written, hKept, hSpelled, hAdded, hPerm, hText⟩
  have hNames := perm_namesIn hKept (fun member hMem => (hAdded member hMem).1) hPerm
  have hContinues : Continues settings [] written := by
    constructor
    case known =>
      intro member hMember hName
      rcases List.mem_append.mp (hPerm.mem_iff.mp hMember) with hMem | hMem
      · exact hSpelled member hMem
      · exact absurd hName (hAdded member hMem).1
    case unknown =>
      intro member hMember hName
      rcases List.mem_append.mp (hPerm.mem_iff.mp hMember) with hMem | hMem
      · have hKnown : member.1 ∈ kept.map (·.1) := List.mem_map_of_mem hMem
        rw [hKept] at hKnown
        exact absurd (List.mem_filter.mp hKnown).1 hName
      · exact (hAdded member hMem).2
    case nodup =>
      rw [List.append_nil]
      exact hNames.nodup_iff.mpr (nodup_names.filter _)
  rcases collects_of_continues hDepth hContinues with ⟨given, hCollects, hGiven⟩
  have hSettings : (draftOf settings given).settings = settings.without isDeleted := by
    show settings.without (fun name => !given.contains name) = _
    apply without_congr
    intro name hName
    have hIff : name ∈ given ↔ isDeleted name = false := by
      rw [hGiven, hNames.mem_iff, List.mem_filter]
      simp [hName]
    cases hDeleted : isDeleted name with
    | false => simpa using hIff.mpr hDeleted
    | true => simpa [hDeleted] using hIff
  rw [← hSettings]
  exact Json.decode_of_collects hText hCollects rfl

end Variants

/-!
# Printed forms
-/

theorem isVariant_of_printed (settings : Settings) {toText : Json → Bytes} {text : Bytes}
    (hSpells : ∀ value, IsFlat value → Spells value (toText value))
    (hText : IsObjectText (settings.members.map fun member => (member.1, toText member.2)) text) :
    IsVariant settings (fun _ => false) text := by
  refine ⟨settings.members.map fun member => (member.1, toText member.2), [],
    settings.members.map fun member => (member.1, toText member.2), rfl, ?_,
    fun _ hMem => absurd hMem List.not_mem_nil, ?_, hText⟩
  · intro member hMember
    rcases List.mem_map.mp hMember with ⟨original, hOriginal, rfl⟩
    exact ⟨original.2, hOriginal, hSpells original.2 (isFlat_of_mem_members hOriginal)⟩
  · rw [List.append_nil]

/-- What parsing makes of texts of the settings. -/
structure IsReadBack (settings : Settings) : Prop where
  indented : parse (bytesOf settings.text) = .ok settings
  compact : parse (bytesOf settings.toJson.compact) = .ok settings
  variants : ∀ isDeleted text, IsVariant settings isDeleted text →
    parse text = .ok (settings.without isDeleted)

theorem isReadBack (settings : Settings)
    (hDepth : ∀ n, settings.maxDepth = some n → n < Nat.pow 2 64) :
    IsReadBack settings := by
  have hIndented : IsVariant settings (fun _ => false) (encode (Json.indentedChars 0
      settings.toJson)) :=
    isVariant_of_printed settings (fun _ hFlat => Json.spells_indented hFlat 1)
      (Json.isObjectText_indented 0 settings.members)
  have hCompact : IsVariant settings (fun _ => false) (printed settings.toJson) :=
    isVariant_of_printed settings (fun _ hFlat => Json.spells_compact hFlat)
      (Json.isObjectText_compact settings.members)
  constructor
  case indented =>
    unfold text Json.indented bytesOf
    rw [String.toList_ofList]
    exact parse_of_isVariant hDepth hIndented
  case compact =>
    unfold Json.compact bytesOf
    rw [String.toList_ofList]
    exact parse_of_isVariant hDepth hCompact
  case variants => exact fun isDeleted text hVariant => parse_of_isVariant hDepth hVariant

def sampleSettings : Settings :=
  { default with
    sourceRoot := "\"a\\\n\x01é\"", localePath := some "", maxDepth := some 3, ignoredDirs := [] }

def sampleText : Bytes :=
  bytesOf "\x7b \"note\" : [1.5e3] ,\"maxDepth\":3\x7d\n"

theorem isVariant_sampleText :
    IsVariant sampleSettings (fun name => name != "maxDepth") sampleText := by
  have hNumber : Json.IsNumber (bytesOf "1.5e3") :=
    ⟨bytesOf "1", bytesOf ".5", bytesOf "e3", Or.inr ⟨by decide, by decide⟩,
      Or.inr ⟨bytesOf "5", by decide, by decide⟩,
      Or.inr ⟨0x65, [], bytesOf "3", Or.inl rfl, Or.inl rfl, by decide, by decide⟩,
      by decide⟩
  have hNote : IsValue (bytesOf "[1.5e3]") := by
    have hItems : Json.Separated Eq true [bytesOf "1.5e3"]
        ([] ++ (Json.separator true ++ ([] ++ (bytesOf "1.5e3" ++ [])))) :=
      .cons Json.isBlank_nil Json.isBlank_nil rfl (.nil Json.isBlank_nil)
    refine IsValue.list ?_ hItems
    rintro item hMem
    rw [List.mem_singleton.mp hMem]
    exact .positive hNumber
  have hInside : Json.Separated Json.IsWrittenMember true
      [("note", bytesOf "[1.5e3]"), ("maxDepth", bytesOf "3")]
      (bytesOf " " ++ (Json.separator true ++ ([] ++ (bytesOf "\"note\" : [1.5e3]" ++
        (bytesOf " " ++ (Json.separator false ++ ([] ++ (bytesOf "\"maxDepth\":3" ++ [])))))))) :=
    .cons (by decide) (by decide) ⟨bytesOf " ", bytesOf " ", by decide, by decide, by decide⟩
      (.cons (by decide) (by decide) ⟨[], [], by decide, by decide, by decide⟩ (.nil (by decide)))
  refine ⟨[("maxDepth", bytesOf "3")], [("note", bytesOf "[1.5e3]")], _, by decide, ?_, ?_,
    .swap _ _ [], [], _, bytesOf "\n", by decide, by decide, hInside, by decide⟩
  · intro member hMember
    rw [List.mem_singleton.mp hMember]
    have hDepth : bytesOf "3" = printed (.number (.natural 3)) := by decide
    exact ⟨.number (.natural 3), .tail _ (.tail _ (.tail _ (.head _))), hDepth⟩
  · intro member hMember
    rw [List.mem_singleton.mp hMember]
    exact ⟨by decide, hNote⟩

theorem isReadBack_sampleSettings :
    IsReadBack sampleSettings ∧
      IsVariant sampleSettings (fun name => name != "maxDepth") sampleText ∧
      parse sampleText = .ok { default with maxDepth := some 3 } := by
  have hReadBack : IsReadBack sampleSettings := by
    apply isReadBack
    intro n hSome
    cases hSome
    decide
  exact ⟨hReadBack, isVariant_sampleText, hReadBack.variants _ _ isVariant_sampleText⟩

end Settings
end CatalogAudit
