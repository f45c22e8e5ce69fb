import CatalogAudit.Proofs.Audit.Work

/-!
# What an audit of unused keys does

An audit that succeeds has read a project, a catalog, and the source files, has saved the cache, and
has then written the report. Its progress notes have no part in this.
-/

namespace CatalogAudit
namespace Audit

open Catalog (FlatCatalog)
open CommandLine (UnusedArguments)
open FileTree (Disk)

namespace UnusedKeys

open Work

/-!
# What is read
-/

def rootOf (project : Project) (arguments : UnusedArguments) : Path :=
  project.pathOr arguments.path project.settings.sourceRoot

def outputOf (project : Project) (arguments : UnusedArguments) : Path :=
  project.pathOr arguments.output project.settings.output

def cachePathOf (project : Project) (arguments : UnusedArguments) : Path :=
  Path.join (rootOf project arguments) MatchCache.fileName

def scanRequest (project : Project) (arguments : UnusedArguments) : SourceScan.Request where
  root := rootOf project arguments
  ignoredDirs := project.settings.ignoredDirs
  patterns := project.settings.sourcePatterns
  excluded := [cachePathOf project arguments, outputOf project arguments]

def depthOf (project : Project) (arguments : UnusedArguments) : DepthBound :=
  (DepthBound.choose arguments.depth project.settings.maxDepth).1

def isCached (project : Project) (arguments : UnusedArguments) : Bool :=
  project.settings.cache && !arguments.noCache

def keysLeft (disk : Disk) (path : Option Path) (keys : KeySet) : KeySet :=
  match path.bind fun path => (IgnoreList.read disk path).toOption with
  | some prefixes => IgnoreList.apply prefixes keys
  | none => keys

def cacheAt (disk : Disk) (isEnabled : Bool) (root : Path) : Option MatchCache :=
  if isEnabled then some (MatchCache.load disk root) else none

/-- What an audit reads from the disk, apart from the ignore list and the cache. -/
structure Sees (disk : Disk) (arguments : UnusedArguments) (project : Project)
    (flat : FlatCatalog) (files : List SourceFile) : Prop where
  project_eq : Project.load disk = .ok project
  catalog : ∃ path, catalogPath project arguments = .ok path ∧ Catalog.load disk path = .ok flat
  sources : ∃ paths, SourceScan.find disk (scanRequest project arguments) = .ok paths ∧
    SourceFile.loadAll disk (rootOf project arguments) paths = .ok files

def searched (disk : Disk) (arguments : UnusedArguments) (project : Project) (flat : FlatCatalog)
    (files : List SourceFile) : Usage.Run :=
  Usage.run (depthOf project arguments)
    (keysLeft disk (ignoreListPath? project arguments) flat.keys) files
    (cacheAt disk (isCached project arguments) (rootOf project arguments))

def Saves (files : List SourceFile) (cache : Option MatchCache) (disk disk' : Disk) : Prop :=
  match cache with
  | none => disk' = disk
  | some cache => (cache.keepOnly files).save disk = .ok disk'

/-!
# The steps
-/

section Steps

variable {disk disk' : Disk} {notes : List Note}

theorem tells_chooseDepth (project : Project) (arguments : UnusedArguments) :
    Tells (chooseDepth project arguments) ⟨disk, notes⟩ (depthOf project arguments) := by
  unfold chooseDepth depthOf
  cases DepthBound.choose arguments.depth project.settings.maxDepth with
  | mk depth fault =>
      have hFull : ∀ notes, Tells
          (if depth = .unbounded then do
            let _ ← note .fullDepth
            pure depth
          else pure depth) ⟨disk, notes⟩ depth := by
        intro notes
        split
        · exact (tells_note .fullDepth).bind fun _ => tells_pure depth
        · exact tells_pure depth
      cases fault with
      | none => exact hFull notes
      | some fault => exact (tells_note (.depthReplaced fault)).bind hFull

theorem tells_withoutIgnored (path : Option Path) (keys : KeySet) :
    Tells (withoutIgnored path keys) ⟨disk, notes⟩ (keysLeft disk path keys) := by
  unfold keysLeft
  cases path with
  | none => exact tells_pure keys
  | some path =>
      apply leads_get_bind.mpr
      simp only [Option.bind_some]
      cases IgnoreList.read disk path with
      | error fault => exact (tells_note _).bind fun _ => tells_pure keys
      | ok prefixes => exact (tells_note _).bind fun _ => tells_pure _

theorem tells_loadCache (isEnabled : Bool) (root : Path) :
    Tells (loadCache isEnabled root) ⟨disk, notes⟩ (cacheAt disk isEnabled root) := by
  cases isEnabled with
  | false => exact (tells_noteEvents _).bind fun _ => tells_pure none
  | true =>
      apply leads_get_bind.mpr
      exact (tells_noteEvents _).bind fun _ => (tells_noteEvents _).bind fun _ => tells_pure _

theorem leads_loadSources_bind {settings : Settings} {root output : Path} {α : Type}
    {next : List SourceFile → Work α} {value : α} :
    Leads (loadSources settings root output >>= next) ⟨disk, notes⟩ value disk' ↔
      ∃ files, (∃ paths, SourceScan.find disk
          ⟨root, settings.ignoredDirs, settings.sourcePatterns,
            [Path.join root MatchCache.fileName, output]⟩ = .ok paths ∧
          SourceFile.loadAll disk root paths = .ok files) ∧
        Leads (next files) ⟨disk, notes⟩ value disk' := by
  unfold loadSources
  rw [bind_assoc, leads_look_bind]
  simp only [leads_look_bind]
  constructor
  · intro h
    rcases h with ⟨paths, hFind, files, hLoad, hNext⟩
    exact ⟨files, ⟨paths, hFind, hLoad⟩, hNext⟩
  · intro h
    rcases h with ⟨files, ⟨paths, hFind, hLoad⟩, hNext⟩
    exact ⟨paths, hFind, files, hLoad, hNext⟩

theorem leads_saveCache_bind {files : List SourceFile} {cache : Option MatchCache} {α : Type}
    {next : Unit → Work α} {value : α} {condition : Disk → Prop}
    (hNext : ∀ saved notes, Leads (next ()) ⟨saved, notes⟩ value disk' ↔ condition saved) :
    Leads (saveCache files cache >>= next) ⟨disk, notes⟩ value disk' ↔
      ∃ saved, Saves files cache disk saved ∧ condition saved := by
  cases cache with
  | none =>
      refine (hNext disk notes).trans ?_
      constructor
      · exact fun h => ⟨disk, rfl, h⟩
      · intro h
        rcases h with ⟨_, rfl, hCondition⟩
        exact hCondition
  | some cache =>
      unfold saveCache
      rw [bind_assoc]
      refine (tells_noteEvents _).leads_bind fun _ => ?_
      rw [bind_assoc, leads_change_bind]
      apply exists_congr
      intro saved
      apply and_congr_right
      intro _
      exact (tells_note _).leads_bind fun notes => hNext saved notes

end Steps

/-!
# The audit
-/

/-- An audit of this disk has this result and leaves the other disk. -/
def Audited (time : String) (arguments : UnusedArguments) (disk : Disk) (result : UnusedResult)
    (disk' : Disk) : Prop :=
  ∃ project flat files saved, Sees disk arguments project flat files ∧
    Saves files (searched disk arguments project flat files).cache disk saved ∧
    Report.write saved (outputOf project arguments)
      (Report.unusedText (.at time) (searched disk arguments project flat files).findings
        flat.warnings) = .ok disk' ∧
    result = ⟨(searched disk arguments project flat files).findings, flat.warnings, files.length,
      outputOf project arguments⟩

theorem leads_audit {time : String} {arguments : UnusedArguments} {disk disk' : Disk}
    {notes : List Note} {result : UnusedResult} :
    Leads (audit time arguments) ⟨disk, notes⟩ result disk' ↔
      Audited time arguments disk result disk' := by
  have hSteps : Leads (audit time arguments) ⟨disk, notes⟩ result disk' ↔
      ∃ project, Project.load disk = .ok project ∧
        ∃ catalog, catalogPath project arguments = .ok catalog ∧
        ∃ flat, Catalog.load disk catalog = .ok flat ∧
        ∃ files, (∃ paths, SourceScan.find disk (scanRequest project arguments) = .ok paths ∧
          SourceFile.loadAll disk (rootOf project arguments) paths = .ok files) ∧
        ∃ saved, Saves files (searched disk arguments project flat files).cache disk saved ∧
        ∃ written, Report.write saved (outputOf project arguments)
          (Report.unusedText (.at time) (searched disk arguments project flat files).findings
            flat.warnings) = .ok written ∧
        result = ⟨(searched disk arguments project flat files).findings, flat.warnings,
          files.length, outputOf project arguments⟩ ∧ disk' = written := by
    -- One step of the audit after the other. Those that only tell something drop out.
    unfold audit
    refine leads_look_bind.trans (exists_congr fun project => and_congr_right fun _ => ?_)
    refine leads_require_bind.trans (exists_congr fun catalog => and_congr_right fun _ => ?_)
    refine (tells_chooseDepth project arguments).leads_bind fun _ => ?_
    refine leads_note_if fun _ => ?_
    refine leads_look_bind.trans (exists_congr fun flat => and_congr_right fun _ => ?_)
    refine (tells_note _).leads_bind fun _ => ?_
    refine (tells_withoutIgnored _ _).leads_bind fun _ => ?_
    refine leads_loadSources_bind.trans (exists_congr fun files => and_congr_right fun _ => ?_)
    refine (tells_note _).leads_bind fun _ => ?_
    refine (tells_loadCache _ _).leads_bind fun _ => ?_
    refine (tells_noteEvents _).leads_bind fun _ => ?_
    refine (tells_note _).leads_bind fun _ => ?_
    refine leads_saveCache_bind fun saved _ => ?_
    refine leads_change_bind.trans (exists_congr fun written => and_congr_right fun _ => ?_)
    exact (tells_note _).leads_bind fun _ => leads_pure
  rw [hSteps]
  constructor
  · intro h
    rcases h with ⟨project, hProject, catalog, hCatalog, flat, hFlat, files, hFiles, saved, hSaves,
      written, hWrite, hResult, rfl⟩
    exact ⟨project, flat, files, saved, ⟨hProject, ⟨catalog, hCatalog, hFlat⟩, hFiles⟩, hSaves,
      hWrite, hResult⟩
  · intro h
    rcases h with ⟨project, flat, files, saved, ⟨hProject, ⟨catalog, hCatalog, hFlat⟩, hFiles⟩,
      hSaves, hWrite, hResult⟩
    exact ⟨project, hProject, catalog, hCatalog, flat, hFlat, files, hFiles, saved, hSaves, disk',
      hWrite, hResult, rfl⟩

theorem audited_iff {time : String} {arguments : UnusedArguments} {disk disk' : Disk}
    {result : UnusedResult} :
    Audited time arguments disk result disk' ↔
      (run time disk (.unused arguments)).result = .ok (.unused result) ∧
        (run time disk (.unused arguments)).disk = disk' := by
  rw [← @leads_audit time arguments disk disk' []]
  exact leads_iff_of_map rfl fun _ _ h => Summary.unused.inj h

theorem exists_audited_of_result {time : String} {arguments : UnusedArguments} {disk : Disk}
    {summary : Summary} (h : (run time disk (.unused arguments)).result = .ok summary) :
    ∃ result, Audited time arguments disk result (run time disk (.unused arguments)).disk := by
  rcases exists_leads_of_result rfl h with ⟨result, hAudit⟩
  exact ⟨result, leads_audit.mp hAudit⟩

theorem exists_audited_of_status {time : String} {arguments : UnusedArguments} {disk : Disk}
    (h : (run time disk (.unused arguments)).status ≠ .failure) :
    ∃ result, Audited time arguments disk result (run time disk (.unused arguments)).disk := by
  rcases exists_result_of_status h with ⟨summary, hResult⟩
  exact exists_audited_of_result hResult

/-!
# Failures

Each step that can fail is one way for the audit to fail. What comes before the cache only looks at
the disk, so there is something changed only if the report is what cannot be written.
-/

/-- An audit of this disk fails in this way and leaves the other disk. -/
inductive Fails (time : String) (arguments : UnusedArguments) (disk : Disk) :
    Failure → Disk → Prop
  | project {fault : Fault} (h : Project.load disk = .error fault) :
      Fails time arguments disk ⟨fault, none⟩ disk
  | catalogPath {project : Project} {fault : Fault}
      (hProject : Project.load disk = .ok project)
      (h : catalogPath project arguments = .error fault) :
      Fails time arguments disk ⟨fault, some .catalog⟩ disk
  | catalog {project : Project} {path : Path} {fault : Fault}
      (hProject : Project.load disk = .ok project)
      (hPath : catalogPath project arguments = .ok path)
      (h : Catalog.load disk path = .error fault) :
      Fails time arguments disk ⟨fault, some .catalog⟩ disk
  | scan {project : Project} {fault : Fault}
      (hProject : Project.load disk = .ok project)
      (h : SourceScan.find disk (scanRequest project arguments) = .error fault) :
      Fails time arguments disk ⟨fault, some .source⟩ disk
  | sources {project : Project} {paths : List Path} {fault : Fault}
      (hProject : Project.load disk = .ok project)
      (hFind : SourceScan.find disk (scanRequest project arguments) = .ok paths)
      (h : SourceFile.loadAll disk (rootOf project arguments) paths = .error fault) :
      Fails time arguments disk ⟨fault, some .source⟩ disk
  | cache {project : Project} {flat : FlatCatalog} {files : List SourceFile} {cache : MatchCache}
      {fault : Fault} (hSees : Sees disk arguments project flat files)
      (hCache : (searched disk arguments project flat files).cache = some cache)
      (h : (cache.keepOnly files).save disk = .error fault) :
      Fails time arguments disk ⟨fault, some .cache⟩ disk
  | report {project : Project} {flat : FlatCatalog} {files : List SourceFile} {saved : Disk}
      {fault : Fault} (hSees : Sees disk arguments project flat files)
      (hSaves : Saves files (searched disk arguments project flat files).cache disk saved)
      (h : Report.write saved (outputOf project arguments)
        (Report.unusedText (.at time) (searched disk arguments project flat files).findings
          flat.warnings) = .error fault) :
      Fails time arguments disk ⟨fault, some .report⟩ saved

theorem stops_saveCache_bind {disk disk' : Disk} {notes : List Note} {failure : Failure}
    {files : List SourceFile} {cache : Option MatchCache} {α : Type} {next : Unit → Work α}
    (h : Stops (saveCache files cache >>= next) ⟨disk, notes⟩ failure disk') :
    (∃ cache', cache = some cache' ∧ ∃ fault, (cache'.keepOnly files).save disk = .error fault ∧
        failure = ⟨fault, some .cache⟩ ∧ disk' = disk) ∨
      ∃ saved notes, Saves files cache disk saved ∧
        Stops (next ()) ⟨saved, notes⟩ failure disk' := by
  cases cache with
  | none => exact Or.inr ⟨disk, notes, rfl, h⟩
  | some cache =>
      unfold saveCache at h
      rw [bind_assoc] at h
      rcases (tells_noteEvents _).exists_stops h with ⟨_, h⟩
      rw [bind_assoc] at h
      rcases stops_change_bind.mp h with hFault | ⟨saved, hSaved, h⟩
      · exact Or.inl ⟨cache, rfl, hFault⟩
      rcases (tells_note _).exists_stops h with ⟨notes, h⟩
      exact Or.inr ⟨saved, notes, hSaved, h⟩

theorem fails_of_stops {time : String} {arguments : UnusedArguments} {disk disk' : Disk}
    {notes : List Note} {failure : Failure}
    (h : Stops (audit time arguments) ⟨disk, notes⟩ failure disk') :
    Fails time arguments disk failure disk' := by
  unfold audit at h
  rcases stops_look_bind.mp h with ⟨fault, hFault, rfl, rfl⟩ | ⟨project, hProject, h⟩
  · exact .project hFault
  rcases stops_require_bind.mp h with ⟨fault, hFault, rfl, rfl⟩ | ⟨catalog, hCatalog, h⟩
  · exact .catalogPath hProject hFault
  rcases (tells_chooseDepth project arguments).exists_stops h with ⟨_, h⟩
  rcases exists_stops_of_note_if h with ⟨_, h⟩
  rcases stops_look_bind.mp h with ⟨fault, hFault, rfl, rfl⟩ | ⟨flat, hFlat, h⟩
  · exact .catalog hProject hCatalog hFault
  rcases (tells_note _).exists_stops h with ⟨_, h⟩
  rcases (tells_withoutIgnored _ _).exists_stops h with ⟨_, h⟩
  unfold loadSources at h
  rw [bind_assoc] at h
  rcases stops_look_bind.mp h with ⟨fault, hFault, rfl, rfl⟩ | ⟨paths, hFind, h⟩
  · exact .scan hProject hFault
  rcases stops_look_bind.mp h with ⟨fault, hFault, rfl, rfl⟩ | ⟨files, hFiles, h⟩
  · exact .sources hProject hFind hFault
  have hSees : Sees disk arguments project flat files :=
    ⟨hProject, ⟨catalog, hCatalog, hFlat⟩, ⟨paths, hFind, hFiles⟩⟩
  rcases (tells_note _).exists_stops h with ⟨_, h⟩
  rcases (tells_loadCache _ _).exists_stops h with ⟨_, h⟩
  rcases (tells_noteEvents _).exists_stops h with ⟨_, h⟩
  rcases (tells_note _).exists_stops h with ⟨_, h⟩
  rcases stops_saveCache_bind h with ⟨cache, hCache, fault, hFault, rfl, rfl⟩ |
    ⟨saved, _, hSaves, h⟩
  · exact .cache hSees hCache hFault
  rcases stops_change_bind.mp h with ⟨fault, hFault, rfl, rfl⟩ | ⟨written, _, h⟩
  · exact .report hSees hSaves hFault
  rcases (tells_note _).exists_stops h with ⟨_, h⟩
  exact absurd h not_stops_pure

theorem fails_of_result {time : String} {arguments : UnusedArguments} {disk : Disk}
    {failure : Failure} (h : (run time disk (.unused arguments)).result = .error failure) :
    Fails time arguments disk failure (run time disk (.unused arguments)).disk := by
  exact fails_of_stops (stops_of_result rfl h)

end UnusedKeys
end Audit
end CatalogAudit
