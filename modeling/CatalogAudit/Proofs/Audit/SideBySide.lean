import CatalogAudit.Proofs.Audit.TranslationGaps
import CatalogAudit.Proofs.Audit.UnusedKeys
import CatalogAudit.Proofs.FileTree.Asked
import CatalogAudit.Proofs.Usage.CacheEffect
import CatalogAudit.Proofs.Usage.CanonicalFile

/-!
# Work on two disks

Work goes side by side on two disks if it has the same result and the same notes on both and leaves
the disks as related as they were. An audit does so if what it reads is the same on related disks,
and if what it writes keeps them related.
-/

namespace CatalogAudit
namespace Audit

open CommandLine (Command UnusedArguments UntranslatedArguments)
open FileTree (Disk)
open FileTree.Disk (SameChange)

/-!
# Sessions side by side
-/

structure Parallel (Related : Disk → Disk → Prop) (session other : Session) : Prop where
  notes : other.notes = session.notes
  disks : Related session.disk other.disk

namespace Work

/-- In both sessions the work has the same result, and it leaves them side by side. -/
structure Parallels (Related : Disk → Disk → Prop) (work : Work α) (session other : Session) :
    Prop where
  result : (work.run.run other).1 = (work.run.run session).1
  sessions : Parallel Related (work.run.run session).2 (work.run.run other).2

section Steps

variable {α β : Type} {Related : Disk → Disk → Prop} {session other : Session}

theorem Parallels.bind {work : Work α} {next : α → Work β}
    (h : Parallels Related work session other)
    (hNext : ∀ inner middle middle', Ends work session inner middle →
      Parallel Related middle middle' → Parallels Related (next inner) middle middle') :
    Parallels Related (work >>= next) session other := by
  rcases h with ⟨hResult, hSessions⟩
  cases hWork : work.run.run session with
  | mk result middle =>
      cases hOther : work.run.run other with
      | mk result' middle' =>
          rw [hWork, hOther] at hResult hSessions
          cases hResult
          cases result with
          | ok inner =>
              have hRest := hNext inner middle middle' hWork hSessions
              constructor
              · simp only [run_bind, hWork, hOther]
                exact hRest.result
              · simp only [run_bind, hWork, hOther]
                exact hRest.sessions
          | error failure =>
              constructor
              · simp only [run_bind, hWork, hOther]
              · simp only [run_bind, hWork, hOther]
                exact hSessions

variable (h : Parallel Related session other)
include h

theorem parallels_pure (value : α) : Parallels Related (pure value) session other :=
  ⟨rfl, h⟩

omit h in
theorem Parallels.map {work : Work α} (h : Parallels Related work session other) (f : α → β) :
    Parallels Related (f <$> work) session other := by
  rw [map_eq_pure_bind]
  exact h.bind fun value _ _ _ hAfter => parallels_pure hAfter (f value)

theorem parallels_note (progress : Progress) :
    Parallels Related (note progress) session other :=
  ⟨rfl, congrArg (· ++ [Note.progress progress]) h.notes, h.disks⟩

theorem parallels_noteEvents (events : List Event) :
    Parallels Related (noteEvents events) session other :=
  ⟨rfl, congrArg (· ++ events.map Note.event) h.notes, h.disks⟩

theorem parallels_require_bind {advice : Option Advice} {result : Except Fault α}
    {next : α → Work β}
    (hNext : ∀ value, result = .ok value → Parallels Related (next value) session other) :
    Parallels Related (require advice result >>= next) session other := by
  cases result with
  | ok value => exact hNext value rfl
  | error fault => exact ⟨rfl, h⟩

theorem parallels_note_if {c : Prop} [Decidable c] {progress : Progress} {next : Unit → Work β}
    (hNext : ∀ {session other}, Parallel Related session other →
      Parallels Related (next ()) session other) :
    Parallels Related (if c then note progress >>= next else next ()) session other := by
  split
  · exact (parallels_note h progress).bind fun _ _ _ _ hMiddle => hNext hMiddle
  · exact hNext h

omit h in
theorem parallels_get_bind {next : Session → Work β} (hSame : next other = next session)
    (hNext : Parallels Related (next session) session other) :
    Parallels Related (get >>= next) session other := by
  have hRun : ∀ session, (get >>= next).run.run session = (next session).run.run session :=
    fun session => run_bind get next
  constructor
  · rw [hRun, hRun, hSame]
    exact hNext.result
  · rw [hRun, hRun, hSame]
    exact hNext.sessions

theorem parallels_look_bind {advice : Option Advice} {question : Disk → Except Fault α}
    {next : α → Work β} (hSame : question other.disk = question session.disk)
    (hNext : ∀ value, question session.disk = .ok value →
      Parallels Related (next value) session other) :
    Parallels Related (look advice question >>= next) session other := by
  unfold look
  rw [bind_assoc]
  apply parallels_get_bind
  · rw [hSame]
  · exact parallels_require_bind h hNext

theorem parallels_look {advice : Option Advice} {question : Disk → Except Fault α}
    (hSame : question other.disk = question session.disk) :
    Parallels Related (look advice question) session other := by
  rw [← bind_pure (look advice question)]
  exact parallels_look_bind h hSame fun value _ => parallels_pure h value

end Steps

theorem run_change (advice : Option Advice) (action : Disk → Except Fault Disk)
    (session : Session) :
    (change advice action).run.run session =
      match action session.disk with
      | .ok changed => (.ok (), ⟨changed, session.notes⟩)
      | .error fault => (.error ⟨fault, advice⟩, session) := by
  have hGet : (get : Work Session).run.run session = (.ok session, session) := rfl
  unfold change look
  rw [run_bind, run_bind]
  simp only [hGet]
  cases action session.disk with
  | ok changed => rfl
  | error fault => rfl

theorem parallels_change {Related : Disk → Disk → Prop} {session other : Session}
    (h : Parallel Related session other) {advice : Option Advice}
    {action : Disk → Except Fault Disk}
    (hSame : SameChange Related (action session.disk) (action other.disk)) :
    Parallels Related (change advice action) session other := by
  generalize hResult : action session.disk = result at hSame
  generalize hResult' : action other.disk = result' at hSame
  cases hSame with
  | error fault =>
      constructor
      · simp only [run_change, hResult, hResult']
      · simp only [run_change, hResult, hResult']
        exact h
  | ok hRelated =>
      constructor
      · simp only [run_change, hResult, hResult']
      · simp only [run_change, hResult, hResult']
        exact ⟨h.notes, hRelated⟩

end Work

/-!
# Audits side by side
-/

/-- The same fault, or projects that differ at most in where their settings come from. -/
inductive SameProject : Except Fault Project → Except Fault Project → Prop where
  | error (fault : Fault) : SameProject (.error fault) (.error fault)
  | ok (settings : Settings) (file file' : Option Path) (directory : Path) :
      SameProject (.ok ⟨settings, file, directory⟩) (.ok ⟨settings, file', directory⟩)

theorem SameProject.refl (result : Except Fault Project) : SameProject result result := by
  cases result with
  | error fault => exact .error fault
  | ok project => exact .ok project.settings project.file project.file project.directory

open Work

theorem parallels_loadProject_bind {α : Type} {Related : Disk → Disk → Prop}
    {session other : Session} (h : Parallel Related session other)
    (hProject : SameProject (Project.load session.disk)
      (Project.load other.disk)) {next : Project → Work α}
    (hFile : ∀ settings file file' directory,
      next ⟨settings, file', directory⟩ = next ⟨settings, file, directory⟩)
    (hNext : ∀ project, Project.load session.disk = .ok project →
      Parallels Related (next project) session other) :
    Parallels Related (look none Project.load >>= next)
      session other := by
  unfold look
  rw [bind_assoc]
  generalize hResult : Project.load session.disk = result at hProject hNext
  generalize hResult' : Project.load other.disk = result' at hProject
  apply parallels_get_bind
  · simp only [hResult, hResult']
    cases hProject with
    | error fault => rfl
    | ok settings file file' directory => exact hFile settings file file' directory
  · simp only [hResult]
    exact parallels_require_bind h hNext

namespace UnusedKeys

variable {Related : Disk → Disk → Prop} {session other : Session} {project : Project}
  {arguments : UnusedArguments}

/-- To an audit related disks show the same, and they stay related by what it writes. -/
structure SeesSame (Related : Disk → Disk → Prop) (project : Project)
    (arguments : UnusedArguments) : Prop where
  catalog : ∀ {disk disk'}, Related disk disk' → ∀ path, catalogPath project arguments = .ok path →
    Catalog.load disk' path = Catalog.load disk path
  ignoreList : ∀ {disk disk'}, Related disk disk' →
    ∀ path, ignoreListPath? project arguments = some path →
      IgnoreList.read disk' path = IgnoreList.read disk path
  found : ∀ {disk disk'}, Related disk disk' →
    SourceScan.find disk' (scanRequest project arguments) =
      SourceScan.find disk (scanRequest project arguments)
  sources : ∀ {disk disk'}, Related disk disk' →
    ∀ paths, SourceScan.find disk (scanRequest project arguments) = .ok paths →
      SourceFile.loadAll disk' (rootOf project arguments) paths =
        SourceFile.loadAll disk (rootOf project arguments) paths
  records : ∀ {disk disk'}, Related disk disk' → isCached project arguments = true →
    MatchCache.readRecords disk' (cachePathOf project arguments) =
      MatchCache.readRecords disk (cachePathOf project arguments)
  save : ∀ {disk disk'}, Related disk disk' → isCached project arguments = true →
    ∀ cache : MatchCache, cache.path = cachePathOf project arguments →
      SameChange Related (cache.save disk) (cache.save disk')
  report : ∀ {disk disk'}, Related disk disk' → ∀ text,
    SameChange Related (Report.write disk (outputOf project arguments) text)
      (Report.write disk' (outputOf project arguments) text)

theorem parallels_chooseDepth (h : Parallel Related session other) :
    Parallels Related (chooseDepth project arguments) session other := by
  unfold chooseDepth
  cases DepthBound.choose arguments.depth project.settings.maxDepth with
  | mk depth fault =>
      have hFull : ∀ {session other}, Parallel Related session other → Parallels Related
          (if depth = .unbounded then do
            let _ ← note .fullDepth
            pure depth
          else pure depth) session other := by
        intro session other h
        split
        · exact (parallels_note h _).bind fun _ _ _ _ hMiddle => parallels_pure hMiddle depth
        · exact parallels_pure h depth
      cases fault with
      | none => exact hFull h
      | some fault => exact (parallels_note h _).bind fun _ _ _ _ hMiddle => hFull hMiddle

theorem parallels_withoutIgnored (h : Parallel Related session other) {path : Option Path}
    (hSame : ∀ given, path = some given →
      IgnoreList.read other.disk given = IgnoreList.read session.disk given) (keys : KeySet) :
    Parallels Related (withoutIgnored path keys) session other := by
  cases path with
  | none => exact parallels_pure h keys
  | some path =>
      apply parallels_get_bind
      · simp only [hSame path rfl]
      · cases IgnoreList.read session.disk path with
        | ok prefixes =>
            exact (parallels_note h _).bind fun _ _ _ _ hMiddle => parallels_pure hMiddle _
        | error fault =>
            exact (parallels_note h _).bind fun _ _ _ _ hMiddle => parallels_pure hMiddle keys

theorem parallels_loadSources (h : Parallel Related session other)
    (hFound : SourceScan.find other.disk (scanRequest project arguments) =
      SourceScan.find session.disk (scanRequest project arguments))
    (hSources : ∀ paths, SourceScan.find session.disk (scanRequest project arguments) = .ok paths →
      SourceFile.loadAll other.disk (rootOf project arguments) paths =
        SourceFile.loadAll session.disk (rootOf project arguments) paths) :
    Parallels Related (loadSources project.settings (rootOf project arguments)
      (outputOf project arguments)) session other :=
  parallels_look_bind h hFound fun paths hPaths => parallels_look h (hSources paths hPaths)

theorem parallels_loadCache (h : Parallel Related session other) {isEnabled : Bool} {root : Path}
    (hSame : isEnabled = true →
      MatchCache.readRecords other.disk (Path.join root MatchCache.fileName) =
        MatchCache.readRecords session.disk (Path.join root MatchCache.fileName)) :
    Parallels Related (loadCache isEnabled root) session other := by
  cases isEnabled with
  | false =>
      exact (parallels_noteEvents h _).bind fun _ _ _ _ hMiddle => parallels_pure hMiddle none
  | true =>
      apply parallels_get_bind
      · have hLoad : MatchCache.load other.disk root = MatchCache.load session.disk root := by
          unfold MatchCache.load
          simp only [hSame rfl]
        have hEvents : MatchCache.loadEvents other.disk root =
            MatchCache.loadEvents session.disk root := by
          unfold MatchCache.loadEvents
          simp only [hSame rfl]
        simp only [hLoad, hEvents]
      · refine (parallels_noteEvents h _).bind fun _ _ _ _ hFirst => ?_
        exact (parallels_noteEvents hFirst _).bind fun _ _ _ _ hLast => parallels_pure hLast _

theorem parallels_saveCache (h : Parallel Related session other) (files : List SourceFile)
    {cache : Option MatchCache}
    (hSave : ∀ {disk disk'}, Related disk disk' → ∀ known, cache = some known →
      SameChange Related ((known.keepOnly files).save disk) ((known.keepOnly files).save disk')) :
    Parallels Related (saveCache files cache) session other := by
  cases cache with
  | none => exact parallels_pure h ()
  | some cache =>
      refine (parallels_noteEvents h _).bind fun _ _ _ _ hFirst => ?_
      refine (parallels_change hFirst (hSave hFirst.disks cache rfl)).bind fun _ _ _ _ hLast => ?_
      exact parallels_note hLast _

/-- A cache that comes out of a search is kept where the one was that went in. -/
theorem path_of_run {depth : DepthBound} {keys : KeySet} {files : List SourceFile}
    {disk : Disk} {isEnabled : Bool} {root : Path} {known : MatchCache}
    (h : (Usage.run depth keys files (cacheAt disk isEnabled root)).cache = some known) :
    isEnabled = true ∧ known.path = Path.join root MatchCache.fileName := by
  cases isEnabled with
  | false => cases (Usage.cache_run_none depth keys files).symm.trans h
  | true =>
      rcases Usage.exists_cache_run depth keys files (MatchCache.load disk root) with
        ⟨after, hAfter, hPath, _⟩
      cases hAfter.symm.trans h
      exact ⟨rfl, by rw [hPath, MatchCache.path_load]⟩

theorem parallels_audit {time : String} (h : Parallel Related session other)
    (hProject : SameProject (Project.load session.disk)
      (Project.load other.disk))
    (hSame : ∀ project, Project.load session.disk = .ok project →
      SeesSame Related project arguments) :
    Parallels Related (audit time arguments) session other := by
  unfold audit
  refine parallels_loadProject_bind h hProject ?_ fun project hLoad => ?_
  · intro settings file file' directory
    rfl
  have hSees := hSame project hLoad
  refine parallels_require_bind h fun catalog hCatalog => ?_
  refine (parallels_chooseDepth h).bind fun depth _ _ _ h => parallels_note_if h fun h => ?_
  refine parallels_look_bind h (hSees.catalog h.disks catalog hCatalog) fun flat _ => ?_
  refine (parallels_note h _).bind fun _ _ _ _ h => ?_
  refine (parallels_withoutIgnored h (hSees.ignoreList h.disks) _).bind fun keys _ _ _ h => ?_
  refine (parallels_loadSources h (hSees.found h.disks) (hSees.sources h.disks)).bind
    fun files _ _ _ h => ?_
  refine (parallels_note h _).bind fun _ _ _ _ h => ?_
  refine (parallels_loadCache h (hSees.records h.disks)).bind fun cache _ _ hCache h => ?_
  rcases tells_loadCache (isCached project arguments) (rootOf project arguments) with ⟨_, hTells⟩
  cases hTells.symm.trans hCache
  refine (parallels_noteEvents h _).bind fun _ _ _ _ h => ?_
  refine (parallels_note h _).bind fun _ _ _ _ h => ?_
  refine (parallels_saveCache h files ?_).bind fun _ _ _ _ h => ?_
  · intro disk disk' hRelated known hKnown
    rcases path_of_run hKnown with ⟨hCached, hPath⟩
    exact hSees.save hRelated hCached (known.keepOnly files) hPath
  refine (parallels_change h (hSees.report h.disks _)).bind fun _ _ _ _ h => ?_
  exact (parallels_note h _).bind fun _ _ _ _ h => parallels_pure h _

end UnusedKeys

namespace TranslationGaps

theorem parallels_audit {Related : Disk → Disk → Prop} {session other : Session} {time : String}
    {arguments : UntranslatedArguments} (h : Parallel Related session other)
    (hProject : SameProject (Project.load session.disk)
      (Project.load other.disk))
    (hLocales : ∀ project, Project.load session.disk = .ok project →
      Locale.loadAll other.disk (directoryOf project arguments) =
        Locale.loadAll session.disk (directoryOf project arguments))
    (hReport : ∀ project, Project.load session.disk = .ok project →
      ∀ {disk disk'}, Related disk disk' → ∀ text,
        SameChange Related (Report.write disk (outputOf project arguments) text)
          (Report.write disk' (outputOf project arguments) text)) :
    Parallels Related (audit time arguments) session other := by
  unfold audit
  refine parallels_loadProject_bind h hProject ?_ fun project hLoad => ?_
  · intro settings file file' directory
    rfl
  refine parallels_require_bind h fun _ _ => ?_
  refine parallels_look_bind h (hLocales project hLoad) fun locales _ => ?_
  refine (parallels_note h _).bind fun _ _ _ _ h => ?_
  refine parallels_require_bind h fun gaps _ => ?_
  refine (parallels_note h _).bind fun _ _ _ _ h => ?_
  refine (parallels_change h (hReport project hLoad h.disks _)).bind fun _ _ _ _ h => ?_
  exact (parallels_note h _).bind fun _ _ _ _ h => parallels_pure h _

end TranslationGaps

/-!
# Runs side by side
-/

/-- The outcomes show the same, and their disks are related. -/
structure SameOutcome (Related : Disk → Disk → Prop) (first second : Outcome) : Prop where
  notes : second.notes = first.notes
  result : second.result = first.result
  status : second.status = first.status
  disks : Related first.disk second.disk

theorem sameOutcome_run {Related : Disk → Disk → Prop} {time : String} {disk disk' : Disk}
    {command : Command}
    (h : Parallels Related (perform time command) ⟨disk, []⟩ ⟨disk', []⟩) :
    SameOutcome Related (run time disk command) (run time disk' command) where
  notes := h.sessions.notes
  result := h.result
  status := congrArg (statusOf (isStrict command)) h.result
  disks := h.sessions.disks

end Audit
end CatalogAudit
