import CatalogAudit.Audit.Outcome

/-!
# How work ends

Work that ends well has a value and leaves a disk. Each of the few steps that work is made of has
one lemma about them, and the notes that are taken on the way make no difference.
-/

namespace CatalogAudit
namespace Audit
namespace Work

open FileTree (Disk)

/-!
# Runs
-/

def Ends (work : Work α) (session : Session) (value : α) (session' : Session) : Prop :=
  work.run.run session = (.ok value, session')

section Runs

variable {α β : Type} {session session' : Session}

theorem run_bind (work : Work α) (next : α → Work β) :
    (work >>= next).run.run session =
      match work.run.run session with
      | (.ok inner, middle) => (next inner).run.run middle
      | (.error failure, middle) => (.error failure, middle) := by
  rw [ExceptT.run_bind, StateT.run_bind]
  cases hWork : work.run.run session with
  | mk result middle =>
      cases result with
      | ok inner => rfl
      | error failure => rfl

theorem ends_bind {work : Work α} {next : α → Work β} {value : β} :
    Ends (work >>= next) session value session' ↔
      ∃ inner middle, Ends work session inner middle ∧ Ends (next inner) middle value session' := by
  unfold Ends
  rw [run_bind]
  cases work.run.run session with
  | mk result middle =>
      cases result with
      | ok inner =>
          constructor
          · exact fun h => ⟨inner, middle, rfl, h⟩
          · intro h
            rcases h with ⟨_, _, hFirst, hNext⟩
            cases hFirst
            exact hNext
      | error failure =>
          constructor
          · intro h
            cases h
          · intro h
            rcases h with ⟨_, _, hFirst, _⟩
            cases hFirst

end Runs

/-!
# Values and disks
-/

/-- The work ends with the value and leaves this disk. -/
def Leads (work : Work α) (session : Session) (value : α) (disk : Disk) : Prop :=
  ∃ notes, Ends work session value ⟨disk, notes⟩

/-- The work ends with the value and leaves the disk as it is. -/
def Tells (work : Work α) (session : Session) (value : α) : Prop :=
  Leads work session value session.disk

section Leading

variable {α β : Type} {session : Session} {disk disk' : Disk} {notes : List Note}

theorem leads_bind {work : Work α} {next : α → Work β} {value : β} :
    Leads (work >>= next) session value disk' ↔
      ∃ inner disk notes, Ends work session inner ⟨disk, notes⟩ ∧
        Leads (next inner) ⟨disk, notes⟩ value disk' := by
  unfold Leads
  constructor
  · intro h
    rcases h with ⟨notes', hEnds⟩
    rcases ends_bind.mp hEnds with ⟨inner, ⟨disk, notes⟩, hWork, hNext⟩
    exact ⟨inner, disk, notes, hWork, notes', hNext⟩
  · intro h
    rcases h with ⟨inner, disk, notes, hWork, notes', hNext⟩
    exact ⟨notes', ends_bind.mpr ⟨inner, ⟨disk, notes⟩, hWork, hNext⟩⟩

theorem Tells.leads_bind {work : Work α} {inner : α} (h : Tells work ⟨disk, notes⟩ inner)
    {next : α → Work β} {value : β} {condition : Prop}
    (hNext : ∀ notes, Leads (next inner) ⟨disk, notes⟩ value disk' ↔ condition) :
    Leads (work >>= next) ⟨disk, notes⟩ value disk' ↔ condition := by
  rcases h with ⟨middle, hWork⟩
  rw [Work.leads_bind, ← hNext middle]
  constructor
  · intro h
    rcases h with ⟨other, otherDisk, otherNotes, hEnds, hRest⟩
    cases hWork.symm.trans hEnds
    exact hRest
  · intro h
    exact ⟨inner, disk, middle, hWork, h⟩

theorem tells_pure (value : α) : Tells (pure value) session value :=
  ⟨session.notes, rfl⟩

theorem tells_note (progress : Progress) : Tells (note progress) session () :=
  ⟨session.notes ++ [Note.progress progress], rfl⟩

theorem tells_noteEvents (events : List Event) : Tells (noteEvents events) session () :=
  ⟨session.notes ++ events.map Note.event, rfl⟩

theorem Tells.bind {work : Work α} {inner : α} (h : Tells work ⟨disk, notes⟩ inner)
    {next : α → Work β} {value : β} (hNext : ∀ notes, Tells (next inner) ⟨disk, notes⟩ value) :
    Tells (work >>= next) ⟨disk, notes⟩ value := by
  rcases h with ⟨middle, hWork⟩
  exact Work.leads_bind.mpr ⟨inner, disk, middle, hWork, hNext middle⟩

theorem leads_pure {value value' : α} :
    Leads (pure value) ⟨disk, notes⟩ value' disk' ↔ value' = value ∧ disk' = disk := by
  constructor
  · intro h
    rcases h with ⟨_, hEnds⟩
    cases hEnds
    exact ⟨rfl, rfl⟩
  · intro h
    rcases h with ⟨rfl, rfl⟩
    exact ⟨notes, rfl⟩

theorem leads_map {work : Work α} {f : α → β} {value : β} :
    Leads (f <$> work) session value disk' ↔
      ∃ inner, Leads work session inner disk' ∧ value = f inner := by
  rw [map_eq_pure_bind, leads_bind]
  simp only [leads_pure]
  constructor
  · intro h
    rcases h with ⟨inner, _, notes, hWork, rfl, rfl⟩
    exact ⟨inner, ⟨notes, hWork⟩, rfl⟩
  · intro h
    rcases h with ⟨inner, ⟨notes, hWork⟩, rfl⟩
    exact ⟨inner, disk', notes, hWork, rfl, rfl⟩

theorem leads_require_bind {advice : Option Advice} {result : Except Fault α}
    {next : α → Work β} {value : β} :
    Leads (require advice result >>= next) ⟨disk, notes⟩ value disk' ↔
      ∃ inner, result = .ok inner ∧ Leads (next inner) ⟨disk, notes⟩ value disk' := by
  rw [leads_bind]
  cases result with
  | ok inner =>
      constructor
      · intro h
        rcases h with ⟨_, _, _, hWork, hNext⟩
        cases hWork
        exact ⟨inner, rfl, hNext⟩
      · intro h
        rcases h with ⟨_, hInner, hNext⟩
        cases hInner
        exact ⟨inner, disk, notes, rfl, hNext⟩
  | error fault =>
      constructor
      · intro h
        rcases h with ⟨_, _, _, hWork, _⟩
        cases hWork
      · intro h
        rcases h with ⟨_, hInner, _⟩
        cases hInner

theorem leads_get_bind {next : Session → Work β} {value : β} :
    Leads (get >>= next) session value disk' ↔ Leads (next session) session value disk' := by
  rw [leads_bind]
  constructor
  · intro h
    rcases h with ⟨_, _, _, hWork, hNext⟩
    cases hWork
    exact hNext
  · intro h
    exact ⟨session, session.disk, session.notes, rfl, h⟩

theorem leads_look_bind {advice : Option Advice} {question : Disk → Except Fault α}
    {next : α → Work β} {value : β} :
    Leads (look advice question >>= next) ⟨disk, notes⟩ value disk' ↔
      ∃ inner, question disk = .ok inner ∧ Leads (next inner) ⟨disk, notes⟩ value disk' := by
  unfold look
  rw [bind_assoc, leads_get_bind, leads_require_bind]

theorem leads_change_bind {advice : Option Advice} {action : Disk → Except Fault Disk}
    {next : Unit → Work β} {value : β} :
    Leads (change advice action >>= next) ⟨disk, notes⟩ value disk' ↔
      ∃ changed, action disk = .ok changed ∧
        Leads (next ()) ⟨changed, notes⟩ value disk' := by
  unfold change
  rw [bind_assoc, leads_look_bind]
  apply exists_congr
  intro changed
  apply and_congr_right
  intro _
  rw [leads_bind]
  constructor
  · intro h
    rcases h with ⟨_, _, _, hWork, hNext⟩
    cases hWork
    exact hNext
  · intro h
    exact ⟨(), changed, notes, rfl, h⟩

theorem leads_note_if {c : Prop} [Decidable c] {progress : Progress} {next : Unit → Work β}
    {value : β} {condition : Prop}
    (hNext : ∀ notes, Leads (next ()) ⟨disk, notes⟩ value disk' ↔ condition) :
    Leads (if c then note progress >>= next else next ()) ⟨disk, notes⟩ value disk' ↔
      condition := by
  split
  · exact (tells_note progress).leads_bind hNext
  · exact hNext notes

end Leading

/-!
# Failures
-/

/-- The work ends with the failure and leaves this disk. -/
def Stops (work : Work α) (session : Session) (failure : Failure) (disk : Disk) : Prop :=
  ∃ notes, work.run.run session = (.error failure, ⟨disk, notes⟩)

section Stopping

variable {α β : Type} {session : Session} {disk disk' : Disk} {notes : List Note}
  {failure : Failure}

theorem stops_bind {work : Work α} {next : α → Work β} :
    Stops (work >>= next) session failure disk' ↔
      Stops work session failure disk' ∨
        ∃ inner middle, Ends work session inner middle ∧
          Stops (next inner) middle failure disk' := by
  unfold Stops Ends
  simp only [run_bind]
  cases work.run.run session with
  | mk result middle =>
      cases result with
      | ok inner =>
          constructor
          · exact fun h => Or.inr ⟨inner, middle, rfl, h⟩
          · intro h
            rcases h with ⟨_, hFirst⟩ | ⟨_, _, hFirst, hNext⟩
            · cases hFirst
            · cases hFirst
              exact hNext
      | error fault =>
          constructor
          · intro h
            rcases h with ⟨notes, hFirst⟩
            cases hFirst
            exact Or.inl ⟨notes, rfl⟩
          · intro h
            rcases h with ⟨notes, hFirst⟩ | ⟨_, _, hFirst, _⟩
            · cases hFirst
              exact ⟨notes, rfl⟩
            · cases hFirst

theorem not_stops_pure {value : α} : ¬Stops (pure value : Work α) session failure disk' := by
  intro h
  rcases h with ⟨_, hStops⟩
  cases hStops

theorem Tells.exists_stops {work : Work α} {inner : α} (h : Tells work ⟨disk, notes⟩ inner)
    {next : α → Work β} (hStops : Stops (work >>= next) ⟨disk, notes⟩ failure disk') :
    ∃ notes, Stops (next inner) ⟨disk, notes⟩ failure disk' := by
  rcases h with ⟨middle, hWork⟩
  refine ⟨middle, ?_⟩
  rcases stops_bind.mp hStops with ⟨_, hFirst⟩ | ⟨_, _, hEnds, hRest⟩
  · cases hWork.symm.trans hFirst
  · cases hWork.symm.trans hEnds
    exact hRest

theorem exists_stops_of_note_if {c : Prop} [Decidable c] {progress : Progress}
    {next : Unit → Work β}
    (h : Stops (if c then note progress >>= next else next ()) ⟨disk, notes⟩ failure disk') :
    ∃ notes, Stops (next ()) ⟨disk, notes⟩ failure disk' := by
  split at h
  · exact (tells_note progress).exists_stops h
  · exact ⟨notes, h⟩

theorem stops_map {work : Work α} {f : α → β} :
    Stops (f <$> work) session failure disk' ↔ Stops work session failure disk' := by
  rw [map_eq_pure_bind, stops_bind]
  constructor
  · intro h
    rcases h with hWork | ⟨_, _, _, hPure⟩
    · exact hWork
    · exact absurd hPure not_stops_pure
  · exact Or.inl

theorem stops_require_bind {advice : Option Advice} {result : Except Fault α}
    {next : α → Work β} :
    Stops (require advice result >>= next) ⟨disk, notes⟩ failure disk' ↔
      (∃ fault, result = .error fault ∧ failure = ⟨fault, advice⟩ ∧ disk' = disk) ∨
        ∃ inner, result = .ok inner ∧ Stops (next inner) ⟨disk, notes⟩ failure disk' := by
  rw [stops_bind]
  cases result with
  | ok inner =>
      constructor
      · intro h
        rcases h with hPure | ⟨_, _, hEnds, hNext⟩
        · exact absurd hPure not_stops_pure
        · cases hEnds
          exact Or.inr ⟨inner, rfl, hNext⟩
      · intro h
        rcases h with ⟨_, hFault, _⟩ | ⟨_, hInner, hNext⟩
        · cases hFault
        · cases hInner
          exact Or.inr ⟨inner, ⟨disk, notes⟩, rfl, hNext⟩
  | error fault =>
      constructor
      · intro h
        rcases h with ⟨_, hThrow⟩ | ⟨_, _, hEnds, _⟩
        · cases hThrow
          exact Or.inl ⟨fault, rfl, rfl, rfl⟩
        · cases hEnds
      · intro h
        rcases h with ⟨_, hFault, rfl, rfl⟩ | ⟨_, hInner, _⟩
        · cases hFault
          exact Or.inl ⟨notes, rfl⟩
        · cases hInner

theorem stops_get_bind {next : Session → Work β} :
    Stops (get >>= next) session failure disk' ↔ Stops (next session) session failure disk' := by
  rw [stops_bind]
  constructor
  · intro h
    rcases h with ⟨_, hGet⟩ | ⟨_, _, hEnds, hNext⟩
    · cases hGet
    · cases hEnds
      exact hNext
  · exact fun h => Or.inr ⟨session, session, rfl, h⟩

theorem stops_look_bind {advice : Option Advice} {question : Disk → Except Fault α}
    {next : α → Work β} :
    Stops (look advice question >>= next) ⟨disk, notes⟩ failure disk' ↔
      (∃ fault, question disk = .error fault ∧ failure = ⟨fault, advice⟩ ∧ disk' = disk) ∨
        ∃ inner, question disk = .ok inner ∧
          Stops (next inner) ⟨disk, notes⟩ failure disk' := by
  unfold look
  rw [bind_assoc, stops_get_bind, stops_require_bind]

theorem stops_change_bind {advice : Option Advice} {action : Disk → Except Fault Disk}
    {next : Unit → Work β} :
    Stops (change advice action >>= next) ⟨disk, notes⟩ failure disk' ↔
      (∃ fault, action disk = .error fault ∧ failure = ⟨fault, advice⟩ ∧ disk' = disk) ∨
        ∃ changed, action disk = .ok changed ∧
          Stops (next ()) ⟨changed, notes⟩ failure disk' := by
  unfold change
  rw [bind_assoc, stops_look_bind]
  refine or_congr_right (exists_congr fun changed => and_congr_right fun _ => ?_)
  rw [stops_bind]
  constructor
  · intro h
    rcases h with ⟨_, hModify⟩ | ⟨_, _, hEnds, hNext⟩
    · cases hModify
    · cases hEnds
      exact hNext
  · exact fun h => Or.inr ⟨(), ⟨changed, notes⟩, rfl, h⟩

end Stopping

end Work

/-!
# Outcomes
-/

open CommandLine (Command)
open FileTree (Disk)

section Commands

variable {time : String} {disk disk' : Disk} {command : Command} {α : Type} {work : Work α}
  {toSummary : α → Summary}

theorem leads_perform_iff {summary : Summary} :
    Work.Leads (perform time command) ⟨disk, []⟩ summary disk' ↔
      (run time disk command).result = .ok summary ∧ (run time disk command).disk = disk' := by
  unfold Work.Leads Work.Ends run
  cases (perform time command).run.run ⟨disk, []⟩ with
  | mk result session =>
      constructor
      · intro h
        rcases h with ⟨notes, hEnds⟩
        cases hEnds
        exact ⟨rfl, rfl⟩
      · intro h
        rcases h with ⟨rfl, rfl⟩
        exact ⟨session.notes, rfl⟩

theorem stops_perform_iff {failure : Failure} :
    Work.Stops (perform time command) ⟨disk, []⟩ failure disk' ↔
      (run time disk command).result = .error failure ∧ (run time disk command).disk = disk' := by
  unfold Work.Stops run
  cases (perform time command).run.run ⟨disk, []⟩ with
  | mk result session =>
      constructor
      · intro h
        rcases h with ⟨notes, hStops⟩
        cases hStops
        exact ⟨rfl, rfl⟩
      · intro h
        rcases h with ⟨rfl, rfl⟩
        exact ⟨session.notes, rfl⟩

/-- A command that gives its work's value as its summary ends as the work does. -/
theorem leads_iff_of_map (hCommand : perform time command = toSummary <$> work)
    (hInjective : Function.Injective toSummary) {value : α} :
    Work.Leads work ⟨disk, []⟩ value disk' ↔
      (run time disk command).result = .ok (toSummary value) ∧
        (run time disk command).disk = disk' := by
  rw [← leads_perform_iff, hCommand, Work.leads_map]
  constructor
  · exact fun h => ⟨value, h, rfl⟩
  · intro h
    rcases h with ⟨inner, hLeads, hSame⟩
    cases hInjective hSame
    exact hLeads

theorem exists_leads_of_result (hCommand : perform time command = toSummary <$> work)
    {summary : Summary} (h : (run time disk command).result = .ok summary) :
    ∃ value, Work.Leads work ⟨disk, []⟩ value (run time disk command).disk := by
  have hLeads := leads_perform_iff.mpr ⟨h, rfl⟩
  rw [hCommand] at hLeads
  rcases Work.leads_map.mp hLeads with ⟨value, hWork, _⟩
  exact ⟨value, hWork⟩

theorem stops_of_result (hCommand : perform time command = toSummary <$> work)
    {failure : Failure} (h : (run time disk command).result = .error failure) :
    Work.Stops work ⟨disk, []⟩ failure (run time disk command).disk := by
  have hStops := stops_perform_iff.mpr ⟨h, rfl⟩
  rw [hCommand] at hStops
  exact Work.stops_map.mp hStops

theorem status_run (time : String) (disk : Disk) (command : Command) :
    (run time disk command).status =
      statusOf (isStrict command) (run time disk command).result :=
  rfl

theorem code_eq_two_iff {status : ExitStatus} : status.code = 2 ↔ status = .failure := by
  cases status with
  | success => decide
  | findings => decide
  | failure => decide

theorem exists_result_of_status
    (h : (run time disk command).status ≠ .failure) :
    ∃ summary, (run time disk command).result = .ok summary := by
  cases hResult : (run time disk command).result with
  | ok summary => exact ⟨summary, rfl⟩
  | error failure =>
      rw [status_run, hResult] at h
      exact absurd rfl h

theorem statusOf_ok_ne_failure {strict : Bool} {summary : Summary} :
    statusOf strict (.ok summary) ≠ .failure := by
  simp only [statusOf]
  split
  · exact ExitStatus.noConfusion
  · exact ExitStatus.noConfusion

theorem exists_failure_of_status
    (h : (run time disk command).status = .failure) :
    ∃ failure, (run time disk command).result = .error failure := by
  cases hResult : (run time disk command).result with
  | error failure => exact ⟨failure, rfl⟩
  | ok summary =>
      rw [status_run, hResult] at h
      exact absurd h statusOf_ok_ne_failure

end Commands

end Audit
end CatalogAudit
