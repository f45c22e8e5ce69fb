import CatalogAudit.Console.Lines
import CatalogAudit.Proofs.Audit.TranslationGaps
import CatalogAudit.Proofs.Audit.UnusedKeys

/-!
# What the error line shows

A failure with a hint shows the messages of all contexts and of the cause. Without a hint only the
outermost message is shown, and that hides the cause where the working directory is gone, where the
project's settings cannot be loaded, or where a first settings file cannot be written.
-/

namespace CatalogAudit

theorem toList_infix_intercalate {separator text : String} {texts : List String}
    (h : text ∈ texts) : text.toList <:+: (separator.intercalate texts).toList := by
  induction texts with
  | nil => exact absurd h List.not_mem_nil
  | cons first rest ih =>
      cases rest with
      | nil =>
          have hJoined : separator.intercalate [first] = text :=
            String.intercalate_singleton.trans (List.mem_singleton.mp h).symm
          exact hJoined ▸ List.infix_rfl
      | cons next rest =>
          rw [String.intercalate_cons_cons, String.toList_append, String.toList_append]
          rcases List.mem_cons.mp h with rfl | hRest
          · exact ((List.prefix_append _ _).trans (List.prefix_append _ _)).isInfix
          · exact (ih hRest).trans (List.suffix_append _ _).isInfix

/-!
# The lines of a failure
-/

namespace Console

open Audit (Advice Failure)

def failureLine (failure : Failure) : Line :=
  [failureMark, plain " ", styled [.bold, .red] "error:", plain (" " ++ failure.message)]

def hintLines : Option Advice → List Line
  | some advice => [[plain "  ", styled [.dimmed] ">", plain (" " ++ advice.text)]]
  | none => []

theorem errorLines_of_failure {outcome : Audit.Outcome} {failure : Failure}
    (h : outcome.result = .error failure) (shows : Event → Bool) :
    errorLines shows outcome = outcome.notes.filterMap (noteLine? shows) ++
      failureLine failure :: hintLines failure.advice := by
  have hLines : failureLines failure.message failure.advice =
      failureLine failure :: hintLines failure.advice := by
    cases failure with
    | mk fault advice =>
        cases advice with
        | some advice => rfl
        | none => rfl
  unfold errorLines
  rw [h, ← hLines]

theorem message_infix_failureLine (colored : Bool) (failure : Failure) :
    failure.message.toList <:+: (renderLine colored (failureLine failure)).toList := by
  have hPlain : (plain (" " ++ failure.message)).render colored = " " ++ failure.message := by
    simp [plain, Span.render]
  have hLine : renderLine colored (failureLine failure) =
      failureMark.render colored ++ (plain " ").render colored ++
        (styled [.bold, .red] "error:").render colored ++ " " ++ failure.message ++ "\n" := by
    simp only [renderLine, failureLine, List.map_cons, List.map_nil, hPlain, String.join_cons,
      String.join_nil, String.append_empty, String.append_assoc]
  rw [hLine, String.toList_append, String.toList_append]
  exact List.infix_append _ _ _

end Console

/-!
# Faults of the settings file
-/

def Fault.HasOneContext (fault : Fault) : Prop :=
  ∃ context cause, fault = ⟨[context], cause⟩

theorem bind_eq_error {ε α β : Type} {first : Except ε α} {next : α → Except ε β} {fault : ε}
    (h : (first >>= next) = .error fault) :
    first = .error fault ∨ ∃ value, first = .ok value ∧ next value = .error fault := by
  cases first with
  | error other =>
      cases h
      exact Or.inl rfl
  | ok value => exact Or.inr ⟨value, rfl, h⟩

theorem hasOneContext_of_withContext {ε α : Type} {cause : ε → Cause} {context : Context}
    {result : Except ε α} {fault : Fault} (h : withContext cause context result = .error fault) :
    fault.HasOneContext := by
  cases result with
  | error other =>
      cases h
      exact ⟨context, cause other, rfl⟩
  | ok value => cases h

namespace Settings

open FileTree (Disk)

theorem hasOneContext_of_checkPattern {pattern : String} {fault : Fault}
    (h : checkPattern pattern = .error fault) : fault.HasOneContext := by
  unfold checkPattern at h
  split at h
  case h_1 => cases h
  case h_2 other hOther =>
    cases h
    exact hasOneContext_of_withContext hOther

theorem hasOneContext_of_checkPatterns {patterns : List String} {fault : Fault}
    (h : patterns.forM checkPattern = .error fault) : fault.HasOneContext := by
  induction patterns with
  | nil => cases h
  | cons pattern patterns ih =>
      change (checkPattern pattern >>= fun _ => patterns.forM checkPattern) = .error fault at h
      rcases bind_eq_error h with hPattern | ⟨_, _, hRest⟩
      · exact hasOneContext_of_checkPattern hPattern
      · exact ih hRest

theorem eq_of_checkLocaleCode {code : String} {fault : Fault}
    (h : checkLocaleCode code = .error fault) : fault = .of (.localeCode code) := by
  unfold checkLocaleCode at h
  split at h
  · cases h
  · cases h
    rfl

theorem hasOneContext_of_check {settings : Settings} {fault : Fault}
    (h : settings.check = .error fault) : fault.HasOneContext := by
  unfold check at h
  rcases bind_eq_error h with hPatterns | ⟨_, _, hLocale⟩
  · exact hasOneContext_of_checkPatterns hPatterns
  · split at hLocale
    case h_1 => cases hLocale
    case h_2 other hOther =>
      cases hLocale
      rw [eq_of_checkLocaleCode hOther]
      exact ⟨.settingsLocale, .localeCode settings.baseLocale, rfl⟩

theorem hasOneContext_of_read {disk : Disk} {path : Path} {fault : Fault}
    (h : Settings.read disk path = .error fault) : fault.HasOneContext := by
  unfold Settings.read at h
  rcases bind_eq_error h with hText | ⟨_, _, h⟩
  · exact hasOneContext_of_withContext hText
  rcases bind_eq_error h with hParse | ⟨_, _, h⟩
  · exact hasOneContext_of_withContext hParse
  rcases bind_eq_error h with hCheck | ⟨_, _, h⟩
  · exact hasOneContext_of_check hCheck
  · cases h

end Settings

theorem Project.hasOneContext_of_loadFrom {disk : FileTree.Disk} {start : Path} {fault : Fault}
    (h : loadFrom disk start = .error fault) : fault.HasOneContext := by
  unfold loadFrom at h
  split at h
  case h_1 =>
    rcases bind_eq_error h with hRead | ⟨_, _, h⟩
    · exact Settings.hasOneContext_of_read hRead
    · cases h
  case h_2 => cases h

theorem Project.hasOneContext_of_load {disk : FileTree.Disk} {fault : Fault}
    (h : load disk = .error fault) : fault.HasOneContext := by
  unfold load at h
  rcases bind_eq_error h with hStart | ⟨_, _, hFrom⟩
  · exact hasOneContext_of_withContext hStart
  · exact hasOneContext_of_loadFrom hFrom

namespace Audit

open CommandLine (Command UnusedArguments UntranslatedArguments)
open FileTree (Disk)

/--
Why there are no settings: the working directory is gone, or the settings cannot be loaded, or a
first settings file cannot be written.
-/
def settingsFault? (disk : Disk) : Command → Option Fault
  | .init =>
      if disk.exists? Settings.starterPath then none
      else
        match Settings.writeStarter disk with
        | .ok _ => none
        | .error fault => some fault
  | _ =>
      match Project.load disk with
      | .ok _ => none
      | .error fault => some fault

/-!
# How much of a failure is shown
-/

/-- The failure has a hint, or a cause without a context. -/
def Failure.IsShownInFull (failure : Failure) : Prop :=
  failure.advice.isSome ∨ failure.fault.contexts = []

theorem Failure.message_of_isShownInFull {failure : Failure} (h : failure.IsShownInFull) :
    failure.message = failure.fault.fullMessage := by
  rcases failure with ⟨⟨contexts, cause⟩, advice⟩
  cases advice with
  | some advice => rfl
  | none =>
      rcases h with hSome | hContexts
      · cases hSome
      · cases hContexts
        exact (String.intercalate_singleton).symm

/--
The failure is the one of the settings file, without a hint, or else it is shown in full.
-/
def AccountsFor (disk : Disk) (command : Command) (failure : Failure) : Prop :=
  match settingsFault? disk command with
  | some fault => failure = ⟨fault, none⟩ ∧ fault.HasOneContext
  | none => failure.IsShownInFull

section Commands

variable {time : String} {disk disk' : Disk} {notes : List Note} {failure : Failure}
  {project : Project} {unused : UnusedArguments} {untranslated : UntranslatedArguments}

theorem settingsFault?_of_ne_init {command : Command} (hCommand : command ≠ .init) :
    settingsFault? disk command =
      match Project.load disk with
      | .ok _ => none
      | .error fault => some fault := by
  cases command with
  | unused => rfl
  | untranslated => rfl
  | init => exact absurd rfl hCommand

theorem accountsFor_of_load_error {command : Command} {fault : Fault} (hCommand : command ≠ .init)
    (hFault : Project.load disk = .error fault) :
    AccountsFor disk command ⟨fault, none⟩ := by
  unfold AccountsFor
  rw [settingsFault?_of_ne_init hCommand, hFault]
  exact ⟨rfl, Project.hasOneContext_of_load hFault⟩

theorem accountsFor_of_load {command : Command} (hCommand : command ≠ .init)
    (hProject : Project.load disk = .ok project) (h : failure.IsShownInFull) :
    AccountsFor disk command failure := by
  unfold AccountsFor
  rw [settingsFault?_of_ne_init hCommand, hProject]
  exact h

theorem accountsFor_of_fails (h : UnusedKeys.Fails time unused disk failure disk') :
    AccountsFor disk (.unused unused) failure := by
  have hCommand : Command.unused unused ≠ .init := Command.noConfusion
  cases h with
  | project hFault => exact accountsFor_of_load_error hCommand hFault
  | catalogPath hProject _ => exact accountsFor_of_load hCommand hProject (Or.inl rfl)
  | catalog hProject _ _ => exact accountsFor_of_load hCommand hProject (Or.inl rfl)
  | scan hProject _ => exact accountsFor_of_load hCommand hProject (Or.inl rfl)
  | sources hProject _ _ => exact accountsFor_of_load hCommand hProject (Or.inl rfl)
  | cache hSees _ _ => exact accountsFor_of_load hCommand hSees.project_eq (Or.inl rfl)
  | report hSees _ _ => exact accountsFor_of_load hCommand hSees.project_eq (Or.inl rfl)

theorem accountsFor_of_stops
    (h : Work.Stops (TranslationGaps.audit time untranslated) ⟨disk, notes⟩ failure disk') :
    AccountsFor disk (.untranslated untranslated) failure := by
  have hCommand : Command.untranslated untranslated ≠ .init := Command.noConfusion
  unfold TranslationGaps.audit at h
  rcases Work.stops_look_bind.mp h with ⟨fault, hFault, rfl, _⟩ | ⟨project, hProject, h⟩
  · exact accountsFor_of_load_error hCommand hFault
  apply accountsFor_of_load hCommand hProject
  rcases Work.stops_require_bind.mp h with ⟨fault, hFault, rfl, _⟩ | ⟨_, _, h⟩
  · -- A locale code from the arguments is all that there is to tell.
    rw [Settings.eq_of_checkLocaleCode hFault]
    exact Or.inr rfl
  rcases Work.stops_look_bind.mp h with ⟨_, _, rfl, _⟩ | ⟨locales, _, h⟩
  · exact Or.inl rfl
  rcases (Work.tells_note _).exists_stops h with ⟨_, h⟩
  rcases Work.stops_require_bind.mp h with ⟨_, _, rfl, _⟩ | ⟨gaps, _, h⟩
  · exact Or.inl rfl
  rcases (Work.tells_note _).exists_stops h with ⟨_, h⟩
  rcases Work.stops_change_bind.mp h with ⟨_, _, rfl, _⟩ | ⟨written, _, h⟩
  · exact Or.inl rfl
  rcases (Work.tells_note _).exists_stops h with ⟨_, h⟩
  exact absurd h Work.not_stops_pure

theorem accountsFor_init (h : (run time disk .init).result = .error failure) :
    AccountsFor disk .init failure := by
  rcases Work.stops_change_bind.mp (stops_perform_iff.mpr ⟨h, rfl⟩) with
    ⟨fault, hFault, rfl, _⟩ | ⟨_, _, hPure⟩
  case inr => exact absurd hPure Work.not_stops_pure
  unfold AccountsFor settingsFault?
  by_cases hThere : disk.exists? Settings.starterPath = true
  · rw [if_pos hThere]
    unfold Settings.writeStarter at hFault
    rw [if_pos hThere] at hFault
    cases hFault
    exact Or.inr rfl
  · rw [if_neg hThere, hFault]
    unfold Settings.writeStarter at hFault
    rw [if_neg hThere] at hFault
    exact ⟨rfl, hasOneContext_of_withContext hFault⟩

theorem accountsFor_of_result {command : Command}
    (h : (run time disk command).result = .error failure) : AccountsFor disk command failure := by
  cases command with
  | unused arguments => exact accountsFor_of_fails (UnusedKeys.fails_of_result h)
  | untranslated arguments => exact accountsFor_of_stops (stops_of_result rfl h)
  | init => exact accountsFor_init h

end Commands

/-!
# The error line
-/

def Outcome.failure? (outcome : Outcome) : Option Failure :=
  match outcome.result with
  | .ok _ => none
  | .error failure => some failure

theorem Outcome.failure?_eq_some {outcome : Outcome} {failure : Failure} :
    outcome.failure? = some failure ↔ outcome.result = .error failure := by
  unfold Outcome.failure?
  cases outcome.result with
  | ok summary => simp
  | error other => simp

/-- What the error stream tells about a run that has failed. -/
structure ShowsFailure (disk : Disk) (command : Command) (shows : Event → Bool) (colored : Bool)
    (failure : Failure) (outcome : Outcome) : Prop where
  lines : Console.errorLines shows outcome =
    outcome.notes.filterMap (Console.noteLine? shows) ++
      Console.failureLine failure :: Console.hintLines failure.advice
  chain : settingsFault? disk command = none →
    failure.fault.fullMessage.toList <:+:
        (Console.renderLine colored (Console.failureLine failure)).toList ∧
      ∀ message ∈ failure.fault.chain, message.toList <:+:
        (Console.renderLine colored (Console.failureLine failure)).toList
  outermost : ∀ fault, settingsFault? disk command = some fault → failure = ⟨fault, none⟩ ∧
    ∃ context cause, fault = ⟨[context], cause⟩ ∧ failure.message = context.message

theorem showsFailure_run (time : String) {disk : Disk} {command : Command} {failure : Failure}
    (h : (run time disk command).result = .error failure) (shows : Event → Bool)
    (colored : Bool) :
    ShowsFailure disk command shows colored failure (run time disk command) := by
  have hAccounts := accountsFor_of_result h
  have hLine := Console.message_infix_failureLine colored failure
  unfold AccountsFor at hAccounts
  constructor
  case lines => exact Console.errorLines_of_failure h shows
  case chain =>
    intro hNone
    rw [hNone] at hAccounts
    rw [Failure.message_of_isShownInFull hAccounts] at hLine
    exact ⟨hLine, fun message hMessage => (toList_infix_intercalate hMessage).trans hLine⟩
  case outermost =>
    intro fault hFault
    rw [hFault] at hAccounts
    rcases hAccounts with ⟨rfl, context, cause, rfl⟩
    exact ⟨rfl, context, cause, rfl, rfl⟩

def settingsDisk (settings : String) : Disk where
  top := .directory [(Settings.fileName, .file (bytesOf settings))]
  cwd := []

def missingArguments : UnusedArguments :=
  { UnusedArguments.blank with localePath := some (bytesOf "en.json") }

def missingFailure : Failure :=
  ⟨⟨[.readCatalog (bytesOf "en.json")], .file .notFound⟩, some .catalog⟩

theorem showsFailure_run_missing :
    settingsFault? (settingsDisk "\x7b\x7d") (.unused missingArguments) = none ∧
      missingFailure.fault.chain =
        ["Failed to read catalog: en.json", "No such file or directory (os error 2)"] ∧
      ShowsFailure (settingsDisk "\x7b\x7d") (.unused missingArguments) (fun _ => false) true
        missingFailure (run "now" (settingsDisk "\x7b\x7d") (.unused missingArguments)) := by
  refine ⟨by decide +kernel, by decide +kernel, ?_⟩
  apply showsFailure_run "now"
  apply Outcome.failure?_eq_some.mp
  decide +kernel

def brokenFailure : Failure :=
  ⟨⟨[.parseSettings (bytesOf "/.i18nrc.json")], .json ⟨.keyNotString, ⟨1, 3⟩⟩⟩, none⟩

def goneDisk : Disk where
  top := .directory []
  cwd := [bytesOf "gone"]

def goneFailure : Failure :=
  ⟨⟨[.workingDirectory], .file .notFound⟩, none⟩

/--
What is wrong with a settings file, and where, is not on the error line, and neither is why the
working directory cannot be determined.
-/
theorem chain_not_shown_broken :
    (let outcome := run "now" (settingsDisk "\x7b nope") (.unused .blank)
      let line := (Console.renderLine false (Console.failureLine brokenFailure)).toList
      outcome.result = .error brokenFailure ∧
        brokenFailure.fault.chain = ["Failed to parse config file: \"/.i18nrc.json\"",
          "key must be a string at line 1 column 3"] ∧
        Console.errorLines (fun _ => true) outcome = [Console.failureLine brokenFailure] ∧
        ¬"key must be a string at line 1 column 3".toList <:+: line) ∧
    (let outcome := run "now" goneDisk (.untranslated .blank)
      let line := (Console.renderLine false (Console.failureLine goneFailure)).toList
      outcome.result = .error goneFailure ∧
        goneFailure.fault.chain = ["Failed to determine the working directory",
          "No such file or directory (os error 2)"] ∧
        Console.errorLines (fun _ => true) outcome = [Console.failureLine goneFailure] ∧
        ¬"No such file or directory (os error 2)".toList <:+: line) := by
  constructor
  · refine ⟨Outcome.failure?_eq_some.mp (by decide +kernel), ?_⟩
    decide +kernel
  · refine ⟨Outcome.failure?_eq_some.mp (by decide +kernel), ?_⟩
    decide +kernel

end Audit
end CatalogAudit
