import CatalogAudit.Audit.Outcome
import CatalogAudit.Console.Style

/-!
# Lines on the console

Progress and failures go to the error stream, line by line, and the summary at the end goes to the
output stream.
-/

namespace CatalogAudit
namespace Console

open Audit (Failure Advice Note Progress Summary UnusedResult GapsResult)

def successMark : Span :=
  styled [.green] "✓"

def failureMark : Span :=
  styled [.red] "✘"

/-!
# Progress
-/

def progressLine (progress : Progress) : Line :=
  let head :=
    match progress.weight with
    | .step => successMark
    | .info => styled [.bold, .dimmed] "info:"
    | .warning => styled [.bold, .yellow] "warning:"
  [head, plain (" " ++ progress.text)]

def levelName : Level → String
  | .error => "ERROR"
  | .warn => " WARN"
  | .info => " INFO"
  | .debug => "DEBUG"
  | .trace => "TRACE"

def eventLine (event : Event) : Line :=
  [plain (levelName event.level ++ " " ++ event.target ++ ": " ++ event.text)]

/-- The line of a note, if it is shown. The test tells which events are. -/
def noteLine? (shows : Event → Bool) : Note → Option Line
  | .progress progress => some (progressLine progress)
  | .event event => if shows event then some (eventLine event) else none

/-!
# Failures
-/

def failureLines (message : String) (advice : Option Advice) : List Line :=
  let error : Line :=
    [failureMark, plain " ", styled [.bold, .red] "error:", plain (" " ++ message)]
  match advice with
  | some advice => [error, [plain "  ", styled [.dimmed] ">", plain (" " ++ advice.text)]]
  | none => [error]

/-!
# Summaries
-/

def noun (count : Nat) (one many : String) : String :=
  if count = 1 then one else many

def counted (count : Nat) (one many : String) : String :=
  toString count ++ " " ++ noun count one many

def reportLine (output : Path) : Line :=
  [styled [.bold] "Report:", plain " ", styled [.cyan] output.shown]

/-- How many keys each pass has left. A set under depth zero belongs to no pass. -/
def depthCounts (depths : SurvivorMap) : List (Nat × Nat) :=
  depths.entries.filterMap fun entry =>
    match entry.1 with
    | 0 => none
    | cuts + 1 => some (cuts, entry.2.size)

def depthLine (depth count : Nat) : Line :=
  [plain "  ", styled [.dimmed] "-",
    plain (" depth " ++ toString depth ++ ": " ++ counted count "key" "keys")]

def allUsedLine (total filesChecked : Nat) : Line :=
  [successMark, plain " ", styled [.green] ("Checked " ++ counted total "key" "keys" ++
    " in " ++ counted filesChecked "source file" "source files" ++ " - no unused keys found")]

def someUnusedLine (count total : Nat) : Line :=
  [failureMark, plain " ", styled [.bold] (toString count),
    plain (" of " ++ counted total "key" "keys" ++ " unused")]

def unusedLines (summary : UnusedResult) : List Line :=
  let findings := summary.findings
  let lines : List Line :=
    if findings.literalCount = 0 then [allUsedLine findings.total summary.filesChecked]
    else
      someUnusedLine findings.literalCount findings.total ::
        (depthCounts findings.depths).map fun (depth, count) => depthLine depth count
  lines ++ [reportLine summary.output]

def allTranslatedLine (localeCount : Nat) : Line :=
  [successMark, plain " ",
    styled [.green] ("Checked " ++ counted localeCount "locale" "locales" ++
      " - no untranslated keys found")]

def someUntranslatedLine (count localeCount : Nat) : Line :=
  [failureMark, plain " ", styled [.bold] (toString count),
    plain (" untranslated " ++ noun count "key" "keys" ++ " across " ++
      counted localeCount "locale" "locales")]

def untranslatedLines (summary : GapsResult) : List Line :=
  let finding : Line :=
    if summary.gaps.size = 0 then allTranslatedLine summary.localeCount
    else someUntranslatedLine summary.gaps.size summary.localeCount
  [finding, reportLine summary.output]

def summaryLines : Summary → List Line
  | .unused summary => unusedLines summary
  | .untranslated summary => untranslatedLines summary
  | .settingsCreated path => [[successMark, plain (" Created " ++ path.shown)]]

/-!
# Streams
-/

def outputLines (result : Except Failure Summary) : List Line :=
  match result with
  | .ok summary => summaryLines summary
  | .error _ => []

def errorLines (shows : Event → Bool) (outcome : Audit.Outcome) : List Line :=
  outcome.notes.filterMap (noteLine? shows) ++
    match outcome.result with
    | .ok _ => []
    | .error failure => failureLines failure.message failure.advice

def doneLine (seconds : String) : Line :=
  [plain ("Done! " ++ seconds ++ "s")]

end Console
end CatalogAudit
