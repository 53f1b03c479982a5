import RunStream.Command.Arguments
import RunStream.Command.Log
import RunStream.Nesting
import RunStream.Report.Reporter
import RunStream.Script.Decoder
import RunStream.Script.Resolved
import RunStream.Settings.Document

set_option autoImplicit false

namespace RunStream.Command

inductive TaskError where
  | settings (cause : SettingsError)
  | unreadable (input : Input) (cause : ReadError)
  | unparsable (script : Input)
  | inconsistent (script : Input) (cause : ScriptError)
  | unwritable (reason : String)
  | notNested (stream : Input) (cause : NestingError)
deriving DecidableEq, Repr

namespace TaskError

def exitCode : TaskError → Nat
  | .settings _ | .unreadable _ _ | .unparsable _ | .inconsistent _ _ => 96
  | .notNested _ _ => 100
  | .unwritable _ => 110

def text : TaskError → List Span
  | .settings cause => [cause.message]
  | .unreadable input _ => ["failed to read `", .name input.name, "`"]
  | .unparsable script =>
      ["failed to parse replay script `", .name script.name, "`"]
  | .inconsistent script cause =>
      ["replay script `", .name script.name,
        "` is invalid: " ++ cause.message]
  | .unwritable _ => ["failed to write service messages"]
  | .notNested stream cause =>
      ["`", .name stream.name,
        "` is not well nested: " ++ cause.message]

def causes : TaskError → List String
  | .settings cause => cause.cause?.toList.map ReadError.message
  | .unreadable _ cause => [cause.message]
  | .unparsable _ => []
  | .inconsistent _ (.badTree cause) => [cause.message]
  | .inconsistent _ _ => []
  | .unwritable reason => [deliveryFailed, reason]
  | .notNested _ cause =>
      cause.cause?.toList.flatMap fun cause =>
        cause.message :: cause.cause?.toList.map Wire.UnescapeError.message

def entries (error : TaskError) : List Entry :=
  { origin := "suite_reporter_cli::errors", level := .error, text := error.text } ::
    error.causes.map fun cause =>
      .plain Entry.continuation .error ("\nCaused by:\n  " ++ cause)

end TaskError

def loadSettings (path : String) (content : Except ReadError String) :
    List Entry × Except TaskError Settings :=
  let origin := "suite_reporter::config"
  let loaded := Settings.ofFile path content
  let before :=
    Entry.plain origin .debug ("reporter config: loading from " ++ path) ::
      (loaded.warning? path).toList.map (Entry.plain origin .warning)
  match loaded.result with
  | .ok settings =>
      (before ++ [.plain origin .debug ("reporter config: loaded successfully from " ++ path)],
        .ok settings)
  | .error cause => (before, .error (.settings cause))

def entryOf? (plan : Plan) (notice : Notice) : Option Entry :=
  let entry (text : String) := Entry.plain "suite_reporter::reporter::scope" .debug text
  match notice with
  | .suiteOpened scope => some (entry ("opening suite `" ++ plan.scopeName scope ++ "`"))
  | .suiteClosed scope => some (entry ("closing suite `" ++ plan.scopeName scope ++ "`"))
  | .cutShort leaf =>
      some (entry ("finishing test #" ++ toString leaf ++ ", which never reported its end"))
  | _ => none

def taskOrigin : String := "suite_reporter_cli::dispatch"

def replayEntries (settings : Settings) (script : ResolvedScript) : List Entry :=
  .plain taskOrigin .debug
      ("replaying " ++ toString script.events.length ++ " events over " ++
        toString script.tree.size ++ " nodes") ::
    (script.notices settings).filterMap (entryOf? { tree := script.tree, settings })

def Task.run (settings : Settings) (text : String) :
    Task → Except TaskError (List Entry × String)
  | .replay input =>
      match Script.parse? text with
      | none => .error (.unparsable input)
      | some script =>
          match script.resolve with
          | .error cause => .error (.inconsistent input cause)
          | .ok resolved => .ok (replayEntries settings resolved, resolved.output settings)
  | .check input =>
      match checkText settings.protocol text with
      | .error cause => .error (.notNested input cause)
      | .ok summary =>
          .ok ([{
            origin := taskOrigin
            level := .info
            text := ["`", .name input.name, "` is well nested: ",
              .count summary.suites, " suites, ", .count summary.tests,
              " tests"] }], "")

structure Outcome where
  exitCode : Nat := 0
  output : String := ""
  log : List Entry := []
deriving DecidableEq, Repr

def Outcome.ofError (error : TaskError) (log : List Entry) : Outcome where
  exitCode := error.exitCode
  log := log ++ error.entries

namespace Invocation

def settings (invocation : Invocation) (settingsFile : Except ReadError String) :
    List Entry × Except TaskError Settings :=
  match invocation.settingsPath with
  | none => ([], .ok {})
  | some path => loadSettings path settingsFile

def run (invocation : Invocation) (settingsFile content : Except ReadError String) : Outcome :=
  let (log, settings) := invocation.settings settingsFile
  match settings with
  | .error error => .ofError error log
  | .ok settings =>
      match content with
      | .error cause => .ofError (.unreadable invocation.task.input cause) log
      | .ok text =>
          match invocation.task.run settings text with
          | .error error => .ofError error log
          | .ok (more, output) => { output, log := log ++ more }

def logFilter (invocation : Invocation) (setting : Option String) : Filter × List Entry :=
  let default : Filter :=
    { directives := [{ limit := (if invocation.verbose then Level.debug else Level.info).rank }] }
  match setting with
  | none => (default, [])
  | some text =>
      if text = "" then (default, [])
      else
        match Filter.read text with
        | .ok filter => (filter, [])
        | .error error =>
            (default, [.plain "suite_reporter_cli::output" .warning
              ("ignoring SUITE_REPORTER_LOG=`" ++ text ++ "`: " ++ error.message)])

end Invocation

structure Reply where
  exitCode : Nat := 0
  output : String := ""
  errors : String := ""
deriving DecidableEq, Repr

def Invocation.reply (invocation : Invocation) (environment : Environment) (outcome : Outcome) :
    Reply where
  exitCode := outcome.exitCode
  output := outcome.output
  errors :=
    let (filter, before) := invocation.logFilter environment.logFilter
    filter.render (invocation.color.isColored environment.terminal) (before ++ outcome.log)

def usage : String :=
  "Usage: suite-reporter [OPTIONS] replay SCRIPT\n" ++
  "       suite-reporter [OPTIONS] check [FILE]\n"

def help : String :=
  "Stream hierarchical test runs as CI service messages\n\n" ++ usage ++
  "\nTasks:\n" ++
  "  replay  Write the service messages of the run that a script describes\n" ++
  "  check   Check that a captured stream of service messages is well nested\n" ++
  "\nOptions:\n" ++
  "  -v, --verbose      Verbose output\n" ++
  "      --color WHEN   Produce color output: auto, always, never\n" ++
  "      --config PATH  Reporter config file\n" ++
  "  -h, --help         Print help\n" ++
  "  -V, --version      Print version\n"

def Refusal.reply : Refusal → Reply
  | .misused => { exitCode := 2, errors := usage }
  | .helpWanted => { output := help }
  | .versionWanted => { output := "suite-reporter 0.1.0\n" }

def reply (environment : Environment) (arguments : List String)
    (read : String → Except ReadError String) (standard : Except ReadError String) : Reply :=
  match Invocation.read environment arguments with
  | .error refusal => refusal.reply
  | .ok invocation =>
      let content :=
        match invocation.task.input with
        | .standard => standard
        | .file path => read path
      invocation.reply environment
        (invocation.run (read (invocation.settingsPath.getD "")) content)

end RunStream.Command
