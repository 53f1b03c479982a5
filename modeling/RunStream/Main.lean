import RunStream.Command.Outcome

set_option autoImplicit false

namespace RunStream.Command

def readErrorOf : IO.Error → ReadError
  | .noFileOrDirectory _ _ _ => .missing
  | .inappropriateType _ code _ => if code = 21 then .directory else .notDirectory
  | error => .other (toString error)

def decode (bytes : ByteArray) : Except ReadError String :=
  match String.fromUTF8? bytes with
  | some text => .ok text
  | none => .error .notText

def attempt (action : IO ByteArray) : IO (Except ReadError String) := do
  try
    return decode (← action)
  catch error =>
    return .error (readErrorOf error)

partial def readAll (stream : IO.FS.Stream) (bytes : ByteArray) : IO ByteArray := do
  let more ← stream.read 65536
  if more.isEmpty then return bytes else readAll stream (bytes ++ more)

def readInput : Input → IO (Except ReadError String)
  | .standard => attempt do readAll (← IO.getStdin) .empty
  | .file path => attempt (IO.FS.readBinFile path)

def readEnvironment : IO Environment := do
  return {
    verbose := ← IO.getEnv "SUITE_REPORTER_VERBOSE"
    settingsPath := ← IO.getEnv "SUITE_REPORTER_CONFIG"
    logFilter := ← IO.getEnv "SUITE_REPORTER_LOG"
    terminal := ← (← IO.getStderr).isTty }

def writeReply (reply : Reply) : IO UInt32 := do
  (← IO.getStderr).putStr reply.errors
  return UInt32.ofNat reply.exitCode

def deliver (invocation : Invocation) (environment : Environment) (outcome : Outcome) :
    IO UInt32 := do
  try
    let output ← IO.getStdout
    output.putStr outcome.output
    output.flush
    writeReply (invocation.reply environment outcome)
  catch error =>
    writeReply (invocation.reply environment (.ofError (.unwritable (toString error)) outcome.log))

def serve (environment : Environment) (invocation : Invocation) : IO UInt32 := do
  let settingsFile ← readInput (.file (invocation.settingsPath.getD ""))
  let ready := (invocation.settings settingsFile).2.toBool
  let content ← if ready then readInput invocation.task.input else pure (.error .missing)
  deliver invocation environment (invocation.run settingsFile content)

end RunStream.Command

open RunStream.Command in
def main (arguments : List String) : IO UInt32 := do
  let environment ← readEnvironment
  match Invocation.read environment arguments with
  | .error refusal =>
      let reply := refusal.reply
      (← IO.getStdout).putStr reply.output
      writeReply reply
  | .ok invocation => serve environment invocation
