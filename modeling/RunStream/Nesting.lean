import RunStream.Text.Lines
import RunStream.Wire.Parser

set_option autoImplicit false

namespace RunStream

open Wire Text

inductive Bracket where
  | suite
  | test
  -- A suite of the description that precedes a run.
  | describedSuite
deriving DecidableEq, Repr

inductive Side where
  | opening
  | closing
deriving DecidableEq, Repr

def bracket? (message : String) : Option (Bracket × Side) :=
  if message = "testSuiteStarted" then some (.suite, .opening)
  else if message = "testSuiteFinished" then some (.suite, .closing)
  else if message = "testStarted" then some (.test, .opening)
  else if message = "testFinished" then some (.test, .closing)
  else if message = "suiteTreeStarted" then some (.describedSuite, .opening)
  else if message = "suiteTreeEnded" then some (.describedSuite, .closing)
  else none

inductive NestingError where
  | undecodable (index : Nat) (cause : ParseError)
  | missingName (index : Nat) (message : String)
  | unexpectedClose (index : Nat) (message name : String) (innermost : Option String)
  | unclosed (names : List String)
deriving DecidableEq, Repr

namespace NestingError

def message : NestingError → String
  | .undecodable index _ => s!"message {index} could not be decoded"
  | .missingName index message =>
      "message " ++ toString index ++ " (`" ++ message ++ "`) has no name"
  | .unexpectedClose index message name innermost =>
      "message " ++ toString index ++ " (`" ++ message ++ "`) closes `" ++ name ++
        "`, but the innermost open scope is " ++
        match innermost with
        | some top => "`" ++ top ++ "`"
        | none => "<none>"
  | .unclosed names =>
      "stream ended with " ++ toString names.length ++ " scope(s) still open: " ++
        ", ".intercalate names

def cause? : NestingError → Option ParseError
  | .undecodable _ cause => some cause
  | _ => none

end NestingError

structure NestingSummary where
  suites : Nat := 0
  tests : Nat := 0
deriving DecidableEq, Repr

namespace NestingSummary

def count (summary : NestingSummary) : Bracket → NestingSummary
  | .suite | .describedSuite => { summary with suites := summary.suites + 1 }
  | .test => { summary with tests := summary.tests + 1 }

end NestingSummary

/-- What is open is given innermost first. -/
def checkFrom (index : Nat) (opened : List (Bracket × String)) (summary : NestingSummary) :
    List Message → Except NestingError NestingSummary
  | [] =>
      if opened.isEmpty then .ok summary
      else .error (.unclosed (opened.reverse.map Prod.snd))
  | message :: rest =>
      match bracket? message.name with
      | none => checkFrom (index + 1) opened summary rest
      | some (bracket, side) =>
          match message.nameAttribute? with
          | none => .error (.missingName index message.name)
          | some name =>
              match side with
              | .opening =>
                  checkFrom (index + 1) ((bracket, name) :: opened) (summary.count bracket) rest
              | .closing =>
                  match opened with
                  | [] => .error (.unexpectedClose index message.name name none)
                  | top :: outer =>
                      if top = (bracket, name) then checkFrom (index + 1) outer summary rest
                      else .error (.unexpectedClose index message.name name (some top.2))

def checkNesting (messages : List Message) : Except NestingError NestingSummary :=
  checkFrom 0 [] {} messages

def messageLines (protocol : String) (text : List Char) : List (List Char) :=
  ((lines text).map trimStart).filter fun line => (Message.opening protocol).toList.isPrefixOf line

def decodeLines (protocol : String) (index : Nat) :
    List (List Char) → Except NestingError (List Message)
  | [] => .ok []
  | line :: rest =>
      match parseChars protocol line with
      | .error cause => .error (.undecodable index cause)
      | .ok message => (message :: ·) <$> decodeLines protocol (index + 1) rest

def checkText (protocol : String) (text : String) : Except NestingError NestingSummary :=
  decodeLines protocol 0 (messageLines protocol text.toList) >>= checkNesting

end RunStream
