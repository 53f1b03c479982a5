set_option autoImplicit false

namespace RunStream.Command

inductive ColorChoice where
  | auto
  | always
  | never
deriving DecidableEq, Repr

def ColorChoice.isColored (terminal : Bool) : ColorChoice → Bool
  | .auto => terminal
  | .always => true
  | .never => false

def ColorChoice.ofName? (name : String) : Option ColorChoice :=
  if name = "auto" then some .auto
  else if name = "always" then some .always
  else if name = "never" then some .never
  else none

inductive Input where
  | standard
  | file (path : String)
deriving DecidableEq, Repr

def Input.ofOperand (operand : String) : Input :=
  if operand = "-" then .standard else .file operand

def Input.name : Input → String
  | .standard => "<stdin>"
  | .file path => path

inductive Task where
  | replay (script : Input)
  | check (stream : Input)
deriving DecidableEq, Repr

def Task.input : Task → Input
  | .replay script => script
  | .check stream => stream

structure Invocation where
  verbose : Bool := false
  color : ColorChoice := .auto
  settingsPath : Option String := none
  task : Task
deriving DecidableEq, Repr

inductive Refusal where
  | misused
  | helpWanted
  | versionWanted
deriving DecidableEq, Repr

structure Environment where
  verbose : Option String := none
  settingsPath : Option String := none
  logFilter : Option String := none
  terminal : Bool := false
deriving DecidableEq, Repr

inductive Position where
  | before
  | after
deriving DecidableEq, Repr

inductive Argument where
  | operand
  | separator
  | word (name : String) (value : Option String)
  | switches (letters : List Char)
deriving DecidableEq, Repr

def Argument.ofString (argument : String) : Argument :=
  match argument.toList with
  | ['-'] => .operand
  | ['-', '-'] => .separator
  | '-' :: '-' :: text =>
      let name := String.ofList (text.takeWhile (· != '='))
      match text.dropWhile (· != '=') with
      | [] => .word name none
      | _ :: value => .word name (some (String.ofList value))
  | '-' :: rest => .switches rest
  | _ => .operand

structure Given where
  verbose : Bool := false
  color : Option ColorChoice := none
  settingsPath : Option String := none
  operand : Option String := none
deriving DecidableEq, Repr

namespace Given

def addVerbose (given : Given) : Except Refusal Given :=
  if given.verbose then .error .misused else .ok { given with verbose := true }

def addOperand (given : Given) (operand : String) : Except Refusal Given :=
  if given.operand.isSome then .error .misused else .ok { given with operand := some operand }

def addLetter (position : Position) (given : Given) (letter : Char) : Except Refusal Given :=
  if letter = 'v' then given.addVerbose
  else if letter = 'h' then .error .helpWanted
  else if letter = 'V' ∧ position = .before then .error .versionWanted
  else .error .misused

def addWord (position : Position) (given : Given) (name : String) : Except Refusal Given :=
  if name = "verbose" then given.addVerbose
  else if name = "help" then .error .helpWanted
  else if name = "version" ∧ position = .before then .error .versionWanted
  else .error .misused

def takesValue (name : String) : Bool :=
  name == "color" || name == "config"

def addValue (given : Given) (name value : String) : Except Refusal Given :=
  if name = "color" then
    match given.color, ColorChoice.ofName? value with
    | none, some color => .ok { given with color := some color }
    | _, _ => .error .misused
  else if given.settingsPath.isSome then .error .misused
  else .ok { given with settingsPath := some value }

end Given

/-- Before the task's name, what is left starts with the name; after it, nothing is left. -/
def readSide (position : Position) (given : Given) :
    List String → Except Refusal (Given × List String)
  | [] => .ok (given, [])
  | argument :: rest =>
      match Argument.ofString argument with
      | .operand =>
          match position with
          | .before => .ok (given, argument :: rest)
          | .after => do readSide position (← given.addOperand argument) rest
      | .separator =>
          match position with
          | .before => .error .misused
          | .after => do return (← rest.foldlM Given.addOperand given, [])
      | .switches letters => do
          readSide position (← letters.foldlM (Given.addLetter position) given) rest
      | .word name (some value) =>
          if Given.takesValue name then do readSide position (← given.addValue name value) rest
          else .error .misused
      | .word name none =>
          if Given.takesValue name then
            match rest with
            | [] => .error .misused
            | value :: rest =>
                if Argument.ofString value = .operand then do
                  readSide position (← given.addValue name value) rest
                else .error .misused
          else do readSide position (← given.addWord position name) rest

def task? (name : String) (operand : Option String) : Option Task :=
  if name = "replay" then operand.map fun script => .replay (Input.ofOperand script)
  else if name = "check" then some (.check (Input.ofOperand (operand.getD "-")))
  else none

def isTask (name : String) : Bool :=
  name == "replay" || name == "check"

/-- The variable must be usable unless both sides give the option. -/
def isVerbose (before after : Given) (setting : Option String) : Except Refusal Bool :=
  if before.verbose && after.verbose then .ok true
  else
    match setting with
    | none => .ok (before.verbose || after.verbose)
    | some value =>
        if value = "true" then .ok true
        else if value = "false" then .ok (before.verbose || after.verbose)
        else .error .misused

def readHelp : List String → Refusal
  | [] => .helpWanted
  | [name] => if isTask name || name == "help" then .helpWanted else .misused
  | _ => .misused

def Invocation.read (environment : Environment) (arguments : List String) :
    Except Refusal Invocation := do
  match ← readSide .before {} arguments with
  | (_, []) => throw .misused
  | (before, name :: rest) =>
      if name = "help" then throw (readHelp rest)
      if !isTask name then throw .misused
      let (after, _) ← readSide .after {} rest
      match task? name after.operand with
      | none => throw .misused
      | some task =>
          return {
            verbose := ← isVerbose before after environment.verbose
            color := ((after.color.or before.color).getD .auto)
            settingsPath := (after.settingsPath.or before.settingsPath).or environment.settingsPath
            task }

end RunStream.Command
