import RunStream.Folder
import RunStream.Settings
import RunStream.Text.Literal
import RunStream.Toml.Document
import RunStream.Toml.Range

set_option autoImplicit false

namespace RunStream

open Text

structure Overrides where
  protocol : Option String := none
  locationScheme : Option String := none
  announceUndescribed : Option Bool := none
  wrapOrphans : Option Bool := none
deriving DecidableEq, Repr

namespace Overrides

-- The settings with what the document sets. An empty location scheme means none.
def resolve (overrides : Overrides) (defaults : Settings) : Settings where
  protocol := overrides.protocol.getD defaults.protocol
  locationScheme :=
    match overrides.locationScheme with
    | some scheme => if scheme = "" then none else some scheme
    | none => defaults.locationScheme
  announceUndescribed := overrides.announceUndescribed.getD defaults.announceUndescribed
  wrapOrphans := overrides.wrapOrphans.getD defaults.wrapOrphans

end Overrides

namespace SettingsDocument

open Toml (Value Table)

def string? : Value → Option String
  | .string text => some text
  | _ => none

def boolean? : Value → Option Bool
  | .boolean value => some value
  | _ => none

/-- The value under a key, if the key is set.  The outer `none` means a value of the wrong type. -/
def field? {α : Type} (decode : Value → Option α) (table : Table) (key : String) :
    Option (Option α) :=
  match table.lookup key with
  | none => some none
  | some value => (decode value).map some

def unknownKeys? (known : List String) (table : Table) : Option (List String) :=
  let unknown := table.filter fun entry => !known.contains entry.1
  if Toml.entriesFit unknown then some (unknown.map Prod.fst) else none

def momentKey : String := "$__toml_private_datetime"

/-- A section may also be given as an array that starts with its two values, of which nothing else
is looked at, and a moment counts as a table with a key of its own. -/
def readSection? {α : Type} (decode : Value → Option α) (first second : String) :
    Value → Option ((Option α × Option α) × List String)
  | .table entries => do
      let a ← field? decode entries first
      let b ← field? decode entries second
      return ((a, b), ← unknownKeys? [first, second] entries)
  | .array (a :: b :: _) => do return ((some (← decode a), some (← decode b)), [])
  | .moment _ => some ((none, none), [momentKey])
  | _ => none

def messagesName : String := "messages"
def protocolKey : String := "protocol-name"
def schemeKey : String := "location-protocol"
def liveName : String := "live"
def announceKey : String := "announce-untreed-runs"
def wrapKey : String := "wrap-orphan-leaves"

def qualified (name key : String) : String :=
  name ++ "." ++ key

def protocolPath : String :=
  qualified messagesName protocolKey

def schemePath : String :=
  qualified messagesName schemeKey

def decode? (document : Table) : Option (Overrides × List String) := do
  let (messages, unknownMessages) ←
    readSection? string? protocolKey schemeKey ((document.lookup messagesName).getD (.table []))
  let (live, unknownLive) ←
    readSection? boolean? announceKey wrapKey ((document.lookup liveName).getD (.table []))
  let unknownSections ← unknownKeys? [messagesName, liveName] document
  return ({
    protocol := messages.1
    locationScheme := messages.2
    announceUndescribed := live.1
    wrapOrphans := live.2 },
    unknownSections ++ unknownMessages.map (qualified messagesName) ++
      unknownLive.map (qualified liveName))

def insertSorted (key : String) : List String → List String
  | [] => [key]
  | first :: rest =>
      if key < first then key :: first :: rest
      else if key = first then first :: rest
      else first :: insertSorted key rest

def sorted (keys : List String) : List String :=
  keys.foldr insertSorted []

end SettingsDocument

inductive Complaint where
  | empty
  | contains (found : Char)
  | colonOrBlank
deriving DecidableEq, Repr

def Complaint.message : Complaint → String
  | .empty => "must not be empty"
  | .contains found => "must not contain " ++ charLiteral found
  | .colonOrBlank => "must not contain `:` or whitespace"

def endsProtocol (c : Char) : Bool :=
  isBlank c || c == '[' || c == ']' || c == '\'' || c == '|'

namespace Settings

def complaint? (settings : Settings) : Option (String × Complaint) :=
  if settings.protocol = "" then some (SettingsDocument.protocolPath, .empty)
  else
    match settings.protocol.toList.find? endsProtocol with
    | some found => some (SettingsDocument.protocolPath, .contains found)
    | none =>
        if (settings.locationScheme.getD "").toList.any fun c => c == ':' || isBlank c then
          some (SettingsDocument.schemePath, .colonOrBlank)
        else none

end Settings

inductive SettingsError where
  | unreadable (path : String) (cause : ReadError)
  | unparsable (path : String)
  | invalidValue (path key : String) (complaint : Complaint)
deriving DecidableEq, Repr

namespace SettingsError

def message : SettingsError → String
  | .unreadable path _ => "failed to read reporter config at `" ++ path ++ "`"
  | .unparsable path => "failed to parse reporter config at `" ++ path ++ "`"
  | .invalidValue path key complaint =>
      "in reporter config at `" ++ path ++ "`, invalid value for `" ++ key ++ "`: " ++
        complaint.message

def cause? : SettingsError → Option ReadError
  | .unreadable _ cause => some cause
  | _ => none

end SettingsError

structure LoadedSettings where
  unknown : List String := []
  result : Except SettingsError Settings

namespace Settings

def ofDocument (path : String) (document : Toml.Table) : LoadedSettings :=
  match SettingsDocument.decode? document with
  | none => { result := .error (.unparsable path) }
  | some (overrides, unknown) =>
      let settings := overrides.resolve {}
      {
        unknown := SettingsDocument.sorted unknown
        result :=
          match settings.complaint? with
          | some (key, complaint) => .error (.invalidValue path key complaint)
          | none => .ok settings }

def ofText (path text : String) : LoadedSettings :=
  match Toml.parse? text with
  | none => { result := .error (.unparsable path) }
  | some document => ofDocument path document

def ofFile (path : String) (content : Except ReadError String) : LoadedSettings :=
  match content with
  | .error cause => { result := .error (.unreadable path cause) }
  | .ok text => ofText path text

end Settings

def LoadedSettings.warning? (path : String) (loaded : LoadedSettings) : Option String :=
  let intro := "in reporter config file " ++ path ++ ", ignoring unknown configuration "
  match loaded.unknown with
  | [] => none
  | [key] => some (intro ++ "key: " ++ key)
  | keys => some (intro ++ "keys:\n" ++ String.join (keys.map fun key => "\n  - " ++ key))

end RunStream
