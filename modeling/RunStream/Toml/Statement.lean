import RunStream.Toml.Draft
import RunStream.Toml.Quoted
import RunStream.Toml.Scalar

set_option autoImplicit false

namespace RunStream.Toml

inductive Statement where
  -- `[PATH]`
  | header (path : List String)
  -- `[[PATH]]`
  | itemHeader (path : List String)
  -- `PATH = VALUE`
  | assign (path : List String) (value : Value)
deriving Repr

def nestingLimit : Nat := 80

def keyLimit : Nat := 80

def skipGaps (text : List Char) : List Char :=
  text.dropWhile isGap

def skipLayout (inComment : Bool) : List Char → Option (List Char)
  | [] => some []
  | '\n' :: rest => skipLayout false rest
  | '\r' :: '\n' :: rest => skipLayout false rest
  | c :: rest =>
      if inComment then if isPlain c then skipLayout true rest else none
      else if c = '#' then skipLayout true rest
      else if isGap c then skipLayout false rest
      else some (c :: rest)

def isBareKeyChar (c : Char) : Bool :=
  c.isAlphanum || c == '-' || c == '_'

def readKeyPart (text : List Char) : Option (String × List Char) :=
  match text with
  | '"' :: _ | '\'' :: _ => (readSingle text).map fun (key, after) => (String.ofList key, after)
  | _ =>
      let key := text.takeWhile isBareKeyChar
      if key.isEmpty then none else some (String.ofList key, text.dropWhile isBareKeyChar)

def readKey : (limit : Nat) → List Char → Option (List String × List Char)
  | 0, _ => none
  | limit + 1, text => do
      let (key, after) ← readKeyPart (skipGaps text)
      match skipGaps after with
      | '.' :: rest =>
          let (path, after) ← readKey limit rest
          return (key :: path, after)
      | rest => return ([key], rest)

def isScalarChar (c : Char) : Bool :=
  !(isGap c || c == '\n' || c == '\r' || c == '#' || c == ',' || c == '=' ||
    c == '[' || c == ']' || c == '\x7b' || c == '\x7d')

-- Whether an unquoted value goes on after gaps, as a date does with its time.
def resumesScalar (text : List Char) : Bool :=
  match skipGaps text with
  | c :: _ => isScalarChar c && c != '.' && c != '"' && c != '\''
  | [] => false

def cutScalar : List Char → List Char × List Char
  | [] => ([], [])
  | c :: rest =>
      if isScalarChar c || (isGap c && resumesScalar rest) then
        let (run, after) := cutScalar rest
        (c :: run, after)
      else ([], c :: rest)

def readScalar (text : List Char) : Option (Value × List Char) :=
  let (run, after) := cutScalar text
  (scalar? run).map fun value => (value, after)

mutual

/-- At most `depth` brackets and braces are nested.  The limit bounds the steps, two for each
character. -/
def readValue : (limit depth : Nat) → List Char → Option (Value × List Char)
  | 0, _, _ => none
  | limit + 1, depth, text =>
      match text with
      | '[' :: rest =>
          if depth = 0 then none
          else (readItems limit (depth - 1) rest).map fun (items, after) => (.array items, after)
      | '\x7b' :: rest =>
          if depth = 0 then none
          else
            (readEntries limit (depth - 1) [] rest).map fun (draft, after) =>
              (.table draft.toTable, after)
      | '"' :: _ | '\'' :: _ =>
          (readQuoted text).map fun (value, after) => (.string (String.ofList value), after)
      | _ => readScalar text

def readItems : (limit depth : Nat) → List Char → Option (List Value × List Char)
  | 0, _, _ => none
  | limit + 1, depth, text => do
      let text ← skipLayout false text
      match text with
      | ']' :: after => return ([], after)
      | _ =>
          let (item, after) ← readValue limit depth text
          match ← skipLayout false after with
          | ',' :: rest =>
              let (items, after) ← readItems limit depth rest
              return (item :: items, after)
          | ']' :: after => return ([item], after)
          | _ => none

def readEntries :
    (limit depth : Nat) → (draft : Draft) → List Char → Option (Draft × List Char)
  | 0, _, _, _ => none
  | limit + 1, depth, draft, text => do
      let text ← skipLayout false text
      match text with
      | '\x7d' :: after => return (draft, after)
      | _ =>
          let (path, after) ← readKey keyLimit text
          match ← skipLayout false after with
          | '=' :: rest =>
              let (value, after) ← readValue limit depth (← skipLayout false rest)
              let draft ← draft.assign path value
              match ← skipLayout false after with
              | ',' :: rest => readEntries limit depth draft rest
              | '\x7d' :: after => return (draft, after)
              | _ => none
          | _ => none

end

def endStatement (text : List Char) : Option (List Char) :=
  match skipGaps text with
  | [] => some []
  | c :: rest => if c = '\n' ∨ c = '\r' ∨ c = '#' then skipLayout false (c :: rest) else none

def readStatement (text : List Char) : Option (Statement × List Char) := do
  match text with
  | '[' :: '[' :: rest =>
      let (path, after) ← readKey keyLimit rest
      match after with
      | ']' :: ']' :: after => return (.itemHeader path, after)
      | _ => none
  | '[' :: rest =>
      let (path, after) ← readKey keyLimit rest
      match after with
      | ']' :: after => return (.header path, after)
      | _ => none
  | _ =>
      let (path, after) ← readKey keyLimit text
      match after with
      | '=' :: rest =>
          let (value, after) ← readValue (2 * rest.length + 2) nestingLimit (skipGaps rest)
          return (.assign path value, after)
      | _ => none

def readStatements : (limit : Nat) → List Char → Option (List Statement)
  | 0, _ => none
  | limit + 1, text =>
      if text.isEmpty then some []
      else do
        let (statement, after) ← readStatement text
        return statement :: (← readStatements limit (← endStatement after))

end RunStream.Toml
