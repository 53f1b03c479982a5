set_option autoImplicit false

namespace RunStream.Command

inductive Level where
  | error
  | warning
  | info
  | debug
  | trace
deriving DecidableEq, Repr

namespace Level

def rank : Level → Nat
  | .error => 1
  | .warning => 2
  | .info => 3
  | .debug => 4
  | .trace => 5

def heading : Level → String
  | .error => "error"
  | .warning => "warning"
  | .info => "info"
  | .debug => "debug"
  | .trace => "trace"

def attributes : Level → String
  | .error => "31;1"
  | .warning => "33;1"
  | .info => "1"
  | .debug => "1"
  | .trace => "2"

end Level

structure Span where
  text : String
  attributes : Option String := none
deriving DecidableEq, Repr

instance : Coe String Span where
  coe text := { text }

namespace Span

def name (text : String) : Span :=
  { text, attributes := some "1" }

def count (n : Nat) : Span :=
  { text := toString n, attributes := some "32;1" }

def render (colored : Bool) (span : Span) : String :=
  match span.attributes with
  | some attributes =>
      if colored then "\x1b[" ++ attributes ++ "m" ++ span.text ++ "\x1b[0m" else span.text
  | none => span.text

end Span

structure Entry where
  origin : String
  level : Level
  text : List Span
deriving DecidableEq, Repr

namespace Entry

def continuation : String := "suite_reporter::no_heading"

def plain (origin : String) (level : Level) (text : String) : Entry :=
  { origin, level, text := [text] }

def render (colored : Bool) (entry : Entry) : String :=
  let heading : List Span :=
    if entry.origin = continuation then []
    else [{ text := entry.level.heading, attributes := some entry.level.attributes }, ": "]
  String.join ((heading ++ entry.text).map (Span.render colored)) ++ "\n"

end Entry

structure Directive where
  origin : Option String := none
  fields : List String := []
  limit : Nat
deriving DecidableEq, Repr

inductive FilterError where
  | manyEquals
  | manyFieldLists
  | openFieldList
  | badLevel
deriving DecidableEq, Repr

def FilterError.message : FilterError → String
  | .manyEquals =>
      "invalid filter directive: too many '=' in filter directive, expected 0 or 1"
  | .manyFieldLists =>
      "invalid filter directive: too many '[\x7b' in filter directive, expected 0 or 1"
  | .openFieldList => "invalid filter directive: expected fields list to end with '\x7d]'"
  | .badLevel =>
      "error parsing level filter: expected one of \"off\", \"error\", \"warn\", \"info\", " ++
        "\"debug\", \"trace\", or a number 0-5"

def limitNames : List String := ["off", "error", "warn", "info", "debug", "trace"]

def limitOfNumeral? (text : List Char) : Option Nat :=
  let digits := if text.head? = some '+' then text.tail else text
  if !digits.isEmpty && digits.all Char.isDigit then
    match digits.dropWhile (· == '0') with
    | [] => some 0
    | [digit] => if digit ≤ '5' then some (digit.toNat - '0'.toNat) else none
    | _ => none
  else none

def limit? (text : String) : Option Nat :=
  match limitOfNumeral? text.toList with
  | some limit => some limit
  | none =>
      if text = "" then some Level.error.rank else limitNames.idxOf? (text.map Char.toLower)

def dropListEnds : List Char → List Char
  | ']' :: '\x7d' :: rest => dropListEnds rest
  | text => text

/-- The fields in a list that lacks its beginning, if it has its end. -/
def fields? (text : String) : Option (List String) :=
  match text.toList.reverse with
  | ']' :: '\x7d' :: rest =>
      match (dropListEnds rest).reverse with
      | [] => some []
      | field => some [String.ofList field]
  | _ => none

namespace Directive

def read (text : String) : Except FilterError Directive :=
  match text.splitOn "=" with
  | [single] =>
      match limit? single with
      | some limit => .ok { limit }
      | none => .ok { origin := some single, limit := Level.trace.rank }
  | [left, right] => do
      let (origin, fields) ←
        match left.splitOn "[\x7b" with
        | [_] => .ok (left, [])
        | [origin, list] =>
            match fields? list with
            | some fields => .ok (origin, fields)
            | none => .error .openFieldList
        | _ => .error .manyFieldLists
      match limit? right with
      | some limit => return { origin := some origin, fields, limit }
      | none => .error .badLevel
  | _ => .error .manyEquals

-- Whether a rule is about an entry. An entry has one field, its message.
def concerns (directive : Directive) (entry : Entry) : Bool :=
  (directive.origin.all fun beginning => beginning.toList.isPrefixOf entry.origin.toList) &&
    directive.fields.all (· == "message")

def atMostAsSpecific (a b : Directive) : Bool :=
  let weight (directive : Directive) : Nat :=
    directive.origin.elim 0 fun beginning => beginning.utf8ByteSize + 1
  weight a < weight b || (weight a == weight b && a.fields.length ≤ b.fields.length)

end Directive

structure Filter where
  directives : List Directive
deriving DecidableEq, Repr

namespace Filter

def read (text : String) : Except FilterError Filter :=
  Filter.mk <$> (text.splitOn ",").mapM Directive.read

def deciding? (filter : Filter) (entry : Entry) : Option Directive :=
  (filter.directives.filter fun directive => directive.concerns entry).foldl
    (fun best directive =>
      match best with
      | none => some directive
      | some other => if other.atMostAsSpecific directive then some directive else some other)
    none

def admits (filter : Filter) (entry : Entry) : Bool :=
  (filter.deciding? entry).any fun directive => entry.level.rank ≤ directive.limit

def render (filter : Filter) (colored : Bool) (log : List Entry) : String :=
  String.join ((log.filter filter.admits).map (Entry.render colored))

end Filter

end RunStream.Command
