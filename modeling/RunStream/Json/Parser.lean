import RunStream.Json.Number
import RunStream.Json.Value

set_option autoImplicit false

namespace RunStream.Json

open Text

def nestingLimit : Nat := 127

def isGap (c : Char) : Bool :=
  c == ' ' || c == '\n' || c == '\t' || c == '\r'

def skipGaps (text : List Char) : List Char :=
  text.dropWhile isGap

def letterEscape? (letter : Char) : Option Char :=
  if letter = '"' then some '"'
  else if letter = '\\' then some '\\'
  else if letter = '/' then some '/'
  else if letter = 'b' then some '\x08'
  else if letter = 'f' then some '\x0c'
  else if letter = 'n' then some '\n'
  else if letter = 'r' then some '\r'
  else if letter = 't' then some '\t'
  else none

def unit? (text : List Char) : Option Nat :=
  if text.length < 4 then none else numeral? hexDigit? 16 (text.take 4)

def isHighSurrogate (unit : Nat) : Bool :=
  decide (0xD800 ≤ unit ∧ unit ≤ 0xDBFF)

def isLowSurrogate (unit : Nat) : Bool :=
  decide (0xDC00 ≤ unit ∧ unit ≤ 0xDFFF)

/-- A character beyond the first plane is named by a pair of surrogates. -/
def codeEscape? (text : List Char) : Option (Char × Nat) := do
  let high ← unit? text
  if isHighSurrogate high then
    match text.drop 4 with
    | '\\' :: 'u' :: rest =>
        let low ← unit? rest
        if isLowSurrogate low then
          return (← charOfCode? (0x10000 + (high - 0xD800) * 0x400 + (low - 0xDC00)), 10)
        else none
    | _ => none
  else return (← charOfCode? high, 4)

def readString (text : List Char) : Option (List Char × List Char) :=
  match text with
  | [] => none
  | c :: rest =>
      if c = '"' then some ([], rest)
      else if c = '\\' then
        match rest with
        | [] => none
        | letter :: rest =>
            if letter = 'u' then do
              let (decoded, taken) ← codeEscape? rest
              let (more, after) ← readString (rest.drop taken)
              return (decoded :: more, after)
            else do
              let decoded ← letterEscape? letter
              let (more, after) ← readString rest
              return (decoded :: more, after)
      else if c < ' ' then none
      else (readString rest).map fun (more, after) => (c :: more, after)
termination_by text.length
decreasing_by
  · simp only [List.length_cons, List.length_drop]
    omega
  · simp only [List.length_cons]
    omega
  · simp

def isDigit (c : Char) : Bool :=
  (decimalDigit? c).isSome

def readDigits (text : List Char) : Option (List Char × List Char) :=
  let digits := text.takeWhile isDigit
  if digits.isEmpty then none else some (digits, text.dropWhile isDigit)

def readWhole (text : List Char) : Option (List Char × List Char) := do
  let (digits, after) ← readDigits text
  if digits.head? = some '0' ∧ digits.length ≠ 1 then none else return (digits, after)

def readFraction : List Char → Option (List Char × List Char)
  | '.' :: rest => readDigits rest
  | text => some ([], text)

def readExponent (text : List Char) : Option (Int × List Char) :=
  match text with
  | c :: rest =>
      if c = 'e' ∨ c = 'E' then do
        let (negative, rest) := match rest with
          | '-' :: rest => (true, rest)
          | '+' :: rest => (false, rest)
          | rest => (false, rest)
        let (digits, after) ← readDigits rest
        let size ← numeral? decimalDigit? 10 digits
        return (if negative then -(size : Int) else size, after)
      else some (0, text)
  | [] => some (0, [])

def readNumber (text : List Char) : Option (Value × List Char) := do
  let (negative, text) := match text with
    | '-' :: rest => (true, rest)
    | text => (false, text)
  let (whole, after) ← readWhole text
  let (fraction, after) ← readFraction after
  let (exponent, after) ← readExponent after
  let size :=
    readDecimal (whole.filterMap decimalDigit?) (fraction.filterMap decimalDigit?) exponent
  if isInfinite size then none else return (.number negative size, after)

def expect (word : String) (text : List Char) : Option (List Char) :=
  word.toList.isPrefixOf? text

mutual

/-- At most `depth` arrays and objects are nested.  The limit bounds the steps, two for each
character. -/
def readValue : (limit depth : Nat) → List Char → Option (Value × List Char)
  | 0, _, _ => none
  | limit + 1, depth, text =>
      match text with
      | '[' :: rest =>
          if depth = 0 then none
          else
            match skipGaps rest with
            | ']' :: after => some (.array [], after)
            | rest =>
                (readItems limit (depth - 1) rest).map fun (items, after) =>
                  (.array items, after)
      | '\x7b' :: rest =>
          if depth = 0 then none
          else
            match skipGaps rest with
            | '\x7d' :: after => some (.object [], after)
            | rest =>
                (readEntries limit (depth - 1) rest).map fun (entries, after) =>
                  (.object entries, after)
      | '"' :: rest =>
          (readString rest).map fun (value, after) => (.string (String.ofList value), after)
      | 'n' :: _ => (expect "null" text).map fun after => (.null, after)
      | 't' :: _ => (expect "true" text).map fun after => (.boolean true, after)
      | 'f' :: _ => (expect "false" text).map fun after => (.boolean false, after)
      | _ => readNumber text

def readItems : (limit depth : Nat) → List Char → Option (List Value × List Char)
  | 0, _, _ => none
  | limit + 1, depth, text => do
      let (item, after) ← readValue limit depth text
      match skipGaps after with
      | ',' :: rest =>
          let (items, after) ← readItems limit depth (skipGaps rest)
          return (item :: items, after)
      | ']' :: after => return ([item], after)
      | _ => none

def readEntries : (limit depth : Nat) → List Char → Option (List (String × Value) × List Char)
  | 0, _, _ => none
  | limit + 1, depth, text => do
      match text with
      | '"' :: rest =>
          let (key, after) ← readString rest
          match skipGaps after with
          | ':' :: rest =>
              let (value, after) ← readValue limit depth (skipGaps rest)
              match skipGaps after with
              | ',' :: rest =>
                  let (entries, after) ← readEntries limit depth (skipGaps rest)
                  return ((String.ofList key, value) :: entries, after)
              | '\x7d' :: after => return ([(String.ofList key, value)], after)
              | _ => none
          | _ => none
      | _ => none

end

def parse? (text : String) : Option Value := do
  let start := skipGaps text.toList
  let (value, after) ← readValue (2 * start.length + 2) nestingLimit start
  if (skipGaps after).isEmpty then return value else none

end RunStream.Json
