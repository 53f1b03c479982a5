import RunStream.Text.Blank
import RunStream.Wire.Message

set_option autoImplicit false

namespace RunStream.Wire

open RunStream.Text

/-- Offsets count from the start of the line. -/
inductive ParseError where
  | missingOpening (protocol : String)
  | unterminated
  | emptyName
  | malformedAttribute (offset : Nat)
  -- The offset inside the cause counts from the start of the value.
  | invalidEscape (key : String) (cause : UnescapeError)
deriving DecidableEq, Repr

def ParseError.message : ParseError → String
  | .missingOpening protocol =>
      "line does not start with `" ++ Message.opening protocol ++ "`"
  | .unterminated => "line is not terminated by `]`"
  | .emptyName => "message name is empty"
  | .malformedAttribute offset => s!"malformed attribute at offset {offset}"
  | .invalidEscape key _ => "invalid escape in value of attribute `" ++ key ++ "`"

def ParseError.cause? : ParseError → Option UnescapeError
  | .invalidEscape _ cause => some cause
  | _ => none

def isWord (text : List Char) : Bool :=
  !text.isEmpty && !text.contains ' '

/-- A quote that an unpaired bar precedes does not close. -/
def readQuoted : List Char → Option (List Char × List Char)
  | [] => none
  | '\'' :: rest => some ([], rest)
  | '|' :: [] => none
  | '|' :: c :: rest => (readQuoted rest).map fun (raw, after) => ('|' :: c :: raw, after)
  | c :: rest => (readQuoted rest).map fun (raw, after) => (c :: raw, after)

theorem readQuoted_shorter (text raw after : List Char)
    (found : readQuoted text = some (raw, after)) : after.length < text.length := by
  fun_induction readQuoted text generalizing raw after with
  | case1 => simp at found
  | case2 rest =>
      simp only [Option.some.injEq, Prod.mk.injEq] at found
      simp [← found.2]
  | case3 => simp at found
  | case4 c rest ih =>
      obtain ⟨⟨raw', after'⟩, read, same⟩ := Option.map_eq_some_iff.mp found
      simp only [Prod.mk.injEq] at same
      have shorter := ih raw' after' read
      simp only [List.length_cons, ← same.2]
      omega
  | case5 c rest _ _ _ ih =>
      obtain ⟨⟨raw', after'⟩, read, same⟩ := Option.map_eq_some_iff.mp found
      simp only [Prod.mk.injEq] at same
      have shorter := ih raw' after' read
      simp only [List.length_cons, ← same.2]
      omega

def skipSpaces (text : List Char) : List Char :=
  text.dropWhile (· == ' ')

theorem skipSpaces_length_le (text : List Char) : (skipSpaces text).length ≤ text.length :=
  (List.dropWhile_sublist (· == ' ')).length_le

def readValue (text : List Char) : Option (List Char × List Char) :=
  match skipSpaces text with
  | '\'' :: quoted => readQuoted quoted
  | _ => none

theorem readValue_shorter (text raw after : List Char)
    (found : readValue text = some (raw, after)) : after.length < text.length := by
  have skipped := skipSpaces_length_le text
  unfold readValue at found
  split at found
  · next quoted start =>
      have shorter := readQuoted_shorter quoted raw after found
      rw [start] at skipped
      simp only [List.length_cons] at skipped
      omega
  · simp at found

def keyPart (text : List Char) : List Char :=
  trimEndWhere (· == ' ') (text.takeWhile (· != '='))

def splitAttribute (text : List Char) : Option (List Char × List Char × List Char) :=
  match text.dropWhile (· != '=') with
  | [] => none
  | _ :: afterEquals =>
      if isWord (keyPart text) then
        (readValue afterEquals).map fun (raw, after) => (keyPart text, raw, after)
      else none

theorem splitAttribute_shorter (text key raw after : List Char)
    (found : splitAttribute text = some (key, raw, after)) : after.length < text.length := by
  have dropped := (List.dropWhile_sublist (· != '=') (l := text)).length_le
  unfold splitAttribute at found
  split at found
  · simp at found
  · next equals afterEquals tail =>
      rw [tail] at dropped
      split at found
      · obtain ⟨⟨raw', after'⟩, read, same⟩ := Option.map_eq_some_iff.mp found
        simp only [Prod.mk.injEq] at same
        have shorter := readValue_shorter afterEquals raw' after' read
        simp only [List.length_cons, same.2.2] at *
        omega
      · simp at found

def readAttributes (stop : Nat) (text : List Char) :
    Except ParseError (List (String × String)) :=
  if (skipSpaces text).isEmpty then .ok []
  else
    match _found : splitAttribute (skipSpaces text) with
    | none => .error (.malformedAttribute (stop - width (skipSpaces text)))
    | some (key, raw, rest) =>
        match unescapeFrom 0 raw with
        | .error cause => .error (.invalidEscape (String.ofList key) cause)
        | .ok value =>
            ((String.ofList key, String.ofList value) :: ·) <$> readAttributes stop rest
termination_by text.length
decreasing_by
  have shorter := splitAttribute_shorter (skipSpaces text) key raw rest ‹_›
  have skipped := skipSpaces_length_le text
  omega

def readBody (stop : Nat) (body : List Char) : Except ParseError Message :=
  let name := body.takeWhile (· != ' ')
  if name.isEmpty then .error .emptyName
  else do
    let attributes ← readAttributes stop (body.dropWhile (· != ' '))
    return { name := String.ofList name, attributes }

def isLineEnding (c : Char) : Bool :=
  c == '\n' || c == '\r'

def parseChars (protocol : String) (line : List Char) : Except ParseError Message :=
  let line := trimEndWhere isLineEnding line
  match (Message.opening protocol).toList.isPrefixOf? line with
  | none => .error (.missingOpening protocol)
  | some rest =>
      if rest.getLast? = some ']' then readBody (width line - 1) rest.dropLast
      else .error .unterminated

def Message.parse (protocol : String) (line : String) : Except ParseError Message :=
  parseChars protocol line.toList

end RunStream.Wire
