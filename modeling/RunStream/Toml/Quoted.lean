import RunStream.Toml.Value

set_option autoImplicit false

namespace RunStream.Toml

open Text

-- A character that may stand in a text or a comment: no control character but the tab.
def isPlain (c : Char) : Bool :=
  c == '\t' || (decide (' ' ≤ c) && c != '\x7f')

def isGap (c : Char) : Bool :=
  c == ' ' || c == '\t'

/-- With `escapes`, a backslash keeps the next character from closing. -/
def cutSingle (quote : Char) (escapes : Bool) : List Char → Option (List Char × List Char)
  | [] => none
  | c :: rest =>
      if c = quote then some ([], rest)
      else if escapes && c == '\\' then
        match rest with
        | [] => none
        | d :: rest => (cutSingle quote escapes rest).map fun (raw, after) => (c :: d :: raw, after)
      else (cutSingle quote escapes rest).map fun (raw, after) => (c :: raw, after)

/-- Up to two quotes right before the closing ones belong to the text. -/
def cutTripled (quote : Char) (escapes : Bool) : List Char → Option (List Char × List Char)
  | [] => none
  | c :: rest =>
      if c = quote ∧ rest.take 2 = [quote, quote] then
        let extra := ((rest.drop 2).take 2).takeWhile (· == quote)
        some (extra, rest.drop (2 + extra.length))
      else if escapes && c == '\\' then
        match rest with
        | [] => none
        | d :: rest =>
            (cutTripled quote escapes rest).map fun (raw, after) => (c :: d :: raw, after)
      else (cutTripled quote escapes rest).map fun (raw, after) => (c :: raw, after)

-- Whether a text may hold the character, given what follows it. A carriage return needs its line
-- feed.
def isAllowed (breaks : Bool) (c : Char) (rest : List Char) : Bool :=
  isPlain c || (breaks && (c == '\n' || (c == '\r' && rest.head? == some '\n')))

def decodeLiteral (breaks : Bool) : List Char → Option (List Char)
  | [] => some []
  | c :: rest =>
      if isAllowed breaks c rest then (decodeLiteral breaks rest).map (c :: ·) else none

def letterEscape? (letter : Char) : Option Char :=
  if letter = 'b' then some '\x08'
  else if letter = 't' then some '\t'
  else if letter = 'n' then some '\n'
  else if letter = 'f' then some '\x0c'
  else if letter = 'r' then some '\r'
  else if letter = 'e' then some '\x1b'
  else if letter = '"' then some '"'
  else if letter = '\\' then some '\\'
  else none

def codeLength? (letter : Char) : Option Nat :=
  if letter = 'x' then some 2
  else if letter = 'u' then some 4
  else if letter = 'U' then some 8
  else none

def codeEscape? (length : Nat) (text : List Char) : Option Char :=
  if text.length < length then none
  else numeral? hexDigit? 16 (text.take length) >>= charOfCode?

def skipBreaks : List Char → List Char
  | '\r' :: '\n' :: rest => skipBreaks rest
  | c :: rest => if isGap c || c == '\n' then skipBreaks rest else c :: rest
  | [] => []

theorem skipBreaks_length_le (text : List Char) : (skipBreaks text).length ≤ text.length := by
  fun_induction skipBreaks text with
  | case1 rest ih =>
      simp only [List.length_cons]
      omega
  | case2 c rest _ _ ih =>
      simp only [List.length_cons]
      omega
  | case3 => simp
  | case4 => simp

/-- What follows the line break behind a backslash and all gaps and breaks after it. -/
def afterFold? (text : List Char) : Option (List Char) :=
  match text.dropWhile isGap with
  | '\n' :: rest => some (skipBreaks rest)
  | '\r' :: '\n' :: rest => some (skipBreaks rest)
  | _ => none

theorem afterFold?_shorter (text after : List Char) (found : afterFold? text = some after) :
    after.length < text.length + 1 := by
  have dropped := (List.dropWhile_sublist isGap (l := text)).length_le
  unfold afterFold? at found
  split at found
  · next rest tail =>
      have skipped := skipBreaks_length_le rest
      simp only [Option.some.injEq] at found
      simp only [tail, List.length_cons, ← found] at *
      omega
  · next rest tail =>
      have skipped := skipBreaks_length_le rest
      simp only [Option.some.injEq] at found
      simp only [tail, List.length_cons, ← found] at *
      omega
  · simp at found

def decodeBasic (breaks : Bool) (text : List Char) : Option (List Char) :=
  match text with
  | [] => some []
  | c :: rest =>
      if c = '\\' then
        match _found : if breaks then afterFold? rest else none with
        | some after => decodeBasic breaks after
        | none =>
            match rest with
            | [] => none
            | letter :: rest =>
                match codeLength? letter with
                | some length => do
                    let decoded ← codeEscape? length rest
                    (decoded :: ·) <$> decodeBasic breaks (rest.drop length)
                | none => do
                    let decoded ← letterEscape? letter
                    (decoded :: ·) <$> decodeBasic breaks rest
      else if isAllowed breaks c rest then (c :: ·) <$> decodeBasic breaks rest
      else none
termination_by text.length
decreasing_by
  · have shorter := afterFold?_shorter rest after (by
      cases breaks <;> simp_all)
    simpa using shorter
  · simp only [List.length_cons, List.length_drop]
    omega
  · simp only [List.length_cons]
    omega
  · simp

-- A line break right after three opening quotes is no part of the text.
def dropFirstBreak : List Char → List Char
  | '\n' :: rest => rest
  | '\r' :: '\n' :: rest => rest
  | text => text

def readSingle (text : List Char) : Option (List Char × List Char) :=
  match text with
  | '"' :: rest => do
      let (raw, after) ← cutSingle '"' true rest
      return (← decodeBasic false raw, after)
  | '\'' :: rest => do
      let (raw, after) ← cutSingle '\'' false rest
      return (← decodeLiteral false raw, after)
  | _ => none

def readQuoted (text : List Char) : Option (List Char × List Char) :=
  match text with
  | '"' :: '"' :: '"' :: rest => do
      let (raw, after) ← cutTripled '"' true (dropFirstBreak rest)
      return (← decodeBasic true raw, after)
  | '\'' :: '\'' :: '\'' :: rest => do
      let (raw, after) ← cutTripled '\'' false (dropFirstBreak rest)
      return (← decodeLiteral true raw, after)
  | _ => readSingle text

end RunStream.Toml
