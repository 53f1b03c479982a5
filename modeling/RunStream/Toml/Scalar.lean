import RunStream.Toml.Value

set_option autoImplicit false

namespace RunStream.Toml

open Text

def digitRun? (digit? : Char → Option Nat) : List Char → Option (List Char)
  | [] => none
  | [c] => if (digit? c).isSome then some [c] else none
  | c :: next :: rest =>
      if (digit? c).isSome then
        if next = '_' then (digitRun? digit? rest).map (c :: ·)
        else (digitRun? digit? (next :: rest)).map (c :: ·)
      else none

-- Splits off a sign; `true` means negative.
def splitSign : List Char → Bool × List Char
  | '-' :: rest => (true, rest)
  | '+' :: rest => (false, rest)
  | text => (false, text)

-- The digits of a decimal numeral. Only zero itself may start with a zero.
def wholeRun? (text : List Char) : Option (List Char) :=
  match digitRun? decimalDigit? text with
  | some ('0' :: _ :: _) => none
  | other => other

def markedInteger? : List Char → Option Nat
  | '0' :: 'x' :: digits => digitRun? hexDigit? digits >>= numeral? hexDigit? 16
  | '0' :: 'o' :: digits =>
      digitRun? (fun c => (decimalDigit? c).filter (· < 8)) digits >>= numeral? decimalDigit? 8
  | '0' :: 'b' :: digits =>
      digitRun? (fun c => (decimalDigit? c).filter (· < 2)) digits >>= numeral? decimalDigit? 2
  | _ => none

def integer? (text : List Char) : Option Int :=
  match markedInteger? text with
  | some value => some value
  | none => do
      let (negative, digits) := splitSign text
      let value ← wholeRun? digits >>= numeral? decimalDigit? 10
      return if negative then -(value : Int) else value

def exponent? (text : List Char) : Option Int := do
  let (negative, digits) := splitSign text
  let value ← digitRun? decimalDigit? digits >>= numeral? decimalDigit? 10
  return if negative then -(value : Int) else value

def decimal? (text : List Char) : Option Decimal := do
  let isMark := fun c => c == 'e' || c == 'E'
  let mantissa := text.takeWhile fun c => !isMark c
  let whole ← wholeRun? (mantissa.takeWhile (· != '.'))
  let fraction ← match mantissa.dropWhile (· != '.') with
    | [] => some none
    | _ :: digits => (digitRun? decimalDigit? digits).map some
  let exponent ← match text.dropWhile fun c => !isMark c with
    | [] => some none
    | _ :: digits => (exponent? digits).map some
  if fraction.isNone && exponent.isNone then none
  else
    let places := fraction.getD []
    let digits ← numeral? decimalDigit? 10 (whole ++ places)
    return { digits, exponent := exponent.getD 0 - places.length }

def real? (text : List Char) : Option Real :=
  let (negative, size) := splitSign text
  if size = ['i', 'n', 'f'] then some (.infinity negative)
  else if size = ['n', 'a', 'n'] then some .notANumber
  else (decimal? size).map (.decimal negative)

def fixed? (count : Nat) (text : List Char) : Option Nat :=
  if text.length = count then numeral? decimalDigit? 10 text else none

def isLeapYear (year : Nat) : Bool :=
  (year % 4 == 0 && year % 100 != 0) || year % 400 == 0

def daysInMonth (year month : Nat) : Nat :=
  if month = 2 then if isLeapYear year then 29 else 28
  else if month ∈ [4, 6, 9, 11] then 30
  else 31

-- `YYYY-MM-DD`
def isDate (text : List Char) : Bool :=
  match text with
  | [y1, y2, y3, y4, '-', m1, m2, '-', d1, d2] =>
      match fixed? 4 [y1, y2, y3, y4], fixed? 2 [m1, m2], fixed? 2 [d1, d2] with
      | some year, some month, some day =>
          decide (1 ≤ month ∧ month ≤ 12 ∧ 1 ≤ day ∧ day ≤ daysInMonth year month)
      | _, _, _ => false
  | _ => false

def isPair (last : Nat) (first second : Char) : Bool :=
  (fixed? 2 [first, second]).any (· ≤ last)

def isSeconds : List Char → Bool
  | [] => true
  | [':', s1, s2] => isPair 60 s1 s2
  | ':' :: s1 :: s2 :: '.' :: digit :: more =>
      isPair 60 s1 s2 && (digit :: more).all fun c => (decimalDigit? c).isSome
  | _ => false

-- `HH:MM`, `HH:MM:SS` or `HH:MM:SS.FRACTION`
def isTime : List Char → Bool
  | h1 :: h2 :: ':' :: m1 :: m2 :: seconds =>
      isPair 23 h1 h2 && isPair 59 m1 m2 && isSeconds seconds
  | _ => false

-- `Z`, or a distance from universal time of less than a day.
def isOffset : List Char → Bool
  | ['Z'] | ['z'] => true
  | [sign, h1, h2, ':', m1, m2] =>
      (sign == '+' || sign == '-') && isPair 23 h1 h2 && isPair 59 m1 m2
  | _ => false

def startsOffset (c : Char) : Bool :=
  c == 'Z' || c == 'z' || c == '+' || c == '-'

def isMoment (text : List Char) : Bool :=
  if isDate text || isTime text then true
  else
    match text.drop 10 with
    | separator :: rest =>
        let time := rest.takeWhile fun c => !startsOffset c
        let offset := rest.drop time.length
        (separator == 'T' || separator == 't' || separator == ' ') && isDate (text.take 10) &&
          isTime time && (offset.isEmpty || isOffset offset)
    | [] => false

/-- Whether each underscore stands between two hexadecimal digits, the characters that are digits in
some base. -/
def underscoresJoin : List Char → Bool
  | [] => true
  | '_' :: _ => false
  | c :: '_' :: rest =>
      (hexDigit? c).isSome && (rest.head?.any fun next => (hexDigit? next).isSome) &&
        underscoresJoin rest
  | _ :: rest => underscoresJoin rest

/-- A run has the outline of an integer if it is the mark of a base without digits, or starts with
decimal digits and an underscore.  In the latter case it may end in other characters, but not in
those of a number with a fraction or an exponent, and it has no space. -/
def outlinesInteger (text : List Char) : Bool :=
  let (_, size) := splitSign text
  let digits := size.takeWhile fun c => (decimalDigit? c).isSome
  let more := size.drop digits.length
  text = ['0', 'x'] || text = ['0', 'o'] || text = ['0', 'b'] ||
    (digits.head?.any (· != '0') && more.head? == some '_' && underscoresJoin size &&
      more.all fun c => !(c == ' ' || c == '.' || c == 'e' || c == 'E'))

def scalar? (text : List Char) : Option Value :=
  if text = ['t', 'r', 'u', 'e'] then some (.boolean true)
  else if text = ['f', 'a', 'l', 's', 'e'] then some (.boolean false)
  else if isMoment text then some (.moment (String.ofList text))
  else
    match integer? text with
    | some value => some (.integer value)
    | none =>
        match real? text with
        | some value => some (.real value)
        | none => if outlinesInteger text then some (.unreadable (String.ofList text)) else none

end RunStream.Toml
