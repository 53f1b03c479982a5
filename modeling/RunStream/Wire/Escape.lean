import RunStream.Text.Bytes
import RunStream.Text.Decimal

set_option autoImplicit false

namespace RunStream.Wire

open RunStream.Text

def escapeChar (c : Char) : List Char :=
  if c = '|' then ['|', '|']
  else if c = '\'' then ['|', '\'']
  else if c = '\n' then ['|', 'n']
  else if c = '\r' then ['|', 'r']
  else if c = ']' then ['|', ']']
  else [c]

def escapeChars (value : List Char) : List Char :=
  value.flatMap escapeChar

@[simp]
theorem escapeChars_nil : escapeChars [] = [] := rfl

theorem escapeChars_cons (c : Char) (rest : List Char) :
    escapeChars (c :: rest) = escapeChar c ++ escapeChars rest := rfl

@[simp]
theorem escapeChars_append (left right : List Char) :
    escapeChars (left ++ right) = escapeChars left ++ escapeChars right := by
  simp [escapeChars]

def escapeByte? (byte : UInt8) : Option String :=
  if byte = 0x7C then some "||"
  else if byte = 0x27 then some "|'"
  else if byte = 0x0A then some "|n"
  else if byte = 0x0D then some "|r"
  else if byte = 0x5D then some "|]"
  else none

theorem escapeByte?_cases {byte : UInt8} {escaped : String}
    (found : escapeByte? byte = some escaped) :
    byte = 0x7C ∨ byte = 0x27 ∨ byte = 0x0A ∨ byte = 0x0D ∨ byte = 0x5D := by
  unfold escapeByte? at found
  grind

-- A character is escaped as its one byte is, or no byte of it is escaped.
theorem encoded_cases (c : Char) :
    (∃ byte, String.utf8EncodeChar c = [byte] ∧
        escapeByte? byte = some (String.ofList (escapeChar c))) ∨
      (escapeChar c = [c] ∧ ∀ byte ∈ String.utf8EncodeChar c, escapeByte? byte = none) := by
  unfold escapeChar
  split
  · next bar => exact .inl ⟨0x7C, by rw [bar]; rfl, rfl⟩
  split
  · next quote => exact .inl ⟨0x27, by rw [quote]; rfl, rfl⟩
  split
  · next feed => exact .inl ⟨0x0A, by rw [feed]; rfl, rfl⟩
  split
  · next back => exact .inl ⟨0x0D, by rw [back]; rfl, rfl⟩
  split
  · next bracket => exact .inl ⟨0x5D, by rw [bracket]; rfl, rfl⟩
  · next bar quote feed back bracket =>
      refine .inr ⟨rfl, fun byte member => Option.eq_none_iff_forall_ne_some.mpr ?_⟩
      intro escaped found
      rcases escapeByte?_cases found with rfl | rfl | rfl | rfl | rfl
      · exact bar (Char.toNat_inj.mp (toNat_of_low_byte member (by decide)))
      · exact quote (Char.toNat_inj.mp (toNat_of_low_byte member (by decide)))
      · exact feed (Char.toNat_inj.mp (toNat_of_low_byte member (by decide)))
      · exact back (Char.toNat_inj.mp (toNat_of_low_byte member (by decide)))
      · exact bracket (Char.toNat_inj.mp (toNat_of_low_byte member (by decide)))

/-- What stands from `start` to `offset` is still to be copied, in one piece.  There is no result if
a piece would end inside a character. -/
def writePieces? (value : String) (start offset : Nat) : List UInt8 → Option String
  | [] => slice? value start offset
  | byte :: rest =>
      match escapeByte? byte with
      | none => writePieces? value start (offset + 1) rest
      | some escaped => do
          let piece ← slice? value start offset
          let later ← writePieces? value (offset + 1) (offset + 1) rest
          return piece ++ escaped ++ later

theorem writePieces?_kept (value : String) (start offset : Nat) (kept rest : List UInt8)
    (plain : ∀ byte ∈ kept, escapeByte? byte = none) :
    writePieces? value start offset (kept ++ rest) =
      writePieces? value start (offset + kept.length) rest := by
  induction kept generalizing offset with
  | nil => rfl
  | cons byte more ih =>
      have later := ih (offset + 1) fun other member => plain other (List.mem_cons_of_mem _ member)
      rw [List.cons_append, writePieces?, plain byte (List.mem_cons_self ..)]
      simp only [later, List.length_cons, Nat.add_assoc, Nat.add_comm 1]

theorem writePieces?_eq (before piece rest : List Char) :
    writePieces? (String.ofList (before ++ piece ++ rest)) (width before)
        (width before + width piece) (rest.flatMap String.utf8EncodeChar) =
      some (String.ofList (piece ++ escapeChars rest)) := by
  induction rest generalizing before piece with
  | nil => simpa [writePieces?] using slice?_middle before piece []
  | cons c rest ih =>
      have size := String.length_utf8EncodeChar c
      rw [List.flatMap_cons, escapeChars_cons]
      rcases encoded_cases c with ⟨byte, encoded, escaped⟩ | ⟨same, plain⟩
      · have later := ih (before ++ piece ++ [c]) []
        rw [encoded, List.length_singleton] at size
        have next : width (before ++ piece ++ [c]) = width before + width piece + 1 := by
          simp [← size, Nat.add_assoc]
        rw [next] at later
        simp only [List.append_nil, List.append_assoc, List.singleton_append, width_nil,
          Nat.add_zero, List.nil_append] at later
        rw [encoded, List.singleton_append, writePieces?, escaped]
        simp only
        rw [slice?_middle, List.append_assoc, later]
        simp [String.ofList_append, String.append_assoc]
      · have later := ih before (piece ++ [c])
        rw [writePieces?_kept _ _ _ _ _ plain, size, same]
        simpa [Nat.add_assoc] using later

theorem writePieces?_toBytes (value : String) :
    writePieces? value 0 0 (toBytes value) = some (String.ofList (escapeChars value.toList)) := by
  have whole := writePieces?_eq [] [] value.toList
  simpa [← toBytes_ofList] using whole

def writeEscaped (value : String) : String :=
  (writePieces? value 0 0 (toBytes value)).get (by rw [writePieces?_toBytes]; rfl)

theorem writeEscaped_eq (value : String) :
    writeEscaped value = String.ofList (escapeChars value.toList) := by
  simp [writeEscaped, writePieces?_toBytes]

theorem escapeChars_plain (value : List Char)
    (plain : ∀ byte ∈ value.flatMap String.utf8EncodeChar, escapeByte? byte = none) :
    escapeChars value = value := by
  induction value with
  | nil => rfl
  | cons c rest ih =>
      rw [List.flatMap_cons] at plain
      have later := ih fun byte member => plain byte (List.mem_append_right _ member)
      rcases encoded_cases c with ⟨byte, encoded, escaped⟩ | ⟨same, _⟩
      · simp [plain byte (List.mem_append_left _ (by simp [encoded]))] at escaped
      · rw [escapeChars_cons, same, later, List.singleton_append]

def escape (value : String) : String :=
  if (toBytes value).any fun byte => (escapeByte? byte).isSome then writeEscaped value else value

theorem escape_eq (value : String) : escape value = String.ofList (escapeChars value.toList) := by
  unfold escape
  split
  · exact writeEscaped_eq value
  · next none =>
      have bytes : value.toList.flatMap String.utf8EncodeChar = toBytes value := by
        rw [← toBytes_ofList, String.ofList_toList]
      have plain := escapeChars_plain value.toList (by simpa [bytes] using none)
      rw [plain, String.ofList_toList]

inductive UnescapeError where
  | dangling (offset : Nat)
  | unknownEscape (offset : Nat) (found : Char)
  | invalidUnicode (offset : Nat)
deriving DecidableEq, Repr

def UnescapeError.message : UnescapeError → String
  | .dangling offset => s!"dangling escape character at offset {offset}"
  | .unknownEscape offset found =>
      "unknown escape sequence `|" ++ found.toString ++ "` at offset " ++ toString offset
  | .invalidUnicode offset => s!"invalid unicode escape at offset {offset}"

def letterEscape? (letter : Char) : Option Char :=
  if letter = '|' then some '|'
  else if letter = '\'' then some '\''
  else if letter = 'n' then some '\n'
  else if letter = 'r' then some '\r'
  else if letter = ']' then some ']'
  else if letter = '[' then some '['
  else if letter = 'x' then some '\u0085'
  else if letter = 'l' then some '\u2028'
  else if letter = 'p' then some '\u2029'
  else none

def codeEscape? (a b c d : Char) : Option Char := do
  let a ← hexDigit? a
  let b ← hexDigit? b
  let c ← hexDigit? c
  let d ← hexDigit? d
  charOfCode? (((a * 16 + b) * 16 + c) * 16 + d)

def unescapeFrom (offset : Nat) : List Char → Except UnescapeError (List Char)
  | [] => .ok []
  | first :: rest =>
      if first ≠ '|' then
        (first :: ·) <$> unescapeFrom (offset + first.utf8Size) rest
      else
        match rest with
        | [] => .error (.dangling offset)
        | letter :: rest =>
            if letter = '0' then
              match rest with
              | 'x' :: a :: b :: c :: d :: rest =>
                  match codeEscape? a b c d with
                  | some decoded =>
                      (decoded :: ·) <$>
                        unescapeFrom (offset + width ['|', '0', 'x', a, b, c, d]) rest
                  | none => .error (.invalidUnicode offset)
              | _ => .error (.invalidUnicode offset)
            else
              match letterEscape? letter with
              | some decoded => (decoded :: ·) <$> unescapeFrom (offset + width ['|', letter]) rest
              | none => .error (.unknownEscape offset letter)

def unescape (written : String) : Except UnescapeError String :=
  String.ofList <$> unescapeFrom 0 written.toList

end RunStream.Wire
