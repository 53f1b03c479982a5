import RunStream.Proofs.Wire.Stream
import RunStream.Proofs.Wire.Tokens

set_option autoImplicit false

namespace RunStream.Wire

open RunStream.Text

def writtenEscapes : List (List Char) :=
  [['|', '|'], ['|', '\''], ['|', 'n'], ['|', 'r'], ['|', ']']]

structure Token.Canonical (token : Token) : Prop where
  escaped : token.text ∉ [['\''], [']'], ['\n'], ['\r']]
  known : token.text.head? = some '|' → token.text ∈ writtenEscapes

theorem mem_writtenEscapes_iff : ∀ entry ∈ letterMeanings,
    ['|', entry.1] ∈ writtenEscapes ↔ ['|', entry.1] = escapeChar entry.2 := by
  decide

theorem length_escapeChar_le (c : Char) : (escapeChar c).length ≤ 2 := by
  rcases escapeChar_cases c with ⟨letter, written, _, _⟩ | ⟨written, _, _⟩ <;> simp [written]

theorem Token.canonical_iff {token : Token} :
    token.Canonical ↔ token.text = escapeChar token.meaning := by
  have parts : token.Canonical ↔ token.text ∉ [['\''], [']'], ['\n'], ['\r']] ∧
      (token.text.head? = some '|' → token.text ∈ writtenEscapes) :=
    ⟨fun canonical => ⟨canonical.1, canonical.2⟩, fun both => ⟨both.1, both.2⟩⟩
  rw [parts]
  obtain ⟨text, meaning, denotes⟩ := token
  cases denotes with
  | plain other =>
      simp only [List.head?_cons, Option.some.injEq, other, false_implies, and_true]
      unfold escapeChar
      grind
  | letter known => simpa using mem_writtenEscapes_iff _ known
  | @code a b c d first second third fourth digits scalar =>
      have differs : ['|', '0', 'x', a, b, c, d] ≠
          escapeChar (Char.ofNat (codeOf first second third fourth)) := fun same => by
        have bound := same ▸ length_escapeChar_le _
        simp at bound
      simp [writtenEscapes, differs]

theorem denotes_escapeChar (c : Char) : Denotes (escapeChar c) c := by
  rcases escapeChar_cases c with ⟨letter, written, _, read⟩ | ⟨written, other, _⟩
  · exact written ▸ .letter (letterEscape?_iff.mp read)
  · exact written ▸ .plain other

def Token.ofChar (c : Char) : Token where
  text := escapeChar c
  meaning := c
  denotes := denotes_escapeChar c

theorem spelled_ofChar (value : List Char) : spelled (value.map Token.ofChar) = escapeChars value :=
  List.flatMap_map ..

theorem Token.canonical_iff_ofChar {token : Token} :
    token.Canonical ↔ Token.ofChar token.meaning = token := by
  obtain ⟨text, meaning, denotes⟩ := token
  simp [canonical_iff, Token.ofChar, eq_comm]

-- The tokens are determined by the text, so they are those that the writer uses for the value.
theorem escapeChars_meanings_iff (tokens : List Token) :
    escapeChars (meanings tokens) = spelled tokens ↔ ∀ token ∈ tokens, token.Canonical := by
  rw [← spelled_ofChar, spelled_injective.eq_iff, meanings, List.map_map]
  have each := @List.map_inj_left _ _ tokens (Token.ofChar ∘ Token.meaning) id
  rw [List.map_id] at each
  simpa [Token.canonical_iff_ofChar] using each

theorem escape_eq_iff {written value : String} (read : unescape written = .ok value) :
    ∃ tokens, written.toList = spelled tokens ∧
      (escape value = written ↔ ∀ token ∈ tokens, token.Canonical) := by
  obtain ⟨tokens, text, meaning⟩ := unescape_ok_iff.mp read
  refine ⟨tokens, text, ?_⟩
  rw [escape_eq, ← String.toList_inj, String.toList_ofList, text, meaning]
  exact escapeChars_meanings_iff tokens

theorem escape_append (left right : String) :
    escape (left ++ right) = escape left ++ escape right := by
  simp [escape_eq, String.ofList_append]

theorem unescape_escape (value : String) : unescape (escape value) = .ok value := by
  simp [unescape, escape_eq, unescapeFrom_escapeChars]

theorem escape_unbroken (value : String) :
    '\n' ∉ (escape value).toList ∧ '\r' ∉ (escape value).toList := by
  rw [escape_eq, String.toList_ofList]
  exact ⟨not_mem_escapeChars rfl _, not_mem_escapeChars rfl _⟩

theorem splitAttribute_escape {key : String} (word : key ≠ "" ∧ ' ' ∉ key.toList)
    (noEquals : '=' ∉ key.toList) (value : String) (rest : List Char) :
    splitAttribute (key.toList ++ '=' :: '\'' :: (escape value).toList ++ '\'' :: rest) =
      some (key.toList, (escape value).toList, rest) := by
  have text : key.toList ++ '=' :: '\'' :: (escape value).toList ++ '\'' :: rest =
      key.toList ++ '=' :: '\'' :: ((escape value).toList ++ '\'' :: rest) := by
    simp
  rw [text, splitAttribute_key (isWord_toList.mpr word) noEquals, escape_eq,
    String.toList_ofList, readQuoted_escapeChars]
  rfl

theorem escape_canonical :
    (∀ value : String,
      writePieces? value 0 0 (toBytes value) =
          some (String.ofList (value.toList.flatMap escapeChar)) ∧
        escape value = String.ofList (value.toList.flatMap escapeChar)) ∧
    (∀ left right : String, escape (left ++ right) = escape left ++ escape right) ∧
    (∀ value : String, '\n' ∉ (escape value).toList ∧ '\r' ∉ (escape value).toList ∧
      unescape (escape value) = .ok value) ∧
    (∀ written value : String, unescape written = .ok value →
      ∃ tokens, written.toList = spelled tokens ∧
        (escape value = written ↔ ∀ token ∈ tokens, token.Canonical)) ∧
    ∀ (key value : String) (rest : List Char),
      (key ≠ "" ∧ ' ' ∉ key.toList) → '=' ∉ key.toList →
      splitAttribute (key.toList ++ '=' :: '\'' :: (escape value).toList ++ '\'' :: rest) =
        some (key.toList, (escape value).toList, rest) := by
  refine ⟨fun value => ⟨writePieces?_toBytes value, escape_eq value⟩, escape_append,
    fun value => ?_, fun _ _ => escape_eq_iff, fun _ value rest word noEquals => ?_⟩
  · obtain ⟨noFeed, noReturn⟩ := escape_unbroken value
    exact ⟨noFeed, noReturn, unescape_escape value⟩
  · exact splitAttribute_escape word noEquals value rest

end RunStream.Wire
