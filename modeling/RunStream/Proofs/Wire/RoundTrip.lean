import Mathlib.Data.List.Basic
import RunStream.Proofs.Cut
import RunStream.Wire.Parser

set_option autoImplicit false

namespace RunStream.Wire

open RunStream.Text

-- Writing either puts a bar before a letter that stands for the character or leaves it alone.
theorem escapeChar_cases (c : Char) :
    (∃ letter, escapeChar c = ['|', letter] ∧ letter ≠ '0' ∧ letterEscape? letter = some c) ∨
      (escapeChar c = [c] ∧ c ≠ '|' ∧ c ≠ '\'') := by
  unfold escapeChar
  split
  · next bar => exact .inl ⟨'|', rfl, by decide, by rw [bar]; rfl⟩
  split
  · next quote => exact .inl ⟨'\'', rfl, by decide, by rw [quote]; rfl⟩
  split
  · next feed => exact .inl ⟨'n', rfl, by decide, by rw [feed]; rfl⟩
  split
  · next back => exact .inl ⟨'r', rfl, by decide, by rw [back]; rfl⟩
  split
  · next bracket => exact .inl ⟨']', rfl, by decide, by rw [bracket]; rfl⟩
  · next bar quote _ _ _ => exact .inr ⟨rfl, bar, quote⟩

theorem unescapeFrom_plain {c : Char} (plain : c ≠ '|') (offset : Nat) (rest : List Char) :
    unescapeFrom offset (c :: rest) = (c :: ·) <$> unescapeFrom (offset + c.utf8Size) rest := by
  conv => lhs; unfold unescapeFrom
  simp [plain]

theorem unescapeFrom_letter {letter c : Char} (notCode : letter ≠ '0')
    (read : letterEscape? letter = some c) (offset : Nat) (rest : List Char) :
    unescapeFrom offset ('|' :: letter :: rest) =
      (c :: ·) <$> unescapeFrom (offset + width ['|', letter]) rest := by
  conv => lhs; unfold unescapeFrom
  simp [notCode, read]

theorem unescapeFrom_escapeChars (value : List Char) (offset : Nat) :
    unescapeFrom offset (escapeChars value) = .ok value := by
  induction value generalizing offset with
  | nil =>
      conv => lhs; unfold unescapeFrom
      rfl
  | cons c rest ih =>
      rw [escapeChars_cons]
      rcases escapeChar_cases c with ⟨letter, written, notCode, read⟩ | ⟨written, plain, _⟩
      · rw [written, List.cons_append, List.singleton_append, unescapeFrom_letter notCode read, ih]
        rfl
      · rw [written, List.singleton_append, unescapeFrom_plain plain, ih]
        rfl

-- No quote inside a written value closes it.
theorem readQuoted_escapeChars (value rest : List Char) :
    readQuoted (escapeChars value ++ '\'' :: rest) = some (escapeChars value, rest) := by
  induction value with
  | nil => simp [readQuoted]
  | cons c more ih =>
      rw [escapeChars_cons]
      rcases escapeChar_cases c with ⟨letter, written, _, _⟩ | ⟨written, notBar, notQuote⟩
      · rw [written]
        simp [readQuoted, ih]
      · rw [written]
        simp only [List.cons_append]
        rw [readQuoted]
        · simp [ih]
        all_goals simp_all

structure Message.WellFormed (message : Message) : Prop where
  name : isWord message.name.toList = true
  keys : ∀ entry ∈ message.attributes, isWord entry.1.toList = true ∧ '=' ∉ entry.1.toList

def attributeChars (entry : String × String) : List Char :=
  ' ' :: entry.1.toList ++ '=' :: '\'' :: escapeChars entry.2.toList ++ ['\'']

theorem toList_renderAttribute (entry : String × String) :
    (Message.renderAttribute entry).toList = attributeChars entry := by
  simp [Message.renderAttribute, attributeChars, writeEscaped_eq]

theorem isWord_iff {text : List Char} : isWord text = true ↔ text ≠ [] ∧ ' ' ∉ text := by
  simp [isWord]

theorem skipSpaces_eq_self {text : List Char} (start : text.head? ≠ some ' ') :
    skipSpaces text = text := by
  cases text with
  | nil => rfl
  | cons c rest =>
      have other : (c == ' ') = false := by simpa using start
      simp [skipSpaces, other]

theorem skipSpaces_key {key : List Char} (word : isWord key = true) (rest : List Char) :
    skipSpaces (' ' :: (key ++ rest)) = key ++ rest := by
  obtain ⟨nonempty, spaceless⟩ := isWord_iff.mp word
  have first : skipSpaces (' ' :: (key ++ rest)) = skipSpaces (key ++ rest) := by
    simp [skipSpaces]
  rw [first]
  refine skipSpaces_eq_self ?_
  cases key with
  | nil => simp at nonempty
  | cons c more =>
      rw [List.mem_cons, not_or] at spaceless
      simpa using Ne.symm spaceless.1

theorem trimEndWhere_spaceless {key : List Char} (spaceless : ' ' ∉ key) :
    trimEndWhere (· == ' ') key = key := by
  rcases List.eq_nil_or_concat key with rfl | ⟨front, last, rfl⟩
  · rfl
  · rw [List.concat_eq_append] at spaceless ⊢
    refine trimEndWhere_append_kept _ front last ?_
    simp only [List.mem_append, List.mem_singleton, not_or] at spaceless
    simpa using Ne.symm spaceless.2

theorem splitAttribute_key {key : List Char} (word : isWord key = true) (plain : '=' ∉ key)
    (quoted : List Char) :
    splitAttribute (key ++ '=' :: '\'' :: quoted) =
      (readQuoted quoted).map fun (raw, after) => (key, raw, after) := by
  obtain ⟨taken, dropped⟩ := takeWhile_stop plain ('\'' :: quoted)
  have same : keyPart (key ++ '=' :: '\'' :: quoted) = key := by
    rw [keyPart, taken, trimEndWhere_spaceless (isWord_iff.mp word).2]
  have value : readValue ('\'' :: quoted) = readQuoted quoted := by
    rw [readValue, skipSpaces_eq_self (by simp)]
    rfl
  rw [splitAttribute, dropped]
  simp only [same, word, if_true, value]

theorem readAttributes_written (attributes : List (String × String)) (stop : Nat)
    (keys : ∀ entry ∈ attributes, isWord entry.1.toList = true ∧ '=' ∉ entry.1.toList) :
    readAttributes stop (attributes.flatMap attributeChars) = .ok attributes := by
  induction attributes with
  | nil =>
      rw [readAttributes]
      rfl
  | cons entry rest ih =>
      obtain ⟨word, plain⟩ := keys entry (List.mem_cons_self ..)
      have later := ih fun other member => keys other (List.mem_cons_of_mem _ member)
      have text : (entry :: rest).flatMap attributeChars =
          ' ' :: (entry.1.toList ++ '=' :: '\'' ::
            (escapeChars entry.2.toList ++ '\'' :: rest.flatMap attributeChars)) := by
        simp [attributeChars]
      have skipped := skipSpaces_key word ('=' :: '\'' ::
        (escapeChars entry.2.toList ++ '\'' :: rest.flatMap attributeChars))
      have split := splitAttribute_key word plain
        (escapeChars entry.2.toList ++ '\'' :: rest.flatMap attributeChars)
      rw [readQuoted_escapeChars] at split
      have inhabited : (entry.1.toList ++ '=' :: '\'' ::
          (escapeChars entry.2.toList ++ '\'' :: rest.flatMap attributeChars)).isEmpty = false := by
        simp
      rw [text, readAttributes, skipped, inhabited, if_neg Bool.false_ne_true]
      split
      · next absent => simp [split] at absent
      · next key raw after found =>
          simp only [split, Option.map_some, Option.some.injEq, Prod.mk.injEq] at found
          obtain ⟨rfl, rfl, rfl⟩ := found
          rw [unescapeFrom_escapeChars, later]
          simp only [String.ofList_toList]
          rfl

theorem takeWhile_name {name : List Char} (spaceless : ' ' ∉ name)
    (attributes : List (String × String)) :
    (name ++ attributes.flatMap attributeChars).takeWhile (· != ' ') = name ∧
      (name ++ attributes.flatMap attributeChars).dropWhile (· != ' ') =
        attributes.flatMap attributeChars := by
  refine cut_before spaceless fun c first => ?_
  cases attributes with
  | nil => cases first
  | cons entry rest => exact (Option.some.inj first).symm

theorem readBody_written {message : Message} (wellFormed : message.WellFormed) (stop : Nat) :
    readBody stop (message.name.toList ++ message.attributes.flatMap attributeChars) =
      .ok message := by
  obtain ⟨nonempty, spaceless⟩ := isWord_iff.mp wellFormed.name
  obtain ⟨taken, dropped⟩ := takeWhile_name spaceless message.attributes
  simp only [readBody, taken, dropped, List.isEmpty_eq_false_iff.mpr nonempty]
  rw [readAttributes_written _ _ wellFormed.keys]
  simp [Bind.bind, Except.bind, pure, Except.pure]

theorem isPrefixOf?_append (front rest : List Char) :
    front.isPrefixOf? (front ++ rest) = some rest :=
  List.isPrefixOf?_eq_some_iff_append_eq.mpr rfl

theorem toList_render (protocol : String) (message : Message) :
    (message.render protocol).toList =
      (Message.opening protocol).toList ++
        (message.name.toList ++ message.attributes.flatMap attributeChars) ++ [']'] := by
  simp [Message.render, String.toList_join, List.flatMap_map, toList_renderAttribute]

theorem parse_render {message : Message} (protocol : String) (wellFormed : message.WellFormed) :
    Message.parse protocol (message.render protocol) = .ok message := by
  rw [Message.parse, parseChars, toList_render,
    trimEndWhere_append_kept isLineEnding _ ']' (by decide), List.append_assoc, isPrefixOf?_append]
  simp [readBody_written wellFormed]

end RunStream.Wire
