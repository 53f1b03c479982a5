import Mathlib.Tactic.IntervalCases
import RunStream.Proofs.Wire.Grammar

set_option autoImplicit false

namespace RunStream.Wire

open RunStream.Text

def IsHexDigit (digit : Char) (value : Nat) : Prop :=
  "0123456789abcdef".toList[value]? = some digit ∨ "0123456789ABCDEF".toList[value]? = some digit

def codeOf (first second third fourth : Nat) : Nat :=
  ((first * 16 + second) * 16 + third) * 16 + fourth

def IsSurrogate (code : Nat) : Prop :=
  0xD800 ≤ code ∧ code ≤ 0xDFFF

def letterMeanings : List (Char × Char) :=
  [('|', '|'), ('\'', '\''), ('n', '\n'), ('r', '\r'), (']', ']'), ('[', '['), ('x', '\u0085'),
    ('l', '\u2028'), ('p', '\u2029')]

inductive Denotes : List Char → Char → Prop
  | plain {c : Char} (other : c ≠ '|') : Denotes [c] c
  | letter {letter c : Char} (known : (letter, c) ∈ letterMeanings) : Denotes ['|', letter] c
  | code {a b c d : Char} {first second third fourth : Nat} (digits : IsHexDigit a first ∧
      IsHexDigit b second ∧ IsHexDigit c third ∧ IsHexDigit d fourth)
      (scalar : ¬ IsSurrogate (codeOf first second third fourth)) :
      Denotes ['|', '0', 'x', a, b, c, d] (Char.ofNat (codeOf first second third fourth))

structure Token where
  text : List Char
  meaning : Char
  denotes : Denotes text meaning

def spelled (tokens : List Token) : List Char :=
  tokens.flatMap Token.text

def meanings (tokens : List Token) : List Char :=
  tokens.map Token.meaning

@[simp]
theorem spelled_nil : spelled [] = [] := rfl

@[simp]
theorem spelled_cons (token : Token) (rest : List Token) :
    spelled (token :: rest) = token.text ++ spelled rest := rfl

theorem hexDigit_bound {digit : Char} {value : Nat} (known : IsHexDigit digit value) :
    value < 16 := by
  rcases known with lower | upper
  · exact (List.getElem?_eq_some_iff.mp lower).1
  · exact (List.getElem?_eq_some_iff.mp upper).1

theorem between_iff {low digit high : Char} :
    low ≤ digit ∧ digit ≤ high ↔ low.toNat ≤ digit.toNat ∧ digit.toNat ≤ high.toNat :=
  Iff.rfl

-- The digits of a range are consecutive characters.
theorem hexDigit_of_hexDigit? {digit : Char} {value : Nat} (read : hexDigit? digit = some value) :
    IsHexDigit digit value := by
  have decimal : ∀ n < 10, "0123456789abcdef".toList[n]? = some (Char.ofNat (n + 48)) := by
    decide +kernel
  have lower : ∀ n < 6, "0123456789abcdef".toList[n + 10]? = some (Char.ofNat (n + 97)) := by
    decide +kernel
  have upper : ∀ n < 6, "0123456789ABCDEF".toList[n + 10]? = some (Char.ofNat (n + 65)) := by
    decide +kernel
  have whole (base : Nat) (above : base ≤ digit.toNat) :
      Char.ofNat (digit.toNat - base + base) = digit := by
    rw [Nat.sub_add_cancel above, Char.ofNat_toNat]
  simp only [hexDigit?, between_iff, Char.reduceToNat] at read
  split at read
  · next range =>
      cases read
      left
      rw [decimal _ (by omega), whole 48 range.1]
  split at read
  · next range =>
      cases read
      left
      rw [lower _ (by omega), whole 97 range.1]
  split at read
  · next range =>
      cases read
      right
      rw [upper _ (by omega), whole 65 range.1]
  · cases read

theorem hexDigit?_iff {digit : Char} {value : Nat} :
    hexDigit? digit = some value ↔ IsHexDigit digit value := by
  refine ⟨hexDigit_of_hexDigit?, fun known => ?_⟩
  have bound := hexDigit_bound known
  rcases known with lower | upper
  · interval_cases value <;> cases lower <;> rfl
  · interval_cases value <;> cases upper <;> rfl

theorem charOfCode?_iff {code : Nat} {c : Char} (bound : code < 0x10000) :
    charOfCode? code = some c ↔ ¬ IsSurrogate code ∧ c = Char.ofNat code := by
  have scalar : code.isValidChar ↔ ¬ IsSurrogate code := by
    simp only [Nat.isValidChar, IsSurrogate]
    omega
  rw [← scalar, charOfCode?]
  by_cases valid : code.isValidChar
  · have same : Char.ofNat code = Char.ofNatAux code valid := dif_pos valid
    rw [dif_pos valid, ← same, Option.some.injEq]
    exact ⟨fun read => ⟨valid, read.symm⟩, fun both => both.2.symm⟩
  · rw [dif_neg valid]
    simp [valid]

theorem codeOf_bound {first second third fourth : Nat} (digits : first < 16 ∧ second < 16 ∧
    third < 16 ∧ fourth < 16) : codeOf first second third fourth < 0x10000 := by
  unfold codeOf
  omega

theorem codeEscape?_iff {a b c d decoded : Char} :
    codeEscape? a b c d = some decoded ↔
      ∃ first second third fourth, (IsHexDigit a first ∧ IsHexDigit b second ∧
        IsHexDigit c third ∧ IsHexDigit d fourth) ∧
        ¬ IsSurrogate (codeOf first second third fourth) ∧
        decoded = Char.ofNat (codeOf first second third fourth) := by
  simp only [codeEscape?, bind, Option.bind_eq_some_iff, hexDigit?_iff]
  constructor
  · rintro ⟨first, one, second, two, third, three, fourth, four, read⟩
    have bound := codeOf_bound ⟨hexDigit_bound one, hexDigit_bound two, hexDigit_bound three,
      hexDigit_bound four⟩
    exact ⟨first, second, third, fourth, ⟨one, two, three, four⟩, (charOfCode?_iff bound).mp read⟩
  · rintro ⟨first, second, third, fourth, ⟨one, two, three, four⟩, named⟩
    have bound := codeOf_bound ⟨hexDigit_bound one, hexDigit_bound two, hexDigit_bound three,
      hexDigit_bound four⟩
    exact ⟨first, one, second, two, third, three, fourth, four, (charOfCode?_iff bound).mpr named⟩

theorem letterEscape?_iff {letter c : Char} :
    letterEscape? letter = some c ↔ (letter, c) ∈ letterMeanings := by
  constructor
  · intro read
    unfold letterEscape? at read
    split_ifs at read <;> cases read <;> simp_all [letterMeanings]
  · intro known
    simp only [letterMeanings, List.mem_cons, Prod.mk.injEq, List.not_mem_nil, or_false] at known
    rcases known with ⟨rfl, rfl⟩ | ⟨rfl, rfl⟩ | ⟨rfl, rfl⟩ | ⟨rfl, rfl⟩ | ⟨rfl, rfl⟩ | ⟨rfl, rfl⟩ |
      ⟨rfl, rfl⟩ | ⟨rfl, rfl⟩ | ⟨rfl, rfl⟩ <;> rfl

theorem ne_zero_of_known {letter c : Char} (known : (letter, c) ∈ letterMeanings) :
    letter ≠ '0' := by
  rintro rfl
  simp [letterMeanings] at known

theorem unescapeFrom_code {a b c d decoded : Char} (read : codeEscape? a b c d = some decoded)
    (offset : Nat) (rest : List Char) :
    unescapeFrom offset ('|' :: '0' :: 'x' :: a :: b :: c :: d :: rest) =
      (decoded :: ·) <$> unescapeFrom (offset + width ['|', '0', 'x', a, b, c, d]) rest := by
  conv => lhs; unfold unescapeFrom
  simp [read]

theorem unescapeFrom_token (token : Token) (offset : Nat) (rest : List Char) :
    unescapeFrom offset (token.text ++ rest) =
      (token.meaning :: ·) <$> unescapeFrom (offset + width token.text) rest := by
  obtain ⟨text, meaning, denotes⟩ := token
  cases denotes with
  | plain other => exact unescapeFrom_plain other offset rest
  | letter known =>
      exact unescapeFrom_letter (ne_zero_of_known known) (letterEscape?_iff.mpr known) offset rest
  | code digits scalar =>
      exact unescapeFrom_code (codeEscape?_iff.mpr ⟨_, _, _, _, digits, scalar, rfl⟩) offset rest

theorem unescapeFrom_spelled (tokens : List Token) (offset : Nat) (rest : List Char) :
    unescapeFrom offset (spelled tokens ++ rest) =
      (meanings tokens ++ ·) <$> unescapeFrom (offset + width (spelled tokens)) rest := by
  induction tokens generalizing offset with
  | nil =>
      change _ = id <$> _
      simp
  | cons token more ih =>
      rw [spelled_cons, List.append_assoc, unescapeFrom_token, ih, width_append, Nat.add_assoc]
      cases unescapeFrom (offset + (width token.text + width (spelled more))) rest <;> rfl

def Tokenless (text : List Char) : Prop :=
  ∀ token : Token, ¬ token.text <+: text

inductive Refuses (offset : Nat) : List Char → UnescapeError → Prop
  | dangling : Refuses offset [] (.dangling offset)
  | code (rest : List Char) : Refuses offset ('0' :: rest) (.invalidUnicode offset)
  | letter {found : Char} (rest : List Char) (other : found ≠ '0') :
      Refuses offset (found :: rest) (.unknownEscape offset found)

theorem exists_refusal {after : List Char} (none : Tokenless ('|' :: after)) (offset : Nat) :
    ∃ error, unescapeFrom offset ('|' :: after) = .error error ∧ Refuses offset after error := by
  unfold unescapeFrom
  rw [if_neg (by simp)]
  split
  · exact ⟨_, rfl, .dangling⟩
  · next letter rest =>
      split
      · next zero =>
          subst zero
          refine ⟨_, ?_, .code rest⟩
          split
          · next a b c d rest =>
              split
              · next decoded read =>
                  obtain ⟨first, second, third, fourth, digits, scalar, rfl⟩ :=
                    codeEscape?_iff.mp read
                  exact absurd ⟨rest, rfl⟩ (none ⟨_, _, .code digits scalar⟩)
              · rfl
          · rfl
      · next other =>
          split
          · next decoded read =>
              exact absurd ⟨rest, rfl⟩ (none ⟨_, _, .letter (letterEscape?_iff.mp read)⟩)
          · exact ⟨_, rfl, .letter rest other⟩

theorem text_ne_nil (token : Token) : token.text ≠ [] := by
  obtain ⟨text, meaning, denotes⟩ := token
  cases denotes <;> simp

theorem exists_cut (text : List Char) :
    ∃ tokens rest, text = spelled tokens ++ rest ∧
      (rest = [] ∨ ∃ after, rest = '|' :: after ∧ Tokenless rest) := by
  induction length : text.length using Nat.strongRecOn generalizing text with
  | ind size ih =>
    by_cases here : Tokenless text
    · refine ⟨[], text, rfl, ?_⟩
      cases text with
      | nil => exact .inl rfl
      | cons first after =>
          by_cases bar : first = '|'
          · exact .inr ⟨after, by rw [bar], here⟩
          · exact absurd ⟨after, rfl⟩ (here ⟨[first], first, .plain bar⟩)
    · obtain ⟨token, present⟩ := not_forall.mp here
      obtain ⟨more, rfl⟩ := not_not.mp present
      have positive := List.length_pos_iff.mpr (text_ne_nil token)
      obtain ⟨tokens, rest, cut, stop⟩ :=
        ih more.length (by rw [← length, List.length_append]; omega) more rfl
      exact ⟨token :: tokens, rest, by rw [spelled_cons, List.append_assoc, cut], stop⟩

theorem hexDigit_unique {digit : Char} {first second : Nat} (left : IsHexDigit digit first)
    (right : IsHexDigit digit second) : first = second := by
  rw [← hexDigit?_iff] at left right
  exact Option.some.inj (left.symm.trans right)

theorem letter_unique {letter first second : Char} (left : (letter, first) ∈ letterMeanings)
    (right : (letter, second) ∈ letterMeanings) : first = second := by
  rw [← letterEscape?_iff] at left right
  exact Option.some.inj (left.symm.trans right)

-- Where a token ends is seen from its first two characters.
theorem token_unique {first second : Token} {left right : List Char}
    (same : first.text ++ left = second.text ++ right) : first = second ∧ left = right := by
  obtain ⟨text, meaning, denotes⟩ := first
  obtain ⟨text', meaning', denotes'⟩ := second
  rw [Token.mk.injEq]
  cases denotes with
  | plain other =>
      cases denotes' with
      | plain other' => simpa using same
      | letter known' => exact absurd (List.cons.inj same).1 other
      | code digits' scalar' => exact absurd (List.cons.inj same).1 other
  | letter known =>
      cases denotes' with
      | plain other' => exact absurd (List.cons.inj same).1.symm other'
      | letter known' =>
          obtain ⟨rfl, rfl⟩ := List.cons.inj (List.cons.inj same).2
          simp [letter_unique known known']
      | code digits' scalar' =>
          exact absurd (List.cons.inj (List.cons.inj same).2).1 (ne_zero_of_known known)
  | code digits scalar =>
      cases denotes' with
      | plain other' => exact absurd (List.cons.inj same).1.symm other'
      | letter known' =>
          exact absurd (List.cons.inj (List.cons.inj same).2).1.symm (ne_zero_of_known known')
      | code digits' scalar' =>
          simp only [List.cons_append, List.nil_append, List.cons.injEq, true_and] at same
          obtain ⟨rfl, rfl, rfl, rfl, rfl⟩ := same
          simp [hexDigit_unique digits.1 digits'.1, hexDigit_unique digits.2.1 digits'.2.1,
            hexDigit_unique digits.2.2.1 digits'.2.2.1, hexDigit_unique digits.2.2.2 digits'.2.2.2]

theorem spelled_injective : Function.Injective spelled := by
  intro first
  induction first with
  | nil =>
      intro second same
      cases second with
      | nil => rfl
      | cons token rest => simp [text_ne_nil] at same
  | cons token rest ih =>
      intro second same
      cases second with
      | nil => simp [text_ne_nil] at same
      | cons other more =>
          obtain ⟨rfl, later⟩ := token_unique same
          rw [ih later]

theorem unescapeFrom_tokens (tokens : List Token) :
    unescapeFrom 0 (spelled tokens) = .ok (meanings tokens) := by
  have whole := unescapeFrom_spelled tokens 0 []
  rw [List.append_nil] at whole
  rw [whole, unescapeFrom]
  simp

theorem exists_refusal_behind {after : List Char} (none : Tokenless ('|' :: after))
    (tokens : List Token) :
    ∃ error, unescapeFrom 0 (spelled tokens ++ '|' :: after) = .error error ∧
      Refuses (width (spelled tokens)) after error := by
  obtain ⟨error, refused, reason⟩ := exists_refusal none (width (spelled tokens))
  exact ⟨error, by rw [unescapeFrom_spelled, Nat.zero_add, refused]; rfl, reason⟩

theorem unescape_ok_iff {written value : String} :
    unescape written = .ok value ↔
      ∃ tokens, written.toList = spelled tokens ∧ value.toList = meanings tokens := by
  constructor
  · intro read
    have decoded := unescape_ok read
    obtain ⟨tokens, rest, cut, rfl | ⟨after, rfl, none⟩⟩ := exists_cut written.toList
    · rw [List.append_nil] at cut
      rw [cut, unescapeFrom_tokens] at decoded
      exact ⟨tokens, cut, (Except.ok.inj decoded).symm⟩
    · obtain ⟨error, refused, _⟩ := exists_refusal_behind none tokens
      rw [cut, refused] at decoded
      cases decoded
  · rintro ⟨tokens, text, value⟩
    rw [unescape, text, unescapeFrom_tokens, ← value]
    simp

theorem Refuses.unique {offset : Nat} {after : List Char} {first second : UnescapeError}
    (left : Refuses offset after first) (right : Refuses offset after second) : first = second := by
  cases left <;> cases right <;> simp_all

theorem unescape_error_iff {written : String} {error : UnescapeError} :
    unescape written = .error error ↔
      ∃ before after : String, written = before ++ "|" ++ after ∧
        (∃ value, unescape before = .ok value) ∧ Tokenless ('|' :: after.toList) ∧
          Refuses before.utf8ByteSize after.toList error := by
  constructor
  · intro failed
    have refused := unescape_error failed
    obtain ⟨tokens, rest, cut, rfl | ⟨after, rfl, none⟩⟩ := exists_cut written.toList
    · rw [cut, List.append_nil, unescapeFrom_tokens] at refused
      cases refused
    · obtain ⟨other, found, reason⟩ := exists_refusal_behind none tokens
      rw [cut, found, Except.error.injEq] at refused
      subst refused
      refine ⟨String.ofList (spelled tokens), String.ofList after, ?_, ?_, by simpa using none, ?_⟩
      · rw [← String.toList_inj, cut]
        simp
      · exact ⟨String.ofList (meanings tokens), unescape_ok_iff.mpr ⟨tokens, by simp, by simp⟩⟩
      · rwa [← width_toList, String.toList_ofList, String.toList_ofList]
  · rintro ⟨before, after, rfl, ⟨value, read⟩, none, reason⟩
    obtain ⟨tokens, cut, _⟩ := unescape_ok_iff.mp read
    obtain ⟨other, found, same⟩ := exists_refusal_behind none tokens
    rw [← width_toList, cut] at reason
    rw [unescape, String.toList_append, String.toList_append, cut, List.append_assoc]
    rw [reason.unique same]
    simp [found]

theorem unescape_exact :
    (∀ written value : String, unescape written = .ok value ↔
      ∃ tokens, written.toList = spelled tokens ∧ value.toList = meanings tokens) ∧
    Function.Injective spelled ∧
    ∀ (written : String) (error : UnescapeError), unescape written = .error error ↔
      ∃ before after : String, written = before ++ "|" ++ after ∧
        (∃ value, unescape before = .ok value) ∧ Tokenless ('|' :: after.toList) ∧
          Refuses before.utf8ByteSize after.toList error :=
  ⟨fun _ _ => unescape_ok_iff, spelled_injective, fun _ _ => unescape_error_iff⟩

end RunStream.Wire
