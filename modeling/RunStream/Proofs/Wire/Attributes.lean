import RunStream.Proofs.Wire.Boundary

set_option autoImplicit false

namespace RunStream.Wire

open RunStream.Text

/-- What may stand between the quotes of a value.  Each bar takes the next character with it, and
only so may a quote be there. -/
inductive Quotable : List Char → Prop
  | nil : Quotable []
  | plain {c : Char} {rest : List Char} (notBar : c ≠ '|') (notQuote : c ≠ '\'')
      (later : Quotable rest) : Quotable (c :: rest)
  | pair (c : Char) {rest : List Char} (later : Quotable rest) : Quotable ('|' :: c :: rest)

theorem readQuoted_quotable {raw : List Char} (quotable : Quotable raw) (after : List Char) :
    readQuoted (raw ++ '\'' :: after) = some (raw, after) := by
  induction quotable with
  | nil => rfl
  | plain notBar notQuote _ ih =>
      rw [List.cons_append, readQuoted]
      · simp [ih]
      all_goals simp_all
  | pair c _ ih =>
      rw [List.cons_append, List.cons_append, readQuoted]
      simp [ih]

theorem quotable_of_readQuoted {text raw after : List Char}
    (read : readQuoted text = some (raw, after)) :
    text = raw ++ '\'' :: after ∧ Quotable raw := by
  fun_induction readQuoted text generalizing raw after with
  | case1 => cases read
  | case2 rest =>
      obtain ⟨rfl, rfl⟩ := Prod.mk.inj (Option.some.inj read)
      exact ⟨rfl, .nil⟩
  | case3 => cases read
  | case4 c rest ih =>
      obtain ⟨⟨inner, later⟩, found, same⟩ := Option.map_eq_some_iff.mp read
      obtain ⟨rfl, rfl⟩ := Prod.mk.inj same
      obtain ⟨rfl, quotable⟩ := ih found
      exact ⟨rfl, .pair c quotable⟩
  | case5 c rest notQuote lone pair ih =>
      obtain ⟨⟨inner, later⟩, found, same⟩ := Option.map_eq_some_iff.mp read
      obtain ⟨rfl, rfl⟩ := Prod.mk.inj same
      obtain ⟨rfl, quotable⟩ := ih found
      have notBar : c ≠ '|' := by
        intro bar
        cases inner <;> exact pair _ _ bar rfl
      exact ⟨rfl, .plain notBar notQuote quotable⟩

def spaces (count : Nat) : List Char :=
  List.replicate count ' '

theorem skipSpaces_spaces (count : Nat) (rest : List Char) :
    skipSpaces (spaces count ++ rest) = skipSpaces rest :=
  List.dropWhile_append_of_pos (by simp [spaces])

theorem eq_spaces {text : List Char} (blank : ∀ c ∈ text, (c == ' ') = true) :
    text = spaces text.length :=
  List.eq_replicate_of_mem fun c member => beq_iff_eq.mp (blank c member)

theorem exists_spaces (text : List Char) : ∃ count, text = spaces count ++ skipSpaces text := by
  refine ⟨(text.takeWhile (· == ' ')).length, ?_⟩
  rw [← eq_spaces (List.all_eq_true.mp List.all_takeWhile)]
  exact List.takeWhile_append_dropWhile.symm

theorem head?_skipSpaces (text : List Char) : (skipSpaces text).head? ≠ some ' ' := by
  intro start
  have stopped := List.head?_dropWhile_not (· == ' ') text
  simp_all [skipSpaces]

theorem readValue_iff {text raw after : List Char} :
    readValue text = some (raw, after) ↔
      Quotable raw ∧ ∃ count, text = spaces count ++ '\'' :: raw ++ '\'' :: after := by
  constructor
  · intro read
    obtain ⟨count, whole⟩ := exists_spaces text
    unfold readValue at read
    split at read
    · next quoted start =>
        obtain ⟨rfl, quotable⟩ := quotable_of_readQuoted read
        exact ⟨quotable, count, by rw [whole, start]; simp⟩
    · cases read
  · rintro ⟨quotable, count, rfl⟩
    rw [readValue, List.append_assoc, skipSpaces_spaces, List.cons_append,
      skipSpaces_eq_self (by simp)]
    exact readQuoted_quotable quotable after

structure SpelledAttribute where
  key : String
  beforeEquals : Nat
  afterEquals : Nat
  raw : String
  word : key ≠ "" ∧ ' ' ∉ key.toList
  noEquals : '=' ∉ key.toList
  quotable : Quotable raw.toList

def SpelledAttribute.text (spelled : SpelledAttribute) : List Char :=
  spelled.key.toList ++ spaces spelled.beforeEquals ++ '=' :: spaces spelled.afterEquals ++
    '\'' :: spelled.raw.toList ++ ['\'']

theorem splitAttribute_text (spelled : SpelledAttribute) (after : List Char) :
    splitAttribute (spelled.text ++ after) =
      some (spelled.key.toList, spelled.raw.toList, after) := by
  have key : '=' ∉ spelled.key.toList ++ spaces spelled.beforeEquals := by
    simp [spelled.noEquals, spaces]
  have cut := takeWhile_stop key (spaces spelled.afterEquals ++
    '\'' :: spelled.raw.toList ++ '\'' :: after)
  have whole : spelled.text ++ after = spelled.key.toList ++ spaces spelled.beforeEquals ++
      '=' :: (spaces spelled.afterEquals ++ '\'' :: spelled.raw.toList ++ '\'' :: after) := by
    simp [SpelledAttribute.text]
  have keyed : keyPart (spelled.text ++ after) = spelled.key.toList := by
    rw [keyPart, whole, cut.1, trimEndWhere_append_dropped _ _ _ (by simp [spaces]),
      trimEndWhere_spaceless spelled.word.2]
  have value := (@readValue_iff _ _ after).mpr ⟨spelled.quotable, spelled.afterEquals, rfl⟩
  rw [splitAttribute, keyed, whole, cut.2]
  simp only [isWord_toList.mpr spelled.word, if_true, value, Option.map_some]

theorem splitAttribute_shape {text key raw after : List Char}
    (found : splitAttribute text = some (key, raw, after)) :
    Quotable raw ∧ ∃ before behind, text =
      key ++ spaces before ++ '=' :: (spaces behind ++ '\'' :: raw ++ '\'' :: after) := by
  have whole := List.takeWhile_append_dropWhile (p := (· != '=')) (l := text)
  obtain ⟨gap, keyed, blank⟩ := exists_trimmed (· == ' ') (text.takeWhile (· != '='))
  unfold splitAttribute at found
  split at found
  · cases found
  · next first afterEquals rest =>
      split at found
      · obtain ⟨⟨inner, later⟩, read, same⟩ := Option.map_eq_some_iff.mp found
        obtain ⟨rfl, rfl, rfl⟩ : keyPart text = key ∧ inner = raw ∧ later = after := by
          simpa using same
        obtain ⟨quotable, count, valued⟩ := readValue_iff.mp read
        have equals : first = '=' := by
          have stopped := List.head?_dropWhile_not (· != '=') text
          simpa [rest] using stopped
        refine ⟨quotable, gap.length, count, ?_⟩
        rw [equals] at rest
        rw [← eq_spaces blank, keyPart, ← keyed, ← valued, ← rest, whole]
      · cases found

theorem spelled_of_splitAttribute {text key raw after : List Char}
    (found : splitAttribute text = some (key, raw, after)) :
    ∃ spelled : SpelledAttribute, spelled.key.toList = key ∧ spelled.raw.toList = raw ∧
      text = spelled.text ++ after := by
  obtain ⟨word, noEquals⟩ := splitAttribute_word found
  obtain ⟨quotable, before, behind, rfl⟩ := splitAttribute_shape found
  let spelled : SpelledAttribute := {
    key := String.ofList key, beforeEquals := before, afterEquals := behind
    raw := String.ofList raw, word := isWord_toList.mp (by simpa using word)
    noEquals := by simpa using noEquals, quotable := by simpa using quotable }
  exact ⟨spelled, String.toList_ofList, String.toList_ofList, by
    simp [spelled, SpelledAttribute.text]⟩

theorem splitAttribute_eq_none {text : List Char} :
    splitAttribute text = none ↔ ∀ spelled : SpelledAttribute, ¬ spelled.text <+: text := by
  constructor
  · rintro shapeless spelled ⟨after, rfl⟩
    rw [splitAttribute_text] at shapeless
    cases shapeless
  · intro shapeless
    cases found : splitAttribute text with
    | none => rfl
    | some parts =>
        obtain ⟨spelled, _, _, shape⟩ := spelled_of_splitAttribute found
        exact absurd ⟨_, shape.symm⟩ (shapeless spelled)

def SpelledAttribute.Means (spelled : SpelledAttribute) (entry : String × String) : Prop :=
  entry.1 = spelled.key ∧ unescape spelled.raw = .ok entry.2

theorem head?_text (spelled : SpelledAttribute) (rest : List Char) :
    (spelled.text ++ rest).head? ≠ some ' ' := by
  obtain ⟨nonempty, spaceless⟩ := isWord_iff.mp (isWord_toList.mpr spelled.word)
  obtain ⟨first, more, key⟩ := List.exists_cons_of_ne_nil nonempty
  rw [key, List.mem_cons, not_or] at spaceless
  simpa [SpelledAttribute.text, key] using Ne.symm spaceless.1

def spelledText (attributes : List (SpelledAttribute × Nat)) : List Char :=
  attributes.flatMap fun (spelled, behind) => spelled.text ++ spaces behind

@[simp]
theorem spelledText_nil : spelledText [] = [] := rfl

@[simp]
theorem spelledText_cons (spelled : SpelledAttribute) (behind : Nat)
    (rest : List (SpelledAttribute × Nat)) :
    spelledText ((spelled, behind) :: rest) =
      spelled.text ++ (spaces behind ++ spelledText rest) :=
  List.append_assoc ..

theorem spaces_inj {first second : Nat} (same : spaces first = spaces second) : first = second := by
  simpa [spaces] using congrArg List.length same

-- Where the spaces end is seen from what comes next.
theorem gap_unique {first second : Nat} {left right : List Char}
    (leftStart : left.head? ≠ some ' ') (rightStart : right.head? ≠ some ' ')
    (same : spaces first ++ left = spaces second ++ right) : first = second ∧ left = right := by
  have rest := congrArg skipSpaces same
  rw [skipSpaces_spaces, skipSpaces_spaces, skipSpaces_eq_self leftStart,
    skipSpaces_eq_self rightStart] at rest
  subst rest
  exact ⟨spaces_inj (List.append_cancel_right same), rfl⟩

theorem text_unique {first second : SpelledAttribute} {left right : List Char}
    (same : first.text ++ left = second.text ++ right) : first = second ∧ left = right := by
  have split := splitAttribute_text first left
  rw [same, splitAttribute_text second right] at split
  obtain ⟨key, raw, rfl⟩ : second.key = first.key ∧ second.raw = first.raw ∧ right = left := by
    simpa [String.toList_inj] using split
  have texts := List.append_cancel_right same
  simp only [SpelledAttribute.text, key, raw, List.append_assoc, List.cons_append,
    List.append_cancel_left_eq] at texts
  obtain ⟨before, values⟩ := gap_unique (by simp) (by simp) texts
  obtain ⟨after, _⟩ := gap_unique (by simp) (by simp) (List.cons.inj values).2
  refine ⟨?_, rfl⟩
  cases first
  cases second
  simp_all

theorem head?_spelledText (attributes : List (SpelledAttribute × Nat)) :
    (spelledText attributes).head? ≠ some ' ' := by
  cases attributes with
  | nil => simp
  | cons first rest => exact spelledText_cons .. ▸ head?_text first.1 _

theorem spelledText_unique {first second : List (SpelledAttribute × Nat)}
    (same : spelledText first = spelledText second) : first = second := by
  have present (spelled : SpelledAttribute) (rest : List Char) : spelled.text ++ rest ≠ [] := by
    simp [SpelledAttribute.text]
  induction first generalizing second with
  | nil =>
      cases second with
      | nil => rfl
      | cons other more => exact absurd (spelledText_cons .. ▸ same.symm) (present other.1 _)
  | cons spelled rest ih =>
      cases second with
      | nil => exact absurd (spelledText_cons .. ▸ same) (present spelled.1 _)
      | cons other more =>
          rw [spelledText_cons, spelledText_cons] at same
          obtain ⟨text, later⟩ := text_unique same
          obtain ⟨behind, later⟩ :=
            gap_unique (head?_spelledText rest) (head?_spelledText more) later
          rw [ih later, Prod.ext text behind]

end RunStream.Wire
