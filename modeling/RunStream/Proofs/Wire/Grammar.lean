import Mathlib.Data.List.Forall2
import RunStream.Proofs.Wire.Attributes

set_option autoImplicit false

namespace RunStream.Wire

open RunStream.Text

/-- A line up to its bracket.  Each attribute has the number of spaces behind it. -/
structure Spelling where
  name : String
  gap : Nat
  attributes : List (SpelledAttribute × Nat)
  word : name ≠ "" ∧ ' ' ∉ name.toList
  apart : attributes = [] ∨ 0 < gap

namespace Spelling

def text (protocol : String) (spelling : Spelling) : List Char :=
  (Message.opening protocol).toList ++ spelling.name.toList ++ spaces spelling.gap ++
    spelledText spelling.attributes

theorem text_append (spelling : Spelling) (protocol : String) (rest : List Char) :
    spelling.text protocol ++ rest =
      (Message.opening protocol).toList ++ (spelling.name.toList ++
        (spaces spelling.gap ++ (spelledText spelling.attributes ++ rest))) := by
  simp [text]

structure Means (spelling : Spelling) (message : Message) : Prop where
  name : message.name = spelling.name
  attributes : List.Forall₂ (fun spelled entry => spelled.1.Means entry) spelling.attributes
    message.attributes

end Spelling

inductive Faulty (offset : Nat) : List Char → ParseError → Prop
  | malformed {text : List Char} (present : text ≠ []) (start : text.head? ≠ some ' ')
      (shapeless : ∀ spelled : SpelledAttribute, ¬ spelled.text <+: text) :
      Faulty offset text (.malformedAttribute offset)
  | undecodable {spelled : SpelledAttribute} {cause : UnescapeError} (rest : List Char)
      (refused : unescape spelled.raw = .error cause) :
      Faulty offset (spelled.text ++ rest) (.invalidEscape spelled.key cause)

/-- What a line without its ending is read as.  Of the first attribute that is wrong, everything
before it is right. -/
inductive LineReads (protocol : String) (line : List Char) : Except ParseError Message → Prop
  | message {spelling : Spelling} {message : Message}
      (spelled : line = spelling.text protocol ++ [']']) (means : spelling.Means message) :
      LineReads protocol line (.ok message)
  | missingOpening (other : ¬ (Message.opening protocol).toList <+: line) :
      LineReads protocol line (.error (.missingOpening protocol))
  | unterminated (opened : (Message.opening protocol).toList <+: line)
      (endless : ∀ body, line ≠ (Message.opening protocol).toList ++ body ++ [']']) :
      LineReads protocol line (.error .unterminated)
  | emptyName {body : List Char}
      (closed : line = (Message.opening protocol).toList ++ body ++ [']'])
      (nameless : body = [] ∨ body.head? = some ' ') :
      LineReads protocol line (.error .emptyName)
  | faulty {before : Spelling} {message : Message} {bad : List Char} {error : ParseError}
      (spelled : line = before.text protocol ++ bad ++ [']']) (apart : 0 < before.gap)
      (means : before.Means message) (wrong : Faulty (width (before.text protocol)) bad error) :
      LineReads protocol line (.error error)

theorem readAttributes_blank {stop : Nat} {text : List Char} (blank : skipSpaces text = []) :
    readAttributes stop text = .ok [] := by
  rw [readAttributes, blank]
  rfl

theorem readAttributes_malformed {stop : Nat} {text : List Char} (more : skipSpaces text ≠ [])
    (shapeless : splitAttribute (skipSpaces text) = none) :
    readAttributes stop text =
      .error (.malformedAttribute (stop - width (skipSpaces text))) := by
  rw [readAttributes, if_neg (by simpa using more)]
  split
  · rfl
  · next found => simp [shapeless] at found

theorem readAttributes_split {stop : Nat} {text key raw rest : List Char}
    (found : splitAttribute (skipSpaces text) = some (key, raw, rest)) :
    readAttributes stop text =
      match unescapeFrom 0 raw with
      | .error cause => .error (.invalidEscape (String.ofList key) cause)
      | .ok value =>
          ((String.ofList key, String.ofList value) :: ·) <$> readAttributes stop rest := by
  have more : skipSpaces text ≠ [] := by
    intro none
    simp [none, splitAttribute] at found
  rw [readAttributes, if_neg (by simpa using more)]
  split
  · next absent => simp [found] at absent
  · next key' raw' rest' found' =>
      obtain ⟨rfl, rfl, rfl⟩ : key = key' ∧ raw = raw' ∧ rest = rest' := by
        simpa [found] using found'
      rfl

theorem readAttributes_spaces (stop count : Nat) (rest : List Char) :
    readAttributes stop (spaces count ++ rest) = readAttributes stop rest := by
  have skipped := skipSpaces_spaces count rest
  by_cases more : skipSpaces rest = []
  · rw [readAttributes_blank more, readAttributes_blank (skipped.trans more)]
  · cases found : splitAttribute (skipSpaces rest) with
    | none =>
        rw [readAttributes_malformed more found, readAttributes_malformed (skipped ▸ more)
          (skipped ▸ found), skipped]
    | some parts =>
        obtain ⟨key, raw, after⟩ := parts
        rw [readAttributes_split found, readAttributes_split (skipped ▸ found)]

theorem unescape_ok {raw value : String} (decoded : unescape raw = .ok value) :
    unescapeFrom 0 raw.toList = .ok value.toList := by
  obtain ⟨chars, read, rfl⟩ := exists_of_map_eq_ok decoded
  simpa using read

theorem unescape_error {raw : String} {cause : UnescapeError}
    (refused : unescape raw = .error cause) : unescapeFrom 0 raw.toList = .error cause := by
  unfold unescape at refused
  cases read : unescapeFrom 0 raw.toList with
  | error found => simpa [read] using refused
  | ok value => simp [read] at refused

theorem readAttributes_spelled {attributes : List (SpelledAttribute × Nat)}
    {entries : List (String × String)}
    (means : List.Forall₂ (fun spelled entry => spelled.1.Means entry) attributes entries)
    (stop : Nat) (rest : List Char) :
    readAttributes stop (spelledText attributes ++ rest) =
      (entries ++ ·) <$> readAttributes stop rest := by
  induction means with
  | nil =>
      rw [spelledText_nil, List.nil_append]
      cases readAttributes stop rest <;> rfl
  | @cons first entry attributes entries same _ ih =>
      obtain ⟨spelled, behind⟩ := first
      obtain ⟨key, value⟩ := entry
      obtain ⟨rfl, decoded⟩ := same
      have found := splitAttribute_text spelled (spaces behind ++ (spelledText attributes ++ rest))
      rw [← skipSpaces_eq_self (head?_text spelled _)] at found
      rw [spelledText_cons, List.append_assoc, List.append_assoc, readAttributes_split found,
        unescape_ok decoded, readAttributes_spaces, ih]
      cases readAttributes stop rest <;> simp

theorem Faulty.read {stop : Nat} {bad : List Char} {error : ParseError}
    (wrong : Faulty (stop - width bad) bad error) : readAttributes stop bad = .error error := by
  cases wrong with
  | malformed present start shapeless =>
      have here := skipSpaces_eq_self start
      have none := splitAttribute_eq_none.mpr shapeless
      rw [readAttributes_malformed (by rwa [here]) (by rwa [here]), here]
  | @undecodable spelled cause rest refused =>
      have found := splitAttribute_text spelled rest
      rw [← skipSpaces_eq_self (head?_text spelled rest)] at found
      rw [readAttributes_split found, unescape_error refused, String.ofList_toList]

theorem exists_spelled (text : List Char) :
    ∃ gap attributes entries rest, text = spaces gap ++ spelledText attributes ++ rest ∧
      List.Forall₂ (fun (spelled : SpelledAttribute × Nat) entry => spelled.1.Means entry)
        attributes entries ∧
      (rest = [] ∨ ∀ offset, ∃ error, Faulty offset rest error) := by
  fun_induction readAttributes 0 text with
  | case1 text blank =>
      obtain ⟨gap, whole⟩ := exists_spaces text
      exact ⟨gap, [], [], [], by simpa [List.isEmpty_iff.mp blank] using whole, .nil, .inl rfl⟩
  | case2 text more shapeless =>
      obtain ⟨gap, whole⟩ := exists_spaces text
      refine ⟨gap, [], [], skipSpaces text, by simpa using whole, .nil, .inr ?_⟩
      exact fun offset => ⟨_, .malformed (by simpa using more) (head?_skipSpaces text)
        (splitAttribute_eq_none.mp shapeless)⟩
  | case3 text more key raw rest found cause refused =>
      obtain ⟨gap, whole⟩ := exists_spaces text
      obtain ⟨spelled, _, rfl, shape⟩ := spelled_of_splitAttribute found
      refine ⟨gap, [], [], skipSpaces text, by simpa using whole, .nil, .inr ?_⟩
      intro offset
      rw [shape]
      exact ⟨.invalidEscape spelled.key cause, .undecodable rest (by simp [unescape, refused])⟩
  | case4 text more key raw rest found value decoded ih =>
      obtain ⟨gap, whole⟩ := exists_spaces text
      obtain ⟨spelled, _, rfl, shape⟩ := spelled_of_splitAttribute found
      obtain ⟨behind, attributes, entries, last, cut, means, ending⟩ := ih
      refine ⟨gap, (spelled, behind) :: attributes, (spelled.key, String.ofList value) :: entries,
        last, ?_, .cons ⟨rfl, ?_⟩ means, ending⟩
      · rw [spelledText_cons, List.append_assoc, List.append_assoc, ← cut, ← shape, ← whole]
      · simp [unescape, decoded]

theorem readBody_nameless {body : List Char} (nameless : body = [] ∨ body.head? = some ' ')
    (stop : Nat) : readBody stop body = .error .emptyName := by
  have none : body.takeWhile (· != ' ') = [] := by
    rcases nameless with rfl | start
    · rfl
    · obtain ⟨more, rfl⟩ := List.head?_eq_some_iff.mp start
      rfl
  simp [readBody, none]

theorem readBody_named {name rest : List Char} (word : isWord name = true)
    (space : ∀ c, rest.head? = some c → c = ' ') (stop : Nat) :
    readBody stop (name ++ rest) =
      (fun attributes => { name := String.ofList name, attributes }) <$>
        readAttributes stop rest := by
  obtain ⟨present, spaceless⟩ := isWord_iff.mp word
  simp only [readBody, cut_before spaceless space, List.isEmpty_eq_false_iff.mpr present,
    bind_pure_comp]
  rfl

theorem head?_spaces {count : Nat} (positive : 0 < count) (rest : List Char) :
    (spaces count ++ rest).head? = some ' ' := by
  obtain ⟨more, rfl⟩ := Nat.exists_eq_add_of_lt positive
  simp [spaces, List.replicate_succ]

theorem Spelling.space (spelling : Spelling) {rest : List Char}
    (apart : rest = [] ∨ 0 < spelling.gap) {c : Char}
    (first : (spaces spelling.gap ++ (spelledText spelling.attributes ++ rest)).head? = some c) :
    c = ' ' := by
  by_cases positive : 0 < spelling.gap
  · rw [head?_spaces positive] at first
    exact (Option.some.inj first).symm
  · have gapless : spelling.gap = 0 := by omega
    rw [gapless, spelling.apart.resolve_right positive, apart.resolve_right positive] at first
    cases first

theorem readBody_spelled {spelling : Spelling} {message : Message} (means : spelling.Means message)
    {rest : List Char} (apart : rest = [] ∨ 0 < spelling.gap) (stop : Nat) :
    readBody stop (spelling.name.toList ++ (spaces spelling.gap ++
        (spelledText spelling.attributes ++ rest))) =
      (fun more => { message with attributes := message.attributes ++ more }) <$>
        readAttributes stop rest := by
  rw [readBody_named (isWord_toList.mpr spelling.word) fun _ => spelling.space apart,
    readAttributes_spaces, readAttributes_spelled means.attributes]
  cases readAttributes stop rest <;> simp [means.name]

theorem parseChars_closed {protocol : String} {line body : List Char}
    (closed : trimEndWhere isLineEnding line =
      (Message.opening protocol).toList ++ body ++ [']']) :
    parseChars protocol line =
      readBody (width ((Message.opening protocol).toList ++ body)) body := by
  have cut : (Message.opening protocol).toList ++ body ++ [']'] =
      (Message.opening protocol).toList ++ (body ++ [']']) := List.append_assoc ..
  have bracket : Char.utf8Size ']' = 1 := by decide
  simp only [parseChars, closed]
  rw [cut, isPrefixOf?_append]
  simp [bracket]

theorem LineReads.parsed {protocol : String} {line : List Char}
    {result : Except ParseError Message}
    (reads : LineReads protocol (trimEndWhere isLineEnding line) result) :
    parseChars protocol line = result := by
  cases reads with
  | @message spelling message spelled means =>
      rw [← List.append_nil (spelling.text protocol), Spelling.text_append] at spelled
      rw [parseChars_closed spelled, readBody_spelled means (.inl rfl), readAttributes_blank rfl]
      simp
  | missingOpening other =>
      have none : (Message.opening protocol).toList.isPrefixOf?
          (trimEndWhere isLineEnding line) = none :=
        Option.not_isSome_iff_eq_none.mp (by simpa using other)
      simp only [parseChars, none]
  | unterminated opened endless =>
      obtain ⟨rest, whole⟩ := opened
      have last : rest.getLast? ≠ some ']' := by
        intro closing
        obtain ⟨body, rfl⟩ := List.getLast?_eq_some_iff.mp closing
        exact endless body (by rw [← whole, List.append_assoc])
      simp only [parseChars, ← whole, isPrefixOf?_append, if_neg last]
  | emptyName closed nameless =>
      rw [parseChars_closed closed, readBody_nameless nameless]
  | @faulty before message bad error spelled apart means wrong =>
      have stop := congrArg width (before.text_append protocol bad)
      rw [Spelling.text_append] at spelled
      rw [parseChars_closed spelled, readBody_spelled means (.inr apart), ← stop, Faulty.read]
      · rfl
      · rwa [width_append, Nat.add_sub_cancel]

theorem Faulty.start {offset : Nat} {bad : List Char} {error : ParseError}
    (wrong : Faulty offset bad error) : bad ≠ [] ∧ bad.head? ≠ some ' ' := by
  cases wrong with
  | malformed present start _ => exact ⟨present, start⟩
  | undecodable rest _ => exact ⟨by simp [SpelledAttribute.text], head?_text _ rest⟩

theorem gap_pos {gap : Nat} {after : List Char} (present : after ≠ [])
    (start : after.head? ≠ some ' ')
    (space : ∀ c, (spaces gap ++ after).head? = some c → c = ' ') : 0 < gap := by
  refine Nat.pos_of_ne_zero fun none => ?_
  obtain ⟨c, more, rfl⟩ := List.exists_cons_of_ne_nil present
  rw [none] at space
  exact start (congrArg some (space c rfl))

theorem exists_name {body : List Char} (named : ¬ (body = [] ∨ body.head? = some ' ')) :
    ∃ (name : String) (behind : List Char), body = name.toList ++ behind ∧
      isWord name.toList = true ∧ ∀ c, behind.head? = some c → c = ' ' := by
  obtain ⟨nonempty, start⟩ := not_or.mp named
  refine ⟨String.ofList (body.takeWhile (· != ' ')), body.dropWhile (· != ' '), ?_, ?_, ?_⟩
  · simp
  · rw [String.toList_ofList, isWord_iff]
    constructor
    · obtain ⟨c, more, rfl⟩ := List.exists_cons_of_ne_nil nonempty
      have plain : c ≠ ' ' := by simpa using start
      simp [plain]
    · exact not_mem_takeWhile ' ' body
  · intro c first
    have stopped := List.head?_dropWhile_not (· != ' ') body
    simpa [first] using stopped

theorem exists_spelling {body : List Char} (named : ¬ (body = [] ∨ body.head? = some ' ')) :
    ∃ (spelling : Spelling) (message : Message) (rest : List Char),
      body = spelling.name.toList ++ (spaces spelling.gap ++
        (spelledText spelling.attributes ++ rest)) ∧
      spelling.Means message ∧
      (rest = [] ∨ 0 < spelling.gap ∧ ∀ offset, ∃ error, Faulty offset rest error) := by
  obtain ⟨name, behind, rfl, word, space⟩ := exists_name named
  obtain ⟨gap, attributes, entries, rest, rfl, means, ending⟩ := exists_spelled behind
  rw [List.append_assoc] at space ⊢
  have apart : attributes = [] ∨ 0 < gap := by
    cases attributes with
    | nil => exact .inl rfl
    | cons first more =>
        rw [spelledText_cons, List.append_assoc] at space
        exact .inr (gap_pos (by simp [SpelledAttribute.text]) (head?_text first.1 _) space)
  refine ⟨⟨name, gap, attributes, isWord_toList.mp word, apart⟩, ⟨name, entries⟩, rest, rfl,
    ⟨rfl, means⟩, ending.imp_right fun wrong => ⟨?_, wrong⟩⟩
  obtain ⟨error, here⟩ := wrong 0
  cases apart with
  | inl none => exact gap_pos here.start.1 here.start.2 (by simpa [none] using space)
  | inr positive => exact positive

theorem exists_lineReads (protocol : String) (line : List Char) :
    ∃ result, LineReads protocol line result := by
  by_cases opened : (Message.opening protocol).toList <+: line
  case neg => exact ⟨_, .missingOpening opened⟩
  by_cases closed : ∃ body, line = (Message.opening protocol).toList ++ body ++ [']']
  case neg => exact ⟨_, .unterminated opened (not_exists.mp closed)⟩
  obtain ⟨body, closed⟩ := closed
  by_cases nameless : body = [] ∨ body.head? = some ' '
  case pos => exact ⟨_, .emptyName closed nameless⟩
  obtain ⟨spelling, message, rest, rfl, means, ending⟩ := exists_spelling nameless
  rcases ending with rfl | ⟨apart, wrong⟩
  · exact ⟨_, .message (by simp [closed, Spelling.text]) means⟩
  · obtain ⟨error, wrong⟩ := wrong (width (spelling.text protocol))
    exact ⟨_, .faulty (by simp [closed, Spelling.text]) apart means wrong⟩

theorem parseChars_iff {protocol : String} {line : List Char}
    {result : Except ParseError Message} :
    parseChars protocol line = result ↔
      LineReads protocol (trimEndWhere isLineEnding line) result := by
  refine ⟨fun parsed => ?_, LineReads.parsed⟩
  obtain ⟨read, reads⟩ := exists_lineReads protocol (trimEndWhere isLineEnding line)
  exact (reads.parsed.symm.trans parsed) ▸ reads

theorem spelling_unique {protocol : String} {first second : Spelling}
    (same : first.text protocol = second.text protocol) : first = second := by
  have left := cut_before first.word.2 fun _ => first.space (.inl rfl)
  have right := cut_before second.word.2 fun _ => second.space (.inl rfl)
  simp only [Spelling.text, List.append_assoc, List.append_cancel_left_eq] at same
  simp only [List.append_nil, same] at left right
  obtain ⟨gap, attributes⟩ := gap_unique (head?_spelledText _) (head?_spelledText _)
    (left.2.symm.trans right.2)
  have name := String.toList_inj.mp (left.1.symm.trans right.1)
  have listed := spelledText_unique attributes
  cases first
  cases second
  simp_all

/-- The text is right as far as it goes: with a bracket behind it, it is read as the message with
exactly the attributes that stand in it. -/
def ReadableTo (protocol front : String) : Prop :=
  ∃ (before : Spelling) (message : Message), front.toList = before.text protocol ∧
    before.Means message ∧ Message.parse protocol (front ++ "]") = .ok message

theorem readableTo {protocol : String} {before : Spelling} {message : Message}
    (means : before.Means message) :
    ReadableTo protocol (String.ofList (before.text protocol)) := by
  refine ⟨before, message, String.toList_ofList, means, parseChars_iff.mpr ?_⟩
  have closed : (String.ofList (before.text protocol) ++ "]").toList =
      before.text protocol ++ [']'] := by simp
  rw [closed, trimEndWhere_append_kept isLineEnding _ ']' (by decide)]
  exact .message rfl means

theorem parse_exact (protocol line : String) :
    let text := trimEndWhere isLineEnding line.toList
    (∀ result, Message.parse protocol line = result ↔ LineReads protocol text result) ∧
      (∀ first second : Spelling, first.text protocol ++ [']'] = text →
        second.text protocol ++ [']'] = text → first = second) ∧
      (∀ offset, Message.parse protocol line = .error (.malformedAttribute offset) →
        ∃ front c back, line = front ++ String.singleton c ++ back ∧
          front.utf8ByteSize = offset ∧ c ≠ ' ' ∧ ReadableTo protocol front) ∧
      ∀ key cause, Message.parse protocol line = .error (.invalidEscape key cause) →
        ∃ (front : String) (spelled : SpelledAttribute) (back : String),
          line = front ++ String.ofList spelled.text ++ back ∧ spelled.key = key ∧
            unescape spelled.raw = .error cause ∧ ReadableTo protocol front := by
  intro text
  obtain ⟨ending, whole, _⟩ := exists_trimmed isLineEnding line.toList
  have joined (front middle back : List Char) (cut : text = front ++ middle ++ back) :
      line = String.ofList front ++ String.ofList middle ++ String.ofList (back ++ ending) := by
    rw [← String.ofList_append, ← String.ofList_append, ← List.append_assoc, ← cut, ← whole,
      String.ofList_toList]
  refine ⟨fun result => parseChars_iff, fun first second left right => ?_,
    fun offset failed => ?_, fun key cause failed => ?_⟩
  · exact spelling_unique (List.append_cancel_right (left.trans right.symm))
  · cases parseChars_iff.mp failed with
    | @faulty before message bad error spelled apart means wrong =>
        cases wrong with
        | malformed present start _ =>
            obtain ⟨c, more, rfl⟩ := List.exists_cons_of_ne_nil present
            refine ⟨_, c, _, joined (before.text protocol) [c] (more ++ [']']) ?_, ?_, ?_,
              readableTo means⟩
            · simp [text, spelled]
            · rw [← width_toList, String.toList_ofList]
            · simpa using start
  · cases parseChars_iff.mp failed with
    | @faulty before message bad error spelled apart means wrong =>
        cases wrong with
        | @undecodable culprit cause rest refused =>
            refine ⟨_, culprit, _, joined (before.text protocol) culprit.text (rest ++ [']']) ?_,
              rfl, refused, readableTo means⟩
            simp [text, spelled]

example : Message.parse "teamcity" "##teamcity[testStarted é='1'  name='x|']\n" =
    .error (.malformedAttribute 31) := by cbv

end RunStream.Wire
