import RunStream.Proofs.Wire.RoundTrip

set_option autoImplicit false

namespace RunStream.Wire

open RunStream.Text

theorem equals_not_mem_keyPart (text : List Char) : '=' ∉ keyPart text := by
  intro member
  have taken := (trimEndWhere_isPrefix _ _).subset member
  exact not_mem_takeWhile '=' text taken

theorem splitAttribute_word {text key raw rest : List Char}
    (found : splitAttribute text = some (key, raw, rest)) : isWord key = true ∧ '=' ∉ key := by
  unfold splitAttribute at found
  split at found
  · cases found
  · split at found
    · next word =>
        obtain ⟨read, _, same⟩ := Option.map_eq_some_iff.mp found
        simp only [Prod.mk.injEq] at same
        exact same.1 ▸ ⟨word, equals_not_mem_keyPart text⟩
    · cases found

theorem exists_of_map_eq_ok {ε α β : Type} {make : α → β} {result : Except ε α} {made : β}
    (success : make <$> result = .ok made) : ∃ value, result = .ok value ∧ make value = made := by
  cases result with
  | error cause => cases success
  | ok value => exact ⟨value, rfl, Except.ok.inj success⟩

theorem readAttributes_words {stop : Nat} {text : List Char} {attributes : List (String × String)}
    (read : readAttributes stop text = .ok attributes) :
    ∀ entry ∈ attributes, isWord entry.1.toList = true ∧ '=' ∉ entry.1.toList := by
  fun_induction readAttributes stop text generalizing attributes with
  | case1 text blank =>
      cases read
      simp
  | case2 text more none => cases read
  | case3 text more key raw rest found cause bad => cases read
  | case4 text more key raw rest found value good ih =>
      obtain ⟨others, later, rfl⟩ := exists_of_map_eq_ok read
      intro entry member
      rcases List.mem_cons.mp member with rfl | member
      · simpa using splitAttribute_word found
      · exact ih later entry member

theorem readBody_wellFormed {stop : Nat} {body : List Char} {message : Message}
    (read : readBody stop body = .ok message) : message.WellFormed := by
  simp only [readBody, bind_pure_comp] at read
  split at read
  · cases read
  · next inhabited =>
      obtain ⟨attributes, later, rfl⟩ := exists_of_map_eq_ok read
      have spaceless := not_mem_takeWhile ' ' body
      exact ⟨by simpa [isWord_iff, spaceless] using inhabited, readAttributes_words later⟩

theorem parse_wellFormed {protocol line : String} {message : Message}
    (read : Message.parse protocol line = .ok message) : message.WellFormed := by
  simp only [Message.parse, parseChars] at read
  split at read
  · cases read
  · split at read
    · exact readBody_wellFormed read
    · cases read

def Message.Plain (message : Message) : Prop :=
  message.name ≠ "" ∧ ' ' ∉ message.name.toList ∧
    ∀ entry ∈ message.attributes,
      entry.1 ≠ "" ∧ ' ' ∉ entry.1.toList ∧ '=' ∉ entry.1.toList

instance (message : Message) : Decidable message.Plain :=
  inferInstanceAs (Decidable (_ ∧ _ ∧ _))

example : Message.Plain { name := "]['", attributes := [("\t\n]", "it's |"), ("\t\n]", "")] } := by
  decide +kernel

theorem isWord_toList {text : String} :
    isWord text.toList = true ↔ text ≠ "" ∧ ' ' ∉ text.toList := by
  rw [isWord_iff, Ne, String.toList_eq_nil_iff]

theorem Message.wellFormed_iff_plain {message : Message} :
    message.WellFormed ↔ message.Plain := by
  constructor
  · intro wellFormed
    have name := isWord_toList.mp wellFormed.name
    refine ⟨name.1, name.2, fun entry member => ?_⟩
    obtain ⟨word, plain⟩ := wellFormed.keys entry member
    exact ⟨(isWord_toList.mp word).1, (isWord_toList.mp word).2, plain⟩
  · rintro ⟨named, spaceless, keys⟩
    refine ⟨isWord_toList.mpr ⟨named, spaceless⟩, fun entry member => ?_⟩
    obtain ⟨keyed, free, plain⟩ := keys entry member
    exact ⟨isWord_toList.mpr ⟨keyed, free⟩, plain⟩

theorem survives_iff_plain (protocol : String) :
    (∀ message : Message,
        Message.parse protocol (message.render protocol) = .ok message ↔ message.Plain) ∧
      ∀ (line : String) (message : Message), Message.parse protocol line = .ok message →
        message.Plain ∧ Message.parse protocol (message.render protocol) = .ok message := by
  refine ⟨fun message => ⟨fun read => ?_, fun plain => ?_⟩, fun line message read => ⟨?_, ?_⟩⟩
  · exact Message.wellFormed_iff_plain.mp (parse_wellFormed read)
  · exact parse_render protocol (Message.wellFormed_iff_plain.mpr plain)
  · exact Message.wellFormed_iff_plain.mp (parse_wellFormed read)
  · exact parse_render protocol (parse_wellFormed read)

end RunStream.Wire
