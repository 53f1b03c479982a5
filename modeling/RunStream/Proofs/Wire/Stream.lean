import RunStream.Nesting
import RunStream.Proofs.Wire.RoundTrip

set_option autoImplicit false

namespace RunStream.Wire

open RunStream.Text

variable {protocol : String} {message : Message} {messages : List Message}

structure Message.Unbroken (message : Message) : Prop where
  name : '\n' ∉ message.name.toList
  keys : ∀ entry ∈ message.attributes, '\n' ∉ entry.1.toList

instance (message : Message) : Decidable message.Unbroken :=
  decidable_of_iff ('\n' ∉ message.name.toList ∧ ∀ entry ∈ message.attributes,
    '\n' ∉ entry.1.toList) ⟨fun both => ⟨both.1, both.2⟩, fun both => ⟨both.name, both.keys⟩⟩

theorem not_mem_escapeChars {ending : Char} (breaks : isLineEnding ending = true)
    (value : List Char) : ending ∉ escapeChars value := by
  have each (c : Char) : ending ∉ escapeChar c := by
    unfold isLineEnding at breaks
    unfold escapeChar
    split_ifs <;> grind
  intro member
  obtain ⟨c, _, written⟩ := List.mem_flatMap.mp member
  exact each c written

theorem newline_not_mem_render (plain : '\n' ∉ protocol.toList) (unbroken : message.Unbroken) :
    '\n' ∉ (message.render protocol).toList := by
  have attributes : '\n' ∉ message.attributes.flatMap attributeChars := by
    intro member
    obtain ⟨entry, inAttributes, written⟩ := List.mem_flatMap.mp member
    have key := unbroken.keys entry inAttributes
    have value := @not_mem_escapeChars '\n' rfl entry.2.toList
    simp [attributeChars, key, value] at written
  simp [toList_render, Message.opening, plain, unbroken.name, attributes]

theorem getLast?_render (protocol : String) (message : Message) :
    (message.render protocol).toList.getLast? = some ']' := by
  rw [toList_render, List.getLast?_concat]

def writtenLines (protocol : String) (messages : List Message) : List (List Char) :=
  messages.map fun message => (message.render protocol).toList

theorem lines_written (plain : '\n' ∉ protocol.toList)
    (unbroken : ∀ message ∈ messages, message.Unbroken) :
    lines (String.join (messages.map (Message.renderLine protocol))).toList =
      writtenLines protocol messages := by
  induction messages with
  | nil => rfl
  | cons message rest ih =>
      have feed := newline_not_mem_render plain (unbroken message (List.mem_cons_self ..))
      have later := ih fun other member => unbroken other (List.mem_cons_of_mem _ member)
      have ending : (message.render protocol).toList.getLast? ≠ some '\r' := by
        simp [getLast?_render]
      have text : (String.join ((message :: rest).map (Message.renderLine protocol))).toList =
          (message.render protocol).toList ++
            '\n' :: (String.join (rest.map (Message.renderLine protocol))).toList := by
        simp [Message.renderLine]
      rw [text, lines_append_newline _ _ feed ending, later]
      rfl

theorem messageLines_written {text : String}
    (written : lines text.toList = writtenLines protocol messages) :
    messageLines protocol text.toList = writtenLines protocol messages := by
  have trimmed : ∀ line ∈ writtenLines protocol messages, trimStart line = line := by
    intro line member
    obtain ⟨message, _, rfl⟩ := List.mem_map.mp member
    have blank : isBlank '#' = false := by decide
    simp [toList_render, Message.opening, trimStart, blank]
  have marked : ∀ line ∈ writtenLines protocol messages,
      (Message.opening protocol).toList.isPrefixOf line = true := by
    intro line member
    obtain ⟨message, _, rfl⟩ := List.mem_map.mp member
    rw [toList_render, List.append_assoc]
    simp
  rw [messageLines, written, List.map_congr_left trimmed, List.map_id',
    List.filter_eq_self.mpr marked]

theorem decodeLines_written (wellFormed : ∀ message ∈ messages, message.WellFormed) (index : Nat) :
    decodeLines protocol index (writtenLines protocol messages) = .ok messages := by
  induction messages generalizing index with
  | nil => rfl
  | cons message rest ih =>
      have here : parseChars protocol (message.render protocol).toList = .ok message :=
        parse_render protocol (wellFormed message (List.mem_cons_self ..))
      have later :=
        ih (fun other member => wellFormed other (List.mem_cons_of_mem _ member)) (index + 1)
      rw [writtenLines, List.map_cons, ← writtenLines, decodeLines, here, later]
      rfl

theorem checkText_written {text : String}
    (written : lines text.toList = writtenLines protocol messages)
    (wellFormed : ∀ message ∈ messages, message.WellFormed) :
    checkText protocol text = checkNesting messages := by
  rw [checkText, messageLines_written written, decodeLines_written wellFormed]
  rfl

end RunStream.Wire
