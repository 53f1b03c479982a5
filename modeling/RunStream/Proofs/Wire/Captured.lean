import Mathlib.Data.List.Forall2
import RunStream.Proofs.Wire.Boundary
import RunStream.Proofs.Wire.Stream

set_option autoImplicit false

namespace RunStream.Wire

open RunStream.Text

variable {protocol : String} {message : Message} {messages : List Message}

inductive Captured (protocol : String) : List Message → String → Prop
  | nothing : Captured protocol [] ""
  | other {messages : List Message} {rest : String} (line : String)
      (noFeed : '\n' ∉ line.toList)
      (foreign : ¬ (Message.opening protocol).toList <+: trimStart line.toList)
      (later : Captured protocol messages rest) :
      Captured protocol messages (line ++ "\n" ++ rest)
  | written {messages : List Message} {rest : String} (indent : String) (message : Message)
      (blank : ∀ c ∈ indent.toList, isBlank c = true ∧ c ≠ '\n')
      (later : Captured protocol messages rest) :
      Captured protocol (message :: messages) (indent ++ message.renderLine protocol ++ rest)

theorem messageLines_other {line : List Char} (noFeed : '\n' ∉ line)
    (foreign : ¬ (Message.opening protocol).toList <+: trimStart line) (rest : List Char) :
    messageLines protocol (line ++ '\n' :: rest) = messageLines protocol rest := by
  obtain ⟨cut, cutOff, read⟩ := exists_lines_cut line rest noFeed
  have dropped : ¬ (Message.opening protocol).toList <+: trimStart cut := fun opened =>
    foreign (opened.trans (trimStart_isPrefix cutOff))
  simp [messageLines, read, dropped]

theorem trimStart_render (protocol : String) (message : Message) :
    trimStart (message.render protocol).toList = (message.render protocol).toList := by
  have plain : isBlank '#' = false := by decide
  simp [toList_render, Message.opening, trimStart, plain]

theorem messageLines_line {indent : List Char} (blank : ∀ c ∈ indent, isBlank c = true ∧ c ≠ '\n')
    (noFeed : '\n' ∉ (message.render protocol).toList) (rest : List Char) :
    messageLines protocol (indent ++ (message.render protocol).toList ++ '\n' :: rest) =
      (message.render protocol).toList :: messageLines protocol rest := by
  have whole : '\n' ∉ indent ++ (message.render protocol).toList := by
    rw [List.mem_append, not_or]
    exact ⟨fun member => (blank _ member).2 rfl, noFeed⟩
  have ending : (indent ++ (message.render protocol).toList).getLast? ≠ some '\r' := by
    simp [List.getLast?_append, getLast?_render]
  have opened : (Message.opening protocol).toList <+: (message.render protocol).toList := by
    rw [toList_render, List.append_assoc]
    exact List.prefix_append ..
  have trimmed := trimStart_blank indent (message.render protocol).toList fun c member =>
    (blank c member).1
  rw [trimStart_render] at trimmed
  rw [messageLines, lines_append_newline _ _ whole ending]
  simp [messageLines, trimmed, opened]

theorem messageLines_captured {text : String} (captured : Captured protocol messages text)
    (plain : '\n' ∉ protocol.toList) (unbroken : ∀ message ∈ messages, message.Unbroken) :
    messageLines protocol text.toList = writtenLines protocol messages := by
  induction captured with
  | nothing => rfl
  | @other messages rest line noFeed foreign _ ih =>
      rw [← ih unbroken, ← messageLines_other noFeed foreign rest.toList]
      simp
  | @written messages rest indent message blank _ ih =>
      rw [List.forall_mem_cons] at unbroken
      have line := messageLines_line blank (newline_not_mem_render plain unbroken.1) rest.toList
      rw [writtenLines, List.map_cons, ← writtenLines, ← ih unbroken.2, ← line]
      simp [Message.renderLine]

theorem captured_checks_alike {text : String} (plain : '\n' ∉ protocol.toList)
    (readable : ∀ message ∈ messages, message.Plain ∧ message.Unbroken)
    (captured : Captured protocol messages text) :
    messageLines protocol text.toList = messages.map (fun m => (m.render protocol).toList) ∧
      List.Forall₂ (fun line message => parseChars protocol line = .ok message)
        (messageLines protocol text.toList) messages ∧
      checkText protocol text = checkNesting messages := by
  have found := messageLines_captured captured plain fun message member =>
    (readable message member).2
  have wellFormed : ∀ message ∈ messages, message.WellFormed := fun message member =>
    Message.wellFormed_iff_plain.mpr (readable message member).1
  refine ⟨found, ?_, ?_⟩
  · rw [found, writtenLines, List.forall₂_map_left_iff, List.forall₂_same]
    exact fun message member => parse_render protocol (wellFormed message member)
  · rw [checkText, found, decodeLines_written wellFormed]
    rfl

def crossedTests : List Message :=
  [{ name := "testStarted", attributes := [("name", "a\n##ci[x]")] },
    { name := "testFinished", attributes := [("name", "b")] }]

def crossedCapture : String :=
  "make\r\n\t\u2028##ci[testStarted name='a|n##ci[x|]']\n" ++
    "  ##cix[\n\r##ci[testFinished name='b']\n\n"

theorem crossed_capture_checks_alike :
    Captured "ci" crossedTests crossedCapture ∧
      checkText "ci" crossedCapture =
        .error (.unexpectedClose 1 "testFinished" "b" (some "a\n##ci[x]")) := by
  have last : Captured "ci" [] ("" ++ "\n" ++ "") :=
    .other "" (by decide +kernel) (by decide +kernel) .nothing
  have finished := last.written "\r" crossedTests[1] (List.forall_iff_forall_mem.mp (by decide))
  have between := finished.other "  ##cix[" (by decide +kernel) (by decide +kernel)
  have started := between.written "\t\u2028" crossedTests[0]
    (List.forall_iff_forall_mem.mp (by decide))
  have whole := started.other "make\r" (by decide +kernel) (by decide +kernel)
  have captured : Captured "ci" crossedTests crossedCapture := by
    convert whole using 1 <;> decide +kernel
  have readable : ∀ message ∈ crossedTests, message.Plain ∧ message.Unbroken := by
    decide +kernel
  exact ⟨captured, (captured_checks_alike (by decide +kernel) readable captured).2.2⟩

end RunStream.Wire
