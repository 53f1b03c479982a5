import RunStream.Live.Notice
import RunStream.Proofs.Wire.RoundTrip

set_option autoImplicit false

namespace RunStream

open Wire

variable {plan : Plan}

namespace Plan

theorem messages_cons (plan : Plan) (notice : Notice) (rest : List Notice) :
    plan.messages (notice :: rest) = (plan.message? notice).toList ++ plan.messages rest := by
  cases written : plan.message? notice <;> simp [messages, written]

theorem messages_append (plan : Plan) (left right : List Notice) :
    plan.messages (left ++ right) = plan.messages left ++ plan.messages right :=
  List.filterMap_append

def names : List String :=
  ["enteredTheMatrix", "rootName", "testSuiteStarted", "testSuiteFinished", "testStarted",
    "testFailed", "testIgnored", "testFinished"]

theorem names_words : ∀ name ∈ names, isWord name.toList = true := by
  decide +kernel

def keys : List String :=
  ["name", "locationHint", "location", "comment", "error", "message", "details", "type", "expected",
    "actual"]

theorem keys_plain : ∀ key ∈ keys, isWord key.toList = true ∧ '=' ∉ key.toList := by
  decide +kernel

theorem failure_keys (failure : Failure) : ∀ entry ∈ failure.attributes, entry.1 ∈ keys := by
  obtain ⟨message, details, unexpected, comparison⟩ := failure
  cases unexpected <;> cases comparison <;> simp [Failure.attributes, keys]

theorem cause_keys (cause : Cause) : ∀ entry ∈ cause.attributes, entry.1 ∈ keys := by
  cases cause with
  | neverStarted => simp [Cause.attributes]
  | disabled reason => cases reason <;> simp [Cause.attributes, keys]
  | assumption failure => exact failure_keys failure

theorem message?_keys {notice : Notice} {message : Message}
    (written : plan.message? notice = some message) :
    ∀ entry ∈ message.attributes, entry.1 ∈ keys := by
  cases notice with
  | cutShort leaf => simp [message?] at written
  | rootNamed root =>
      simp only [message?, Option.some.injEq] at written
      subst written
      cases comment : root.comment <;> simp [RootName.message, comment, keys]
  | testFailed subject failure =>
      simp only [message?, Option.some.injEq] at written
      subst written
      simpa [keys] using failure_keys failure
  | testIgnored subject cause =>
      simp only [message?, Option.some.injEq] at written
      subst written
      simpa [keys] using cause_keys cause
  | _ =>
      simp only [message?, Option.some.injEq] at written
      subst written
      simp [keys]

theorem message?_name {notice : Notice} {message : Message}
    (written : plan.message? notice = some message) : message.name ∈ names := by
  cases notice with
  | cutShort leaf => simp [message?] at written
  | _ =>
      simp only [message?, Option.some.injEq] at written
      subst written
      simp [names, RootName.message]

theorem message?_wellFormed {notice : Notice} {message : Message}
    (written : plan.message? notice = some message) : message.WellFormed where
  name := names_words _ (message?_name written)
  keys := fun entry member => keys_plain entry.1 (message?_keys written entry member)

theorem mapM_parse_render (protocol : String) (notices : List Notice) :
    ((plan.messages notices).map (Message.render protocol)).mapM (Message.parse protocol) =
      .ok (plan.messages notices) := by
  induction notices with
  | nil => rfl
  | cons notice rest ih =>
      rw [messages_cons]
      cases written : plan.message? notice with
      | none => exact ih
      | some message =>
          have here := parse_render protocol (message?_wellFormed written)
          simp only [Option.toList_some, List.singleton_append, List.map_cons, List.mapM_cons, here]
          rw [ih]
          rfl

end Plan

end RunStream
