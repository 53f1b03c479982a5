import RunStream.Json.Parser
import RunStream.Json.Shape
import RunStream.Script.Basic

set_option autoImplicit false

namespace RunStream

open Json (Value required? optional?)

namespace Script

def decodeFailure? (value : Value) : Option Failure := do
  match ← value.fields? ["message", "details", "error", "expected", "actual"] with
  | [message, details, error, expected, actual] =>
      let expected ← optional? Value.optionalString? none expected
      let actual ← optional? Value.optionalString? none actual
      return {
        message := ← optional? Value.string? "" message
        details := ← optional? Value.string? "" details
        unexpected := ← optional? Value.boolean? false error
        comparison := do return { expected := ← expected, actual := ← actual } }
  | _ => none

def eventFields? (sort : String) :
    Option (List String × (List (Option Value) → Option ScriptEvent)) :=
  if sort = "test-started" then some (["node"], fun
    | [node] => do return { node := ← required? Value.string? node, progress := .started }
    | _ => none)
  else if sort = "test-finished" then some (["node"], fun
    | [node] => do return { node := ← required? Value.string? node, progress := .finished }
    | _ => none)
  else if sort = "test-failed" then some (["node", "failures"], fun
    | [node, failures] => do
        let failures ← (← required? Value.array? failures).mapM decodeFailure?
        return { node := ← required? Value.string? node, progress := .failed failures }
    | _ => none)
  else if sort = "assumption-failed" then some (["node", "failure"], fun
    | [node, failure] => do
        let failure ← required? decodeFailure? failure
        return { node := ← required? Value.string? node, progress := .assumptionFailed failure }
    | _ => none)
  else if sort = "test-ignored" then some (["node", "reason"], fun
    | [node, reason] => do
        let reason ← optional? Value.optionalString? none reason
        return { node := ← required? Value.string? node, progress := .ignored reason }
    | _ => none)
  else none

-- The field that holds the sort of an event. In an array it comes first.
def sortField : String := "event"

def decodeEvent? : Value → Option ScriptEvent
  | .object entries => do
      match ← Json.fieldsByName? [sortField] entries with
      | [sort] =>
          let (names, decode) ← eventFields? (← required? Value.string? sort)
          decode (← Json.fieldsByName? names entries)
      | _ => none
  | .array (sort :: items) => do
      let (names, decode) ← eventFields? (← sort.string?)
      decode (← Json.fieldsByPosition? names items)
  | _ => none

def decodeNode? : (depth : Nat) → Value → Option ScriptNode
  | 0, _ => none
  | depth + 1, .object [(sort, value)] =>
      if sort = "container" then do
        match ← value.fields? ["name", "id", "children"] with
        | [name, label, children] =>
            let children ← (← optional? Value.array? [] children).mapM (decodeNode? depth)
            return .container (← required? Value.string? name)
              (← optional? Value.optionalString? none label) children
        | _ => none
      else if sort = "leaf" then do
        match ← value.fields? ["class", "method", "id"] with
        | [className, methodName, label] =>
            return .leaf (← required? Value.string? className)
              (← required? Value.string? methodName)
              (← optional? Value.optionalString? none label)
        | _ => none
      else none
  | _, _ => none

def decode? (value : Value) : Option Script := do
  match ← value.fields? ["tree", "emit-tree", "events"] with
  | [tree, describe, events] =>
      return {
        tree := ← required? (decodeNode? Json.nestingLimit) tree
        describe := ← optional? Value.boolean? true describe
        events := ← (← optional? Value.array? [] events).mapM decodeEvent? }
  | _ => none

def parse? (text : String) : Option Script :=
  Json.parse? text >>= decode?

end Script

end RunStream
