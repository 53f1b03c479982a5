import RunStream.Tree.Basic

set_option autoImplicit false

namespace RunStream

structure Comparison where
  expected : String
  actual : String
deriving DecidableEq, Repr

structure Failure where
  message : String := ""
  details : String := ""
  -- The test raised an error instead of finding a wrong value.
  unexpected : Bool := false
  comparison : Option Comparison := none
deriving DecidableEq, Repr

def Failure.attributes (failure : Failure) : List (String × String) :=
  (if failure.unexpected then [("error", "true")] else []) ++
    [("message", failure.message), ("details", failure.details)] ++
    match failure.comparison with
    | some comparison =>
        [("type", "comparisonFailure"), ("expected", comparison.expected),
          ("actual", comparison.actual)]
    | none => []

inductive Progress where
  | started
  | finished
  | failed (failures : List Failure)
  | assumptionFailed (failure : Failure)
  | ignored (reason : Option String)
deriving DecidableEq, Repr

inductive Event where
  | runStarted
  | runFinished
  | node (id : NodeId) (progress : Progress)
deriving DecidableEq, Repr

def Event.concerns (event : Event) (tree : Tree) : Bool :=
  match event with
  | .node id _ => tree.contains id
  | _ => true

end RunStream
