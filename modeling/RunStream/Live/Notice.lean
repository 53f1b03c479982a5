import RunStream.Event
import RunStream.Settings
import RunStream.Tree.Description

set_option autoImplicit false

namespace RunStream

open Wire

inductive Scope where
  | container (id : NodeId)
  | testClass (name : String)
deriving DecidableEq, Repr

inductive Subject where
  | leaf (id : NodeId)
  -- The setup and teardown of a container.
  | configuration (container : NodeId)
deriving DecidableEq, Repr

inductive Cause where
  | neverStarted
  | disabled (reason : Option String)
  | assumption (failure : Failure)
deriving DecidableEq, Repr

def Cause.attributes : Cause → List (String × String)
  | .neverStarted => []
  | .disabled none => []
  | .disabled (some reason) => [("message", reason)]
  | .assumption failure => failure.attributes

inductive Notice where
  | announced
  | rootNamed (root : RootName)
  | suiteOpened (scope : Scope)
  | suiteClosed (scope : Scope)
  | testStarted (subject : Subject)
  | testFailed (subject : Subject) (failure : Failure)
  | testIgnored (subject : Subject) (cause : Cause)
  | testFinished (subject : Subject)
  /-- The run ended while the leaf was running.  Nothing is written for this itself. -/
  | cutShort (leaf : NodeId)
deriving DecidableEq, Repr

namespace Plan

def scopeName (plan : Plan) : Scope → String
  | .container id => plan.tree.displayName id
  | .testClass name => Name.short name

def scopeLocation (plan : Plan) : Scope → String
  | .container id => plan.tree.locationHint plan.naming id
  | .testClass name => plan.naming.suiteLocation name

def subjectName (plan : Plan) : Subject → String
  | .leaf id => plan.tree.displayName id
  | .configuration _ => configurationName

def subjectLocation (plan : Plan) : Subject → String
  | .leaf id => plan.tree.locationHint plan.naming id
  | .configuration container => plan.tree.locationHint plan.naming container

def message? (plan : Plan) : Notice → Option Message
  | .announced => some { name := "enteredTheMatrix" }
  | .rootNamed root => some root.message
  | .suiteOpened scope => some {
      name := "testSuiteStarted"
      attributes := [("name", plan.scopeName scope), ("locationHint", plan.scopeLocation scope)] }
  | .suiteClosed scope => some {
      name := "testSuiteFinished"
      attributes := [("name", plan.scopeName scope)] }
  | .testStarted subject => some {
      name := "testStarted"
      attributes :=
        [("name", plan.subjectName subject), ("locationHint", plan.subjectLocation subject)] }
  | .testFailed subject failure => some {
      name := "testFailed"
      attributes := ("name", plan.subjectName subject) :: failure.attributes }
  | .testIgnored subject cause => some {
      name := "testIgnored"
      attributes := ("name", plan.subjectName subject) :: cause.attributes }
  | .testFinished subject => some {
      name := "testFinished"
      attributes := [("name", plan.subjectName subject)] }
  | .cutShort _ => none

def messages (plan : Plan) (notices : List Notice) : List Message :=
  notices.filterMap plan.message?

end Plan

end RunStream
