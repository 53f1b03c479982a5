import RunStream.Live.Stage

set_option autoImplicit false

/-!
# Opening and closing suites

A container that failed reports its leaves that never started before it closes.  Reporting a leaf
opens and closes suites in turn, which may close further failed containers.  Each of them is struck
off the list of failed containers first, so its length bounds how deep this goes.
-/

namespace RunStream

def sharedLength : List Scope → List Scope → Nat
  | a :: as, b :: bs => if a = b then sharedLength as bs + 1 else 0
  | _, _ => 0

namespace Plan

def containerScopes (plan : Plan) (id : NodeId) : List Scope :=
  (plan.tree.scopePath id).map Scope.container ++ if id = Tree.root then [] else [.container id]

/-- The class that a leaf is wrapped in: its own, if it sits right below a root of another name. -/
def orphanClass? (plan : Plan) (leaf : NodeId) : Option String :=
  match plan.tree.kind? Tree.root, plan.tree.kind? leaf with
  | some (.container rootName), some (.leaf className _) =>
      if plan.settings.wrapOrphans && plan.tree.parent? leaf == some Tree.root &&
          className != rootName then some className
      else none
  | _, _ => none

def leafScopes (plan : Plan) (leaf : NodeId) : List Scope :=
  (plan.tree.scopePath leaf).map Scope.container ++
    ((plan.orphanClass? leaf).map Scope.testClass).toList

end Plan

namespace Stage

def failedBehind? (stage : Stage) : Scope → Option NodeId
  | .container id => if id ∈ stage.failed then some id else none
  | .testClass _ => none

/-- The failed container that has to report its leaves before fewer suites can be open. -/
def pendingFailure? (stage : Stage) (count : Nat) : Option NodeId :=
  (stage.suites.drop count).getLast?.bind stage.failedBehind?

def settle (stage : Stage) (container : NodeId) : Stage :=
  { stage with failed := removeSwapping container stage.failed }

end Stage

def openSuites (scopes : List Scope) : Step := fun stage =>
  ({ stage with suites := stage.suites ++ scopes }, scopes.map Notice.suiteOpened)

def closeClean (count : Nat) : Step := fun stage =>
  let closing := (stage.suites.drop count).reverse.takeWhile fun scope =>
    (stage.failedBehind? scope).isNone
  ({ stage with suites := stage.suites.take (stage.suites.length - closing.length) },
    closing.map Notice.suiteClosed)

def reconcile (close : Nat → Step) (target : List Scope) : Step := fun stage =>
  let shared := sharedLength stage.suites target
  (close shared).andThen (openSuites (target.drop shared)) stage

namespace Plan

def reportSkipped (plan : Plan) (close : Nat → Step) (leaf : NodeId) (cause : Cause) : Step :=
  (reconcile close (plan.leafScopes leaf)).andThen
    ((Step.write [.testStarted (.leaf leaf), .testIgnored (.leaf leaf) cause,
        .testFinished (.leaf leaf)]).andThen
      (Step.update fun stage => stage.mark leaf .finished))

def reportUnstarted (plan : Plan) (close : Nat → Step) (container : NodeId) : Step :=
  Step.forEach (plan.tree.leavesUnder container) fun leaf stage =>
    if (stage.status? leaf).isSome then Step.skip stage
    else plan.reportSkipped close leaf .neverStarted stage

/-- At most `level` failed containers have to report their leaves on the way. -/
def closeWithin (plan : Plan) : (level count : Nat) → Step
  | 0, count => closeClean count
  | level + 1, count =>
      (closeClean count).andThen fun stage =>
        match stage.pendingFailure? count with
        | none => Step.skip stage
        | some container =>
            (plan.reportUnstarted (plan.closeWithin level) container).andThen
              (plan.closeWithin level count) (stage.settle container)

def close (plan : Plan) (count : Nat) : Step := fun stage =>
  plan.closeWithin stage.failed.length count stage

def enter (plan : Plan) (target : List Scope) : Step :=
  reconcile plan.close target

end Plan

end RunStream
