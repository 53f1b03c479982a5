import RunStream.Live.Scopes

set_option autoImplicit false

/-!
# The live phase

While a test runs, events about anything else are held back in the order they arrived and applied
once it has finished.  Two kinds of event jump the queue.  One that names the running leaf concerns
the open test.  One that skips a container around the running leaf marks the open test at once and
leaves the siblings to be reported after it.
-/

namespace RunStream

inductive Held where
  | event (node : NodeId) (progress : Progress)
  /-- A skipped leaf still to be written, unless it starts before that. -/
  | skipped (leaf : NodeId) (cause : Cause)
deriving DecidableEq, Repr

def Held.isStart : Held → Bool
  | .event _ .started => true
  | _ => false

structure Session where
  stage : Stage := {}
  -- What waits for the running test, oldest first.
  held : List Held := []
  described : Bool := false
deriving DecidableEq, Repr

namespace Session

def depth (session : Session) : Nat :=
  session.stage.suites.length

def heldCount (session : Session) : Nat :=
  session.held.length

end Session

namespace Plan

/-- A framework brackets a leaf whose assumption fails, so that event only marks the leaf. -/
def skipCause? (plan : Plan) (node : NodeId) : Progress → Option Cause
  | .assumptionFailed failure =>
      if plan.tree.isContainer node then some (.assumption failure) else none
  | .ignored reason => some (.disabled reason)
  | _ => none

def blocks (plan : Plan) (running : NodeId) : Held → Bool
  | .skipped _ _ => true
  | .event node progress =>
      if (plan.skipCause? node progress).isSome then
        !(plan.tree.leavesUnder node).contains running
      else node != running

def isBlocked (plan : Plan) (stage : Stage) (item : Held) : Bool :=
  stage.running.any fun running => plan.blocks running item

def reportConfiguration (plan : Plan) (container : NodeId) (body : List Notice) : Step :=
  (plan.enter (plan.containerScopes container)).andThen
    (Step.write ([.testStarted (.configuration container)] ++ body ++
      [.testFinished (.configuration container)]))

def startNode (plan : Plan) (node : NodeId) : Step :=
  if plan.tree.isContainer node then plan.enter (plan.containerScopes node)
  else
    (plan.enter (plan.leafScopes node)).andThen
      ((Step.write [.testStarted (.leaf node)]).andThen
        (Step.update fun stage => { stage.mark node .running with running := some node }))

def finishLeaf (leaf : NodeId) : Step :=
  (Step.write [.testFinished (.leaf leaf)]).andThen
    (Step.update fun stage =>
      { stage.mark leaf .finished with
        running := if stage.running = some leaf then none else stage.running })

-- A container that is not open has nothing to close.
def finishNode (plan : Plan) (node : NodeId) : Step :=
  if plan.tree.isContainer node then fun stage =>
    match stage.suites.idxOf? (.container node) with
    | some position => plan.close position stage
    | none => Step.skip stage
  else finishLeaf node

def failNode (plan : Plan) (node : NodeId) (failures : List Failure) : Step :=
  if plan.tree.isContainer node then
    (Step.update fun stage =>
        if node ∈ stage.failed then stage
        else { stage with failed := stage.failed ++ [node] }).andThen
      (plan.reportConfiguration node (failures.map (.testFailed (.configuration node))))
  else Step.write (failures.map (.testFailed (.leaf node)))

/-- A leaf that has not started yet waits for a running test; see `deferred`. -/
def skipLeaf (plan : Plan) (cause : Cause) (leaf : NodeId) : Step := fun stage =>
  match stage.status? leaf with
  | some .running => Step.write [.testIgnored (.leaf leaf) cause] stage
  | some .finished => Step.skip stage
  | none =>
      if stage.running.isSome then Step.skip stage
      else plan.reportSkipped plan.close leaf cause stage

-- Reports every leaf at or below a node as skipped. A container without leaves is reported itself.
def skipBelow (plan : Plan) (node : NodeId) (cause : Cause) : Step :=
  if (plan.tree.leavesUnder node).isEmpty then
    plan.reportConfiguration node [.testIgnored (.configuration node) cause]
  else Step.forEach (plan.tree.leavesUnder node) (plan.skipLeaf cause)

def assumeNode (plan : Plan) (node : NodeId) (failure : Failure) : Step :=
  if plan.tree.isContainer node then plan.skipBelow node (.assumption failure)
  else Step.write [.testIgnored (.leaf node) (.assumption failure)]

def apply (plan : Plan) : Held → Step
  | .event node .started => plan.startNode node
  | .event node .finished => plan.finishNode node
  | .event node (.failed failures) => plan.failNode node failures
  | .event node (.assumptionFailed failure) => plan.assumeNode node failure
  | .event node (.ignored reason) => plan.skipBelow node (.disabled reason)
  | .skipped leaf cause => fun stage =>
      if (stage.status? leaf).isSome then Step.skip stage
      else plan.reportSkipped plan.close leaf cause stage

/-- While a test is running, the skipped leaves that have not started are left for later. -/
def deferred (plan : Plan) (stage : Stage) : Held → List Held
  | .skipped _ _ => []
  | .event node progress =>
      match plan.skipCause? node progress with
      | none => []
      | some cause =>
          if stage.running.isSome then
            ((plan.tree.leavesUnder node).filter fun leaf => (stage.status? leaf).isNone).map
              fun leaf => .skipped leaf cause
          else []

def heldWeight (plan : Plan) : Held → Nat
  | .skipped _ _ => 1
  | .event node progress =>
      match plan.skipCause? node progress with
      | none => 1
      | some _ => (plan.tree.leavesUnder node).length + 1

def queueWeight (plan : Plan) : List Held → Nat
  | [] => 0
  | item :: rest => plan.heldWeight item + plan.queueWeight rest

/-- Applies the oldest item that is not blocked.  What it leaves for later takes its place. -/
def drainWithin (plan : Plan) : (limit : Nat) → Session → Session × List Notice
  | 0, session => (session, [])
  | limit + 1, session =>
      let waiting := session.held.takeWhile (plan.isBlocked session.stage)
      match session.held.dropWhile (plan.isBlocked session.stage) with
      | [] => (session, [])
      | item :: later =>
          let (stage, written) := plan.apply item session.stage
          let (session, more) := plan.drainWithin limit {
            session with
            stage
            held := waiting ++ plan.deferred session.stage item ++ later }
          (session, written ++ more)

def drain (plan : Plan) (session : Session) : Session × List Notice :=
  plan.drainWithin (plan.queueWeight session.held) session

/-- Each test is ended after the work that need not wait for it and before the work that does. -/
def finishTestsWithin (plan : Plan) : (limit : Nat) → Session → Session × List Notice
  | 0, session => plan.drain session
  | limit + 1, session =>
      let (session, written) := plan.drain session
      match session.stage.running with
      | none => (session, written)
      | some leaf =>
          let (stage, ended) :=
            (Step.write [.cutShort leaf]).andThen (finishLeaf leaf) session.stage
          let (session, more) := plan.finishTestsWithin limit { session with stage }
          (session, written ++ ended ++ more)

def finishTests (plan : Plan) (session : Session) : Session × List Notice :=
  plan.finishTestsWithin ((session.held.filter Held.isStart).length + 1) session

def reportFailedWithin (plan : Plan) : (limit : Nat) → Step
  | 0 => Step.skip
  | limit + 1 => fun stage =>
      match stage.failed.getLast? with
      | none => Step.skip stage
      | some container =>
          (plan.reportUnstarted plan.close container).andThen (plan.reportFailedWithin limit)
            { stage with failed := stage.failed.dropLast }

def reportFailed (plan : Plan) : Step := fun stage =>
  plan.reportFailedWithin stage.failed.length stage

def leave (plan : Plan) : Step :=
  plan.reportFailed.andThen
    ((plan.close 0).andThen (Step.update fun stage => { stage with leaves := [] }))

def finishRun (plan : Plan) (session : Session) : Session × List Notice :=
  let (session, written) := plan.finishTests session
  let (stage, more) := plan.leave session.stage
  ({ session with stage }, written ++ more)

def preamble (plan : Plan) (described : Bool) : List Notice :=
  (if !described && plan.settings.announceUndescribed then [Notice.announced] else []) ++
    ((plan.tree.rootName? plan.naming).map Notice.rootNamed).toList

/-- An event in an unexpected place is followed as faithfully as possible, and one about a node
outside the tree is dropped. -/
def handle (plan : Plan) (event : Event) (session : Session) : Session × List Notice :=
  match event with
  | .runStarted =>
      let (session, written) := plan.finishRun session
      (session, written ++ plan.preamble session.described)
  | .runFinished => plan.finishRun session
  | .node id progress =>
      if plan.tree.contains id then
        plan.drain { session with held := session.held ++ [.event id progress] }
      else (session, [])

def handleAll (plan : Plan) : List Event → Session → Session × List Notice
  | [], session => (session, [])
  | event :: rest, session =>
      let (session, written) := plan.handle event session
      let (session, more) := plan.handleAll rest session
      (session, written ++ more)

end Plan

end RunStream
