import RunStream.Live.Notice

set_option autoImplicit false

namespace RunStream

inductive LeafStatus where
  | running
  | finished
deriving DecidableEq, Repr

structure Stage where
  -- The open suites, outermost first.
  suites : List Scope := []
  /-- The leaves that were started or reported in this run, each once. -/
  leaves : List (NodeId × LeafStatus) := []
  running : Option NodeId := none
  -- The containers that failed and are still to report their leaves.
  failed : List NodeId := []
deriving DecidableEq, Repr

namespace Stage

def status? (stage : Stage) (leaf : NodeId) : Option LeafStatus :=
  stage.leaves.lookup leaf

def mark (stage : Stage) (leaf : NodeId) (status : LeafStatus) : Stage :=
  { stage with leaves := (leaf, status) :: stage.leaves.filter (·.1 != leaf) }

end Stage

def removeSwapping (item : NodeId) (items : List NodeId) : List NodeId :=
  match items.idxOf? item, items.getLast? with
  | some index, some last => (items.set index last).dropLast
  | _, _ => items

abbrev Step := Stage → Stage × List Notice

namespace Step

def skip : Step := fun stage => (stage, [])

def write (notices : List Notice) : Step := fun stage => (stage, notices)

def update (change : Stage → Stage) : Step := fun stage => (change stage, [])

def andThen (first second : Step) : Step := fun stage =>
  ((second (first stage).1).1, (first stage).2 ++ (second (first stage).1).2)

def forEach {α : Type} (items : List α) (step : α → Step) : Step :=
  match items with
  | [] => skip
  | item :: rest => (step item).andThen (forEach rest step)

theorem andThen_assoc (first second third : Step) :
    (first.andThen second).andThen third = first.andThen (second.andThen third) := by
  funext stage
  simp [andThen]

theorem forEach_append {α : Type} (left right : List α) (step : α → Step) :
    forEach (left ++ right) step = (forEach left step).andThen (forEach right step) := by
  induction left with
  | nil => rfl
  | cons item rest ih => simp [forEach, ih, andThen_assoc]

end Step

end RunStream
