import RunStream.Proofs.Live.Course

set_option autoImplicit false

namespace RunStream

variable {plan : Plan}

def Notice.failure? : Notice → Option (Subject × Failure)
  | .testFailed subject failure => some (subject, failure)
  | _ => none

def failuresIn (notices : List Notice) : List (Subject × Failure) :=
  notices.filterMap Notice.failure?

@[simp]
theorem failuresIn_append (left right : List Notice) :
    failuresIn (left ++ right) = failuresIn left ++ failuresIn right :=
  List.filterMap_append

theorem failuresIn_map_testFailed (subject : Subject) (failures : List Failure) :
    failuresIn (failures.map (.testFailed subject)) = failures.map (subject, ·) := by
  induction failures with
  | nil => rfl
  | cons failure rest ih =>
      simp only [List.map_cons, ← ih]
      rfl

def Step.Silent (step : Step) : Prop :=
  ∀ stage, failuresIn (step stage).2 = []

namespace Step

theorem silent_skip : skip.Silent := fun _ => rfl

theorem silent_update (change : Stage → Stage) : (update change).Silent := fun _ => rfl

theorem silent_write {notices : List Notice} (none : failuresIn notices = []) :
    (write notices).Silent :=
  fun _ => none

theorem Silent.andThen {first second : Step} (left : first.Silent) (right : second.Silent) :
    (first.andThen second).Silent := by
  intro stage
  simp [Step.andThen, left stage, right (first stage).1]

theorem silent_forEach {α : Type} {items : List α} {step : α → Step}
    (each : ∀ item ∈ items, (step item).Silent) : (forEach items step).Silent := by
  induction items with
  | nil => exact silent_skip
  | cons item rest ih =>
      exact (each item (List.mem_cons_self ..)).andThen
        (ih fun other member => each other (List.mem_cons_of_mem _ member))

end Step

theorem silent_openSuites (scopes : List Scope) : (openSuites scopes).Silent := by
  intro stage
  simp [openSuites, failuresIn, List.filterMap_map, Function.comp_def, Notice.failure?]

theorem silent_closeClean (count : Nat) : (closeClean count).Silent := by
  intro stage
  simp [closeClean, failuresIn, List.filterMap_map, Function.comp_def, Notice.failure?]

theorem silent_reconcile {close : Nat → Step} (closing : ∀ count, (close count).Silent)
    (target : List Scope) : (reconcile close target).Silent := by
  intro stage
  exact ((closing _).andThen (silent_openSuites _)) stage

namespace Plan

theorem silent_reportSkipped {close : Nat → Step} (closing : ∀ count, (close count).Silent)
    (leaf : NodeId) (cause : Cause) : (plan.reportSkipped close leaf cause).Silent :=
  (silent_reconcile closing _).andThen
    ((Step.silent_write rfl).andThen (Step.silent_update _))

theorem silent_reportUnstarted {close : Nat → Step} (closing : ∀ count, (close count).Silent)
    (container : NodeId) : (plan.reportUnstarted close container).Silent := by
  refine Step.silent_forEach fun leaf _ stage => ?_
  split
  · rfl
  · exact silent_reportSkipped closing leaf .neverStarted stage

theorem silent_closeWithin (level count : Nat) : (plan.closeWithin level count).Silent := by
  induction level generalizing count with
  | zero => exact silent_closeClean count
  | succ level ih =>
      refine (silent_closeClean count).andThen fun stage => ?_
      cases pending : stage.pendingFailure? count with
      | none => rfl
      | some container =>
          exact ((silent_reportUnstarted ih container).andThen (ih count)) _

theorem silent_close (count : Nat) : (plan.close count).Silent :=
  fun stage => silent_closeWithin stage.failed.length count stage

theorem silent_enter (target : List Scope) : (plan.enter target).Silent :=
  silent_reconcile silent_close target

theorem failuresIn_reportConfiguration (container : NodeId) (body : List Notice) (stage : Stage) :
    failuresIn (plan.reportConfiguration container body stage).2 = failuresIn body := by
  have entered := @silent_enter plan (plan.containerScopes container) stage
  have before : failuresIn [.testStarted (.configuration container)] = [] := rfl
  have after : failuresIn [.testFinished (.configuration container)] = [] := rfl
  simp only [reportConfiguration, Step.andThen, Step.write, failuresIn_append, entered, before,
    after, List.nil_append, List.append_nil]

theorem silent_finishNode (node : NodeId) : (plan.finishNode node).Silent := by
  intro stage
  cases container : plan.tree.isContainer node with
  | false =>
      simp only [finishNode, container, Bool.false_eq_true, if_false]
      exact ((Step.silent_write rfl).andThen (Step.silent_update _)) stage
  | true =>
      simp only [finishNode, container, if_true]
      split
      · exact silent_close _ stage
      · rfl

theorem silent_skipBelow (node : NodeId) (cause : Cause) : (plan.skipBelow node cause).Silent := by
  unfold skipBelow
  split
  · exact fun stage => failuresIn_reportConfiguration node _ stage
  · refine Step.silent_forEach fun leaf _ stage => ?_
    unfold skipLeaf
    split
    · rfl
    · rfl
    · split
      · rfl
      · exact silent_reportSkipped silent_close leaf cause stage

theorem silent_reportFailedWithin (limit : Nat) : (plan.reportFailedWithin limit).Silent := by
  induction limit with
  | zero => exact Step.silent_skip
  | succ limit ih =>
      intro stage
      simp only [reportFailedWithin]
      split
      · rfl
      · exact ((silent_reportUnstarted silent_close _).andThen ih) _

theorem silent_leave : plan.leave.Silent :=
  Step.Silent.andThen (fun stage => silent_reportFailedWithin stage.failed.length stage)
    ((silent_close 0).andThen (Step.silent_update _))

theorem failuresIn_opening (event : Event) (described : Bool) :
    failuresIn (plan.opening event described) = [] := by
  cases event with
  | runFinished => rfl
  | node id progress => rfl
  | runStarted =>
      simp only [opening, preamble]
      cases plan.tree.rootName? plan.naming <;> split <;> rfl

def told (plan : Plan) (failed : NodeId × List Failure) : List (Subject × Failure) :=
  failed.2.map (plan.subjectOf failed.1, ·)

end Plan

def Held.failed? : Held → Option (NodeId × List Failure)
  | .event node (.failed failures) => some (node, failures)
  | _ => none

namespace Plan

theorem failuresIn_apply (item : Held) (stage : Stage) :
    failuresIn (plan.apply item stage).2 = item.failed?.toList.flatMap plan.told := by
  cases item with
  | skipped leaf cause =>
      simp only [apply]
      split
      · rfl
      · exact silent_reportSkipped silent_close leaf cause stage
  | event node progress =>
      cases progress with
      | started =>
          simp only [apply, startNode]
          split
          · exact silent_enter _ stage
          · exact ((silent_enter _).andThen
              ((Step.silent_write rfl).andThen (Step.silent_update _))) stage
      | finished => exact silent_finishNode node stage
      | failed failures =>
          simp only [apply, failNode, Held.failed?, Option.toList_some, List.flatMap_singleton,
            told, subjectOf]
          split
          · simp only [Step.andThen, Step.update, List.nil_append,
              failuresIn_reportConfiguration, failuresIn_map_testFailed]
          · exact failuresIn_map_testFailed (.leaf node) failures
      | assumptionFailed failure =>
          simp only [apply, assumeNode]
          split
          · exact silent_skipBelow node _ stage
          · rfl
      | ignored reason => exact silent_skipBelow node _ stage

end Plan

end RunStream
