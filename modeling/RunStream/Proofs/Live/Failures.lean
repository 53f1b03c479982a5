import RunStream.Proofs.Live.Messages
import RunStream.Proofs.Live.Silence

set_option autoImplicit false

namespace RunStream

open Wire

variable {plan : Plan} {stage : Stage} {session : Session}

namespace Plan

/-- The failed events of the two lists come in the same order for each node, and for all
containers taken together. -/
structure SameOrder (plan : Plan) (left right : List (NodeId × List Failure)) : Prop where
  nodes : ∀ node, left.filter (·.1 == node) = right.filter (·.1 == node)
  containers :
    left.filter (plan.tree.isContainer ·.1) = right.filter (plan.tree.isContainer ·.1)

variable {left middle right : List (NodeId × List Failure)}

theorem SameOrder.refl (failed : List (NodeId × List Failure)) : plan.SameOrder failed failed :=
  ⟨fun _ => rfl, rfl⟩

theorem SameOrder.trans (first : plan.SameOrder left middle)
    (second : plan.SameOrder middle right) : plan.SameOrder left right :=
  ⟨fun node => (first.nodes node).trans (second.nodes node),
    first.containers.trans second.containers⟩

theorem SameOrder.append_left (front : List (NodeId × List Failure))
    (same : plan.SameOrder left right) : plan.SameOrder (front ++ left) (front ++ right) :=
  ⟨fun node => by rw [List.filter_append, List.filter_append, same.nodes],
    by rw [List.filter_append, List.filter_append, same.containers]⟩

-- Every node has as many failed events in both lists, so every event has.
theorem SameOrder.perm (same : plan.SameOrder left right) : left.Perm right := by
  refine List.perm_iff_count.mpr fun failed => ?_
  have counted (list : List (NodeId × List Failure)) :
      (list.filter (·.1 == failed.1)).count failed = list.count failed :=
    List.count_filter (by simp)
  rw [← counted left, ← counted right, same.nodes]

theorem sameOrder_middle (failed : NodeId × List Failure)
    (front back : List (NodeId × List Failure))
    (others : ∀ other ∈ front, other.1 ≠ failed.1)
    (leaf : front = [] ∨ plan.tree.isContainer failed.1 = false) :
    plan.SameOrder ([failed] ++ (front ++ back)) (front ++ failed :: back) where
  nodes := fun node => by
    by_cases same : failed.1 = node
    · have none : front.filter (·.1 == node) = [] := by
        refine List.filter_eq_nil_iff.mpr fun other member => ?_
        simpa [← same] using others other member
      simp [none, same]
    · simp [same]
  containers := by
    rcases leaf with rfl | leaf
    · rfl
    · simp [leaf]

def failed? (plan : Plan) : Event → Option (NodeId × List Failure)
  | .node node (.failed failures) =>
      if plan.tree.contains node then some (node, failures) else none
  | _ => none

def pendingFailed (plan : Plan) (session : Session) (events : List Event) :
    List (NodeId × List Failure) :=
  session.held.filterMap Held.failed? ++ events.filterMap plan.failed?

theorem filterMap_failed?_deferred (stage : Stage) (item : Held) :
    (plan.deferred stage item).filterMap Held.failed? = [] := by
  refine List.filterMap_eq_nil_iff.mpr fun other member => ?_
  obtain ⟨leaf, cause, rfl, _⟩ := mem_deferred member
  rfl

theorem eq_event_of_failed? {item : Held} {failed : NodeId × List Failure}
    (same : item.failed? = some failed) : item = .event failed.1 (.failed failed.2) := by
  cases item with
  | skipped other cause => simp [Held.failed?] at same
  | event node progress =>
      cases progress with
      | failed failures =>
          simp only [Held.failed?, Option.some.injEq] at same
          rw [← same]
      | _ => simp [Held.failed?] at same

theorem node_ne_of_blocked {leaf : NodeId} {item : Held} {failed : NodeId × List Failure}
    (busy : stage.running = some leaf) (blocked : plan.isBlocked stage item = true)
    (same : item.failed? = some failed) : failed.1 ≠ leaf := by
  obtain rfl := eq_event_of_failed? same
  rw [isBlocked_running busy] at blocked
  simpa [blocks, skipCause?] using blocked

-- A failure that is applied ahead of others names the running leaf, and none of those does.
theorem sameOrder_advance {waiting later : List Held} {item : Held}
    (sound : plan.SoundSession session) (queue : session.held = waiting ++ item :: later)
    (blocked : ∀ other ∈ waiting, plan.isBlocked session.stage other = true)
    (free : plan.isBlocked session.stage item = false) (events : List Event) :
    plan.SameOrder
      (item.failed?.toList ++
        plan.pendingFailed (plan.advance session waiting item later) events)
      (plan.pendingFailed session events) := by
  have after : plan.pendingFailed (plan.advance session waiting item later) events =
      waiting.filterMap Held.failed? ++
        (later.filterMap Held.failed? ++ events.filterMap plan.failed?) := by
    simp [pendingFailed, advance, filterMap_failed?_deferred]
  cases failed : item.failed? with
  | none =>
      have before : plan.pendingFailed session events =
          waiting.filterMap Held.failed? ++
            (later.filterMap Held.failed? ++ events.filterMap plan.failed?) := by
        simp [pendingFailed, queue, List.filterMap_cons_none failed]
      rw [after, before]
      exact .refl _
  | some entry =>
      have before : plan.pendingFailed session events =
          waiting.filterMap Held.failed? ++
            entry :: (later.filterMap Held.failed? ++ events.filterMap plan.failed?) := by
        simp [pendingFailed, queue, List.filterMap_cons_some failed]
      rw [after, before]
      obtain rfl := eq_event_of_failed? failed
      rcases near_of_free rfl free with idle | busy
      · obtain rfl := waiting_of_idle idle blocked
        exact sameOrder_middle entry _ _ (by simp) (.inl rfl)
      · have leaf := Tree.isContainer_eq_false_of_isLeaf (sound.stage.isLeaf entry.1 busy)
        refine sameOrder_middle entry _ _ (fun other member => ?_) (.inr leaf)
        obtain ⟨held, inWaiting, same⟩ := List.mem_filterMap.mp member
        exact node_ne_of_blocked busy (blocked held inWaiting) same

theorem pendingFailed_of_none {event : Event} (none : plan.failed? event = none)
    (events : List Event) :
    plan.pendingFailed session (event :: events) = plan.pendingFailed session events := by
  rw [pendingFailed, List.filterMap_cons_none none, pendingFailed]

theorem pendingFailed_received {node : NodeId} {progress : Progress}
    (known : plan.tree.contains node = true) (events : List Event) :
    plan.pendingFailed { session with held := session.held ++ [.event node progress] } events =
      plan.pendingFailed session (.node node progress :: events) := by
  have same : plan.failed? (.node node progress) =
      Held.failed? (.event node progress) := by
    cases progress <;> simp [failed?, Held.failed?, known]
  cases entry : Held.failed? (.event node progress) <;>
    simp [pendingFailed, same, entry]

theorem failed?_of_endsRun {event : Event} (ends : event.endsRun = true) :
    plan.failed? event = none := by
  cases event <;> first | rfl | simp [Event.endsRun] at ends

theorem Course.failures {events : List Event} {written : List Notice} {final : Session}
    (course : plan.Course session events written final) (sound : plan.SoundSession session) :
    ∃ order, failuresIn written = order.flatMap plan.told ∧
      plan.SameOrder (order ++ final.held.filterMap Held.failed?)
        (plan.pendingFailed session events) := by
  induction course with
  | done session => exact ⟨[], rfl, by simpa [pendingFailed] using SameOrder.refl _⟩
  | dropped node progress foreign _ ih =>
      obtain ⟨order, told, same⟩ := ih sound
      have none : plan.failed? (.node node progress) = none := by
        cases progress <;> simp [failed?, foreign]
      exact ⟨order, told, (pendingFailed_of_none none _).symm ▸ same⟩
  | received node progress known _ ih =>
      obtain ⟨order, told, same⟩ := ih (sound.received known)
      exact ⟨order, told, pendingFailed_received known _ ▸ same⟩
  | applied waiting item later queue blocked free _ ih =>
      obtain ⟨order, told, same⟩ := ih (sound.advance queue free)
      refine ⟨item.failed?.toList ++ order, ?_, ?_⟩
      · rw [failuresIn_append, failuresIn_apply, told, List.flatMap_append]
      · rw [List.append_assoc]
        exact (same.append_left _).trans (sameOrder_advance sound queue blocked free _)
  | cut leaf _ busy _ _ ih => exact ih (sound.cut busy)
  | @left session _ event events _ ends idle empty _ ih =>
      obtain ⟨order, told, same⟩ := ih (soundSession_fresh _)
      refine ⟨order, ?_, ?_⟩
      · rw [failuresIn_append, failuresIn_append, silent_leave, failuresIn_opening, told]
        rfl
      · rw [pendingFailed_of_none (failed?_of_endsRun ends), pendingFailed, empty]
        exact same

end Plan

def readFailure? (message : Message) : Option (String × Failure) := do
  let name ← message.get? "name"
  let text ← message.get? "message"
  let details ← message.get? "details"
  let comparison ← match message.get? "type" with
    | none => some none
    | some type =>
        if type = "comparisonFailure" then do
          let expected ← message.get? "expected"
          let actual ← message.get? "actual"
          some (some { expected, actual })
        else none
  some (name, {
    message := text
    details
    unexpected := message.get? "error" = some "true"
    comparison })

namespace Plan

def failureMessage (plan : Plan) (told : Subject × Failure) : Message where
  name := "testFailed"
  attributes := ("name", plan.subjectName told.1) :: told.2.attributes

theorem readFailure?_failureMessage (told : Subject × Failure) :
    readFailure? (plan.failureMessage told) = some (plan.subjectName told.1, told.2) := by
  obtain ⟨subject, message, details, unexpected, comparison⟩ := told
  cases unexpected <;> cases comparison <;> rfl

theorem filter_testFailed_messages (notices : List Notice) :
    (plan.messages notices).filter (·.name = "testFailed") =
      (failuresIn notices).map plan.failureMessage := by
  induction notices with
  | nil => rfl
  | cons notice rest ih =>
      have told : failuresIn (notice :: rest) =
          notice.failure?.toList ++ failuresIn rest := by
        cases failure : notice.failure? <;> simp [failuresIn, failure]
      rw [messages_cons, told, List.filter_append, List.map_append, ih]
      congr 1
      cases notice <;> rfl

def failedEvents (plan : Plan) (events : List Event) : List (NodeId × List Failure) :=
  events.filterMap plan.failed?

def records (plan : Plan) (failed : NodeId × List Failure) : List (String × Failure) :=
  failed.2.map fun failure =>
    (if plan.tree.isContainer failed.1 then configurationName
      else plan.tree.displayName failed.1, failure)

theorem map_told (failed : NodeId × List Failure) :
    (plan.told failed).map (fun told => (plan.subjectName told.1, told.2)) =
      plan.records failed := by
  simp only [told, records, List.map_map, Function.comp_def, subjectOf]
  split <;> rfl

theorem mapM_readFailure? (told : List (Subject × Failure)) :
    (told.map plan.failureMessage).mapM readFailure? =
      some (told.map fun told => (plan.subjectName told.1, told.2)) := by
  induction told with
  | nil => rfl
  | cons first rest ih => simp [readFailure?_failureMessage, ih]

theorem failures_survive (plan : Plan) (events : List Event) (described : Bool) :
    let notices := (plan.handleAll (events ++ [.runFinished]) { described }).2
    let lines := (plan.messages notices).map (Message.render plan.settings.protocol)
    ∃ (messages : List Message) (order : List (NodeId × List Failure)),
      lines.mapM (Message.parse plan.settings.protocol) = .ok messages ∧
      (messages.filter (·.name = "testFailed")).mapM readFailure? =
        some (order.flatMap plan.records) ∧
      order.Perm (plan.failedEvents events) ∧
      (order.flatMap plan.records).Perm ((plan.failedEvents events).flatMap plan.records) ∧
      (∀ node, order.filter (·.1 == node) = (plan.failedEvents events).filter (·.1 == node)) ∧
      order.filter (plan.tree.isContainer ·.1) =
        (plan.failedEvents events).filter (plan.tree.isContainer ·.1) := by
  have sound := @soundSession_fresh plan described
  obtain ⟨order, told, same⟩ :=
    (handleAll_course (events ++ [.runFinished]) _ sound).failures sound
  rw [handleAll_finished events sound] at same
  have all : plan.pendingFailed { described } (events ++ [.runFinished]) =
      plan.failedEvents events := by
    have none : plan.failed? .runFinished = none := rfl
    simp [pendingFailed, failedEvents, List.filterMap_cons_none none]
  rw [all] at same
  replace same : plan.SameOrder order (plan.failedEvents events) := by simpa using same
  refine ⟨_, order, mapM_parse_render _ _, ?_, same.perm, same.perm.flatMap_right _, same.nodes,
    same.containers⟩
  rw [filter_testFailed_messages, mapM_readFailure?, told, List.map_flatMap]
  simp only [map_told]

end Plan

end RunStream
