import RunStream.Proofs.Live.Course

set_option autoImplicit false

namespace RunStream

variable {plan : Plan} {stage : Stage} {session : Session}

/-- Whether the leaf is busy after one more event, which must not be out of turn. -/
def turn? (leaf : NodeId) (busy : Bool) : Event → Option Bool
  | .runStarted => some false
  | .runFinished => some false
  | .node id .started => if id ≠ leaf then some busy else if busy then none else some true
  | .node id .finished => if id ≠ leaf then some busy else if busy then some false else none
  | .node _ _ => some busy

def busyAfter? (leaf : NodeId) (busy : Bool) (events : List Event) : Option Bool :=
  events.foldlM (turn? leaf) busy

/-- Between the ends of runs, the starts and finishes of the leaf alternate, a start first. -/
def Alternates (leaf : NodeId) (events : List Event) : Prop :=
  (busyAfter? leaf false events).isSome = true

def Event.Passes (leaf : NodeId) (event : Event) : Prop :=
  ∀ busy, turn? leaf busy event = some busy

theorem busyAfter?_cons (leaf : NodeId) (busy : Bool) (event : Event) (rest : List Event) :
    busyAfter? leaf busy (event :: rest) =
      (turn? leaf busy event).bind fun next => busyAfter? leaf next rest := by
  rw [busyAfter?, List.foldlM_cons]
  rfl

theorem busyAfter?_pass {leaf : NodeId} {event : Event} (passes : event.Passes leaf) (busy : Bool)
    (front back : List Event) :
    busyAfter? leaf busy (front ++ event :: back) = busyAfter? leaf busy (front ++ back) := by
  induction front generalizing busy with
  | nil => simp [busyAfter?_cons, passes busy]
  | cons first rest ih => simp only [List.cons_append, busyAfter?_cons, ih]

theorem busyAfter?_pass_all {leaf : NodeId} {front : List Event}
    (passes : ∀ event ∈ front, event.Passes leaf) (busy : Bool) (back : List Event) :
    busyAfter? leaf busy (front ++ back) = busyAfter? leaf busy back := by
  induction front with
  | nil => rfl
  | cons first rest ih =>
      have here := @busyAfter?_pass leaf first (passes first (List.mem_cons_self ..)) busy []
        (rest ++ back)
      exact here.trans (ih fun other member => passes other (List.mem_cons_of_mem _ member))

-- An event that ends the run makes the leaf free, whether it was busy or not.
theorem busyAfter?_ends {leaf : NodeId} {event : Event} (ends : event.endsRun = true) (busy : Bool)
    (rest : List Event) :
    busyAfter? leaf busy (event :: rest) = busyAfter? leaf false rest := by
  cases event <;> first | rfl | simp [Event.endsRun] at ends

theorem passes_of_ne {leaf node : NodeId} (progress : Progress) (other : node ≠ leaf) :
    (Event.node node progress).Passes leaf := by
  intro busy
  cases progress <;> simp [turn?, other]

def Held.event? : Held → Option Event
  | .event node progress => some (.node node progress)
  | .skipped _ _ => none

def Session.pending (session : Session) (events : List Event) : List Event :=
  session.held.filterMap Held.event? ++ events

namespace Plan

def Orderly (plan : Plan) (session : Session) (events : List Event) : Prop :=
  ∀ leaf, plan.tree.isLeaf leaf = true →
    (busyAfter? leaf (decide (session.stage.running = some leaf))
      (session.pending events)).isSome = true

theorem filterMap_event?_deferred (stage : Stage) (item : Held) :
    (plan.deferred stage item).filterMap Held.event? = [] := by
  refine List.filterMap_eq_nil_iff.mpr fun other member => ?_
  obtain ⟨leaf, cause, rfl, _⟩ := mem_deferred member
  rfl

theorem passes_of_blocked {leaf : NodeId} {item : Held} {event : Event}
    (busy : stage.running = some leaf) (blocked : plan.isBlocked stage item = true)
    (same : item.event? = some event) : event.Passes leaf := by
  cases item with
  | skipped other cause => simp [Held.event?] at same
  | event node progress =>
      simp only [Held.event?, Option.some.injEq] at same
      subst same
      rw [isBlocked_running busy] at blocked
      cases progress with
      | started => exact passes_of_ne _ (by simpa [blocks, skipCause?] using blocked)
      | finished => exact passes_of_ne _ (by simpa [blocks, skipCause?] using blocked)
      | failed failures => exact fun _ => rfl
      | assumptionFailed failure => exact fun _ => rfl
      | ignored reason => exact fun _ => rfl

theorem passes_of_all_blocked {leaf : NodeId} {items : List Held}
    (busy : stage.running = some leaf)
    (blocked : ∀ item ∈ items, plan.isBlocked stage item = true) :
    ∀ event ∈ items.filterMap Held.event?, event.Passes leaf := by
  intro event member
  obtain ⟨item, inItems, same⟩ := List.mem_filterMap.mp member
  exact passes_of_blocked busy (blocked item inItems) same

theorem Orderly.dropped {node : NodeId} {progress : Progress} {events : List Event}
    (orderly : plan.Orderly session (.node node progress :: events))
    (foreign : plan.tree.contains node = false) : plan.Orderly session events := by
  intro leaf known
  have other : node ≠ leaf := by
    rintro rfl
    simp [Tree.contains_of_isLeaf known] at foreign
  have before := orderly leaf known
  rwa [Session.pending, busyAfter?_pass (passes_of_ne progress other)] at before

theorem Orderly.received {node : NodeId} {progress : Progress} {events : List Event}
    (orderly : plan.Orderly session (.node node progress :: events)) :
    plan.Orderly { session with held := session.held ++ [.event node progress] } events := by
  intro leaf known
  simpa [Session.pending, Held.event?] using orderly leaf known

theorem pending_advance (session : Session) (waiting later : List Held) (item : Held)
    (events : List Event) :
    (plan.advance session waiting item later).pending events =
      waiting.filterMap Held.event? ++ (later.filterMap Held.event? ++ events) := by
  simp [Session.pending, advance, filterMap_event?_deferred]

theorem pending_split {waiting later : List Held} {node : NodeId} {progress : Progress}
    (queue : session.held = waiting ++ .event node progress :: later) (events : List Event) :
    session.pending events =
      waiting.filterMap Held.event? ++
        .node node progress :: (later.filterMap Held.event? ++ events) := by
  simp [Session.pending, queue, Held.event?]

-- An item that is not blocked starts a leaf only between tests, and finishes only the running one.
theorem Orderly.idle_of_started {waiting later : List Held} {leaf : NodeId} {events : List Event}
    (orderly : plan.Orderly session events) (known : plan.tree.isLeaf leaf = true)
    (queue : session.held = waiting ++ .event leaf .started :: later)
    (blocked : ∀ other ∈ waiting, plan.isBlocked session.stage other = true)
    (free : plan.isBlocked session.stage (.event leaf .started) = false) :
    session.stage.running = none := by
  rcases near_of_free rfl free with idle | busy
  · exact idle
  · have before := orderly leaf known
    rw [pending_split queue, busyAfter?_pass_all (passes_of_all_blocked busy blocked),
      busyAfter?_cons] at before
    simp [busy, turn?] at before

theorem Orderly.busy_of_finished {waiting later : List Held} {leaf : NodeId} {events : List Event}
    (orderly : plan.Orderly session events) (known : plan.tree.isLeaf leaf = true)
    (queue : session.held = waiting ++ .event leaf .finished :: later)
    (blocked : ∀ other ∈ waiting, plan.isBlocked session.stage other = true)
    (free : plan.isBlocked session.stage (.event leaf .finished) = false) :
    session.stage.running = some leaf := by
  rcases near_of_free rfl free with idle | busy
  · have before := orderly leaf known
    rw [pending_split queue, waiting_of_idle idle blocked, List.filterMap_nil, List.nil_append,
      busyAfter?_cons] at before
    simp [idle, turn?] at before
  · exact busy

theorem passes_of_quiet {node leaf : NodeId} {progress : Progress}
    (quiet : plan.turns (.event node progress) = false) (known : plan.tree.isLeaf leaf = true) :
    (Event.node node progress).Passes leaf := by
  have other : plan.tree.isContainer node = true → node ≠ leaf := by
    rintro container rfl
    simp [Tree.isContainer_eq_false_of_isLeaf known] at container
  cases progress with
  | started => exact passes_of_ne _ (other (by simpa [turns] using quiet))
  | finished => exact passes_of_ne _ (other (by simpa [turns] using quiet))
  | failed failures => exact fun _ => rfl
  | assumptionFailed failure => exact fun _ => rfl
  | ignored reason => exact fun _ => rfl

theorem Orderly.advance {waiting later : List Held} {item : Held} {events : List Event}
    (orderly : plan.Orderly session events) (sound : plan.SoundSession session)
    (queue : session.held = waiting ++ item :: later)
    (blocked : ∀ other ∈ waiting, plan.isBlocked session.stage other = true)
    (free : plan.isBlocked session.stage item = false) :
    plan.Orderly (plan.advance session waiting item later) events := by
  have knownItem := sound.known item (by simp [queue])
  intro leaf known
  have before := orderly leaf known
  rw [pending_advance]
  cases turns : plan.turns item with
  | false =>
      have same := (quiet_apply sound.stage knownItem free turns).1.running
      simp only [Plan.advance, same]
      cases item with
      | skipped other cause =>
          have silent : (Held.skipped other cause).event? = none := rfl
          simpa [Session.pending, queue, List.filterMap_cons_none silent] using before
      | event node progress =>
          rwa [pending_split queue, busyAfter?_pass (passes_of_quiet turns known)] at before
  | true =>
      cases item with
      | skipped other cause => simp [Plan.turns] at turns
      | event node progress =>
          have isLeaf := isLeaf_of_turns knownItem turns
          cases progress with
          | started =>
              have idle := orderly.idle_of_started isLeaf queue blocked free
              obtain ⟨middle, written, _, _, result⟩ := apply_started sound.stage isLeaf free
              rw [pending_split queue, waiting_of_idle idle blocked, List.filterMap_nil,
                List.nil_append, busyAfter?_cons] at before
              simp only [Plan.advance, result, waiting_of_idle idle blocked, List.filterMap_nil,
                List.nil_append, Option.some.injEq]
              by_cases same : node = leaf
              · simpa [same, turn?, idle] using before
              · simpa [same, turn?, idle] using before
          | finished =>
              have busy := orderly.busy_of_finished isLeaf queue blocked free
              simp only [Plan.advance, apply_finished isLeaf free]
              rw [pending_split queue] at before
              by_cases same : node = leaf
              · subst same
                have passes := passes_of_all_blocked busy blocked
                rw [busyAfter?_pass_all passes, busyAfter?_cons] at before
                rw [busyAfter?_pass_all passes]
                simpa [turn?, busy] using before
              · rw [busyAfter?_pass (passes_of_ne _ same)] at before
                simpa [busy, same] using before
          | _ => simp [Plan.turns] at turns

theorem Orderly.cut {leaf : NodeId} {event : Event} {events : List Event}
    (orderly : plan.Orderly session (event :: events)) (ends : event.endsRun = true)
    (busy : session.stage.running = some leaf) (settled : plan.Settled session) :
    plan.Orderly
      { session with stage := { session.stage.mark leaf .finished with running := none } }
      (event :: events) := by
  intro other known
  have before := orderly other known
  simp only [Session.pending] at before ⊢
  by_cases same : leaf = other
  · subst same
    have passes := passes_of_all_blocked busy settled
    rw [busyAfter?_pass_all passes, busyAfter?_ends ends] at before ⊢
    exact before
  · simpa [busy, same] using before

theorem Orderly.left {event : Event} {events : List Event}
    (orderly : plan.Orderly session (event :: events)) (ends : event.endsRun = true)
    (empty : session.held = []) (described : Bool) : plan.Orderly { described } events := by
  intro leaf known
  have before := orderly leaf known
  rw [Session.pending, empty, List.filterMap_nil, List.nil_append, busyAfter?_ends ends] at before
  simpa [Session.pending] using before

end Plan

end RunStream
