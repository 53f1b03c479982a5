import Mathlib.Logic.Function.Basic
import RunStream.Proofs.Live.Alternation

set_option autoImplicit false

namespace RunStream

variable {plan : Plan} {stage : Stage} {session : Session}

inductive Signal where
  | started (leaf : NodeId)
  | finished (leaf : NodeId)
  | runEnded
deriving DecidableEq, Repr

def Signal.Apart (leaf : NodeId) : Signal → Prop
  | .started other => other ≠ leaf
  | .finished other => other ≠ leaf
  | .runEnded => False

def restartsFrom? (busy : NodeId → Bool) : List Signal → Option Nat
  | [] => some 0
  | .started leaf :: rest =>
      (restartsFrom? (Function.update busy leaf true) rest).map ((busy leaf).toNat + ·)
  | .finished leaf :: rest =>
      if busy leaf then restartsFrom? (Function.update busy leaf false) rest else none
  | .runEnded :: rest => restartsFrom? (fun _ => false) rest

theorem restartsFrom?_swap {leaf : NodeId} {other own : Signal} (apart : other.Apart leaf)
    (turns : own = .started leaf ∨ own = .finished leaf) (busy : NodeId → Bool)
    (rest : List Signal) :
    restartsFrom? busy (other :: own :: rest) = restartsFrom? busy (own :: other :: rest) := by
  cases other with
  | runEnded => exact apart.elim
  | started id =>
      have ne : id ≠ leaf := apart
      rcases turns with rfl | rfl
      · simp [restartsFrom?, ne, ne.symm, Function.update_comm ne, Function.comp_def,
          Nat.add_left_comm]
      · cases running : busy leaf <;>
          simp [restartsFrom?, ne, ne.symm, Function.update_comm ne, running]
  | finished id =>
      have ne : id ≠ leaf := apart
      rcases turns with rfl | rfl <;> cases running : busy id <;>
        simp [restartsFrom?, ne, ne.symm, Function.update_comm ne, running]

theorem restartsFrom?_early {leaf : NodeId} {front : List Signal} {own : Signal}
    (apart : ∀ other ∈ front, other.Apart leaf)
    (turns : own = .started leaf ∨ own = .finished leaf) (busy : NodeId → Bool)
    (back : List Signal) :
    restartsFrom? busy (front ++ own :: back) = restartsFrom? busy (own :: (front ++ back)) := by
  induction front generalizing busy with
  | nil => rfl
  | cons other rest ih =>
      have later := ih fun signal member => apart signal (List.mem_cons_of_mem _ member)
      rw [List.cons_append, List.cons_append,
        ← restartsFrom?_swap (apart other (List.mem_cons_self ..)) turns]
      cases other <;> simp only [restartsFrom?, later]

theorem restartsFrom?_forgotten {leaf : NodeId} {front : List Signal}
    (apart : ∀ other ∈ front, other.Apart leaf) (busy : NodeId → Bool) (now : Bool)
    (back : List Signal) :
    restartsFrom? (Function.update busy leaf now) (front ++ .runEnded :: back) =
      restartsFrom? busy (front ++ .runEnded :: back) := by
  induction front generalizing busy with
  | nil => rfl
  | cons other rest ih =>
      have later := ih fun signal member => apart signal (List.mem_cons_of_mem _ member)
      have here := apart other (List.mem_cons_self ..)
      cases other with
      | runEnded => exact here.elim
      | started id =>
          have ne : id ≠ leaf := here
          simp [restartsFrom?, ne, Function.update_comm ne.symm, later]
      | finished id =>
          have ne : id ≠ leaf := here
          simp [restartsFrom?, ne, Function.update_comm ne.symm, later]

theorem restartsFrom?_runEnded (busy : NodeId → Bool) (signals : List Signal) :
    restartsFrom? busy (signals ++ [.runEnded]) = restartsFrom? busy signals := by
  induction signals generalizing busy with
  | nil => rfl
  | cons signal rest ih => cases signal <;> simp only [List.cons_append, restartsFrom?, ih]

namespace Stage

def busy (stage : Stage) (leaf : NodeId) : Bool :=
  decide (stage.running = some leaf)

theorem busy_idle (idle : stage.running = none) : stage.busy = fun _ => false := by
  funext leaf
  simp [busy, idle]

theorem busy_running {leaf : NodeId} (running : stage.running = some leaf) :
    stage.busy = Function.update (fun _ => false) leaf true := by
  funext other
  by_cases same : other = leaf
  · simp [busy, running, same]
  · simp [busy, running, same, Ne.symm same]

end Stage

namespace Plan

def signal? (plan : Plan) : Event → Option Signal
  | .node id .started => if plan.tree.isLeaf id then some (.started id) else none
  | .node id .finished => if plan.tree.isLeaf id then some (.finished id) else none
  | .node _ _ => none
  | .runStarted => some .runEnded
  | .runFinished => some .runEnded

theorem signal?_endsRun {event : Event} (ends : event.endsRun = true) :
    plan.signal? event = some .runEnded := by
  cases event with
  | runStarted => rfl
  | runFinished => rfl
  | node id progress => simp [Event.endsRun] at ends

theorem signal?_quiet {node : NodeId} {progress : Progress}
    (quiet : plan.turns (.event node progress) = false) :
    plan.signal? (.node node progress) = none := by
  have outside (container : plan.tree.isContainer node = true) : plan.tree.isLeaf node = false := by
    cases leaf : plan.tree.isLeaf node with
    | false => rfl
    | true => simp [Tree.isContainer_eq_false_of_isLeaf leaf] at container
  cases progress <;> simp_all [turns, signal?]

theorem apart_of_passes {leaf : NodeId} {event : Event} (passes : event.Passes leaf)
    {signal : Signal} (told : plan.signal? event = some signal) : signal.Apart leaf := by
  have free := passes false
  have busy := passes true
  cases event with
  | runStarted => simp [turn?] at busy
  | runFinished => simp [turn?] at busy
  | node id progress =>
      cases progress <;>
        simp only [signal?, Option.ite_none_right_eq_some, Option.some.injEq, reduceCtorEq]
          at told
      · obtain ⟨_, rfl⟩ := told
        rintro rfl
        simp [turn?] at busy
      · obtain ⟨_, rfl⟩ := told
        rintro rfl
        simp [turn?] at free

def signals (plan : Plan) (events : List Event) : List Signal :=
  events.filterMap plan.signal?

theorem signals_append (left right : List Event) :
    plan.signals (left ++ right) = plan.signals left ++ plan.signals right :=
  List.filterMap_append

/-- How often the events start a leaf that is busy.  There is no answer if they finish a leaf that
has not started since it last finished in the same run. -/
def restarts? (plan : Plan) (events : List Event) : Option Nat :=
  restartsFrom? (fun _ => false) (plan.signals events)

theorem restarts?_runFinished (events : List Event) :
    plan.restarts? (events ++ [.runFinished]) = plan.restarts? events := by
  rw [restarts?, signals_append]
  exact restartsFrom?_runEnded _ _

-- Work that waits for the running leaf gives no signal of it, and no work waits for none.
theorem apart_of_near {leaf : NodeId} {items : List Held}
    (near : stage.running = none ∨ stage.running = some leaf)
    (blocked : ∀ item ∈ items, plan.isBlocked stage item = true) :
    ∀ signal ∈ plan.signals (items.filterMap Held.event?), signal.Apart leaf := by
  rcases near with idle | running
  · rw [waiting_of_idle idle blocked]
    simp [signals]
  · intro signal member
    obtain ⟨event, inEvents, told⟩ := List.mem_filterMap.mp member
    exact apart_of_passes (passes_of_all_blocked running blocked event inEvents) told

theorem signals_pending {waiting later : List Held} {item : Held}
    (queue : session.held = waiting ++ item :: later) (events : List Event) :
    plan.signals (session.pending events) =
      plan.signals (waiting.filterMap Held.event?) ++
        ((item.event?.bind plan.signal?).toList ++
          plan.signals (later.filterMap Held.event? ++ events)) := by
  cases happened : item.event? with
  | none => simp [Session.pending, queue, signals, happened]
  | some event =>
      cases told : plan.signal? event <;>
        simp [Session.pending, queue, signals, happened, told]

theorem signals_pending_advance (session : Session) (waiting later : List Held) (item : Held)
    (events : List Event) :
    plan.signals ((plan.advance session waiting item later).pending events) =
      plan.signals (waiting.filterMap Held.event?) ++
        plan.signals (later.filterMap Held.event? ++ events) := by
  rw [pending_advance, signals_append]

def Restarts (plan : Plan) (session : Session) (events : List Event) (count : Nat) : Prop :=
  restartsFrom? session.stage.busy (plan.signals (session.pending events)) = some count

section Advance

variable {waiting later : List Held} {leaf : NodeId} {events : List Event} {count : Nat}

theorem Restarts.turned {item : Held} {own : Signal} (restarts : plan.Restarts session events count)
    (queue : session.held = waiting ++ item :: later)
    (blocked : ∀ other ∈ waiting, plan.isBlocked session.stage other = true)
    (near : session.stage.running = none ∨ session.stage.running = some leaf)
    (told : item.event?.bind plan.signal? = some own)
    (turns : own = .started leaf ∨ own = .finished leaf) :
    restartsFrom? session.stage.busy
      (own :: plan.signals ((plan.advance session waiting item later).pending events)) =
        some count := by
  rw [Restarts, signals_pending queue, told, Option.toList_some, List.singleton_append,
    restartsFrom?_early (apart_of_near near blocked) turns] at restarts
  rw [signals_pending_advance]
  exact restarts

theorem Restarts.started (restarts : plan.Restarts session events count)
    (sound : plan.Sound session.stage) (known : plan.tree.isLeaf leaf = true)
    (queue : session.held = waiting ++ .event leaf .started :: later)
    (blocked : ∀ other ∈ waiting, plan.isBlocked session.stage other = true)
    (free : plan.isBlocked session.stage (.event leaf .started) = false) :
    ∃ left, count = (session.stage.busy leaf).toNat + left ∧
      plan.Restarts (plan.advance session waiting (.event leaf .started) later) events left := by
  have near := near_of_free rfl free
  have told : (Held.event leaf .started).event?.bind plan.signal? = some (.started leaf) := by
    simp [Held.event?, signal?, known]
  have first := restarts.turned queue blocked near told (.inl rfl)
  rw [restartsFrom?] at first
  obtain ⟨left, after, total⟩ := Option.map_eq_some_iff.mp first
  refine ⟨left, total.symm, ?_⟩
  obtain ⟨_, _, _, _, result⟩ := apply_started sound known free
  rw [Restarts, ← after]
  congr 1
  simp only [advance, result]
  rw [Stage.busy_running rfl]
  rcases near with idle | running
  · rw [Stage.busy_idle idle]
  · rw [Stage.busy_running running, Function.update_idem]

theorem Restarts.finished (restarts : plan.Restarts session events count)
    (known : plan.tree.isLeaf leaf = true)
    (queue : session.held = waiting ++ .event leaf .finished :: later)
    (blocked : ∀ other ∈ waiting, plan.isBlocked session.stage other = true)
    (free : plan.isBlocked session.stage (.event leaf .finished) = false) :
    session.stage.running = some leaf ∧
      plan.Restarts (plan.advance session waiting (.event leaf .finished) later) events count := by
  have near := near_of_free rfl free
  have told : (Held.event leaf .finished).event?.bind plan.signal? = some (.finished leaf) := by
    simp [Held.event?, signal?, known]
  have first := restarts.turned queue blocked near told (.inr rfl)
  rw [restartsFrom?] at first
  obtain ⟨busy, after⟩ := Option.ite_none_right_eq_some.mp first
  have running : session.stage.running = some leaf := by simpa [Stage.busy] using busy
  refine ⟨running, ?_⟩
  rw [Restarts, ← after]
  congr 1
  simp only [advance, apply_finished known free]
  rw [Stage.busy_idle rfl, Stage.busy_running running, Function.update_idem,
    Function.update_eq_self_iff.mpr rfl]

theorem Restarts.quiet {item : Held} (restarts : plan.Restarts session events count)
    (quiet : plan.turns item = false) (queue : session.held = waiting ++ item :: later)
    (same : (plan.apply item session.stage).1.running = session.stage.running) :
    plan.Restarts (plan.advance session waiting item later) events count := by
  have silent : item.event?.bind plan.signal? = none := by
    cases item with
    | skipped leaf cause => rfl
    | event node progress => exact signal?_quiet quiet
  rw [Restarts, signals_pending queue, silent, Option.toList_none, List.nil_append] at restarts
  rw [Restarts, signals_pending_advance, ← restarts]
  unfold Stage.busy
  simp only [advance, same]

end Advance

theorem Restarts.dropped {node : NodeId} {progress : Progress} {events : List Event} {count : Nat}
    (restarts : plan.Restarts session (.node node progress :: events) count)
    (foreign : plan.tree.contains node = false) : plan.Restarts session events count := by
  have outside : plan.tree.isLeaf node = false := by
    cases leaf : plan.tree.isLeaf node with
    | false => rfl
    | true => simp [Tree.contains_of_isLeaf leaf] at foreign
  have silent : plan.signal? (.node node progress) = none := by
    cases progress <;> simp [signal?, outside]
  simpa [Restarts, Session.pending, signals, silent] using restarts

theorem Restarts.received {node : NodeId} {progress : Progress} {events : List Event} {count : Nat}
    (restarts : plan.Restarts session (.node node progress :: events) count) :
    plan.Restarts { session with held := session.held ++ [.event node progress] } events count := by
  simpa [Restarts, Session.pending, Held.event?] using restarts

-- The test that is cut short leaves its leaf free, but so does the end of the run.
theorem Restarts.cut {leaf : NodeId} {event : Event} {events : List Event} {count : Nat}
    (restarts : plan.Restarts session (event :: events) count) (ends : event.endsRun = true)
    (running : session.stage.running = some leaf) (settled : plan.Settled session) :
    plan.Restarts
      { session with stage := { session.stage.mark leaf .finished with running := none } }
      (event :: events) count := by
  have apart := apart_of_near (.inr running) settled
  have ending : plan.signals (event :: events) = .runEnded :: plan.signals events :=
    List.filterMap_cons_some (signal?_endsRun ends)
  rw [Restarts, Session.pending, signals_append, ending] at restarts ⊢
  rw [Stage.busy_running running, restartsFrom?_forgotten apart] at restarts
  rw [Stage.busy_idle rfl, restarts]

theorem Restarts.left {event : Event} {events : List Event} {count : Nat}
    (restarts : plan.Restarts session (event :: events) count) (ends : event.endsRun = true)
    (empty : session.held = []) (described : Bool) :
    plan.Restarts { described } events count := by
  simp only [Restarts, Session.pending, signals, empty, List.filterMap_nil, List.nil_append,
    List.filterMap_cons, signal?_endsRun ends, restartsFrom?] at restarts ⊢
  rw [Stage.busy_idle rfl, restarts]

end Plan

end RunStream
