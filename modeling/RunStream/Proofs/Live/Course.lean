import RunStream.Proofs.Live.Lasting
import RunStream.Proofs.Live.Queue

set_option autoImplicit false

namespace RunStream

variable {plan : Plan} {stage : Stage} {session : Session}

def Event.endsRun : Event → Bool
  | .runStarted => true
  | .runFinished => true
  | .node _ _ => false

namespace Plan

def opening (plan : Plan) (event : Event) (described : Bool) : List Notice :=
  match event with
  | .runStarted => plan.preamble described
  | _ => []

inductive Course (plan : Plan) : Session → List Event → List Notice → Session → Prop
  | done (session : Session) : Course plan session [] [] session
  | dropped {session final : Session} {events : List Event} {written : List Notice}
      (node : NodeId) (progress : Progress) (foreign : plan.tree.contains node = false)
      (rest : Course plan session events written final) :
      Course plan session (.node node progress :: events) written final
  | received {session final : Session} {events : List Event} {written : List Notice}
      (node : NodeId) (progress : Progress) (known : plan.tree.contains node = true)
      (rest : Course plan { session with held := session.held ++ [.event node progress] } events
        written final) :
      Course plan session (.node node progress :: events) written final
  | applied {session final : Session} {events : List Event} {written : List Notice}
      (waiting : List Held) (item : Held) (later : List Held)
      (queue : session.held = waiting ++ item :: later)
      (blocked : ∀ other ∈ waiting, plan.isBlocked session.stage other = true)
      (free : plan.isBlocked session.stage item = false)
      (rest : Course plan (plan.advance session waiting item later) events written final) :
      Course plan session events ((plan.apply item session.stage).2 ++ written) final
  | cut {session final : Session} {event : Event} {events : List Event} {written : List Notice}
      (leaf : NodeId) (ends : event.endsRun = true) (busy : session.stage.running = some leaf)
      (settled : plan.Settled session)
      (rest : Course plan
        { session with stage := { session.stage.mark leaf .finished with running := none } }
        (event :: events) written final) :
      Course plan session (event :: events)
        ([.cutShort leaf, .testFinished (.leaf leaf)] ++ written) final
  | left {session final : Session} {event : Event} {events : List Event} {written : List Notice}
      (ends : event.endsRun = true) (idle : session.stage.running = none)
      (empty : session.held = [])
      (rest : Course plan { described := session.described } events written final) :
      Course plan session (event :: events)
        ((plan.leave session.stage).2 ++ plan.opening event session.described ++ written) final

structure SoundSession (plan : Plan) (session : Session) : Prop where
  stage : plan.Sound session.stage
  known : ∀ item ∈ session.held, plan.knowsHeld item = true

theorem soundSession_fresh (described : Bool) : plan.SoundSession { described } where
  stage := sound_empty
  known := fun item member => by simp at member

theorem SoundSession.received (sound : plan.SoundSession session) {node : NodeId}
    {progress : Progress} (known : plan.tree.contains node = true) :
    plan.SoundSession { session with held := session.held ++ [.event node progress] } where
  stage := sound.stage
  known := fun item member => by
    rcases List.mem_append.mp member with old | new
    · exact sound.known item old
    · rw [List.mem_singleton.mp new]
      exact known

theorem mem_deferred {stage : Stage} {item other : Held}
    (member : other ∈ plan.deferred stage item) :
    ∃ leaf cause, other = .skipped leaf cause ∧ plan.tree.isLeaf leaf = true := by
  cases item with
  | skipped leaf cause => simp [deferred] at member
  | event node progress =>
      cases skips : plan.skipCause? node progress with
      | none => simp [deferred, skips] at member
      | some cause =>
          simp only [deferred, skips] at member
          split at member
          · obtain ⟨leaf, below, rfl⟩ := List.mem_map.mp member
            exact ⟨leaf, cause, rfl, (Tree.mem_leavesUnder_iff.mp (List.mem_filter.mp below).1).1⟩
          · simp at member

theorem knowsHeld_deferred (stage : Stage) (item other : Held)
    (member : other ∈ plan.deferred stage item) : plan.knowsHeld other = true := by
  obtain ⟨leaf, cause, rfl, known⟩ := mem_deferred member
  exact known

theorem SoundSession.advance (sound : plan.SoundSession session) {waiting later : List Held}
    {item : Held} (queue : session.held = waiting ++ item :: later)
    (free : plan.isBlocked session.stage item = false) :
    plan.SoundSession (plan.advance session waiting item later) where
  stage := sound.stage.apply (sound.known item (by simp [queue])) free
  known := fun other member => by
    simp only [Plan.advance, List.mem_append] at member
    rcases member with (before | new) | after
    · exact sound.known other (by simp [queue, before])
    · exact knowsHeld_deferred session.stage item other new
    · exact sound.known other (by simp [queue, after])

theorem SoundSession.cut (sound : plan.SoundSession session) {leaf : NodeId}
    (busy : session.stage.running = some leaf) :
    plan.SoundSession
      { session with stage := { session.stage.mark leaf .finished with running := none } } where
  stage := sound.stage.finished (.inr busy)
  known := sound.known

theorem Drains.sound {final : Session} {written : List Notice}
    (drains : plan.Drains session written final) (sound : plan.SoundSession session) :
    plan.SoundSession final := by
  induction drains with
  | settled _ => exact sound
  | applied waiting item later queue blocked free _ ih => exact ih (sound.advance queue free)

theorem Drains.course {middle final : Session} {events : List Event} {written more : List Notice}
    (drains : plan.Drains session written middle)
    (rest : plan.Course middle events more final) :
    plan.Course session events (written ++ more) final := by
  induction drains with
  | settled _ => exact rest
  | applied waiting item later queue blocked free _ ih =>
      rw [List.append_assoc]
      exact .applied waiting item later queue blocked free (ih rest)

theorem deferred_idle {stage : Stage} (idle : stage.running = none) (item : Held) :
    plan.deferred stage item = [] := by
  cases item with
  | skipped leaf cause => rfl
  | event node progress =>
      cases skips : plan.skipCause? node progress <;> simp [deferred, skips, idle]

theorem Settled.held_eq_nil (settled : plan.Settled session)
    (idle : session.stage.running = none) : session.held = [] :=
  waiting_of_idle idle settled

def openTests (session : Session) : Nat :=
  (session.held.filter Held.isStart).length + if session.stage.running.isSome then 1 else 0

theorem filter_isStart_deferred (stage : Stage) (item : Held) :
    (plan.deferred stage item).filter Held.isStart = [] := by
  refine List.filter_eq_nil_iff.mpr fun other member => ?_
  obtain ⟨leaf, cause, rfl, _⟩ := mem_deferred member
  exact Bool.false_ne_true

-- Only a start opens a test, and it is no longer held then.
theorem openTests_advance_le {waiting later : List Held} {item : Held}
    (queue : session.held = waiting ++ item :: later) :
    openTests (plan.advance session waiting item later) ≤ openTests session := by
  have starts : ((plan.advance session waiting item later).held.filter Held.isStart).length +
      ([item].filter Held.isStart).length = (session.held.filter Held.isStart).length := by
    have whole : session.held = waiting ++ ([item] ++ later) := queue
    simp only [Plan.advance, whole, List.filter_append, filter_isStart_deferred, List.append_nil,
      List.length_append]
    omega
  unfold openTests
  cases turns : plan.turns item with
  | false =>
      have same := running_apply turns session.stage
      simp only [Plan.advance, same] at starts ⊢
      omega
  | true =>
      cases item with
      | skipped leaf cause => simp [Plan.turns] at turns
      | event node progress =>
          cases progress with
          | started =>
              simp only [List.filter_cons, Held.isStart, if_true, List.length_cons] at starts
              split <;> omega
          | finished =>
              have leaf : plan.tree.isContainer node = false := by simpa [Plan.turns] using turns
              have fewer : (plan.apply (.event node .finished) session.stage).1.running.isSome →
                  session.stage.running.isSome := by
                simp only [apply, finishNode, leaf, Bool.false_eq_true, if_false, finishLeaf,
                  Step.andThen, Step.write, Step.update]
                by_cases ending : session.stage.running = some node <;> simp [ending]
              by_cases busy : (plan.advance session waiting
                (.event node .finished) later).stage.running.isSome
              · rw [if_pos busy, if_pos (fewer busy)]
                omega
              · rw [if_neg busy]
                omega
          | _ => simp [Plan.turns] at turns

theorem Drains.openTests_le {final : Session} {written : List Notice}
    (drains : plan.Drains session written final) : openTests final ≤ openTests session := by
  induction drains with
  | settled _ => exact Nat.le_refl _
  | applied waiting item later queue _ _ _ ih =>
      exact Nat.le_trans ih (openTests_advance_le queue)

theorem reportFailedWithin_reaches (plan : Plan) (limit : Nat) (stage : Stage)
    (placed : plan.Placed stage.suites) (idle : stage.running = none)
    (bound : stage.failed.length ≤ limit) :
    ∃ suites, plan.Placed suites ∧
      plan.Reaches [] stage suites (plan.reportFailedWithin limit stage) ∧
      (plan.reportFailedWithin limit stage).1.failed = [] := by
  induction limit generalizing stage with
  | zero =>
      exact ⟨stage.suites, placed, ⟨.done stage, rfl, Nat.le_refl _⟩,
        List.length_eq_zero_iff.mp (Nat.le_zero.mp bound)⟩
  | succ limit ih =>
      rcases List.eq_nil_or_concat stage.failed with none | ⟨others, container, failed⟩
      · refine ⟨stage.suites, placed, ?_, ?_⟩
        · have still : plan.Reaches [] stage stage.suites (Step.skip stage) :=
            ⟨.done stage, rfl, Nat.le_refl _⟩
          simpa [reportFailedWithin, none] using still
        · simp [reportFailedWithin, none, Step.skip]
      · rw [List.concat_eq_append] at failed
        let rest : Stage := { stage with failed := others }
        obtain ⟨suites, placed', _, reached⟩ := reportUnstarted_reaches [] rest container
          (close_closes others.length) placed idle (Nat.le_refl _) (List.nil_prefix ..)
          fun _ _ => List.nil_prefix ..
        have fewer : others.length ≤ limit := by
          simp only [failed, List.length_append, List.length_singleton] at bound
          omega
        obtain ⟨suites', placed'', later, none⟩ := ih _ (reached.suites ▸ placed')
          (reached.idle idle) (Nat.le_trans reached.failed fewer)
        have both := reached.andThen later
        have taken : stage.failed.Perm (container :: others) := by
          rw [failed]
          exact List.perm_append_comm
        have result : plan.reportFailedWithin (limit + 1) stage =
            (plan.reportUnstarted plan.close container).andThen (plan.reportFailedWithin limit)
              rest := by
          simp [reportFailedWithin, failed, rest]
        rw [result]
        refine ⟨suites', placed'', ⟨.settled container others taken both.moves, both.suites, ?_⟩,
          none⟩
        have := both.failed
        simp only [failed, List.length_append, List.length_singleton, rest] at *
        omega

def windUp (plan : Plan) : Step :=
  plan.reportFailed.andThen (plan.close 0)

theorem leave_eq (plan : Plan) (stage : Stage) :
    plan.leave stage = ({ (plan.windUp stage).1 with leaves := [] }, (plan.windUp stage).2) := by
  simp [leave, windUp, Step.andThen, Step.update]

theorem windUp_reaches (sound : plan.Sound stage) (idle : stage.running = none) :
    plan.Reaches [] stage [] (plan.windUp stage) ∧ (plan.windUp stage).1.failed = [] := by
  obtain ⟨suites, placed, reported, none⟩ :=
    reportFailedWithin_reaches plan stage.failed.length stage sound.placed idle
      (Nat.le_refl _)
  have fewer : (plan.reportFailed stage).1.failed = [] := none
  have closed := (close_closes 0 (plan.reportFailed stage).1 0 (reported.suites ▸ placed)
    (reported.idle idle) (by rw [fewer]; exact Nat.le_refl _) (Nat.zero_le _)).reached
  refine ⟨Reaches.andThen reported closed, ?_⟩
  have settled := closed.failed
  rw [fewer] at settled
  exact List.length_eq_zero_iff.mp (Nat.le_zero.mp settled)

theorem leave_spec (sound : plan.Sound stage) (idle : stage.running = none) :
    (plan.leave stage).1 = {} ∧
      ∃ final, plan.Moves [] stage (plan.leave stage).2 final ∧ final.suites = [] := by
  obtain ⟨reached, settled⟩ := windUp_reaches sound idle
  have still := reached.idle idle
  have empty := reached.suites
  rw [leave_eq]
  refine ⟨?_, _, reached.moves, empty⟩
  cases ending : (plan.windUp stage).1
  simp_all

structure Ended (plan : Plan) (event : Event) (session : Session)
    (result : Session × List Notice) : Prop where
  sound : plan.SoundSession result.1
  idle : result.1.stage.running = none
  empty : result.1.held = []
  described : result.1.described = session.described
  course : ∀ events more final, plan.Course result.1 (event :: events) more final →
    plan.Course session (event :: events) (result.2 ++ more) final

theorem Drains.described {final : Session} {written : List Notice}
    (drains : plan.Drains session written final) : final.described = session.described := by
  induction drains with
  | settled _ => rfl
  | applied _ _ _ _ _ _ _ ih => exact ih

theorem Drains.ended {event : Event} {final : Session} {written : List Notice}
    (drains : plan.Drains session written final) (sound : plan.SoundSession session)
    (idle : final.stage.running = none) : plan.Ended event session (final, written) where
  sound := drains.sound sound
  idle := idle
  empty := drains.is_settled.held_eq_nil idle
  described := drains.described
  course := fun _ _ _ rest => drains.course rest

theorem finishTestsWithin_ended {event : Event} (ends : event.endsRun = true) (limit : Nat)
    (session : Session) (sound : plan.SoundSession session) (bound : openTests session ≤ limit) :
    plan.Ended event session (plan.finishTestsWithin limit session) := by
  induction limit generalizing session with
  | zero =>
      have drains := drains_drain plan session
      refine drains.ended sound ?_
      cases busy : (plan.drain session).1.stage.running with
      | none => rfl
      | some leaf =>
          have few := Nat.le_trans drains.openTests_le bound
          simp [openTests, busy] at few
  | succ limit ih =>
      have drains := drains_drain plan session
      cases busy : (plan.drain session).1.stage.running with
      | none =>
          simp only [finishTestsWithin, busy]
          exact drains.ended sound busy
      | some leaf =>
          have few := Nat.le_trans drains.openTests_le bound
          have later := ih _ ((drains.sound sound).cut busy) (by
            simp only [openTests, busy, Option.isSome_some, Option.isSome_none, if_true] at few ⊢
            simp only [Bool.false_eq_true, if_false]
            omega)
          have result : plan.finishTestsWithin (limit + 1) session =
              ((plan.finishTestsWithin limit { (plan.drain session).1 with
                  stage := { (plan.drain session).1.stage.mark leaf .finished with
                    running := none } }).1,
                (plan.drain session).2 ++ ([.cutShort leaf, .testFinished (.leaf leaf)] ++
                  (plan.finishTestsWithin limit { (plan.drain session).1 with
                    stage := { (plan.drain session).1.stage.mark leaf .finished with
                      running := none } }).2)) := by
            simp [finishTestsWithin, busy, Step.andThen, Step.write, Step.update, finishLeaf]
          rw [result]
          refine ⟨later.sound, later.idle, later.empty, later.described.trans drains.described,
            fun events more final rest => ?_⟩
          simp only [List.append_assoc]
          exact drains.course (.cut leaf ends busy drains.is_settled
            (later.course events more final rest))

theorem finishTests_ended (event : Event) (ends : event.endsRun = true)
    (sound : plan.SoundSession session) :
    plan.Ended event session (plan.finishTests session) := by
  refine finishTestsWithin_ended ends _ session sound ?_
  unfold openTests
  split <;> omega

theorem finishRun_fst (sound : plan.SoundSession session) :
    (plan.finishRun session).1 = { described := session.described } := by
  have ended := finishTests_ended .runFinished rfl sound
  have left := leave_spec ended.sound.stage ended.idle
  simp [finishRun, left.1, ended.empty, ended.described]

theorem finishRun_course {events : List Event} {more : List Notice} {final : Session}
    (event : Event) (ends : event.endsRun = true) (sound : plan.SoundSession session)
    (rest : plan.Course { described := session.described } events more final) :
    plan.Course session (event :: events)
      ((plan.finishRun session).2 ++ plan.opening event session.described ++ more) final := by
  have ended := finishTests_ended event ends sound
  have left := Course.left ends ended.idle ended.empty (ended.described ▸ rest)
  have course := ended.course events _ _ left
  rw [ended.described] at course
  simpa only [finishRun, List.append_assoc] using course

theorem handle_endsRun {event : Event} (ends : event.endsRun = true)
    (sound : plan.SoundSession session) :
    plan.handle event session =
      ({ described := session.described },
        (plan.finishRun session).2 ++ plan.opening event session.described) := by
  have fresh := finishRun_fst sound
  cases event with
  | runStarted => simp [handle, opening, fresh]
  | runFinished => simp [handle, opening, ← fresh]
  | node id progress => simp [Event.endsRun] at ends

theorem handle_known {node : NodeId} {progress : Progress}
    (known : plan.tree.contains node = true) :
    plan.handle (.node node progress) session =
      plan.drain { session with held := session.held ++ [.event node progress] } := by
  simp [handle, known]

theorem handle_idle {node : NodeId} {progress : Progress} (settled : plan.Settled session)
    (idle : session.stage.running = none) (known : plan.tree.contains node = true) :
    plan.handle (.node node progress) session =
      ({ session with stage := (plan.apply (.event node progress) session.stage).1 },
        (plan.apply (.event node progress) session.stage).2) := by
  have empty := settled.held_eq_nil idle
  have applied := @Drains.applied plan { session with held := [.event node progress] } _ _ []
    (.event node progress) [] rfl (by simp) (isBlocked_idle idle _)
    (.settled fun item member => by simp [advance, deferred_idle idle] at member)
  obtain ⟨same, written⟩ := (drains_drain plan _).unique applied
  rw [handle_known known, empty, List.nil_append]
  refine Prod.ext (same.trans ?_) (written.trans (List.append_nil _))
  simp [advance, deferred_idle idle]

theorem handle_foreign {node : NodeId} {progress : Progress}
    (foreign : plan.tree.contains node = false) :
    plan.handle (.node node progress) session = (session, []) := by
  simp [handle, foreign]

theorem handleAll_cons (event : Event) (rest : List Event) (session : Session) :
    plan.handleAll (event :: rest) session =
      ((plan.handleAll rest (plan.handle event session).1).1,
        (plan.handle event session).2 ++ (plan.handleAll rest (plan.handle event session).1).2) :=
  rfl

theorem handle_sound (sound : plan.SoundSession session) (event : Event) :
    plan.SoundSession (plan.handle event session).1 := by
  cases event with
  | runStarted =>
      rw [handle_endsRun rfl sound]
      exact soundSession_fresh _
  | runFinished =>
      rw [handle_endsRun rfl sound]
      exact soundSession_fresh _
  | node id progress =>
      cases known : plan.tree.contains id with
      | false => rwa [handle_foreign known]
      | true =>
          rw [handle_known known]
          exact (drains_drain plan _).sound (sound.received known)

theorem handleAll_append (first second : List Event) (session : Session) :
    plan.handleAll (first ++ second) session =
      ((plan.handleAll second (plan.handleAll first session).1).1,
        (plan.handleAll first session).2 ++
          (plan.handleAll second (plan.handleAll first session).1).2) := by
  induction first generalizing session with
  | nil => rfl
  | cons event rest ih =>
      rw [List.cons_append, handleAll_cons, handleAll_cons, ih, List.append_assoc]

theorem handleAll_sound (events : List Event) (sound : plan.SoundSession session) :
    plan.SoundSession (plan.handleAll events session).1 := by
  induction events generalizing session with
  | nil => exact sound
  | cons event rest ih => exact ih (handle_sound sound event)

theorem handle_described (sound : plan.SoundSession session) (event : Event) :
    (plan.handle event session).1.described = session.described := by
  cases event with
  | runStarted => rw [handle_endsRun rfl sound]
  | runFinished => rw [handle_endsRun rfl sound]
  | node id progress =>
      cases known : plan.tree.contains id with
      | false => rw [handle_foreign known]
      | true =>
          rw [handle_known known]
          exact (drains_drain plan _).described

theorem handleAll_described (events : List Event) (sound : plan.SoundSession session) :
    (plan.handleAll events session).1.described = session.described := by
  induction events generalizing session with
  | nil => rfl
  | cons event rest ih => exact (ih (handle_sound sound event)).trans (handle_described sound event)

theorem handleAll_ended {ending : Event} (ends : ending.endsRun = true) (events : List Event)
    (sound : plan.SoundSession session) :
    (plan.handleAll (events ++ [ending]) session).1 = { described := session.described } := by
  have last := handle_endsRun ends (handleAll_sound events sound)
  rw [handleAll_append, handleAll_cons, last, handleAll_described events sound]
  rfl

theorem handleAll_finished (events : List Event) (sound : plan.SoundSession session) :
    (plan.handleAll (events ++ [.runFinished]) session).1 = { described := session.described } :=
  handleAll_ended rfl events sound

theorem handleAll_course (events : List Event) (session : Session)
    (sound : plan.SoundSession session) :
    plan.Course session events (plan.handleAll events session).2
      (plan.handleAll events session).1 := by
  induction events generalizing session with
  | nil => exact .done session
  | cons event rest ih =>
      have later := ih _ (handle_sound sound event)
      have ending (ends : event.endsRun = true) : plan.Course session (event :: rest)
          (plan.handleAll (event :: rest) session).2
          (plan.handleAll (event :: rest) session).1 := by
        rw [handle_endsRun ends sound] at later
        rw [handleAll_cons, handle_endsRun ends sound]
        exact finishRun_course event ends sound later
      cases event with
      | runStarted => exact ending rfl
      | runFinished => exact ending rfl
      | node id progress =>
          rw [handleAll_cons]
          cases known : plan.tree.contains id with
          | false =>
              rw [handle_foreign known] at later ⊢
              exact .dropped id progress known later
          | true =>
              rw [handle_known known] at later ⊢
              exact .received id progress known ((drains_drain plan _).course later)

end Plan

end RunStream
