import RunStream.Proofs.Live.Owing
import RunStream.Proofs.Live.Placement

set_option autoImplicit false

namespace RunStream

open Wire RunStream.Tree

variable {plan : Plan} {stage : Stage} {session : Session} {leaf : NodeId}

namespace Plan

def Due (plan : Plan) (leaf : NodeId) (session : Session) (events : List Event) : Prop :=
  plan.AccountsFor leaf session.stage ∨
    (∃ item ∈ session.held, plan.callsForHeld leaf item = true) ∨
    ∃ event ∈ events, plan.callsFor leaf event = true

theorem due_advance {waiting later : List Held} {item : Held} (events : List Event)
    (known : plan.tree.isLeaf leaf = true) (sound : plan.Sound session.stage)
    (queue : session.held = waiting ++ item :: later)
    (free : plan.isBlocked session.stage item = false)
    (spares : item.Spares leaf) :
    plan.Due leaf (plan.advance session waiting item later) events ↔
      plan.Due leaf session events := by
  have here := handed_on known sound free spares
  simp only [Due, Plan.advance, queue, List.mem_append, List.mem_cons, or_and_right, exists_or,
    exists_eq_left]
  grind

theorem due_dropped {node : NodeId} {progress : Progress} {events : List Event}
    (known : plan.tree.isLeaf leaf = true) (foreign : plan.tree.contains node = false) :
    plan.Due leaf session (.node node progress :: events) ↔ plan.Due leaf session events := by
  have outside : plan.callsFor leaf (.node node progress) = false := by
    have other : node ≠ leaf := by
      rintro rfl
      simp [contains_of_isLeaf known] at foreign
    have nowhere : node ∉ plan.tree.ancestors leaf := by
      intro above
      obtain ⟨name, kind⟩ := isContainer_iff.mp (ancestors_containers above)
      simp [contains_iff.mpr (lt_size_of_kind? kind)] at foreign
    cases progress <;> simp [callsFor, other, nowhere]
  simp [Due, outside]

theorem due_received {node : NodeId} {progress : Progress} {events : List Event} :
    plan.Due leaf { session with held := session.held ++ [.event node progress] } events ↔
      plan.Due leaf session (.node node progress :: events) := by
  simp only [Due, List.mem_append, List.mem_cons, List.not_mem_nil, or_false, or_and_right,
    exists_or, exists_eq_left, callsForHeld]
  grind

theorem due_cut {running : NodeId} {events : List Event} (other : running ≠ leaf) :
    plan.Due leaf
        { session with stage := { session.stage.mark running .finished with running := none } }
        events ↔
      plan.Due leaf session events := by
  have same : ({ session.stage.mark running .finished with running := none } : Stage).knows leaf =
      session.stage.knows leaf := by
    simp [Ne.symm other]
  unfold Due AccountsFor
  rw [same]
  rfl

structure OneRun (leaf : NodeId) (session : Session) (events : List Event) : Prop where
  ending : ∃ front, events = front ++ [.runFinished] ∧ ∀ event ∈ front, event.endsRun = false
  spared : ∀ event ∈ session.pending events, event.Spares leaf
  apart : session.stage.running ≠ some leaf

theorem OneRun.later {event : Event} {events : List Event}
    (run : OneRun leaf session (event :: events)) (goesOn : event.endsRun = false) :
    ∃ front, events = front ++ [.runFinished] ∧ ∀ other ∈ front, other.endsRun = false := by
  obtain ⟨front, split, inside⟩ := run.ending
  cases front with
  | nil =>
      simp only [List.nil_append, List.cons.injEq] at split
      simp [split.1, Event.endsRun] at goesOn
  | cons first rest =>
      simp only [List.cons_append, List.cons.injEq] at split
      exact ⟨rest, split.2, fun other member => inside other (List.mem_cons_of_mem _ member)⟩

theorem OneRun.last {event : Event} {events : List Event}
    (run : OneRun leaf session (event :: events)) (ends : event.endsRun = true) :
    event = .runFinished ∧ events = [] := by
  obtain ⟨front, split, inside⟩ := run.ending
  cases front with
  | nil => simpa using split
  | cons first rest =>
      simp only [List.cons_append, List.cons.injEq] at split
      have goesOn := inside first (List.mem_cons_self ..)
      simp [← split.1, ends] at goesOn

theorem OneRun.spares {events : List Event} {item : Held} (run : OneRun leaf session events)
    (member : item ∈ session.held) : item.Spares leaf :=
  fun event same =>
    run.spared event (List.mem_append_left _ (List.mem_filterMap.mpr ⟨item, member, same⟩))

theorem OneRun.advance {waiting later : List Held} {item : Held} {events : List Event}
    (run : OneRun leaf session events) (queue : session.held = waiting ++ item :: later)
    (apart : (plan.apply item session.stage).1.running ≠ some leaf) :
    OneRun leaf (plan.advance session waiting item later) events where
  ending := run.ending
  spared := fun event member => by
    rw [pending_advance] at member
    simp only [List.mem_append, List.mem_filterMap] at member
    rcases member with ⟨other, inWaiting, same⟩ | ⟨other, inLater, same⟩ | coming
    · exact run.spares (by simp [queue, inWaiting]) event same
    · exact run.spares (by simp [queue, inLater]) event same
    · exact run.spared event (List.mem_append_right _ coming)
  apart := apart

theorem course_of_idle {written : List Notice} {final : Session} {described : Bool}
    (course : plan.Course { described } [] written final) : written = [] := by
  cases course with
  | done => rfl
  | applied waiting item later queue => simp at queue

theorem windUp_tells (sound : plan.Sound stage) (idle : stage.running = none) (leaf : NodeId) :
    Tells leaf stage (plan.windUp stage).1 (plan.windUp stage).2 ∧
      ((plan.windUp stage).1.knows leaf = true ↔ plan.AccountsFor leaf stage) := by
  obtain ⟨reached, settled⟩ := windUp_reaches sound idle
  refine ⟨reached.moves.tells leaf, ?_⟩
  have lasting {holds : Stage → Prop} (lasts : plan.Lasts holds) : plan.windUp.Keeps holds :=
    Step.Keeps.andThen (fun stage known => lasts.reportFailedWithin stage.failed.length stage known)
      (lasts.close 0)
  have after : plan.AccountsFor leaf (plan.windUp stage).1 ↔
      (plan.windUp stage).1.knows leaf = true := by
    simp [AccountsFor, settled]
  rw [← after]
  refine ⟨fun known => Classical.byContradiction fun unknown => ?_,
    lasting (lasts_accounted leaf) stage⟩
  exact lasting (lasts_unaccounted leaf) stage unknown known

theorem Course.tells {events : List Event} {written : List Notice} {final : Session}
    (course : plan.Course session events written final) (known : plan.tree.isLeaf leaf = true)
    (sound : plan.SoundSession session) (run : OneRun leaf session events) :
    ∃ last, Tells leaf session.stage last written ∧
      (last.knows leaf = true ↔ plan.Due leaf session events) := by
  induction course with
  | done =>
      obtain ⟨front, split, _⟩ := run.ending
      simp at split
  | dropped node progress foreign _ ih =>
      rw [due_dropped known foreign]
      refine ih sound ⟨run.later rfl, fun event member => run.spared event ?_, run.apart⟩
      rcases List.mem_append.mp member with held | coming
      · exact List.mem_append_left _ held
      · exact List.mem_append_right _ (List.mem_cons_of_mem _ coming)
  | received node progress contained _ ih =>
      rw [← due_received]
      refine ih (sound.received contained) ⟨run.later rfl, fun event member => run.spared event ?_,
        run.apart⟩
      simpa [Session.pending, Held.event?] using member
  | applied waiting item later queue blocked free _ ih =>
      have spares : item.Spares leaf := run.spares (by simp [queue])
      obtain ⟨here, apart⟩ :=
        tells_apply sound.stage (sound.known item (by simp [queue])) free spares
      obtain ⟨last, told, due⟩ :=
        ih (sound.advance queue free) (run.advance queue fun busy => run.apart (apart busy))
      rw [due_advance _ known sound.stage queue free spares] at due
      exact ⟨last, here.trans told, due⟩
  | cut other ends busy settled _ ih =>
      have apart : other ≠ leaf := by
        rintro rfl
        exact run.apart busy
      obtain ⟨last, told, due⟩ := ih (sound.cut busy) ⟨run.ending, run.spared, by simp⟩
      rw [due_cut apart] at due
      exact ⟨last, .behind _ told (by simp [Ne.symm apart]) (by simp), due⟩
  | left ends idle empty rest ih =>
      obtain ⟨rfl, rfl⟩ := run.last ends
      obtain rfl := course_of_idle rest
      obtain ⟨told, settled⟩ := windUp_tells sound.stage idle leaf
      refine ⟨_, by simpa [leave_eq, opening] using told, settled.trans ?_⟩
      simp [Due, empty, callsFor]

def starts (plan : Plan) (leaf : NodeId) (message : Message) : Bool :=
  decide (message.name = "testStarted" ∧
    message.nameAttribute? = some (plan.tree.displayName leaf) ∧
    message.get? "locationHint" = some (plan.tree.locationHint plan.naming leaf))

theorem suiteLocation_ne_testLocation (naming : Naming) (longName className methodName : String) :
    naming.suiteLocation longName ≠ naming.testLocation className methodName := by
  intro same
  have chars := congrArg String.toList same
  cases scheme : naming.scheme <;>
    simp [Naming.suiteLocation, Naming.testLocation, Naming.locate, scheme] at chars

theorem exists_longName? {id : NodeId} {name : String}
    (kind : plan.tree.kind? id = some (.container name)) :
    ∃ longName, plan.tree.longName? id = some longName := by
  rw [longName?]
  simp only [kind]
  split
  · split
    · exact ⟨_, rfl⟩
    · split <;> exact ⟨_, rfl⟩
  · exact ⟨_, rfl⟩

-- Containers are suites and leaves are tests, whatever they are called.
theorem locationHint_ne {container : NodeId} (known : plan.tree.isLeaf leaf = true)
    (outer : plan.tree.isContainer container = true) :
    plan.tree.locationHint plan.naming container ≠ plan.tree.locationHint plan.naming leaf := by
  obtain ⟨className, methodName, kind⟩ := isLeaf_iff.mp known
  obtain ⟨name, kind'⟩ := isContainer_iff.mp outer
  obtain ⟨longName, named⟩ := exists_longName? kind'
  simpa [locationHint, locationHint?, kind, kind', named] using
    suiteLocation_ne_testLocation plan.naming longName className methodName

def Unshared (plan : Plan) (leaf : NodeId) : Prop :=
  ∀ other, plan.tree.isLeaf other = true →
    plan.tree.displayName other = plan.tree.displayName leaf →
    plan.tree.locationHint plan.naming other = plan.tree.locationHint plan.naming leaf →
    other = leaf

theorem starts_testStarted (leaf : NodeId) (subject : Subject) :
    plan.starts leaf { name := "testStarted", attributes :=
        [("name", plan.subjectName subject), ("locationHint", plan.subjectLocation subject)] } =
      decide (plan.subjectName subject = plan.tree.displayName leaf ∧
        plan.subjectLocation subject = plan.tree.locationHint plan.naming leaf) := by
  simp [starts, Message.nameAttribute?, Message.get?, List.lookup_cons]

theorem starts_message {notice : Notice} {message : Message}
    (known : plan.tree.isLeaf leaf = true) (unshared : plan.Unshared leaf)
    (placed : ∀ subject, notice = .testStarted subject → plan.knows subject = true)
    (written : plan.message? notice = some message) :
    plan.starts leaf message = true ↔ notice = .testStarted (.leaf leaf) := by
  cases notice with
  | testStarted subject =>
      simp only [message?, Option.some.injEq] at written
      subst written
      have inTree := placed subject rfl
      rw [starts_testStarted, decide_eq_true_eq, Notice.testStarted.injEq]
      cases subject with
      | leaf other =>
          rw [Subject.leaf.injEq]
          refine ⟨fun same => unshared other inTree same.1 same.2, ?_⟩
          rintro rfl
          exact ⟨rfl, rfl⟩
      | configuration container =>
          refine ⟨fun same => absurd same.2 (locationHint_ne known inTree), ?_⟩
          rintro ⟨⟩
  | cutShort => simp [message?] at written
  | _ =>
      simp only [message?, Option.some.injEq] at written
      subst written
      simp [starts, RootName.message]

theorem countP_starts_eq_zero {notices : List Notice} (known : plan.tree.isLeaf leaf = true)
    (unshared : plan.Unshared leaf)
    (placed : ∀ subject, .testStarted subject ∈ notices → plan.knows subject = true)
    (none : .testStarted (.leaf leaf) ∉ notices) :
    (plan.messages notices).countP (plan.starts leaf) = 0 := by
  refine List.countP_eq_zero.mpr fun message member started => none ?_
  obtain ⟨notice, inNotices, written⟩ := List.mem_filterMap.mp member
  have same := (starts_message known unshared
    (fun subject same => placed subject (same ▸ inNotices)) written).mp started
  exact same ▸ inNotices

theorem knows_of_started (plan : Plan) (events : List Event) (described : Bool) {subject : Subject}
    (member : .testStarted subject ∈ (plan.handleAll events { described }).2) :
    plan.knows subject = true := by
  obtain ⟨before, after, split⟩ := List.append_of_mem member
  exact (started_at_home plan events described split).1

def TellsInRow (plan : Plan) (leaf : NodeId) (messages : List Message) : Prop :=
  ∃ before started ignored finished after,
    messages = before ++ [started, ignored, finished] ++ after ∧
    plan.starts leaf started = true ∧
    ignored.name = "testIgnored" ∧
    ignored.nameAttribute? = some (plan.tree.displayName leaf) ∧
    finished.name = "testFinished" ∧
    finished.nameAttribute? = some (plan.tree.displayName leaf)

theorem messages_told {before after : Stage} {written : List Notice}
    (told : Tells leaf before after written) (known : plan.tree.isLeaf leaf = true)
    (unshared : plan.Unshared leaf)
    (placed : ∀ subject, .testStarted subject ∈ written → plan.knows subject = true)
    (fresh : before.knows leaf = false) :
    (plan.messages written).countP (plan.starts leaf) = (if after.knows leaf then 1 else 0) ∧
      (after.knows leaf = true → plan.TellsInRow leaf (plan.messages written)) := by
  cases told with
  | mute same none =>
      rw [same, fresh]
      exact ⟨countP_starts_eq_zero known unshared placed none, by simp⟩
  | once cause front back _ settled whole first last =>
      subst whole
      have outside {part : List Notice} (none : .testStarted (.leaf leaf) ∉ part)
          (inside : ∀ notice ∈ part, notice ∈ front ++ skippedBlock leaf cause ++ back) :
          (plan.messages part).countP (plan.starts leaf) = 0 :=
        countP_starts_eq_zero known unshared
          (fun subject member => placed subject (inside _ member)) none
      have block : plan.messages (skippedBlock leaf cause) =
          [{ name := "testStarted", attributes := [("name", plan.subjectName (.leaf leaf)),
              ("locationHint", plan.subjectLocation (.leaf leaf))] },
            { name := "testIgnored",
              attributes := ("name", plan.subjectName (.leaf leaf)) :: cause.attributes },
            { name := "testFinished", attributes := [("name", plan.subjectName (.leaf leaf))] }] :=
        rfl
      have starts := plan.starts_testStarted leaf (.leaf leaf)
      simp only [subjectName, subjectLocation, and_self, decide_true] at starts
      simp only [messages_append, block, List.countP_append, settled, if_true]
      rw [outside first (by simp +contextual), outside last (by simp +contextual)]
      refine ⟨?_, fun _ => ⟨_, _, _, _, _, rfl, starts, rfl, rfl, rfl, rfl⟩⟩
      simp [List.countP_cons, subjectName, subjectLocation, starts]
      simp [Plan.starts]

theorem notices_skipped (events : List Event) (described : Bool)
    (known : plan.tree.isLeaf leaf = true) (single : ∀ event ∈ events, event.endsRun = false)
    (spared : ∀ event ∈ events, event.Spares leaf) :
    ∃ last, Tells leaf {} last (plan.handleAll (events ++ [.runFinished]) { described }).2 ∧
      last.knows leaf = events.any (plan.callsFor leaf) := by
  have sound := @soundSession_fresh plan described
  have run : OneRun leaf { described } (events ++ [.runFinished]) := by
    refine ⟨⟨events, rfl, single⟩, fun event member => ?_, by simp⟩
    have coming : event ∈ events ++ [.runFinished] := by simpa [Session.pending] using member
    rcases List.mem_append.mp coming with given | last
    · exact spared event given
    · rw [List.mem_singleton.mp last]
      exact ⟨by simp, by simp⟩
  obtain ⟨last, told, due⟩ :=
    (handleAll_course (events ++ [.runFinished]) _ sound).tells known sound run
  refine ⟨last, told, ?_⟩
  have empty : ¬ plan.AccountsFor leaf {} := by simp [AccountsFor, Stage.knows, Stage.status?]
  rw [Bool.eq_iff_iff, due, List.any_eq_true]
  simp [Due, empty, callsFor]

theorem skipped_leaf_told_once (plan : Plan) (events : List Event) (described : Bool)
    (leaf : NodeId) (known : plan.tree.isLeaf leaf = true)
    (single : ∀ event ∈ events, event.endsRun = false)
    (spared : ∀ event ∈ events, event.Spares leaf) (unshared : plan.Unshared leaf) :
    let output := plan.messages (plan.handleAll (events ++ [.runFinished]) { described }).2
    output.countP (plan.starts leaf) = (if events.any (plan.callsFor leaf) then 1 else 0) ∧
      (events.any (plan.callsFor leaf) = true → plan.TellsInRow leaf output) := by
  obtain ⟨last, told, due⟩ := notices_skipped events described known single spared
  rw [← due]
  exact messages_told told known unshared
    (fun subject => knows_of_started plan (events ++ [.runFinished]) described) rfl

theorem waiting_leaf_told_once :
    let events : List Event :=
      [.node 3 .started, .node 2 (.ignored none), .node 1 (.failed [{ message := "no" }]),
        .node 0 (.ignored (some "later")), .node 1 (.failed [])]
    let output :=
      suiteAndLoneTest.messages (suiteAndLoneTest.handleAll (events ++ [.runFinished]) {}).2
    output.countP (suiteAndLoneTest.starts 2) = 1 ∧ suiteAndLoneTest.TellsInRow 2 output := by
  intro events output
  have unshared : suiteAndLoneTest.Unshared 2 := by
    have all : ∀ other < suiteAndLoneTest.tree.size,
        suiteAndLoneTest.tree.isLeaf other = true →
        suiteAndLoneTest.tree.displayName other = suiteAndLoneTest.tree.displayName 2 →
        other = 2 := by
      decide +kernel
    intro other inTree sameName _
    exact all other (contains_iff.mp (contains_of_isLeaf inTree)) inTree sameName
  have once := skipped_leaf_told_once suiteAndLoneTest events false 2 (by decide +kernel)
    (by decide +kernel) (by decide +kernel) unshared
  have called : events.any (suiteAndLoneTest.callsFor 2) = true := by decide +kernel
  rw [called] at once
  exact ⟨once.1, once.2 rfl⟩

end Plan

end RunStream
