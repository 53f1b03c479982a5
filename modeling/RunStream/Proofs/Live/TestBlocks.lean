import RunStream.Proofs.Live.Alternation
import RunStream.Proofs.Live.Suites
import RunStream.Proofs.Nesting

set_option autoImplicit false

namespace RunStream

open Wire

variable {plan : Plan} {stage : Stage} {session : Session}

def attend? : Option Subject → Notice → Option (Option Subject)
  | none, .testStarted subject => some (some subject)
  | none, .testFinished _ => none
  | none, _ => some none
  | some subject, .testFailed other _ => if other = subject then some (some subject) else none
  | some subject, .testIgnored other _ => if other = subject then some (some subject) else none
  | some subject, .testFinished other => if other = subject then some none else none
  | some subject, .cutShort _ => some (some subject)
  | some _, _ => none

def attendAll? (test : Option Subject) (notices : List Notice) : Option (Option Subject) :=
  notices.foldlM attend? test

theorem attendAll?_append {test middle : Option Subject} {first second : List Notice}
    (here : attendAll? test first = some middle) :
    attendAll? test (first ++ second) = attendAll? middle second :=
  foldlM_append_of_eq_some here second

theorem attendAll?_cons (test : Option Subject) (notice : Notice) (rest : List Notice) :
    attendAll? test (notice :: rest) =
      (attend? test notice).bind fun next => attendAll? next rest := by
  rw [attendAll?, List.foldlM_cons]
  rfl

theorem attend?_marks {subject : Subject} {test : Option Subject} {notice : Notice}
    (about : notice.Marks subject) (near : test = none ∨ test = some subject) :
    attend? test notice = some test := by
  rcases near with rfl | rfl <;> cases notice <;>
    first | rfl | exact about.elim | simp_all [Notice.Marks, attend?]

theorem attendAll?_body {subject : Subject} {body : List Notice}
    (about : ∀ notice ∈ body, notice.Marks subject) :
    attendAll? none ([.testStarted subject] ++ body ++ [.testFinished subject]) = some none := by
  have inside : ∀ notices : List Notice, (∀ notice ∈ notices, notice.Marks subject) →
      attendAll? (some subject) (notices ++ [.testFinished subject]) = some none := by
    intro notices about
    induction notices with
    | nil => simp [attendAll?, attend?]
    | cons notice rest ih =>
        rw [List.cons_append, attendAll?_cons,
          attend?_marks (about notice (List.mem_cons_self ..)) (.inr rfl)]
        exact ih fun other member => about other (List.mem_cons_of_mem _ member)
  rw [List.append_assoc, List.singleton_append, attendAll?_cons]
  exact inside body about

def Stage.test (stage : Stage) : Option Subject :=
  stage.running.map Subject.leaf

theorem Stage.test_eq_none (idle : stage.running = none) : stage.test = none := by
  rw [test, idle]
  rfl

namespace Plan

theorem Moves.attend {base : List Scope} {written : List Notice} {final : Stage}
    (moves : plan.Moves base stage written final) :
    attendAll? stage.test written = some final.test := by
  induction moves with
  | done => rfl
  | opened scope idle _ _ ih =>
      simp only [Stage.test, idle, Option.map_none] at ih ⊢
      rw [attendAll?_cons]
      exact ih
  | closed _ scope idle _ _ _ _ ih =>
      simp only [Stage.test, idle, Option.map_none] at ih ⊢
      rw [attendAll?_cons]
      exact ih
  | condemned _ _ _ ih => exact ih
  | settled _ _ _ _ ih => exact ih
  | reported leaf cause idle _ _ _ _ ih =>
      simp only [Stage.test, Stage.mark, idle, Option.map_none] at ih ⊢
      have block := @attendAll?_body (.leaf leaf) [.testIgnored (.leaf leaf) cause]
        (by simp [Notice.Marks])
      exact (attendAll?_append block).trans ih
  | configured container body idle _ _ about _ ih =>
      simp only [Stage.test, idle, Option.map_none] at ih ⊢
      exact (attendAll?_append (attendAll?_body about)).trans ih
  | @marked stage _ _ leaf notice about near _ ih =>
      have here : attend? stage.test notice = some stage.test :=
        attend?_marks about (near.imp (by simp [Stage.test, ·]) (by simp [Stage.test, ·]))
      rw [attendAll?_cons, here]
      exact ih

theorem attend_apply {waiting later : List Held} {item : Held} {events : List Event}
    (sound : plan.SoundSession session) (orderly : plan.Orderly session events)
    (queue : session.held = waiting ++ item :: later)
    (blocked : ∀ other ∈ waiting, plan.isBlocked session.stage other = true)
    (free : plan.isBlocked session.stage item = false) :
    attendAll? session.stage.test (plan.apply item session.stage).2 =
      some (plan.apply item session.stage).1.test := by
  have known := sound.known item (by simp [queue])
  cases turns : plan.turns item with
  | false => exact (quiet_apply sound.stage known free turns).1.attend
  | true =>
      cases item with
      | skipped leaf cause => simp [Plan.turns] at turns
      | event node progress =>
          have leaf := isLeaf_of_turns known turns
          cases progress with
          | started =>
              have idle := orderly.idle_of_started leaf queue blocked free
              obtain ⟨middle, written, moves, _, result⟩ := apply_started sound.stage leaf free
              rw [result, attendAll?_append moves.attend,
                Stage.test_eq_none (moves.running.trans idle)]
              rfl
          | finished =>
              have busy := orderly.busy_of_finished leaf queue blocked free
              rw [apply_finished leaf free]
              simp [Stage.test, busy, attendAll?, attend?]
          | _ => simp [Plan.turns] at turns

theorem attend_opening (event : Event) (described : Bool) :
    attendAll? none (plan.opening event described) = some none := by
  cases event with
  | runFinished => rfl
  | node id progress => rfl
  | runStarted =>
      simp only [opening, preamble]
      cases plan.tree.rootName? plan.naming <;> split <;> rfl

theorem Course.attend {events : List Event} {written : List Notice} {final : Session}
    (course : plan.Course session events written final) (sound : plan.SoundSession session)
    (orderly : plan.Orderly session events) :
    attendAll? session.stage.test written = some final.stage.test := by
  induction course with
  | done => rfl
  | dropped node progress foreign _ ih => exact ih sound (orderly.dropped foreign)
  | received node progress known _ ih => exact ih (sound.received known) orderly.received
  | applied waiting item later queue blocked free _ ih =>
      have here := attend_apply sound orderly queue blocked free
      exact (attendAll?_append here).trans
        (ih (sound.advance queue free) (orderly.advance sound queue blocked free))
  | cut leaf ends busy settled _ ih =>
      have here : attendAll? (some (.leaf leaf)) [.cutShort leaf, .testFinished (.leaf leaf)] =
          some none := by
        simp [attendAll?, attend?]
      simp only [Stage.test, busy, Option.map_some]
      exact (attendAll?_append here).trans (ih (sound.cut busy) (orderly.cut ends busy settled))
  | left ends idle empty _ ih =>
      obtain ⟨_, ending, moves, _⟩ := leave_spec sound.stage idle
      have here := moves.attend
      rw [Stage.test_eq_none idle, Stage.test_eq_none (moves.running.trans idle)] at here
      rw [Stage.test_eq_none idle, List.append_assoc, attendAll?_append here,
        attendAll?_append (attend_opening ..)]
      exact ih (soundSession_fresh _) (orderly.left ends empty _)

end Plan

def IsMark (message : Message) : Prop :=
  message.name = "testFailed" ∨ message.name = "testIgnored"

inductive Piece : List Message → Prop
  | preamble {message : Message}
      (named : message.name = "enteredTheMatrix" ∨ message.name = "rootName") : Piece [message]
  | suite {message : Message}
      (named : message.name = "testSuiteStarted" ∨ message.name = "testSuiteFinished") :
      Piece [message]
  | bare {message : Message} (mark : IsMark message) : Piece [message]
  | test {started finished : Message} {body : List Message} (name : String)
      (starts : started.name = "testStarted") (marks : ∀ message ∈ body, IsMark message)
      (finishes : finished.name = "testFinished")
      (same : ∀ message ∈ started :: body ++ [finished], message.nameAttribute? = some name) :
      Piece (started :: body ++ [finished])

def InPieces (messages : List Message) : Prop :=
  ∃ pieces : List (List Message), messages = pieces.flatten ∧ ∀ piece ∈ pieces, Piece piece

theorem InPieces.cons {piece rest : List Message} (first : Piece piece) (later : InPieces rest) :
    InPieces (piece ++ rest) := by
  obtain ⟨pieces, rfl, each⟩ := later
  refine ⟨piece :: pieces, rfl, fun other member => ?_⟩
  rcases List.mem_cons.mp member with rfl | member
  · exact first
  · exact each other member

def InTest (name : String) (messages : List Message) : Prop :=
  ∃ body finished rest, messages = body ++ finished :: rest ∧
    (∀ message ∈ body, IsMark message ∧ message.nameAttribute? = some name) ∧
    finished.name = "testFinished" ∧ finished.nameAttribute? = some name ∧ InPieces rest

theorem InTest.marked {name : String} {message : Message} {rest : List Message}
    (mark : IsMark message) (same : message.nameAttribute? = some name)
    (later : InTest name rest) : InTest name (message :: rest) := by
  obtain ⟨body, finished, after, rfl, marks, finishes, ending, pieces⟩ := later
  refine ⟨message :: body, finished, after, rfl, fun other member => ?_, finishes, ending, pieces⟩
  rcases List.mem_cons.mp member with rfl | member
  · exact ⟨mark, same⟩
  · exact marks other member

theorem InTest.started {name : String} {message : Message} {rest : List Message}
    (starts : message.name = "testStarted") (same : message.nameAttribute? = some name)
    (later : InTest name rest) : InPieces (message :: rest) := by
  obtain ⟨body, finished, after, rfl, marks, finishes, ending, pieces⟩ := later
  have block : Piece (message :: body ++ [finished]) := by
    refine .test name starts (fun other member => (marks other member).1) finishes ?_
    intro other member
    simp only [List.cons_append, List.mem_cons, List.mem_append, List.not_mem_nil,
      or_false] at member
    rcases member with rfl | member | rfl
    · exact same
    · exact (marks other member).2
    · exact ending
  simpa using InPieces.cons block pieces

namespace Plan

theorem inPieces_or_inTest {notices : List Notice} :
    (attendAll? none notices = some none → InPieces (plan.messages notices)) ∧
      ∀ subject, attendAll? (some subject) notices = some none →
        InTest (plan.subjectName subject) (plan.messages notices) := by
  induction notices with
  | nil =>
      refine ⟨fun _ => ⟨[], rfl, by simp⟩, fun subject attended => ?_⟩
      simp [attendAll?] at attended
  | cons notice rest ih =>
      obtain ⟨outside, inside⟩ := ih
      refine ⟨fun attended => ?_, fun subject attended => ?_⟩
      · rw [attendAll?_cons] at attended
        cases notice with
        | announced => exact .cons (.preamble (.inl rfl)) (outside attended)
        | rootNamed root => exact .cons (.preamble (.inr rfl)) (outside attended)
        | suiteOpened scope => exact .cons (.suite (.inl rfl)) (outside attended)
        | suiteClosed scope => exact .cons (.suite (.inr rfl)) (outside attended)
        | testStarted subject => exact (inside subject attended).started rfl rfl
        | testFailed subject failure => exact .cons (.bare (.inl rfl)) (outside attended)
        | testIgnored subject cause => exact .cons (.bare (.inr rfl)) (outside attended)
        | testFinished subject => simp [attend?] at attended
        | cutShort leaf => exact outside attended
      · obtain ⟨next, step, attended⟩ := foldlM_cons_eq_some attended
        cases notice with
        | testFailed other failure =>
            simp only [attend?, Option.ite_none_right_eq_some, Option.some.injEq] at step
            obtain ⟨rfl, rfl⟩ := step
            exact .marked (.inl rfl) rfl (inside other attended)
        | testIgnored other cause =>
            simp only [attend?, Option.ite_none_right_eq_some, Option.some.injEq] at step
            obtain ⟨rfl, rfl⟩ := step
            exact .marked (.inr rfl) rfl (inside other attended)
        | testFinished other =>
            simp only [attend?, Option.ite_none_right_eq_some, Option.some.injEq] at step
            obtain ⟨rfl, rfl⟩ := step
            exact ⟨[], _, _, rfl, by simp, rfl, rfl, outside attended⟩
        | cutShort leaf =>
            simp only [attend?, Option.some.injEq] at step
            subst step
            exact inside subject attended
        | _ => simp [attend?] at step

def brackets (plan : Plan) (test : Option Subject) (suites : List Scope) :
    List (Bracket × String) :=
  (test.map fun subject => (Bracket.test, plan.subjectName subject)).toList ++
    (suites.map fun scope => (Bracket.suite, plan.scopeName scope)).reverse

theorem brackets_opened (suites : List Scope) (scope : Scope) :
    plan.brackets none (suites ++ [scope]) =
      (.suite, plan.scopeName scope) :: plan.brackets none suites := by
  simp [brackets]

theorem brackets_started (subject : Subject) (suites : List Scope) :
    plan.brackets (some subject) suites =
      (.test, plan.subjectName subject) :: plan.brackets none suites :=
  rfl

theorem test_eq_none_of_attend? {test next : Option Subject} {notice : Notice}
    (attend : attend? test notice = some next)
    (outside : ∀ subject, attend? (some subject) notice = none) : test = none := by
  cases test with
  | none => rfl
  | some subject => simp [outside subject] at attend

theorem next_eq_of_mark {test next : Option Subject} {subject : Subject} {notice : Notice}
    (attend : attend? test notice = some next) (about : notice.Marks subject) : next = test := by
  cases test <;> cases notice <;> first | exact about.elim | skip
  all_goals
    simp only [attend?, Option.ite_none_right_eq_some, Option.some.injEq] at attend
    simp_all

theorem checkFrom_notice {notice : Notice} {test next : Option Subject} {suites after : List Scope}
    (attend : attend? test notice = some next) (follow : plan.follow? suites notice = some after)
    (index : Nat) (summary : NestingSummary) (rest : List Message) :
    ∃ position counted,
      checkFrom index (plan.brackets test suites) summary ((plan.message? notice).toList ++ rest) =
        checkFrom position (plan.brackets next after) counted rest := by
  cases notice with
  | suiteOpened scope =>
      obtain rfl := test_eq_none_of_attend? attend fun _ => rfl
      simp only [attend?, follow?, Option.some.injEq] at attend follow
      subst attend follow
      rw [brackets_opened]
      exact ⟨index + 1, summary.count .suite, checkFrom_opening rfl rfl⟩
  | suiteClosed scope =>
      obtain rfl := test_eq_none_of_attend? attend fun _ => rfl
      simp only [attend?, follow?, Option.ite_none_right_eq_some, Option.some.injEq]
        at attend follow
      obtain ⟨top, rfl⟩ := follow
      obtain ⟨outer, rfl⟩ := List.getLast?_eq_some_iff.mp top
      subst attend
      rw [brackets_opened, List.dropLast_concat]
      exact ⟨index + 1, summary, checkFrom_closing rfl rfl⟩
  | testStarted subject =>
      obtain rfl := test_eq_none_of_attend? attend fun _ => rfl
      simp only [attend?, follow?, Option.ite_none_right_eq_some, Option.some.injEq]
        at attend follow
      obtain ⟨_, rfl⟩ := follow
      subst attend
      rw [brackets_started]
      exact ⟨index + 1, summary.count .test, checkFrom_opening rfl rfl⟩
  | testFinished subject =>
      simp only [follow?, Option.some.injEq] at follow
      subst follow
      cases test with
      | none => simp [attend?] at attend
      | some other =>
          simp only [attend?, Option.ite_none_right_eq_some, Option.some.injEq] at attend
          obtain ⟨rfl, rfl⟩ := attend
          rw [brackets_started]
          exact ⟨index + 1, summary, checkFrom_closing rfl rfl⟩
  | cutShort leaf =>
      have same : next = test := by
        cases test <;> simpa [attend?] using attend.symm
      simp only [follow?, Option.some.injEq] at follow
      subst follow same
      exact ⟨index, summary, rfl⟩
  | announced =>
      obtain rfl := test_eq_none_of_attend? attend fun _ => rfl
      simp only [attend?, follow?, Option.some.injEq] at attend follow
      subst attend follow
      exact ⟨index + 1, summary, checkFrom_other rfl⟩
  | rootNamed root =>
      obtain rfl := test_eq_none_of_attend? attend fun _ => rfl
      simp only [attend?, follow?, Option.some.injEq] at attend follow
      subst attend follow
      exact ⟨index + 1, summary, checkFrom_other rfl⟩
  | testFailed subject failure =>
      obtain rfl := @next_eq_of_mark _ _ subject _ attend rfl
      simp only [follow?, Option.some.injEq] at follow
      subst follow
      exact ⟨index + 1, summary, checkFrom_other rfl⟩
  | testIgnored subject cause =>
      obtain rfl := @next_eq_of_mark _ _ subject _ attend rfl
      simp only [follow?, Option.some.injEq] at follow
      subst follow
      exact ⟨index + 1, summary, checkFrom_other rfl⟩

theorem exists_checkFrom_eq_ok {notices : List Notice} {test : Option Subject}
    {suites : List Scope} (attended : attendAll? test notices = some none)
    (followed : plan.followAll? suites notices = some []) (index : Nat)
    (summary : NestingSummary) :
    ∃ counted, checkFrom index (plan.brackets test suites) summary (plan.messages notices) =
      .ok counted := by
  induction notices generalizing test suites index summary with
  | nil =>
      simp only [attendAll?, followAll?, List.foldlM_nil, Option.pure_def,
        Option.some.injEq] at attended followed
      subst attended followed
      exact ⟨summary, rfl⟩
  | cons notice rest ih =>
      obtain ⟨next, attend, attended⟩ := foldlM_cons_eq_some attended
      obtain ⟨after, follow, followed⟩ := followAll?_cons_eq_some followed
      obtain ⟨position, counted, step⟩ :=
        checkFrom_notice attend follow index summary (plan.messages rest)
      rw [messages_cons, step]
      exact ih attended followed position counted

theorem Orderly.fresh {events : List Event}
    (alternate : ∀ leaf, plan.tree.isLeaf leaf = true → Alternates leaf events)
    (described : Bool) : plan.Orderly { described } (events ++ [.runFinished]) := by
  intro leaf known
  obtain ⟨busy, reached⟩ := Option.isSome_iff_exists.mp (alternate leaf known)
  have whole : busyAfter? leaf false (events ++ [.runFinished]) = some false := by
    rw [busyAfter?] at reached ⊢
    rw [List.foldlM_append, reached]
    rfl
  simp [Session.pending, whole]

theorem output_in_pieces (plan : Plan) (events : List Event) (described : Bool)
    (alternate : ∀ leaf, plan.tree.isLeaf leaf = true → Alternates leaf events) :
    let output := plan.messages (plan.handleAll (events ++ [.runFinished]) { described }).2
    InPieces output ∧ ∃ summary, checkNesting output = .ok summary := by
  have sound := @soundSession_fresh plan described
  have course := handleAll_course (events ++ [.runFinished]) _ sound
  have followed := course.follow sound
  have attended := course.attend sound (.fresh alternate described)
  rw [handleAll_finished events sound] at followed attended
  exact ⟨inPieces_or_inTest.1 attended, exists_checkFrom_eq_ok attended followed 0 {}⟩

def suiteOfTwo : Plan where
  tree := ((Tree.single (.container "all")).addAll
    [(0, .container "a.Suite"), (1, .leaf "a.Suite" "first"), (1, .leaf "a.Suite" "second")]).1

theorem parallel_output_in_pieces :
    let output := suiteOfTwo.messages (suiteOfTwo.handleAll
      ([.runStarted, .node 2 .started, .node 3 .started, .node 1 (.ignored none),
        .node 3 (.failed [{ message := "no" }]), .node 2 .finished] ++ [.runFinished]) {}).2
    InPieces output ∧ ∃ summary, checkNesting output = .ok summary := by
  refine output_in_pieces suiteOfTwo _ false fun leaf _ => ?_
  by_cases first : leaf = 2
  · subst first
    rfl
  · by_cases second : leaf = 3
    · subst second
      rfl
    · simp [Alternates, busyAfter?, turn?, Ne.symm first, Ne.symm second]

end Plan

end RunStream
