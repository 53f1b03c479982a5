import RunStream.Proofs.Live.Restarts
import RunStream.Proofs.Live.TestBlocks

set_option autoImplicit false

namespace RunStream

open Wire

variable {plan : Plan} {stage : Stage} {session : Session}

def reopen? : Option Subject × Nat → Notice → Option (Option Subject × Nat)
  | (some subject, again), .testStarted other =>
      if other = subject then some (some subject, again + 1) else none
  | (test, again), notice => (attend? test notice).map (·, again)

def reopenAll? (start : Option Subject × Nat) (notices : List Notice) :
    Option (Option Subject × Nat) :=
  notices.foldlM reopen? start

theorem reopenAll?_append {start middle : Option Subject × Nat} {first second : List Notice}
    (here : reopenAll? start first = some middle) :
    reopenAll? start (first ++ second) = reopenAll? middle second :=
  foldlM_append_of_eq_some here second

theorem reopen?_of_attend? {test next : Option Subject} {notice : Notice}
    (attend : attend? test notice = some next) (again : Nat) :
    reopen? (test, again) notice = some (next, again) := by
  cases test <;> cases notice <;> simp_all [reopen?, attend?]

theorem reopen?_cases {test next : Option Subject} {again total : Nat} {notice : Notice}
    (step : reopen? (test, again) notice = some (next, total)) :
    (∃ subject, notice = .testStarted subject ∧ test = some subject ∧ next = some subject ∧
      total = again + 1) ∨ attend? test notice = some next ∧ total = again := by
  have attended (same : (attend? test notice).map (·, again) = some (next, total)) :
      attend? test notice = some next ∧ total = again := by
    obtain ⟨_, attend, pair⟩ := Option.map_eq_some_iff.mp same
    obtain ⟨rfl, rfl⟩ := Prod.mk.inj pair
    exact ⟨attend, rfl⟩
  cases test with
  | none => exact .inr (attended step)
  | some subject =>
      cases notice with
      | testStarted other =>
          simp only [reopen?, Option.ite_none_right_eq_some, Option.some.injEq,
            Prod.mk.injEq] at step
          obtain ⟨rfl, rfl, rfl⟩ := step
          exact .inl ⟨other, rfl, rfl, rfl, rfl⟩
      | _ => exact .inr (attended step)

theorem reopenAll?_of_attendAll? {test next : Option Subject} {notices : List Notice}
    (attended : attendAll? test notices = some next) (again : Nat) :
    reopenAll? (test, again) notices = some (next, again) := by
  induction notices generalizing test with
  | nil => simpa [attendAll?, reopenAll?] using attended
  | cons notice rest ih =>
      obtain ⟨middle, step, later⟩ := foldlM_cons_eq_some attended
      rw [reopenAll?, List.foldlM_cons, reopen?_of_attend? step]
      exact ih later

def closesTest (message : Message) : Bool :=
  decide (message.name = "testFinished")

namespace Plan

theorem attend?_counts (plan : Plan) {test next : Option Subject} {notice : Notice}
    (attend : attend? test notice = some next) :
    test.isSome.toNat + (plan.message? notice).toList.countP opensTest =
      next.isSome.toNat + (plan.message? notice).toList.countP closesTest := by
  cases notice with
  | testStarted subject =>
      obtain rfl := test_eq_none_of_attend? attend fun _ => rfl
      simp only [attend?, Option.some.injEq] at attend
      subst attend
      rfl
  | testFinished subject =>
      cases test with
      | none => simp [attend?] at attend
      | some other =>
          simp only [attend?, Option.ite_none_right_eq_some, Option.some.injEq] at attend
          obtain ⟨_, rfl⟩ := attend
          rfl
  | _ =>
      have same : next = test := by cases test <;> simp_all [attend?]
      simp [same, message?, RootName.message, opensTest, closesTest]

theorem reopen?_counts (plan : Plan) {test next : Option Subject} {again total : Nat}
    {notice : Notice}
    (step : reopen? (test, again) notice = some (next, total)) :
    again ≤ total ∧
      test.isSome.toNat + again + (plan.message? notice).toList.countP opensTest =
        next.isSome.toNat + total + (plan.message? notice).toList.countP closesTest := by
  rcases reopen?_cases step with ⟨subject, rfl, rfl, rfl, rfl⟩ | ⟨attend, rfl⟩
  · simp [message?, opensTest, closesTest]
    omega
  · have counts := attend?_counts plan attend
    omega

theorem reopenAll?_counts (plan : Plan) {test next : Option Subject} {again total : Nat}
    {notices : List Notice}
    (followed : reopenAll? (test, again) notices = some (next, total)) :
    again ≤ total ∧
      test.isSome.toNat + again + (plan.messages notices).countP opensTest =
        next.isSome.toNat + total + (plan.messages notices).countP closesTest := by
  induction notices generalizing test again with
  | nil =>
      simp only [reopenAll?, List.foldlM_nil, Option.pure_def, Option.some.injEq,
        Prod.mk.injEq] at followed
      obtain ⟨rfl, rfl⟩ := followed
      exact ⟨Nat.le_refl _, rfl⟩
  | cons notice rest ih =>
      obtain ⟨⟨middle, between⟩, step, later⟩ := foldlM_cons_eq_some followed
      have here := reopen?_counts plan step
      have there := ih later
      rw [messages_cons, List.countP_append, List.countP_append]
      omega

theorem reopenAll?_total {count : Nat} {notices : List Notice}
    (followed : reopenAll? (none, 0) notices = some (none, count)) :
    (plan.messages notices).countP opensTest =
      (plan.messages notices).countP closesTest + count := by
  have counts := (reopenAll?_counts plan followed).2
  simp only [Option.isSome_none, Bool.toNat_false] at counts
  omega

theorem reopenAll?_early {count : Nat} {test : Option Subject} {notices : List Notice}
    (followed : reopenAll? (none, 0) notices = some (test, count)) {before : List Message}
    (early : before <+: plan.messages notices) :
    before.countP closesTest ≤ before.countP opensTest ∧
      before.countP opensTest ≤ before.countP closesTest + 1 + count := by
  obtain ⟨after, whole⟩ := early
  obtain ⟨first, second, rfl, rfl, rfl⟩ := List.filterMap_eq_append_iff.mp whole.symm
  rw [reopenAll?, List.foldlM_append] at followed
  obtain ⟨⟨middle, again⟩, here, there⟩ := Option.bind_eq_some_iff.mp followed
  have counts := (reopenAll?_counts plan here).2
  have bound := (reopenAll?_counts plan there).1
  have most := Bool.toNat_le middle.isSome
  simp only [Option.isSome_none, Bool.toNat_false, messages] at counts ⊢
  omega

def Reopens (before : Stage) (written : List Notice) (after : Stage) (again : Nat) : Prop :=
  ∀ already, reopenAll? (before.test, already) written = some (after.test, already + again)

theorem Reopens.of_attend {before after : Stage} {written : List Notice}
    (attended : attendAll? before.test written = some after.test) :
    Reopens before written after 0 :=
  reopenAll?_of_attendAll? attended

theorem Reopens.trans {before middle after : Stage} {first second : List Notice}
    {again more : Nat} (left : Reopens before first middle again)
    (right : Reopens middle second after more) :
    Reopens before (first ++ second) after (again + more) := by
  intro already
  rw [reopenAll?_append (left already), right, Nat.add_assoc]

theorem Reopens.after_attend {before middle after : Stage} {first second : List Notice}
    {again : Nat} (attended : attendAll? before.test first = some middle.test)
    (later : Reopens middle second after again) :
    Reopens before (first ++ second) after again :=
  Nat.zero_add again ▸ (Reopens.of_attend attended).trans later

theorem reopens_started {leaf : NodeId} (sound : plan.Sound stage)
    (known : plan.tree.isLeaf leaf = true)
    (free : plan.isBlocked stage (.event leaf .started) = false) :
    Reopens stage (plan.apply (.event leaf .started) stage).2
      (plan.apply (.event leaf .started) stage).1 (stage.busy leaf).toNat := by
  obtain ⟨middle, written, moves, _, result⟩ := apply_started sound known free
  rw [result]
  refine .after_attend moves.attend fun already => ?_
  rcases near_of_free rfl free with idle | running
  · simp [reopenAll?, reopen?, attend?, Stage.test, Stage.busy, moves.running, idle]
  · simp [reopenAll?, reopen?, Stage.test, Stage.busy, moves.running, running]

theorem Restarts.applied {waiting later : List Held} {item : Held} {events : List Event}
    {count : Nat} (restarts : plan.Restarts session events count)
    (sound : plan.SoundSession session) (queue : session.held = waiting ++ item :: later)
    (blocked : ∀ other ∈ waiting, plan.isBlocked session.stage other = true)
    (free : plan.isBlocked session.stage item = false) :
    ∃ again left, count = again + left ∧
      plan.Restarts (plan.advance session waiting item later) events left ∧
      Reopens session.stage (plan.apply item session.stage).2
        (plan.apply item session.stage).1 again := by
  have known := sound.known item (by simp [queue])
  cases turns : plan.turns item with
  | false =>
      have moves := (quiet_apply sound.stage known free turns).1
      exact ⟨0, count, (Nat.zero_add count).symm, restarts.quiet turns queue moves.running,
        .of_attend moves.attend⟩
  | true =>
      cases item with
      | skipped leaf cause => simp [Plan.turns] at turns
      | event node progress =>
          have leaf := isLeaf_of_turns known turns
          cases progress with
          | started =>
              obtain ⟨left, total, after⟩ := restarts.started sound.stage leaf queue blocked free
              exact ⟨_, left, total, after, reopens_started sound.stage leaf free⟩
          | finished =>
              obtain ⟨running, after⟩ := restarts.finished leaf queue blocked free
              refine ⟨0, count, (Nat.zero_add count).symm, after, .of_attend ?_⟩
              rw [apply_finished leaf free]
              simp [Stage.test, running, attendAll?, attend?]
          | _ => simp [Plan.turns] at turns

theorem Course.reopens {events : List Event} {written : List Notice} {final : Session}
    {count : Nat} (course : plan.Course session events written final)
    (sound : plan.SoundSession session) (restarts : plan.Restarts session events count) :
    ∃ again left, count = again + left ∧ plan.Restarts final [] left ∧
      Reopens session.stage written final.stage again := by
  induction course generalizing count with
  | done => exact ⟨0, count, (Nat.zero_add count).symm, restarts, .of_attend rfl⟩
  | dropped node progress foreign _ ih => exact ih sound (restarts.dropped foreign)
  | received node progress known _ ih => exact ih (sound.received known) restarts.received
  | applied waiting item later queue blocked free _ ih =>
      obtain ⟨here, rest, rfl, restarts, first⟩ := restarts.applied sound queue blocked free
      obtain ⟨there, left, rfl, final, second⟩ := ih (sound.advance queue free) restarts
      exact ⟨here + there, left, (Nat.add_assoc ..).symm, final, first.trans second⟩
  | cut leaf ends running settled _ ih =>
      obtain ⟨again, left, total, final, later⟩ :=
        ih (sound.cut running) (restarts.cut ends running settled)
      refine ⟨again, left, total, final, .after_attend ?_ later⟩
      simp [Stage.test, running, attendAll?, attend?]
  | left ends idle empty _ ih =>
      obtain ⟨_, ending, moves, _⟩ := leave_spec sound.stage idle
      obtain ⟨again, left, total, final, later⟩ :=
        ih (soundSession_fresh _) (restarts.left ends empty _)
      have here := moves.attend
      rw [Stage.test_eq_none (moves.running.trans idle)] at here
      refine ⟨again, left, total, final, .after_attend ?_ later⟩
      exact (attendAll?_append here).trans (attend_opening ..)

end Plan

structure OneAtATime (messages : List Message) : Prop where
  throughout : ∀ before, before <+: messages →
    before.countP closesTest ≤ before.countP opensTest ∧
      before.countP opensTest ≤ before.countP closesTest + 1
  afterwards : messages.countP opensTest = messages.countP closesTest

namespace Plan

theorem handleAll_reopens (plan : Plan) (events : List Event) (described : Bool) {count : Nat}
    (counted : plan.restarts? events = some count) :
    reopenAll? (none, 0) (plan.handleAll (events ++ [.runFinished]) { described }).2 =
      some (none, count) := by
  have sound := @soundSession_fresh plan described
  have course := handleAll_course (events ++ [.runFinished]) _ sound
  have restarts : plan.Restarts { described } (events ++ [.runFinished]) count :=
    (restarts?_runFinished events).trans counted
  obtain ⟨again, left, rfl, final, reopens⟩ := course.reopens sound restarts
  rw [handleAll_finished events sound] at final reopens
  obtain rfl : 0 = left := Option.some.inj final
  simpa [Stage.test] using reopens 0

theorem one_at_a_time_iff (plan : Plan) (events : List Event) (described : Bool) (count : Nat)
    (counted : plan.restarts? events = some count) :
    let output := plan.messages (plan.handleAll (events ++ [.runFinished]) { described }).2
    (OneAtATime output ↔ count = 0) ∧
      output.countP opensTest = output.countP closesTest + count ∧
      ∀ before, before <+: output →
        before.countP closesTest ≤ before.countP opensTest ∧
          before.countP opensTest ≤ before.countP closesTest + 1 + count := by
  intro output
  have followed := plan.handleAll_reopens events described counted
  have early : ∀ before, before <+: output →
      before.countP closesTest ≤ before.countP opensTest ∧
        before.countP opensTest ≤ before.countP closesTest + 1 + count :=
    fun before => reopenAll?_early followed
  have total : output.countP opensTest = output.countP closesTest + count :=
    reopenAll?_total followed
  refine ⟨⟨fun single => ?_, fun never => ?_⟩, total, early⟩
  · have even := single.afterwards
    omega
  · subst never
    exact ⟨early, total⟩

theorem retried_test_stays_open :
    let events : List Event := [.runStarted, .node 2 .started, .node 3 .started, .node 2 .started,
      .node 2 (.failed [{ message := "no" }]), .node 2 .finished]
    let output := suiteOfTwo.messages (suiteOfTwo.handleAll (events ++ [.runFinished]) {}).2
    suiteOfTwo.restarts? events = some 1 ∧ ¬ OneAtATime output ∧
      output.countP opensTest = output.countP closesTest + 1 := by
  intro events output
  have counted : suiteOfTwo.restarts? events = some 1 := by decide +kernel
  obtain ⟨single, total, _⟩ := one_at_a_time_iff suiteOfTwo events false 1 counted
  exact ⟨counted, fun holds => Nat.one_ne_zero (single.mp holds), total⟩

theorem lost_finish_leaves_test_open :
    let lone : Plan := { tree := Tree.single (.leaf "A" "t") }
    let events : List Event := [.node 0 .started, .node 0 .started]
    (lone.restarts? events).isSome = true ∧
      ¬ OneAtATime (lone.messages (lone.handleAll (events ++ [.runFinished]) {}).2) := by
  refine ⟨by decide +kernel, fun single => absurd single.afterwards ?_⟩
  decide +kernel

end Plan

end RunStream
