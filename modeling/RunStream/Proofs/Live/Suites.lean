import RunStream.Proofs.Live.Course
import RunStream.Proofs.Live.Messages
import RunStream.Proofs.Wire.Enclosing

set_option autoImplicit false

namespace RunStream

open Wire

variable {plan : Plan} {stage : Stage} {session : Session}

namespace Plan

def follow? (plan : Plan) (suites : List Scope) : Notice → Option (List Scope)
  | .suiteOpened scope => some (suites ++ [scope])
  | .suiteClosed scope => if suites.getLast? = some scope then some suites.dropLast else none
  | .testStarted subject =>
      if plan.knows subject ∧ suites = plan.home subject then some suites else none
  | _ => some suites

def followAll? (plan : Plan) (suites : List Scope) (notices : List Notice) : Option (List Scope) :=
  notices.foldlM plan.follow? suites

theorem followAll?_append {suites middle : List Scope} {first second : List Notice}
    (here : plan.followAll? suites first = some middle) :
    plan.followAll? suites (first ++ second) = plan.followAll? middle second :=
  foldlM_append_of_eq_some here second

theorem followAll?_cons_eq_some {suites final : List Scope} {notice : Notice} {rest : List Notice}
    (whole : plan.followAll? suites (notice :: rest) = some final) :
    ∃ middle, plan.follow? suites notice = some middle ∧
      plan.followAll? middle rest = some final :=
  foldlM_cons_eq_some whole

theorem follow?_started {subject : Subject} {suites : List Scope}
    (known : plan.knows subject = true) (home : suites = plan.home subject) :
    plan.follow? suites (.testStarted subject) = some suites := by
  simp [follow?, known, home]

theorem followAll?_unchanged {suites : List Scope} {notices : List Notice}
    (each : ∀ notice ∈ notices, plan.follow? suites notice = some suites) :
    plan.followAll? suites notices = some suites := by
  induction notices with
  | nil => rfl
  | cons notice rest ih =>
      have here := each notice (List.mem_cons_self ..)
      simp only [followAll?, List.foldlM_cons, here, Option.bind_some, Option.bind_eq_bind]
      exact ih fun other member => each other (List.mem_cons_of_mem _ member)

theorem follow?_marks {subject : Subject} {suites : List Scope} {notice : Notice}
    (about : notice.Marks subject) : plan.follow? suites notice = some suites := by
  cases notice <;> first | rfl | exact about.elim

theorem follow?_reported {leaf : NodeId} {suites : List Scope} (cause : Cause)
    (known : plan.tree.isLeaf leaf = true) (home : suites = plan.leafScopes leaf) :
    ∀ notice ∈ [.testStarted (.leaf leaf), .testIgnored (.leaf leaf) cause,
      .testFinished (.leaf leaf)], plan.follow? suites notice = some suites := by
  intro notice member
  rcases List.mem_cons.mp member with rfl | member
  · exact follow?_started known home
  · rcases List.mem_cons.mp member with rfl | member
    · rfl
    · rw [List.mem_singleton.mp member]
      rfl

theorem follow?_configured {container : NodeId} {body : List Notice} {suites : List Scope}
    (known : plan.tree.isContainer container = true)
    (home : suites = plan.containerScopes container)
    (about : ∀ notice ∈ body, notice.Marks (.configuration container)) :
    ∀ notice ∈ [.testStarted (.configuration container)] ++ body ++
      [.testFinished (.configuration container)], plan.follow? suites notice = some suites := by
  intro notice member
  rcases List.mem_append.mp member with member | member
  · rcases List.mem_cons.mp member with rfl | member
    · exact follow?_started known home
    · exact follow?_marks (about notice member)
  · rw [List.mem_singleton.mp member]
    rfl

theorem Moves.follow {base : List Scope} {written : List Notice} {final : Stage}
    (moves : plan.Moves base stage written final) :
    plan.followAll? stage.suites written = some final.suites := by
  induction moves with
  | done => rfl
  | opened scope _ _ _ ih => simpa [followAll?, follow?] using ih
  | closed outer scope _ top _ _ _ ih => simpa [followAll?, follow?, top] using ih
  | condemned _ _ _ ih => exact ih
  | settled _ _ _ _ ih => exact ih
  | reported leaf cause _ known _ home _ ih =>
      exact (followAll?_append (followAll?_unchanged (follow?_reported cause known home))).trans ih
  | configured container body _ known home about _ ih =>
      have unchanged := followAll?_unchanged (follow?_configured known home about)
      exact (followAll?_append unchanged).trans ih
  | marked leaf notice about _ _ ih =>
      simpa [followAll?, follow?_marks about] using ih

theorem follow_apply {item : Held} (sound : plan.Sound stage)
    (known : plan.knowsHeld item = true) (free : plan.isBlocked stage item = false) :
    plan.followAll? stage.suites (plan.apply item stage).2 =
      some (plan.apply item stage).1.suites := by
  cases turns : plan.turns item with
  | false => exact (quiet_apply sound known free turns).1.follow
  | true =>
      cases item with
      | skipped leaf cause => simp [Plan.turns] at turns
      | event node progress =>
          have leaf := isLeaf_of_turns known turns
          cases progress with
          | started =>
              obtain ⟨middle, written, moves, home, result⟩ := apply_started sound leaf free
              rw [result, followAll?_append moves.follow]
              have known : plan.knows (.leaf node) = true := leaf
              exact followAll?_unchanged (by simpa using follow?_started known home)
          | finished =>
              rw [apply_finished leaf free]
              rfl
          | _ => simp [Plan.turns] at turns

theorem follow_opening (event : Event) (described : Bool) (suites : List Scope) :
    plan.followAll? suites (plan.opening event described) = some suites := by
  refine followAll?_unchanged fun notice member => ?_
  cases event with
  | runFinished => simp [opening] at member
  | node id progress => simp [opening] at member
  | runStarted =>
      rcases List.mem_append.mp member with announced | named
      · split at announced
        · rw [List.mem_singleton.mp announced]
          rfl
        · simp at announced
      · obtain ⟨root, _, rfl⟩ := List.mem_map.mp (Option.toList_map .. ▸ named)
        rfl

theorem Course.follow {events : List Event} {written : List Notice} {final : Session}
    (course : plan.Course session events written final) (sound : plan.SoundSession session) :
    plan.followAll? session.stage.suites written = some final.stage.suites := by
  induction course with
  | done => rfl
  | dropped _ _ _ _ ih => exact ih sound
  | received node progress known _ ih => exact ih (sound.received known)
  | applied waiting item later queue blocked free _ ih =>
      have here := follow_apply sound.stage (sound.known item (by simp [queue])) free
      exact (followAll?_append here).trans (ih (sound.advance queue free))
  | cut leaf _ busy _ _ ih => exact ih (sound.cut busy)
  | left _ idle _ _ ih =>
      obtain ⟨_, ending, moves, closed⟩ := leave_spec sound.stage idle
      have here := moves.follow
      rw [closed] at here
      rw [List.append_assoc, followAll?_append here, followAll?_append (follow_opening ..)]
      exact ih (soundSession_fresh _)

-- What is written so far opens and closes suites as the stage does, whatever follows.
theorem followAll?_of_append {suites final : List Scope} {first second : List Notice}
    (whole : plan.followAll? suites (first ++ second) = some final) :
    ∃ middle, plan.followAll? suites first = some middle ∧
      plan.followAll? middle second = some final := by
  unfold followAll? at whole ⊢
  rw [List.foldlM_append] at whole
  exact Option.bind_eq_some_iff.mp whole

theorem home_of_follow? {subject : Subject} {suites final : List Scope} {after : List Notice}
    (followed : plan.followAll? suites (.testStarted subject :: after) = some final) :
    plan.knows subject = true ∧ suites = plan.home subject := by
  obtain ⟨middle, step, _⟩ := followAll?_cons_eq_some followed
  by_cases inPlace : plan.knows subject ∧ suites = plan.home subject
  · exact inPlace
  · simp [follow?, inPlace] at step

def scopePair (plan : Plan) (scope : Scope) : String × String :=
  (plan.scopeName scope, plan.scopeLocation scope)

theorem suitesAfter?_message {suites final : List Scope} {notice : Notice}
    (followed : plan.follow? suites notice = some final) :
    suitesAfter? "testSuiteStarted" "testSuiteFinished" (suites.map plan.scopePair)
      (plan.message? notice).toList = some (final.map plan.scopePair) := by
  cases notice with
  | suiteOpened scope =>
      simp only [follow?, Option.some.injEq] at followed
      subst followed
      have opened := @trackSuites?_open "testSuiteStarted" "testSuiteFinished"
        (suites.map plan.scopePair)
        ⟨"testSuiteStarted",
          [("name", plan.scopeName scope), ("locationHint", plan.scopeLocation scope)]⟩
        _ _ rfl rfl rfl
      simpa [suitesAfter?, message?, scopePair] using opened
  | suiteClosed scope =>
      simp only [follow?, Option.ite_none_right_eq_some, Option.some.injEq] at followed
      obtain ⟨top, rfl⟩ := followed
      obtain ⟨outer, rfl⟩ := List.getLast?_eq_some_iff.mp top
      have closed := @trackSuites?_close "testSuiteStarted" "testSuiteFinished"
        (outer.map plan.scopePair) ⟨"testSuiteFinished", [("name", plan.scopeName scope)]⟩ _
        (plan.scopeLocation scope) (by decide) rfl rfl
      simpa [suitesAfter?, message?, scopePair] using closed
  | testStarted subject =>
      simp only [follow?, Option.ite_none_right_eq_some, Option.some.injEq] at followed
      obtain ⟨_, rfl⟩ := followed
      simp [suitesAfter?, message?, trackSuites?]
  | cutShort leaf =>
      simp only [follow?, Option.some.injEq] at followed
      exact followed ▸ rfl
  | _ =>
      simp only [follow?, Option.some.injEq] at followed
      subst followed
      simp [suitesAfter?, message?, trackSuites?, RootName.message]

theorem suitesAfter?_messages {suites final : List Scope} {notices : List Notice}
    (followed : plan.followAll? suites notices = some final) :
    suitesAfter? "testSuiteStarted" "testSuiteFinished" (suites.map plan.scopePair)
      (plan.messages notices) = some (final.map plan.scopePair) := by
  induction notices generalizing suites with
  | nil =>
      simp only [followAll?, List.foldlM_nil, Option.pure_def, Option.some.injEq] at followed
      rw [← followed]
      rfl
  | cons notice rest ih =>
      obtain ⟨middle, step, later⟩ := followAll?_cons_eq_some followed
      rw [messages_cons]
      exact (foldlM_append_of_eq_some (suitesAfter?_message step) _).trans (ih later)

end Plan

end RunStream
