import Mathlib.Data.List.Nodup
import RunStream.Proofs.Live.Consistency
import RunStream.Proofs.Live.Suites

set_option autoImplicit false

namespace RunStream

variable {plan : Plan} {kept : List Scope} {stage : Stage} {session : Session}

namespace Plan

theorem Placed.nodup {suites : List Scope} (placed : plan.Placed suites) : suites.Nodup := by
  rcases placed.shaped with rfl | ⟨className, rfl⟩ | ⟨ids, rfl, once, _⟩
  · exact List.nodup_nil
  · exact List.nodup_singleton _
  · exact once.map fun _ _ same => Scope.container.inj same

theorem Placed.innermost_not_mem {outer : List Scope} {scope : Scope}
    (placed : plan.Placed (outer ++ [scope])) (within : kept <+: outer) : scope ∉ kept := by
  intro member
  have apart := (List.nodup_append.mp placed.nodup).2.2 scope (within.subset member) scope
    (List.mem_singleton_self scope)
  exact apart rfl

def KeepsOpen (plan : Plan) (kept suites : List Scope) (written : List Notice) : Prop :=
  ∀ before, before <+: written →
    ∃ now, plan.followAll? suites before = some now ∧ kept <+: now

theorem keepsOpen_nil {suites : List Scope} (within : kept <+: suites) :
    plan.KeepsOpen kept suites [] := by
  intro before start
  rw [List.prefix_nil.mp start]
  exact ⟨suites, rfl, within⟩

theorem KeepsOpen.cons {suites next : List Scope} {notice : Notice} {rest : List Notice}
    (later : plan.KeepsOpen kept next rest) (within : kept <+: suites)
    (step : plan.follow? suites notice = some next) :
    plan.KeepsOpen kept suites (notice :: rest) := by
  intro before start
  rcases List.prefix_cons_iff.mp start with rfl | ⟨more, rfl, inRest⟩
  · exact ⟨suites, rfl, within⟩
  · obtain ⟨now, here, inNow⟩ := later more inRest
    exact ⟨now, by simpa [followAll?, step] using here, inNow⟩

theorem KeepsOpen.unchanged {suites : List Scope} {front rest : List Notice}
    (later : plan.KeepsOpen kept suites rest) (within : kept <+: suites)
    (each : ∀ notice ∈ front, plan.follow? suites notice = some suites) :
    plan.KeepsOpen kept suites (front ++ rest) := by
  induction front with
  | nil => exact later
  | cons notice front ih =>
      exact (ih fun other member => each other (List.mem_cons_of_mem _ member)).cons within
        (each notice (List.mem_cons_self ..))

theorem Moves.keepsOpen {final : Stage} {written : List Notice}
    (moves : plan.Moves kept stage written final) (within : kept <+: stage.suites) :
    plan.KeepsOpen kept stage.suites written := by
  induction moves with
  | done => exact keepsOpen_nil within
  | opened scope _ _ _ ih =>
      exact (ih (within.trans (List.prefix_append _ _))).cons within rfl
  | closed outer scope _ top inOuter _ _ ih =>
      exact (ih inOuter).cons within (by simp [follow?, top])
  | condemned _ _ _ ih => exact ih within
  | settled _ _ _ _ ih => exact ih within
  | reported leaf cause _ known _ home _ ih =>
      exact (ih within).unchanged within (follow?_reported cause known home)
  | configured container body _ known home about _ ih =>
      exact (ih within).unchanged within (follow?_configured known home about)
  | marked leaf notice about _ _ ih => exact (ih within).cons within (follow?_marks about)

theorem Moves.spares {final : Stage} {written : List Notice}
    (moves : plan.Moves kept stage written final) (placed : plan.Placed stage.suites)
    (within : kept <+: stage.suites) {scope : Scope} (member : scope ∈ kept) :
    .suiteOpened scope ∉ written ∧ .suiteClosed scope ∉ written := by
  induction moves with
  | done => simp
  | opened other _ placed' _ ih =>
      have different : scope ≠ other := by
        rintro rfl
        exact placed'.innermost_not_mem within member
      simpa [different] using ih placed' (within.trans (List.prefix_append _ _))
  | closed outer other _ top inOuter _ _ ih =>
      rw [top] at placed
      have different : scope ≠ other := by
        rintro rfl
        exact placed.innermost_not_mem inOuter member
      simpa [different] using ih (placed.of_prefix (List.prefix_append _ _)) inOuter
  | condemned _ _ _ ih => exact ih placed within
  | settled _ _ _ _ ih => exact ih placed within
  | reported _ _ _ _ _ _ _ ih => simpa using ih placed within
  | configured container body _ _ _ about _ ih =>
      have unmoved : .suiteOpened scope ∉ body ∧ .suiteClosed scope ∉ body :=
        ⟨fun inBody => about _ inBody, fun inBody => about _ inBody⟩
      simpa [unmoved] using ih placed within
  | marked leaf notice about _ _ ih =>
      have unmoved : notice ≠ .suiteOpened scope ∧ notice ≠ .suiteClosed scope := by
        constructor <;> (rintro rfl; exact about)
      simpa [unmoved.1.symm, unmoved.2.symm] using ih placed within

theorem KeepsOpen.append {suites middle : List Scope} {first second : List Notice}
    (sofar : plan.KeepsOpen kept suites first)
    (here : plan.followAll? suites first = some middle)
    (later : plan.KeepsOpen kept middle second) :
    plan.KeepsOpen kept suites (first ++ second) := by
  intro before start
  rcases List.prefix_or_prefix_of_prefix start (List.prefix_append first second) with
    early | ⟨more, rfl⟩
  · exact sofar before early
  · obtain ⟨now, followed, within⟩ := later more ((List.prefix_append_right_inj first).mp start)
    exact ⟨now, (followAll?_append here).trans followed, within⟩

theorem close_clean {count : Nat}
    (clean : ∀ scope ∈ stage.suites.drop count, stage.failedBehind? scope = none) :
    plan.close count stage = ({ stage with suites := stage.suites.take count },
      (stage.suites.drop count).reverse.map .suiteClosed) := by
  obtain ⟨left, closing, split, result, _, ending⟩ := closeClean_split count stage
  have behind : stage.suites.drop count = left ++ closing.reverse := by
    have whole := List.take_append_drop count stage.suites
    rw [List.append_assoc] at split
    exact List.append_cancel_left (whole.trans split)
  have closed : closeClean count stage = ({ stage with suites := stage.suites.take count },
      (stage.suites.drop count).reverse.map .suiteClosed) := by
    rcases ending with rfl | ⟨inner, container, rfl, failed⟩
    · simpa [behind] using result
    · have stuck := clean (.container container) (by simp [behind])
      simp [Stage.failedBehind?, failed] at stuck
  have settled : { stage with suites := stage.suites.take count }.pendingFailure? count = none := by
    simp [Stage.pendingFailure?]
  unfold close
  cases stage.failed.length with
  | zero => exact closed
  | succ level => simp [closeWithin, Step.andThen, closed, settled, Step.skip]

structure Shared (left right shared : List Scope) : Prop where
  inLeft : shared <+: left
  inRight : shared <+: right
  longest : ∀ common, common <+: left → common <+: right → common <+: shared

theorem shared_take (left right : List Scope) :
    Shared left right (left.take (sharedLength left right)) where
  inLeft := List.take_prefix _ _
  inRight := take_sharedLength left right ▸ List.take_prefix _ _
  longest := fun _ inLeft inRight =>
    prefix_take_of_length_le inLeft (length_le_sharedLength inLeft inRight)

def startNotices (plan : Plan) (node : NodeId) : List Notice :=
  if plan.tree.isContainer node then [] else [.testStarted (.leaf node)]

theorem follow?_startNotices {node : NodeId} (known : plan.tree.contains node = true) :
    ∀ notice ∈ plan.startNotices node,
      plan.follow? (plan.home (plan.subjectOf node)) notice =
        some (plan.home (plan.subjectOf node)) := by
  unfold startNotices
  cases container : plan.tree.isContainer node with
  | true => simp
  | false =>
      have subject : plan.subjectOf node = .leaf node := by simp [subjectOf, container]
      have started := follow?_started (knows_subjectOf known) rfl
      simpa [subject] using started

theorem startNode_eq (plan : Plan) (node : NodeId) (stage : Stage) :
    (plan.startNode node stage).1.suites =
        (plan.enter (plan.home (plan.subjectOf node)) stage).1.suites ∧
      (plan.startNode node stage).2 =
        (plan.enter (plan.home (plan.subjectOf node)) stage).2 ++ plan.startNotices node := by
  unfold startNode startNotices subjectOf
  cases plan.tree.isContainer node with
  | true => simp [home]
  | false => exact ⟨rfl, rfl⟩

/-- From the suites that were open, a node is started in its home, and `kept` is what does not
change on the way.  Suites are the same if their nodes are, whatever they are called. -/
structure StartsHome (plan : Plan) (stage : Stage) (node : NodeId) (kept : List Scope)
    (result : Session × List Notice) : Prop where
  shared : Shared stage.suites (plan.home (plan.subjectOf node)) kept
  arrived : result.1.stage.suites = plan.home (plan.subjectOf node)
  followed : plan.followAll? stage.suites result.2 = some result.1.stage.suites
  keptOpen : plan.KeepsOpen kept stage.suites result.2
  untouched : ∀ scope ∈ kept, .suiteOpened scope ∉ result.2 ∧ .suiteClosed scope ∉ result.2
  clean : (∀ scope ∈ stage.suites.drop kept.length, stage.failedBehind? scope = none) →
    result.2 = (stage.suites.drop kept.length).reverse.map .suiteClosed ++
        ((plan.home (plan.subjectOf node)).drop kept.length).map .suiteOpened ++
          plan.startNotices node ∧
      result.2.Nodup

theorem enter_clean {target : List Scope}
    (clean : ∀ scope ∈ stage.suites.drop (sharedLength stage.suites target),
      stage.failedBehind? scope = none) :
    (plan.enter target stage).2 =
      (stage.suites.drop (sharedLength stage.suites target)).reverse.map .suiteClosed ++
        (target.drop (sharedLength stage.suites target)).map .suiteOpened := by
  simp [enter, reconcile, Step.andThen, openSuites, close_clean clean]

theorem nodup_notices {closing opening : List Scope} (node : NodeId) (closed : closing.Nodup)
    (opened : opening.Nodup) :
    (closing.map Notice.suiteClosed ++ opening.map Notice.suiteOpened ++
      plan.startNotices node).Nodup := by
  have once := closed.map (f := Notice.suiteClosed) fun _ _ same => Notice.suiteClosed.inj same
  have again := opened.map (f := Notice.suiteOpened) fun _ _ same => Notice.suiteOpened.inj same
  have suites : (closing.map Notice.suiteClosed ++ opening.map Notice.suiteOpened).Nodup := by
    simp [List.nodup_append, once, again]
  unfold startNotices
  split
  · simpa using suites
  · simpa using suites.concat (a := .testStarted (.leaf node)) (by simp)

theorem start_keeps_shared {node : NodeId} (reachable : plan.Reachable session)
    (idle : session.stage.running = none) (known : plan.tree.contains node = true) :
    ∃ kept, plan.StartsHome session.stage node kept
      (plan.handle (.node node .started) session) := by
  obtain ⟨sound, settled⟩ := reachable.sound
  have target : plan.Placed (plan.home (plan.subjectOf node)) :=
    ⟨_, knows_subjectOf known, rfl⟩
  have reached := enter_reaches target sound.stage.placed idle
  obtain ⟨suites, written⟩ := startNode_eq plan node session.stage
  have shared := shared_take session.stage.suites (plan.home (plan.subjectOf node))
  have width := List.length_take_of_le
    (sharedLength_le session.stage.suites (plan.home (plan.subjectOf node)))
  have follows : plan.followAll? session.stage.suites (plan.startNode node session.stage).2 =
      some (plan.startNode node session.stage).1.suites := by
    rw [written, suites, followAll?_append reached.moves.follow, reached.suites]
    exact followAll?_unchanged (follow?_startNotices known)
  rw [handle_idle settled idle known]
  refine ⟨_, shared, suites.trans reached.suites, follows, ?_, fun scope member => ?_,
    fun clean => ?_⟩
  · simp only [apply, written]
    have last := (keepsOpen_nil shared.inRight).unchanged shared.inRight
      (follow?_startNotices known)
    rw [List.append_nil] at last
    exact (reached.moves.keepsOpen shared.inLeft).append
      (reached.moves.follow.trans (congrArg some reached.suites)) last
  · obtain ⟨unopened, unclosed⟩ := reached.moves.spares sound.stage.placed shared.inLeft member
    simp only [apply, written, startNotices]
    split <;> simp [unopened, unclosed]
  · rw [width] at clean ⊢
    simp only [apply, written, enter_clean clean, true_and]
    exact nodup_notices node
      (List.nodup_reverse.mpr (sound.stage.placed.nodup.sublist (List.drop_sublist _ _)))
      (target.nodup.sublist (List.drop_sublist _ _))

-- The two inner suites are called the same.
def twinSuites : Plan where
  tree := ((Tree.single (.container "all")).addAll
    [(0, .container "a.Outer"), (1, .container "a.Twin"), (2, .leaf "a.Twin" "first"),
      (2, .leaf "a.Twin" "second"), (1, .container "a.Twin"), (5, .leaf "a.Twin" "third")]).1

theorem twin_suite_starts_home :
    let session := (twinSuites.handleAll
      [.node 2 (.failed []), .node 3 .started, .node 3 .finished] {}).1
    session.stage.suites = [.container 1, .container 2] ∧ session.stage.failed = [2] ∧
      (twinSuites.handle (.node 6 .started) session).2 =
        [.testStarted (.leaf 4), .testIgnored (.leaf 4) .neverStarted, .testFinished (.leaf 4),
          .suiteClosed (.container 2), .suiteOpened (.container 5), .testStarted (.leaf 6)] ∧
      ∃ kept, twinSuites.StartsHome session.stage 6 kept
        (twinSuites.handle (.node 6 .started) session) :=
  ⟨by decide +kernel, by decide +kernel, by decide +kernel,
    start_keeps_shared (Reachable.fresh.handleAll _) (by decide +kernel) (by decide +kernel)⟩

end Plan

end RunStream
