import Mathlib.Data.List.Nodup
import RunStream.Proofs.Live.Interleaving
import RunStream.Proofs.Live.Owing
import RunStream.Proofs.Tree.Tour

set_option autoImplicit false

namespace RunStream

open RunStream.Tree

variable {plan : Plan} {stage : Stage} {session : Session} {leaf : NodeId} {cause : Cause}

theorem Tells.knows {before after : Stage} {written : List Notice}
    (tells : Tells leaf before after written) (known : before.knows leaf = true) :
    after.knows leaf = true := by
  cases tells with
  | mute same => exact same.trans known
  | once _ _ _ _ known => exact known

namespace Plan

theorem forEach_skipLeaf_eq (sound : plan.Sound stage) (busy : stage.running = some leaf)
    (leaves : List NodeId) :
    Step.forEach leaves (plan.skipLeaf cause) stage =
      (stage, (leaves.filter (· == leaf)).map fun marked => .testIgnored (.leaf marked) cause) := by
  induction leaves with
  | nil => rfl
  | cons other rest ih =>
      have recorded := sound.recorded other
      have here : plan.skipLeaf cause other stage =
          (stage, ([other].filter (· == leaf)).map fun marked =>
            .testIgnored (.leaf marked) cause) := by
        unfold skipLeaf
        cases status : stage.status? other with
        | none =>
            have apart : leaf ≠ other := by simpa [busy, status] using recorded
            simp [busy, Step.skip, Ne.symm apart]
        | some known =>
            cases known with
            | running =>
                have same : leaf = other := by simpa [busy, status] using recorded
                simp [Step.write, same]
            | finished =>
                have apart : leaf ≠ other := by simpa [busy, status] using recorded
                simp [Step.skip, Ne.symm apart]
      simp only [Step.forEach, Step.andThen, here, ih]
      rw [← List.map_append, ← List.filter_append]
      rfl

theorem inhabited_of_mem {container : NodeId} (below : leaf ∈ plan.tree.leavesUnder container) :
    (plan.tree.leavesUnder container).isEmpty = false := by
  cases leaves : plan.tree.leavesUnder container with
  | nil => simp [leaves] at below
  | cons => rfl

theorem skipBelow_around {container : NodeId} (cause : Cause) (sound : plan.Sound stage)
    (busy : stage.running = some leaf) (below : leaf ∈ plan.tree.leavesUnder container) :
    plan.skipBelow container cause stage = (stage, [.testIgnored (.leaf leaf) cause]) := by
  have once : (plan.tree.leavesUnder container).filter (· == leaf) = [leaf] := by
    rw [List.filter_beq, List.count_eq_one_of_mem (nodup_leavesUnder container) below]
    rfl
  simp only [skipBelow, inhabited_of_mem below, Bool.false_eq_true, if_false,
    forEach_skipLeaf_eq sound busy, once, List.map_singleton]

-- The event that skips a container marks the running leaf when it names that leaf instead.
theorem apply_mark {container : NodeId} (remark : Remark)
    (skips : plan.skipCause? container remark.progress = some cause) (sound : plan.Sound stage)
    (busy : stage.running = some leaf) :
    plan.apply (.event leaf remark.progress) stage =
      (stage, [.testIgnored (.leaf leaf) cause]) := by
  have known := sound.isLeaf leaf busy
  cases remark with
  | failed failures => simp [Remark.progress, skipCause?] at skips
  | assumptionFailed failure =>
      simp only [Remark.progress, skipCause?, Option.ite_none_right_eq_some,
        Option.some.injEq] at skips
      simp [Remark.progress, apply, assumeNode, isContainer_eq_false_of_isLeaf known, Step.write,
        skips.2]
  | ignored reason =>
      simp only [Remark.progress, skipCause?, Option.some.injEq] at skips
      have self := mem_leavesUnder_iff.mpr ⟨known, .inl rfl⟩
      simp only [Remark.progress, apply, skips, skipBelow_around cause sound busy self]

theorem skipLeaf_idle (cause : Cause) (leaf : NodeId) (sound : plan.Sound stage)
    (idle : stage.running = none) :
    plan.skipLeaf cause leaf stage = plan.apply (.skipped leaf cause) stage := by
  have recorded := sound.recorded leaf
  unfold skipLeaf
  cases status : stage.status? leaf with
  | none => simp [apply, status, idle]
  | some known =>
      cases known with
      | running => simp [idle, status] at recorded
      | finished => simp [apply, status]

structure Follows (plan : Plan) (before after : Stage) : Prop where
  sound : plan.Sound after
  idle : after.running = none
  knows : ∀ leaf, before.knows leaf = true → after.knows leaf = true

theorem Follows.skipped {before : Stage} (follows : plan.Follows before stage) (cause : Cause)
    (known : plan.tree.isLeaf leaf = true) :
    plan.Follows before (plan.apply (.skipped leaf cause) stage).1 := by
  have free : plan.isBlocked stage (.skipped leaf cause) = false := isBlocked_idle follows.idle _
  have moves := (quiet_skipped follows.sound known free).1
  exact ⟨follows.sound.apply known free, moves.running.trans follows.idle,
    fun other before => (moves.tells other).knows (follows.knows other before)⟩

theorem drains_skipped (cause : Cause) (leaves : List NodeId) (described : Bool)
    (known : ∀ leaf ∈ leaves, plan.tree.isLeaf leaf = true) (sound : plan.Sound stage)
    (idle : stage.running = none) :
    plan.Drains { stage, held := leaves.map fun leaf => .skipped leaf cause, described }
      (Step.forEach leaves (fun leaf => plan.apply (.skipped leaf cause)) stage).2
      { stage := (Step.forEach leaves (fun leaf => plan.apply (.skipped leaf cause)) stage).1
        described } := by
  induction leaves generalizing stage with
  | nil => exact .settled fun item member => by simp at member
  | cons leaf rest ih =>
      have next := Follows.skipped ⟨sound, idle, fun _ => id⟩ cause
        (known leaf (List.mem_cons_self ..))
      have later := ih (fun other member => known other (List.mem_cons_of_mem _ member)) next.sound
        next.idle
      exact .applied [] _ _ rfl (by simp) (isBlocked_idle idle _) later

theorem forEach_unknown {before : Stage} (leaves : List NodeId)
    (known : ∀ leaf ∈ leaves, plan.tree.isLeaf leaf = true)
    (follows : plan.Follows before stage) :
    Step.forEach (leaves.filter fun leaf => (before.status? leaf).isNone)
        (fun leaf => plan.apply (.skipped leaf cause)) stage =
      Step.forEach leaves (plan.skipLeaf cause) stage := by
  induction leaves generalizing stage with
  | nil => rfl
  | cons leaf rest ih =>
      have others : ∀ other ∈ rest, plan.tree.isLeaf other = true :=
        fun other member => known other (List.mem_cons_of_mem _ member)
      have here := skipLeaf_idle cause leaf follows.sound follows.idle
      cases status : before.status? leaf with
      | none =>
          have next := follows.skipped cause (known leaf (List.mem_cons_self ..))
          have later := ih others next
          simp only [status, Option.isNone_none, List.filter_cons_of_pos, Step.forEach,
            Step.andThen, here, later]
      | some found =>
          have still := follows.knows leaf (by simp [Stage.knows, status])
          have skip : plan.skipLeaf cause leaf stage = (stage, []) := by
            rw [here]
            simp only [Stage.knows] at still
            simp [apply, still, Step.skip]
          have fewer : (leaf :: rest).filter (fun leaf => (before.status? leaf).isNone) =
              rest.filter fun leaf => (before.status? leaf).isNone :=
            List.filter_cons_of_neg (by simp [status])
          rw [fewer, ih others follows]
          simp [Step.forEach, Step.andThen, skip]

theorem Drains.behind {waiting later : List Held} {described : Bool} {written : List Notice}
    {final : Session} {progress : Progress} (sound : plan.Sound stage)
    (busy : stage.running = some leaf)
    (reports : ∀ item ∈ waiting, ∃ other cause, item = .skipped other cause)
    (rest : plan.Drains
      { stage := (plan.apply (.event leaf progress) stage).1, held := waiting ++ later, described }
      written final) :
    plan.Drains { stage, held := waiting ++ .event leaf progress :: later, described }
      ((plan.apply (.event leaf progress) stage).2 ++ written) final := by
  have known := sound.isLeaf leaf busy
  refine .applied waiting (.event leaf progress) later rfl (fun item member => ?_)
    (free_of_running busy known progress) ?_
  · obtain ⟨other, cause, rfl⟩ := reports item member
    rw [isBlocked_running busy]
    rfl
  · simpa [advance, deferred_report sound known (.inr busy) progress] using rest

theorem drains_tail (remarks : List Remark) (waiting later : List Held)
    (sound : plan.Sound stage) (busy : stage.running = some leaf)
    (reports : ∀ item ∈ waiting, ∃ other cause, item = .skipped other cause) :
    plan.Follows stage (plan.inTurn (Block.tail ⟨leaf, remarks⟩) stage).1 ∧
      ∀ (described : Bool) (written : List Notice) (final : Session),
        plan.Drains
          { stage := (plan.inTurn (Block.tail ⟨leaf, remarks⟩) stage).1
            held := waiting ++ later
            described } written final →
        plan.Drains
          { stage
            held := waiting ++ ((Block.tail ⟨leaf, remarks⟩).map Report.held ++ later)
            described }
          ((plan.inTurn (Block.tail ⟨leaf, remarks⟩) stage).2 ++ written) final := by
  have known := sound.isLeaf leaf busy
  induction remarks generalizing stage with
  | nil =>
      have free := free_of_running busy known .finished
      have ended := apply_finished known free
      refine ⟨⟨sound.apply (contains_of_isLeaf known) free, ?_, fun other before => ?_⟩,
        fun described written final rest => ?_⟩
      · simp [Block.tail, inTurn_cons, Report.held, ended]
      · simp [Block.tail, inTurn_cons, Report.held, ended, before]
      · have last := Drains.behind sound busy reports rest
        simpa [Block.tail, inTurn_cons, Report.held] using last
  | cons remark rest ih =>
      obtain ⟨soundNext, busyNext⟩ := apply_remark remark sound busy known
      have moves := moves_remark remark sound busy known
      obtain ⟨follows, drains⟩ := ih soundNext busyNext
      refine ⟨⟨follows.sound, follows.idle, fun other before => ?_⟩,
        fun described written final rest => ?_⟩
      · exact follows.knows other ((moves.tells other).knows before)
      · have later := Drains.behind sound busy reports (drains described written final rest)
        simpa [Block.tail, inTurn_cons, Report.held] using later

def tailThenSkip (plan : Plan) (block : Block) (container : NodeId) (cause : Cause) : Step :=
  (plan.inTurn block.tail).andThen
    (Step.forEach (plan.tree.leavesUnder container) (plan.skipLeaf cause))

theorem known_tail {remarks : List Remark} (known : plan.tree.isLeaf leaf = true) :
    ∀ report ∈ Block.tail ⟨leaf, remarks⟩, plan.tree.contains report.1 = true := by
  intro report member
  have same : report.1 = leaf :=
    @leaf_of_mem_reports ⟨leaf, remarks⟩ report (List.mem_cons_of_mem _ member)
  exact same ▸ contains_of_isLeaf known

variable {container : NodeId} {progress : Progress}

theorem handleAll_skip_first (remarks : List Remark) (described : Bool) (sound : plan.Sound stage)
    (busy : stage.running = some leaf) (below : leaf ∈ plan.tree.leavesUnder container)
    (known : plan.tree.contains container = true)
    (skips : plan.skipCause? container progress = some cause) :
    plan.handleAll (eventsOf ((container, progress) :: Block.tail ⟨leaf, remarks⟩))
        { stage, described } =
      ({ stage := (plan.tailThenSkip ⟨leaf, remarks⟩ container cause stage).1, described },
        .testIgnored (.leaf leaf) cause ::
          (plan.tailThenSkip ⟨leaf, remarks⟩ container cause stage).2) := by
  let unknown := (plan.tree.leavesUnder container).filter fun leaf => (stage.status? leaf).isNone
  have leaves : ∀ other ∈ plan.tree.leavesUnder container, plan.tree.isLeaf other = true :=
    fun other member => (mem_leavesUnder_iff.mp member).1
  have marked := skipBelow_around cause sound busy below
  have left : plan.deferred stage (.event container progress) =
      unknown.map fun leaf => .skipped leaf cause := by
    simp [deferred, skips, busy, unknown]
  have free : plan.isBlocked stage (.event container progress) = false := by
    simp [isBlocked_running busy, blocks, skips, below]
  obtain ⟨follows, drains⟩ := drains_tail remarks
    (unknown.map fun leaf => .skipped leaf cause) [] sound busy (by simp)
  have reported := drains_skipped cause unknown described
    (fun other member => leaves other (List.mem_filter.mp member).1) follows.sound follows.idle
  rw [forEach_unknown _ leaves follows] at reported
  have later := drains described _ _ (by simpa using reported)
  have applied := @Drains.applied plan
    { stage, held := Report.held (container, progress) ::
        (Block.tail ⟨leaf, remarks⟩).map Report.held, described }
    _ _ [] _ _ rfl (by simp) free
    (by simpa [advance, left, Report.held, apply_skip skips, marked] using later)
  have arrived := drains_handleAll ((container, progress) :: Block.tail ⟨leaf, remarks⟩)
    { stage, described } (fun item member => by simp at member)
    (List.forall_mem_cons.mpr ⟨known, known_tail (sound.isLeaf leaf busy)⟩)
  obtain ⟨same, written⟩ := arrived.unique applied
  refine Prod.ext same (written.trans ?_)
  simp [Report.held, apply_skip skips, marked, tailThenSkip, Step.andThen]

theorem handleAll_skip_last (remarks : List Remark) (described : Bool) (sound : plan.Sound stage)
    (busy : stage.running = some leaf) (below : leaf ∈ plan.tree.leavesUnder container)
    (known : plan.tree.contains container = true)
    (skips : plan.skipCause? container progress = some cause) :
    plan.handleAll (eventsOf (Block.tail ⟨leaf, remarks⟩ ++ [(container, progress)]))
        { stage, described } =
      ({ stage := (plan.tailThenSkip ⟨leaf, remarks⟩ container cause stage).1, described },
        (plan.tailThenSkip ⟨leaf, remarks⟩ container cause stage).2) := by
  obtain ⟨follows, drains⟩ := drains_tail remarks [] [.event container progress] sound busy
    (by simp)
  have skipped := @Drains.applied plan
    { stage := (plan.inTurn (Block.tail ⟨leaf, remarks⟩) stage).1
      held := [.event container progress], described }
    _ _ [] _ [] rfl (by simp) (isBlocked_idle follows.idle _)
    (.settled fun item member => by simp [advance, deferred_idle follows.idle] at member)
  have applied := drains described _ _ skipped
  have arrived := drains_handleAll (Block.tail ⟨leaf, remarks⟩ ++ [(container, progress)])
    { stage, described } (fun item member => by simp at member)
    (List.forall_mem_append.mpr ⟨known_tail (sound.isLeaf leaf busy), by simpa using known⟩)
  obtain ⟨same, written⟩ := arrived.unique (by simpa [Report.held] using applied)
  have all : plan.apply (.event container progress) =
      Step.forEach (plan.tree.leavesUnder container) (plan.skipLeaf cause) := by
    simp [apply_skip skips, skipBelow, inhabited_of_mem below]
  refine Prod.ext (same.trans ?_) (written.trans ?_)
  · simp [advance, deferred_idle follows.idle, all, tailThenSkip, Step.andThen]
  · simp [all, tailThenSkip, Step.andThen]

theorem tailThenSkip_mark (remark : Remark) (remarks : List Remark) (sound : plan.Sound stage)
    (busy : stage.running = some leaf)
    (skips : plan.skipCause? container remark.progress = some cause) :
    plan.tailThenSkip ⟨leaf, remark :: remarks⟩ container cause stage =
      ((plan.tailThenSkip ⟨leaf, remarks⟩ container cause stage).1,
        .testIgnored (.leaf leaf) cause ::
          (plan.tailThenSkip ⟨leaf, remarks⟩ container cause stage).2) := by
  have marked := apply_mark remark skips sound busy
  simp [tailThenSkip, Block.tail, Step.andThen, inTurn_cons, Report.held, marked]

theorem skip_around_eq_skip_after (remark : Remark) (remarks : List Remark)
    (reachable : plan.Reachable session) (busy : session.stage.running = some leaf)
    (empty : session.held = []) (above : container ∈ plan.tree.ancestors leaf)
    (skips : plan.skipCause? container remark.progress = some cause) :
    plan.handleAll (.node container remark.progress :: eventsOf (Block.tail ⟨leaf, remarks⟩))
        session =
      plan.handleAll (.node leaf remark.progress :: eventsOf (Block.tail ⟨leaf, remarks⟩) ++
        [.node container remark.progress]) session := by
  obtain ⟨stage, held, described⟩ := session
  obtain rfl : held = [] := empty
  have sound := reachable.sound.1.stage
  have known := contains_of_isContainer (ancestors_containers above)
  have below := mem_leavesUnder_iff.mpr ⟨sound.isLeaf leaf busy, .inr above⟩
  have first := handleAll_skip_first remarks described sound busy below known skips
  have last := handleAll_skip_last (remark :: remarks) described sound busy below known skips
  rw [tailThenSkip_mark remark remarks sound busy skips] at last
  simpa [eventsOf, Block.tail] using first.trans last.symm

theorem skip_around_running (remarks : List Remark) (reachable : plan.Reachable session)
    (busy : session.stage.running = some leaf) (empty : session.held = [])
    (above : container ∈ plan.tree.ancestors leaf) :
    let rest := eventsOf (Block.tail ⟨leaf, remarks⟩)
    (∀ failure,
      plan.handleAll (.node container (.assumptionFailed failure) :: rest) session =
        plan.handleAll (.node leaf (.assumptionFailed failure) :: rest ++
          [.node container (.assumptionFailed failure)]) session) ∧
      ∀ reason,
        plan.handleAll (.node container (.ignored reason) :: rest) session =
          plan.handleAll (.node leaf (.ignored reason) :: rest ++
            [.node container (.ignored reason)]) session := by
  refine ⟨fun failure => ?_, fun reason => ?_⟩
  · have skips : plan.skipCause? container (.assumptionFailed failure) =
        some (.assumption failure) := by
      simp [skipCause?, ancestors_containers above]
    exact skip_around_eq_skip_after (.assumptionFailed failure) remarks reachable busy empty above
      skips
  · exact skip_around_eq_skip_after (.ignored reason) remarks reachable busy empty above rfl

def nestedSuites : Plan where
  tree := ((Tree.single (.container "all")).addAll
    [(0, .container "a.Outer"), (1, .leaf "a.Outer" "first"), (1, .leaf "a.Outer" "second"),
      (1, .container "a.Inner"), (4, .leaf "a.Inner" "third"), (0, .leaf "a.Lone" "fourth")]).1

theorem skip_around_second_test :
    let session := (nestedSuites.handleAll
      [.node 4 (.failed []), .node 2 .started, .node 2 .finished, .node 3 .started] {}).1
    let rest := eventsOf (Block.tail ⟨3, [.failed [{ message := "no" }], .ignored none]⟩)
    session.stage.running = some 3 ∧ session.held = [] ∧ 0 ∈ nestedSuites.tree.ancestors 3 ∧
      (∀ failure,
        nestedSuites.handleAll (.node 0 (.assumptionFailed failure) :: rest) session =
          nestedSuites.handleAll (.node 3 (.assumptionFailed failure) :: rest ++
            [.node 0 (.assumptionFailed failure)]) session) ∧
      ∀ reason,
        nestedSuites.handleAll (.node 0 (.ignored reason) :: rest) session =
          nestedSuites.handleAll (.node 3 (.ignored reason) :: rest ++
            [.node 0 (.ignored reason)]) session := by
  have running : (nestedSuites.handleAll [.node 4 (.failed []), .node 2 .started,
      .node 2 .finished, .node 3 .started] {}).1.stage.running = some 3 := by decide +kernel
  have above : 0 ∈ nestedSuites.tree.ancestors 3 := by decide +kernel
  exact ⟨running, by decide +kernel, above,
    skip_around_running _ (Reachable.fresh.handleAll _) running (by decide +kernel) above⟩

end Plan

end RunStream
