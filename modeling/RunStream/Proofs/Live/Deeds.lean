import RunStream.Live.Session
import RunStream.Proofs.Live.Moves

set_option autoImplicit false

namespace RunStream

variable {plan : Plan} {stage : Stage}

def Stage.Recorded (stage : Stage) : Prop :=
  ∀ leaf, stage.running = some leaf ↔ stage.status? leaf = some .running

structure Plan.Sound (plan : Plan) (stage : Stage) : Prop where
  placed : plan.Placed stage.suites
  recorded : stage.Recorded
  isLeaf : ∀ leaf, stage.running = some leaf → plan.tree.isLeaf leaf = true
  home : ∀ leaf, stage.running = some leaf → stage.suites = plan.leafScopes leaf

namespace Plan

theorem Moves.recorded {base : List Scope} {final : Stage} {written : List Notice}
    (moves : plan.Moves base stage written final) (recorded : stage.Recorded) :
    final.Recorded := by
  induction moves with
  | done => exact recorded
  | opened _ _ _ _ ih => exact ih recorded
  | closed _ _ _ _ _ _ _ ih => exact ih recorded
  | condemned _ _ _ ih => exact ih recorded
  | settled _ _ _ _ ih => exact ih recorded
  | reported leaf _ idle _ _ _ _ ih =>
      refine ih fun other => ?_
      have before := recorded other
      rw [Stage.status?_mark]
      by_cases same : other = leaf
      · simp [same, Stage.mark, idle]
      · simpa [same, Stage.mark] using before
  | configured _ _ _ _ _ _ _ ih => exact ih recorded
  | marked _ _ _ _ _ ih => exact ih recorded

-- Suites are opened and closed between tests only.
theorem Moves.suites_of_running {base : List Scope} {final : Stage} {written : List Notice}
    {leaf : NodeId} (moves : plan.Moves base stage written final)
    (busy : stage.running = some leaf) : final.suites = stage.suites := by
  induction moves with
  | done => rfl
  | opened _ idle _ _ _ => simp [idle] at busy
  | closed _ _ idle _ _ _ _ _ => simp [idle] at busy
  | condemned _ _ _ ih => exact ih busy
  | settled _ _ _ _ ih => exact ih busy
  | reported _ _ idle _ _ _ _ _ => simp [idle] at busy
  | configured _ _ idle _ _ _ _ _ => simp [idle] at busy
  | marked _ _ _ _ _ ih => exact ih busy

theorem Sound.moves {base : List Scope} {final : Stage} {written : List Notice}
    (sound : plan.Sound stage) (moves : plan.Moves base stage written final)
    (placed : plan.Placed final.suites) : plan.Sound final where
  placed := placed
  recorded := moves.recorded sound.recorded
  isLeaf := fun leaf busy => sound.isLeaf leaf (moves.running ▸ busy)
  home := fun leaf busy => by
    have busy := moves.running ▸ busy
    exact (moves.suites_of_running busy).trans (sound.home leaf busy)

theorem sound_empty : plan.Sound {} where
  placed := placed_nil
  recorded := fun leaf => by simp [Stage.status?]
  isLeaf := fun leaf busy => by simp at busy
  home := fun leaf busy => by simp at busy

def knowsHeld (plan : Plan) : Held → Bool
  | .event node _ => plan.tree.contains node
  | .skipped leaf _ => plan.tree.isLeaf leaf

theorem Moves.marks {base : List Scope} (leaf : NodeId) (notices : List Notice)
    (near : stage.running = none ∨ stage.running = some leaf)
    (about : ∀ notice ∈ notices, notice.Marks (.leaf leaf)) :
    plan.Moves base stage notices stage := by
  induction notices with
  | nil => exact .done stage
  | cons notice rest ih =>
      exact .marked leaf notice (about notice (List.mem_cons_self ..)) near
        (ih fun other member => about other (List.mem_cons_of_mem _ member))

theorem isBlocked_idle (idle : stage.running = none) (item : Held) :
    plan.isBlocked stage item = false := by
  simp [isBlocked, idle]

theorem isBlocked_running {leaf : NodeId} (busy : stage.running = some leaf) (item : Held) :
    plan.isBlocked stage item = plan.blocks leaf item := by
  simp [isBlocked, busy]

theorem near_of_free {node : NodeId} {progress : Progress}
    (plain : plan.skipCause? node progress = none)
    (free : plan.isBlocked stage (.event node progress) = false) :
    stage.running = none ∨ stage.running = some node := by
  cases busy : stage.running with
  | none => exact .inl rfl
  | some leaf =>
      rw [isBlocked_running busy] at free
      simp [blocks, plain] at free
      exact .inr (by rw [free])

theorem idle_of_free_container {node : NodeId} {progress : Progress} (sound : plan.Sound stage)
    (container : plan.tree.isContainer node = true)
    (plain : plan.skipCause? node progress = none)
    (free : plan.isBlocked stage (.event node progress) = false) : stage.running = none := by
  rcases near_of_free plain free with idle | busy
  · exact idle
  · have leaf := Tree.isContainer_eq_false_of_isLeaf (sound.isLeaf node busy)
    simp [container] at leaf

theorem under_of_free {node leaf : NodeId} {progress : Progress} {cause : Cause}
    (skips : plan.skipCause? node progress = some cause)
    (free : plan.isBlocked stage (.event node progress) = false)
    (busy : stage.running = some leaf) : leaf ∈ plan.tree.leavesUnder node := by
  rw [isBlocked_running busy] at free
  simpa [blocks, skips] using free

def Quiet (plan : Plan) (stage : Stage) (result : Stage × List Notice) : Prop :=
  plan.Moves [] stage result.2 result.1 ∧ plan.Placed result.1.suites

theorem Reaches.quiet {base suites : List Scope} {result : Stage × List Notice}
    (reached : plan.Reaches base stage suites result) (placed : plan.Placed suites) :
    plan.Quiet stage result :=
  ⟨reached.moves.weaken (List.nil_prefix ..), reached.suites ▸ placed⟩

theorem quiet_skip (sound : plan.Sound stage) : plan.Quiet stage (Step.skip stage) :=
  ⟨.done stage, sound.placed⟩

theorem quiet_marks (leaf : NodeId) {notices : List Notice} (sound : plan.Sound stage)
    (near : stage.running = none ∨ stage.running = some leaf)
    (about : ∀ notice ∈ notices, notice.Marks (.leaf leaf)) :
    plan.Quiet stage (Step.write notices stage) :=
  ⟨.marks leaf notices near about, sound.placed⟩

theorem quiet_configuration (stage : Stage) {container : NodeId} {body : List Notice}
    (known : plan.tree.isContainer container = true) (placed : plan.Placed stage.suites)
    (idle : stage.running = none)
    (about : ∀ notice ∈ body, notice.Marks (.configuration container)) :
    plan.Quiet stage (plan.reportConfiguration container body stage) := by
  have entered := enter_reaches (placed_containerScopes known) placed idle
  have moves := (entered.moves.weaken (List.nil_prefix ..)).trans
    (.configured container body (entered.idle idle) known entered.suites about (.done _))
  refine ⟨by simpa [reportConfiguration, Step.andThen, Step.write] using moves, ?_⟩
  simp only [reportConfiguration, Step.andThen, Step.write, entered.suites]
  exact placed_containerScopes known

theorem quiet_finishNode {container : NodeId} (sound : plan.Sound stage)
    (known : plan.tree.isContainer container = true) (idle : stage.running = none) :
    plan.Quiet stage (plan.finishNode container stage) := by
  simp only [finishNode, known, if_true]
  cases found : stage.suites.idxOf? (.container container) with
  | none => exact quiet_skip sound
  | some position =>
      obtain ⟨bound, _, _⟩ := List.idxOf?_eq_some_iff.mp found
      have closed := close_closes stage.failed.length stage position sound.placed idle
        (Nat.le_refl _) (Nat.le_of_lt bound)
      exact closed.reached.quiet (sound.placed.of_prefix (List.take_prefix _ _))

theorem quiet_failNode {container : NodeId} {failures : List Failure} (sound : plan.Sound stage)
    (known : plan.tree.isContainer container = true) (idle : stage.running = none) :
    plan.Quiet stage (plan.failNode container failures stage) := by
  have about : ∀ notice ∈ failures.map (Notice.testFailed (.configuration container)),
      notice.Marks (.configuration container) := by
    simp [Notice.Marks]
  simp only [failNode, known, if_true]
  by_cases again : container ∈ stage.failed
  · have reported := quiet_configuration stage known sound.placed idle about
    simpa [Step.andThen, Step.update, again] using reported
  · let condemned : Stage := { stage with failed := stage.failed ++ [container] }
    have reported := quiet_configuration condemned known sound.placed idle about
    simp only [Step.andThen, Step.update, again, if_false, List.nil_append]
    exact ⟨.condemned container again reported.1, reported.2⟩

theorem skipLeaf_reaches (cause : Cause) {leaf : NodeId} (known : plan.tree.isLeaf leaf = true)
    (placed : plan.Placed stage.suites) (idle : stage.running = none) :
    ∃ suites, plan.Placed suites ∧ [] <+: suites ∧
      plan.Reaches [] stage suites (plan.skipLeaf cause leaf stage) := by
  have once := reportUnless_reaches (close_closes stage.failed.length) cause known placed idle
    (Nat.le_refl _) (List.nil_prefix ..) (List.nil_prefix ..)
  unfold skipLeaf
  cases status : stage.status? leaf with
  | none => simpa [status, idle] using once
  | some known =>
      cases known with
      | finished => exact ⟨stage.suites, placed, List.nil_prefix .., .done _, rfl, Nat.le_refl _⟩
      | running =>
          refine ⟨stage.suites, placed, List.nil_prefix .., ?_, rfl, Nat.le_refl _⟩
          exact .marks leaf _ (.inl idle) (by simp [Step.write, Notice.Marks])

-- While a test is running, skipping marks that test and leaves the stage alone.
theorem forEach_skipLeaf_running {leaf : NodeId} (sound : plan.Sound stage)
    (busy : stage.running = some leaf) (cause : Cause) (leaves : List NodeId) :
    (Step.forEach leaves (plan.skipLeaf cause) stage).1 = stage ∧
      ∀ notice ∈ (Step.forEach leaves (plan.skipLeaf cause) stage).2,
        notice.Marks (.leaf leaf) := by
  induction leaves with
  | nil => exact ⟨rfl, by simp [Step.forEach, Step.skip]⟩
  | cons other rest ih =>
      have here : (plan.skipLeaf cause other stage).1 = stage ∧
          ∀ notice ∈ (plan.skipLeaf cause other stage).2, notice.Marks (.leaf leaf) := by
        unfold skipLeaf
        cases status : stage.status? other with
        | none => simp [busy, Step.skip]
        | some known =>
            cases known with
            | finished => simp [Step.skip]
            | running =>
                have same := (sound.recorded other).mpr status
                rw [busy, Option.some.injEq] at same
                simp [Step.write, Notice.Marks, same]
      simp only [Step.forEach, Step.andThen, here.1, List.mem_append]
      exact ⟨ih.1, fun notice member => member.elim (here.2 notice) (ih.2 notice)⟩

theorem quiet_skipBelow {node : NodeId} {progress : Progress} {cause : Cause}
    (sound : plan.Sound stage) (known : plan.tree.contains node = true)
    (skips : plan.skipCause? node progress = some cause)
    (free : plan.isBlocked stage (.event node progress) = false) :
    plan.Quiet stage (plan.skipBelow node cause stage) := by
  unfold skipBelow
  cases busy : stage.running with
  | some leaf =>
      have under := under_of_free skips free busy
      have inhabited : (plan.tree.leavesUnder node).isEmpty = false := by
        cases leaves : plan.tree.leavesUnder node with
        | nil => simp [leaves] at under
        | cons => rfl
      obtain ⟨same, about⟩ := forEach_skipLeaf_running sound busy cause
        (plan.tree.leavesUnder node)
      simp only [inhabited, Bool.false_eq_true, if_false, Quiet, same]
      exact ⟨.marks leaf _ (.inr busy) about, sound.placed⟩
  | none =>
      by_cases empty : (plan.tree.leavesUnder node).isEmpty = true
      · have container : plan.tree.isContainer node = true := by
          rcases Tree.isContainer_or_isLeaf known with container | leaf
          · exact container
          · have self := Tree.mem_leavesUnder_iff.mpr ⟨leaf, .inl rfl⟩
            simp [List.isEmpty_iff.mp empty] at self
        rw [if_pos empty]
        exact quiet_configuration stage container sound.placed busy (by simp [Notice.Marks])
      · rw [if_neg empty]
        obtain ⟨suites, placed, _, reached⟩ := forEach_reaches stage.failed.length []
          (plan.tree.leavesUnder node)
          (fun leaf member stage placed idle _ _ =>
            skipLeaf_reaches cause (Tree.mem_leavesUnder_iff.mp member).1 placed idle)
          sound.placed busy (Nat.le_refl _) (List.nil_prefix ..)
        exact reached.quiet placed

theorem quiet_skipped {leaf : NodeId} {cause : Cause} (sound : plan.Sound stage)
    (known : plan.tree.isLeaf leaf = true)
    (free : plan.isBlocked stage (.skipped leaf cause) = false) :
    plan.Quiet stage (plan.apply (.skipped leaf cause) stage) := by
  have idle : stage.running = none := by
    cases busy : stage.running with
    | none => rfl
    | some running => simp [isBlocked_running busy, blocks] at free
  obtain ⟨suites, placed, _, reached⟩ :=
    reportUnless_reaches (close_closes stage.failed.length) cause known sound.placed idle
      (Nat.le_refl _) (List.nil_prefix ..) (List.nil_prefix ..)
  exact reached.quiet placed

def turns (plan : Plan) : Held → Bool
  | .event node .started => !plan.tree.isContainer node
  | .event node .finished => !plan.tree.isContainer node
  | _ => false

theorem quiet_apply {item : Held} (sound : plan.Sound stage)
    (known : plan.knowsHeld item = true) (free : plan.isBlocked stage item = false)
    (quiet : plan.turns item = false) : plan.Quiet stage (plan.apply item stage) := by
  cases item with
  | skipped leaf cause => exact quiet_skipped sound known free
  | event node progress =>
      cases progress with
      | started =>
          have container : plan.tree.isContainer node = true := by simpa [turns] using quiet
          have idle := idle_of_free_container sound container rfl free
          simp only [apply, startNode, container, if_true]
          have home := placed_containerScopes container
          exact (enter_reaches home sound.placed idle).quiet home
      | finished =>
          have container : plan.tree.isContainer node = true := by simpa [turns] using quiet
          exact quiet_finishNode sound container (idle_of_free_container sound container rfl free)
      | failed failures =>
          cases container : plan.tree.isContainer node with
          | true =>
              exact quiet_failNode sound container
                (idle_of_free_container sound container rfl free)
          | false =>
              simp only [apply, failNode, container, Bool.false_eq_true, if_false]
              exact quiet_marks node sound (near_of_free rfl free) (by simp [Notice.Marks])
      | assumptionFailed failure =>
          cases container : plan.tree.isContainer node with
          | true =>
              simp only [apply, assumeNode, container, if_true]
              exact quiet_skipBelow sound known (by simp [skipCause?, container]) free
          | false =>
              simp only [apply, assumeNode, container, Bool.false_eq_true, if_false]
              exact quiet_marks node sound
                (near_of_free (by simp [skipCause?, container]) free) (by simp [Notice.Marks])
      | ignored reason => exact quiet_skipBelow sound known rfl free

theorem isLeaf_of_turns {node : NodeId} {progress : Progress}
    (known : plan.knowsHeld (.event node progress) = true)
    (turns : plan.turns (.event node progress) = true) : plan.tree.isLeaf node = true := by
  refine Tree.isLeaf_of_not_isContainer known ?_
  cases progress <;> simp_all [Plan.turns]

-- A leaf that is started again while it runs is at home already.
theorem apply_started {leaf : NodeId} (sound : plan.Sound stage)
    (known : plan.tree.isLeaf leaf = true)
    (free : plan.isBlocked stage (.event leaf .started) = false) :
    ∃ middle written, plan.Moves [] stage written middle ∧
      middle.suites = plan.leafScopes leaf ∧
      plan.apply (.event leaf .started) stage =
        ({ middle.mark leaf .running with running := some leaf },
          written ++ [.testStarted (.leaf leaf)]) := by
  have entered : plan.Moves [] stage (plan.enter (plan.leafScopes leaf) stage).2
        (plan.enter (plan.leafScopes leaf) stage).1 ∧
      (plan.enter (plan.leafScopes leaf) stage).1.suites = plan.leafScopes leaf := by
    rcases near_of_free rfl free with idle | busy
    · have reached := enter_reaches (placed_leafScopes known) sound.placed idle
      exact ⟨reached.moves.weaken (List.nil_prefix ..), reached.suites⟩
    · rw [← sound.home leaf busy, enter_self]
      exact ⟨.done stage, rfl⟩
  refine ⟨_, _, entered.1, entered.2, ?_⟩
  simp only [apply, startNode, Tree.isContainer_eq_false_of_isLeaf known, Bool.false_eq_true,
    if_false]
  rfl

theorem apply_finished {leaf : NodeId} (known : plan.tree.isLeaf leaf = true)
    (free : plan.isBlocked stage (.event leaf .finished) = false) :
    plan.apply (.event leaf .finished) stage =
      ({ stage.mark leaf .finished with running := none }, [.testFinished (.leaf leaf)]) := by
  simp only [apply, finishNode, Tree.isContainer_eq_false_of_isLeaf known, Bool.false_eq_true,
    if_false, finishLeaf, Step.andThen, Step.write, Step.update, List.append_nil]
  rcases near_of_free rfl free with idle | busy
  · simp [idle]
  · simp [busy]

theorem Sound.started {leaf : NodeId} (sound : plan.Sound stage)
    (known : plan.tree.isLeaf leaf = true)
    (near : stage.running = none ∨ stage.running = some leaf)
    (home : stage.suites = plan.leafScopes leaf) :
    plan.Sound { stage.mark leaf .running with running := some leaf } where
  placed := ⟨.leaf leaf, known, home⟩
  recorded := fun other => by
    have before := sound.recorded other
    change some leaf = some other ↔ (stage.mark leaf .running).status? other = some .running
    rw [Stage.status?_mark]
    by_cases same : other = leaf
    · simp [same]
    · rw [if_neg same, ← before]
      rcases near with idle | busy
      · simp [idle, Ne.symm same]
      · rw [busy]
  isLeaf := fun other busy => by
    simp only [Option.some.injEq] at busy
    exact busy ▸ known
  home := fun other busy => by
    simp only [Option.some.injEq] at busy
    exact busy ▸ home

theorem Sound.finished {leaf : NodeId} (sound : plan.Sound stage)
    (near : stage.running = none ∨ stage.running = some leaf) :
    plan.Sound { stage.mark leaf .finished with running := none } where
  placed := sound.placed
  recorded := fun other => by
    have before := sound.recorded other
    change none = some other ↔ (stage.mark leaf .finished).status? other = some .running
    rw [Stage.status?_mark]
    by_cases same : other = leaf
    · simp [same]
    · rw [if_neg same, ← before]
      rcases near with idle | busy
      · simp [idle]
      · simp [busy, Ne.symm same]
  isLeaf := fun other busy => by simp at busy
  home := fun other busy => by simp at busy

theorem Sound.apply {item : Held} (sound : plan.Sound stage)
    (known : plan.knowsHeld item = true) (free : plan.isBlocked stage item = false) :
    plan.Sound (plan.apply item stage).1 := by
  cases turns : plan.turns item with
  | false =>
      obtain ⟨moves, placed⟩ := quiet_apply sound known free turns
      exact sound.moves moves placed
  | true =>
      cases item with
      | skipped leaf cause => simp [Plan.turns] at turns
      | event node progress =>
          have leaf := isLeaf_of_turns known turns
          cases progress with
          | started =>
              obtain ⟨middle, written, moves, home, result⟩ := apply_started sound leaf free
              have reached := sound.moves moves ⟨.leaf node, leaf, home⟩
              rw [result]
              exact reached.started leaf (moves.running ▸ near_of_free rfl free) home
          | finished =>
              rw [apply_finished leaf free]
              exact sound.finished (near_of_free rfl free)
          | _ => simp [Plan.turns] at turns

end Plan

end RunStream
