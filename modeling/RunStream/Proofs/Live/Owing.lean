import RunStream.Proofs.Live.Lasting
import RunStream.Proofs.Live.Alternation

set_option autoImplicit false

namespace RunStream

open RunStream.Tree

variable {plan : Plan} {stage : Stage} {leaf : NodeId}

def Stage.knows (stage : Stage) (leaf : NodeId) : Bool :=
  (stage.status? leaf).isSome

@[simp]
theorem Stage.knows_mark (stage : Stage) (leaf other : NodeId) (status : LeafStatus) :
    (stage.mark leaf status).knows other = (decide (other = leaf) || stage.knows other) := by
  by_cases same : other = leaf <;> simp [knows, same]

def skippedBlock (leaf : NodeId) (cause : Cause) : List Notice :=
  [.testStarted (.leaf leaf), .testIgnored (.leaf leaf) cause, .testFinished (.leaf leaf)]

/-- What is written between two stages starts the leaf only to report it as skipped, and does so
exactly if the leaf becomes known in between. -/
inductive Tells (leaf : NodeId) (before after : Stage) (written : List Notice) : Prop
  | mute (same : after.knows leaf = before.knows leaf) (none : .testStarted (.leaf leaf) ∉ written)
  | once (cause : Cause) (front back : List Notice) (fresh : before.knows leaf = false)
      (known : after.knows leaf = true) (whole : written = front ++ skippedBlock leaf cause ++ back)
      (first : .testStarted (.leaf leaf) ∉ front) (last : .testStarted (.leaf leaf) ∉ back)

namespace Tells

theorem trans {before middle after : Stage} {written more : List Notice}
    (left : Tells leaf before middle written) (right : Tells leaf middle after more) :
    Tells leaf before after (written ++ more) := by
  cases left with
  | mute same none =>
      cases right with
      | mute same' none' => exact .mute (same'.trans same) (by simp [none, none'])
      | once cause front back fresh known whole first last =>
          exact .once cause (written ++ front) back (same ▸ fresh) known (by simp [whole])
            (by simp [none, first]) last
  | once cause front back fresh known whole first last =>
      cases right with
      | mute same none =>
          exact .once cause front (back ++ more) fresh (same.trans known) (by simp [whole]) first
            (by simp [last, none])
      | once _ _ _ fresh' => simp [known] at fresh'

theorem behind {before middle after : Stage} {more : List Notice} (notices : List Notice)
    (rest : Tells leaf middle after more) (same : middle.knows leaf = before.knows leaf)
    (none : .testStarted (.leaf leaf) ∉ notices) : Tells leaf before after (notices ++ more) :=
  trans (.mute same none) rest

end Tells

namespace Plan

theorem Moves.tells {base : List Scope} {final : Stage} {written : List Notice}
    (moves : plan.Moves base stage written final) (leaf : NodeId) :
    Tells leaf stage final written := by
  induction moves with
  | done => exact .mute rfl (by simp)
  | opened scope _ _ _ ih => exact .behind [.suiteOpened scope] ih rfl (by simp)
  | closed _ scope _ _ _ _ _ ih => exact .behind [.suiteClosed scope] ih rfl (by simp)
  | condemned _ _ _ ih => exact .behind [] ih rfl (by simp)
  | settled _ _ _ _ ih => exact .behind [] ih rfl (by simp)
  | reported other cause _ _ fresh _ _ ih =>
      refine Tells.trans ?_ ih
      by_cases same : leaf = other
      · subst same
        exact .once cause [] [] (by simp [Stage.knows, fresh]) (by simp) (by simp [skippedBlock])
          (by simp) (by simp)
      · exact .mute (by simp [same]) (by simp [same])
  | configured container body _ _ _ about _ ih =>
      have none : .testStarted (.leaf leaf) ∉ [.testStarted (.configuration container)] ++ body ++
          [.testFinished (.configuration container)] := by
        intro member
        have inBody : .testStarted (.leaf leaf) ∈ body := by simpa using member
        exact about _ inBody
      exact .behind _ ih rfl none
  | marked other notice about _ _ ih =>
      have none : .testStarted (.leaf leaf) ∉ [notice] := by
        intro member
        rw [← List.mem_singleton.mp member] at about
        exact about
      exact .behind [notice] ih rfl none

end Plan

def Event.Spares (leaf : NodeId) (event : Event) : Prop :=
  event ≠ .node leaf .started ∧ event ≠ .node leaf .finished

instance (leaf : NodeId) (event : Event) : Decidable (event.Spares leaf) :=
  inferInstanceAs (Decidable (_ ∧ _))

def Held.Spares (leaf : NodeId) (item : Held) : Prop :=
  ∀ event, item.event? = some event → event.Spares leaf

theorem Held.Spares.ne_of_started {node : NodeId}
    (spares : (Held.event node .started).Spares leaf) : node ≠ leaf := by
  rintro rfl
  exact (spares _ rfl).1 rfl

theorem Held.Spares.ne_of_finished {node : NodeId}
    (spares : (Held.event node .finished).Spares leaf) : node ≠ leaf := by
  rintro rfl
  exact (spares _ rfl).2 rfl

@[simp]
theorem Stage.knows_turned (stage : Stage) (running : Option NodeId) :
    ({ stage with running } : Stage).knows leaf = stage.knows leaf :=
  rfl

namespace Plan

theorem tells_apply {item : Held} (sound : plan.Sound stage) (known : plan.knowsHeld item = true)
    (free : plan.isBlocked stage item = false) (spares : item.Spares leaf) :
    Tells leaf stage (plan.apply item stage).1 (plan.apply item stage).2 ∧
      ((plan.apply item stage).1.running = some leaf → stage.running = some leaf) := by
  cases turns : plan.turns item with
  | false =>
      have moves := (quiet_apply sound known free turns).1
      exact ⟨moves.tells leaf, fun busy => moves.running ▸ busy⟩
  | true =>
      cases item with
      | skipped other cause => simp [Plan.turns] at turns
      | event node progress =>
          have isLeaf := isLeaf_of_turns known turns
          cases progress with
          | started =>
              have other := spares.ne_of_started
              obtain ⟨middle, written, moves, _, result⟩ := apply_started sound isLeaf free
              rw [result]
              have quiet := @Tells.mute leaf middle
                { middle.mark node .running with running := some node }
                [.testStarted (.leaf node)] (by simp [Ne.symm other]) (by simp [Ne.symm other])
              exact ⟨(moves.tells leaf).trans quiet,
                fun busy => absurd (Option.some.inj busy) other⟩
          | finished =>
              have other := spares.ne_of_finished
              rw [apply_finished isLeaf free]
              exact ⟨.mute (by simp [Ne.symm other]) (by simp), fun busy => by simp at busy⟩
          | _ => simp [Plan.turns] at turns

def AccountsFor (plan : Plan) (leaf : NodeId) (stage : Stage) : Prop :=
  stage.knows leaf = true ∨ ∃ container ∈ stage.failed, leaf ∈ plan.tree.leavesUnder container

theorem overlooks_accounted (other : NodeId) : Overlooks (plan.AccountsFor leaf) other :=
  fun stage status known => known.imp_left fun before => by simp [before]

theorem overlooks_unaccounted {other : NodeId} (apart : other ≠ leaf) :
    Overlooks (fun stage => ¬ plan.AccountsFor leaf stage) other := by
  intro stage status unknown known
  exact unknown (known.imp_left fun after => by simpa [Ne.symm apart] using after)

theorem knows_reportUnless (close : Nat → Step) (leaf : NodeId) (cause : Cause) (stage : Stage) :
    (if (stage.status? leaf).isSome then Step.skip stage
      else plan.reportSkipped close leaf cause stage).1.knows leaf = true := by
  split
  · next known => exact known
  · simp [reportSkipped, Step.andThen, Step.update]

-- The container is struck off, but by then it has reported the leaf.
theorem accounted_reportUnstarted {close : Nat → Step} {container : NodeId} {failed : List NodeId}
    (closing : ∀ count, (close count).Keeps (plan.AccountsFor leaf))
    (taken : stage.failed.Perm (container :: failed)) (before : plan.AccountsFor leaf stage) :
    plan.AccountsFor leaf (plan.reportUnstarted close container { stage with failed }).1 := by
  have entering (target : List Scope) : (reconcile close target).Keeps (plan.AccountsFor leaf) :=
    fun stage known => closing _ stage known
  by_cases below : leaf ∈ plan.tree.leavesUnder container
  · exact Step.forEach_brings (fun _ => True) below (fun _ _ _ _ => trivial)
      (fun stage _ => .inl (knows_reportUnless close leaf .neverStarted stage))
      (fun other _ => reportUnless_keeps (entering _) (overlooks_accounted other)) trivial
  · refine reportUnstarted_keeps entering (fun other _ => overlooks_accounted other) _
      (before.imp_right ?_)
    rintro ⟨other, member, under⟩
    have different : other ≠ container := by
      rintro rfl
      exact below under
    exact ⟨other, (List.mem_cons.mp (taken.mem_iff.mp member)).resolve_left different, under⟩

theorem lasts_accounted (leaf : NodeId) : plan.Lasts (plan.AccountsFor leaf) where
  opened := fun _ _ known => known
  closed := fun _ _ known => known
  settled := fun _ closing _ _ _ taken known => accounted_reportUnstarted closing taken known
  turned := fun _ _ known => known

theorem lasts_unaccounted (leaf : NodeId) :
    plan.Lasts fun stage => ¬ plan.AccountsFor leaf stage where
  opened := fun _ _ unknown => unknown
  closed := fun _ _ unknown => unknown
  settled := fun close closing stage container failed taken unknown => by
    have apart : ∀ other ∈ plan.tree.leavesUnder container, other ≠ leaf := by
      rintro other below rfl
      exact unknown (.inr ⟨container, taken.mem_iff.mpr (List.mem_cons_self ..), below⟩)
    refine reportUnstarted_keeps (fun target stage unknown => closing _ stage unknown)
      (fun other below => overlooks_unaccounted (apart other below)) _ fun known => unknown ?_
    refine known.imp_right ?_
    rintro ⟨other, member, under⟩
    exact ⟨other, taken.mem_iff.mpr (List.mem_cons_of_mem _ member), under⟩
  turned := fun _ _ unknown => unknown

def callsFor (plan : Plan) (leaf : NodeId) : Event → Bool
  | .node node (.ignored _) => decide (node = leaf ∨ node ∈ plan.tree.ancestors leaf)
  | .node node (.assumptionFailed _) => decide (node ∈ plan.tree.ancestors leaf)
  | .node node (.failed _) => decide (node ∈ plan.tree.ancestors leaf)
  | _ => false

def callsForHeld (plan : Plan) (leaf : NodeId) : Held → Bool
  | .event node progress => plan.callsFor leaf (.node node progress)
  | .skipped other _ => other == leaf

theorem ancestors_containers {above : NodeId} (member : above ∈ plan.tree.ancestors leaf) :
    plan.tree.isContainer above = true := by
  obtain ⟨child, below, _⟩ := mem_ancestors_iff.mp member
  exact isContainer_of_parent? (parent?_of_mem_children below)

theorem callsFor_skip {node : NodeId} {progress : Progress} {cause : Cause}
    (known : plan.tree.isLeaf leaf = true) (skips : plan.skipCause? node progress = some cause) :
    plan.callsFor leaf (.node node progress) = true ↔ leaf ∈ plan.tree.leavesUnder node := by
  rw [mem_leavesUnder_iff]
  cases progress with
  | ignored reason => simp [callsFor, known, @eq_comm _ node]
  | assumptionFailed failure =>
      simp only [skipCause?, Option.ite_none_right_eq_some] at skips
      have different : leaf ≠ node := by
        rintro rfl
        simp [isContainer_eq_false_of_isLeaf known] at skips
      simp [callsFor, known, different]
  | _ => simp [skipCause?] at skips

theorem callsFor_failed {node : NodeId} (failures : List Failure)
    (known : plan.tree.isLeaf leaf = true) :
    plan.callsFor leaf (.node node (.failed failures)) = true ↔
      plan.tree.isContainer node = true ∧ leaf ∈ plan.tree.leavesUnder node := by
  simp only [callsFor, decide_eq_true_eq, mem_leavesUnder_iff, known, true_and]
  refine ⟨fun above => ⟨ancestors_containers above, .inr above⟩, ?_⟩
  rintro ⟨container, rfl | above⟩
  · simp [isContainer_eq_false_of_isLeaf known] at container
  · exact above

-- A failed container of the leaf is reason enough, whether it had failed before or not.
theorem accounted_failNode {node : NodeId} {failures : List Failure}
    (container : plan.tree.isContainer node = true) (below : leaf ∈ plan.tree.leavesUnder node)
    (stage : Stage) : plan.AccountsFor leaf (plan.failNode node failures stage).1 := by
  simp only [failNode, container, if_true, Step.andThen, Step.update]
  refine (lasts_accounted leaf).reportConfiguration node _ _ (.inr ⟨node, ?_, below⟩)
  split
  · next again => exact again
  · simp

theorem accounted_apply (leaf : NodeId) (item : Held) :
    (plan.apply item).Keeps (plan.AccountsFor leaf) := by
  refine (lasts_accounted leaf).apply (fun other _ => overlooks_accounted other)
    fun node failures stage _ _ known => known.imp_right ?_
  rintro ⟨container, member, under⟩
  exact ⟨container, List.mem_append_left _ member, under⟩

theorem not_touched {item : Held} (known : plan.tree.isLeaf leaf = true)
    (spares : item.Spares leaf) (silent : plan.callsForHeld leaf item = false) :
    leaf ∉ plan.touches item := by
  intro touched
  have skipping {node : NodeId} {progress : Progress} (same : item = .event node progress)
      (below : leaf ∈ if (plan.skipCause? node progress).isSome then plan.tree.leavesUnder node
        else []) : False := by
    cases skips : plan.skipCause? node progress with
    | none => simp [skips] at below
    | some cause =>
        have calls := (callsFor_skip known skips).mpr (by simpa [skips] using below)
        simp [same, callsForHeld, calls] at silent
  cases item with
  | skipped other cause => simp_all [touches, callsForHeld]
  | event node progress =>
      cases progress with
      | started => exact spares.ne_of_started (List.mem_singleton.mp touched).symm
      | finished => exact spares.ne_of_finished (List.mem_singleton.mp touched).symm
      | _ => exact skipping rfl touched

theorem unaccounted_apply {item : Held} (known : plan.tree.isLeaf leaf = true)
    (spares : item.Spares leaf) (silent : plan.callsForHeld leaf item = false) :
    (plan.apply item).Keeps fun stage => ¬ plan.AccountsFor leaf stage := by
  refine (lasts_unaccounted leaf).apply (fun other touched => overlooks_unaccounted ?_)
    fun node failures stage same container unknown => ?_
  · rintro rfl
    exact not_touched known spares silent touched
  · rintro (before | ⟨other, member, under⟩)
    · exact unknown (.inl before)
    · rcases List.mem_append.mp member with old | new
      · exact unknown (.inr ⟨other, old, under⟩)
      · rw [List.mem_singleton.mp new] at under
        have calls := (callsFor_failed failures known).mpr ⟨container, under⟩
        simp [same, callsForHeld, calls] at silent

theorem apply_skip {node : NodeId} {progress : Progress} {cause : Cause}
    (skips : plan.skipCause? node progress = some cause) :
    plan.apply (.event node progress) = plan.skipBelow node cause := by
  cases progress with
  | ignored reason =>
      simp only [skipCause?, Option.some.injEq] at skips
      rw [← skips]
      rfl
  | assumptionFailed failure =>
      simp only [skipCause?, Option.ite_none_right_eq_some, Option.some.injEq] at skips
      simp [apply, assumeNode, skips]
  | _ => simp [skipCause?] at skips

theorem knows_skipLeaf {cause : Cause} (idle : stage.running = none) :
    (plan.skipLeaf cause leaf stage).1.knows leaf = true := by
  have once := @knows_reportUnless plan plan.close leaf cause stage
  unfold skipLeaf
  cases status : stage.status? leaf with
  | none => simpa [status, idle] using once
  | some known => cases known <;> simp [Step.write, Step.skip, Stage.knows, status]

theorem accounted_skipBelow {node : NodeId} (cause : Cause) (sound : plan.Sound stage)
    (idle : stage.running = none) (below : leaf ∈ plan.tree.leavesUnder node) :
    plan.AccountsFor leaf (plan.skipBelow node cause stage).1 := by
  have inhabited : (plan.tree.leavesUnder node).isEmpty = false := by
    cases leaves : plan.tree.leavesUnder node with
    | nil => simp [leaves] at below
    | cons => rfl
  simp only [skipBelow, inhabited, Bool.false_eq_true, if_false]
  refine Step.forEach_brings (fun stage => plan.Placed stage.suites ∧ stage.running = none) below
    (fun other member stage ready => ?_) (fun stage ready => .inl (knows_skipLeaf ready.2))
    (fun other _ => (lasts_accounted leaf).skipLeaf cause (overlooks_accounted other))
    ⟨sound.placed, idle⟩
  obtain ⟨suites, placed, _, reached⟩ :=
    skipLeaf_reaches cause (mem_leavesUnder_iff.mp member).1 ready.1 ready.2
  exact ⟨reached.suites ▸ placed, reached.idle ready.2⟩

-- While a test is running, the leaf may have to wait, but then it is left for later.
theorem answered {item : Held} (known : plan.tree.isLeaf leaf = true) (sound : plan.Sound stage)
    (free : plan.isBlocked stage item = false) (calls : plan.callsForHeld leaf item = true) :
    plan.AccountsFor leaf (plan.apply item stage).1 ∨
      ∃ cause, .skipped leaf cause ∈ plan.deferred stage item := by
  cases item with
  | skipped other cause =>
      obtain rfl : other = leaf := by simpa [callsForHeld] using calls
      exact .inl (.inl (knows_reportUnless plan.close other cause stage))
  | event node progress =>
      cases skips : plan.skipCause? node progress with
      | some cause =>
          have below := (callsFor_skip known skips).mp calls
          rw [apply_skip skips]
          cases busy : stage.running with
          | none => exact .inl (accounted_skipBelow cause sound busy below)
          | some running =>
              cases status : stage.status? leaf with
              | none =>
                  refine .inr ⟨cause, ?_⟩
                  simp [deferred, skips, busy, below, status]
              | some status' =>
                  have before : plan.AccountsFor leaf stage := .inl (by simp [Stage.knows, status])
                  rw [← apply_skip skips]
                  exact .inl (accounted_apply leaf _ stage before)
      | none =>
          cases progress with
          | failed failures =>
              obtain ⟨container, below⟩ := (callsFor_failed failures known).mp calls
              exact .inl (accounted_failNode container below stage)
          | assumptionFailed failure =>
              have above : node ∈ plan.tree.ancestors leaf := by
                simpa [callsForHeld, callsFor] using calls
              simp [skipCause?, ancestors_containers above] at skips
          | ignored reason => simp [skipCause?] at skips
          | _ => simp [callsForHeld, callsFor] at calls

theorem calls_of_deferred {item other : Held} (known : plan.tree.isLeaf leaf = true)
    (member : other ∈ plan.deferred stage item) (calls : plan.callsForHeld leaf other = true) :
    plan.callsForHeld leaf item = true := by
  cases item with
  | skipped => simp [deferred] at member
  | event node progress =>
      cases skips : plan.skipCause? node progress with
      | none => simp [deferred, skips] at member
      | some cause =>
          refine (callsFor_skip known skips).mpr ?_
          simp only [deferred, skips] at member
          split at member
          · obtain ⟨below, inside, rfl⟩ := List.mem_map.mp member
            obtain rfl : below = leaf := by simpa [callsForHeld] using calls
            exact (List.mem_filter.mp inside).1
          · simp at member

theorem handed_on {item : Held} (known : plan.tree.isLeaf leaf = true) (sound : plan.Sound stage)
    (free : plan.isBlocked stage item = false) (spares : item.Spares leaf) :
    (plan.AccountsFor leaf (plan.apply item stage).1 ∨
        ∃ other ∈ plan.deferred stage item, plan.callsForHeld leaf other = true) ↔
      (plan.AccountsFor leaf stage ∨ plan.callsForHeld leaf item = true) := by
  constructor
  · rintro (after | ⟨other, member, calls⟩)
    · by_cases before : plan.AccountsFor leaf stage
      · exact .inl before
      · cases calls : plan.callsForHeld leaf item with
        | true => exact .inr rfl
        | false => exact absurd after (unaccounted_apply known spares calls stage before)
    · exact .inr (calls_of_deferred known member calls)
  · rintro (before | calls)
    · exact .inl (accounted_apply leaf item stage before)
    · exact (answered known sound free calls).imp_right fun ⟨cause, member⟩ =>
        ⟨.skipped leaf cause, member, by simp [callsForHeld]⟩

end Plan

end RunStream
