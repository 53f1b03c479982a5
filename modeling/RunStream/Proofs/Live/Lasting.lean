import RunStream.Proofs.Live.Deeds

set_option autoImplicit false

namespace RunStream

variable {plan : Plan} {holds : Stage → Prop}

def Step.Keeps (holds : Stage → Prop) (step : Step) : Prop :=
  ∀ stage, holds stage → holds (step stage).1

namespace Step

theorem keeps_skip : skip.Keeps holds := fun _ known => known

theorem keeps_write (notices : List Notice) : (write notices).Keeps holds := fun _ known => known

theorem Keeps.andThen {first second : Step} (left : first.Keeps holds)
    (right : second.Keeps holds) : (first.andThen second).Keeps holds :=
  fun stage known => right _ (left stage known)

theorem keeps_forEach {α : Type} {items : List α} {step : α → Step}
    (each : ∀ item ∈ items, (step item).Keeps holds) : (forEach items step).Keeps holds := by
  induction items with
  | nil => exact keeps_skip
  | cons item rest ih =>
      exact (each item (List.mem_cons_self ..)).andThen
        (ih fun other member => each other (List.mem_cons_of_mem _ member))

-- One of the steps brings the fact about, and those after it keep it.
theorem forEach_brings {α : Type} (given : Stage → Prop) {items : List α} {step : α → Step}
    {item : α} (member : item ∈ items) (stays : ∀ other ∈ items, (step other).Keeps given)
    (brings : ∀ stage, given stage → holds (step item stage).1)
    (keeps : ∀ other ∈ items, (step other).Keeps holds) {stage : Stage} (start : given stage) :
    holds (forEach items step stage).1 := by
  induction items generalizing stage with
  | nil => simp at member
  | cons first rest ih =>
      have later : ∀ other ∈ rest, (step other).Keeps holds :=
        fun other inRest => keeps other (List.mem_cons_of_mem _ inRest)
      rcases List.mem_cons.mp member with rfl | inRest
      · exact keeps_forEach later _ (brings stage start)
      · exact ih inRest (fun other inRest => stays other (List.mem_cons_of_mem _ inRest)) later
          (stays first (List.mem_cons_self ..) stage start)

end Step

theorem mem_failed_of_pendingFailure? {stage : Stage} {count : Nat} {container : NodeId}
    (pending : stage.pendingFailure? count = some container) : container ∈ stage.failed := by
  obtain ⟨scope, _, behind⟩ := Option.bind_eq_some_iff.mp pending
  cases scope with
  | testClass name => simp [Stage.failedBehind?] at behind
  | container id =>
      simp only [Stage.failedBehind?, Option.ite_none_right_eq_some, Option.some.injEq] at behind
      exact behind.2 ▸ behind.1

namespace Plan

structure Stays (plan : Plan) (holds : Stage → Prop) : Prop where
  opened : ∀ scopes, (openSuites scopes).Keeps holds
  closed : ∀ count, (closeClean count).Keeps holds
  settled : ∀ close : Nat → Step, (∀ count, (close count).Keeps holds) →
    ∀ (stage : Stage) (container : NodeId) (failed : List NodeId),
      stage.failed.Perm (container :: failed) → holds stage →
      holds (plan.reportUnstarted close container { stage with failed }).1

-- Which test is running makes no difference to the fact either.
structure Lasts (plan : Plan) (holds : Stage → Prop) : Prop extends plan.Stays holds where
  turned : ∀ (stage : Stage) (running : Option NodeId), holds stage → holds { stage with running }

def Overlooks (holds : Stage → Prop) (leaf : NodeId) : Prop :=
  ∀ (stage : Stage) (status : LeafStatus), holds stage → holds (stage.mark leaf status)

theorem Stays.reconcile (stays : plan.Stays holds) {close : Nat → Step}
    (closing : ∀ count, (close count).Keeps holds) (target : List Scope) :
    (reconcile close target).Keeps holds :=
  fun stage known => stays.opened _ _ (closing _ stage known)

theorem reportSkipped_keeps {close : Nat → Step} {leaf : NodeId} {cause : Cause}
    (entering : (RunStream.reconcile close (plan.leafScopes leaf)).Keeps holds)
    (marked : Overlooks holds leaf) : (plan.reportSkipped close leaf cause).Keeps holds :=
  entering.andThen ((Step.keeps_write _).andThen fun stage known => marked stage .finished known)

theorem reportUnless_keeps {close : Nat → Step} {leaf : NodeId} {cause : Cause}
    (entering : (RunStream.reconcile close (plan.leafScopes leaf)).Keeps holds)
    (marked : Overlooks holds leaf) : Step.Keeps holds fun stage =>
      if (stage.status? leaf).isSome then Step.skip stage
      else plan.reportSkipped close leaf cause stage := by
  intro stage known
  by_cases started : (stage.status? leaf).isSome
  · simpa [started, Step.skip] using known
  · simpa [started] using reportSkipped_keeps entering marked stage known

theorem reportUnstarted_keeps {close : Nat → Step} {container : NodeId}
    (entering : ∀ target, (RunStream.reconcile close target).Keeps holds)
    (marked : ∀ leaf ∈ plan.tree.leavesUnder container, Overlooks holds leaf) :
    (plan.reportUnstarted close container).Keeps holds :=
  Step.keeps_forEach fun leaf member => reportUnless_keeps (entering _) (marked leaf member)

namespace Stays

theorem closeWithin (stays : plan.Stays holds) (level count : Nat) :
    (plan.closeWithin level count).Keeps holds := by
  induction level generalizing count with
  | zero => exact stays.closed count
  | succ level ih =>
      refine (stays.closed count).andThen fun stage known => ?_
      cases pending : stage.pendingFailure? count with
      | none => exact known
      | some container =>
          have taken := removeSwapping_perm (mem_failed_of_pendingFailure? pending)
          exact ih count _ (stays.settled _ ih stage container _ taken known)

theorem close (stays : plan.Stays holds) (count : Nat) : (plan.close count).Keeps holds :=
  fun stage known => stays.closeWithin stage.failed.length count stage known

theorem enter (stays : plan.Stays holds) (target : List Scope) : (plan.enter target).Keeps holds :=
  stays.reconcile stays.close target

theorem reportConfiguration (stays : plan.Stays holds) (container : NodeId) (body : List Notice) :
    (plan.reportConfiguration container body).Keeps holds :=
  (stays.enter _).andThen (Step.keeps_write _)

theorem failNode (stays : plan.Stays holds) {node : NodeId} {failures : List Failure}
    (condemned : ∀ stage, plan.tree.isContainer node = true → holds stage →
      holds { stage with failed := stage.failed ++ [node] }) :
    (plan.failNode node failures).Keeps holds := by
  intro stage known
  cases container : plan.tree.isContainer node with
  | false => simpa [Plan.failNode, container, Step.write] using known
  | true =>
      simp only [Plan.failNode, container, if_true, Step.andThen, Step.update]
      refine stays.reportConfiguration node _ _ ?_
      split
      · exact known
      · exact condemned stage container known

theorem skipLeaf (stays : plan.Stays holds) (cause : Cause) {leaf : NodeId}
    (marked : Overlooks holds leaf) : (plan.skipLeaf cause leaf).Keeps holds := by
  intro stage known
  unfold Plan.skipLeaf
  split
  · exact known
  · exact known
  · split
    · exact known
    · exact reportSkipped_keeps (stays.enter _) marked stage known

theorem skipBelow (stays : plan.Stays holds) {node : NodeId} (cause : Cause)
    (marked : ∀ leaf ∈ plan.tree.leavesUnder node, Overlooks holds leaf) :
    (plan.skipBelow node cause).Keeps holds := by
  unfold Plan.skipBelow
  split
  · exact stays.reportConfiguration node _
  · exact Step.keeps_forEach fun leaf member => stays.skipLeaf cause (marked leaf member)

theorem reportFailedWithin (stays : plan.Stays holds) (limit : Nat) :
    (plan.reportFailedWithin limit).Keeps holds := by
  induction limit with
  | zero => exact Step.keeps_skip
  | succ limit ih =>
      intro stage known
      rcases List.eq_nil_or_concat stage.failed with none | ⟨others, container, failed⟩
      · simpa [Plan.reportFailedWithin, none, Step.skip] using known
      · rw [List.concat_eq_append] at failed
        have taken : stage.failed.Perm (container :: others) := failed ▸ List.perm_append_comm
        have settled := stays.settled plan.close stays.close stage container others taken known
        simpa [Plan.reportFailedWithin, failed, Step.andThen] using ih _ settled

end Stays

def touches (plan : Plan) : Held → List NodeId
  | .skipped leaf _ => [leaf]
  | .event node .started | .event node .finished => [node]
  | .event node progress =>
      if (plan.skipCause? node progress).isSome then plan.tree.leavesUnder node else []

theorem Stays.apply (stays : plan.Stays holds) {item : Held} (quiet : plan.turns item = false)
    (marked : ∀ leaf ∈ plan.touches item, Overlooks holds leaf)
    (condemned : ∀ node failures stage, item = .event node (.failed failures) →
      plan.tree.isContainer node = true → holds stage →
      holds { stage with failed := stage.failed ++ [node] }) :
    (plan.apply item).Keeps holds := by
  cases item with
  | skipped leaf cause =>
      exact reportUnless_keeps (stays.enter _) (marked leaf (by simp [touches]))
  | event node progress =>
      cases progress with
      | started =>
          have container : plan.tree.isContainer node = true := by simpa [turns] using quiet
          simpa [Plan.apply, startNode, container] using stays.enter _
      | finished =>
          have container : plan.tree.isContainer node = true := by simpa [turns] using quiet
          intro stage known
          simp only [Plan.apply, finishNode, container, if_true]
          split
          · exact stays.close _ stage known
          · exact known
      | failed failures => exact stays.failNode fun stage => condemned node failures stage rfl
      | assumptionFailed failure =>
          simp only [Plan.apply, assumeNode]
          split
          · next container =>
              exact stays.skipBelow _ (by simpa [touches, skipCause?, container] using marked)
          · exact Step.keeps_write _
      | ignored reason => exact stays.skipBelow _ (by simpa [touches, skipCause?] using marked)

theorem Lasts.apply (lasts : plan.Lasts holds) {item : Held}
    (marked : ∀ leaf ∈ plan.touches item, Overlooks holds leaf)
    (condemned : ∀ node failures stage, item = .event node (.failed failures) →
      plan.tree.isContainer node = true → holds stage →
      holds { stage with failed := stage.failed ++ [node] }) :
    (plan.apply item).Keeps holds := by
  cases turns : plan.turns item with
  | false => exact lasts.toStays.apply turns marked condemned
  | true =>
      cases item with
      | skipped leaf cause => simp [Plan.turns] at turns
      | event node progress =>
          cases progress with
          | started =>
              have leaf : plan.tree.isContainer node = false := by simpa [Plan.turns] using turns
              intro stage known
              have entered := lasts.enter (plan.leafScopes node) stage known
              simp only [Plan.apply, startNode, leaf, Bool.false_eq_true, if_false]
              exact lasts.turned _ _ (marked node (by simp [touches]) _ .running entered)
          | finished =>
              have leaf : plan.tree.isContainer node = false := by simpa [Plan.turns] using turns
              intro stage known
              simp only [Plan.apply, finishNode, leaf, Bool.false_eq_true, if_false]
              exact lasts.turned _ _ (marked node (by simp [touches]) stage .finished known)
          | _ => simp [Plan.turns] at turns

theorem stays_of_failed (same : ∀ before after : Stage, before.running = after.running →
      before.failed = after.failed → holds before → holds after)
    (struck : ∀ (stage : Stage) (container : NodeId) (failed : List NodeId),
      stage.failed.Perm (container :: failed) → holds stage → holds { stage with failed }) :
    plan.Stays holds where
  opened := fun _ stage known => same stage _ rfl rfl known
  closed := fun _ stage known => same stage _ rfl rfl known
  settled := fun close closing stage container failed taken known => by
    refine reportUnstarted_keeps (fun target stage known => ?_)
      (fun _ _ stage _ known => same stage _ rfl rfl known) _
      (struck stage container failed taken known)
    exact same (close (sharedLength stage.suites target) stage).1 _ rfl rfl (closing _ stage known)

theorem stays_running (plan : Plan) (running : Option NodeId) :
    plan.Stays (·.running = running) :=
  stays_of_failed (fun _ _ same _ known => same ▸ known) fun _ _ _ _ known => known

theorem stays_failed (plan : Plan) (bound : Nat) : plan.Stays (·.failed.length ≤ bound) :=
  stays_of_failed (fun _ _ _ same known => same ▸ known) fun _ _ _ taken known => by
    have fewer := taken.length_eq
    simp only [List.length_cons] at fewer ⊢
    omega

theorem running_apply {item : Held} (quiet : plan.turns item = false) (stage : Stage) :
    (plan.apply item stage).1.running = stage.running :=
  (stays_running plan stage.running).apply quiet (fun _ _ _ _ known => known)
    (fun _ _ _ _ _ known => known) stage rfl

end Plan

end RunStream
