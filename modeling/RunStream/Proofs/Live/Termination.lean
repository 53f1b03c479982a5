import RunStream.Proofs.Live.Course

set_option autoImplicit false

namespace RunStream

variable {plan : Plan} {stage : Stage} {session : Session}

inductive Errand where
  | close (count : Nat)
  | report (leaves : List NodeId)
  -- Reports the leaves of all failed containers, the latest one first.
  | settle

namespace Plan

/-- How an errand goes.  At most `level` times closing is under way, one inside the other. -/
inductive Performs (plan : Plan) : (level : Nat) → Errand → Stage → List Notice → Stage → Prop
  | closed {level count : Nat} {stage : Stage} (few : stage.suites.length ≤ count) :
      Performs plan (level + 1) (.close count) stage [] stage
  | popped {level count : Nat} {stage final : Stage} {written : List Notice} (outer : List Scope)
      (scope : Scope) (top : stage.suites = outer ++ [scope]) (more : count < stage.suites.length)
      (clean : stage.failedBehind? scope = none)
      (rest : Performs plan (level + 1) (.close count) { stage with suites := outer } written
        final) :
      Performs plan (level + 1) (.close count) stage (.suiteClosed scope :: written) final
  | settled {level count : Nat} {stage middle final : Stage} {written more : List Notice}
      (outer : List Scope) (scope : Scope) (container : NodeId)
      (top : stage.suites = outer ++ [scope]) (enough : count < stage.suites.length)
      (failed : stage.failedBehind? scope = some container)
      (report : Performs plan level (.report (plan.tree.leavesUnder container))
        (stage.settle container) written middle)
      (rest : Performs plan (level + 1) (.close count) middle more final) :
      Performs plan (level + 1) (.close count) stage (written ++ more) final
  | reported {level : Nat} {stage : Stage} : Performs plan level (.report []) stage [] stage
  | passed {level : Nat} {stage final : Stage} {written : List Notice} (leaf : NodeId)
      (leaves : List NodeId) (known : (stage.status? leaf).isSome = true)
      (rest : Performs plan level (.report leaves) stage written final) :
      Performs plan level (.report (leaf :: leaves)) stage written final
  | skipped {level shared : Nat} {stage middle final : Stage} {closing written : List Notice}
      (leaf : NodeId) (leaves : List NodeId) (fresh : (stage.status? leaf).isSome = false)
      (common : shared = sharedLength stage.suites (plan.leafScopes leaf))
      (closes : Performs plan level (.close shared) stage closing middle)
      (rest : Performs plan level (.report leaves)
        ({ middle with suites := middle.suites ++ (plan.leafScopes leaf).drop shared }.mark leaf
          .finished) written final) :
      Performs plan level (.report (leaf :: leaves)) stage
        (closing ++ ((plan.leafScopes leaf).drop shared).map .suiteOpened ++
          [.testStarted (.leaf leaf), .testIgnored (.leaf leaf) .neverStarted,
            .testFinished (.leaf leaf)] ++ written) final
  | emptied {level : Nat} {stage : Stage} (none : stage.failed = []) :
      Performs plan level .settle stage [] stage
  | struck {level : Nat} {stage middle final : Stage} {written more : List Notice}
      (others : List NodeId) (container : NodeId) (last : stage.failed = others ++ [container])
      (report : Performs plan level (.report (plan.tree.leavesUnder container))
        { stage with failed := others } written middle)
      (rest : Performs plan level .settle middle more final) :
      Performs plan level .settle stage (written ++ more) final

namespace Performs

variable {level : Nat} {errand : Errand} {final : Stage} {written : List Notice}

theorem succ (performs : plan.Performs level errand stage written final) :
    plan.Performs (level + 1) errand stage written final := by
  induction performs with
  | closed few => exact .closed few
  | popped outer scope top more clean _ ih => exact .popped outer scope top more clean ih
  | settled outer scope container top enough failed _ _ ihReport ih =>
      exact .settled outer scope container top enough failed ihReport ih
  | reported => exact .reported
  | passed leaf leaves known _ ih => exact .passed leaf leaves known ih
  | skipped leaf leaves fresh common _ _ ihCloses ih =>
      exact .skipped leaf leaves fresh common ihCloses ih
  | emptied none => exact .emptied none
  | struck others container last _ _ ihReport ih => exact .struck others container last ihReport ih

theorem mono {larger : Nat} (performs : plan.Performs level errand stage written final)
    (more : level ≤ larger) : plan.Performs larger errand stage written final := by
  induction more with
  | refl => exact performs
  | step _ ih => exact ih.succ

theorem unique {level' : Nat} {final' : Stage} {written' : List Notice}
    (left : plan.Performs level errand stage written final)
    (right : plan.Performs level' errand stage written' final') :
    final = final' ∧ written = written' := by
  induction left generalizing level' written' final' with
  | closed few =>
      cases right with
      | closed => exact ⟨rfl, rfl⟩
      | popped _ _ _ more => omega
      | settled _ _ _ _ enough => omega
  | popped outer scope top more clean _ ih =>
      cases right with
      | closed few => omega
      | popped outer' scope' top' _ _ rest =>
          obtain ⟨rfl, same⟩ := List.append_inj' (top.symm.trans top') rfl
          obtain ⟨rfl, rfl⟩ := ih rest
          simpa using same
      | settled outer' scope' container top' _ failed =>
          obtain ⟨rfl, same⟩ := List.append_inj' (top.symm.trans top') rfl
          simp_all
  | settled outer scope container top enough failed _ _ ihReport ih =>
      cases right with
      | closed few => omega
      | popped outer' scope' top' _ clean =>
          obtain ⟨rfl, same⟩ := List.append_inj' (top.symm.trans top') rfl
          simp_all
      | settled outer' scope' container' top' _ failed' report rest =>
          obtain ⟨rfl, same⟩ := List.append_inj' (top.symm.trans top') rfl
          obtain rfl : scope = scope' := by simpa using same
          obtain rfl : container = container' := Option.some.inj (failed.symm.trans failed')
          obtain ⟨rfl, rfl⟩ := ihReport report
          obtain ⟨rfl, rfl⟩ := ih rest
          exact ⟨rfl, rfl⟩
  | reported =>
      cases right with
      | reported => exact ⟨rfl, rfl⟩
  | passed leaf leaves known _ ih =>
      cases right with
      | passed _ _ _ rest => exact ih rest
      | skipped _ _ fresh => simp [known] at fresh
  | skipped leaf leaves fresh common _ _ ihCloses ih =>
      cases right with
      | passed _ _ known => simp [known] at fresh
      | skipped _ _ _ common' closes rest =>
          subst common common'
          obtain ⟨rfl, rfl⟩ := ihCloses closes
          obtain ⟨rfl, rfl⟩ := ih rest
          exact ⟨rfl, rfl⟩
  | emptied none =>
      cases right with
      | emptied => exact ⟨rfl, rfl⟩
      | struck others container last => simp [none] at last
  | struck others container last _ _ ihReport ih =>
      cases right with
      | emptied none => simp [none] at last
      | struck others' container' last' report rest =>
          obtain ⟨rfl, same⟩ := List.append_inj' (last.symm.trans last') rfl
          obtain rfl : container = container' := by simpa using same
          obtain ⟨rfl, rfl⟩ := ihReport report
          obtain ⟨rfl, rfl⟩ := ih rest
          exact ⟨rfl, rfl⟩

theorem pops {count : Nat} {outer : List Scope} (closing : List Scope)
    (top : stage.suites = outer ++ closing.reverse)
    (clean : ∀ scope ∈ closing, stage.failedBehind? scope = none) (enough : count ≤ outer.length)
    (rest : plan.Performs (level + 1) (.close count) { stage with suites := outer } written final) :
    plan.Performs (level + 1) (.close count) stage (closing.map .suiteClosed ++ written) final := by
  induction closing generalizing stage with
  | nil =>
      have same : { stage with suites := outer } = stage := by
        cases stage
        simpa using top.symm
      exact same ▸ rest
  | cons scope below ih =>
      have later := @ih { stage with suites := outer ++ below.reverse } rfl
        (fun other member => clean other (List.mem_cons_of_mem _ member)) rest
      refine .popped (outer ++ below.reverse) scope (by simpa using top) ?_
        (clean scope (List.mem_cons_self ..)) later
      simp only [top, List.length_append, List.length_reverse, List.length_cons]
      omega

theorem closeClean {count : Nat}
    (rest : plan.Performs (level + 1) (.close count) (closeClean count stage).1 written final) :
    plan.Performs (level + 1) (.close count) stage ((closeClean count stage).2 ++ written)
      final := by
  rcases Nat.le_total stage.suites.length count with few | enough
  · rw [closeClean_of_length_le few] at rest ⊢
    exact rest
  · obtain ⟨left, closing, split, result, clean, _⟩ := closeClean_split count stage
    rw [result] at rest ⊢
    refine rest.pops closing split clean ?_
    simp only [List.length_append, List.length_take_of_le enough]
    omega

end Performs

theorem exists_of_pendingFailure? {count : Nat} {container : NodeId}
    (pending : stage.pendingFailure? count = some container) :
    ∃ outer scope, stage.suites = outer ++ [scope] ∧ count < stage.suites.length ∧
      stage.failedBehind? scope = some container := by
  obtain ⟨scope, last, behind⟩ := Option.bind_eq_some_iff.mp pending
  obtain ⟨inner, split⟩ := List.getLast?_eq_some_iff.mp last
  have whole := List.take_append_drop count stage.suites
  rw [split, ← List.append_assoc] at whole
  refine ⟨_, scope, whole.symm, ?_, behind⟩
  have width := congrArg List.length split
  simp only [List.length_drop, List.length_append, List.length_singleton] at width
  omega

theorem length_closeClean_le {count : Nat}
    (none : (closeClean count stage).1.pendingFailure? count = none) :
    (closeClean count stage).1.suites.length ≤ count := by
  obtain ⟨left, closing, split, result, _, ending⟩ := closeClean_split count stage
  rw [result] at none ⊢
  rcases ending with rfl | ⟨inner, container, rfl, failed⟩
  · rw [List.append_nil]
    exact List.length_take_le count stage.suites
  · have lengths := congrArg List.length split
    have width : (stage.suites.take count).length = count := by
      simp only [List.length_append, List.length_take, List.length_singleton] at lengths ⊢
      omega
    have pending := @pendingFailure?_append { stage with
      suites := stage.suites.take count ++ (inner ++ [.container container]) } _ _ rfl
    rw [width, none, List.getLast?_concat] at pending
    simp [Stage.failedBehind?, failed] at pending

theorem reportUnstarted_performs {level bound : Nat} {close : Nat → Step}
    (closes : ∀ (count : Nat) (stage : Stage), stage.failed.length ≤ bound →
      plan.Performs level (.close count) stage (close count stage).2 (close count stage).1)
    (keeps : ∀ count, (close count).Keeps (·.failed.length ≤ bound)) (container : NodeId)
    (few : stage.failed.length ≤ bound) :
    plan.Performs level (.report (plan.tree.leavesUnder container)) stage
        (plan.reportUnstarted close container stage).2
        (plan.reportUnstarted close container stage).1 ∧
      (plan.reportUnstarted close container stage).1.failed.length ≤ bound := by
  refine ⟨?_, reportUnstarted_keeps (fun target => (stays_failed plan bound).reconcile keeps target)
    (fun _ _ _ _ known => known) stage few⟩
  unfold reportUnstarted
  induction plan.tree.leavesUnder container generalizing stage with
  | nil => exact .reported
  | cons leaf rest ih =>
      cases status : (stage.status? leaf).isSome with
      | true =>
          have performed := Performs.passed leaf rest status (ih few)
          simpa [Step.forEach, Step.andThen, status, Step.skip] using performed
      | false =>
          have fewer : (plan.reportSkipped close leaf .neverStarted stage).1.failed.length ≤
              bound := keeps (sharedLength stage.suites (plan.leafScopes leaf)) stage few
          have closed := closes (sharedLength stage.suites (plan.leafScopes leaf)) stage few
          have performed := Performs.skipped leaf rest status rfl closed (ih fewer)
          simpa [Step.forEach, Step.andThen, status, reportSkipped, reconcile, Step.write,
            Step.update, openSuites] using performed

theorem closeWithin_performs (level count : Nat) (stage : Stage)
    (few : stage.failed.length ≤ level) :
    plan.Performs (level + 1) (.close count) stage (plan.closeWithin level count stage).2
      (plan.closeWithin level count stage).1 := by
  induction level generalizing count stage with
  | zero =>
      have none : (closeClean count stage).1.pendingFailure? count = none := by
        cases pending : (closeClean count stage).1.pendingFailure? count with
        | none => rfl
        | some container =>
            have failed : container ∈ (closeClean count stage).1.failed :=
              mem_failed_of_pendingFailure? pending
            change container ∈ stage.failed at failed
            simp [List.length_eq_zero_iff.mp (Nat.le_zero.mp few)] at failed
      simpa [closeWithin] using Performs.closeClean (.closed (length_closeClean_le none))
  | succ level ih =>
      cases pending : (closeClean count stage).1.pendingFailure? count with
      | none =>
          have performed : plan.Performs (level + 2) _ _ _ _ :=
            .closeClean (.closed (length_closeClean_le pending))
          simpa [closeWithin, Step.andThen, Step.skip, pending] using performed
      | some container =>
          obtain ⟨outer, scope, top, enough, behind⟩ := exists_of_pendingFailure? pending
          have taken := (removeSwapping_perm (mem_failed_of_pendingFailure? pending)).length_eq
          have fewer : ((closeClean count stage).1.settle container).failed.length ≤ level := by
            have same : (closeClean count stage).1.failed = stage.failed := rfl
            simp only [List.length_cons, same] at taken
            simp only [Stage.settle, same]
            omega
          obtain ⟨reported, still⟩ := reportUnstarted_performs ih
            (fun count => (stays_failed plan level).closeWithin level count) container fewer
          have rest := (ih count _ still).succ
          have performed := Performs.closeClean
            (.settled outer scope container top enough behind reported rest)
          simpa [closeWithin, Step.andThen, pending] using performed

theorem close_performs (plan : Plan) (count : Nat) (stage : Stage) :
    plan.Performs (stage.failed.length + 1) (.close count) stage (plan.close count stage).2
      (plan.close count stage).1 :=
  closeWithin_performs stage.failed.length count stage (Nat.le_refl _)

theorem reportFailedWithin_performs (limit : Nat) (stage : Stage)
    (few : stage.failed.length ≤ limit) :
    plan.Performs limit .settle stage (plan.reportFailedWithin limit stage).2
      (plan.reportFailedWithin limit stage).1 := by
  induction limit generalizing stage with
  | zero => exact .emptied (List.length_eq_zero_iff.mp (Nat.le_zero.mp few))
  | succ limit ih =>
      rcases List.eq_nil_or_concat stage.failed with none | ⟨others, container, last⟩
      · simpa [reportFailedWithin, none, Step.skip] using .emptied none
      · rw [List.concat_eq_append] at last
        have fewer : ({ stage with failed := others } : Stage).failed.length ≤ limit := by
          simp only [last, List.length_append, List.length_singleton] at few ⊢
          omega
        have closes (count : Nat) (stage : Stage) (few : stage.failed.length ≤ limit) :=
          (close_performs plan count stage).mono (Nat.succ_le_succ few)
        obtain ⟨reported, still⟩ := reportUnstarted_performs closes
          (fun count => (stays_failed plan limit).close count) container fewer
        have performed := Performs.struck others container last reported (ih _ still).succ
        simpa [reportFailedWithin, last, Step.andThen] using performed

theorem reportFailed_performs (plan : Plan) (stage : Stage) :
    plan.Performs stage.failed.length .settle stage (plan.reportFailed stage).2
      (plan.reportFailed stage).1 :=
  reportFailedWithin_performs _ stage (Nat.le_refl _)

inductive Applies (plan : Plan) : Session → List Held → List Notice → Session → Prop
  | settled {session : Session} (blocked : plan.Settled session) :
      Applies plan session [] [] session
  | applied {session final : Session} {applied : List Held} {written : List Notice}
      (waiting : List Held) (item : Held) (later : List Held)
      (queue : session.held = waiting ++ item :: later)
      (blocked : ∀ other ∈ waiting, plan.isBlocked session.stage other = true)
      (free : plan.isBlocked session.stage item = false)
      (rest : Applies plan (plan.advance session waiting item later) applied written final) :
      Applies plan session (item :: applied) ((plan.apply item session.stage).2 ++ written) final

theorem Drains.applies {final : Session} {written : List Notice}
    (drains : plan.Drains session written final) :
    ∃ applied, plan.Applies session applied written final := by
  induction drains with
  | settled blocked => exact ⟨[], .settled blocked⟩
  | applied waiting item later queue blocked free _ ih =>
      obtain ⟨applied, rest⟩ := ih
      exact ⟨item :: applied, .applied waiting item later queue blocked free rest⟩

theorem Applies.drains {final : Session} {applied : List Held} {written : List Notice}
    (applies : plan.Applies session applied written final) :
    plan.Drains session written final := by
  induction applies with
  | settled blocked => exact .settled blocked
  | applied waiting item later queue blocked free _ ih =>
      exact .applied waiting item later queue blocked free ih

def skippedLeaves (plan : Plan) : Held → List NodeId
  | .event node (.assumptionFailed _) | .event node (.ignored _) => plan.tree.leavesUnder node
  | _ => []

theorem heldWeight_le (item : Held) :
    plan.heldWeight item ≤ (plan.skippedLeaves item).length + 1 := by
  cases item with
  | skipped leaf cause => exact Nat.le_refl _
  | event node progress =>
      cases progress with
      | assumptionFailed failure =>
          simp only [heldWeight, skipCause?, skippedLeaves]
          split <;> omega
      | _ => exact Nat.le_refl _

theorem queueWeight_le (held : List Held) :
    plan.queueWeight held ≤ held.length + (held.flatMap plan.skippedLeaves).length := by
  induction held with
  | nil => exact Nat.le_refl _
  | cons item rest ih =>
      have here := @heldWeight_le plan item
      simp only [queueWeight_cons, List.length_cons, List.flatMap_cons, List.length_append]
      omega

-- Each item that is applied makes the queue lighter, whatever it leaves for later.
theorem Applies.length_le {final : Session} {applied : List Held} {written : List Notice}
    (applies : plan.Applies session applied written final) :
    applied.length ≤ plan.queueWeight session.held := by
  induction applies with
  | settled _ => exact Nat.zero_le _
  | @applied session _ _ _ waiting item later queue _ _ _ ih =>
      have lighter := queueWeight_deferred_lt plan session.stage item
      simp only [advance, queueWeight_append] at ih
      simp only [queue, queueWeight_append, queueWeight_cons, List.length_cons]
      omega

inductive Forces (plan : Plan) : Session → List NodeId → List Notice → Session → Prop
  | idle {session final : Session} {written : List Notice}
      (drains : plan.Drains session written final) (idle : final.stage.running = none) :
      Forces plan session [] written final
  | forced {session middle final : Session} {leaves : List NodeId} {written more : List Notice}
      (leaf : NodeId) (drains : plan.Drains session written middle)
      (busy : middle.stage.running = some leaf)
      (rest : Forces plan { middle with stage := (finishLeaf leaf middle.stage).1 } leaves more
        final) :
      Forces plan session (leaf :: leaves)
        (written ++ [.cutShort leaf, .testFinished (.leaf leaf)] ++ more) final

theorem openTests_forced {leaf : NodeId} (busy : session.stage.running = some leaf) :
    openTests { session with stage := (finishLeaf leaf session.stage).1 } + 1 =
      openTests session := by
  simp [openTests, finishLeaf, Step.andThen, Step.write, Step.update, busy]

theorem finishTestsWithin_forces (limit : Nat) (session : Session)
    (bound : openTests session ≤ limit) :
    ∃ forced, plan.Forces session forced (plan.finishTestsWithin limit session).2
      (plan.finishTestsWithin limit session).1 := by
  induction limit generalizing session with
  | zero =>
      have drains := drains_drain plan session
      refine ⟨[], .idle drains ?_⟩
      cases busy : (plan.drain session).1.stage.running with
      | none => exact busy
      | some leaf =>
          have few := drains.openTests_le
          have one := openTests_forced busy
          omega
  | succ limit ih =>
      have drains := drains_drain plan session
      cases busy : (plan.drain session).1.stage.running with
      | none =>
          refine ⟨[], ?_⟩
          simpa only [finishTestsWithin, busy] using .idle drains busy
      | some leaf =>
          have few := drains.openTests_le
          have one := openTests_forced busy
          obtain ⟨forced, rest⟩ :=
            ih _ (Nat.le_of_succ_le_succ (Nat.le_trans (Nat.le_of_eq one) (Nat.le_trans few bound)))
          refine ⟨leaf :: forced, ?_⟩
          simpa [finishTestsWithin, busy, Step.andThen, Step.write, finishLeaf, Step.update] using
            Forces.forced leaf drains busy rest

theorem finishTests_forces (plan : Plan) (session : Session) :
    ∃ forced, plan.Forces session forced (plan.finishTests session).2
      (plan.finishTests session).1 := by
  refine finishTestsWithin_forces _ session ?_
  unfold openTests
  split <;> omega

namespace Forces

variable {final : Session} {forced : List NodeId} {written : List Notice}

theorem length_le (forces : plan.Forces session forced written final) :
    forced.length ≤ openTests session := by
  induction forces with
  | idle _ _ => exact Nat.zero_le _
  | forced leaf drains busy _ ih =>
      have few := drains.openTests_le
      have one := openTests_forced busy
      simp only [List.length_cons]
      omega

theorem held_eq_nil (forces : plan.Forces session forced written final) : final.held = [] := by
  induction forces with
  | idle drains idle => exact drains.is_settled.held_eq_nil idle
  | forced _ _ _ _ ih => exact ih

theorem unique {final' : Session} {forced' : List NodeId} {written' : List Notice}
    (left : plan.Forces session forced written final)
    (right : plan.Forces session forced' written' final') :
    final = final' ∧ written = written' := by
  induction left generalizing forced' written' with
  | idle drains idle =>
      cases right with
      | idle drains' _ => exact drains.unique drains'
      | forced leaf drains' busy =>
          obtain ⟨rfl, _⟩ := drains.unique drains'
          simp [idle] at busy
  | forced leaf drains busy _ ih =>
      cases right with
      | idle drains' idle =>
          obtain ⟨rfl, _⟩ := drains.unique drains'
          simp [idle] at busy
      | forced leaf' drains' busy' rest =>
          obtain ⟨rfl, rfl⟩ := drains.unique drains'
          obtain rfl : leaf = leaf' := Option.some.inj (busy.symm.trans busy')
          obtain ⟨rfl, rfl⟩ := ih rest
          exact ⟨rfl, rfl⟩

end Forces

inductive TakesIn (plan : Plan) : Event → Session → List Notice → Session → Prop
  | dropped {session : Session} (node : NodeId) (progress : Progress)
      (foreign : plan.tree.contains node = false) :
      TakesIn plan (.node node progress) session [] session
  | received {session final : Session} {applied : List Held} {written : List Notice} (node : NodeId)
      (progress : Progress) (known : plan.tree.contains node = true)
      (applies : plan.Applies { session with held := session.held ++ [.event node progress] }
        applied written final) :
      TakesIn plan (.node node progress) session written final
  | ended {event : Event} {session middle : Session} {forced : List NodeId}
      {written settled closed : List Notice} {left last : Stage} (ends : event.endsRun = true)
      (forces : plan.Forces session forced written middle)
      (settles : plan.Performs middle.stage.failed.length .settle middle.stage settled left)
      (closes : plan.Performs (left.failed.length + 1) (.close 0) left closed last) :
      TakesIn plan event session
        (written ++ settled ++ closed ++ plan.opening event middle.described)
        { middle with stage := { last with leaves := [] } }

theorem takesIn_handle (plan : Plan) (event : Event) (session : Session) :
    plan.TakesIn event session (plan.handle event session).2 (plan.handle event session).1 := by
  have ending (ends : event.endsRun = true) :
      plan.TakesIn event session
        ((plan.finishRun session).2 ++ plan.opening event (plan.finishRun session).1.described)
        (plan.finishRun session).1 := by
    obtain ⟨forced, forces⟩ := finishTests_forces plan session
    have settles := reportFailed_performs plan (plan.finishTests session).1.stage
    have closes := close_performs plan 0 (plan.reportFailed (plan.finishTests session).1.stage).1
    simpa [finishRun, leave, Step.andThen, Step.update] using
      TakesIn.ended ends forces settles closes
  cases event with
  | runStarted => simpa [handle, opening] using ending rfl
  | runFinished => simpa [handle, opening] using ending rfl
  | node id progress =>
      cases known : plan.tree.contains id with
      | false =>
          rw [handle_foreign known]
          exact .dropped id progress known
      | true =>
          rw [handle_known known]
          obtain ⟨applied, applies⟩ := (drains_drain plan _).applies
          exact .received id progress known applies

theorem TakesIn.unique {event : Event} {final final' : Session} {written written' : List Notice}
    (left : plan.TakesIn event session written final)
    (right : plan.TakesIn event session written' final') :
    final = final' ∧ written = written' := by
  cases left with
  | dropped node progress foreign =>
      cases right with
      | dropped => exact ⟨rfl, rfl⟩
      | received _ _ known => simp [foreign] at known
      | ended ends => simp [Event.endsRun] at ends
  | received node progress known applies =>
      cases right with
      | dropped _ _ foreign => simp [known] at foreign
      | received _ _ _ applies' => exact applies.drains.unique applies'.drains
      | ended ends => simp [Event.endsRun] at ends
  | ended ends forces settles closes =>
      cases right with
      | dropped => simp [Event.endsRun] at ends
      | received => simp [Event.endsRun] at ends
      | ended _ forces' settles' closes' =>
          obtain ⟨rfl, rfl⟩ := forces.unique forces'
          obtain ⟨rfl, rfl⟩ := settles.unique settles'
          obtain ⟨rfl, rfl⟩ := closes.unique closes'
          exact ⟨rfl, rfl⟩

/-- The failed containers bound how deep closing is nested, the held items and the leaves they skip
bound how many items a drain applies, and the held starts bound how many tests are cut short. -/
theorem handle_terminates (plan : Plan) :
    (∀ event session written final,
      plan.TakesIn event session written final ↔ (final, written) = plan.handle event session) ∧
    (∀ count stage written final,
      plan.Performs (stage.failed.length + 1) (.close count) stage written final ↔
        (final, written) = plan.close count stage) ∧
    (∀ session, ∃ applied,
      plan.Applies session applied (plan.drain session).2 (plan.drain session).1 ∧
        applied.length ≤ session.held.length + (session.held.flatMap plan.skippedLeaves).length) ∧
    ∀ session, ∃ forced,
      plan.Forces session forced (plan.finishTests session).2 (plan.finishTests session).1 ∧
        forced.length ≤ (session.held.filter Held.isStart).length + 1 ∧
        (plan.finishTests session).1.held = [] := by
  refine ⟨fun event session written final => ⟨fun takesIn => ?_, fun same => ?_⟩,
    fun count stage written final => ⟨fun performs => ?_, fun same => ?_⟩,
    fun session => ?_, fun session => ?_⟩
  · obtain ⟨rfl, rfl⟩ := takesIn.unique (takesIn_handle plan event session)
    rfl
  · have takesIn := takesIn_handle plan event session
    rwa [← same] at takesIn
  · obtain ⟨rfl, rfl⟩ := performs.unique (close_performs plan count stage)
    rfl
  · have performs := close_performs plan count stage
    rwa [← same] at performs
  · obtain ⟨applied, applies⟩ := (drains_drain plan session).applies
    exact ⟨applied, applies, Nat.le_trans applies.length_le (queueWeight_le session.held)⟩
  · obtain ⟨forced, forces⟩ := finishTests_forces plan session
    have few := forces.length_le
    refine ⟨forced, forces, ?_, forces.held_eq_nil⟩
    unfold openTests at few
    split at few <;> omega

end Plan

end RunStream
