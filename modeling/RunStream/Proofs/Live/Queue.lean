import RunStream.Proofs.Live.Deeds

set_option autoImplicit false

namespace RunStream

variable {plan : Plan} {session : Session}

namespace Plan

def Settled (plan : Plan) (session : Session) : Prop :=
  ∀ item ∈ session.held, plan.isBlocked session.stage item = true

def advance (plan : Plan) (session : Session) (waiting : List Held) (item : Held)
    (later : List Held) : Session :=
  { session with
    stage := (plan.apply item session.stage).1
    held := waiting ++ plan.deferred session.stage item ++ later }

inductive Drains (plan : Plan) : Session → List Notice → Session → Prop
  | settled {session : Session} (blocked : plan.Settled session) : Drains plan session [] session
  | applied {session final : Session} {written : List Notice} (waiting : List Held) (item : Held)
      (later : List Held) (queue : session.held = waiting ++ item :: later)
      (blocked : ∀ other ∈ waiting, plan.isBlocked session.stage other = true)
      (free : plan.isBlocked session.stage item = false)
      (rest : Drains plan (plan.advance session waiting item later) written final) :
      Drains plan session ((plan.apply item session.stage).2 ++ written) final

@[simp]
theorem queueWeight_cons (item : Held) (rest : List Held) :
    plan.queueWeight (item :: rest) = plan.heldWeight item + plan.queueWeight rest :=
  rfl

@[simp]
theorem queueWeight_append (left right : List Held) :
    plan.queueWeight (left ++ right) = plan.queueWeight left + plan.queueWeight right := by
  induction left with
  | nil => simp [queueWeight]
  | cons item rest ih =>
      simp only [List.cons_append, queueWeight_cons, ih]
      omega

theorem queueWeight_skipped (leaves : List NodeId) (cause : Cause) :
    plan.queueWeight (leaves.map fun leaf => .skipped leaf cause) = leaves.length := by
  induction leaves with
  | nil => rfl
  | cons leaf rest ih =>
      rw [List.map_cons, queueWeight_cons, ih, heldWeight, List.length_cons]
      omega

theorem queueWeight_deferred_lt (plan : Plan) (stage : Stage) (item : Held) :
    plan.queueWeight (plan.deferred stage item) < plan.heldWeight item := by
  cases item with
  | skipped leaf cause => simp [deferred, heldWeight, queueWeight]
  | event node progress =>
      cases skips : plan.skipCause? node progress with
      | none => simp [deferred, heldWeight, queueWeight, skips]
      | some cause =>
          have fewer := (plan.tree.leavesUnder node).length_filter_le
            fun leaf => (stage.status? leaf).isNone
          by_cases busy : stage.running.isSome
          · simp only [deferred, heldWeight, skips, busy, if_true, queueWeight_skipped]
            omega
          · simp [deferred, heldWeight, skips, busy, queueWeight]

theorem dropWhile_eq_cons {α : Type} {test : α → Bool} {items later : List α} {item : α}
    (rest : items.dropWhile test = item :: later) :
    items = items.takeWhile test ++ item :: later ∧
      (∀ other ∈ items.takeWhile test, test other = true) ∧ test item = false := by
  refine ⟨?_, List.all_eq_true.mp List.all_takeWhile, ?_⟩
  · rw [← rest, List.takeWhile_append_dropWhile]
  · have stopped := List.head?_dropWhile_not test items
    rw [rest] at stopped
    simpa using stopped

theorem drains_drainWithin (limit : Nat) (session : Session)
    (bound : plan.queueWeight session.held ≤ limit) :
    plan.Drains session (plan.drainWithin limit session).2 (plan.drainWithin limit session).1 := by
  induction limit generalizing session with
  | zero =>
      refine .settled fun item member => ?_
      obtain ⟨front, back, queue⟩ := List.append_of_mem member
      have positive := queueWeight_deferred_lt plan session.stage item
      simp only [queue, queueWeight_append, queueWeight_cons] at bound
      omega
  | succ limit ih =>
      cases rest : session.held.dropWhile (plan.isBlocked session.stage) with
      | nil =>
          have blocked : plan.Settled session := by
            intro item member
            have whole := List.takeWhile_append_dropWhile (p := plan.isBlocked session.stage)
              (l := session.held)
            rw [rest, List.append_nil] at whole
            rw [← whole] at member
            exact List.all_eq_true.mp List.all_takeWhile item member
          simpa only [drainWithin, rest] using Drains.settled blocked
      | cons item later =>
          obtain ⟨queue, blocked, free⟩ := dropWhile_eq_cons rest
          have lighter := queueWeight_deferred_lt plan session.stage item
          rw [queue] at bound
          simp only [queueWeight_append, queueWeight_cons] at bound
          have next := ih (plan.advance session
            (session.held.takeWhile (plan.isBlocked session.stage)) item later) (by
              simp only [advance, queueWeight_append]
              omega)
          simpa only [drainWithin, rest, advance] using
            Drains.applied _ item later queue blocked free next

theorem drains_drain (plan : Plan) (session : Session) :
    plan.Drains session (plan.drain session).2 (plan.drain session).1 :=
  drains_drainWithin _ session (Nat.le_refl _)

theorem Drains.is_settled {final : Session} {written : List Notice}
    (drains : plan.Drains session written final) : plan.Settled final := by
  induction drains with
  | settled blocked => exact blocked
  | applied _ _ _ _ _ _ _ ih => exact ih

theorem waiting_of_idle {stage : Stage} {waiting : List Held} (idle : stage.running = none)
    (blocked : ∀ item ∈ waiting, plan.isBlocked stage item = true) : waiting = [] := by
  cases waiting with
  | nil => rfl
  | cons item rest =>
      have stuck := blocked item (List.mem_cons_self ..)
      simp [isBlocked_idle idle] at stuck

theorem split_unique {α : Type} {test : α → Bool} {waiting waiting' later later' : List α}
    {item item' : α} (same : waiting ++ item :: later = waiting' ++ item' :: later')
    (blocked : ∀ other ∈ waiting, test other = true) (free : test item = false)
    (blocked' : ∀ other ∈ waiting', test other = true) (free' : test item' = false) :
    waiting = waiting' ∧ item = item' ∧ later = later' := by
  induction waiting generalizing waiting' with
  | nil =>
      cases waiting' with
      | nil => simpa using same
      | cons first rest =>
          simp only [List.nil_append, List.cons_append, List.cons.injEq] at same
          have stuck := blocked' first (List.mem_cons_self ..)
          simp [← same.1, free] at stuck
  | cons first rest ih =>
      cases waiting' with
      | nil =>
          simp only [List.nil_append, List.cons_append, List.cons.injEq] at same
          have stuck := blocked first (List.mem_cons_self ..)
          simp [same.1, free'] at stuck
      | cons first' rest' =>
          simp only [List.cons_append, List.cons.injEq] at same
          obtain ⟨front, rest⟩ := ih same.2
            (fun other member => blocked other (List.mem_cons_of_mem _ member))
            (fun other member => blocked' other (List.mem_cons_of_mem _ member))
          exact ⟨by rw [same.1, front], rest⟩

theorem Drains.unique {final final' : Session} {written written' : List Notice}
    (left : plan.Drains session written final) (right : plan.Drains session written' final') :
    final = final' ∧ written = written' := by
  induction left generalizing written' with
  | settled blocked =>
      cases right with
      | settled _ => exact ⟨rfl, rfl⟩
      | applied waiting item later queue _ free _ =>
          have stuck := blocked item (by simp [queue])
          simp [free] at stuck
  | applied waiting item later queue blocked free _ ih =>
      cases right with
      | settled blocked' =>
          have stuck := blocked' item (by simp [queue])
          simp [free] at stuck
      | applied waiting' item' later' queue' blocked' free' rest' =>
          obtain ⟨rfl, rfl, rfl⟩ :=
            split_unique (queue.symm.trans queue') blocked free blocked' free'
          obtain ⟨same, more⟩ := ih rest'
          exact ⟨same, by rw [more]⟩

-- What arrives later is looked at only after all that is there already waits.
theorem Drains.append {middle final : Session} {written more : List Notice} {arriving : List Held}
    (first : plan.Drains session written middle)
    (second : plan.Drains { middle with held := middle.held ++ arriving } more final) :
    plan.Drains { session with held := session.held ++ arriving } (written ++ more) final := by
  induction first with
  | settled blocked => exact second
  | applied waiting item later queue blocked free _ ih =>
      have next := ih second
      rw [List.append_assoc]
      refine .applied waiting item (later ++ arriving) (by simp [queue]) blocked free ?_
      simpa only [advance, List.append_assoc] using next

end Plan

end RunStream
