import Mathlib.Data.List.Chain
import RunStream.Proofs.Live.Interleaving
import RunStream.Proofs.Live.Lasting

set_option autoImplicit false

namespace RunStream

variable {plan : Plan} {stage : Stage} {session : Session}

namespace Plan

def WayDown (plan : Plan) (ids : List NodeId) : Prop :=
  (Tree.root :: ids).IsChain fun outer inner => plan.tree.parent? inner = some outer

theorem WayDown.nodup {ids : List NodeId} (way : plan.WayDown ids) : ids.Nodup := by
  have older : (Tree.root :: ids).IsChain (fun outer inner : Nat => outer < inner) :=
    List.IsChain.imp (fun _ _ link => Tree.parent?_lt link) way
  have sorted := List.isChain_iff_pairwise.mp older
  exact (List.pairwise_cons.mp sorted).2.imp fun less => Nat.ne_of_lt less

theorem containerScopes_way {id : Nat} (known : plan.tree.isContainer id = true) :
    ∃ ids, plan.containerScopes id = ids.map Scope.container ∧ plan.WayDown ids ∧
      (Tree.root :: ids).getLast? = some id ∧
      ∀ inner ∈ ids, plan.tree.isContainer inner = true := by
  induction id using Nat.strongRecOn with
  | ind id ih =>
    rcases containerScopes_cases known with ⟨top, empty⟩ | ⟨parent, link, container, whole⟩
    · exact ⟨[], by simp [empty], List.isChain_singleton _, congrArg some top.symm, by simp⟩
    · obtain ⟨ids, scopes, way, last, inner⟩ := ih parent (Tree.parent?_lt link) container
      refine ⟨ids ++ [id], by simp [whole, scopes], ?_,
        by rw [← List.cons_append, List.getLast?_concat], ?_⟩
      · rw [WayDown, ← List.cons_append, List.isChain_append]
        exact ⟨way, List.isChain_singleton _, by simpa [last] using link⟩
      · intro other member
        rcases List.mem_append.mp member with outer | self
        · exact inner other outer
        · exact List.mem_singleton.mp self ▸ known

/-- Nothing is open, or only the suite of a class, or the containers on a way down the tree. -/
def Shaped (plan : Plan) (suites : List Scope) : Prop :=
  suites = [] ∨ (∃ className, suites = [.testClass className]) ∨
    ∃ ids, suites = ids.map Scope.container ∧ ids.Nodup ∧ plan.WayDown ids ∧
      ∀ id ∈ ids, plan.tree.isContainer id = true

theorem shaped_containerScopes {id : Nat} (known : plan.tree.isContainer id = true) :
    plan.Shaped (plan.containerScopes id) := by
  obtain ⟨ids, scopes, way, _, containers⟩ := containerScopes_way known
  exact .inr (.inr ⟨ids, scopes, way.nodup, way, containers⟩)

theorem Placed.shaped {suites : List Scope} (placed : plan.Placed suites) : plan.Shaped suites := by
  obtain ⟨subject, known, rfl⟩ := placed
  cases subject with
  | configuration container => exact shaped_containerScopes known
  | leaf id =>
      simp only [home]
      rcases leafScopes_cases known with none | ⟨parent, _, container, same⟩ | ⟨className, same⟩
      · exact .inl none
      · exact same ▸ shaped_containerScopes container
      · exact .inr (.inl ⟨className, same⟩)

structure Blames (plan : Plan) (exempt : NodeId → Prop) (stage : Stage) : Prop where
  once : stage.failed.Nodup
  containers : ∀ container ∈ stage.failed, plan.tree.isContainer container = true
  shown : ∀ container ∈ stage.failed,
    exempt container ∨ container = Tree.root ∨ .container container ∈ stage.suites

theorem blames_closeClean {exempt : NodeId → Prop} (count : Nat) :
    (closeClean count).Keeps (plan.Blames exempt) := by
  intro stage blames
  obtain ⟨left, closing, split, result, clean, _⟩ := closeClean_split count stage
  rw [result]
  refine ⟨blames.once, blames.containers, fun container failed => ?_⟩
  refine (blames.shown container failed).imp_right (Or.imp_right fun shown => ?_)
  rw [split, List.mem_append, List.mem_reverse] at shown
  refine shown.resolve_right fun closed => ?_
  have behind := clean _ closed
  simp [Stage.failedBehind?, failed] at behind

theorem overlooks_blames {exempt : NodeId → Prop} (leaf : NodeId) :
    Overlooks (plan.Blames exempt) leaf :=
  fun _ _ blames => ⟨blames.once, blames.containers, blames.shown⟩

theorem lasts_blames (exempt : NodeId → Prop) : plan.Lasts (plan.Blames exempt) where
  opened := fun scopes stage blames => ⟨blames.once, blames.containers, fun container failed =>
    (blames.shown container failed).imp_right (Or.imp_right (List.mem_append_left scopes))⟩
  closed := blames_closeClean
  settled := fun close closing stage container failed taken blames => by
    have fewer : ∀ other ∈ failed, other ∈ stage.failed :=
      fun other member => taken.mem_iff.mpr (List.mem_cons_of_mem _ member)
    refine reportUnstarted_keeps (fun target stage blames => ?_)
      (fun leaf _ => overlooks_blames leaf) _
      ⟨(List.nodup_cons.mp (taken.nodup_iff.mp blames.once)).2,
        fun other member => blames.containers other (fewer other member),
        fun other member => blames.shown other (fewer other member)⟩
    have closed := closing (sharedLength stage.suites target) stage blames
    exact ⟨closed.once, closed.containers, fun other member =>
      (closed.shown other member).imp_right (Or.imp_right (List.mem_append_left _))⟩
  turned := fun _ _ blames => ⟨blames.once, blames.containers, blames.shown⟩

-- A container fails before its suite is entered.
theorem blames_failNode {container : NodeId} {failures : List Failure} (sound : plan.Sound stage)
    (idle : stage.running = none) (known : plan.tree.isContainer container = true)
    (blames : plan.Blames (fun _ => False) stage) :
    plan.Blames (fun _ => False) (plan.failNode container failures stage).1 := by
  let condemned : Stage :=
    if container ∈ stage.failed then stage else { stage with failed := stage.failed ++ [container] }
  have suites : condemned.suites = stage.suites := by
    simp only [condemned]
    split <;> rfl
  have idle' : condemned.running = none := by
    simp only [condemned]
    split <;> exact idle
  have before : plan.Blames (· = container) condemned := by
    simp only [condemned]
    split
    · exact ⟨blames.once, blames.containers, fun other failed =>
        .inr ((blames.shown other failed).resolve_left id)⟩
    · next fresh =>
        refine ⟨?_, fun other failed => ?_, fun other failed => ?_⟩
        · refine List.nodup_append.mpr ⟨blames.once, by simp, fun other failed same last => ?_⟩
          rintro rfl
          exact fresh (List.mem_singleton.mp last ▸ failed)
        · rcases List.mem_append.mp failed with old | new
          · exact blames.containers other old
          · exact List.mem_singleton.mp new ▸ known
        · rcases List.mem_append.mp failed with old | new
          · exact .inr ((blames.shown other old).resolve_left id)
          · exact .inl (List.mem_singleton.mp new)
  have after := (lasts_blames (· = container)).enter (plan.containerScopes container) _ before
  have entered := enter_reaches (placed_containerScopes known) (suites ▸ sound.placed) idle'
  have result : (plan.failNode container failures stage).1 =
      (plan.enter (plan.containerScopes container) condemned).1 := by
    simp [failNode, known, reportConfiguration, Step.andThen, Step.update, Step.write, condemned]
  rw [result]
  refine ⟨after.once, after.containers, fun other failed => .inr ?_⟩
  rcases after.shown other failed with rfl | shown
  · by_cases top : other = Tree.root
    · exact .inl top
    · refine .inr ?_
      rw [entered.suites, containerScopes, if_neg top]
      simp
  · exact shown

theorem Blames.apply {item : Held} (blames : plan.Blames (fun _ => False) stage)
    (sound : plan.Sound stage) (free : plan.isBlocked stage item = false) :
    plan.Blames (fun _ => False) (plan.apply item stage).1 := by
  have others (plain : ∀ node failures, item = .event node (.failed failures) →
      plan.tree.isContainer node = false) :
      plan.Blames (fun _ => False) (plan.apply item stage).1 := by
    refine (lasts_blames _).apply (fun leaf _ => overlooks_blames leaf)
      (fun node failures stage same container _ => ?_) stage blames
    simp [plain node failures same] at container
  cases item with
  | skipped leaf cause => exact others (by simp)
  | event node progress =>
      cases progress with
      | failed failures =>
          cases container : plan.tree.isContainer node with
          | true =>
              exact blames_failNode sound (idle_of_free_container sound container rfl free)
                container blames
          | false => exact others (by simp [container])
      | _ => exact others (by simp)

theorem Drains.blames {final : Session} {written : List Notice}
    (drains : plan.Drains session written final) (sound : plan.SoundSession session)
    (blames : plan.Blames (fun _ => False) session.stage) :
    plan.Blames (fun _ => False) final.stage := by
  induction drains with
  | settled _ => exact blames
  | applied waiting item later queue blocked free _ ih =>
      exact ih (sound.advance queue free) (blames.apply sound.stage free)

theorem blames_empty : plan.Blames (fun _ => False) {} :=
  ⟨List.nodup_nil, by simp, by simp⟩

theorem blames_handle (event : Event) (sound : plan.SoundSession session)
    (blames : plan.Blames (fun _ => False) session.stage) :
    plan.Blames (fun _ => False) (plan.handle event session).1.stage := by
  cases event with
  | runStarted =>
      rw [handle_endsRun rfl sound]
      exact blames_empty
  | runFinished =>
      rw [handle_endsRun rfl sound]
      exact blames_empty
  | node id progress =>
      cases known : plan.tree.contains id with
      | false => rwa [handle_foreign known]
      | true =>
          rw [handle_known known]
          exact (drains_drain plan _).blames (sound.received known) blames

theorem Reachable.blames (reachable : plan.Reachable session) :
    plan.Blames (fun _ => False) session.stage := by
  induction reachable with
  | fresh => exact blames_empty
  | described _ ih => exact ih
  | handled event before ih => exact blames_handle event before.sound.1 ih

theorem not_mem_leavesUnder_of_blocks {leaf node : NodeId} {progress : Progress}
    (blocks : plan.blocks leaf (.event node progress) = true)
    (skips : (plan.skipCause? node progress).isSome = true) :
    leaf ∉ plan.tree.leavesUnder node := by
  simpa [Plan.blocks, skips] using blocks

-- A skip of the running leaf itself does not wait.
theorem ne_of_blocks {leaf node : NodeId} {progress : Progress}
    (known : plan.tree.isLeaf leaf = true)
    (blocks : plan.blocks leaf (.event node progress) = true) : node ≠ leaf := by
  rintro rfl
  cases skips : plan.skipCause? node progress with
  | none => simp [Plan.blocks, skips] at blocks
  | some cause =>
      have apart := not_mem_leavesUnder_of_blocks blocks (by simp [skips])
      exact apart (Tree.mem_leavesUnder_iff.mpr ⟨known, .inl rfl⟩)

structure Consistent (plan : Plan) (session : Session) : Prop where
  shaped : plan.Shaped session.stage.suites
  recorded : ∀ leaf, session.stage.running = some leaf ↔
    session.stage.status? leaf = some .running
  single : ∀ leaf other, session.stage.status? leaf = some .running →
    session.stage.status? other = some .running → leaf = other
  home : ∀ leaf, session.stage.running = some leaf → session.stage.suites = plan.leafScopes leaf
  waiting : ∀ item ∈ session.held,
    ∃ leaf, session.stage.running = some leaf ∧ plan.blocks leaf item = true
  idle : session.stage.running = none → session.held = []
  others : ∀ leaf node progress, session.stage.running = some leaf →
    .event node progress ∈ session.held → node ≠ leaf
  apart : ∀ leaf node progress, session.stage.running = some leaf →
    .event node progress ∈ session.held → (plan.skipCause? node progress).isSome = true →
    leaf ∉ plan.tree.leavesUnder node
  failedOnce : session.stage.failed.Nodup
  failedContainers : ∀ container ∈ session.stage.failed, plan.tree.isContainer container = true
  failedOpen : ∀ container ∈ session.stage.failed,
    container = Tree.root ∨ .container container ∈ session.stage.suites

theorem reachable_consistent (reachable : plan.Reachable session) : plan.Consistent session := by
  obtain ⟨sound, settled⟩ := reachable.sound
  have blames := reachable.blames
  have waits {leaf : NodeId} {item : Held} (busy : session.stage.running = some leaf)
      (member : item ∈ session.held) : plan.blocks leaf item = true :=
    isBlocked_running busy item ▸ settled item member
  exact {
    shaped := sound.stage.placed.shaped
    recorded := sound.stage.recorded
    single := fun leaf other one two => by
      have busy := (sound.stage.recorded leaf).mpr one
      rw [(sound.stage.recorded other).mpr two] at busy
      exact (Option.some.inj busy).symm
    home := sound.stage.home
    waiting := fun item member => by
      cases busy : session.stage.running with
      | none => simp [settled.held_eq_nil busy] at member
      | some leaf => exact ⟨leaf, rfl, waits busy member⟩
    idle := settled.held_eq_nil
    others := fun leaf node progress busy member =>
      ne_of_blocks (sound.stage.isLeaf leaf busy) (waits busy member)
    apart := fun leaf node progress busy member skips =>
      not_mem_leavesUnder_of_blocks (waits busy member) skips
    failedOnce := blames.once
    failedContainers := blames.containers
    failedOpen := fun container failed => (blames.shown container failed).resolve_left id }

theorem waiting_session_consistent :
    let session := (twoSuites.handle (.node 4 .started) (twoSuites.handle (.node 2 .started)
      (twoSuites.handle (.node 1 (.failed [])) {}).1).1).1
    session = {
      stage := {
        suites := [.container 1], leaves := [(2, .running)], running := some 2, failed := [1] }
      held := [.event 4 .started] } ∧
    twoSuites.Consistent session :=
  ⟨by decide +kernel, reachable_consistent (.handled _ (.handled _ (.handled _ .fresh)))⟩

end Plan

end RunStream
