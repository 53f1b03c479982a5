import RunStream.Proofs.Live.Homes
import RunStream.Proofs.Lookup

set_option autoImplicit false

namespace RunStream

variable {plan : Plan} {base : List Scope} {stage : Stage}

@[simp]
theorem Stage.status?_mark (stage : Stage) (leaf other : NodeId) (status : LeafStatus) :
    (stage.mark leaf status).status? other =
      if other = leaf then some status else stage.status? other := by
  unfold status? mark
  by_cases same : other = leaf
  · simp [same]
  · have others := lookup_filter_key (· != leaf) (bne_iff_ne.mpr same) stage.leaves
    simp [List.lookup_cons, same, beq_false_of_ne same, others]

def Notice.Marks (subject : Subject) : Notice → Prop
  | .testFailed other _ => other = subject
  | .testIgnored other _ => other = subject
  | _ => False

-- The suites in `base` stay open throughout.
inductive Plan.Moves (plan : Plan) (base : List Scope) : Stage → List Notice → Stage → Prop
  | done (stage : Stage) : Moves plan base stage [] stage
  | opened {stage final : Stage} {written : List Notice} (scope : Scope)
      (idle : stage.running = none) (placed : plan.Placed (stage.suites ++ [scope]))
      (rest : Moves plan base { stage with suites := stage.suites ++ [scope] } written final) :
      Moves plan base stage (.suiteOpened scope :: written) final
  | closed {stage final : Stage} {written : List Notice} (outer : List Scope) (scope : Scope)
      (idle : stage.running = none) (top : stage.suites = outer ++ [scope])
      (kept : base <+: outer) (clean : stage.failedBehind? scope = none)
      (rest : Moves plan base { stage with suites := outer } written final) :
      Moves plan base stage (.suiteClosed scope :: written) final
  | condemned {stage final : Stage} {written : List Notice} (container : NodeId)
      (fresh : container ∉ stage.failed)
      (rest : Moves plan base { stage with failed := stage.failed ++ [container] } written final) :
      Moves plan base stage written final
  | settled {stage final : Stage} {written : List Notice} (container : NodeId)
      (failed : List NodeId) (taken : stage.failed.Perm (container :: failed))
      (rest : Moves plan base { stage with failed } written final) :
      Moves plan base stage written final
  | reported {stage final : Stage} {written : List Notice} (leaf : NodeId) (cause : Cause)
      (idle : stage.running = none) (known : plan.tree.isLeaf leaf = true)
      (fresh : stage.status? leaf = none) (home : stage.suites = plan.leafScopes leaf)
      (rest : Moves plan base (stage.mark leaf .finished) written final) :
      Moves plan base stage
        ([.testStarted (.leaf leaf), .testIgnored (.leaf leaf) cause, .testFinished (.leaf leaf)] ++
          written) final
  | configured {stage final : Stage} {written : List Notice} (container : NodeId)
      (body : List Notice) (idle : stage.running = none)
      (known : plan.tree.isContainer container = true)
      (home : stage.suites = plan.containerScopes container)
      (about : ∀ notice ∈ body, notice.Marks (.configuration container))
      (rest : Moves plan base stage written final) :
      Moves plan base stage
        ([.testStarted (.configuration container)] ++ body ++
          [.testFinished (.configuration container)] ++ written) final
  | marked {stage final : Stage} {written : List Notice} (leaf : NodeId) (notice : Notice)
      (about : notice.Marks (.leaf leaf))
      (near : stage.running = none ∨ stage.running = some leaf)
      (rest : Moves plan base stage written final) :
      Moves plan base stage (notice :: written) final

namespace Plan.Moves

theorem trans {middle final : Stage} {written more : List Notice}
    (left : plan.Moves base stage written middle) (right : plan.Moves base middle more final) :
    plan.Moves base stage (written ++ more) final := by
  induction left with
  | done => exact right
  | opened scope idle placed _ ih => exact .opened scope idle placed (ih right)
  | closed outer scope idle top kept clean _ ih =>
      exact .closed outer scope idle top kept clean (ih right)
  | condemned container fresh _ ih => exact .condemned container fresh (ih right)
  | settled container failed taken _ ih => exact .settled container failed taken (ih right)
  | reported leaf cause idle known fresh home _ ih =>
      simpa only [List.append_assoc] using
        Moves.reported leaf cause idle known fresh home (ih right)
  | configured container body idle known home about _ ih =>
      simpa only [List.append_assoc] using
        Moves.configured container body idle known home about (ih right)
  | marked leaf notice about near _ ih => exact .marked leaf notice about near (ih right)

theorem weaken {final : Stage} {written : List Notice} {lower : List Scope}
    (moves : plan.Moves base stage written final) (less : lower <+: base) :
    plan.Moves lower stage written final := by
  induction moves with
  | done => exact .done _
  | opened scope idle placed _ ih => exact .opened scope idle placed ih
  | closed outer scope idle top kept clean _ ih =>
      exact .closed outer scope idle top (less.trans kept) clean ih
  | condemned container fresh _ ih => exact .condemned container fresh ih
  | settled container failed taken _ ih => exact .settled container failed taken ih
  | reported leaf cause idle known fresh home _ ih =>
      exact .reported leaf cause idle known fresh home ih
  | configured container body idle known home about _ ih =>
      exact .configured container body idle known home about ih
  | marked leaf notice about near _ ih => exact .marked leaf notice about near ih

theorem running {final : Stage} {written : List Notice}
    (moves : plan.Moves base stage written final) : final.running = stage.running := by
  induction moves with
  | done => rfl
  | opened _ _ _ _ ih => exact ih
  | closed _ _ _ _ _ _ _ ih => exact ih
  | condemned _ _ _ ih => exact ih
  | settled _ _ _ _ ih => exact ih
  | reported _ _ _ _ _ _ _ ih => exact ih
  | configured _ _ _ _ _ _ _ ih => exact ih
  | marked _ _ _ _ _ ih => exact ih

theorem status?_of_apart {final : Stage} {written : List Notice} {leaf : NodeId}
    (moves : plan.Moves base stage written final) (within : base <+: stage.suites)
    (apart : ¬ base <+: plan.leafScopes leaf) : final.status? leaf = stage.status? leaf := by
  induction moves with
  | done => rfl
  | opened scope _ _ _ ih => exact ih (within.trans (List.prefix_append _ _))
  | closed _ _ _ _ kept _ _ ih => exact ih kept
  | condemned _ _ _ ih => exact ih within
  | settled _ _ _ _ ih => exact ih within
  | reported other _ _ _ _ home _ ih =>
      have different : leaf ≠ other := by
        rintro rfl
        exact apart (home ▸ within)
      exact (ih within).trans (by rw [Stage.status?_mark, if_neg different])
  | configured _ _ _ _ _ _ _ ih => exact ih within
  | marked _ _ _ _ _ ih => exact ih within

theorem openSuites (scopes : List Scope) (idle : stage.running = none)
    (placed : plan.Placed (stage.suites ++ scopes)) :
    plan.Moves base stage (openSuites scopes stage).2 (openSuites scopes stage).1 := by
  induction scopes generalizing stage with
  | nil =>
      have same : plan.Moves base stage [] stage := .done stage
      simpa [RunStream.openSuites] using same
  | cons scope rest ih =>
      rw [List.append_cons] at placed
      have later := @ih { stage with suites := stage.suites ++ [scope] } idle placed
      simp only [RunStream.openSuites, List.append_assoc, List.singleton_append] at later
      exact .opened scope idle (placed.of_prefix (List.prefix_append _ _)) later

theorem closing (outer scopes : List Scope) (idle : stage.running = none)
    (top : stage.suites = outer ++ scopes.reverse) (kept : base <+: outer)
    (clean : ∀ scope ∈ scopes, stage.failedBehind? scope = none) :
    plan.Moves base stage (scopes.map .suiteClosed) { stage with suites := outer } := by
  induction scopes generalizing stage with
  | nil =>
      have same : { stage with suites := outer } = stage := by
        cases stage
        simpa using top.symm
      rw [same]
      exact .done stage
  | cons scope rest ih =>
      have below : ∀ other ∈ rest, stage.failedBehind? other = none :=
        fun other member => clean other (List.mem_cons_of_mem _ member)
      refine .closed (outer ++ rest.reverse) scope idle ?_ (kept.trans (List.prefix_append _ _))
        (clean scope (List.mem_cons_self ..)) ?_
      · simpa using top
      · exact @ih { stage with suites := outer ++ rest.reverse } idle rfl below

end Plan.Moves

theorem removeSwapping_perm {item : NodeId} {items : List NodeId} (member : item ∈ items) :
    items.Perm (item :: removeSwapping item items) := by
  obtain ⟨index, found⟩ := Option.isSome_iff_exists.mp (List.isSome_idxOf?.mpr member)
  obtain ⟨bound, here, _⟩ := List.idxOf?_eq_some_iff.mp found
  obtain ⟨front, back, rfl, rfl⟩ :
      ∃ front back, items = front ++ item :: back ∧ index = front.length := by
    refine ⟨items.take index, items.drop (index + 1), ?_, ?_⟩
    · rw [← here, List.getElem_cons_drop, List.take_append_drop]
    · simp only [List.length_take]
      omega
  rcases List.eq_nil_or_concat back with rfl | ⟨middle, last, joined⟩
  · have same : removeSwapping item (front ++ [item]) = front := by
      simp [removeSwapping, found]
    rw [same]
    exact List.perm_append_comm
  · rw [List.concat_eq_append] at joined
    subst joined
    have same : removeSwapping item (front ++ item :: (middle ++ [last])) =
        front ++ last :: middle := by
      unfold removeSwapping
      rw [found]
      simp only [← List.cons_append, ← List.append_assoc, List.getLast?_concat]
      have shorter : ((last :: middle) ++ [last]).dropLast = last :: middle :=
        List.dropLast_concat
      simpa using shorter
    rw [same]
    refine List.perm_middle.trans (List.Perm.cons _ ?_)
    exact (List.perm_append_comm.append_left front).trans (by simp)

structure Plan.Reaches (plan : Plan) (base : List Scope) (stage : Stage) (suites : List Scope)
    (result : Stage × List Notice) : Prop where
  moves : plan.Moves base stage result.2 result.1
  suites : result.1.suites = suites
  failed : result.1.failed.length ≤ stage.failed.length

structure Plan.Closed (plan : Plan) (count : Nat) (stage : Stage) (result : Stage × List Notice) :
    Prop where
  reached : plan.Reaches (stage.suites.take count) stage (stage.suites.take count) result
  spares : ∀ leaf,
    (count < stage.suites.length → ¬ stage.suites.take (count + 1) <+: plan.leafScopes leaf) →
    result.1.status? leaf = stage.status? leaf

-- Closing down to `count` suites works while at most `level` containers are to be settled.
def Plan.Closes (plan : Plan) (level : Nat) (close : Nat → Step) : Prop :=
  ∀ (stage : Stage) (count : Nat), plan.Placed stage.suites → stage.running = none →
    stage.failed.length ≤ level → count ≤ stage.suites.length →
    plan.Closed count stage (close count stage)

namespace Plan

theorem Reaches.andThen {suites target : List Scope} {first second : Step}
    (left : plan.Reaches base stage suites (first stage))
    (right : plan.Reaches base (first stage).1 target (second (first stage).1)) :
    plan.Reaches base stage target (first.andThen second stage) where
  moves := left.moves.trans right.moves
  suites := right.suites
  failed := Nat.le_trans right.failed left.failed

theorem Reaches.idle {suites : List Scope} {result : Stage × List Notice}
    (reached : plan.Reaches base stage suites result) (idle : stage.running = none) :
    result.1.running = none :=
  reached.moves.running.trans idle

theorem reconcile_reaches {level : Nat} {close : Nat → Step} (closes : plan.Closes level close)
    {target : List Scope} (home : plan.Placed target) (placed : plan.Placed stage.suites)
    (idle : stage.running = none) (bound : stage.failed.length ≤ level)
    (inSuites : base <+: stage.suites) (inTarget : base <+: target) :
    plan.Reaches base stage target (reconcile close target stage) := by
  have closed := (closes stage (sharedLength stage.suites target) placed idle bound
    (sharedLength_le _ _)).reached
  have kept := prefix_take_of_length_le inSuites (length_le_sharedLength inSuites inTarget)
  unfold reconcile
  refine Reaches.andThen ⟨closed.moves.weaken kept, closed.suites, closed.failed⟩
    ⟨Moves.openSuites _ (closed.idle idle) ?_, ?_, Nat.le_refl _⟩
  · rwa [closed.suites, take_append_drop_sharedLength]
  · simp only [openSuites, closed.suites, take_append_drop_sharedLength]

-- The suites that are closed on the way to the home of a leaf are none of that home.
theorem status?_reconcile {level : Nat} {close : Nat → Step} (closes : plan.Closes level close)
    (leaf : NodeId) (placed : plan.Placed stage.suites) (idle : stage.running = none)
    (bound : stage.failed.length ≤ level) :
    (reconcile close (plan.leafScopes leaf) stage).1.status? leaf = stage.status? leaf := by
  have closed := closes stage (sharedLength stage.suites (plan.leafScopes leaf)) placed idle bound
    (sharedLength_le _ _)
  refine closed.spares leaf fun more inHome => ?_
  have shared := length_le_sharedLength (List.take_prefix _ _) inHome
  rw [List.length_take_of_le more] at shared
  omega

theorem reportSkipped_reaches {level : Nat} {close : Nat → Step}
    (closes : plan.Closes level close) {leaf : NodeId} (cause : Cause)
    (known : plan.tree.isLeaf leaf = true) (fresh : stage.status? leaf = none)
    (placed : plan.Placed stage.suites) (idle : stage.running = none)
    (bound : stage.failed.length ≤ level) (inSuites : base <+: stage.suites)
    (inHome : base <+: plan.leafScopes leaf) :
    plan.Reaches base stage (plan.leafScopes leaf)
      (plan.reportSkipped close leaf cause stage) := by
  have entered := reconcile_reaches closes (placed_leafScopes known) placed idle bound inSuites
    inHome
  have still := (status?_reconcile closes leaf placed idle bound).trans fresh
  refine entered.andThen ⟨?_, entered.suites, Nat.le_refl _⟩
  exact .reported leaf cause (entered.idle idle) known still entered.suites (.done _)

theorem forEach_reaches {α : Type} (level : Nat) (base : List Scope) {step : α → Step}
    (items : List α)
    (each : ∀ item ∈ items, ∀ stage : Stage, plan.Placed stage.suites → stage.running = none →
      stage.failed.length ≤ level → base <+: stage.suites →
      ∃ suites, plan.Placed suites ∧ base <+: suites ∧
        plan.Reaches base stage suites (step item stage))
    (placed : plan.Placed stage.suites) (idle : stage.running = none)
    (bound : stage.failed.length ≤ level) (inSuites : base <+: stage.suites) :
    ∃ suites, plan.Placed suites ∧ base <+: suites ∧
      plan.Reaches base stage suites (Step.forEach items step stage) := by
  induction items generalizing stage with
  | nil => exact ⟨stage.suites, placed, inSuites, .done _, rfl, Nat.le_refl _⟩
  | cons item rest ih =>
      obtain ⟨middle, placedMiddle, inMiddle, here⟩ :=
        each item (List.mem_cons_self ..) stage placed idle bound inSuites
      rw [← here.suites] at placedMiddle inMiddle
      obtain ⟨suites, placedLast, inLast, later⟩ :=
        ih (fun other member => each other (List.mem_cons_of_mem _ member)) placedMiddle
          (here.idle idle) (Nat.le_trans here.failed bound) inMiddle
      exact ⟨suites, placedLast, inLast, here.andThen later⟩

theorem reportUnless_reaches {level : Nat} {close : Nat → Step}
    (closes : plan.Closes level close) {leaf : NodeId} (cause : Cause)
    (known : plan.tree.isLeaf leaf = true) (placed : plan.Placed stage.suites)
    (idle : stage.running = none) (bound : stage.failed.length ≤ level)
    (inSuites : base <+: stage.suites) (inHome : base <+: plan.leafScopes leaf) :
    ∃ suites, plan.Placed suites ∧ base <+: suites ∧
      plan.Reaches base stage suites
        (if (stage.status? leaf).isSome then Step.skip stage
          else plan.reportSkipped close leaf cause stage) := by
  by_cases started : (stage.status? leaf).isSome
  · rw [if_pos started]
    exact ⟨stage.suites, placed, inSuites, .done _, rfl, Nat.le_refl _⟩
  · rw [if_neg started]
    exact ⟨plan.leafScopes leaf, placed_leafScopes known, inHome,
      reportSkipped_reaches closes cause known (by simpa using started) placed idle bound inSuites
        inHome⟩

theorem reportUnstarted_reaches {level : Nat} {close : Nat → Step} (base : List Scope)
    (stage : Stage) (container : NodeId) (closes : plan.Closes level close)
    (placed : plan.Placed stage.suites) (idle : stage.running = none)
    (bound : stage.failed.length ≤ level) (inSuites : base <+: stage.suites)
    (inHomes : ∀ leaf ∈ plan.tree.leavesUnder container, base <+: plan.leafScopes leaf) :
    ∃ suites, plan.Placed suites ∧ base <+: suites ∧
      plan.Reaches base stage suites (plan.reportUnstarted close container stage) := by
  refine forEach_reaches level base _ ?_ placed idle bound inSuites
  intro leaf member stage placed idle bound inSuites
  exact reportUnless_reaches closes .neverStarted (Tree.mem_leavesUnder_iff.mp member).1 placed
    idle bound inSuites (inHomes leaf member)

theorem closeClean_split (count : Nat) (stage : Stage) :
    ∃ left closing : List Scope, stage.suites = stage.suites.take count ++ left ++ closing.reverse ∧
      closeClean count stage = ({ stage with suites := stage.suites.take count ++ left },
        closing.map Notice.suiteClosed) ∧
      (∀ scope ∈ closing, stage.failedBehind? scope = none) ∧
      (left = [] ∨ ∃ inner container, left = inner ++ [.container container] ∧
        container ∈ stage.failed) := by
  let behind := (stage.suites.drop count).reverse
  let clean := fun scope => (stage.failedBehind? scope).isNone
  have split : stage.suites = stage.suites.take count ++ (behind.dropWhile clean).reverse ++
      (behind.takeWhile clean).reverse := by
    rw [List.append_assoc, ← List.reverse_append, List.takeWhile_append_dropWhile,
      List.reverse_reverse, List.take_append_drop]
  have remaining : stage.suites.take (stage.suites.length - (behind.takeWhile clean).length) =
      stage.suites.take count ++ (behind.dropWhile clean).reverse := by
    have lengths := congrArg List.length split
    simp only [List.length_append, List.length_reverse] at lengths
    rw [show stage.suites.length - (behind.takeWhile clean).length =
      (stage.suites.take count ++ (behind.dropWhile clean).reverse).length by
        simp only [List.length_append, List.length_reverse]; omega]
    exact (List.prefix_iff_eq_take.mp ⟨_, split.symm⟩).symm
  refine ⟨(behind.dropWhile clean).reverse, behind.takeWhile clean, split, ?_,
    fun scope member => ?_, ?_⟩
  · rw [← remaining]
    rfl
  · have passed := List.all_eq_true.mp (List.all_takeWhile (p := clean) (l := behind)) scope member
    simpa [clean] using passed
  · have stopped := List.head?_dropWhile_not clean behind
    cases rest : behind.dropWhile clean with
    | nil => exact .inl rfl
    | cons scope inner =>
        rw [rest] at stopped
        cases scope with
        | testClass className => simp [clean, Stage.failedBehind?] at stopped
        | container id =>
            refine .inr ⟨inner.reverse, id, by simp, ?_⟩
            by_cases failed : id ∈ stage.failed
            · exact failed
            · simp [clean, Stage.failedBehind?, failed] at stopped

theorem closeClean_reaches (plan : Plan) (count : Nat) (idle : stage.running = none) :
    ∃ left, plan.Reaches (stage.suites.take count) stage (stage.suites.take count ++ left)
        (closeClean count stage) ∧
      stage.suites.take count ++ left <+: stage.suites ∧
      (closeClean count stage).1.failed = stage.failed ∧
      (left = [] ∨ ∃ inner container, left = inner ++ [.container container] ∧
        container ∈ stage.failed) := by
  obtain ⟨left, closing, split, result, clean, ending⟩ := closeClean_split count stage
  rw [result]
  exact ⟨left, ⟨.closing _ _ idle split (List.prefix_append _ _) clean, rfl, Nat.le_refl _⟩,
    ⟨_, split.symm⟩, rfl, ending⟩

theorem pendingFailure?_append {outer left : List Scope} (open' : stage.suites = outer ++ left) :
    stage.pendingFailure? outer.length = left.getLast?.bind stage.failedBehind? := by
  rw [Stage.pendingFailure?, open', List.drop_left]

-- A failed container is struck off before its leaves are reported, and none of their homes
-- leaves the container's own, so the suites below it are still there afterwards.
theorem settle_reaches {level : Nat} {container : NodeId} (stage : Stage) (count : Nat)
    (closes : plan.Closes level (plan.closeWithin level)) (placed : plan.Placed stage.suites)
    (idle : stage.running = none) (bound : stage.failed.length ≤ level + 1)
    (home : stage.suites = plan.containerScopes container)
    (known : plan.tree.isContainer container = true) (failed : container ∈ stage.failed)
    (more : count < stage.suites.length) :
    plan.Closed count stage
      ((plan.reportUnstarted (plan.closeWithin level) container).andThen
        (plan.closeWithin level count) (stage.settle container)) := by
  have taken := removeSwapping_perm failed
  have fewer : (stage.settle container).failed.length ≤ level := by
    have := taken.length_eq
    simp only [List.length_cons] at this
    simp only [Stage.settle]
    omega
  obtain ⟨suites, placed', above, reached⟩ := reportUnstarted_reaches stage.suites
    (stage.settle container) container closes placed idle fewer List.prefix_rfl
    fun leaf member => home ▸ containerScopes_prefix_leafScopes known member
  have longer := above.length_le
  obtain ⟨last, spares⟩ := closes _ count (reached.suites ▸ placed') (reached.idle idle)
    (Nat.le_trans reached.failed fewer) (by rw [reached.suites]; omega)
  have same {kept : Nat} (enough : kept ≤ stage.suites.length) :
      suites.take kept = stage.suites.take kept := by
    obtain ⟨rest, rfl⟩ := above
    exact List.take_append_of_le_length enough
  rw [reached.suites, same (Nat.le_of_lt more)] at last
  have both := Reaches.andThen ⟨reached.moves.weaken (List.take_prefix _ _), reached.suites,
    reached.failed⟩ last
  refine ⟨⟨.settled container _ taken both.moves, both.suites, ?_⟩, fun leaf away => ?_⟩
  · have := both.failed
    have := taken.length_eq
    simp only [Stage.settle, List.length_cons] at *
    omega
  · have apart : ¬ stage.suites <+: plan.leafScopes leaf :=
      fun inHome => away more ((List.take_prefix _ _).trans inHome)
    refine (spares leaf fun _ => ?_).trans
      (reached.moves.status?_of_apart List.prefix_rfl apart)
    rw [reached.suites, same more]
    exact away more

structure Stops (plan : Plan) (count : Nat) (stage clean : Stage) (container : NodeId) : Prop where
  home : clean.suites = plan.containerScopes container
  known : plan.tree.isContainer container = true
  failed : container ∈ clean.failed
  more : count < clean.suites.length
  start : clean.suites <+: stage.suites

theorem closeWithin_succ (level count : Nat) (stage : Stage) (placed : plan.Placed stage.suites)
    (idle : stage.running = none) (enough : count ≤ stage.suites.length) :
    (plan.closeWithin (level + 1) count stage = closeClean count stage ∧
        (closeClean count stage).1.suites = stage.suites.take count) ∨
      ∃ container, plan.Stops count stage (closeClean count stage).1 container ∧
        plan.closeWithin (level + 1) count stage = (closeClean count).andThen (fun clean =>
          (plan.reportUnstarted (plan.closeWithin level) container).andThen
            (plan.closeWithin level count) (clean.settle container)) stage := by
  obtain ⟨left, reached, start, sameFailed, ending⟩ := closeClean_reaches plan count idle
  have width : (stage.suites.take count).length = count := List.length_take_of_le enough
  have pending := pendingFailure?_append reached.suites
  rw [width] at pending
  rcases ending with rfl | ⟨inner, container, rfl, failed⟩
  · refine .inl ⟨?_, by simpa using reached.suites⟩
    simp [closeWithin, Step.andThen, pending, Step.skip]
  · have behind : (closeClean count stage).1.failedBehind? (.container container) =
        some container := by
      simp [Stage.failedBehind?, sameFailed, failed]
    rw [List.getLast?_concat, Option.bind_some, behind] at pending
    have placed' := placed.of_prefix start
    rw [← List.append_assoc] at placed'
    obtain ⟨home, known⟩ := placed'.eq_containerScopes
    refine .inr ⟨container, ⟨?_, known, sameFailed ▸ failed, ?_, reached.suites ▸ start⟩, ?_⟩
    · rw [reached.suites, ← List.append_assoc, home]
    · simp only [reached.suites, List.length_append, List.length_singleton, width]
      omega
    · simp [closeWithin, Step.andThen, pending]

theorem closeWithin_closes (level : Nat) : plan.Closes level (plan.closeWithin level) := by
  induction level with
  | zero =>
      intro stage count placed idle bound enough
      obtain ⟨left, reached, _, _, done | ⟨inner, container, _, failed⟩⟩ :=
        closeClean_reaches plan count idle
      · exact ⟨by simpa [done, closeWithin] using reached, fun _ _ => rfl⟩
      · rw [List.length_eq_zero_iff.mp (Nat.le_zero.mp bound)] at failed
        simp at failed
  | succ level ih =>
      intro stage count placed idle bound enough
      obtain ⟨left, reached, _, sameFailed, _⟩ := closeClean_reaches plan count idle
      rcases closeWithin_succ level count stage placed idle enough with
        ⟨result, done⟩ | ⟨container, stops, result⟩
      · rw [result]
        exact ⟨⟨reached.moves, done, reached.failed⟩, fun _ _ => rfl⟩
      · obtain ⟨settled, spares⟩ := settle_reaches (closeClean count stage).1 count ih
          (placed.of_prefix stops.start) (reached.idle idle) (by rw [sameFailed]; exact bound)
          stops.home stops.known stops.failed stops.more
        have outermost {kept : Nat} (inside : kept ≤ (closeClean count stage).1.suites.length) :
            (closeClean count stage).1.suites.take kept = stage.suites.take kept := by
          rw [List.prefix_iff_eq_take.mp stops.start, List.take_take, Nat.min_eq_left inside]
        rw [outermost (Nat.le_of_lt stops.more)] at settled
        rw [result]
        refine ⟨Reaches.andThen ⟨reached.moves, rfl, reached.failed⟩ settled, fun leaf away => ?_⟩
        refine spares leaf fun _ => outermost stops.more ▸ away ?_
        exact Nat.lt_of_lt_of_le stops.more stops.start.length_le

-- The number of failed containers bounds how often closing has to settle one.
theorem close_closes (level : Nat) : plan.Closes level plan.close := by
  intro stage count placed idle _ enough
  exact closeWithin_closes stage.failed.length stage count placed idle (Nat.le_refl _) enough

theorem closeClean_of_length_le {count : Nat} (few : stage.suites.length ≤ count) :
    closeClean count stage = (stage, []) := by
  simp [closeClean, List.drop_eq_nil_of_le few]

theorem closeWithin_length (plan : Plan) (level : Nat) (stage : Stage) :
    plan.closeWithin level stage.suites.length stage = (stage, []) := by
  have clean := closeClean_of_length_le (Nat.le_refl stage.suites.length)
  cases level with
  | zero => exact clean
  | succ level =>
      have none : stage.pendingFailure? stage.suites.length = none := by
        simp [Stage.pendingFailure?]
      simp [closeWithin, Step.andThen, Step.skip, clean, none]

theorem enter_self (plan : Plan) (stage : Stage) : plan.enter stage.suites stage = (stage, []) := by
  simp [enter, reconcile, sharedLength_self, close, Step.andThen, openSuites, closeWithin_length]

theorem enter_reaches {target : List Scope} (home : plan.Placed target)
    (placed : plan.Placed stage.suites) (idle : stage.running = none) :
    plan.Reaches (stage.suites.take (sharedLength stage.suites target)) stage target
      (plan.enter target stage) := by
  refine reconcile_reaches (close_closes stage.failed.length) home placed idle
    (Nat.le_refl _) (List.take_prefix _ _) ?_
  rw [take_sharedLength]
  exact List.take_prefix _ _

end Plan

end RunStream
