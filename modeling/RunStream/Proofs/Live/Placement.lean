import RunStream.Proofs.Live.Suites
import RunStream.Proofs.Tree.Tour

set_option autoImplicit false

namespace RunStream

open Wire RunStream.Tree

variable {plan : Plan}

namespace Plan

def StandsAlone (plan : Plan) (leaf : NodeId) (className : String) : Prop :=
  plan.settings.wrapOrphans = true ∧ plan.tree.parent? leaf = some root ∧
    plan.tree.kind? root ≠ some (.container className)

instance (plan : Plan) (leaf : NodeId) (className : String) :
    Decidable (plan.StandsAlone leaf className) :=
  inferInstanceAs (Decidable (_ ∧ _ ∧ _))

theorem orphanClass?_eq {leaf : NodeId} {className methodName : String}
    (kind : plan.tree.kind? leaf = some (.leaf className methodName)) :
    plan.orphanClass? leaf = if plan.StandsAlone leaf className then some className else none := by
  by_cases below : plan.tree.parent? leaf = some root
  · obtain ⟨rootName, rootKind⟩ := isContainer_iff.mp (isContainer_of_parent? below)
    by_cases same : className = rootName
    · simp [orphanClass?, StandsAlone, kind, rootKind, below, same]
    · simp [orphanClass?, StandsAlone, kind, rootKind, below, same, Ne.symm same]
  · have apart : ¬ plan.StandsAlone leaf className := fun alone => below alone.2.1
    rw [if_neg apart]
    unfold orphanClass?
    split
    · simp [below]
    · rfl

def lonePairs (plan : Plan) (leaf : NodeId) (className : String) : List (String × String) :=
  if plan.StandsAlone leaf className then
    [(Name.short className, plan.naming.suiteLocation className)]
  else []

theorem map_scopePair_leafScopes {leaf : NodeId} {className methodName : String}
    (kind : plan.tree.kind? leaf = some (.leaf className methodName)) :
    (plan.leafScopes leaf).map plan.scopePair =
      plan.tree.enclosingPairs plan.naming leaf ++ plan.lonePairs leaf className := by
  rw [leafScopes, orphanClass?_eq kind, List.map_append, List.map_map, lonePairs]
  congr 1
  by_cases alone : plan.StandsAlone leaf className <;>
    simp [alone, scopePair, scopeName, scopeLocation]

theorem map_scopePair_containerScopes (container : NodeId) :
    (plan.containerScopes container).map plan.scopePair =
      (plan.tree.scopePath container ++ if container = root then [] else [container]).map
        (plan.tree.pair plan.naming) := by
  rw [containerScopes, List.map_append, List.map_append, List.map_map]
  congr 1
  by_cases top : container = root <;>
    simp [top, scopePair, scopeName, scopeLocation, pair]

def DescribedIn (plan : Plan) (leaf : NodeId) (node : Message)
    (around : List (String × String)) : Prop :=
  ∃ earlier later, plan.tree.visits = earlier ++ .enter leaf :: later ∧
    .enter leaf ∉ earlier ∧ .enter leaf ∉ later ∧
    plan.tree.description plan.naming =
      { name := "enteredTheMatrix" } :: earlier.map (Visit.message plan.naming plan.tree) ++
        node :: (later.map (Visit.message plan.naming plan.tree) ++ [{ name := "treeEnded" }]) ∧
    enclosing? "suiteTreeStarted" "suiteTreeEnded"
      ({ name := "enteredTheMatrix" } :: earlier.map (Visit.message plan.naming plan.tree)) =
        some around

theorem describedIn_leaf {leaf : NodeId} (known : plan.tree.isLeaf leaf = true) :
    plan.DescribedIn leaf (plan.tree.locatedMessage plan.naming "suiteTreeNode" leaf)
      (plan.tree.enclosingPairs plan.naming leaf) := by
  obtain ⟨earlier, later, split, notEarlier, notLater, tracked⟩ :=
    @exists_leaf_split plan.tree plan.naming leaf known
  refine ⟨earlier, later, split, notEarlier, notLater, ?_, ?_⟩
  · rw [description_eq, split]
    simp [Visit.message, isContainer_eq_false_of_isLeaf known]
  · have first := @trackSuites?_other "suiteTreeStarted" "suiteTreeEnded" []
      { name := "enteredTheMatrix" } (by decide) (by decide)
    rw [enclosing?, suitesAfter?, List.foldlM_cons, first]
    exact tracked

theorem started_at_home (plan : Plan) (events : List Event) (described : Bool)
    {before after : List Notice} {subject : Subject}
    (output : (plan.handleAll events { described }).2 = before ++ .testStarted subject :: after) :
    plan.knows subject = true ∧
      enclosing? "testSuiteStarted" "testSuiteFinished" (plan.messages before) =
        some ((plan.home subject).map plan.scopePair) := by
  have sound := @soundSession_fresh plan described
  have followed := (handleAll_course events _ sound).follow sound
  rw [output] at followed
  obtain ⟨suites, here, later⟩ := followAll?_of_append followed
  obtain ⟨known, home⟩ := home_of_follow? later
  exact ⟨known, home ▸ suitesAfter?_messages here⟩

def StartsWhereDescribed (plan : Plan) (before : List Notice) : Subject → Prop
  | .leaf leaf =>
      ∃ className methodName node around,
        plan.tree.kind? leaf = some (.leaf className methodName) ∧
        plan.DescribedIn leaf node around ∧ node.name = "suiteTreeNode" ∧
        plan.message? (.testStarted (.leaf leaf)) =
          some { name := "testStarted", attributes := node.attributes } ∧
        enclosing? "testSuiteStarted" "testSuiteFinished" (plan.messages before) =
          some (around ++ plan.lonePairs leaf className)
  | .configuration container =>
      plan.tree.isContainer container = true ∧
        enclosing? "testSuiteStarted" "testSuiteFinished" (plan.messages before) =
          some ((((plan.tree.ancestors container).filter (· != root)).reverse ++
            if container = root then [] else [container]).map (plan.tree.pair plan.naming))

-- Whoever starts it, a test is started where the description shows its leaf.  The test of a
-- container's setup and teardown is started in the container.
theorem started_where_described (plan : Plan) (events : List Event) (described : Bool)
    (before after : List Notice) (subject : Subject)
    (output : (plan.handleAll events { described }).2 = before ++ .testStarted subject :: after) :
    plan.StartsWhereDescribed before subject := by
  obtain ⟨known, opened⟩ := started_at_home plan events described output
  cases subject with
  | leaf leaf =>
      obtain ⟨className, methodName, kind⟩ := isLeaf_iff.mp known
      refine ⟨className, methodName, _, _, kind, describedIn_leaf known, rfl, rfl, ?_⟩
      rw [opened, home, map_scopePair_leafScopes kind]
  | configuration container =>
      refine ⟨known, ?_⟩
      rw [opened, home, map_scopePair_containerScopes, scopePath]

def suiteAndLoneTest : Plan where
  tree := ((Tree.single (.container "all")).addAll
    [(0, .container "a.Suite"), (1, .leaf "a.Suite" "first"), (0, .leaf "a.Other" "lone")]).1
  settings := { wrapOrphans := true }

theorem lone_test_starts_where_described :
    suiteAndLoneTest.StartsWhereDescribed
      [.suiteOpened (.container 1), .testStarted (.configuration 1),
        .testFinished (.configuration 1), .testStarted (.leaf 2),
        .testIgnored (.leaf 2) .neverStarted, .testFinished (.leaf 2),
        .suiteClosed (.container 1), .suiteOpened (.testClass "a.Other")] (.leaf 3) :=
  started_where_described suiteAndLoneTest [.node 1 (.failed []), .node 3 .started] false _ [] _
    (by decide +kernel)

end Plan

end RunStream
