import RunStream.Live.Scopes
import RunStream.Proofs.Tree.Paths

set_option autoImplicit false

namespace RunStream

theorem take_sharedLength (left right : List Scope) :
    left.take (sharedLength left right) = right.take (sharedLength left right) := by
  fun_induction sharedLength left right with
  | case1 a left right ih => simp [ih]
  | case2 a left b right other => simp
  | case3 left right => simp

theorem sharedLength_le (left right : List Scope) : sharedLength left right ≤ left.length := by
  fun_induction sharedLength left right with
  | case1 a left right ih => simp only [List.length_cons]; omega
  | case2 a left b right other => omega
  | case3 left right => omega

theorem sharedLength_self (scopes : List Scope) : sharedLength scopes scopes = scopes.length := by
  induction scopes with
  | nil => rfl
  | cons scope rest ih => simp [sharedLength, ih]

theorem length_le_sharedLength {base left right : List Scope} (inLeft : base <+: left)
    (inRight : base <+: right) : base.length ≤ sharedLength left right := by
  obtain ⟨restLeft, rfl⟩ := inLeft
  obtain ⟨restRight, rfl⟩ := inRight
  induction base with
  | nil => simp
  | cons scope base ih => simpa [sharedLength] using ih

theorem prefix_take_of_length_le {base scopes : List Scope} {count : Nat} (start : base <+: scopes)
    (bound : base.length ≤ count) : base <+: scopes.take count := by
  obtain ⟨rest, rfl⟩ := start
  rw [List.take_append, List.take_of_length_le bound]
  exact List.prefix_append _ _

theorem take_append_drop_sharedLength (suites target : List Scope) :
    suites.take (sharedLength suites target) ++ target.drop (sharedLength suites target) =
      target := by
  rw [take_sharedLength, List.take_append_drop]

namespace Plan

variable {plan : Plan}

def home (plan : Plan) : Subject → List Scope
  | .leaf id => plan.leafScopes id
  | .configuration container => plan.containerScopes container

def knows (plan : Plan) : Subject → Bool
  | .leaf id => plan.tree.isLeaf id
  | .configuration container => plan.tree.isContainer container

def subjectOf (plan : Plan) (node : NodeId) : Subject :=
  if plan.tree.isContainer node then .configuration node else .leaf node

theorem knows_subjectOf {node : NodeId} (known : plan.tree.contains node = true) :
    plan.knows (plan.subjectOf node) = true := by
  unfold subjectOf
  cases container : plan.tree.isContainer node with
  | true => exact container
  | false => exact Tree.isLeaf_of_not_isContainer known (by simp [container])

def Placed (plan : Plan) (suites : List Scope) : Prop :=
  ∃ subject, plan.knows subject = true ∧ suites = plan.home subject

theorem containerScopes_root : plan.containerScopes Tree.root = [] := by
  simp [containerScopes, Tree.scopePath_of_orphan plan.tree.parent?_root]

theorem map_scopePath_of_parent {id parent : Nat} (known : plan.tree.parent? id = some parent) :
    (plan.tree.scopePath id).map Scope.container = plan.containerScopes parent := by
  rw [Tree.scopePath_of_parent known, containerScopes]
  by_cases outer : parent = Tree.root <;> simp [outer]

theorem containerScopes_of_parent {id parent : Nat} (known : plan.tree.parent? id = some parent) :
    plan.containerScopes id = plan.containerScopes parent ++ [.container id] := by
  rw [containerScopes, map_scopePath_of_parent known, if_neg (Tree.ne_root_of_parent? known)]

theorem orphanClass?_of_inner {leaf parent : Nat} (known : plan.tree.parent? leaf = some parent)
    (inner : parent ≠ Tree.root) : plan.orphanClass? leaf = none := by
  unfold orphanClass?
  split
  · simp [known, inner]
  · rfl

theorem leafScopes_of_parent {leaf parent : Nat} (known : plan.tree.parent? leaf = some parent) :
    plan.leafScopes leaf = plan.containerScopes parent ++
      ((plan.orphanClass? leaf).map Scope.testClass).toList := by
  rw [leafScopes, map_scopePath_of_parent known]

theorem leafScopes_root (leaf : plan.tree.isLeaf Tree.root = true) :
    plan.leafScopes Tree.root = [] := by
  obtain ⟨className, methodName, kind⟩ := Tree.isLeaf_iff.mp leaf
  simp [leafScopes, Tree.scopePath_of_orphan plan.tree.parent?_root, orphanClass?, kind]

theorem containerScopes_cases {id : Nat} (known : plan.tree.isContainer id = true) :
    (id = Tree.root ∧ plan.containerScopes id = []) ∨
      ∃ parent, plan.tree.parent? id = some parent ∧ plan.tree.isContainer parent = true ∧
        plan.containerScopes id = plan.containerScopes parent ++ [.container id] := by
  obtain ⟨name, kind⟩ := Tree.isContainer_iff.mp known
  cases link : plan.tree.parent? id with
  | none =>
      have top := Tree.eq_root_of_parent?_none (Tree.lt_size_of_kind? kind) link
      exact .inl ⟨top, top ▸ containerScopes_root⟩
  | some parent =>
      exact .inr ⟨parent, rfl, Tree.isContainer_of_parent? link, containerScopes_of_parent link⟩

theorem leafScopes_cases {leaf : Nat} (known : plan.tree.isLeaf leaf = true) :
    plan.leafScopes leaf = [] ∨
      (∃ parent, plan.tree.parent? leaf = some parent ∧ plan.tree.isContainer parent = true ∧
        plan.leafScopes leaf = plan.containerScopes parent) ∨
      ∃ className, plan.leafScopes leaf = [.testClass className] := by
  obtain ⟨className, methodName, kind⟩ := Tree.isLeaf_iff.mp known
  cases link : plan.tree.parent? leaf with
  | none =>
      have top := Tree.eq_root_of_parent?_none (Tree.lt_size_of_kind? kind) link
      subst top
      exact .inl (leafScopes_root known)
  | some parent =>
      right
      rw [leafScopes_of_parent link]
      by_cases outer : parent = Tree.root
      · subst outer
        rw [containerScopes_root]
        cases plan.orphanClass? leaf with
        | none => exact .inl ⟨Tree.root, rfl, Tree.isContainer_of_parent? link, by
            simp [containerScopes_root]⟩
        | some className => exact .inr ⟨className, rfl⟩
      · rw [orphanClass?_of_inner link outer]
        exact .inl ⟨parent, rfl, Tree.isContainer_of_parent? link, by simp⟩

theorem placed_nil : plan.Placed [] := by
  rcases Tree.isContainer_or_isLeaf (Tree.contains_iff.mpr plan.tree.root_lt_size) with
    container | leaf
  · exact ⟨.configuration Tree.root, container, containerScopes_root.symm⟩
  · exact ⟨.leaf Tree.root, leaf, (leafScopes_root leaf).symm⟩

theorem placed_containerScopes {container : NodeId}
    (known : plan.tree.isContainer container = true) :
    plan.Placed (plan.containerScopes container) :=
  ⟨.configuration container, known, rfl⟩

theorem placed_leafScopes {leaf : NodeId} (known : plan.tree.isLeaf leaf = true) :
    plan.Placed (plan.leafScopes leaf) :=
  ⟨.leaf leaf, known, rfl⟩

theorem placed_of_prefix_containerScopes {id : Nat} {outer : List Scope}
    (known : plan.tree.isContainer id = true) (start : outer <+: plan.containerScopes id) :
    plan.Placed outer := by
  induction id using Nat.strongRecOn with
  | ind id ih =>
    rcases containerScopes_cases known with ⟨_, empty⟩ | ⟨parent, link, container, whole⟩
    · rw [empty, List.prefix_nil] at start
      exact start ▸ placed_nil
    · rw [whole] at start
      rcases List.prefix_concat_iff.mp start with same | shorter
      · exact ⟨.configuration id, known, same.trans whole.symm⟩
      · exact ih parent (Tree.parent?_lt link) container shorter

theorem Placed.of_prefix {suites outer : List Scope} (placed : plan.Placed suites)
    (start : outer <+: suites) : plan.Placed outer := by
  obtain ⟨subject, known, rfl⟩ := placed
  cases subject with
  | configuration container => exact placed_of_prefix_containerScopes known start
  | leaf id =>
      have whole := placed_leafScopes known
      simp only [home] at start
      rcases leafScopes_cases known with none | ⟨parent, _, container, same⟩ | ⟨className, same⟩
      · rw [none, List.prefix_nil] at start
        exact start ▸ placed_nil
      · exact placed_of_prefix_containerScopes container (same ▸ start)
      · rw [same] at start whole
        rcases List.prefix_cons_iff.mp start with rfl | ⟨rest, rfl, short⟩
        · exact placed_nil
        · rw [List.prefix_nil] at short
          exact short ▸ whole

theorem last_containerScopes {id container : Nat} {outer : List Scope}
    (known : plan.tree.isContainer container = true)
    (same : outer ++ [.container id] = plan.containerScopes container) : container = id := by
  rcases containerScopes_cases known with ⟨_, empty⟩ | ⟨parent, _, _, whole⟩
  · simp [empty] at same
  · rw [whole] at same
    simpa using (List.append_inj_right' same rfl).symm

theorem Placed.eq_containerScopes {outer : List Scope} {id : Nat}
    (placed : plan.Placed (outer ++ [.container id])) :
    outer ++ [.container id] = plan.containerScopes id ∧ plan.tree.isContainer id = true := by
  obtain ⟨subject, known, same⟩ := placed
  cases subject with
  | configuration container =>
      have last := last_containerScopes known same
      subst last
      exact ⟨same, known⟩
  | leaf leaf =>
      simp only [home] at same
      rcases leafScopes_cases known with none | ⟨parent, _, container, whole⟩ | ⟨className, whole⟩
      · simp [none] at same
      · have last := last_containerScopes container (same.trans whole)
        subst last
        exact ⟨same.trans whole, container⟩
      · have last := congrArg List.getLast? (same.trans whole)
        simp at last

theorem containerScopes_prefix_of_mem_ancestors {id above : Nat}
    (member : above ∈ plan.tree.ancestors id) :
    plan.containerScopes above <+: (plan.tree.scopePath id).map Scope.container := by
  induction id using Nat.strongRecOn with
  | ind id ih =>
    cases link : plan.tree.parent? id with
    | none => simp [Tree.ancestors_of_orphan link] at member
    | some parent =>
        rw [Tree.ancestors_of_parent link] at member
        rw [map_scopePath_of_parent link]
        rcases List.mem_cons.mp member with rfl | member
        · exact List.prefix_rfl
        · exact (ih parent (Tree.parent?_lt link) member).trans (List.prefix_append _ _)

theorem containerScopes_prefix_leafScopes {id leaf : Nat}
    (known : plan.tree.isContainer id = true) (member : leaf ∈ plan.tree.leavesUnder id) :
    plan.containerScopes id <+: plan.leafScopes leaf := by
  obtain ⟨isLeaf, same | above⟩ := Tree.mem_leavesUnder_iff.mp member
  · subst same
    simp [Tree.isContainer_eq_false_of_isLeaf isLeaf] at known
  · exact (containerScopes_prefix_of_mem_ancestors above).trans (List.prefix_append _ _)

end Plan

end RunStream
