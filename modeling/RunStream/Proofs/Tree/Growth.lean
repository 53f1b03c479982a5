import RunStream.Proofs.Tree.Paths

set_option autoImplicit false

namespace RunStream.Tree

variable {tree other : Tree}

theorem parent?_ne {id parent : Nat} (outside : tree.size ≤ parent) :
    tree.parent? id ≠ some parent := by
  intro known
  have older := parent?_lt known
  have inside := lt_size_of_parent? known
  omega

-- A node is told by its kind, its parent and its children, and the parent follows from these.
theorem eq_of_same (size : tree.size = other.size)
    (kinds : ∀ id < tree.size, tree.kind? id = other.kind? id)
    (children : ∀ id < tree.size, tree.children id = other.children id) : tree = other := by
  have parents (id : Nat) : tree.parent? id = other.parent? id := by
    have linked (parent : Nat) :
        tree.parent? id = some parent ↔ other.parent? id = some parent := by
      by_cases member : parent < tree.size
      · rw [← mem_children_iff member, children parent member, mem_children_iff (size ▸ member)]
      · have outside := Nat.le_of_not_lt member
        simp [parent?_ne outside, parent?_ne (size ▸ outside)]
    exact Option.ext linked
  have nodes : tree.nodes = other.nodes := by
    refine Array.ext size fun id here there => ?_
    have kind := kinds id here
    have below := children id here
    have above := parents id
    simp only [kind?, Tree.children, parent?, Array.getElem?_eq_getElem here,
      Array.getElem?_eq_getElem there, Option.map_some, Option.getD_some, Option.bind_some,
      Option.some.injEq] at kind below above
    cases first : tree.nodes[id]
    cases second : other.nodes[id]
    simp_all
  cases tree
  cases other
  simpa using nodes

structure Grown (tree : Tree) (parent : NodeId) (kind : Kind) (larger : Tree) : Prop where
  size : larger.size = tree.size + 1
  newKind : larger.kind? tree.size = some kind
  newChildren : larger.children tree.size = []
  parentChildren : larger.children parent = tree.children parent ++ [tree.size]
  kinds : ∀ id < tree.size, larger.kind? id = tree.kind? id
  others : ∀ id < tree.size, id ≠ parent → larger.children id = tree.children id

theorem exists_add {parent : Nat} (container : tree.isContainer parent = true) (kind : Kind) :
    ∃ larger, tree.add parent kind = .ok larger ∧ tree.Grown parent kind larger := by
  have inside := contains_iff.mp (contains_of_isContainer container)
  obtain ⟨name, known⟩ := isContainer_iff.mp container
  unfold add
  split
  · next absent =>
      rw [show (tree.nodes[parent]?).map Node.kind = tree.kind? parent from rfl, known] at absent
      cases absent
  · next isLeaf =>
      rw [show (tree.nodes[parent]?).map Node.kind = tree.kind? parent from rfl, known] at isLeaf
      cases isLeaf
  · refine ⟨_, rfl, ?_, ?_, ?_, ?_, fun id bound => ?_, fun id bound apart => ?_⟩
    · simp [size, grow]
    · simp [kind?, getElem?_grow, size]
    · simp [Tree.children, getElem?_grow, size]
    · have different : parent ≠ tree.nodes.size := Nat.ne_of_lt inside
      have present : tree.nodes[parent]? = some tree.nodes[parent] :=
        Array.getElem?_eq_getElem inside
      simp [Tree.children, getElem?_grow, size, different, present]
    · have different : id ≠ tree.nodes.size := Nat.ne_of_lt bound
      by_cases same : id = parent
      · subst same
        have present : tree.nodes[id]? = some tree.nodes[id] := Array.getElem?_eq_getElem bound
        simp [kind?, getElem?_grow, different, present]
      · simp [kind?, getElem?_grow, different, same]
    · have different : id ≠ tree.nodes.size := Nat.ne_of_lt bound
      simp [Tree.children, getElem?_grow, different, apart]

theorem Grown.isContainer {parent : NodeId} {kind : Kind} {larger : Tree}
    (grown : tree.Grown parent kind larger) {id : Nat} (container : tree.isContainer id = true) :
    larger.isContainer id = true := by
  have inside := contains_iff.mp (contains_of_isContainer container)
  rw [Tree.isContainer, grown.kinds id inside]
  exact container

end RunStream.Tree
