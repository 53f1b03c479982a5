set_option autoImplicit false

namespace RunStream

/-- The number of a node.  Numbers from the tree's size on belong to no node. -/
abbrev NodeId := Nat

inductive Kind where
  | container (name : String)
  | leaf (className methodName : String)
deriving DecidableEq, Repr

def Kind.isContainer : Kind → Bool
  | .container _ => true
  | .leaf _ _ => false

structure Node where
  kind : Kind
  parent : Option NodeId
  children : List NodeId
deriving DecidableEq, Repr

structure Tree.Sound (nodes : Array Node) : Prop where
  nonempty : 0 < nodes.size
  rooted : ∀ (id : Nat) (node : Node), nodes[id]? = some node → (node.parent = none ↔ id = 0)
  older : ∀ (id parent : Nat) (node : Node),
    nodes[id]? = some node → node.parent = some parent → parent < id
  linked : ∀ (id child : Nat) (node : Node), nodes[id]? = some node →
    (child ∈ node.children ↔ (nodes[child]?).bind Node.parent = some id)
  sorted : ∀ (id : Nat) (node : Node),
    nodes[id]? = some node → node.children.Pairwise fun (a b : Nat) => a < b
  childless : ∀ (id : Nat) (node : Node),
    nodes[id]? = some node → node.kind.isContainer = false → node.children = []

structure Tree where
  nodes : Array Node
  sound : Tree.Sound nodes

inductive TreeError where
  | unknownParent (parent : NodeId)
  | parentIsLeaf (parent : NodeId) (className methodName : String)
deriving DecidableEq, Repr

def TreeError.message : TreeError → String
  | .unknownParent parent => s!"parent node #{parent} is not part of this tree"
  | .parentIsLeaf parent className methodName =>
      "cannot add a child to leaf `" ++ className ++ "." ++ methodName ++ "` (#" ++
        toString parent ++ ")"

namespace Tree

def root : NodeId := 0

def size (tree : Tree) : Nat :=
  tree.nodes.size

def contains (tree : Tree) (id : NodeId) : Bool :=
  decide (id < tree.size)

def kind? (tree : Tree) (id : NodeId) : Option Kind :=
  (tree.nodes[id]?).map Node.kind

def isContainer (tree : Tree) (id : NodeId) : Bool :=
  (tree.kind? id).any Kind.isContainer

def isLeaf (tree : Tree) (id : NodeId) : Bool :=
  (tree.kind? id).any fun kind => !kind.isContainer

def parent? (tree : Tree) (id : NodeId) : Option NodeId :=
  (tree.nodes[id]?).bind Node.parent

def children (tree : Tree) (id : NodeId) : List NodeId :=
  ((tree.nodes[id]?).map Node.children).getD []

theorem Sound.link_bounds {nodes : Array Node} (sound : Sound nodes) {id child : Nat}
    (link : (nodes[child]?).bind Node.parent = some id) : id < child ∧ child < nodes.size := by
  obtain ⟨node, present, parent⟩ := Option.bind_eq_some_iff.mp link
  obtain ⟨inside, _⟩ := Array.getElem?_eq_some_iff.mp present
  exact ⟨sound.older child id node present parent, inside⟩

theorem parent?_lt {tree : Tree} {id parent : Nat} (known : tree.parent? id = some parent) :
    parent < id :=
  (tree.sound.link_bounds known).1

theorem lt_size_of_parent? {tree : Tree} {id parent : Nat}
    (known : tree.parent? id = some parent) : id < tree.size :=
  (tree.sound.link_bounds known).2

theorem mem_children_iff {tree : Tree} {id child : Nat} (member : id < tree.size) :
    child ∈ tree.children id ↔ tree.parent? child = some id := by
  have present : tree.nodes[id]? = some tree.nodes[id] := Array.getElem?_eq_getElem member
  have linked := tree.sound.linked id child tree.nodes[id] present
  simpa [children, present, parent?] using linked

theorem lt_size_of_mem_children {tree : Tree} {id child : Nat}
    (member : child ∈ tree.children id) : id < tree.size := by
  unfold children at member
  cases present : tree.nodes[id]? with
  | none => simp [present] at member
  | some node =>
      obtain ⟨bound, _⟩ := Array.getElem?_eq_some_iff.mp present
      exact bound

theorem parent?_of_mem_children {tree : Tree} {id child : Nat}
    (member : child ∈ tree.children id) : tree.parent? child = some id :=
  (mem_children_iff (lt_size_of_mem_children member)).mp member

theorem child_bounds {tree : Tree} {id child : Nat} (member : child ∈ tree.children id) :
    id < child ∧ child < tree.size :=
  ⟨parent?_lt (parent?_of_mem_children member),
    lt_size_of_parent? (parent?_of_mem_children member)⟩

theorem children_sorted (tree : Tree) (id : Nat) :
    (tree.children id).Pairwise fun (a b : Nat) => a < b := by
  unfold children
  cases present : tree.nodes[id]? with
  | none => simp
  | some node => simpa using tree.sound.sorted id node present

theorem getElem?_single {first node : Node} {id : Nat} (present : #[first][id]? = some node) :
    id = 0 ∧ node = first := by
  cases id with
  | zero => simpa using present.symm
  | succ id => simp at present

theorem sound_single (kind : Kind) : Sound #[{ kind, parent := none, children := [] }] where
  nonempty := by simp
  rooted id node present := by simp [getElem?_single present]
  older id parent node present link := by simp [getElem?_single present] at link
  linked id child node present := by cases child <;> simp [getElem?_single present]
  sorted id node present := by simp [getElem?_single present]
  childless id node present _ := by simp [getElem?_single present]

def single (kind : Kind) : Tree where
  nodes := #[{ kind, parent := none, children := [] }]
  sound := sound_single kind

def grow (nodes : Array Node) (parent : NodeId) (kind : Kind) : Array Node :=
  (nodes.modify parent fun node => { node with children := node.children ++ [nodes.size] }).push
    { kind, parent := some parent, children := [] }

theorem getElem?_grow (nodes : Array Node) (parent id : Nat) (kind : Kind) :
    (grow nodes parent kind)[id]? =
      if id = nodes.size then some { kind, parent := some parent, children := [] }
      else if id = parent then
        (nodes[id]?).map fun node => { node with children := node.children ++ [nodes.size] }
      else nodes[id]? := by
  simp only [grow, Array.getElem?_push, Array.size_modify, Array.getElem?_modify]
  split
  · rfl
  · by_cases same : id = parent
    · simp [same]
    · simp [same, Ne.symm same]

section Growing

variable {nodes : Array Node} {parent : Nat} {kind : Kind}

theorem parent_grow (nodes : Array Node) (parent id : Nat) (kind : Kind) :
    ((grow nodes parent kind)[id]?).bind Node.parent =
      if id = nodes.size then some parent else (nodes[id]?).bind Node.parent := by
  rw [getElem?_grow]
  split
  · rfl
  · split
    · cases nodes[id]? <;> rfl
    · rfl

theorem grow_cases {id : Nat} {node : Node} (there : (grow nodes parent kind)[id]? = some node) :
    id = nodes.size ∧ node = { kind, parent := some parent, children := [] } ∨
      ∃ old, nodes[id]? = some old ∧ id < nodes.size ∧ node.kind = old.kind ∧
        node.parent = old.parent ∧
        node.children = old.children ++ if id = parent then [nodes.size] else [] := by
  rw [getElem?_grow] at there
  split at there
  · next last => exact .inl ⟨last, (Option.some.inj there).symm⟩
  · split at there
    · next same =>
        obtain ⟨old, present, rfl⟩ := Option.map_eq_some_iff.mp there
        obtain ⟨inside, _⟩ := Array.getElem?_eq_some_iff.mp present
        exact .inr ⟨old, present, inside, rfl, rfl, by rw [if_pos same]⟩
    · next other =>
        obtain ⟨inside, _⟩ := Array.getElem?_eq_some_iff.mp there
        exact .inr ⟨node, there, inside, rfl, rfl, by rw [if_neg other, List.append_nil]⟩

variable {id : Nat} {node : Node}

theorem rooted_grow (sound : Sound nodes) (there : (grow nodes parent kind)[id]? = some node) :
    node.parent = none ↔ id = 0 := by
  rcases grow_cases there with ⟨rfl, rfl⟩ | ⟨old, present, -, -, parents, -⟩
  · have := sound.nonempty
    simp only [reduceCtorEq, false_iff]
    omega
  · rw [parents]
    exact sound.rooted id old present

theorem older_grow (sound : Sound nodes) (inside : parent < nodes.size)
    (there : (grow nodes parent kind)[id]? = some node) {above : Nat}
    (link : node.parent = some above) : above < id := by
  rcases grow_cases there with ⟨rfl, rfl⟩ | ⟨old, present, -, -, parents, -⟩
  · rwa [← Option.some.inj link]
  · exact sound.older id above old present (parents ▸ link)

-- The number of the new node is nobody's parent and nobody's child so far.
theorem linked_grow (sound : Sound nodes) (inside : parent < nodes.size)
    (there : (grow nodes parent kind)[id]? = some node) (child : Nat) :
    child ∈ node.children ↔ ((grow nodes parent kind)[child]?).bind Node.parent = some id := by
  rw [parent_grow]
  rcases grow_cases there with ⟨rfl, rfl⟩ | ⟨old, present, bound, -, -, children⟩
  · simp only [List.not_mem_nil, false_iff]
    split
    · simp only [Option.some.injEq]
      omega
    · intro link
      have := sound.link_bounds link
      omega
  · rw [children, List.mem_append, sound.linked id child old present]
    by_cases last : child = nodes.size
    · subst last
      by_cases same : id = parent
      · simp [same]
      · simp [same, Ne.symm same]
    · by_cases same : id = parent <;> simp [last, same]

theorem sorted_grow (sound : Sound nodes) (there : (grow nodes parent kind)[id]? = some node) :
    node.children.Pairwise fun (a b : Nat) => a < b := by
  rcases grow_cases there with ⟨-, rfl⟩ | ⟨old, present, -, -, -, children⟩
  · exact .nil
  · rw [children, List.pairwise_append]
    refine ⟨sound.sorted id old present, by split <;> simp, fun child member last new => ?_⟩
    have bounds := sound.link_bounds ((sound.linked id child old present).mp member)
    split at new
    · rw [List.mem_singleton.mp new]
      exact bounds.2
    · cases new

theorem childless_grow (sound : Sound nodes) {name : String}
    (found : (nodes[parent]?).map Node.kind = some (.container name))
    (there : (grow nodes parent kind)[id]? = some node) (leaf : node.kind.isContainer = false) :
    node.children = [] := by
  rcases grow_cases there with ⟨-, rfl⟩ | ⟨old, present, -, kinds, -, children⟩
  · rfl
  · have apart : id ≠ parent := by
      rintro rfl
      rw [present, Option.map_some, Option.some.injEq] at found
      simp [kinds, found, Kind.isContainer] at leaf
    rw [children, if_neg apart, List.append_nil]
    exact sound.childless id old present (kinds ▸ leaf)

theorem sound_grow (nodes : Array Node) (parent : Nat) (kind : Kind) (sound : Sound nodes)
    (name : String) (found : (nodes[parent]?).map Node.kind = some (.container name)) :
    Sound (grow nodes parent kind) := by
  obtain ⟨owner, present, -⟩ := Option.map_eq_some_iff.mp found
  obtain ⟨inside, _⟩ := Array.getElem?_eq_some_iff.mp present
  exact {
    nonempty := by simp [grow]
    rooted := fun _ _ => rooted_grow sound
    older := fun _ _ _ there => older_grow sound inside there
    linked := fun _ child _ there => linked_grow sound inside there child
    sorted := fun _ _ => sorted_grow sound
    childless := fun _ _ => childless_grow sound found }

end Growing

def add (tree : Tree) (parent : NodeId) (kind : Kind) : Except TreeError Tree :=
  match found : (tree.nodes[parent]?).map Node.kind with
  | none => .error (.unknownParent parent)
  | some (.leaf className methodName) => .error (.parentIsLeaf parent className methodName)
  | some (.container name) =>
      .ok { nodes := grow tree.nodes parent kind,
            sound := sound_grow tree.nodes parent kind tree.sound name found }

end Tree

end RunStream
