import RunStream.Proofs.Tree.Growth
import RunStream.Script.Resolved

set_option autoImplicit false

namespace RunStream

namespace ScriptNode

def numbers (next : NodeId) : List ScriptNode → List NodeId
  | [] => []
  | node :: rest => next :: numbers (next + node.nodes.length) rest

theorem getElem?_numbers (next : Nat) (siblings before after : List ScriptNode)
    (place : before.length = next) :
    (numbers next siblings).map ((before ++ listNodes siblings ++ after)[·]?) =
      siblings.map some := by
  induction siblings generalizing next before with
  | nil => rfl
  | cons node rest ih =>
      have later := ih (next + node.nodes.length) (before ++ node.nodes)
        (by rw [List.length_append, place])
      have here : (before ++ (node.nodes ++ listNodes rest) ++ after)[next]? = some node := by
        rw [nodes_eq, ← place]
        simp
      simp only [numbers, listNodes, List.map_cons, here]
      simpa using later

@[elab_as_elim]
theorem siblings_induction {motive : List ScriptNode → Prop} (siblings : List ScriptNode)
    (nil : motive [])
    (cons : ∀ node rest, motive node.children → motive rest → motive (node :: rest)) :
    motive siblings := by
  match siblings with
  | [] => exact nil
  | node :: rest =>
      exact cons node rest (siblings_induction node.children nil cons)
        (siblings_induction rest nil cons)
termination_by (listNodes siblings).length
decreasing_by
  all_goals
    simp only [listNodes, nodes_eq, List.length_append, List.length_cons]
    omega

theorem getElem?_listNodes_cons {node found : ScriptNode} {rest : List ScriptNode} {place : Nat}
    (here : (listNodes (node :: rest))[place]? = some found) :
    (place = 0 ∧ found = node) ∨
      (∃ inside, place = inside + 1 ∧ (listNodes node.children)[inside]? = some found) ∨
      ∃ after, place = node.nodes.length + after ∧ (listNodes rest)[after]? = some found := by
  rw [listNodes] at here
  by_cases inside : place < node.nodes.length
  · rw [List.getElem?_append_left inside, nodes_eq] at here
    cases place with
    | zero => exact .inl ⟨rfl, by simpa using here.symm⟩
    | succ place => exact .inr (.inl ⟨place, rfl, by simpa using here⟩)
  · rw [List.getElem?_append_right (Nat.le_of_not_lt inside)] at here
    exact .inr (.inr ⟨_, by omega, here⟩)

theorem exists_split {siblings : List ScriptNode} {place : Nat} {node : ScriptNode}
    (here : (listNodes siblings)[place]? = some node) :
    ∃ before after, listNodes siblings = before ++ node.nodes ++ after ∧
      before.length = place := by
  induction siblings using siblings_induction generalizing place with
  | nil => simp [listNodes] at here
  | cons first rest ihBelow ihLater =>
      rcases getElem?_listNodes_cons here with
        ⟨rfl, rfl⟩ | ⟨inside, rfl, below⟩ | ⟨after, rfl, later⟩
      · exact ⟨[], listNodes rest, by simp [listNodes], rfl⟩
      · obtain ⟨before, after, split, length⟩ := ihBelow below
        exact ⟨first :: before, after ++ listNodes rest, by simp [listNodes, nodes_eq, split],
          by rw [List.length_cons, length]⟩
      · obtain ⟨before, after, split, length⟩ := ihLater later
        exact ⟨first.nodes ++ before, after, by simp [listNodes, split],
          by rw [List.length_append, length]⟩

end ScriptNode

open ScriptNode

def Tree.Shows (tree : Tree) (id : Nat) (node : ScriptNode) : Prop :=
  tree.kind? id = some node.kind ∧ tree.children id = numbers (id + 1) node.children

def noteLabels (labels : Labels) (next : NodeId) :
    List (Option String) → Except ScriptError Labels
  | [] => .ok labels
  | name :: rest => do noteLabels (← Script.noteLabel labels next name) (next + 1) rest

theorem noteLabels_append (labels : Labels) (next : Nat) (first second : List (Option String)) :
    noteLabels labels next (first ++ second) =
      noteLabels labels next first >>= (noteLabels · (next + first.length) second) := by
  induction first generalizing labels next with
  | nil => rfl
  | cons name rest ih =>
      rw [List.cons_append, noteLabels, noteLabels]
      cases Script.noteLabel labels next name with
      | error cause => rfl
      | ok noted =>
          rw [List.length_cons, Nat.add_comm rest.length, ← Nat.add_assoc]
          exact ih noted (next + 1)

structure Planted (parent : NodeId) (siblings : List ScriptNode) (tree larger : Tree) : Prop where
  size : larger.size = tree.size + (listNodes siblings).length
  kinds : ∀ id < tree.size, larger.kind? id = tree.kind? id
  others : ∀ id < tree.size, id ≠ parent → larger.children id = tree.children id
  parentChildren : larger.children parent = tree.children parent ++ numbers tree.size siblings
  shows : ∀ place node, (listNodes siblings)[place]? = some node →
    larger.Shows (tree.size + place) node

theorem planted_nil (parent : NodeId) (tree : Tree) : Planted parent [] tree tree where
  size := rfl
  kinds := fun _ _ => rfl
  others := fun _ _ _ => rfl
  parentChildren := (List.append_nil _).symm
  shows := by simp [listNodes]

theorem Planted.keeps {parent id : Nat} {siblings : List ScriptNode} {tree larger : Tree}
    {node : ScriptNode} (planted : Planted parent siblings tree larger) (old : id < tree.size)
    (apart : id ≠ parent) (before : tree.Shows id node) : larger.Shows id node :=
  ⟨(planted.kinds id old).trans before.1, (planted.others id old apart).trans before.2⟩

theorem Planted.cons {parent : Nat} {node : ScriptNode} {rest : List ScriptNode}
    {tree single inner larger : Tree} (member : parent < tree.size)
    (first : tree.Grown parent node.kind single)
    (below : Planted tree.size node.children single inner)
    (later : Planted parent rest inner larger) : Planted parent (node :: rest) tree larger := by
  have singleSize := first.size
  have innerSize : inner.size = tree.size + node.nodes.length := by
    rw [below.size, first.size, nodes_eq, List.length_cons]
    omega
  have width : node.nodes.length = (listNodes node.children).length + 1 := by simp [nodes_eq]
  refine ⟨?_, fun id old => ?_, fun id old apart => ?_, ?_, fun place found here => ?_⟩
  · rw [later.size, innerSize, listNodes, List.length_append, Nat.add_assoc]
  · rw [later.kinds id (by omega), below.kinds id (by omega), first.kinds id old]
  · rw [later.others id (by omega) apart, below.others id (by omega) (by omega),
      first.others id old apart]
  · rw [later.parentChildren, below.others parent (by omega) (by omega), first.parentChildren,
      innerSize, List.append_assoc]
    rfl
  · rcases getElem?_listNodes_cons here with ⟨rfl, rfl⟩ | ⟨inside, rfl, under⟩ | ⟨after, rfl, next⟩
    · refine later.keeps (by omega) (by omega) ⟨?_, ?_⟩
      · rw [below.kinds _ (by omega)]
        exact first.newKind
      · rw [Nat.add_zero, below.parentChildren, first.newChildren, first.size]
        rfl
    · have bound := (List.getElem?_eq_some_iff.mp under).1
      have shown := below.shows inside found under
      rw [show single.size + inside = tree.size + (inside + 1) by omega] at shown
      exact later.keeps (by omega) (by omega) shown
    · have shown := later.shows after found next
      rwa [innerSize, Nat.add_assoc] at shown

theorem isContainer_of_children {tree : Tree} {id : NodeId} {node : ScriptNode}
    (here : tree.kind? id = some node.kind) (inhabited : node.children ≠ []) :
    tree.isContainer id = true := by
  rw [Tree.isContainer, here]
  cases node with
  | container name label children => rfl
  | leaf className methodName label => exact absurd rfl inhabited

def below (parent : NodeId) (siblings : List ScriptNode) : List (NodeId × ScriptNode) :=
  siblings.map (parent, ·)

theorem addNodes_cons {tree larger : Tree} {parent : NodeId} {node : ScriptNode}
    (added : tree.add parent node.kind = .ok larger) (labels : Labels)
    (rest : List (NodeId × ScriptNode)) :
    Script.addNodes tree labels ((parent, node) :: rest) =
      Script.noteLabel labels tree.size node.label >>=
        (Script.addNodes larger · (below tree.size node.children ++ rest)) := by
  rw [Script.addNodes, added]
  rfl

-- A tree that takes the siblings takes them whatever the labels are and whatever is left to add.
theorem exists_planted (tree : Tree) (parent : Nat) (siblings : List ScriptNode)
    (member : parent < tree.size) (owner : siblings ≠ [] → tree.isContainer parent = true) :
    ∃ larger, Planted parent siblings tree larger ∧ ∀ labels rest,
      Script.addNodes tree labels (below parent siblings ++ rest) =
        noteLabels labels tree.size ((listNodes siblings).map ScriptNode.label) >>=
          (Script.addNodes larger · rest) := by
  induction siblings using siblings_induction generalizing tree parent with
  | nil => exact ⟨tree, planted_nil parent tree, fun _ _ => rfl⟩
  | cons node rest ihBelow ihLater =>
      have container := owner (List.cons_ne_nil _ _)
      obtain ⟨single, added, first⟩ := Tree.exists_add container node.kind
      have singleSize := first.size
      obtain ⟨inner, under, goesUnder⟩ := ihBelow single tree.size (by omega)
        (isContainer_of_children first.newKind)
      have still : rest ≠ [] → inner.isContainer parent = true := by
        intro _
        rw [Tree.isContainer, under.kinds parent (by omega)]
        exact first.isContainer container
      obtain ⟨larger, later, goesOn⟩ :=
        ihLater inner parent (by rw [under.size]; omega) still
      refine ⟨larger, Planted.cons member first under later, fun labels work => ?_⟩
      have start : below parent (node :: rest) ++ work =
          (parent, node) :: (below parent rest ++ work) := rfl
      rw [start, addNodes_cons added, listNodes, nodes_eq, List.map_append, List.map_cons,
        List.cons_append, noteLabels]
      cases Script.noteLabel labels tree.size node.label with
      | error cause => rfl
      | ok noted =>
          change Script.addNodes single noted _ = noteLabels noted (tree.size + 1) _ >>= _
          rw [goesUnder, noteLabels_append, ← first.size, List.length_map, ← under.size]
          cases noteLabels noted single.size _ with
          | error cause => rfl
          | ok known => exact goesOn known work

structure Tree.Mirrors (tree : Tree) (script : ScriptNode) : Prop where
  size : tree.size = script.nodes.length
  kinds : ∀ id node, script.nodes[id]? = some node → tree.kind? id = some node.kind
  children : ∀ id node, script.nodes[id]? = some node →
    tree.children id = numbers (id + 1) node.children
  parents : ∀ id node child, script.nodes[id]? = some node →
    (tree.parent? child = some id ↔ child ∈ numbers (id + 1) node.children)
  inOrder : ∀ id node, script.nodes[id]? = some node →
    (tree.children id).map (script.nodes[·]?) = node.children.map some

theorem Tree.mirrors_of_shows {tree : Tree} {script : ScriptNode}
    (size : tree.size = script.nodes.length)
    (shows' : ∀ id node, script.nodes[id]? = some node → tree.Shows id node) :
    tree.Mirrors script where
  size := size
  kinds := fun id node here => (shows' id node here).1
  children := fun id node here => (shows' id node here).2
  parents := fun id node child here => by
    have inside : id < tree.size := size ▸ (List.getElem?_eq_some_iff.mp here).1
    rw [← Tree.mem_children_iff inside, (shows' id node here).2]
  inOrder := fun id node here => by
    have whole : listNodes [script] = script.nodes := by simp [listNodes]
    obtain ⟨before, after, split, place⟩ := exists_split (whole ▸ here)
    rw [whole, nodes_eq node, List.append_cons] at split
    rw [(shows' id node here).2, split]
    exact getElem?_numbers (id + 1) node.children _ after (by simp [place])

-- Only a label can be in the way of the tree.
theorem exists_mirror (script : ScriptNode) :
    ∃ tree : Tree, tree.Mirrors script ∧ ∀ labels,
      Script.addNodes (Tree.single script.kind) labels (below Tree.root script.children) =
        (tree, ·) <$> noteLabels labels 1 ((listNodes script.children).map ScriptNode.label) := by
  obtain ⟨tree, planted, goes⟩ := exists_planted (Tree.single script.kind) Tree.root script.children
    (Tree.root_lt_size (Tree.single script.kind)) (isContainer_of_children rfl)
  have one : (Tree.single script.kind).size = 1 := rfl
  refine ⟨tree, Tree.mirrors_of_shows ?_ ?_, fun labels => ?_⟩
  · rw [planted.size, one, nodes_eq, List.length_cons, Nat.add_comm]
  · intro id node here
    rw [nodes_eq] at here
    cases id with
    | zero =>
        obtain rfl : script = node := by simpa using here
        exact ⟨planted.kinds 0 Nat.one_pos, planted.parentChildren⟩
    | succ id =>
        have shown := planted.shows id node here
        rwa [one, Nat.add_comm] at shown
  · have all := goes labels []
    rw [List.append_nil, one] at all
    rw [all]
    cases noteLabels labels 1 _ with
    | error cause => rfl
    | ok noted => exact Script.addNodes.eq_1 tree noted

theorem Tree.Mirrors.unique {tree other : Tree} {script : ScriptNode}
    (left : tree.Mirrors script) (right : other.Mirrors script) : tree = other := by
  have node {id : Nat} (inside : id < tree.size) : ∃ node, script.nodes[id]? = some node :=
    ⟨_, List.getElem?_eq_getElem (left.size ▸ inside)⟩
  refine Tree.eq_of_same (left.size.trans right.size.symm) (fun id inside => ?_) fun id inside => ?_
  · obtain ⟨node, here⟩ := node inside
    rw [left.kinds id node here, right.kinds id node here]
  · obtain ⟨node, here⟩ := node inside
    rw [left.children id node here, right.children id node here]

end RunStream
