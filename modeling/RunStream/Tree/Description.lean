import RunStream.Tree.Naming

set_option autoImplicit false

namespace RunStream

open Wire

namespace Tree

def displayName (tree : Tree) (id : NodeId) : String :=
  (tree.displayName? id).getD ""

def locationHint (naming : Naming) (tree : Tree) (id : NodeId) : String :=
  (tree.locationHint? naming id).getD ""

def locatedMessage (naming : Naming) (tree : Tree) (message : String) (id : NodeId) : Message where
  name := message
  attributes := [("name", tree.displayName id), ("locationHint", tree.locationHint naming id)]

inductive Visit where
  | enter (id : NodeId)
  -- Everything below the container has been described.
  | exit (id : NodeId)
deriving DecidableEq, Repr

/-- A child weighs half as much as its elder sibling at most, and a parent more than all its
children together. -/
def Visit.weight (tree : Tree) : Visit → Nat
  | .enter id => Nat.pow 2 (tree.size - id)
  | .exit _ => 1

theorem Visit.weight_pos (tree : Tree) (visit : Visit) : 0 < visit.weight tree := by
  cases visit with
  | enter id => exact Nat.two_pow_pos (tree.size - id)
  | exit _ => exact Nat.one_pos

def pendingWeight (tree : Tree) : List Visit → Nat
  | [] => 0
  | visit :: rest => visit.weight tree + tree.pendingWeight rest

theorem pendingWeight_append (tree : Tree) (left right : List Visit) :
    tree.pendingWeight (left ++ right) = tree.pendingWeight left + tree.pendingWeight right := by
  induction left with
  | nil => simp [pendingWeight]
  | cons visit rest ih =>
      simp only [List.cons_append, pendingWeight, ih]
      omega

theorem pendingWeight_enter (tree : Tree) (ids : List Nat) :
    tree.pendingWeight (ids.map Visit.enter) = tree.weight ids := by
  induction ids with
  | nil => rfl
  | cons id rest ih => rw [List.map_cons, pendingWeight, weight, ih, Visit.weight]

theorem pendingWeight_children_lt (tree : Tree) (id : Nat) (rest : List Visit)
    (member : id < tree.size) :
    tree.pendingWeight ((tree.children id).map Visit.enter ++ .exit id :: rest) <
      tree.pendingWeight (.enter id :: rest) := by
  have bound := tree.weight_children_lt member
  simp only [pendingWeight_append, pendingWeight_enter, pendingWeight, Visit.weight]
  omega

theorem lt_size_of_kind? {tree : Tree} {id : Nat} {kind : Kind}
    (known : tree.kind? id = some kind) : id < tree.size := by
  obtain ⟨node, present, _⟩ := Option.map_eq_some_iff.mp known
  exact (Array.getElem?_eq_some_iff.mp present).1

def describe (naming : Naming) (tree : Tree) : List Visit → List Message
  | [] => []
  | .exit id :: rest =>
      { name := "suiteTreeEnded", attributes := [("name", tree.displayName id)] } ::
        describe naming tree rest
  | .enter id :: rest =>
      match _known : tree.kind? id with
      | none => describe naming tree rest
      | some (.leaf _ _) =>
          tree.locatedMessage naming "suiteTreeNode" id :: describe naming tree rest
      | some (.container _) =>
          tree.locatedMessage naming "suiteTreeStarted" id ::
            describe naming tree ((tree.children id).map Visit.enter ++ .exit id :: rest)
termination_by work => tree.pendingWeight work
decreasing_by
  · simp [pendingWeight, Visit.weight_pos]
  · simp [pendingWeight, Visit.weight_pos]
  · simp [pendingWeight, Visit.weight_pos]
  · exact tree.pendingWeight_children_lt id rest (lt_size_of_kind? ‹_›)

def described (tree : Tree) : List NodeId :=
  if (tree.children root).isEmpty then [root] else tree.children root

def description (naming : Naming) (tree : Tree) : List Message :=
  { name := "enteredTheMatrix" } ::
    describe naming tree (tree.described.map Visit.enter) ++ [{ name := "treeEnded" }]

end Tree

end RunStream
