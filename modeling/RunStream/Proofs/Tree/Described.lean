import RunStream.Proofs.Nesting
import RunStream.Proofs.Tree.Tour

set_option autoImplicit false

namespace RunStream.Tree

open Wire

variable {tree : Tree} {naming : Naming}

def describedNames : List String :=
  ["enteredTheMatrix", "suiteTreeStarted", "suiteTreeNode", "suiteTreeEnded", "treeEnded"]

theorem visit_names (visit : Visit) : (visit.message naming tree).name ∈ describedNames := by
  cases visit with
  | enter id =>
      simp only [Visit.message, locatedMessage]
      split <;> simp [describedNames]
  | exit id => simp [Visit.message, describedNames]

theorem visit_keys (visit : Visit) :
    ∀ entry ∈ (visit.message naming tree).attributes, entry.1 ∈ ["name", "locationHint"] := by
  cases visit <;> simp [Visit.message, locatedMessage]

theorem mem_description {message : Message} (member : message ∈ tree.description naming) :
    message.name ∈ describedNames ∧
      ∀ entry ∈ message.attributes, entry.1 ∈ ["name", "locationHint"] := by
  simp only [description_eq, List.cons_append, List.mem_cons, List.mem_append, List.mem_map,
    List.not_mem_nil, or_false] at member
  rcases member with rfl | ⟨visit, _, rfl⟩ | rfl
  · simp [describedNames]
  · exact ⟨visit_names visit, visit_keys visit⟩
  · simp [describedNames]

theorem neutral_tour (id : Nat) : Neutral ((tree.tour id).map (Visit.message naming tree)) := by
  fun_induction tour tree id with
  | case1 => exact neutral_nil
  | case2 id className methodName kind =>
      have leaf := isContainer_eq_false_of_isLeaf (isLeaf_iff.mpr ⟨className, methodName, kind⟩)
      exact neutral_other (by simp [Visit.message, leaf, locatedMessage, bracket?])
  | case3 id name kind ih =>
      have container := isContainer_iff.mpr ⟨name, kind⟩
      simp only [List.flatMap_subtype, List.unattach_attach, List.cons_append, List.map_cons,
        List.map_append, List.map_flatMap, List.map_nil]
      have opening : Visit.message naming tree (.enter id) =
          tree.locatedMessage naming "suiteTreeStarted" id := by
        simp [Visit.message, container]
      have opens : bracket? (tree.locatedMessage naming "suiteTreeStarted" id).name =
          some (.describedSuite, .opening) := rfl
      have closes : bracket? (Visit.message naming tree (.exit id)).name =
          some (.describedSuite, .closing) := rfl
      rw [opening]
      exact (neutral_flatMap ih).enclosed opens closes rfl rfl

theorem neutral_description (naming : Naming) (tree : Tree) :
    Neutral (tree.description naming) := by
  have visits : Neutral (tree.visits.map (Visit.message naming tree)) := by
    rw [Tree.visits, List.map_flatMap]
    exact neutral_flatMap fun id _ => neutral_tour id
  rw [description_eq]
  exact ((neutral_other (by decide)).append visits).append (neutral_other (by decide))

end RunStream.Tree
