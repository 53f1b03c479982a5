import RunStream.Tree.Basic

set_option autoImplicit false

namespace RunStream.Tree

def ancestors (tree : Tree) (id : Nat) : List NodeId :=
  match _found : tree.parent? id with
  | none => []
  | some parent => parent :: tree.ancestors parent
termination_by id
decreasing_by exact parent?_lt ‹_›

theorem ancestors_of_parent {tree : Tree} {id parent : Nat}
    (known : tree.parent? id = some parent) :
    tree.ancestors id = parent :: tree.ancestors parent := by
  rw [ancestors]
  split
  · next absent => simp [known] at absent
  · next found =>
      rw [known, Option.some.injEq] at found
      subst found
      rfl

theorem ancestors_of_orphan {tree : Tree} {id : Nat} (known : tree.parent? id = none) :
    tree.ancestors id = [] := by
  rw [ancestors]
  split
  · rfl
  · next found => simp [known] at found

/-- The containers a node is nested in, outermost first.  The root stands for the run as a whole
and is left out. -/
def scopePath (tree : Tree) (id : NodeId) : List NodeId :=
  ((tree.ancestors id).filter (· != root)).reverse

/-- A child weighs half as much as its elder sibling at most, and a parent more than all its
children together. -/
def weight (tree : Tree) : List NodeId → Nat
  | [] => 0
  | id :: rest => Nat.pow 2 (tree.size - id) + tree.weight rest

theorem weight_append (tree : Tree) (left right : List Nat) :
    tree.weight (left ++ right) = tree.weight left + tree.weight right := by
  induction left with
  | nil => simp [weight]
  | cons id rest ih => simp only [List.cons_append, weight, ih, Nat.add_assoc]

theorem weight_sorted_lt (tree : Tree) (ids : List Nat) (start : Nat) (bound : start ≤ tree.size)
    (sorted : ids.Pairwise fun a b => a < b) (inside : ∀ id ∈ ids, start ≤ id ∧ id < tree.size) :
    tree.weight ids + 2 ≤ Nat.pow 2 (tree.size + 1 - start) := by
  induction ids generalizing start with
  | nil =>
      have positive : 1 ≤ tree.size + 1 - start := by omega
      exact Nat.pow_le_pow_right Nat.two_pos positive
  | cons id rest ih =>
      obtain ⟨first, after⟩ := List.pairwise_cons.mp sorted
      have here := inside id (by simp)
      have tail := ih (id + 1) (by omega) after fun other member =>
        ⟨first other member, (inside other (by simp [member])).2⟩
      have double : Nat.pow 2 (tree.size - id + 1) = Nat.pow 2 (tree.size - id) * 2 := rfl
      have larger : Nat.pow 2 (tree.size - id + 1) ≤ Nat.pow 2 (tree.size + 1 - start) :=
        Nat.pow_le_pow_right Nat.two_pos (by omega)
      rw [show tree.size + 1 - (id + 1) = tree.size - id by omega] at tail
      simp only [weight]
      omega

theorem weight_children_lt (tree : Tree) {id : Nat} (member : id < tree.size) :
    tree.weight (tree.children id) + 2 ≤ Nat.pow 2 (tree.size - id) := by
  have bound := tree.weight_sorted_lt (tree.children id) (id + 1) (by omega)
    (tree.children_sorted id) fun child there => by
      have := child_bounds there
      omega
  rwa [show tree.size + 1 - (id + 1) = tree.size - id by omega] at bound

theorem weight_expanded_lt (tree : Tree) (id : Nat) (rest : List Nat) :
    tree.weight (tree.children id ++ rest) < tree.weight (id :: rest) := by
  rw [weight_append, weight, Nat.add_lt_add_iff_right]
  cases children : tree.children id with
  | nil => exact Nat.two_pow_pos _
  | cons child others =>
      have member : id < tree.size := lt_size_of_mem_children (children ▸ List.mem_cons_self)
      have bound := tree.weight_children_lt member
      rw [children] at bound
      omega

def leavesFrom (tree : Tree) : List NodeId → List NodeId
  | [] => []
  | id :: rest =>
      match tree.kind? id with
      | none => tree.leavesFrom rest
      | some (.leaf _ _) => id :: tree.leavesFrom rest
      | some (.container _) => tree.leavesFrom (tree.children id ++ rest)
termination_by work => tree.weight work
decreasing_by
  · exact Nat.lt_add_of_pos_left (Nat.two_pow_pos _)
  · exact Nat.lt_add_of_pos_left (Nat.two_pow_pos _)
  · exact tree.weight_expanded_lt id rest

def leavesUnder (tree : Tree) (id : Nat) : List NodeId :=
  tree.leavesFrom [id]

theorem leavesFrom_append (tree : Tree) (left right : List NodeId) :
    tree.leavesFrom (left ++ right) = tree.leavesFrom left ++ tree.leavesFrom right := by
  fun_induction leavesFrom tree left with
  | case1 => rfl
  | case2 id rest foreign ih => rw [List.cons_append, leavesFrom, foreign, ih]
  | case3 id rest className methodName known ih =>
      rw [List.cons_append, leavesFrom, known, ih, List.cons_append]
  | case4 id rest name known ih =>
      rw [List.cons_append, leavesFrom, known, ← List.append_assoc, ih]

theorem leavesFrom_eq_flatMap (tree : Tree) (work : List NodeId) :
    tree.leavesFrom work = work.flatMap tree.leavesUnder := by
  induction work with
  | nil => rw [leavesFrom, List.flatMap_nil]
  | cons id rest ih => rw [← List.singleton_append, leavesFrom_append, ih]; rfl

theorem leavesUnder_leaf {tree : Tree} {id : Nat} {className methodName : String}
    (known : tree.kind? id = some (.leaf className methodName)) : tree.leavesUnder id = [id] := by
  rw [leavesUnder, leavesFrom, known, leavesFrom]

theorem leavesUnder_container {tree : Tree} {id : Nat} {name : String}
    (known : tree.kind? id = some (.container name)) :
    tree.leavesUnder id = (tree.children id).flatMap tree.leavesUnder := by
  rw [leavesUnder, leavesFrom, known, List.append_nil]
  exact tree.leavesFrom_eq_flatMap _

theorem leavesUnder_foreign {tree : Tree} {id : Nat} (foreign : tree.kind? id = none) :
    tree.leavesUnder id = [] := by
  rw [leavesUnder, leavesFrom, foreign, leavesFrom]

theorem induction_down (tree : Tree) {motive : Nat → Prop}
    (foreign : ∀ id, tree.kind? id = none → motive id)
    (leaf : ∀ id className methodName, tree.kind? id = some (.leaf className methodName) →
      motive id)
    (container : ∀ id name, tree.kind? id = some (.container name) →
      (∀ child ∈ tree.children id, motive child) → motive id) (id : Nat) : motive id := by
  induction room : tree.size - id using Nat.strongRecOn generalizing id with
  | ind room ih =>
    cases known : tree.kind? id with
    | none => exact foreign id known
    | some kind =>
        cases kind with
        | leaf className methodName => exact leaf id className methodName known
        | container name =>
            refine container id name known fun child member => ih (tree.size - child) ?_ child rfl
            have := child_bounds member
            omega

/-- A node that cannot be added is passed over and takes no number. -/
def addAll (tree : Tree) : List (NodeId × Kind) → Tree × List (Except TreeError NodeId)
  | [] => (tree, [])
  | (parent, kind) :: rest =>
      match tree.add parent kind with
      | .error refusal =>
          let (grown, answers) := tree.addAll rest
          (grown, .error refusal :: answers)
      | .ok larger =>
          let (grown, answers) := larger.addAll rest
          (grown, .ok tree.size :: answers)

end RunStream.Tree
