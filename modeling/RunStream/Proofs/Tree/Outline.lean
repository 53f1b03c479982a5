import Mathlib.Data.List.Nodup
import RunStream.Proofs.Tree.Described

set_option autoImplicit false

namespace RunStream.Tree

open Wire

variable {tree : Tree} {naming : Naming}

def outline (naming : Naming) (tree : Tree) (id : Nat) : List Message :=
  match tree.kind? id with
  | none => []
  | some (.leaf _ _) => [tree.locatedMessage naming "suiteTreeNode" id]
  | some (.container _) =>
      tree.locatedMessage naming "suiteTreeStarted" id ::
        ((tree.children id).attach.flatMap fun ⟨child, _⟩ => tree.outline naming child) ++
          [{ name := "suiteTreeEnded", attributes := [("name", tree.displayName id)] }]
termination_by tree.size - id
decreasing_by
  rename_i member
  have := child_bounds member
  omega

theorem outline_container {id : Nat} (known : tree.isContainer id = true) :
    tree.outline naming id =
      tree.locatedMessage naming "suiteTreeStarted" id ::
        (tree.children id).flatMap (tree.outline naming) ++
          [{ name := "suiteTreeEnded", attributes := [("name", tree.displayName id)] }] := by
  obtain ⟨name, kind⟩ := isContainer_iff.mp known
  rw [outline, kind]
  simp

theorem map_tour (naming : Naming) (tree : Tree) (id : Nat) :
    (tree.tour id).map (Visit.message naming tree) = tree.outline naming id := by
  fun_induction tour tree id with
  | case1 id foreign => rw [outline, foreign, List.map_nil]
  | case2 id className methodName kind =>
      have leaf := isContainer_eq_false_of_isLeaf (isLeaf_iff.mpr ⟨className, methodName, kind⟩)
      rw [outline, kind]
      simp [Visit.message, leaf]
  | case3 id name kind ih =>
      have container := isContainer_iff.mpr ⟨name, kind⟩
      have below : (tree.children id).flatMap
          (fun child => (tree.tour child).map (Visit.message naming tree)) =
            (tree.children id).flatMap (tree.outline naming) :=
        List.flatMap_congr ih
      rw [outline_container container, ← below]
      simp [Visit.message, container, List.map_flatMap]

theorem enter_mem_tour {id : Nat} (member : id < tree.size) : .enter id ∈ tree.tour id := by
  obtain ⟨kind, known⟩ := exists_kind? member
  rw [tour, known]
  cases kind <;> simp

theorem lt_size_of_mem_ancestors {id above : Nat} (member : above ∈ tree.ancestors id) :
    id < tree.size := by
  cases link : tree.parent? id with
  | none => simp [ancestors_of_orphan link] at member
  | some parent => exact lt_size_of_parent? link

def shown (tree : Tree) : List NodeId :=
  (List.range tree.size).filter fun id => id ≠ root ∨ tree.children root = []

theorem enter_mem_visits_iff {id : Nat} :
    .enter id ∈ tree.visits ↔ id < tree.size ∧ (id ≠ root ∨ tree.children root = []) := by
  constructor
  · intro member
    obtain ⟨top, described, toured⟩ := List.mem_flatMap.mp member
    have place : id = top ∨ top ∈ tree.ancestors id := id_of_mem_tour toured
    unfold Tree.described at described
    split at described
    · next childless =>
        obtain rfl := List.mem_singleton.mp described
        refine ⟨?_, .inr (List.isEmpty_iff.mp childless)⟩
        rcases place with rfl | above
        · exact root_lt_size tree
        · exact lt_size_of_mem_ancestors above
    · have bounds := child_bounds described
      rcases place with rfl | above
      · exact ⟨bounds.2, .inl (Nat.ne_of_gt bounds.1)⟩
      · have older := lt_of_mem_ancestors above
        exact ⟨lt_size_of_mem_ancestors above, .inl (Nat.ne_of_gt (Nat.lt_trans bounds.1 older))⟩
  · rintro ⟨inside, apart⟩
    obtain ⟨earlier, later, split, _⟩ := @exists_visits_split tree {} id inside apart
    simp [split, enter_mem_tour inside]

def Visit.entered? : Visit → Option NodeId
  | .enter id => some id
  | .exit _ => none

def entered (tree : Tree) : List NodeId :=
  tree.visits.filterMap Visit.entered?

theorem entered_perm_shown (tree : Tree) : tree.entered.Perm tree.shown := by
  have once : tree.entered.Nodup := by
    refine (nodup_visits tree).filterMap fun first second id left right => ?_
    cases first <;> cases second <;> simp_all [Visit.entered?]
  have each : tree.shown.Nodup := List.nodup_range.filter _
  refine (List.perm_ext_iff_of_nodup once each).mpr fun id => ?_
  have enters : id ∈ tree.entered ↔ .enter id ∈ tree.visits := by
    simp only [entered, List.mem_filterMap]
    constructor
    · rintro ⟨visit, member, enters⟩
      cases visit <;> simp_all [Visit.entered?]
    · exact fun member => ⟨_, member, rfl⟩
  rw [enters, enter_mem_visits_iff]
  simp [shown]

def entry (naming : Naming) (tree : Tree) (id : NodeId) : Message :=
  tree.locatedMessage naming
    (if tree.isContainer id then "suiteTreeStarted" else "suiteTreeNode") id

def describes (message : Message) : Bool :=
  decide (message.name = "suiteTreeStarted" ∨ message.name = "suiteTreeNode")

theorem filter_visits (naming : Naming) (tree : Tree) (visits : List Visit) :
    (visits.map (Visit.message naming tree)).filter describes =
      (visits.filterMap Visit.entered?).map (tree.entry naming) := by
  induction visits with
  | nil => rfl
  | cons visit rest ih =>
      cases visit with
      | enter id =>
          have begins : describes (Visit.message naming tree (.enter id)) = true := by
            cases container : tree.isContainer id <;>
              simp [describes, Visit.message, locatedMessage, container]
          simp only [List.map_cons, List.filter_cons, begins, if_true, ih, Visit.entered?,
            List.filterMap_cons]
          rfl
      | exit id =>
          have ends : describes (Visit.message naming tree (.exit id)) = false := rfl
          simp [ends, ih, Visit.entered?, List.filterMap_cons]

theorem filter_description (naming : Naming) (tree : Tree) :
    (tree.description naming).filter describes = tree.entered.map (tree.entry naming) := by
  have first : describes { name := "enteredTheMatrix" } = false := rfl
  have last : describes { name := "treeEnded" } = false := rfl
  rw [description_eq, entered, ← filter_visits]
  simp [first, last]

theorem countP_opensTest_description (naming : Naming) (tree : Tree) :
    (tree.description naming).countP opensTest = 0 := by
  refine List.countP_eq_zero.mpr fun message member opens => ?_
  have named := (mem_description member).1
  rw [of_decide_eq_true opens] at named
  revert named
  decide

theorem countP_opensSuite_description (naming : Naming) (tree : Tree) :
    (tree.description naming).countP opensSuite = tree.shown.countP tree.isContainer := by
  have described : ∀ message ∈ tree.description naming,
      opensSuite message = (opensSuite message && describes message) := by
    intro message member
    have named := (mem_description member).1
    simp only [describedNames, List.mem_cons, List.not_mem_nil, or_false] at named
    rcases named with named | named | named | named | named <;>
      simp [opensSuite, describes, named]
  have opens : opensSuite ∘ tree.entry naming = tree.isContainer := by
    funext id
    cases container : tree.isContainer id <;> simp [opensSuite, entry, locatedMessage, container]
  calc (tree.description naming).countP opensSuite
      = ((tree.description naming).filter describes).countP opensSuite := by
        rw [List.countP_filter]
        exact List.countP_congr fun message member => by rw [← described message member]
    _ = tree.entered.countP tree.isContainer := by
        rw [filter_description, List.countP_map, opens]
    _ = tree.shown.countP tree.isContainer := (entered_perm_shown tree).countP_eq _

-- The root is a container if it has children, and the only node that is left out.
theorem countP_shown (tree : Tree) :
    tree.shown.countP tree.isContainer + (if tree.children root = [] then 0 else 1) =
      (List.range tree.size).countP tree.isContainer := by
  by_cases childless : tree.children root = []
  · simp [shown, childless]
  · obtain ⟨child, rest, children⟩ := List.exists_cons_of_ne_nil childless
    have container : tree.isContainer root = true :=
      isContainer_of_parent? (parent?_of_mem_children (children ▸ List.mem_cons_self ..))
    have only : (List.range tree.size).filter (fun id => !decide (id ≠ root)) = [root] := by
      obtain ⟨more, size⟩ := Nat.exists_eq_add_of_lt (root_lt_size tree)
      rw [size, List.range_succ_eq_map]
      simp [root, List.filter_map]
    have split := List.countP_eq_countP_filter_add (List.range tree.size) tree.isContainer
      fun id => decide (id ≠ root)
    rw [split, only]
    simp [shown, childless, container]

theorem description_exact (naming : Naming) (tree : Tree) :
    tree.description naming =
        { name := "enteredTheMatrix" } ::
          (if tree.children root = [] then tree.outline naming root
            else (tree.children root).flatMap (tree.outline naming)) ++
          [{ name := "treeEnded" }] ∧
      ((tree.description naming).filter describes).Perm (tree.shown.map (tree.entry naming)) ∧
      ∃ suites, checkNesting (tree.description naming) = .ok { suites, tests := 0 } ∧
        suites + (if tree.children root = [] then 0 else 1) =
          (List.range tree.size).countP tree.isContainer := by
  refine ⟨?_, ?_, tree.shown.countP tree.isContainer, ?_, countP_shown tree⟩
  · have outlines := List.flatMap_congr (l := tree.described) fun id _ => map_tour naming tree id
    rw [description_eq, visits, List.map_flatMap, outlines]
    by_cases childless : tree.children root = [] <;> simp [Tree.described, childless]
  · rw [filter_description]
    exact (entered_perm_shown tree).map _
  · rw [(neutral_description naming tree).checked]
    simp [NestingSummary.add, countP_opensSuite_description, countP_opensTest_description]

end RunStream.Tree
