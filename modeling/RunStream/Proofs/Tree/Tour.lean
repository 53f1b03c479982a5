import RunStream.Proofs.Tree.Paths
import RunStream.Proofs.Wire.Enclosing

set_option autoImplicit false

namespace RunStream.Tree

open Wire

variable {tree : Tree} {naming : Naming}

def tour (tree : Tree) (id : Nat) : List Visit :=
  match tree.kind? id with
  | none => []
  | some (.leaf _ _) => [.enter id]
  | some (.container _) =>
      .enter id :: ((tree.children id).attach.flatMap fun ⟨child, _⟩ => tree.tour child) ++
        [.exit id]
termination_by tree.size - id
decreasing_by
  rename_i member
  have := child_bounds member
  omega

theorem tour_leaf {id : Nat} (known : tree.isLeaf id = true) : tree.tour id = [.enter id] := by
  obtain ⟨className, methodName, kind⟩ := isLeaf_iff.mp known
  rw [tour, kind]

theorem tour_container {id : Nat} (known : tree.isContainer id = true) :
    tree.tour id = .enter id :: (tree.children id).flatMap tree.tour ++ [.exit id] := by
  obtain ⟨name, kind⟩ := isContainer_iff.mp known
  rw [tour, kind]
  simp

def visits (tree : Tree) : List Visit :=
  tree.described.flatMap tree.tour

def Visit.message (naming : Naming) (tree : Tree) : Visit → Message
  | .enter id =>
      tree.locatedMessage naming
        (if tree.isContainer id then "suiteTreeStarted" else "suiteTreeNode") id
  | .exit id => { name := "suiteTreeEnded", attributes := [("name", tree.displayName id)] }

def Visit.spread (tree : Tree) : Visit → List Visit
  | .enter id => tree.tour id
  | .exit id => [.exit id]

-- The work list holds the visits still to come, each container's exit behind its children.
theorem describe_eq (work : List Visit) :
    describe naming tree work =
      (work.flatMap (Visit.spread tree)).map (Visit.message naming tree) := by
  fun_induction describe naming tree work with
  | case1 => rfl
  | case2 id rest ih => simp [ih, Visit.spread, Visit.message]
  | case3 id rest foreign ih =>
      rw [ih, List.flatMap_cons]
      simp [Visit.spread, tour, foreign]
  | case4 id rest className methodName kind ih =>
      have leaf := isLeaf_iff.mpr ⟨className, methodName, kind⟩
      rw [ih, List.flatMap_cons]
      simp [Visit.spread, tour_leaf leaf, Visit.message, isContainer_eq_false_of_isLeaf leaf]
  | case5 id rest name kind ih =>
      have container := isContainer_iff.mpr ⟨name, kind⟩
      rw [ih, List.flatMap_append, List.flatMap_cons, List.flatMap_cons]
      simp [Visit.spread, tour_container container, Visit.message, container, List.flatMap_map]

theorem description_eq (naming : Naming) (tree : Tree) :
    tree.description naming =
      { name := "enteredTheMatrix" } :: tree.visits.map (Visit.message naming tree) ++
        [{ name := "treeEnded" }] := by
  rw [description, describe_eq, visits, List.flatMap_map]
  rfl

def Visit.id : Visit → NodeId
  | .enter id => id
  | .exit id => id

theorem id_of_mem_tour {id : Nat} {visit : Visit} (member : visit ∈ tree.tour id) :
    visit.id = id ∨ id ∈ tree.ancestors visit.id := by
  fun_induction tour tree id with
  | case1 => simp at member
  | case2 id className methodName kind =>
      rw [List.mem_singleton.mp member]
      exact .inl rfl
  | case3 id name kind ih =>
      simp only [List.cons_append, List.mem_cons, List.mem_append, List.mem_flatMap,
        List.mem_attach, true_and, Subtype.exists, List.not_mem_nil, or_false] at member
      rcases member with rfl | ⟨child, below, member⟩ | rfl
      · exact .inl rfl
      · exact .inr (mem_ancestors_iff.mpr ⟨child, below, ih child below member⟩)
      · exact .inl rfl

theorem lt_of_mem_ancestors {id above : Nat} (member : above ∈ tree.ancestors id) : above < id := by
  induction id using Nat.strongRecOn with
  | ind id ih =>
    cases link : tree.parent? id with
    | none => simp [ancestors_of_orphan link] at member
    | some parent =>
        rw [ancestors_of_parent link] at member
        have older := parent?_lt link
        rcases List.mem_cons.mp member with rfl | member
        · exact older
        · exact Nat.lt_trans (ih parent older member) older

-- A walk upwards passes one child of a node at most.
theorem sibling_unique {parent first second id : Nat} (left : first ∈ tree.children parent)
    (right : second ∈ tree.children parent) (overLeft : id = first ∨ first ∈ tree.ancestors id)
    (overRight : id = second ∨ second ∈ tree.ancestors id) : first = second := by
  have outside {child other : Nat} (link : child ∈ tree.children parent)
      (otherLink : other ∈ tree.children parent) : other ∉ tree.ancestors child := by
    intro member
    rw [ancestors_of_parent (parent?_of_mem_children link)] at member
    have younger := (child_bounds otherLink).1
    rcases List.mem_cons.mp member with same | above
    · omega
    · have older := lt_of_mem_ancestors above
      omega
  induction id using Nat.strongRecOn with
  | ind id ih =>
    rcases overLeft with rfl | aboveLeft
    · exact overRight.resolve_right (outside left right)
    · rcases overRight with rfl | aboveRight
      · exact absurd aboveLeft (outside right left)
      · cases link : tree.parent? id with
        | none => simp [ancestors_of_orphan link] at aboveLeft
        | some above =>
            rw [ancestors_of_parent link, List.mem_cons] at aboveLeft aboveRight
            exact ih above (parent?_lt link) (aboveLeft.imp_left Eq.symm)
              (aboveRight.imp_left Eq.symm)

theorem nodup_flatMap_children {α : Type} {parent : Nat} {below : Nat → List α} (place : α → Nat)
    (inside : ∀ child item, item ∈ below child →
      place item = child ∨ child ∈ tree.ancestors (place item))
    (each : ∀ child ∈ tree.children parent, (below child).Nodup) :
    ((tree.children parent).flatMap below).Nodup := by
  refine List.pairwise_flatMap.mpr ⟨each, ?_⟩
  refine (tree.children_sorted parent).imp_of_mem fun left right older => ?_
  rintro item inLeft _ inRight rfl
  have same := sibling_unique left right (inside _ _ inLeft) (inside _ _ inRight)
  omega

theorem nodup_children_tours {parent : Nat}
    (each : ∀ child ∈ tree.children parent, (tree.tour child).Nodup) :
    ((tree.children parent).flatMap tree.tour).Nodup :=
  nodup_flatMap_children Visit.id (fun _ _ => id_of_mem_tour) each

theorem nodup_leavesUnder (id : Nat) : (tree.leavesUnder id).Nodup := by
  induction id using tree.induction_down with
  | foreign id foreign => simp [leavesUnder_foreign foreign]
  | leaf id className methodName known => simp [leavesUnder_leaf known]
  | container id name known ih =>
      rw [leavesUnder_container known]
      exact nodup_flatMap_children (fun leaf => leaf)
        (fun _ _ member => (mem_leavesUnder_iff.mp member).2) ih

theorem nodup_tour (id : Nat) : (tree.tour id).Nodup := by
  fun_induction tour tree id with
  | case1 => exact List.nodup_nil
  | case2 => simp
  | case3 id name kind ih =>
      have inner := nodup_children_tours ih
      have fresh : ∀ visit ∈ (tree.children id).flatMap tree.tour, visit.id ≠ id := by
        intro visit member
        obtain ⟨child, below, member⟩ := List.mem_flatMap.mp member
        have younger := (child_bounds below).1
        rcases id_of_mem_tour member with same | above
        · exact same ▸ Nat.ne_of_gt younger
        · exact Nat.ne_of_gt (Nat.lt_trans younger (lt_of_mem_ancestors above))
      simp only [List.flatMap_subtype, List.unattach_attach, List.cons_append, List.nodup_cons,
        List.mem_append, List.nodup_append, List.mem_singleton]
      refine ⟨?_, inner, by simp, ?_⟩
      · rintro (member | same)
        · exact fresh _ member rfl
        · cases same
      · rintro visit member _ rfl rfl
        exact fresh _ member rfl

theorem nodup_visits (tree : Tree) : tree.visits.Nodup := by
  unfold visits described
  split
  · simpa using nodup_tour root
  · exact nodup_children_tours fun child _ => nodup_tour child

def pair (naming : Naming) (tree : Tree) (id : NodeId) : String × String :=
  (tree.displayName id, tree.locationHint naming id)

def visited? (naming : Naming) (tree : Tree) (suites : List (String × String))
    (visits : List Visit) : Option (List (String × String)) :=
  suitesAfter? "suiteTreeStarted" "suiteTreeEnded" suites (visits.map (Visit.message naming tree))

theorem visited?_append {suites middle : List (String × String)} {first second : List Visit}
    (here : visited? naming tree suites first = some middle) :
    visited? naming tree suites (first ++ second) = visited? naming tree middle second := by
  unfold visited? at here ⊢
  rw [List.map_append]
  exact foldlM_append_of_eq_some here _

theorem visited?_enter {id : Nat} {suites : List (String × String)}
    (container : tree.isContainer id = true) :
    visited? naming tree suites [.enter id] = some (suites ++ [tree.pair naming id]) := by
  have opened := @trackSuites?_open "suiteTreeStarted" "suiteTreeEnded" suites
    (locatedMessage naming tree "suiteTreeStarted" id) _ _ rfl rfl rfl
  simpa [visited?, suitesAfter?, Visit.message, container, pair] using opened

theorem visited?_exit {id : Nat} {suites : List (String × String)} :
    visited? naming tree (suites ++ [tree.pair naming id]) [.exit id] = some suites := by
  have closed := @trackSuites?_close "suiteTreeStarted" "suiteTreeEnded" suites
    (Visit.message naming tree (.exit id)) (tree.displayName id) (tree.locationHint naming id)
    (by decide) rfl rfl
  simpa [visited?, suitesAfter?, pair] using closed

theorem visited?_flatMap {ids : List NodeId} {suites : List (String × String)}
    (each : ∀ id ∈ ids, visited? naming tree suites (tree.tour id) = some suites) :
    visited? naming tree suites (ids.flatMap tree.tour) = some suites := by
  induction ids with
  | nil => rfl
  | cons id rest ih =>
      rw [List.flatMap_cons, visited?_append (each id (List.mem_cons_self ..))]
      exact ih fun other member => each other (List.mem_cons_of_mem _ member)

theorem visited?_tour (id : Nat) (suites : List (String × String)) :
    visited? naming tree suites (tree.tour id) = some suites := by
  fun_induction tour tree id generalizing suites with
  | case1 => rfl
  | case2 id className methodName kind =>
      have leaf := isContainer_eq_false_of_isLeaf (isLeaf_iff.mpr ⟨className, methodName, kind⟩)
      simp [visited?, suitesAfter?, Visit.message, leaf, locatedMessage, trackSuites?]
  | case3 id name kind ih =>
      have inner := visited?_flatMap fun child below =>
        ih child below (suites ++ [tree.pair naming id])
      simp only [List.flatMap_subtype, List.unattach_attach]
      rw [List.cons_append, ← List.singleton_append,
        visited?_append (visited?_enter (isContainer_iff.mpr ⟨name, kind⟩)),
        visited?_append inner, visited?_exit]

def enclosingPairs (naming : Naming) (tree : Tree) (id : NodeId) : List (String × String) :=
  (tree.scopePath id).map (tree.pair naming)

theorem exists_visits_split {id : Nat} (member : id < tree.size)
    (shown : id ≠ root ∨ tree.children root = []) :
    ∃ earlier later, tree.visits = earlier ++ tree.tour id ++ later ∧
      visited? naming tree [] earlier = some (tree.enclosingPairs naming id) := by
  induction id using Nat.strongRecOn with
  | ind id ih =>
    cases link : tree.parent? id with
    | none =>
        have top : id = root := by
          by_cases top : id = root
          · exact top
          · obtain ⟨parent, known⟩ := parent?_isSome member top
            simp [link] at known
        have childless := shown.resolve_left (absurd top)
        refine ⟨[], [], ?_, ?_⟩
        · simp [visits, described, childless, top]
        · simp [enclosingPairs, scopePath_of_orphan link, visited?, suitesAfter?]
    | some parent =>
        obtain ⟨before, after, children⟩ := List.append_of_mem (mem_children_of_parent? link)
        by_cases outer : parent = root
        · subst outer
          refine ⟨before.flatMap tree.tour, after.flatMap tree.tour, ?_, ?_⟩
          · simp [visits, described, children]
          · rw [visited?_flatMap fun other _ => visited?_tour other _, enclosingPairs,
              scopePath_of_parent link, scopePath_of_orphan (parent?_root tree)]
            simp
        · have older := parent?_lt link
          obtain ⟨earlier, later, split, tracked⟩ := ih parent older (by omega) (.inl outer)
          have container := isContainer_of_parent? link
          refine ⟨earlier ++ .enter parent :: before.flatMap tree.tour,
            after.flatMap tree.tour ++ .exit parent :: later, ?_, ?_⟩
          · rw [split, tour_container container, children]
            simp
          · rw [visited?_append tracked, ← List.singleton_append,
              visited?_append (visited?_enter container),
              visited?_flatMap fun other _ => visited?_tour other _, enclosingPairs,
              enclosingPairs, scopePath_of_parent link]
            simp [outer]

theorem children_of_isLeaf {id : Nat} (known : tree.isLeaf id = true) : tree.children id = [] := by
  cases children : tree.children id with
  | nil => rfl
  | cons child rest =>
      have member : child ∈ tree.children id := by simp [children]
      have container := isContainer_of_parent? (parent?_of_mem_children member)
      simp [isContainer_eq_false_of_isLeaf known] at container

theorem exists_leaf_split {leaf : Nat} (known : tree.isLeaf leaf = true) :
    ∃ earlier later, tree.visits = earlier ++ .enter leaf :: later ∧
      .enter leaf ∉ earlier ∧ .enter leaf ∉ later ∧
      visited? naming tree [] earlier = some (tree.enclosingPairs naming leaf) := by
  obtain ⟨className, methodName, kind⟩ := isLeaf_iff.mp known
  have shown : leaf ≠ root ∨ tree.children root = [] := by
    by_cases top : leaf = root
    · exact .inr (top ▸ children_of_isLeaf known)
    · exact .inl top
  obtain ⟨earlier, later, split, tracked⟩ :=
    @exists_visits_split tree naming leaf (lt_size_of_kind? kind) shown
  rw [tour_leaf known, List.append_assoc, List.singleton_append] at split
  have once := nodup_visits tree
  rw [split, List.nodup_append, List.nodup_cons] at once
  refine ⟨earlier, later, split, fun member => ?_, once.2.1.1, tracked⟩
  exact once.2.2 _ member _ (List.mem_cons_self ..) rfl

end RunStream.Tree
