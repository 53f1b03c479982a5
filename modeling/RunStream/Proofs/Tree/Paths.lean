import RunStream.Tree.Description

set_option autoImplicit false

namespace RunStream.Tree

variable {tree : Tree}

theorem isContainer_iff {id : Nat} :
    tree.isContainer id = true ↔ ∃ name, tree.kind? id = some (.container name) := by
  unfold isContainer
  cases known : tree.kind? id with
  | none => simp
  | some kind => cases kind <;> simp [Kind.isContainer]

theorem isLeaf_iff {id : Nat} :
    tree.isLeaf id = true ↔
      ∃ className methodName, tree.kind? id = some (.leaf className methodName) := by
  unfold isLeaf
  cases known : tree.kind? id with
  | none => simp
  | some kind => cases kind <;> simp [Kind.isContainer]

theorem isContainer_eq_false_of_isLeaf {id : Nat} (leaf : tree.isLeaf id = true) :
    tree.isContainer id = false := by
  obtain ⟨className, methodName, known⟩ := isLeaf_iff.mp leaf
  simp [isContainer, known, Kind.isContainer]

theorem contains_iff {id : Nat} : tree.contains id = true ↔ id < tree.size := by
  simp [contains]

theorem exists_kind? {id : Nat} (member : id < tree.size) :
    ∃ kind, tree.kind? id = some kind := by
  have present : tree.nodes[id]? = some tree.nodes[id] := Array.getElem?_eq_getElem member
  exact ⟨tree.nodes[id].kind, by simp [kind?, present]⟩

theorem contains_of_isLeaf {id : Nat} (leaf : tree.isLeaf id = true) :
    tree.contains id = true := by
  obtain ⟨className, methodName, known⟩ := isLeaf_iff.mp leaf
  exact contains_iff.mpr (lt_size_of_kind? known)

theorem contains_of_isContainer {id : Nat} (container : tree.isContainer id = true) :
    tree.contains id = true := by
  obtain ⟨name, known⟩ := isContainer_iff.mp container
  exact contains_iff.mpr (lt_size_of_kind? known)

theorem isContainer_or_isLeaf {id : Nat} (member : tree.contains id = true) :
    tree.isContainer id = true ∨ tree.isLeaf id = true := by
  obtain ⟨kind, known⟩ := exists_kind? (contains_iff.mp member)
  cases kind with
  | container name => exact .inl (isContainer_iff.mpr ⟨name, known⟩)
  | leaf className methodName => exact .inr (isLeaf_iff.mpr ⟨className, methodName, known⟩)

theorem isLeaf_of_not_isContainer {id : Nat} (member : tree.contains id = true)
    (other : tree.isContainer id = false) : tree.isLeaf id = true := by
  rcases isContainer_or_isLeaf member with container | leaf
  · simp [container] at other
  · exact leaf

theorem root_lt_size (tree : Tree) : root < tree.size :=
  tree.sound.nonempty

theorem parent?_root (tree : Tree) : tree.parent? root = none := by
  cases known : tree.parent? root with
  | none => rfl
  | some parent => exact absurd (parent?_lt known) (Nat.not_lt_zero parent)

theorem parent?_isSome {id : Nat} (member : id < tree.size) (inner : id ≠ root) :
    ∃ parent, tree.parent? id = some parent := by
  have present : tree.nodes[id]? = some tree.nodes[id] := Array.getElem?_eq_getElem member
  cases link : tree.nodes[id].parent with
  | none => exact absurd ((tree.sound.rooted id _ present).mp link) inner
  | some parent => exact ⟨parent, by simp [parent?, present, link]⟩

theorem ne_root_of_parent? {id parent : Nat} (known : tree.parent? id = some parent) :
    id ≠ root := by
  rintro rfl
  simp [parent?_root] at known

theorem eq_root_of_parent?_none {id : Nat} (member : id < tree.size)
    (link : tree.parent? id = none) : id = root := by
  by_cases top : id = root
  · exact top
  · obtain ⟨parent, known⟩ := parent?_isSome member top
    simp [link] at known

theorem mem_children_of_parent? {id parent : Nat} (known : tree.parent? id = some parent) :
    id ∈ tree.children parent := by
  have younger := parent?_lt known
  have member := lt_size_of_parent? known
  exact (mem_children_iff (by omega)).mpr known

theorem isContainer_of_parent? {id parent : Nat} (known : tree.parent? id = some parent) :
    tree.isContainer parent = true := by
  have child := mem_children_of_parent? known
  have member := lt_size_of_mem_children child
  have present : tree.nodes[parent]? = some tree.nodes[parent] :=
    Array.getElem?_eq_getElem member
  cases kind : tree.isContainer parent with
  | true => rfl
  | false =>
      have none := tree.sound.childless parent _ present
        (by simpa [isContainer, kind?, present] using kind)
      simp [children, present, none] at child

theorem not_mem_ancestors_of_isLeaf {id leaf : Nat} (known : tree.isLeaf leaf = true) :
    leaf ∉ tree.ancestors id := by
  induction id using Nat.strongRecOn with
  | ind id ih =>
    cases link : tree.parent? id with
    | none => simp [ancestors_of_orphan link]
    | some parent =>
        rw [ancestors_of_parent link, List.mem_cons, not_or]
        refine ⟨?_, ih parent (parent?_lt link)⟩
        rintro rfl
        have container := isContainer_of_parent? link
        simp [isContainer_eq_false_of_isLeaf known] at container

theorem scopePath_of_orphan {id : Nat} (known : tree.parent? id = none) :
    tree.scopePath id = [] := by
  simp [scopePath, ancestors_of_orphan known]

theorem scopePath_of_parent {id parent : Nat} (known : tree.parent? id = some parent) :
    tree.scopePath id = tree.scopePath parent ++ if parent = root then [] else [parent] := by
  rw [scopePath, ancestors_of_parent known, scopePath]
  by_cases outer : parent = root
  · simp [outer]
  · simp [outer]

theorem mem_ancestors_iff {id above : Nat} :
    above ∈ tree.ancestors id ↔
      ∃ child ∈ tree.children above, id = child ∨ child ∈ tree.ancestors id := by
  induction id using Nat.strongRecOn with
  | ind id ih =>
    cases known : tree.parent? id with
    | none =>
        rw [ancestors_of_orphan known]
        simp only [List.not_mem_nil, or_false, false_iff, not_exists, not_and]
        rintro child member rfl
        simp [parent?_of_mem_children member] at known
    | some parent =>
        have outer := ih parent (parent?_lt known)
        rw [ancestors_of_parent known]
        constructor
        · intro member
          rcases List.mem_cons.mp member with rfl | member
          · exact ⟨id, mem_children_of_parent? known, .inl rfl⟩
          · obtain ⟨child, link, place⟩ := outer.mp member
            refine ⟨child, link, .inr (List.mem_cons.mpr ?_)⟩
            exact place.imp_left Eq.symm
        · rintro ⟨child, link, rfl | member⟩
          · have same := known.symm.trans (parent?_of_mem_children link)
            exact List.mem_cons.mpr (.inl (Option.some.inj same).symm)
          · refine List.mem_cons_of_mem _ (outer.mpr ⟨child, link, ?_⟩)
            exact (List.mem_cons.mp member).imp_left Eq.symm

theorem mem_leavesUnder_iff {id leaf : Nat} :
    leaf ∈ tree.leavesUnder id ↔
      tree.isLeaf leaf = true ∧ (leaf = id ∨ id ∈ tree.ancestors leaf) := by
  induction id using tree.induction_down with
  | foreign id foreign =>
      have nowhere : id ∉ tree.ancestors leaf := by
        intro above
        obtain ⟨child, link, _⟩ := mem_ancestors_iff.mp above
        have container := isContainer_of_parent? (parent?_of_mem_children link)
        obtain ⟨name, kind⟩ := isContainer_iff.mp container
        simp [foreign] at kind
      simp only [leavesUnder_foreign foreign, List.not_mem_nil, false_iff, not_and, not_or]
      refine fun known => ⟨?_, nowhere⟩
      rintro rfl
      simp [isLeaf, foreign] at known
  | leaf id className methodName kind =>
      have known : tree.isLeaf id = true := isLeaf_iff.mpr ⟨className, methodName, kind⟩
      simp only [leavesUnder_leaf kind, List.mem_singleton, not_mem_ancestors_of_isLeaf known,
        or_false]
      exact ⟨fun same => ⟨same ▸ known, same⟩, fun both => both.2⟩
  | container id name kind ih =>
      have inner : leaf = id → tree.isLeaf leaf = false := by
        rintro rfl
        simp [isLeaf, kind, Kind.isContainer]
      rw [leavesUnder_container kind, List.mem_flatMap]
      constructor
      · rintro ⟨child, link, member⟩
        obtain ⟨known, place⟩ := (ih child link).mp member
        exact ⟨known, .inr (mem_ancestors_iff.mpr ⟨child, link, place⟩)⟩
      · rintro ⟨known, same | above⟩
        · simp [inner same] at known
        · obtain ⟨child, link, place⟩ := mem_ancestors_iff.mp above
          exact ⟨child, link, (ih child link).mpr ⟨known, place⟩⟩

end RunStream.Tree
