import RunStream.Proofs.Tree.Paths

set_option autoImplicit false

namespace RunStream.Tree

variable {tree : Tree}

/-- The group, the group that it lies in directly, and so on up to one that lies in no group; and
the container that this one lies in, unless it is the root. -/
inductive GroupChain (tree : Tree) : NodeId → List NodeId → Option NodeId → Prop
  | top (group : tree.isParameterGroup root = true) : GroupChain tree root [root] none
  | housed {id home : NodeId} (group : tree.isParameterGroup id = true)
      (link : tree.parent? id = some home) (other : tree.isParameterGroup home = false) :
      GroupChain tree id [id] (some home)
  | nested {id outer : NodeId} {chain : List NodeId} {home : Option NodeId}
      (group : tree.isParameterGroup id = true) (link : tree.parent? id = some outer)
      (outward : GroupChain tree outer chain home) : GroupChain tree id (id :: chain) home

variable {id : NodeId} {chain : List NodeId} {home : Option NodeId}

def containerName (tree : Tree) (id : NodeId) : String :=
  match tree.kind? id with
  | some (.container name) => name
  | _ => ""

def namesDown (tree : Tree) (ids : List NodeId) : String :=
  ".".intercalate (ids.map tree.containerName).reverse

theorem isParameterGroup_iff :
    tree.isParameterGroup id = true ↔
      ∃ name, tree.kind? id = some (.container name) ∧ Name.isParameter name = true := by
  unfold isParameterGroup
  cases known : tree.kind? id with
  | none => simp
  | some kind => cases kind <;> simp

theorem containerName_of_kind? {name : String}
    (kind : tree.kind? id = some (.container name)) : tree.containerName id = name := by
  rw [containerName, kind]

theorem GroupChain.group (found : tree.GroupChain id chain home) :
    tree.isParameterGroup id = true := by
  cases found <;> assumption

-- A parent is older than its children, so the way outwards ends.
theorem exists_groupChain (group : tree.isParameterGroup id = true) :
    ∃ chain home, tree.GroupChain id chain home := by
  induction id using Nat.strongRecOn with
  | ind id ih =>
    cases link : tree.parent? id with
    | none =>
        obtain ⟨name, kind, -⟩ := isParameterGroup_iff.mp group
        obtain rfl := eq_root_of_parent?_none (lt_size_of_kind? kind) link
        exact ⟨_, _, .top group⟩
    | some parent =>
        cases outward : tree.isParameterGroup parent with
        | true =>
            obtain ⟨chain, home, found⟩ := ih parent (parent?_lt link) outward
            exact ⟨_, _, .nested group link found⟩
        | false => exact ⟨_, _, .housed group link outward⟩

theorem GroupChain.unique {chain' : List NodeId} {home' : Option NodeId}
    (found : tree.GroupChain id chain home) (other : tree.GroupChain id chain' home') :
    chain' = chain ∧ home' = home := by
  induction found generalizing chain' home' with
  | top group =>
      cases other with
      | top _ => exact ⟨rfl, rfl⟩
      | housed _ link _ => simp [parent?_root] at link
      | nested _ link _ => simp [parent?_root] at link
  | housed group link plain =>
      cases other with
      | top _ => simp [parent?_root] at link
      | housed _ link' _ => exact ⟨rfl, link'.symm.trans link⟩
      | nested _ link' outward =>
          cases link.symm.trans link'
          simp [outward.group] at plain
  | nested group link outward ih =>
      cases other with
      | top _ => simp [parent?_root] at link
      | housed _ link' plain =>
          cases link.symm.trans link'
          simp [outward.group] at plain
      | nested _ link' outward' =>
          cases link.symm.trans link'
          obtain ⟨rfl, rfl⟩ := ih outward'
          exact ⟨rfl, rfl⟩

theorem namesDown_cons (tree : Tree) (id : NodeId) {ids : List NodeId} (inhabited : ids ≠ []) :
    tree.namesDown (id :: ids) = tree.namesDown ids ++ "." ++ tree.containerName id := by
  rw [namesDown, List.map_cons, List.reverse_cons,
    String.intercalate_append_of_ne_nil (by simpa using inhabited) (by simp),
    String.intercalate_singleton, namesDown]

theorem GroupChain.home_kind? {outer : NodeId} (found : tree.GroupChain id chain (some outer)) :
    ∃ name, tree.kind? outer = some (.container name) ∧ Name.isParameter name = false := by
  generalize same : some outer = home at found
  induction found with
  | top group => cases same
  | housed group link other =>
      cases same
      obtain ⟨name, kind⟩ := isContainer_iff.mp (isContainer_of_parent? link)
      exact ⟨name, kind, by simpa [isParameterGroup, kind] using other⟩
  | nested group link outward ih => exact ih same

theorem GroupChain.ne_nil (found : tree.GroupChain id chain home) :
    chain ++ home.toList ≠ [] := by
  cases found <;> simp

theorem GroupChain.longName?_eq (found : tree.GroupChain id chain home) :
    tree.longName? id = some (tree.namesDown (chain ++ home.toList)) := by
  induction found with
  | top group =>
      obtain ⟨name, kind, -⟩ := isParameterGroup_iff.mp group
      rw [longName?_of_orphan kind (parent?_root tree)]
      simp [namesDown, containerName_of_kind? kind]
  | housed group link other =>
      obtain ⟨name, kind, parameter⟩ := isParameterGroup_iff.mp group
      obtain ⟨outer, outward, plain⟩ := (GroupChain.housed group link other).home_kind?
      rw [longName?_of_parent kind parameter link (longName?_of_other outward plain)]
      simp [namesDown, containerName_of_kind? kind, containerName_of_kind? outward]
  | nested group link outward ih =>
      obtain ⟨name, kind, parameter⟩ := isParameterGroup_iff.mp group
      rw [longName?_of_parent kind parameter link ih, List.cons_append,
        namesDown_cons tree _ outward.ne_nil, containerName_of_kind? kind]

example : ((single (.container "[7]")).addAll [(0, .container "[8]")]).1.longName? 1 =
    some "[7].[8]" :=
  (GroupChain.nested (by decide) (by decide) (.top (by decide))).longName?_eq.trans (by decide)

theorem locationHint?_of_group {naming : Naming} (group : tree.isParameterGroup id = true) :
    tree.locationHint? naming id = (tree.longName? id).map naming.suiteLocation := by
  obtain ⟨name, kind, -⟩ := isParameterGroup_iff.mp group
  rw [locationHint?, kind]

theorem group_named_by_chain (naming : Naming) (group : tree.isParameterGroup id = true) :
    ∃ chain home, tree.GroupChain id chain home ∧
      (∀ chain' home', tree.GroupChain id chain' home' → chain' = chain ∧ home' = home) ∧
      (∀ outer, home = some outer →
        ∃ name, tree.kind? outer = some (.container name) ∧ Name.isParameter name = false) ∧
      tree.longName? id = some (tree.namesDown (chain ++ home.toList)) ∧
      tree.locationHint? naming id =
        some (naming.suiteLocation (tree.namesDown (chain ++ home.toList))) ∧
      ∀ (other : Tree) (twin : NodeId) (chain' : List NodeId) (home' : Option NodeId),
        other.GroupChain twin chain' home' →
        (chain' ++ home'.toList).map other.containerName =
          (chain ++ home.toList).map tree.containerName →
        other.longName? twin = tree.longName? id ∧
          other.locationHint? naming twin = tree.locationHint? naming id := by
  obtain ⟨chain, home, found⟩ := exists_groupChain group
  refine ⟨chain, home, found, fun _ _ => found.unique, fun outer inside => ?_, found.longName?_eq,
    ?_, fun other twin chain' home' found' names => ?_⟩
  · subst inside
    exact found.home_kind?
  · rw [locationHint?_of_group group, found.longName?_eq, Option.map_some]
  · have same : other.longName? twin = tree.longName? id := by
      rw [found.longName?_eq, found'.longName?_eq, namesDown, namesDown, names]
    rw [locationHint?_of_group group, locationHint?_of_group found'.group, same]
    exact ⟨rfl, rfl⟩

def deepGroups : Tree :=
  ((single (.container "all")).addAll
    [(0, .container "a.Suite"), (1, .container "b.Class"), (2, .container "[0]"),
      (3, .container "[1: x.y]")]).1

def classGroups : Tree :=
  ((single (.container "b.Class")).addAll [(0, .container "[0]"), (1, .container "[1: x.y]")]).1

theorem deepGroups_named_by_chain :
    deepGroups.isParameterGroup 4 = true ∧
      deepGroups.longName? 4 = some "b.Class.[0].[1: x.y]" ∧
      classGroups.longName? 2 = deepGroups.longName? 4 ∧
      classGroups.locationHint? {} 2 = deepGroups.locationHint? {} 4 := by
  have group : deepGroups.isParameterGroup 4 = true := by decide
  have deep : deepGroups.GroupChain 4 [4, 3] (some 2) :=
    .nested group (by decide) (.housed (by decide) (by decide) (by decide))
  have shallow : classGroups.GroupChain 2 [2, 1] (some 0) :=
    .nested (by decide) (by decide) (.housed (by decide) (by decide) (by decide))
  obtain ⟨chain, home, -, unique, -, named, -, alike⟩ := group_named_by_chain {} group
  obtain ⟨rfl, rfl⟩ := unique _ _ deep
  exact ⟨group, named.trans (by decide), alike _ _ _ _ shallow (by decide)⟩

end RunStream.Tree
