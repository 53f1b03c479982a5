import Mathlib.Data.List.Lex
import RunStream.Proofs.Tree.Growth
import RunStream.Proofs.Tree.Tour

set_option autoImplicit false

namespace RunStream.Tree

variable {tree larger : Tree}

inductive Inserts (tree : Tree) : NodeId × Kind → Except TreeError NodeId → Tree → Prop
  | unknown {parent : NodeId} {kind : Kind} (outside : tree.contains parent = false) :
      Inserts tree (parent, kind) (.error (.unknownParent parent)) tree
  | onLeaf {parent : NodeId} {kind : Kind} {className methodName : String}
      (leaf : tree.kind? parent = some (.leaf className methodName)) :
      Inserts tree (parent, kind) (.error (.parentIsLeaf parent className methodName)) tree
  | added {parent : NodeId} {kind : Kind} {larger : Tree}
      (container : tree.isContainer parent = true) (grown : tree.Grown parent kind larger) :
      Inserts tree (parent, kind) (.ok tree.size) larger

inductive InsertsAll : Tree → List (NodeId × Kind) → List (Except TreeError NodeId) → Tree → Prop
  | done (tree : Tree) : InsertsAll tree [] [] tree
  | call {first middle last : Tree} {call : NodeId × Kind} {answer : Except TreeError NodeId}
      {calls : List (NodeId × Kind)} {answers : List (Except TreeError NodeId)}
      (here : Inserts first call answer middle) (later : InsertsAll middle calls answers last) :
      InsertsAll first (call :: calls) (answer :: answers) last

theorem inserts_add (tree : Tree) (parent : NodeId) (kind : Kind) :
    (∃ refusal, tree.add parent kind = .error refusal ∧
        Inserts tree (parent, kind) (.error refusal) tree) ∨
      ∃ larger, tree.add parent kind = .ok larger ∧
        Inserts tree (parent, kind) (.ok tree.size) larger := by
  cases container : tree.isContainer parent with
  | true =>
      obtain ⟨larger, added, grown⟩ := exists_add container kind
      exact .inr ⟨larger, added, .added container grown⟩
  | false =>
      refine .inl ?_
      unfold add
      split
      · next absent =>
          refine ⟨_, rfl, .unknown ?_⟩
          cases member : tree.contains parent with
          | false => rfl
          | true =>
              obtain ⟨found, known⟩ := exists_kind? (contains_iff.mp member)
              rw [kind?, absent] at known
              cases known
      · next className methodName leaf => exact ⟨_, rfl, .onLeaf leaf⟩
      · next name known =>
          rw [isContainer_iff.mpr ⟨name, known⟩] at container
          cases container

theorem insertsAll_addAll (tree : Tree) (calls : List (NodeId × Kind)) :
    InsertsAll tree calls (tree.addAll calls).2 (tree.addAll calls).1 := by
  induction calls generalizing tree with
  | nil => exact .done tree
  | cons call rest ih =>
      obtain ⟨parent, kind⟩ := call
      rcases inserts_add tree parent kind with ⟨refusal, added, here⟩ | ⟨larger, added, here⟩
      · simpa only [addAll, added] using .call here (ih tree)
      · simpa only [addAll, added] using .call here (ih larger)

structure Linked (tree : Tree) : Prop where
  root : tree.parent? root = none
  parents : ∀ id < tree.size, id ≠ Tree.root →
    ∃ parent < id, tree.parent? id = some parent ∧ tree.isContainer parent = true
  listed : ∀ parent child,
    (tree.children parent).count child = if tree.parent? child = some parent then 1 else 0
  siblings : ∀ parent, (tree.children parent).Pairwise fun (a b : Nat) => a < b
  leaves : ∀ id, tree.isLeaf id = true → tree.children id = []

theorem linked (tree : Tree) : tree.Linked where
  root := parent?_root tree
  parents id member inner := by
    obtain ⟨parent, known⟩ := parent?_isSome member inner
    exact ⟨parent, parent?_lt known, known, isContainer_of_parent? known⟩
  listed parent child := by
    have once : (tree.children parent).Nodup := (tree.children_sorted parent).imp Nat.ne_of_lt
    rw [once.count]
    refine if_congr ⟨parent?_of_mem_children, mem_children_of_parent?⟩ rfl rfl
  siblings := tree.children_sorted
  leaves _ := children_of_isLeaf

def trail (tree : Tree) (id : NodeId) : List NodeId :=
  (id :: tree.ancestors id).reverse

theorem trail_of_parent {id parent : Nat} (known : tree.parent? id = some parent) :
    tree.trail id = tree.trail parent ++ [id] := by
  simp [trail, ancestors_of_parent known]

theorem trail_isPrefix {above id : Nat} (place : id = above ∨ above ∈ tree.ancestors id) :
    tree.trail above <+: tree.trail id := by
  induction id using Nat.strongRecOn with
  | ind id ih =>
    rcases place with rfl | member
    · exact List.prefix_rfl
    · cases link : tree.parent? id with
      | none => simp [ancestors_of_orphan link] at member
      | some parent =>
          rw [ancestors_of_parent link, List.mem_cons] at member
          have outer := ih parent (parent?_lt link) (member.imp_left Eq.symm)
          exact trail_of_parent link ▸ outer.trans (List.prefix_append ..)

/-- A node comes before another one in a tour that lists every node before its children, and these
in their order. -/
def Precedes (tree : Tree) (first second : NodeId) : Prop :=
  List.Lex (fun (a b : Nat) => a < b) (tree.trail first) (tree.trail second)

theorem precedes_of_siblings {parent left right first second : Nat}
    (leftChild : left ∈ tree.children parent) (rightChild : right ∈ tree.children parent)
    (older : left < right) (underLeft : first = left ∨ left ∈ tree.ancestors first)
    (underRight : second = right ∨ right ∈ tree.ancestors second) :
    tree.Precedes first second := by
  obtain ⟨ends, whole⟩ := trail_isPrefix underLeft
  obtain ⟨otherEnds, otherWhole⟩ := trail_isPrefix underRight
  rw [Precedes, ← whole, ← otherWhole, trail_of_parent (parent?_of_mem_children leftChild),
    trail_of_parent (parent?_of_mem_children rightChild), List.append_assoc, List.append_assoc]
  exact List.Lex.append_left _ (.rel older) _

theorem pairwise_leavesUnder (tree : Tree) (id : Nat) :
    (tree.leavesUnder id).Pairwise tree.Precedes := by
  induction id using tree.induction_down with
  | foreign id foreign => simp [leavesUnder_foreign foreign]
  | leaf id className methodName known => simp [leavesUnder_leaf known]
  | container id name known ih =>
      rw [leavesUnder_container known]
      refine List.pairwise_flatMap.mpr ⟨ih, ?_⟩
      refine (tree.children_sorted id).imp_of_mem fun left right older => ?_
      intro first inLeft second inRight
      exact precedes_of_siblings left right older (mem_leavesUnder_iff.mp inLeft).2
        (mem_leavesUnder_iff.mp inRight).2

theorem length_ancestors_le (tree : Tree) (id : Nat) : (tree.ancestors id).length ≤ id := by
  induction id using Nat.strongRecOn with
  | ind id ih =>
    cases link : tree.parent? id with
    | none => simp [ancestors_of_orphan link]
    | some parent =>
        have older := parent?_lt link
        have outer := ih parent older
        rw [ancestors_of_parent link, List.length_cons]
        omega

theorem isChain_ancestors (tree : Tree) (id : Nat) :
    (id :: tree.ancestors id).IsChain fun inner outer => tree.parent? inner = some outer := by
  induction id using Nat.strongRecOn with
  | ind id ih =>
    cases link : tree.parent? id with
    | none => simp [ancestors_of_orphan link]
    | some parent =>
        rw [ancestors_of_parent link]
        exact (ih parent (parent?_lt link)).cons_cons link

theorem root_cons_scopePath {id : Nat} (member : id < tree.size) (inner : id ≠ root) :
    root :: tree.scopePath id = (tree.ancestors id).reverse := by
  induction id using Nat.strongRecOn with
  | ind id ih =>
    obtain ⟨parent, link⟩ := parent?_isSome member inner
    have older := parent?_lt link
    rw [scopePath_of_parent link, ancestors_of_parent link, List.reverse_cons]
    by_cases outer : parent = root
    · subst outer
      have top := parent?_root tree
      simp [scopePath_of_orphan top, ancestors_of_orphan top]
    · rw [← ih parent older (by omega) outer, if_neg outer, List.cons_append]

theorem outside_nothing {id : Nat} (outside : tree.size ≤ id) :
    tree.parent? id = none ∧ tree.children id = [] ∧ tree.ancestors id = [] ∧
      tree.scopePath id = [] ∧ tree.leavesUnder id = [] := by
  have absent : tree.nodes[id]? = none := Array.getElem?_eq_none outside
  have orphan : tree.parent? id = none := by simp [parent?, absent]
  exact ⟨orphan, by simp [Tree.children, absent], ancestors_of_orphan orphan,
    scopePath_of_orphan orphan, leavesUnder_foreign (by simp [kind?, absent])⟩

structure Walked (tree : Tree) : Prop where
  root : tree.ancestors root = [] ∧ tree.scopePath root = []
  bounded : ∀ id, (tree.ancestors id).length ≤ id
  upwards : ∀ id,
    (id :: tree.ancestors id).IsChain fun inner outer => tree.parent? inner = some outer
  paths : ∀ id < tree.size, id ≠ Tree.root →
    (tree.ancestors id).getLast? = some Tree.root ∧ Tree.root ∉ tree.scopePath id ∧
      Tree.root :: tree.scopePath id = (tree.ancestors id).reverse
  nested : ∀ parent child, tree.parent? child = some parent → parent ≠ Tree.root →
    tree.scopePath child = tree.scopePath parent ++ [parent]
  leaves : ∀ id leaf, leaf ∈ tree.leavesUnder id ↔
    tree.isLeaf leaf = true ∧ (leaf = id ∨ id ∈ tree.ancestors leaf)
  ordered : ∀ id, (tree.leavesUnder id).Nodup ∧ (tree.leavesUnder id).Pairwise tree.Precedes
  outside : ∀ id, tree.size ≤ id →
    tree.parent? id = none ∧ tree.children id = [] ∧ tree.ancestors id = [] ∧
      tree.scopePath id = [] ∧ tree.leavesUnder id = []

theorem walked (tree : Tree) : tree.Walked where
  root := ⟨ancestors_of_orphan (parent?_root tree), scopePath_of_orphan (parent?_root tree)⟩
  bounded := length_ancestors_le tree
  upwards := isChain_ancestors tree
  paths id member inner := by
    have whole := root_cons_scopePath member inner
    refine ⟨?_, by simp [scopePath], whole⟩
    rw [← List.head?_reverse, ← whole, List.head?_cons]
  nested parent child link inner := by rw [scopePath_of_parent link, if_neg inner]
  leaves _ _ := mem_leavesUnder_iff
  ordered id := ⟨nodup_leavesUnder id, pairwise_leavesUnder tree id⟩
  outside _ := outside_nothing

theorem additions_keep_tree (kind : Kind) (calls : List (NodeId × Kind)) :
    InsertsAll (single kind) calls ((single kind).addAll calls).2 ((single kind).addAll calls).1 ∧
      ((single kind).addAll calls).1.Linked ∧ ((single kind).addAll calls).1.Walked :=
  ⟨insertsAll_addAll _ calls, linked _, walked _⟩

end RunStream.Tree
