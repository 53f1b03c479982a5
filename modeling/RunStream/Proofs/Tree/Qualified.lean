import RunStream.Proofs.Cut
import RunStream.Proofs.Tree.Paths

set_option autoImplicit false

namespace RunStream

namespace Name

variable {name package rest : String}

theorem isParameter_iff : isParameter name = true ↔ ∃ inner, name = "[" ++ inner ++ "]" := by
  constructor
  · intro bracketed
    simp only [isParameter, isParameterChars, Bool.and_eq_true, beq_iff_eq] at bracketed
    obtain ⟨opened, closed⟩ := bracketed
    obtain ⟨tail, chars⟩ := List.head?_eq_some_iff.mp opened
    rw [chars] at closed
    cases tail with
    -- The opening bracket is not the closing one.
    | nil => simp at closed
    | cons c tail =>
        rw [List.getLast?_cons_cons] at closed
        obtain ⟨inner, tail⟩ := List.getLast?_eq_some_iff.mp closed
        refine ⟨String.ofList inner, String.toList_inj.mp ?_⟩
        simp [chars, tail]
  · rintro ⟨inner, rfl⟩
    simp [isParameter, isParameterChars, List.getLast?_cons]

def Dotted (name : String) : Prop :=
  ∃ before after : String, name = before ++ "." ++ after ∧ '[' ∉ before.toList

structure Divides (name package rest : String) : Prop where
  joined : name = package ++ "." ++ rest
  unbracketed : '[' ∉ package.toList
  last : ¬ Dotted rest

theorem takeWhile_dotted {before : List Char} (unbracketed : '[' ∉ before) (after : List Char) :
    (before ++ '.' :: after).takeWhile (· != '[') = before ++ '.' :: after.takeWhile (· != '[') ∧
      (before ++ '.' :: after).dropWhile (· != '[') = after.dropWhile (· != '[') := by
  simpa using cut_append unbracketed ('.' :: after)

theorem splitQualifier_eq_some {name before after : List Char} :
    splitQualifier name = some (before, after) ↔
      name = before ++ '.' :: after ∧ '[' ∉ before ∧ '.' ∉ after.takeWhile (· != '[') := by
  constructor
  · intro found
    obtain ⟨⟨front, back⟩, inner, parts⟩ := Option.map_eq_some_iff.mp found
    cases parts
    obtain ⟨head, dotless⟩ := splitLastDot_eq_some.mp inner
    have unbracketed : '[' ∉ before := by
      have whole := not_mem_takeWhile '[' name
      rw [head] at whole
      exact fun member => whole (List.mem_append_left _ member)
    have joined : name = before ++ '.' :: (back ++ name.dropWhile (· != '[')) := by
      rw [← List.cons_append, ← List.append_assoc, ← head, List.takeWhile_append_dropWhile]
    refine ⟨joined, unbracketed, ?_⟩
    -- What follows the dot within the head is what the rest has before its own first bracket.
    have taken := (takeWhile_dotted unbracketed (back ++ name.dropWhile (· != '['))).1
    rw [← joined, head, List.append_cancel_left_eq, List.cons.injEq] at taken
    exact taken.2 ▸ dotless
  · rintro ⟨rfl, unbracketed, dotless⟩
    obtain ⟨taken, dropped⟩ := takeWhile_dotted unbracketed after
    rw [splitQualifier, taken, dropped, splitLastDot_eq_some.mpr ⟨rfl, dotless⟩]
    simp

theorem splitQualifier_eq_none {name : List Char} :
    splitQualifier name = none ↔ '.' ∉ name.takeWhile (· != '[') := by
  rw [splitQualifier, Option.map_eq_none_iff, splitLastDot_eq_none]

theorem dotted_iff : Dotted name ↔ '.' ∈ name.toList.takeWhile (· != '[') := by
  constructor
  · rintro ⟨before, after, rfl, unbracketed⟩
    have taken := (takeWhile_dotted unbracketed after.toList).1
    simp [taken]
  · intro member
    cases found : splitQualifier name.toList with
    | none => exact absurd member (splitQualifier_eq_none.mp found)
    | some parts =>
        obtain ⟨joined, unbracketed, -⟩ := splitQualifier_eq_some.mp found
        refine ⟨String.ofList parts.1, String.ofList parts.2, String.toList_inj.mp ?_, ?_⟩
        · simp [joined]
        · rwa [String.toList_ofList]

theorem not_dotted_iff : ¬ Dotted name ↔ splitQualifier name.toList = none := by
  rw [dotted_iff, splitQualifier_eq_none]

theorem divides_iff :
    Divides name package rest ↔
      splitQualifier name.toList = some (package.toList, rest.toList) := by
  have joins : name = package ++ "." ++ rest ↔
      name.toList = package.toList ++ '.' :: rest.toList := by
    rw [← String.toList_inj]
    simp
  rw [splitQualifier_eq_some, ← joins, ← dotted_iff]
  exact ⟨fun divides => ⟨divides.joined, divides.unbracketed, divides.last⟩,
    fun ⟨joined, unbracketed, last⟩ => ⟨joined, unbracketed, last⟩⟩

theorem Divides.unique {package' rest' : String} (divides : Divides name package rest)
    (other : Divides name package' rest') : package' = package ∧ rest' = rest := by
  have same := (divides_iff.mp other).symm.trans (divides_iff.mp divides)
  simpa [String.toList_inj] using same

theorem exists_divides (dotted : Dotted name) : ∃ package rest, Divides name package rest := by
  cases found : splitQualifier name.toList with
  | none => exact absurd dotted (not_dotted_iff.mpr found)
  | some parts =>
      refine ⟨String.ofList parts.1, String.ofList parts.2, divides_iff.mpr ?_⟩
      rw [found, String.toList_ofList, String.toList_ofList]

theorem parts_of_parameter (parameter : isParameter name = true) :
    short name = name ∧ package? name = none := by
  have whole : split? name.toList = none := if_pos parameter
  simp [short, package?, whole]

theorem parts_of_not_dotted (plain : ¬ Dotted name) :
    short name = name ∧ package? name = none := by
  have whole : split? name.toList = none := by
    rw [split?, not_dotted_iff.mp plain, ite_self]
  simp [short, package?, whole]

theorem parts_of_divides (other : isParameter name = false) (divides : Divides name package rest) :
    short name = rest ∧
      package? name = if package = "" ∨ rest = "" then none else some package := by
  have parted : split? name.toList = some (package.toList, rest.toList) := by
    rw [split?, if_neg (by simpa [isParameter] using other)]
    exact divides_iff.mp divides
  simp [short, package?, parted]

theorem short_short (name : String) : short (short name) = short name := by
  cases parameter : isParameter name with
  | true =>
      have whole := (parts_of_parameter parameter).1
      rw [whole, whole]
  | false =>
      by_cases dotted : Dotted name
      · obtain ⟨package, rest, divides⟩ := exists_divides dotted
        rw [(parts_of_divides parameter divides).1]
        exact (parts_of_not_dotted divides.last).1
      · have whole := (parts_of_not_dotted dotted).1
        rw [whole, whole]

example : short "a.b.[0.5]" = "[0.5]" ∧ package? "a.b.[0.5]" = some "a.b" := by decide

theorem joined_of_package? (found : package? name = some package) :
    name = package ++ "." ++ short name := by
  cases parameter : isParameter name with
  | true =>
      rw [(parts_of_parameter parameter).2] at found
      cases found
  | false =>
      by_cases dotted : Dotted name
      · obtain ⟨before, rest, divides⟩ := exists_divides dotted
        obtain ⟨shortened, packaged⟩ := parts_of_divides parameter divides
        rw [packaged] at found
        split at found
        · cases found
        · cases found
          rw [shortened]
          exact divides.joined
      · rw [(parts_of_not_dotted dotted).2] at found
        cases found

end Name

namespace Tree

variable {naming : Naming} {tree : Tree} {announced : RootName}

theorem announce_eq_some {name : String}
    (found : rootName?.announce naming name = some announced) :
    announced = {
      name := Name.short name
      comment := Name.package? name
      location := naming.suiteLocation name } := by
  unfold rootName?.announce at found
  split at found
  · cases found
  · exact (Option.some.inj found).symm

theorem rootName?_eq_some (found : tree.rootName? naming = some announced) :
    ∃ name, (∀ other, tree.kind? root = some (.container other) → other = name) ∧
      announced = {
        name := Name.short name
        comment := Name.package? name
        location := naming.suiteLocation name } := by
  unfold rootName? at found
  split at found
  · cases found
  · next name kind =>
      refine ⟨name, fun other same => ?_, announce_eq_some found⟩
      rw [kind] at same
      cases same
      rfl
  · next name methodName kind =>
      refine ⟨name, fun other same => ?_, announce_eq_some found⟩
      rw [kind] at same
      cases same

-- Nothing is above the root, so even a parameter group goes by its own name there.
theorem locationHint?_root {name : String} (kind : tree.kind? root = some (.container name)) :
    tree.locationHint? naming root = some (naming.suiteLocation name) := by
  simp [locationHint?, kind, longName?_of_orphan kind (parent?_root tree)]

end Tree

namespace Name

theorem parts_exact (naming : Naming) (tree : Tree) (name : String) :
    (isParameter name = true ↔ ∃ inner, name = "[" ++ inner ++ "]") ∧
      (isParameter name = true → short name = name ∧ package? name = none) ∧
      (isParameter name = false → Dotted name →
        ∃ package rest, Divides name package rest ∧
          (∀ package' rest', Divides name package' rest' → package' = package ∧ rest' = rest) ∧
          short name = rest ∧
          package? name = if package = "" ∨ rest = "" then none else some package) ∧
      (isParameter name = false → ¬ Dotted name → short name = name ∧ package? name = none) ∧
      short (short name) = short name ∧
      ∀ announced, tree.rootName? naming = some announced →
        (∀ comment, announced.comment = some comment →
          announced.location = naming.suiteLocation (comment ++ "." ++ announced.name)) ∧
        (tree.isContainer Tree.root = true →
          tree.locationHint? naming Tree.root = some announced.location) := by
  refine ⟨isParameter_iff, parts_of_parameter, fun other dotted => ?_,
    fun _ plain => parts_of_not_dotted plain, short_short name, fun announced found => ?_⟩
  · obtain ⟨package, rest, divides⟩ := exists_divides dotted
    exact ⟨package, rest, divides, fun _ _ => divides.unique, parts_of_divides other divides⟩
  · obtain ⟨title, same, rfl⟩ := Tree.rootName?_eq_some found
    refine ⟨fun comment packaged => ?_, fun container => ?_⟩
    · rw [← joined_of_package? packaged]
    · obtain ⟨other, kind⟩ := Tree.isContainer_iff.mp container
      rw [Tree.locationHint?_root kind, same other kind]

def bracketedSuite : String := "a.b.Suite[0.5]"

theorem bracketedSuite_parts :
    isParameter bracketedSuite = false ∧ Dotted bracketedSuite ∧
      short bracketedSuite = "Suite[0.5]" ∧ package? bracketedSuite = some "a.b" ∧
      ∃ announced, (Tree.single (.container bracketedSuite)).rootName? {} = some announced ∧
        announced.comment = some "a.b" ∧
        announced.location = Naming.suiteLocation {} ("a.b" ++ "." ++ announced.name) ∧
        (Tree.single (.container bracketedSuite)).locationHint? {} Tree.root =
          some announced.location := by
  have other : isParameter bracketedSuite = false := by decide
  have dotted : Dotted bracketedSuite := ⟨"a.b", "Suite[0.5]", rfl, by decide⟩
  have divides : Divides bracketedSuite "a.b" "Suite[0.5]" :=
    ⟨rfl, by decide, fun again => absurd (dotted_iff.mp again) (by decide)⟩
  obtain ⟨-, -, divided, -, -, rooted⟩ :=
    parts_exact {} (Tree.single (.container bracketedSuite)) bracketedSuite
  obtain ⟨package, rest, -, unique, shortened, packaged⟩ := divided other dotted
  obtain ⟨rfl, rfl⟩ := unique _ _ divides
  obtain ⟨located, hinted⟩ := rooted _ rfl
  exact ⟨other, dotted, shortened, packaged, _, rfl, packaged, located _ packaged, hinted rfl⟩

end Name

end RunStream
