import RunStream.Tree.Walk
import RunStream.Tree.Name
import RunStream.Wire.Message

set_option autoImplicit false

namespace RunStream

def configurationName : String := "Class Configuration"

structure Naming where
  scheme : Option String := none
deriving DecidableEq, Repr

namespace Naming

def locate (naming : Naming) (location : String) : String :=
  match naming.scheme with
  | some scheme => scheme ++ ":" ++ location
  | none => location

def suiteLocation (naming : Naming) (longName : String) : String :=
  naming.locate ("suite://" ++ longName)

def testLocation (naming : Naming) (className methodName : String) : String :=
  naming.locate ("test://" ++ className ++ "/" ++ methodName)

end Naming

namespace Tree

def isParameterGroup (tree : Tree) (id : NodeId) : Bool :=
  match tree.kind? id with
  | some (.container name) => Name.isParameter name
  | _ => false

-- Below a parameter group a test goes by its method alone.
def displayName? (tree : Tree) (id : NodeId) : Option String :=
  match tree.kind? id with
  | none => none
  | some (.container name) => some (Name.short name)
  | some (.leaf className methodName) =>
      if (tree.parent? id).any tree.isParameterGroup then some methodName
      else some (Name.short className ++ "." ++ methodName)

-- A parameter group says nothing about where it lives, so its parent's long name qualifies it.
def longName? (tree : Tree) (id : Nat) : Option String :=
  match tree.kind? id with
  | none => none
  | some (.leaf className methodName) => some (className ++ "." ++ methodName)
  | some (.container name) =>
      if Name.isParameter name then
        match _found : tree.parent? id with
        | none => some name
        | some parent =>
            match tree.longName? parent with
            | some above => some (above ++ "." ++ name)
            | none => some name
      else some name
termination_by id
decreasing_by exact parent?_lt ‹_›

section

variable {tree : Tree} {id : Nat} {name : String}

theorem longName?_of_other (kind : tree.kind? id = some (.container name))
    (other : Name.isParameter name = false) : tree.longName? id = some name := by
  rw [longName?]
  simp [kind, other]

theorem longName?_of_orphan (kind : tree.kind? id = some (.container name))
    (orphan : tree.parent? id = none) : tree.longName? id = some name := by
  rw [longName?]
  simp only [kind]
  split
  · split
    · rfl
    · next found => simp [orphan] at found
  · rfl

theorem longName?_of_parent {parent : Nat} {above : String}
    (kind : tree.kind? id = some (.container name)) (parameter : Name.isParameter name = true)
    (link : tree.parent? id = some parent) (known : tree.longName? parent = some above) :
    tree.longName? id = some (above ++ "." ++ name) := by
  rw [longName?]
  simp only [kind, parameter, if_true]
  split
  · next found => simp [link] at found
  · next found =>
      rw [link, Option.some.injEq] at found
      subst found
      rw [known]

end

def locationHint? (naming : Naming) (tree : Tree) (id : NodeId) : Option String :=
  match tree.kind? id with
  | none => none
  | some (.container _) => (tree.longName? id).map naming.suiteLocation
  | some (.leaf className methodName) => some (naming.testLocation className methodName)

end Tree

structure RootName where
  name : String
  comment : Option String
  location : String
deriving DecidableEq, Repr

/-- An anonymous root, whose name is empty or `null`, is not announced. -/
def Tree.rootName? (naming : Naming) (tree : Tree) : Option RootName :=
  match tree.kind? Tree.root with
  | none => none
  | some (.container name) => announce name
  | some (.leaf className _) => announce className
where
  announce (qualified : String) : Option RootName :=
    if qualified = "" ∨ qualified = "null" then none
    else
      some {
        name := Name.short qualified
        comment := Name.package? qualified
        location := naming.suiteLocation qualified }

def RootName.message (root : RootName) : Wire.Message where
  name := "rootName"
  attributes :=
    [("name", root.name)] ++ (root.comment.map fun comment => ("comment", comment)).toList ++
      [("location", root.location)]

end RunStream
