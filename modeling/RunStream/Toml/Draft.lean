import RunStream.Toml.Value

set_option autoImplicit false

/-!
# Tables under construction

A table may be spread over a document: `[a.b]` makes room for `a` before `[a]` fills it, and
`b.c = 1` makes a table `b` on the way, or adds to one that only longer headers made.  How a table
came about decides what may still be added to it, so a draft remembers that.
-/

namespace RunStream.Toml

inductive Origin where
  -- A header names it, or it is the document itself.
  | named
  -- A longer header passes through it.
  | implied
  -- A key with dots passes through it.
  | dotted
deriving DecidableEq, Repr

inductive Part where
  | value (value : Value)
  | table (origin : Origin) (entries : List (String × Part))
  | tables (items : List (List (String × Part)))
deriving Repr

abbrev Draft := List (String × Part)

def replacePart (key : String) (part : Part) (draft : Draft) : Draft :=
  draft.map fun entry => if entry.1 = key then (key, part) else entry

/-- What a table that is passed through counts as then.  A key with dots may not pass through a
table that a header names, and makes any other one its own. -/
def passThrough (dots : Bool) (origin : Origin) : Option Origin :=
  if dots then if origin == .named then none else some .dotted else some origin

/-- Missing tables are made on the way.  With `dots`, the path is that of a key. -/
def extend (dots : Bool) (change : Origin → Draft → Option (Origin × Draft)) :
    List String → Origin → Draft → Option (Origin × Draft)
  | [], origin, draft => change origin draft
  | key :: path, origin, draft =>
      match draft.lookup key with
      | none => do
          let (made, entries) ← extend dots change path (if dots then .dotted else .implied) []
          return (origin, draft ++ [(key, .table made entries)])
      | some (.table earlier entries) => do
          let (kept, entries) ← extend dots change path (← passThrough dots earlier) entries
          return (origin, replacePart key (.table kept entries) draft)
      | some (.tables items) =>
          match items.getLast? with
          | none => none
          | some last => do
              let (_, entries) ← extend dots change path .named last
              return (origin, replacePart key (.tables (items.dropLast ++ [entries])) draft)
      | some (.value _) => none

/-- A key with dots adds only to a table that is passed through by dots, and any other key only to
one that is not. -/
def put (key : String) (value : Value) (viaDots : Bool) (origin : Origin) (draft : Draft) :
    Option (Origin × Draft) :=
  if (origin == .dotted) != viaDots then none
  else if (draft.lookup key).isSome then none
  else some (origin, draft ++ [(key, .value value)])

def assignIn (path : List String) (value : Value) (origin : Origin) (draft : Draft) :
    Option (Origin × Draft) :=
  match path.getLast? with
  | none => none
  | some key => extend true (put key value (path.length != 1)) path.dropLast origin draft

-- Makes the table that a header names. A table that longer headers passed through is taken over.
def openTable (key : String) (origin : Origin) (draft : Draft) : Option (Origin × Draft) :=
  match draft.lookup key with
  | none => some (origin, draft ++ [(key, .table .named [])])
  | some (.table .implied entries) => some (origin, replacePart key (.table .named entries) draft)
  | some _ => none

def openItem (key : String) (origin : Origin) (draft : Draft) : Option (Origin × Draft) :=
  match draft.lookup key with
  | none => some (origin, draft ++ [(key, .tables [[]])])
  | some (.tables items) => some (origin, replacePart key (.tables (items ++ [[]])) draft)
  | some _ => none

namespace Draft

def assign (draft : Draft) (path : List String) (value : Value) : Option Draft :=
  (assignIn path value .named draft).map Prod.snd

def assignUnder (draft : Draft) (header path : List String) (value : Value) : Option Draft :=
  (extend false (assignIn path value) header .named draft).map Prod.snd

def enterTable (draft : Draft) (header : List String) : Option Draft :=
  match header.getLast? with
  | none => none
  | some key => (extend false (openTable key) header.dropLast .named draft).map Prod.snd

def enterItem (draft : Draft) (header : List String) : Option Draft :=
  match header.getLast? with
  | none => none
  | some key => (extend false (openItem key) header.dropLast .named draft).map Prod.snd

end Draft

mutual

def Part.toValue : Part → Value
  | .value value => value
  | .table _ entries => .table (entriesToTable entries)
  | .tables items => .array (itemsToValues items)

def entriesToTable : List (String × Part) → Table
  | [] => []
  | (key, part) :: rest => (key, part.toValue) :: entriesToTable rest

def itemsToValues : List (List (String × Part)) → List Value
  | [] => []
  | entries :: rest => .table (entriesToTable entries) :: itemsToValues rest

end

def Draft.toTable (draft : Draft) : Table :=
  entriesToTable draft

end RunStream.Toml
