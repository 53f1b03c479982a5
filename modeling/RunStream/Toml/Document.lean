import RunStream.Toml.Statement

set_option autoImplicit false

namespace RunStream.Toml

def assemble (draft : Draft) (header : List String) : List Statement → Option Draft
  | [] => some draft
  | .header path :: rest => do assemble (← draft.enterTable path) path rest
  | .itemHeader path :: rest => do assemble (← draft.enterItem path) path rest
  | .assign path value :: rest => do assemble (← draft.assignUnder header path value) header rest

def byteOrderMark : Char := '\uFEFF'

def skipMark : List Char → List Char
  | c :: rest => if c = byteOrderMark then rest else c :: rest
  | [] => []

def parse? (text : String) : Option Table := do
  let start ← skipLayout false (skipMark text.toList)
  let statements ← readStatements (start.length + 1) start
  let draft ← assemble [] [] statements
  return draft.toTable

end RunStream.Toml
