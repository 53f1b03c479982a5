import RunStream.Json.Value

set_option autoImplicit false

namespace RunStream.Json

def Value.string? : Value → Option String
  | .string text => some text
  | _ => none

def Value.boolean? : Value → Option Bool
  | .boolean value => some value
  | _ => none

def Value.array? : Value → Option (List Value)
  | .array items => some items
  | _ => none

def Value.optionalString? : Value → Option (Option String)
  | .null => some none
  | .string text => some (some text)
  | _ => none

def keyCount (key : String) (entries : List (String × Value)) : Nat :=
  (entries.filter fun entry => entry.1 == key).length

def fieldsByName? (names : List String) (entries : List (String × Value)) :
    Option (List (Option Value)) :=
  if names.all fun name => keyCount name entries ≤ 1 then
    some (names.map fun name => entries.lookup name)
  else none

def fieldsByPosition? (names : List String) (items : List Value) : Option (List (Option Value)) :=
  if items.length ≤ names.length then
    some (items.map some ++ List.replicate (names.length - items.length) none)
  else none

def Value.fields? (names : List String) : Value → Option (List (Option Value))
  | .object entries =>
      if entries.all fun entry => names.contains entry.1 then fieldsByName? names entries else none
  | .array items => fieldsByPosition? names items
  | _ => none

def required? {α : Type} (decode : Value → Option α) (field : Option Value) : Option α :=
  field >>= decode

def optional? {α : Type} (decode : Value → Option α) (absent : α) : Option Value → Option α
  | none => some absent
  | some value => decode value

end RunStream.Json
