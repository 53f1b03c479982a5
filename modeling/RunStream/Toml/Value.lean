import RunStream.Text.Decimal

set_option autoImplicit false

namespace RunStream.Toml

inductive Real where
  | decimal (negative : Bool) (size : Text.Decimal)
  | infinity (negative : Bool)
  | notANumber
deriving DecidableEq, Repr

inductive Value where
  | string (text : String)
  | integer (value : Int)
  | real (value : Real)
  | boolean (value : Bool)
  /-- A run of characters with the outline of an integer that spells none. -/
  | unreadable (text : String)
  | moment (text : String)
  | array (items : List Value)
  -- Keys are distinct.
  | table (entries : List (String × Value))
deriving Repr

abbrev Table := List (String × Value)

end RunStream.Toml
