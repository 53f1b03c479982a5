import RunStream.Text.Decimal

set_option autoImplicit false

namespace RunStream.Json

inductive Value where
  | null
  | boolean (value : Bool)
  -- A number as it is read, which need not be exactly what is written.
  | number (negative : Bool) (size : Text.Decimal)
  | string (text : String)
  | array (items : List Value)
  -- Entries in the order they are written. A key may be repeated.
  | object (entries : List (String × Value))
deriving Repr

end RunStream.Json
