import RunStream.Toml.Value

set_option autoImplicit false

namespace RunStream.Toml

def integerFits (value : Int) : Bool :=
  decide (-Int.ofNat (Nat.pow 2 127) ≤ value ∧ value < Int.ofNat (Nat.pow 2 128))

def Real.fits : Real → Bool
  | .decimal _ size => !size.overflows
  | _ => true

mutual

def Value.fits : Value → Bool
  | .integer value => integerFits value
  | .real value => value.fits
  | .array items => itemsFit items
  | .table entries => entriesFit entries
  | .unreadable _ => false
  | .string _ | .boolean _ | .moment _ => true

def itemsFit : List Value → Bool
  | [] => true
  | item :: rest => item.fits && itemsFit rest

def entriesFit : Table → Bool
  | [] => true
  | (_, value) :: rest => value.fits && entriesFit rest

end

end RunStream.Toml
