import RunStream.Text.Blank

set_option autoImplicit false

namespace RunStream.Text

def hexCode (c : Char) : String :=
  String.ofList (Nat.toDigits 16 c.toNat)

def charLiteral (c : Char) : String :=
  let body :=
    if c = '\t' then "\\t"
    else if c = '\n' then "\\n"
    else if c = '\r' then "\\r"
    else if c = '\'' then "\\'"
    else if isBlank c && c != ' ' then "\\u\x7b" ++ hexCode c ++ "\x7d"
    else c.toString
  "'" ++ body ++ "'"

end RunStream.Text
