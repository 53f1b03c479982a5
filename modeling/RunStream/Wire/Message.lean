import RunStream.Wire.Escape

set_option autoImplicit false

namespace RunStream.Wire

structure Message where
  name : String
  /-- Keys and values, as they are before escaping. -/
  attributes : List (String × String) := []
deriving DecidableEq, Repr

namespace Message

def get? (message : Message) (key : String) : Option String :=
  message.attributes.lookup key

def nameAttribute? (message : Message) : Option String :=
  message.get? "name"

def opening (protocol : String) : String :=
  "##" ++ protocol ++ "["

def renderAttribute (entry : String × String) : String :=
  " " ++ entry.1 ++ "='" ++ writeEscaped entry.2 ++ "'"

def render (protocol : String) (message : Message) : String :=
  opening protocol ++ message.name ++ String.join (message.attributes.map renderAttribute) ++ "]"

def renderLine (protocol : String) (message : Message) : String :=
  message.render protocol ++ "\n"

end Message

end RunStream.Wire
