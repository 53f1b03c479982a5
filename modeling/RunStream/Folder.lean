import RunStream.Text.Bytes

set_option autoImplicit false

namespace RunStream

open Text

inductive ReadError where
  | missing
  | directory
  | notDirectory
  | nameTooLong
  | badPath
  | notText
  | other (reason : String)
deriving DecidableEq, Repr

def ReadError.message : ReadError → String
  | .missing => "No such file or directory (os error 2)"
  | .directory => "Is a directory (os error 21)"
  | .notDirectory => "Not a directory (os error 20)"
  | .nameTooLong => "File name too long (os error 36)"
  | .badPath => "file name contained an unexpected NUL byte"
  | .notText => "stream did not contain valid UTF-8"
  | .other reason => reason

structure Folder where
  files : List (List String × List UInt8) := []

namespace Folder

inductive Place where
  | outside
  | inside (names : List String)
  | file (content : List UInt8)
deriving DecidableEq, Repr

def nameLimit : Nat := 255

def pathLimit : Nat := 4095

def lookup (folder : Folder) (path : List String) : Except ReadError Place :=
  match folder.files.lookup path with
  | some content => .ok (.file content)
  | none =>
      if folder.files.any fun file => path.isPrefixOf file.1 then .ok (.inside path)
      else .error .missing

def step (folder : Folder) (place : Place) (name : String) : Except ReadError Place :=
  match place with
  | .file _ => .error .notDirectory
  | .outside =>
      if name = "" ∨ name = "." ∨ name = ".." then .ok .outside
      else if nameLimit < name.utf8ByteSize then .error .nameTooLong
      else .error .missing
  | .inside names =>
      if name = "" ∨ name = "." then .ok (.inside names)
      else if name = ".." then .ok (if names.isEmpty then .outside else .inside names.dropLast)
      else if nameLimit < name.utf8ByteSize then .error .nameTooLong
      else folder.lookup (names ++ [name])

def locate (folder : Folder) (path : String) : Except ReadError Place :=
  if path = "" then .error .missing
  else if pathLimit < path.utf8ByteSize then .error .nameTooLong
  else
    let start : Place := if path.toList.head? = some '/' then .outside else .inside []
    (path.splitOn "/").foldlM folder.step start

def read (folder : Folder) (path : String) : Except ReadError String :=
  if path.toList.contains '\x00' then .error .badPath
  else do
    match ← folder.locate path with
    | .file content =>
        match ofBytes? content with
        | some text => .ok text
        | none => .error .notText
    | _ => .error .directory

end Folder

end RunStream
