/-! Paths of files: names between slashes, read from the root or from the working
folder. -/

namespace AlertSilences.Disk

inductive Fault
  | missing
  | taken
  | busy
  | notFolder
  | isFolder
  | nameTooLong
  | nulInName
  | other (text : String)
deriving DecidableEq

def Fault.message : Fault → String
  | .missing => "No such file or directory (os error 2)"
  | .busy => "Device or resource busy (os error 16)"
  | .taken => "File exists (os error 17)"
  | .notFolder => "Not a directory (os error 20)"
  | .isFolder => "Is a directory (os error 21)"
  | .nameTooLong => "File name too long (os error 36)"
  | .nulInName => "file name contained an unexpected NUL byte"
  | .other text => text

def maxNameBytes : Nat := 255

def maxPathBytes : Nat := 4095

def pieces : List Char → List (List Char)
  | [] => [[]]
  | c :: rest =>
    if c = '/' then [] :: pieces rest
    else
      match pieces rest with
      | [] => [[c]]
      | piece :: more => (c :: piece) :: more

/-- A path's names, whether they start at the root, and whether a slash follows the last. -/
structure Path where
  rooted : Bool
  names : List String
  slash : Bool
deriving DecidableEq

namespace Path

def ofText (text : String) : Path :=
  let parts := pieces text.toList
  ⟨text.toList.head? == some '/', (parts.filter (!·.isEmpty)).map String.ofList,
    parts.getLast? == some []⟩

/-- The path of a text that the system takes. -/
def ofText? (text : String) : Except Fault Path :=
  if text.toList.contains '\x00' then .error .nulInName
  else if text.isEmpty then .error .missing
  else if text.utf8ByteSize > maxPathBytes then .error .nameTooLong
  else .ok (ofText text)

/-- The texts that end with a name each, read backwards, longest first: those found so far and
those that `before`, read backwards, grows to. A dot is no name unless the text begins with it. -/
def stages (found : List (List Char)) (before : List Char) : List Char → List (List Char)
  | [] => found
  | c :: rest =>
    let ends := c ≠ '/' && rest.head?.all (· = '/') && !(c = '.' && before.head? = some '/')
    stages (if ends then (c :: before) :: found else found) (c :: before) rest

/-- The texts that lead to the folders on the way and to the path itself, innermost first, each as
far as its last name. -/
def ancestors (text : String) : List String :=
  (stages [] [] text.toList).map fun stage => String.ofList stage.reverse

/-- The text that leads to the folder of the last name. -/
def outer? (text : String) : Option String :=
  match stages [] [] text.toList with
  | [] => none
  | [_] => some (if text.toList.head? = some '/' then "/" else "")
  | _ :: outer :: _ => some (String.ofList outer.reverse)

end Path

end AlertSilences.Disk
