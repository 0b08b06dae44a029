import PeerNet.Overrides.Basic

/-!
# Configuration files

A host's configuration file as overrides. Each line stands for itself: blank
lines and comments say nothing, a header in square brackets opens a section,
and `name = value` sets a value, under the name of the open section and a dot
when there is one. Any other line is passed over.
-/

set_option autoImplicit false

namespace PeerNet.Overrides

inductive ConfLine where
  | nothing
  | header (name : String)
  | setting (name value : String)
  deriving DecidableEq, Repr

namespace ConfLine

def isNameChar (c : Char) : Bool :=
  c.isAlphanum || c == '_' || c == '.' || c == '-'

/-- The name in a header: square brackets around a name that is not empty and
has no closing bracket. -/
def headerName? (trimmed : List Char) : Option (List Char) :=
  match trimmed with
  | '[' :: rest =>
    match rest.reverse with
    | ']' :: reversed =>
      if reversed.isEmpty || reversed.contains ']' then none else some reversed.reverse
    | _ => none
  | _ => none

/-- The name and the value of a setting: the texts on the two sides of the
first equals sign, of which the name holds name characters only. -/
def setting? (trimmed : List Char) : Option (List Char × List Char) :=
  match Text.halves? '=' trimmed with
  | none => none
  | some (before, behind) =>
    let name := Text.trim before
    if name.isEmpty || !name.all isNameChar then none else some (name, Text.trim behind)

def ofText (line : List Char) : ConfLine :=
  let trimmed := Text.trim line
  if trimmed.isEmpty || trimmed.head? == some '#' then .nothing
  else
    match headerName? trimmed with
    | some name => .header (String.ofList (Text.trim name))
    | none =>
      match setting? trimmed with
      | some (name, value) => .setting (String.ofList name) (String.ofList value)
      | none => .nothing

end ConfLine

structure ConfReading where
  opened? : Option String
  overrides : Overrides
  deriving DecidableEq

namespace ConfReading

def qualified (reading : ConfReading) (name : String) : String :=
  match reading.opened? with
  | some opened => opened ++ "." ++ name
  | none => name

def line (reading : ConfReading) : ConfLine → ConfReading
  | .nothing => reading
  | .header name => { reading with opened? := some name }
  | .setting name value =>
    { reading with overrides := reading.overrides.insert (reading.qualified name) value }

end ConfReading

def parseConf (text : String) : Overrides :=
  ((Text.lines text.toList).foldl (fun reading line => reading.line (.ofText line))
    (⟨none, empty⟩ : ConfReading)).overrides

end PeerNet.Overrides
