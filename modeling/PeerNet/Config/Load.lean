import PeerNet.Config.Document
import PeerNet.Config.Validity
import PeerNet.Files.Tree
import PeerNet.Yaml.Node

/-!
# Settings files

Settings are kept in a YAML file. Those of a file are checked before they are
used, and without a file the standard settings are used as they are.
-/

set_option autoImplicit false

namespace PeerNet

/-- A node with the anchored nodes of its document, in which numbers are read as
`R`. -/
structure Yaml.Value (R : Type) where
  anchored : List (Nat × Yaml.Node)
  node : Yaml.Node

namespace Yaml.Value

variable {R : Type}

def target (value : Value R) : Node :=
  match value.node with
  | .reference number => (value.anchored.lookup number).getD value.node
  | node => node

def other (value : Value R) (node : Node) : Value R :=
  { value with node }

def text? (value : Value R) : Option String :=
  match value.target with
  | .scalar text .. => some text
  | _ => none

/-- The text of a scalar that may count as a number: one without quotes, or a
literal one with the tag of such numbers. -/
def numeral? (tag : String) (value : Value R) : Option String :=
  match value.target with
  | .scalar text .plain _ => some text
  | .scalar text .literal (some written) =>
    if written = Octets.ofText tag then some text else none
  | _ => none

/-- The one value of a key, and nothing where the key is missing; fails where
the key is repeated. -/
def once? (entries : List (String × Value R)) (name : String) : Option (Option (Value R)) :=
  match entries.filter (·.1 = name) with
  | [] => some none
  | [(_, value)] => some (some value)
  | _ => none

def entry? (value : Value R) (entry : Node × Node) : Option (String × Value R) :=
  (value.other entry.1).text?.map (·, value.other entry.2)

def fields? (names : List String) (value : Value R) : Option (List (Option (Value R))) :=
  match value.target with
  | .mapping entries => do names.mapM (once? (← entries.mapM value.entry?))
  | .scalar "" .plain _ => some (names.map fun _ => none)
  | _ => none

def items? (value : Value R) : Option (List (Value R)) :=
  match value.target with
  | .sequence items => some (items.map value.other)
  | .scalar "" .plain _ => some []
  | _ => none

end Yaml.Value

instance {R : Type} [Yaml.ScalarNumber R] : DocumentValue (Yaml.Value R) R where
  fields? := Yaml.Value.fields?
  items? := Yaml.Value.items?
  text? := Yaml.Value.text?
  number? value := (value.numeral? "tag:yaml.org,2002:float").bind Yaml.numberOf?
  natural? bound value := (value.numeral? "tag:yaml.org,2002:int").bind (Yaml.naturalOf? bound)

inductive LoadFault (R : Type) where
  | unreadable
  | unparsable
  | invalid (fault : SettingsFault R)
  deriving DecidableEq

namespace Settings

variable {R : Type} [Scalar R] [Yaml.ScalarNumber R]

/-- The settings of a text, which are not checked. -/
def ofYaml? (text : String) : Option (Settings R) := do
  let document ← Yaml.Document.ofText? text
  Settings.ofDocument? (⟨document.anchored, document.root⟩ : Yaml.Value R)

def ofText (text : String) : Except (LoadFault R) (Settings R) :=
  match ofYaml? text with
  | none => .error .unparsable
  | some settings =>
    match settings.validate with
    | .error fault => .error (.invalid fault)
    | .ok () => .ok settings

def load (files : FileTree) : Option FilePath → Except (LoadFault R) (Settings R)
  | none => .ok .standard
  | some path =>
    match files.read? path with
    | none => .error .unreadable
    | some text => ofText text

end Settings

end PeerNet
