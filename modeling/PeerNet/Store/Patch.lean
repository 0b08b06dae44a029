import PeerNet.Store.Rejection
import PeerNet.Config.Settings

/-!
# Patches

A patch is a list of fields with new values, all as text. Every entry is
checked against the editable fields and the configured options before any is
applied, so that one bad entry refuses the whole patch.
-/

set_option autoImplicit false

namespace PeerNet

inductive Field where
  | label
  | version
  | latency
  | ram
  | cpu
  | overrides
  deriving DecidableEq, Repr

namespace Field

def key : Field → String
  | .label => "label"
  | .version => "version"
  | .latency => "latencyProfile"
  | .ram => "resourceProfile.ram"
  | .cpu => "resourceProfile.cpu"
  | .overrides => "bitcoinConfOverrides"

def all : List Field := [label, version, latency, ram, cpu, overrides]

def ofKey? (key : String) : Option Field :=
  all.find? (·.key = key)

end Field

inductive FieldEdit where
  | label (text : String)
  | version (text : String)
  | latency (text : String)
  | ram (size : UInt32)
  | cpu (count : UInt32)
  | overrides (settings : Overrides)
  deriving DecidableEq

namespace FieldEdit

def ofValue? (options : NodeOptions) (field : Field) (value : String) : Option FieldEdit :=
  match field with
  | .label => some (.label value)
  | .version => if value ∈ options.versions then some (.version value) else none
  | .latency => if value ∈ options.latencies then some (.latency value) else none
  | .ram =>
    ((Decimal.readWord32? (Text.trimmed value)).filter (· ∈ options.ram)).map .ram
  | .cpu =>
    ((Decimal.readWord32? (Text.trimmed value)).filter (· ∈ options.cpu)).map .cpu
  | .overrides => some (.overrides (.unflatten value))

def ofEntry (options : NodeOptions) (key value : String) : Except Rejection FieldEdit :=
  match Field.ofKey? key with
  | none => .error (.unknownField key)
  | some field =>
    match ofValue? options field value with
    | none => .error (.invalidValue key value)
    | some edit => .ok edit

variable {R : Type}

def least (words : List UInt32) : UInt32 :=
  words.min?.getD 1

def resourcesOf (options : NodeOptions) (node : Node R) : Resources :=
  node.resources.getD ⟨least options.ram, least options.cpu⟩

def apply (options : NodeOptions) (node : Node R) : FieldEdit → Node R
  | .label text => { node with label := text }
  | .version text => { node with version := some text }
  | .latency text => { node with latency := some text }
  | .ram size => { node with resources := some { resourcesOf options node with ram := size } }
  | .cpu count => { node with resources := some { resourcesOf options node with cpu := count } }
  | .overrides settings => { node with overrides := settings }

end FieldEdit

/-- Fields and new values, in the order in which they were given. -/
structure Patch where
  entries : List (String × String)
  deriving DecidableEq, Repr

namespace Patch

/-- The edits of a list of entries, or the rejection of the first bad one. -/
def resolveEntries (options : NodeOptions) :
    List (String × String) → Except Rejection (List FieldEdit)
  | [] => .ok []
  | (key, value) :: rest =>
    match FieldEdit.ofEntry options key value with
    | .error rejection => .error rejection
    | .ok edit =>
      match resolveEntries options rest with
      | .error rejection => .error rejection
      | .ok edits => .ok (edit :: edits)

/-- Checks every entry; the first bad one refuses the patch. -/
def resolve (patch : Patch) (options : NodeOptions) : Except Rejection (List FieldEdit) :=
  resolveEntries options patch.entries

end Patch

end PeerNet
