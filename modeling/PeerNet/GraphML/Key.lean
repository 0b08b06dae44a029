/-!
# Node attributes

The attributes of nodes that documents can carry, the names under which a
document may declare them, and the keys that every written document declares.
-/

set_option autoImplicit false

namespace PeerNet.GraphML

inductive NodeAttribute where
  | label
  | size
  | version
  | latency
  | bitcoinConf
  | x
  | y
  | ram
  | cpu
  | baseFee
  deriving DecidableEq, Repr

/-- The attribute of a declared name. Three attributes have a second spelling,
which older documents use. -/
def NodeAttribute.ofName? (name : String) : Option NodeAttribute :=
  match name with
  | "label" => some .label
  | "size" => some .size
  | "version" => some .version
  | "latency" => some .latency
  | "latencyProfile" => some .latency
  | "bitcoin_conf" => some .bitcoinConf
  | "bitcoinConf" => some .bitcoinConf
  | "x" => some .x
  | "y" => some .y
  | "ram" => some .ram
  | "cpu" => some .cpu
  | "base_fee" => some .baseFee
  | "baseFee" => some .baseFee
  | _ => none

structure Key where
  id : String
  name : String
  type : String
  deriving DecidableEq, Repr

def exportedKeys : List Key :=
  [⟨"label", "label", "string"⟩, ⟨"size", "size", "double"⟩, ⟨"version", "version", "string"⟩,
    ⟨"latency", "latency", "string"⟩, ⟨"bitcoin_conf", "bitcoin_conf", "string"⟩,
    ⟨"x", "x", "float"⟩, ⟨"y", "y", "float"⟩]

end PeerNet.GraphML
