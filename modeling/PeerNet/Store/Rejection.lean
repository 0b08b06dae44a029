import PeerNet.Topology.Basic

/-!
# Rejections

Why the store refuses an edit. A refused edit leaves the store as it was.
-/

set_option autoImplicit false

namespace PeerNet

/-- Why an edit was refused. -/
inductive Rejection where
  | unknownNode (id : NodeId)
  | selfLoop (id : NodeId)
  | duplicateEdge (source target : NodeId)
  | missingEdge (source target : NodeId)
  | unknownField (field : String)
  | invalidValue (field value : String)
  deriving DecidableEq, Repr

def Rejection.message : Rejection → String
  | .unknownNode id => "node " ++ id.text ++ " does not exist"
  | .selfLoop id => "self-loop on node " ++ id.text ++ " is not allowed"
  | .duplicateEdge source target =>
    "edge " ++ source.text ++ " -> " ++ target.text ++ " already exists"
  | .missingEdge source target =>
    "edge " ++ source.text ++ " -> " ++ target.text ++ " does not exist"
  | .unknownField field => "unknown field '" ++ field ++ "'"
  | .invalidValue field value => "invalid value '" ++ value ++ "' for field '" ++ field ++ "'"

end PeerNet
