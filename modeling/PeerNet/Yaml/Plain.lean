import PeerNet.Yaml.Scalar

/-!
# Plain scalars

Scalars without quotes end at a colon before a blank, at a comment, at a line
that is indented too little or looks like a document marker, and between
brackets also at brackets and commas.
-/

set_option autoImplicit false

namespace PeerNet.Yaml

def isFlowIndicator (c : Char) : Bool :=
  c == ',' || c == '[' || c == ']' || c == '\x7b' || c == '\x7d'

def isIndicator (c : Char) : Bool :=
  isFlowIndicator c || c ∈ "-?:#&*!|>'\"%@\x60".toList

def startsPlain (inFlow : Bool) (source : Source) : Bool :=
  match source with
  | [] => false
  | placed :: rest =>
    let c := placed.char
    if isSpaceOrTab c || isBreak c then false
    else if !isIndicator c then true
    else if c == '-' then !Source.startsWith isSpaceOrTab rest
    else (c == '?' || c == ':') && !inFlow && !Source.atBlank rest

def endsPlain (inFlow : Bool) (source : Source) : Bool :=
  match source with
  | [] => true
  | placed :: rest =>
    (placed.char == ':' && Source.atBlank rest) || (inFlow && isFlowIndicator placed.char)

def misplacedColon (inFlow : Bool) (source : Source) : Bool :=
  match source with
  | [] => false
  | placed :: rest =>
    inFlow && placed.char == ':' &&
      Source.startsWith (fun c => isFlowIndicator c || c == '?') rest

/-- The rest of a plain scalar that has to be indented to a column, what
follows it, and whether a line break stands between. -/
def plainRest (inFlow : Bool) (indent : Nat) (folding : Folding) :
    Source → Option (String × Source × Bool)
  | [] => some (folding.text, [], folding.gap.hasBreak)
  | placed :: rest =>
    let c := placed.char
    let ended := some (folding.text, placed :: rest, folding.gap.hasBreak)
    if isSpaceOrTab c || isBreak c then
      if folding.gap.hasBreak && placed.column < indent && c == '\t' then none
      else plainRest inFlow indent (folding.space c) rest
    else if !folding.gap.isEmpty &&
        ((!inFlow && placed.column < indent) || c == '#' ||
          Source.atDocumentMarker (placed :: rest)) then ended
    else if misplacedColon inFlow (placed :: rest) then none
    else if endsPlain inFlow (placed :: rest) then ended
    else plainRest inFlow indent (folding.push c) rest

end PeerNet.Yaml
