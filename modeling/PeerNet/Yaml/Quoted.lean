import PeerNet.Yaml.Scalar

/-!
# Quoted scalars

Scalars between single quotes, where a doubled quote stands for one, and
between double quotes, where a backslash starts an escape. Lines are folded,
and no line within the scalar may look like a document marker.
-/

set_option autoImplicit false

namespace PeerNet.Yaml

inductive QuotedState where
  | text
  /-- A single quote that ends the scalar, unless another one follows. -/
  | quote
  | escape
  | code (left value : Nat)
  deriving DecidableEq, Repr

def escaped? (c : Char) : Option Char :=
  match c with
  | '0' => some '\x00'
  | 'a' => some '\x07'
  | 'b' => some '\x08'
  | 't' | '\t' => some '\t'
  | 'n' => some '\n'
  | 'v' => some '\x0b'
  | 'f' => some '\x0c'
  | 'r' => some '\r'
  | 'e' => some '\x1b'
  | ' ' => some ' '
  | '"' => some '"'
  | '/' => some '/'
  | '\\' => some '\\'
  | 'N' => some '\u0085'
  | '_' => some '\u00a0'
  | 'L' => some '\u2028'
  | 'P' => some '\u2029'
  | _ => none

def codeLength? (c : Char) : Option Nat :=
  match c with
  | 'x' => some 2
  | 'u' => some 4
  | 'U' => some 8
  | _ => none

def characterOf? (code : Nat) : Option Char :=
  if code.isValidChar then some (Char.ofNat code) else none

def doubleQuotedRest (state : QuotedState) (folding : Folding) :
    Source → Option (String × Source)
  | [] => none
  | placed :: rest =>
    let c := placed.char
    match state with
    | .code left value =>
      match Decimal.digitValue? 16 c with
      | none => none
      | some digit =>
        let value := value * 16 + digit
        if left ≤ 1 then
          match characterOf? value with
          | none => none
          | some character => doubleQuotedRest .text (folding.push character) rest
        else doubleQuotedRest (.code (left - 1) value) folding rest
    | .escape =>
      if isBreak c then
        doubleQuotedRest .text { folding with gap := .breaks none [] } rest
      else
        match codeLength? c, escaped? c with
        | some length, _ => doubleQuotedRest (.code length 0) folding rest
        | none, some character => doubleQuotedRest .text (folding.push character) rest
        | none, none => none
    | _ =>
      if Source.atDocumentMarker (placed :: rest) then none
      else if isSpaceOrTab c || isBreak c then doubleQuotedRest .text (folding.space c) rest
      else if c = '"' then some (folding.close.text, rest)
      else if c = '\\' then doubleQuotedRest .escape folding.close rest
      else doubleQuotedRest .text (folding.push c) rest

def singleQuotedRest (state : QuotedState) (folding : Folding) :
    Source → Option (String × Source)
  | [] => if state = .quote then some (folding.text, []) else none
  | placed :: rest =>
    let c := placed.char
    if state = .quote then
      if c = '\'' then singleQuotedRest .text (folding.push c) rest
      else some (folding.text, placed :: rest)
    else if Source.atDocumentMarker (placed :: rest) then none
    else if isSpaceOrTab c || isBreak c then singleQuotedRest .text (folding.space c) rest
    else if c = '\'' then singleQuotedRest .quote folding.close rest
    else singleQuotedRest .text (folding.push c) rest

def quotedRest (quote : Char) (source : Source) : Option (String × Source) :=
  if quote = '"' then doubleQuotedRest .text {} source else singleQuotedRest .text {} source

end PeerNet.Yaml
