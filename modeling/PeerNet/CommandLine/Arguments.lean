import PeerNet.Decimal.Number
import PeerNet.Layout.Strategy
import PeerNet.Topology.Generate

/-!
# Command line arguments

What the program can be asked for, and how arguments ask for it. A few options
may stand before or behind the command; all others belong to one command. A
value never starts with a dash unless it is joined to its option.
-/

set_option autoImplicit false

namespace PeerNet.CommandLine

structure Flag where
  name : String
  letter : Option Char := none
  valued : Bool := true
  deriving DecidableEq, Repr

inductive Argument where
  | option (name : String) (value : String)
  | switch (name : String)
  | word (text : String)
  | separator
  deriving DecidableEq, Repr

def detachedValue? : List String → Option (String × List String)
  | [] => none
  | value :: rest =>
    if value.startsWith "-" && value ≠ "-" then none else some (value, rest)

def withValue? (flag : Flag) (joined : Option String) (rest : List String) :
    Option (Argument × List String) :=
  match flag.valued, joined with
  | false, none => some (.switch flag.name, rest)
  | false, some _ => none
  | true, some value => some (.option flag.name value, rest)
  | true, none => (detachedValue? rest).map fun (value, rest) => (.option flag.name value, rest)

def longOption? (flags : List Flag) (text : List Char) (rest : List String) :
    Option (Argument × List String) :=
  let (name, joined) :=
    match Text.halves? '=' text with
    | some (name, value) => (name, some (String.ofList value))
    | none => (text, none)
  match flags.find? (·.name = String.ofList name) with
  | none => none
  | some flag => withValue? flag joined rest

def shortOption? (flags : List Flag) (letter : Char) (text : List Char) (rest : List String) :
    Option (Argument × List String) :=
  match flags.find? (·.letter = some letter) with
  | none => none
  | some flag =>
    match text with
    | [] => withValue? flag none rest
    | '=' :: value => withValue? flag (some (String.ofList value)) rest
    | value => withValue? flag (some (String.ofList value)) rest

def argument? (flags : List Flag) (text : String) (rest : List String) :
    Option (Argument × List String) :=
  match text.toList with
  | ['-', '-'] => some (.separator, rest)
  | '-' :: '-' :: name => longOption? flags name rest
  | '-' :: letter :: joined => shortOption? flags letter joined rest
  | _ => some (.word text, rest)

structure Given where
  options : List (String × String) := []
  switches : List String := []
  words : List String := []
  deriving DecidableEq, Repr

namespace Given

/-- Takes in an argument; an option may be given once. -/
def add? (given : Given) : Argument → Option Given
  | .option name value =>
    if (given.options.lookup name).isSome then none
    else some { given with options := given.options ++ [(name, value)] }
  | .switch name =>
    if name ∈ given.switches then none
    else some { given with switches := given.switches ++ [name] }
  | .word text => some { given with words := given.words ++ [text] }
  | .separator => some given

def value? (given : Given) (name : String) : Option String :=
  given.options.lookup name

/-- The value of an option, read; fails where it cannot be read. -/
def read? {α : Type} (given : Given) (name : String) (read : String → Option α) :
    Option (Option α) :=
  match given.value? name with
  | none => some none
  | some value => (read value).map some

def readOr? {α : Type} (given : Given) (name : String) (standard : α)
    (read : String → Option α) : Option α :=
  (given.read? name read).map (·.getD standard)

end Given

def commandArguments? (flags : List Flag) : Nat → Given → List String → Option Given
  | 0, _, _ => none
  | _ + 1, given, [] => some given
  | limit + 1, given, text :: rest =>
    match argument? flags text rest with
    | none => none
    | some (.separator, rest) => some { given with words := given.words ++ rest }
    | some (argument, rest) =>
      match given.add? argument with
      | none => none
      | some given => commandArguments? flags limit given rest

def leadingArguments? (flags : List Flag) :
    Nat → Given → List String → Option (Given × String × List String)
  | 0, _, _ => none
  | _ + 1, _, [] => none
  | limit + 1, given, text :: rest =>
    match argument? flags text rest with
    | none | some (.separator, _) => none
    | some (.word name, rest) => some (given, name, rest)
    | some (argument, rest) =>
      match given.add? argument with
      | none => none
      | some given => leadingArguments? flags limit given rest

/-- What the program is asked for. Paths are kept as they were written. -/
inductive Command (R : Type) where
  | create (nodes outbounds : Nat) (version : Option String) (conf : Option String)
      (seed : Option UInt64) (outfile : Option String)
  | random (nodes : Nat) (probability : R) (seed : Option UInt64) (outfile : Option String)
  | template (template : Template) (nodes : Nat) (outfile : Option String)
  | scratch (outfile : Option String)
  | info (file : String) (json : Bool)
  | peers (file : String) (node : NodeId)
  | layout (file : String) (strategy : Strategy) (animate : Bool) (outfile : Option String)
  | presets

structure Request (R : Type) where
  config : Option String
  assets : String
  command : Command R

def commonFlags : List Flag :=
  [{ name := "config", letter := some 'c' }, { name := "assets" }]

def flagsOf? (command : String) : Option (List Flag) :=
  let nodes : Flag := { name := "nodes", letter := some 'n' }
  let seed : Flag := { name := "seed" }
  let outfile : Flag := { name := "outfile", letter := some 'o' }
  match command with
  | "create" =>
    some [nodes, { name := "outbounds" }, { name := "node-version" }, { name := "bitcoin-conf" },
      seed, outfile]
  | "random" => some [nodes, { name := "probability", letter := some 'p' }, seed, outfile]
  | "template" => some [nodes, outfile]
  | "scratch" => some [outfile]
  | "info" => some [{ name := "json", valued := false }]
  | "peers" => some []
  | "layout" =>
    some [{ name := "strategy", letter := some 's' }, { name := "animate", valued := false },
      outfile]
  | "presets" => some []
  | _ => none

def path? (text : String) : Option String :=
  if text.isEmpty then none else some text

def count? (text : String) : Option Nat :=
  Decimal.readNatural? UInt64.size text

def commandOf? {R : Type} [Scalar R] [NumberText R] (name : String) (given : Given) :
    Option (Command R) := do
  let outfile ← given.read? "outfile" path?
  let seed ← given.read? "seed" Decimal.readWord64?
  match name, given.words with
  | "create", [] =>
    some (.create (← given.readOr? "nodes" 12 count?) (← given.readOr? "outbounds" 7 count?)
      (given.value? "node-version") (← given.read? "bitcoin-conf" path?) seed outfile)
  | "random", [] =>
    some (.random (← given.readOr? "nodes" 12 count?)
      (← given.readOr? "probability" 0.2 NumberText.read?) seed outfile)
  | "template", [template] =>
    some (.template (← Template.ofWord? template) (← given.readOr? "nodes" 5 count?) outfile)
  | "scratch", [] => some (.scratch outfile)
  | "info", [file] => some (.info (← path? file) ("json" ∈ given.switches))
  | "peers", [file, node] => some (.peers (← path? file) ⟨node⟩)
  | "layout", [file] =>
    some (.layout (← path? file) (← given.readOr? "strategy" .ranked Strategy.ofWord?)
      ("animate" ∈ given.switches) outfile)
  | "presets", [] => some .presets
  | _, _ => none

/-- What arguments ask for. An option given to the command counts more than the
same option in front of it. -/
def Request.ofArguments? {R : Type} [Scalar R] [NumberText R] (arguments : List String) :
    Option (Request R) := do
  let limit := arguments.length + 1
  let (leading, name, rest) ← leadingArguments? commonFlags limit {} arguments
  let flags ← flagsOf? name
  let given ← commandArguments? (commonFlags ++ flags) limit {} rest
  let outerConfig ← leading.read? "config" path?
  let innerConfig ← given.read? "config" path?
  let outerAssets ← leading.read? "assets" path?
  let innerAssets ← given.read? "assets" path?
  some {
    config := innerConfig <|> outerConfig
    assets := (innerAssets <|> outerAssets).getD "."
    command := ← commandOf? name given }

end PeerNet.CommandLine
