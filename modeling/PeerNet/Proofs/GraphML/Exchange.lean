import PeerNet.Proofs.Decimal.Text
import PeerNet.Proofs.GraphML.Reread
import PeerNet.Proofs.Text.Blank

/-!
# What an exchange keeps

What becomes of a node that is written and read back, attribute by attribute,
where its texts break lines by line feeds only and its numbers are read back
from their own texts.
-/

set_option autoImplicit false

namespace PeerNet

open Markup

variable {R : Type}

/-- True of the texts whose line breaks are line feeds already. -/
def SteadyText (text : String) : Prop :=
  ∀ c ∈ text.toList, c ≠ '\r' ∧ c ≠ '\u0085' ∧ c ≠ '\u2028'

instance (text : String) : Decidable (SteadyText text) :=
  decidable_of_iff (text.toList.all fun c => c != '\r' && c != '\u0085' && c != '\u2028')
    (by simp [SteadyText, and_assoc])

/-- The texts of a node that are written as data. -/
def Node.texts (node : Node R) : List String :=
  node.label :: node.version.toList ++ node.latency.toList ++
    node.overrides.entries.flatMap fun entry => [entry.1, entry.2]

/-- The numbers of a node that are written as data. -/
def Node.numbers (node : Node R) : List R :=
  [node.size, node.position.x, node.position.y]

/-- The node that a reader of the document has. -/
def Node.exchanged (node : Node R) : Node R :=
  { node with
    label := if node.label.isEmpty then node.id.text else node.label
    version := node.version.bind GraphML.Draft.nonBlank?
    latency := node.latency.bind GraphML.Draft.nonBlank?
    overrides := .unflatten node.overrides.flatten
    resources := none
    baseFee := none }

namespace GraphML

/-! ## Texts -/

theorem unified_of_steady {text : String} (steady : SteadyText text) : unified text = text := by
  rw [unified, unifyBreaks_eq_self steady, String.ofList_toList]

theorem steadyText_flatten {overrides : Overrides}
    (steady : ∀ entry ∈ overrides.entries, SteadyText entry.1 ∧ SteadyText entry.2) :
    SteadyText overrides.flatten := by
  intro c member
  rw [Overrides.flatten, String.toList_ofList] at member
  rcases Text.mem_join member with rfl | ⟨segment, known, inside⟩
  · decide
  · obtain ⟨entry, listed, rfl⟩ := List.mem_map.1 known
    obtain ⟨name, value⟩ := steady entry listed
    rcases List.mem_append.1 inside with front | back
    · exact name c front
    · rcases List.mem_cons.1 back with rfl | behind
      · decide
      · exact value c behind

theorem steadyText_getD {text? : Option String} (steady : ∀ text ∈ text?, SteadyText text) :
    SteadyText (text?.getD "") := by
  cases text? with
  | none => exact fun _ member => nomatch member
  | some text => exact steady text rfl

theorem nonBlank?_getD (text? : Option String) :
    Draft.nonBlank? (text?.getD "") = text?.bind Draft.nonBlank? := by
  cases text? with
  | none => rfl
  | some text => rw [Option.getD_some, Option.bind_some]

/-! ## Numbers -/

theorem steadyText_write (x : Float) : SteadyText (NumberText.write x) := by
  intro c member
  have unblank := Decimal.isBlank_of_isNumberChar ((Decimal.isNumberText_writeFloat x).2 c member)
  refine ⟨?_, ?_, ?_⟩
  all_goals
    rintro rfl
    cases unblank

theorem number?_write {x : Float} (back : NumberText.read? (NumberText.write x) = some x) :
    Draft.number? (NumberText.write x) = some x := by
  obtain ⟨filled, chars⟩ := Decimal.isNumberText_writeFloat x
  have trimmed : Text.trimmed (NumberText.write x) = NumberText.write x := by
    have unblank : ∀ c ∈ (NumberText.write x).toList, Text.isBlank c = false :=
      fun c member => Decimal.isBlank_of_isNumberChar (chars c member)
    rw [Text.trimmed, Text.trim_eq_self (Text.tight_of_unblank unblank), String.ofList_toList]
  have unempty : (NumberText.write x).isEmpty = false := by
    rw [String.isEmpty_eq_false_iff]
    rintro same
    exact filled (congrArg String.toList same)
  simp [Draft.number?, Draft.nonBlank?, trimmed, unempty, back]

/-! ## Nodes -/

theorem renumbered_eq_self {x : Float} (back : NumberText.read? (NumberText.write x) = some x)
    (usual : Float) : renumbered usual x = x := by
  rw [renumbered, unified_of_steady (steadyText_write x), number?_write back, Option.getD_some]

theorem reread_eq_exchanged {node : Node Float} (steady : ∀ text ∈ node.texts, SteadyText text)
    (back : ∀ x ∈ node.numbers, NumberText.read? (NumberText.write x) = some x) :
    reread node = node.exchanged := by
  have texts {text : String} (listed : text ∈ node.texts) : SteadyText text := steady text listed
  simp only [Node.texts, List.cons_append, List.mem_cons, List.mem_append, Option.mem_toList,
    List.mem_flatMap] at texts
  have label : unified node.label = node.label := unified_of_steady (texts (.inl rfl))
  have version : unified (node.version.getD "") = node.version.getD "" :=
    unified_of_steady (steadyText_getD fun text known => texts (.inr (.inl (.inl known))))
  have latency : unified (node.latency.getD "") = node.latency.getD "" :=
    unified_of_steady (steadyText_getD fun text known => texts (.inr (.inl (.inr known))))
  have overrides : unified node.overrides.flatten = node.overrides.flatten := by
    refine unified_of_steady (steadyText_flatten fun entry known => ⟨?_, ?_⟩)
    · exact texts (.inr (.inr ⟨entry, known, by simp⟩))
    · exact texts (.inr (.inr ⟨entry, known, by simp⟩))
  have size := renumbered_eq_self (back node.size (by simp [Node.numbers]))
  have x := renumbered_eq_self (back node.position.x (by simp [Node.numbers]))
  have y := renumbered_eq_self (back node.position.y (by simp [Node.numbers]))
  rw [reread_eq, Node.exchanged, label, version, latency, overrides, size, x, y,
    nonBlank?_getD, nonBlank?_getD]

/-- An exchange of a topology keeps its nodes but for the known losses, and
all of its links. -/
theorem decode_encode_exchanged (topology : Topology Float)
    (steady : ∀ node ∈ topology.nodes, ∀ text ∈ node.texts, SteadyText text)
    (back : ∀ node ∈ topology.nodes, ∀ x ∈ node.numbers,
      NumberText.read? (NumberText.write x) = some x) :
    decode (encode topology) = .ok ⟨topology.nodes.map Node.exchanged, topology.edges⟩ := by
  have nodes : topology.nodes.map reread = topology.nodes.map Node.exchanged := by
    apply List.map_congr_left
    intro node member
    exact reread_eq_exchanged (steady node member) (back node member)
  rw [decode_encode, nodes]

/-- Texts that look like markup, blanks at their ends, numbers without a short
text, and attributes that documents do not carry. -/
def markedUp : Topology Float :=
  { id := 1
    name := "marked up"
    origin := .custom
    nodes := [
      { id := ⟨"\"/><node id='1'>&amp;"⟩, label := "  <data key=\"x\"> &#38; \n", size := 0.1
        version := some " \t", latency := some " 5G\u3000", baseFee := some 2.5
        resources := some ⟨4, 2⟩
        overrides := .ofList [("rpcport", " 1,listen=0"), ("=", "</data>")]
        position := ⟨-0.0, 1e-7⟩ },
      { id := ⟨""⟩, label := "", size := 0.0 / 0.0, version := some "]]>"
        position := ⟨-1.0 / 0.0, 1e21⟩ }]
    edges := [⟨⟨""⟩, ⟨"\"/><node id='1'>&amp;"⟩⟩, ⟨⟨""⟩, ⟨""⟩⟩] }

theorem decode_encode_exchanged_markedUp :
    (∀ node ∈ markedUp.nodes, ∀ text ∈ node.texts, SteadyText text) ∧
      (∀ node ∈ markedUp.nodes, ∀ x ∈ node.numbers,
        NumberText.read? (NumberText.write x) = some x) ∧
      ∃ read : Partial Float, decode (encode markedUp) = .ok read ∧
        read.edges = markedUp.edges ∧
        read.nodes.map (·.label) = ["  <data key=\"x\"> &#38; \n", ""] ∧
        read.nodes.map (·.version) = [none, some "]]>"] ∧
        read.nodes.map (·.latency) = [some "5G", none] := by
  have steady : ∀ node ∈ markedUp.nodes, ∀ text ∈ node.texts, SteadyText text := by
    decide +kernel
  have back : ∀ node ∈ markedUp.nodes, ∀ x ∈ node.numbers,
      NumberText.read? (NumberText.write x) = some x := by
    decide +kernel
  refine ⟨steady, back, _, decode_encode_exchanged markedUp steady back, rfl, ?_, ?_, ?_⟩
  · decide +kernel
  · decide +kernel
  · decide +kernel

end GraphML

end PeerNet
