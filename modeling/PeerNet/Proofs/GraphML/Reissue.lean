import PeerNet.Proofs.GraphML.Exchange
import PeerNet.Proofs.GraphML.Settled

/-!
# Documents written again

What becomes of a document that is read, written and read again. Only line
breaks can change: references and literal text can give breaks of any kind,
which are written as they are and unified by the second reader.
-/

set_option autoImplicit false

namespace PeerNet

open Markup

variable {R : Type}

/-- The node that a second reader has of a node that was read. -/
def Node.reissued (node : Node R) : Node R :=
  { node with
    label := GraphML.unified node.label
    version := node.version.map GraphML.unified
    latency := node.latency.map GraphML.unified
    overrides := .ofList (node.overrides.entries.map fun entry =>
      (GraphML.unified entry.1, GraphML.unified entry.2))
    resources := none
    baseFee := none }

namespace GraphML

/-! ## Texts -/

theorem steadyText_unified (text : String) : SteadyText (unified text) := by
  intro c member
  rw [toList_unified] at member
  generalize text.toList = source at member
  induction source using unifyBreaks_cases with
  | nil => cases member
  | pair d rest second ih =>
    rw [unifyBreaks_pair second] at member
    rcases List.mem_cons.1 member with rfl | later
    · decide
    · exact ih later
  | single d rest alone ih =>
    rw [unifyBreaks_cons alone] at member
    rcases List.mem_cons.1 member with same | later
    · split at same
      · rw [same]
        decide
      · next unbroken => simpa [not_or, same] using unbroken
    · exact ih later

theorem eq_empty_of_unified {text : String} (empty : unified text = "") : text = "" := by
  have none : unifyBreaks text.toList = [] := by
    rw [← toList_unified, empty]
    rfl
  by_contra filled
  exact unifyBreaks_ne_nil (fun nothing => filled (String.toList_inj.1 nothing)) none

theorem filled_unified {text : String} (filled : Filled text) : Filled (unified text) := by
  obtain ⟨unempty, tight⟩ := filled_iff.1 filled
  refine filled_iff.2 ⟨fun empty => unempty (eq_empty_of_unified empty), ?_⟩
  rw [toList_unified]
  exact tight_unifyBreaks tight

theorem nonBlank?_unified {text? : Option String} (filled : ∀ text ∈ text?, Filled text) :
    Draft.nonBlank? (unified (text?.getD "")) = text?.map unified := by
  cases text? with
  | none => rfl
  | some text => exact filled_unified (filled text rfl)

/-! ## Overrides -/

theorem canonicalEntry_unified {entry : String × String}
    (canonical : Overrides.CanonicalEntry entry) :
    Overrides.CanonicalEntry (unified entry.1, unified entry.2) := by
  have absent {sign : Char} (other : sign ≠ '\n') {text : String} (free : sign ∉ text.toList) :
      sign ∉ (unified text).toList := by
    rw [toList_unified]
    intro member
    rcases mem_unifyBreaks member with same | inside
    · exact other same
    · exact free inside
  obtain ⟨named, tightName, tightValue, ⟨noComma, noEquals⟩, wholeValue⟩ := canonical
  refine ⟨?_, ?_, ?_, ⟨absent (by decide) noComma, absent (by decide) noEquals⟩,
    absent (by decide) wholeValue⟩
  · rw [toList_unified]
    exact unifyBreaks_ne_nil named
  · rw [toList_unified]
    exact tight_unifyBreaks tightName
  · rw [toList_unified]
    exact tight_unifyBreaks tightValue

theorem unifyBreaks_entryText (entry : String × String) :
    unifyBreaks (Overrides.entryText entry) =
      Overrides.entryText (unified entry.1, unified entry.2) := by
  rw [Overrides.entryText, unifyBreaks_append (by decide), Overrides.entryText, toList_unified,
    toList_unified]

theorem unified_flatten (overrides : Overrides) :
    unified overrides.flatten = String.ofList (Text.join ',' ((overrides.entries.map fun entry =>
      (unified entry.1, unified entry.2)).map Overrides.entryText)) := by
  have parts : (overrides.entries.map Overrides.entryText).map unifyBreaks =
      (overrides.entries.map fun entry =>
        (unified entry.1, unified entry.2)).map Overrides.entryText := by
    rw [List.map_map, List.map_map]
    exact List.map_congr_left fun entry _ => unifyBreaks_entryText entry
  rw [Overrides.flatten, unified, String.toList_ofList, unifyBreaks_join (by decide), parts]

theorem unflatten_unified {overrides : Overrides} (canonical : overrides.Canonical) :
    Overrides.unflatten (unified overrides.flatten) = .ofList (overrides.entries.map fun entry =>
      (unified entry.1, unified entry.2)) := by
  rw [unified_flatten, Overrides.unflatten_join]
  intro setting listed
  obtain ⟨entry, known, rfl⟩ := List.mem_map.1 listed
  exact canonicalEntry_unified (canonical entry known)

theorem map_unified_eq_self {settings : List (String × String)}
    (steady : ∀ entry ∈ settings, SteadyText entry.1 ∧ SteadyText entry.2) :
    settings.map (fun entry => (unified entry.1, unified entry.2)) = settings := by
  have same : ∀ entry ∈ settings, (unified entry.1, unified entry.2) = entry := by
    intro entry listed
    obtain ⟨name, value⟩ := steady entry listed
    rw [unified_of_steady name, unified_of_steady value]
  rw [List.map_congr_left same, List.map_id']

/-! ## Nodes -/

theorem reissued_of_steady {node : Node R} (steady : ∀ text ∈ node.texts, SteadyText text) :
    node.reissued = { node with resources := none, baseFee := none } := by
  have texts {text : String} (listed : text ∈ node.texts) : unified text = text :=
    unified_of_steady (steady text listed)
  have optional {text? : Option String} (listed : ∀ text ∈ text?, text ∈ node.texts) :
      text?.map unified = text? := by
    cases text? with
    | none => rfl
    | some text => rw [Option.map_some, texts (listed text rfl)]
  have entries : ∀ entry ∈ node.overrides.entries, SteadyText entry.1 ∧ SteadyText entry.2 := by
    intro entry known
    have listed : ∀ text ∈ [entry.1, entry.2], text ∈ node.texts := by
      intro text inside
      exact List.mem_append_right _ (List.mem_flatMap.2 ⟨entry, known, inside⟩)
    exact ⟨steady _ (listed _ (by simp)), steady _ (listed _ (by simp))⟩
  rw [Node.reissued, texts (by simp [Node.texts]),
    optional fun text given => by simp [Node.texts, Option.mem_def.1 given],
    optional fun text given => by simp [Node.texts, Option.mem_def.1 given],
    map_unified_eq_self entries, Overrides.ofList_entries]

theorem steady_reissued (node : Node R) : ∀ text ∈ node.reissued.texts, SteadyText text := by
  have optional {text? : Option String} {text : String} (given : text ∈ text?.map unified) :
      SteadyText text := by
    obtain ⟨source, _, rfl⟩ := Option.map_eq_some_iff.1 given
    exact steadyText_unified source
  intro text listed
  simp only [Node.texts, Node.reissued, List.cons_append, List.mem_cons, List.mem_append,
    Option.mem_toList, List.mem_flatMap, List.not_mem_nil, or_false] at listed
  rcases listed with rfl | (version | latency) | ⟨entry, known, inside⟩
  · exact steadyText_unified node.label
  · exact optional version
  · exact optional latency
  · obtain ⟨source, _, rfl⟩ := List.mem_map.1 (Overrides.mem_ofList known)
    rcases inside with rfl | rfl
    · exact steadyText_unified source.1
    · exact steadyText_unified source.2

theorem reissued_reissued (node : Node R) : node.reissued.reissued = node.reissued :=
  reissued_of_steady (steady_reissued node)

theorem reread_eq_reissued {node : Node Float} (settled : Settled node)
    (back : ∀ x ∈ node.numbers, NumberText.read? (NumberText.write x) = some x) :
    reread node = node.reissued := by
  have label : (if (unified node.label).isEmpty then node.id.text else unified node.label) =
      unified node.label := by
    split
    · next empty =>
      have none : unified node.label = "" := by simpa using empty
      rw [none, settled.labelled (eq_empty_of_unified none)]
    · rfl
  have size := renumbered_eq_self (back node.size (by simp [Node.numbers]))
  have x := renumbered_eq_self (back node.position.x (by simp [Node.numbers]))
  have y := renumbered_eq_self (back node.position.y (by simp [Node.numbers]))
  rw [reread_eq, Node.reissued, label, size, x, y, nonBlank?_unified settled.version,
    nonBlank?_unified settled.latency, unflatten_unified settled.overrides]

theorem decode_encode_of_settled {read : Partial Float}
    (settled : ∀ node ∈ read.nodes, Settled node)
    (back : ∀ node ∈ read.nodes, ∀ x ∈ node.numbers,
      NumberText.read? (NumberText.write x) = some x)
    (id : UInt32) (name : String) (origin : Origin) :
    decode (encode (read.toTopology id name origin)) =
      .ok ⟨read.nodes.map Node.reissued, read.edges⟩ := by
  have nodes : read.nodes.map reread = read.nodes.map Node.reissued := by
    apply List.map_congr_left
    intro node member
    exact reread_eq_reissued (settled node member) (back node member)
  rw [decode_encode]
  simp only [Partial.toTopology, nodes]

/-- From the second reading on nothing changes any more: what it gives is
written and read back as it is. -/
theorem decode_encode_reissued {document : String} {read : Partial Float}
    (accepted : decode document = .ok read)
    (back : ∀ node ∈ read.nodes, ∀ x ∈ node.numbers,
      NumberText.read? (NumberText.write x) = some x)
    (id : UInt32) (name : String) (origin : Origin) :
    let again : Partial Float := ⟨read.nodes.map Node.reissued, read.edges⟩
    decode (encode (read.toTopology id name origin)) = .ok again ∧
      decode (encode (again.toTopology id name origin)) = .ok again := by
  intro again
  have second : decode (encode (read.toTopology id name origin)) = .ok again :=
    decode_encode_of_settled (settled_of_decode accepted) back id name origin
  have same : again.nodes.map Node.reissued = again.nodes := by
    simp only [again, List.map_map, Function.comp_def, reissued_reissued]
  have numbers : ∀ node ∈ again.nodes, ∀ x ∈ node.numbers,
      NumberText.read? (NumberText.write x) = some x := by
    intro node member
    obtain ⟨source, known, rfl⟩ := List.mem_map.1 member
    exact back source known
  refine ⟨second, ?_⟩
  rw [decode_encode_of_settled (settled_of_decode second) numbers, same]

/-- A document that is read is read again from what was written of it, with the
line breaks of its texts unified. Where they are line feeds already, only
attributes that documents do not carry are lost. -/
theorem decode_encode_decode {document : String} {read : Partial Float}
    (accepted : decode document = .ok read)
    (back : ∀ node ∈ read.nodes, ∀ x ∈ node.numbers,
      NumberText.read? (NumberText.write x) = some x)
    (id : UInt32) (name : String) (origin : Origin) :
    decode (encode (read.toTopology id name origin)) =
        .ok ⟨read.nodes.map Node.reissued, read.edges⟩ ∧
      ∀ node ∈ read.nodes, (∀ text ∈ node.texts, SteadyText text) →
        node.reissued = { node with resources := none, baseFee := none } := by
  exact ⟨decode_encode_of_settled (settled_of_decode accepted) back id name origin,
    fun node _ steady => reissued_of_steady steady⟩

/-- A node whose values come from text, references and literal text. -/
def gatheredChars : List Char :=
  "<graphml><key id='d' attr.name='label'/><graph><node id='a'>".toList ++
    "<data key='d'>one &amp;&#32;<![CDATA[<two>]]>&#x21;</data>".toList ++
    "<data key='version'> 25<!-- major -->.0\r\n</data>".toList ++
    "<data key='bitcoin_conf'>b=2&#44; a = 1,b=&lt;3&gt;</data>".toList ++
    "<data key='ram'>8</data><data key='x'>1e-7</data></node></graph></graphml>".toList

def gathered : String :=
  String.ofList gatheredChars

def gatheredNode : Node Float :=
  { id := ⟨"a"⟩, label := "one & <two>!", size := 10.0, version := some "25.0"
    resources := some ⟨8, 0⟩, overrides := .ofList [("a", "1"), ("b", "<3>")]
    position := ⟨1e-7, 0.0⟩ }

theorem decode_encode_decode_gathered :
    decode gathered = .ok (⟨[gatheredNode], []⟩ : Partial Float) ∧
      (∀ node ∈ [gatheredNode], ∀ x ∈ node.numbers,
        NumberText.read? (NumberText.write x) = some x) ∧
      decode (encode ((⟨[gatheredNode], []⟩ : Partial Float).toTopology 1 "gathered" .custom)) =
        .ok (⟨[{ gatheredNode with resources := none }], []⟩ : Partial Float) := by
  have accepted : decode gathered = .ok (⟨[gatheredNode], []⟩ : Partial Float) := by
    rw [gathered, decode_eq_resume (by decide)]
    exact eq_ok_of_toOption (by decide +kernel)
  have back : ∀ node ∈ [gatheredNode], ∀ x ∈ node.numbers,
      NumberText.read? (NumberText.write x) = some x := by
    decide +kernel
  have steady : ∀ text ∈ gatheredNode.texts, SteadyText text := by
    decide +kernel
  obtain ⟨again, kept⟩ := decode_encode_decode accepted back 1 "gathered" .custom
  refine ⟨accepted, back, ?_⟩
  rw [again, List.map_singleton, kept gatheredNode List.mem_cons_self steady]
  rfl

/-- A document that gives a label with a carriage return, by a reference. -/
def returned : String :=
  "<graphml><graph><node id=\"0\"><data key=\"label\">a&#13;b</data></node></graph></graphml>"

/-- A carriage return that a reference gives does not come back. -/
theorem decode_encode_decode_returned :
    decode returned = .ok (⟨[Node.plain ⟨"0"⟩ "a\rb"], []⟩ : Partial Float) ∧
      decode (encode ((⟨[Node.plain ⟨"0"⟩ "a\rb"], []⟩ : Partial Float).toTopology 1 ""
        .custom)) = .ok (⟨[Node.plain ⟨"0"⟩ "a\nb"], []⟩ : Partial Float) ∧
      (Node.plain ⟨"0"⟩ "a\rb" : Node Float) ≠ Node.plain ⟨"0"⟩ "a\nb" := by
  refine ⟨eq_ok_of_toOption (by decide +kernel), ?_, ?_⟩
  · rw [decode_encode]
    have back : reread (Node.plain ⟨"0"⟩ "a\rb" : Node Float) = Node.plain ⟨"0"⟩ "a\nb" := by
      decide +kernel
    simp only [Partial.toTopology, List.map_singleton, back]
  · intro same
    exact absurd (congrArg Node.label same) (by decide)

end GraphML

end PeerNet
