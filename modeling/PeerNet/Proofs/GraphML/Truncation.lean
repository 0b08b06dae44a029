import PeerNet.Proofs.GraphML.RoundTrip
import PeerNet.Proofs.GraphML.Step

/-!
# Cut documents

A written document that is cut anywhere in front of its end is not read as a
smaller topology. Behind its first tag the cut shows, as a fault or as elements
that are still open; in front of it there is nothing to read.
-/

set_option autoImplicit false

namespace PeerNet.GraphML

open Markup Reading

variable {R : Type}

/-! ## Lines -/

theorem leads_line {opened inner : List (List Char)} {content : List Char}
    (outside : opened ≠ []) (inside : inner ≠ []) (leads : Leads opened inner content)
    (depth : Nat) : Leads opened inner (line depth content) := by
  have blanks : ∀ c ∈ List.replicate (2 * depth) ' ', endsText c = false := by
    intro c member
    rw [List.eq_of_mem_replicate member]
    rfl
  have feed : ∀ c ∈ ['\n'], endsText c = false := List.forall_mem_singleton.2 rfl
  exact ((leads_text outside blanks).append leads).append (leads_text inside feed)

theorem leads_keyLine (key : Key) : Leads documentPath documentPath (keyLine key) :=
  leads_line (List.cons_ne_nil _ _) (List.cons_ne_nil _ _)
    (leads_selfClosing (plain_keyTag key) (List.cons_ne_nil _ _)) 1

theorem leads_dataLine [NumberText R] (node : Node R) (key : Key) :
    Leads nodePath nodePath (dataLine node key) := by
  have inside : nodePath ≠ [] := List.cons_ne_nil _ _
  have opening :
      Leads nodePath ("data".toList :: nodePath) (openingText "data" [("key", key.id)]) :=
    leads_opening (plain_dataTag key) inside
  have value (text : List Char) :
      Leads ("data".toList :: nodePath) ("data".toList :: nodePath) (escape text) :=
    leads_escape (List.cons_ne_nil _ _) text
  have closing : Leads ("data".toList :: nodePath) nodePath (closingText "data") :=
    leads_closing (by decide) nodePath
  exact leads_line inside inside ((opening.append (value _)).append closing) 3

theorem leads_nodeLines [NumberText R] (node : Node R) :
    Leads graphPath graphPath (nodeLines node) := by
  have outside : graphPath ≠ [] := List.cons_ne_nil _ _
  have inside : nodePath ≠ [] := List.cons_ne_nil _ _
  have opening : Leads graphPath nodePath (openingText "node" [("id", node.id.text)]) :=
    leads_opening (plain_nodeTag node) outside
  have data : Leads nodePath nodePath (exportedKeys.flatMap (dataLine node)) :=
    leads_flatMap fun key _ => leads_dataLine node key
  have closing : Leads nodePath graphPath (closingText "node") :=
    leads_closing (by decide) graphPath
  exact ((leads_line outside inside opening 2).append data).append
    (leads_line inside outside closing 2)

theorem leads_edgeLine (edge : Edge) : Leads graphPath graphPath (edgeLine edge) :=
  leads_line (List.cons_ne_nil _ _) (List.cons_ne_nil _ _)
    (leads_selfClosing (plain_edgeTag edge) (List.cons_ne_nil _ _)) 2

/-! ## The document -/

def declaration : List Char :=
  "<?xml version=\"1.0\" encoding=\"UTF-8\"?>".toList

theorem declaration_eq : declaration =
    '<' :: '?' :: "xml version=\"1.0\" encoding=\"UTF-8\"".toList ++ ['?', '>'] := by
  rfl

def documentTag : List Char :=
  openingText "graphml" [("xmlns", nameSpace)]

variable [NumberText R]

/-- What stands behind the first tag of a written document, up to the end of
its last one. -/
def contents (topology : Topology R) : List Char :=
  ['\n'] ++ exportedKeys.flatMap keyLine ++
    line 1 (openingText "graph" [("edgedefault", "directed")]) ++
    topology.nodes.flatMap nodeLines ++ topology.edges.flatMap edgeLine ++
    line 1 (closingText "graph") ++ closingText "graphml"

theorem encodeChars_eq (topology : Topology R) :
    encodeChars topology =
      declaration ++ '\n' :: (documentTag ++ contents topology) ++ ['\n'] := by
  have unindented (content : List Char) : line 0 content = content ++ ['\n'] := by
    simp [line]
  have head : heading = line 0 declaration ++ line 0 documentTag ++ exportedKeys.flatMap keyLine ++
      line 1 (openingText "graph" [("edgedefault", "directed")]) := rfl
  rw [encodeChars, head, ending, contents, unindented, unindented, unindented]
  simp only [List.append_assoc, List.cons_append, List.nil_append]

theorem leads_contents (topology : Topology R) :
    Leads documentPath [] (contents topology) := by
  have document : documentPath ≠ [] := List.cons_ne_nil _ _
  have graph : graphPath ≠ [] := List.cons_ne_nil _ _
  have feed : Leads documentPath documentPath ['\n'] :=
    leads_text document (List.forall_mem_singleton.2 rfl)
  have keys : Leads documentPath documentPath (exportedKeys.flatMap keyLine) :=
    leads_flatMap fun key _ => leads_keyLine key
  have opening : Leads documentPath graphPath (openingText "graph" [("edgedefault", "directed")]) :=
    leads_opening (by decide) document
  have nodes : Leads graphPath graphPath (topology.nodes.flatMap nodeLines) :=
    leads_flatMap fun node _ => leads_nodeLines node
  have edges : Leads graphPath graphPath (topology.edges.flatMap edgeLine) :=
    leads_flatMap fun edge _ => leads_edgeLine edge
  have closing : Leads graphPath documentPath (closingText "graph") :=
    leads_closing (by decide) documentPath
  have last : Leads documentPath [] (closingText "graphml") := leads_closing (by decide) []
  exact (((((feed.append keys).append (leads_line document graph opening 1)).append
    nodes).append edges).append (leads_line graph document closing 1)).append last

/-! ## Cuts -/

variable [Scalar R]

/-- A text that is read to its end has closed all of its elements. -/
theorem openAtEnd_of_resume {reading : Reading R} {opened : List (List Char)} {text : List Char}
    {read : Partial R} (deep : reading.depth = opened.length)
    (accepted : reading.resume opened text = .ok read) : openAtEnd opened text = .ok [] := by
  rw [resume, conclude] at accepted
  split at accepted
  · cases accepted
  · next last taken =>
    split at accepted
    · cases accepted
    · next clean =>
      obtain ⟨inner, nested⟩ := exists_nestAll_of_scanInside clean
      have depth := depth_steps taken nested deep
      split at accepted
      · cases accepted
      · next closed =>
        have none : inner = [] := by
          rw [← List.length_eq_zero_iff, ← depth]
          exact Nat.eq_zero_of_not_pos closed
        rw [openAtEnd, clean]
        exact none ▸ nested

theorem exists_error_of_openAtEnd {reading : Reading R} {opened : List (List Char)}
    {text : List Char} (deep : reading.depth = opened.length)
    (unclosed : openAtEnd opened text ≠ .ok []) :
    ∃ fault, reading.resume opened text = .error fault := by
  cases outcome : reading.resume opened text with
  | error fault => exact ⟨fault, rfl⟩
  | ok read => exact absurd (openAtEnd_of_resume deep outcome) unclosed

theorem through_declaration (rest : List Char) :
    ({} : Reading R).resume [] (declaration ++ rest) = ({} : Reading R).resume [] rest :=
  resume_declaration rest

theorem through_feed (rest : List Char) :
    ({} : Reading R).resume [] ('\n' :: rest) = ({} : Reading R).resume [] rest := by
  have plain : ∀ c ∈ ['\n'], endsText c = false := List.forall_mem_singleton.2 rfl
  exact resume_skip rfl plain [] rest

/-- Up to its first tag a document can be cut between two pieces only, where it
has nothing to read yet. -/
theorem decode_front {front more : List Char}
    (cut : front ++ more = declaration ++ '\n' :: documentTag) (short : more ≠ []) :
    ({} : Reading R).resume [] front = .ok ⟨[], []⟩ ∨
      ∃ fault, ({} : Reading R).resume [] front = .error fault := by
  have empty : ({} : Reading R).resume [] [] = .ok ⟨[], []⟩ := resume_nil _ _
  have broken {text piece missing : List Char} (unbroken : Unbroken piece)
      (split : text ++ missing = piece) (filled : text ≠ []) (short : missing ≠ []) :
      ∃ fault, ({} : Reading R).resume [] text = .error fault := by
    apply exists_error_of_openAtEnd rfl
    obtain ⟨fault, failed⟩ := unbroken text missing split filled short []
    rw [failed]
    intro same
    cases same
  rcases List.append_eq_append_iff.1 cut with ⟨later, within, _⟩ | ⟨later, rfl, behind⟩
  · by_cases start : front = []
    · exact .inl (start ▸ empty)
    by_cases whole : later = []
    · rw [whole, List.append_nil] at within
      rw [← within, ← List.append_nil declaration, through_declaration]
      exact .inl empty
    · have marks : '>' ∉ "xml version=\"1.0\" encoding=\"UTF-8\"".toList := by decide
      rw [declaration_eq] at within
      exact .inr (broken (unbroken_instruction marks) within.symm start whole)
  · rw [through_declaration]
    cases later with
    | nil => exact .inl empty
    | cons c later =>
      obtain ⟨rfl, within⟩ := List.cons.inj behind
      rw [through_feed]
      by_cases start : later = []
      · exact .inl (start ▸ empty)
      · exact .inr (broken (unbroken_opening (by decide)) within.symm start short)

/-- Behind its first tag a document cannot be cut. -/
theorem decode_behind_front {topology : Topology R} {front missing : List Char}
    (cut : front ++ missing = contents topology) (short : missing ≠ []) :
    ∃ fault, ({} : Reading R).resume [] (declaration ++ '\n' :: (documentTag ++ front)) =
      .error fault := by
  have document : ({} : Reading R).resume [] (documentTag ++ front) =
      (inDocument [] : Reading R).resume documentPath front :=
    resume_documentTag front
  rw [through_declaration, through_feed, document]
  exact exists_error_of_openAtEnd rfl ((leads_contents topology).cut front missing cut short)

theorem documentTag_not_isInfix {front more : List Char}
    (cut : front ++ more = declaration ++ '\n' :: documentTag) (short : more ≠ []) :
    ¬ documentTag <:+: front := by
  have absent : ¬ documentTag <:+: (declaration ++ '\n' :: documentTag).dropLast := by
    decide +kernel
  intro inside
  rw [← cut, List.dropLast_append_of_ne_nil short] at absent
  exact absent (inside.trans (List.prefix_append front more.dropLast).isInfix)

omit [Scalar R] in
/-- More than the last line feed is missing of what stands in front of it. -/
theorem exists_cut_contents {topology : Topology R} {front missing : List Char}
    (cut : (encode topology).toList = front ++ missing) (short : 1 < missing.length) :
    ∃ rest, rest ≠ [] ∧
      front ++ rest = (declaration ++ '\n' :: documentTag) ++ contents topology := by
  rw [encode, String.toList_ofList, encodeChars_eq] at cut
  rcases List.eq_nil_or_concat missing with rfl | ⟨rest, last, rfl⟩
  · cases short
  · rw [List.concat_eq_append, ← List.append_assoc] at cut
    obtain ⟨whole, _⟩ := List.append_inj' cut rfl
    refine ⟨rest, ?_, by rw [← whole, List.append_assoc, List.cons_append]⟩
    rintro rfl
    exact absurd short (by simp)

theorem unmarked_of_cut {front missing rest : List Char}
    (cut : front ++ missing = (declaration ++ '\n' :: documentTag) ++ rest) :
    front.head? ≠ some '\ufeff' := by
  cases front with
  | nil =>
    intro same
    cases same
  | cons c front =>
    rw [declaration_eq] at cut
    rw [(List.cons.inj cut).1]
    intro same
    cases same

/-- A written document ends with its last closing tag and a line feed. One that
is cut in front of the end of that tag is not read, or as nothing; and it is
not read if it has its first tag. -/
theorem decode_truncated (topology : Topology R) {front missing : List Char}
    (cut : (encode topology).toList = front ++ missing) (short : 1 < missing.length) :
    closingText "graphml" ++ ['\n'] <:+ (encode topology).toList ∧
      (decode (String.ofList front) = .ok (⟨[], []⟩ : Partial R) ∨
        ∃ fault, decode (R := R) (String.ofList front) = .error fault) ∧
      (openingText "graphml" [("xmlns", nameSpace)] <:+: front →
        ∃ fault, decode (R := R) (String.ofList front) = .error fault) := by
  have closed : closingText "graphml" ++ ['\n'] <:+ (encode topology).toList := by
    rw [encode, String.toList_ofList, encodeChars, ending]
    exact (List.suffix_append _ _).trans (List.suffix_append _ _)
  obtain ⟨rest, unended, whole⟩ := exists_cut_contents cut short
  rw [decode_eq_resume (unmarked_of_cut whole)]
  refine ⟨closed, ?_⟩
  rcases List.append_eq_append_iff.1 whole with ⟨more, within, behind⟩ | ⟨more, rfl, within⟩
  · by_cases partly : more = []
    · rw [partly, List.append_nil] at within
      rw [partly, List.nil_append] at behind
      have failed : ∃ fault, ({} : Reading R).resume []
          (declaration ++ '\n' :: (documentTag ++ [])) = .error fault :=
        decode_behind_front behind unended
      rw [List.append_nil, within] at failed
      exact ⟨.inr failed, fun _ => failed⟩
    · exact ⟨decode_front within.symm partly,
        fun inside => absurd inside (documentTag_not_isInfix within.symm partly)⟩
  · have failed := decode_behind_front (R := R) within.symm unended
    rw [← List.cons_append, ← List.append_assoc] at failed
    exact ⟨.inr failed, fun _ => failed⟩

/-- Two nodes, of which the first one has the text of the last tags in its label. -/
def closingPair : Topology Float :=
  { id := 1
    name := "closing"
    origin := .custom
    nodes := [Node.plain ⟨"a"⟩ "</graph></graphml>", Node.plain ⟨"b"⟩ ""]
    edges := [⟨⟨"b"⟩, ⟨"a"⟩⟩] }

/-- The document of the two nodes up to the end of the first one. -/
def closingPairFront : List Char :=
  heading ++ nodeLines (Node.plain ⟨"a"⟩ "</graph></graphml>" : Node Float)

def closingPairRest : List Char :=
  nodeLines (Node.plain ⟨"b"⟩ "" : Node Float) ++ edgeLine ⟨⟨"b"⟩, ⟨"a"⟩⟩ ++ ending

theorem decode_truncated_closingPair :
    (encode closingPair).toList = closingPairFront ++ closingPairRest ∧
      1 < closingPairRest.length ∧ closingText "node" <:+: closingPairFront ∧
      openingText "graphml" [("xmlns", nameSpace)] <:+: closingPairFront ∧
      ∃ fault, decode (R := Float) (String.ofList closingPairFront) = .error fault := by
  have cut : (encode closingPair).toList = closingPairFront ++ closingPairRest := by
    rw [encode, String.toList_ofList, encodeChars]
    simp only [closingPair, closingPairFront, closingPairRest, List.flatMap_cons,
      List.flatMap_nil, List.append_nil, List.append_assoc]
  have short : 1 < closingPairRest.length := by decide +kernel
  have first : openingText "graphml" [("xmlns", nameSpace)] <:+: closingPairFront := by
    decide +kernel
  refine ⟨cut, short, by decide +kernel, first, ?_⟩
  exact (decode_truncated closingPair cut short).2.2 first

end PeerNet.GraphML
