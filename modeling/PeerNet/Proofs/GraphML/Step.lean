import PeerNet.GraphML.Decode
import PeerNet.Proofs.Markup.Nesting
import PeerNet.Proofs.Outcome

/-!
# What one piece changes

All that a tag can do to a reading, by the kind of its element, and what follows
for the nodes of the reading and for the number of elements that are open.
-/

set_option autoImplicit false

namespace PeerNet.GraphML.Reading

open Markup

variable {R : Type}

/-! ## Tags -/

/-- A tag of an element that is neither a node nor data of a node: a key is
declared, a link is read, and other elements change nothing. -/
inductive Passing (tag : Tag) (reading : Reading R) : Reading R → Prop where
  | key {id : String} {name? : Option String} (named : String.ofList tag.name = "key")
    (identified : required tag "key" "id" = .ok id)
    (called : attributeOf? tag "attr.name" = .ok name?) :
    Passing tag reading { reading with keys := (id, name?.getD id) :: reading.keys }
  | edge {source target : String} (named : String.ofList tag.name = "edge")
    (started : required tag "edge" "source" = .ok source)
    (ended : required tag "edge" "target" = .ok target) :
    Passing tag reading { reading with edges := reading.edges ++ [⟨⟨source⟩, ⟨target⟩⟩] }
  | other (noKey : String.ofList tag.name ≠ "key") (noEdge : String.ofList tag.name ≠ "edge")
    (noNode : String.ofList tag.name ≠ "node")
    (noData : String.ofList tag.name = "data" → reading.draft = none) :
    Passing tag reading reading

inductive Opening [Scalar R] (tag : Tag) (reading : Reading R) : Reading R → Prop where
  | node {id : String} (named : String.ofList tag.name = "node")
    (identified : required tag "node" "id" = .ok id) :
    Opening tag reading { reading with
      draft := some { node := Node.plain ⟨id⟩ "" }, depth := reading.depth + 1 }
  | data {key : String} (named : String.ofList tag.name = "data")
    (drafted : reading.draft.isSome) (keyed : required tag "data" "key" = .ok key) :
    Opening tag reading { reading with data := some (key, []), depth := reading.depth + 1 }
  | passing {after : Reading R}
    (passing : Passing tag { reading with depth := reading.depth + 1 } after) :
    Opening tag reading after

inductive Emptying [NumberText R] [Scalar R] (tag : Tag) (reading : Reading R) :
    Reading R → Prop where
  | node {id : String} (named : String.ofList tag.name = "node")
    (identified : required tag "node" "id" = .ok id) :
    Emptying tag reading { reading with
      nodes := reading.nodes ++ [Draft.finish { node := Node.plain ⟨id⟩ "" }] }
  | data {key : String} {draft : Draft R} (named : String.ofList tag.name = "data")
    (current : reading.draft = some draft) (keyed : required tag "data" "key" = .ok key) :
    Emptying tag reading { reading with draft := some (reading.assign draft key []) }
  | passing {after : Reading R} (passing : Passing tag reading after) : Emptying tag reading after

inductive Closing [NumberText R] (name : List Char) (reading : Reading R) :
    Reading R → Prop where
  | data {key : String} {text : List Char} {draft : Draft R}
    (named : String.ofList name = "data") (opened : reading.data = some (key, text))
    (current : reading.draft = some draft) :
    Closing name reading { reading with
      data := none, draft := some (reading.assign draft key text), depth := reading.depth - 1 }
  | node {draft : Draft R} (named : String.ofList name = "node")
    (current : reading.draft = some draft) :
    Closing name reading { reading with
      draft := none, nodes := reading.nodes ++ [draft.finish], depth := reading.depth - 1 }
  | dropped (named : String.ofList name = "data")
    (idle : reading.data = none ∨ reading.draft = none) :
    Closing name reading { reading with data := none, depth := reading.depth - 1 }
  | passed (noData : String.ofList name ≠ "data")
    (noNode : String.ofList name = "node" → reading.draft = none) :
    Closing name reading { reading with depth := reading.depth - 1 }

theorem passing_of_declareKey {reading after : Reading R} {tag : Tag}
    (named : String.ofList tag.name = "key") (taken : reading.declareKey tag = .ok after) :
    Passing tag reading after := by
  obtain ⟨id, identified, later⟩ := exists_of_bind_eq_ok taken
  obtain ⟨name?, called, declared⟩ := exists_of_bind_eq_ok later
  cases declared
  exact .key named identified called

theorem passing_of_addEdge {reading after : Reading R} {tag : Tag}
    (named : String.ofList tag.name = "edge") (taken : reading.addEdge tag = .ok after) :
    Passing tag reading after := by
  obtain ⟨source, started, later⟩ := exists_of_bind_eq_ok taken
  obtain ⟨target, ended, added⟩ := exists_of_bind_eq_ok later
  cases added
  exact .edge named started ended

variable [Scalar R]

theorem exists_of_startNode {tag : Tag} {draft : Draft R} (taken : startNode tag = .ok draft) :
    ∃ id, required tag "node" "id" = .ok id ∧ draft = { node := Node.plain ⟨id⟩ "" } := by
  obtain ⟨id, identified, rfl⟩ := exists_of_map_eq_ok taken
  exact ⟨id, identified, rfl⟩

theorem opening_of_openElement {reading after : Reading R} {tag : Tag}
    (taken : reading.openElement tag = .ok after) : Opening tag reading after := by
  unfold openElement at taken
  dsimp only at taken
  split at taken
  · next named => exact .passing (passing_of_declareKey named taken)
  · next named =>
    obtain ⟨draft, started, rfl⟩ := exists_of_map_eq_ok taken
    obtain ⟨id, identified, rfl⟩ := exists_of_startNode started
    exact .node named identified
  · next named =>
    split at taken
    · next drafted =>
      obtain ⟨key, keyed, rfl⟩ := exists_of_map_eq_ok taken
      exact .data named drafted keyed
    · next undrafted =>
      cases taken
      have none : reading.draft = none := by simpa using undrafted
      exact .passing (.other (by simp [named]) (by simp [named]) (by simp [named]) fun _ => none)
  · next named => exact .passing (passing_of_addEdge named taken)
  · next noKey noNode noData noEdge =>
    cases taken
    exact .passing (.other noKey noEdge noNode fun named => absurd named noData)

variable [NumberText R]

theorem emptying_of_takeEmpty {reading after : Reading R} {tag : Tag}
    (taken : reading.takeEmpty tag = .ok after) : Emptying tag reading after := by
  unfold takeEmpty at taken
  split at taken
  · next named => exact .passing (passing_of_declareKey named taken)
  · next named =>
    obtain ⟨draft, started, rfl⟩ := exists_of_map_eq_ok taken
    obtain ⟨id, identified, rfl⟩ := exists_of_startNode started
    exact .node named identified
  · next named =>
    split at taken
    · next draft current =>
      obtain ⟨key, keyed, rfl⟩ := exists_of_map_eq_ok taken
      exact .data named current keyed
    · next none =>
      cases taken
      exact .passing (.other (by simp [named]) (by simp [named]) (by simp [named]) fun _ => none)
  · next named => exact .passing (passing_of_addEdge named taken)
  · next noKey noNode noData noEdge =>
    cases taken
    exact .passing (.other noKey noEdge noNode fun named => absurd named noData)

omit [Scalar R] in
theorem closing_of_closeElement {reading after : Reading R} {name : List Char}
    (taken : reading.closeElement name = after) : Closing name reading after := by
  obtain ⟨keys, draft?, data?, depth, nodes, edges⟩ := reading
  unfold closeElement at taken
  dsimp only at taken
  split at taken
  · next named =>
    cases data? with
    | none =>
      cases taken
      exact .dropped named (.inl rfl)
    | some entry =>
      obtain ⟨key, text⟩ := entry
      cases draft? with
      | none =>
        cases taken
        exact .dropped named (.inr rfl)
      | some draft =>
        cases taken
        exact .data named rfl rfl
  · next named =>
    cases draft? with
    | none =>
      cases taken
      exact .passed (by rw [named]; decide) fun _ => rfl
    | some draft =>
      cases taken
      exact .node named rfl
  · next noData noNode =>
    cases taken
    exact .passed noData fun named => absurd named noNode

/-! ## Nodes -/

/-- What a piece can do to the node being read and to the nodes read already. -/
inductive NodeChange (reading : Reading R) : Option (Draft R) → List (Node R) → Prop where
  | nothing : NodeChange reading reading.draft reading.nodes
  | opened (id : String) :
    NodeChange reading (some { node := Node.plain ⟨id⟩ "" }) reading.nodes
  | whole (id : String) :
    NodeChange reading reading.draft
      (reading.nodes ++ [Draft.finish { node := Node.plain ⟨id⟩ "" }])
  | assigned {draft : Draft R} (current : reading.draft = some draft) (text : String)
    (meaning : NodeAttribute) :
    NodeChange reading (some (draft.assign text meaning)) reading.nodes
  | closed {draft : Draft R} (current : reading.draft = some draft) :
    NodeChange reading none (reading.nodes ++ [draft.finish])

theorem nodeChange_assign {reading : Reading R} {draft : Draft R}
    (current : reading.draft = some draft) (key : String) (text : List Char) :
    NodeChange reading (some (reading.assign draft key text)) reading.nodes := by
  rw [assign]
  cases NodeAttribute.ofName? (reading.nameOf key) with
  | none => exact current ▸ .nothing
  | some meaning => exact .assigned current _ meaning

theorem nodeChange_step {reading after : Reading R} {event : Event}
    (taken : reading.step event = .ok after) : NodeChange reading after.draft after.nodes := by
  cases event with
  | opening tag =>
    cases opening_of_openElement taken with
    | node => exact .opened _
    | data => exact .nothing
    | passing passing => cases passing <;> exact .nothing
  | selfClosing tag =>
    cases emptying_of_takeEmpty taken with
    | node => exact .whole _
    | data _ current => exact nodeChange_assign current _ []
    | passing passing => cases passing <;> exact .nothing
  | closing name =>
    cases closing_of_closeElement (Except.ok.inj taken) with
    | data _ _ current => exact nodeChange_assign current _ _
    | node _ current => exact .closed current
    | dropped | passed => exact .nothing
  | text content | literal content | remark =>
    cases taken
    exact .nothing
  | reference name =>
    rw [step] at taken
    split at taken
    · obtain ⟨text, _, rfl⟩ := exists_of_map_eq_ok taken
      exact .nothing
    · cases taken
      exact .nothing

/-- What every piece preserves holds behind all of them. -/
theorem steps_preserves {holds : Reading R → Prop}
    (one : ∀ {reading after : Reading R} {event : Event}, holds reading →
      reading.step event = .ok after → holds after)
    {reading after : Reading R} {events : List Event} (start : holds reading)
    (taken : reading.steps events = .ok after) : holds after := by
  induction events generalizing reading with
  | nil =>
    cases taken
    exact start
  | cons event rest ih =>
    rw [steps] at taken
    split at taken
    · cases taken
    · next first => exact ih (one start first) taken

/-! ## Depths -/

/-- A reading is as deep as the number of elements that are open. -/
theorem depth_step {reading after : Reading R} {opened inner : List (List Char)} {event : Event}
    (taken : reading.step event = .ok after) (nested : nest opened event = .ok inner)
    (deep : reading.depth = opened.length) : after.depth = inner.length := by
  cases event with
  | opening tag =>
    cases nested
    rw [List.length_cons, ← deep]
    cases opening_of_openElement taken with
    | node | data => rfl
    | passing passing => cases passing <;> rfl
  | selfClosing tag =>
    cases nested
    rw [← deep]
    cases emptying_of_takeEmpty taken with
    | node | data => rfl
    | passing passing => cases passing <;> rfl
  | closing name =>
    have less : after.depth = reading.depth - 1 := by
      cases closing_of_closeElement (Except.ok.inj taken) <;> rfl
    rw [less, deep]
    cases opened with
    | nil => cases nested
    | cons innermost outer =>
      rw [nest] at nested
      split at nested
      · cases nested
        rfl
      · cases nested
  | text content | literal content | remark =>
    cases taken
    cases nested
    exact deep
  | reference name =>
    cases nested
    rw [step] at taken
    split at taken
    · obtain ⟨text, _, rfl⟩ := exists_of_map_eq_ok taken
      exact deep
    · cases taken
      exact deep

theorem depth_steps {reading after : Reading R} {opened inner : List (List Char)}
    {events : List Event} (taken : reading.steps events = .ok after)
    (nested : nestAll opened events = .ok inner) (deep : reading.depth = opened.length) :
    after.depth = inner.length := by
  induction events generalizing reading opened with
  | nil =>
    cases taken
    cases nested
    exact deep
  | cons event rest ih =>
    rw [steps] at taken
    rw [nestAll] at nested
    split at taken
    · cases taken
    · next stepped =>
      split at nested
      · cases nested
      · next entered => exact ih taken nested (depth_step stepped entered deep)

end PeerNet.GraphML.Reading

namespace PeerNet.GraphML

variable {R : Type} [NumberText R] [Scalar R]

/-- The reading at the end of a document that is accepted. -/
theorem exists_steps_of_decode {document : String} {read : Partial R}
    (accepted : decode document = .ok read) :
    ∃ last : Reading R, ({} : Reading R).steps (Markup.scan document.toList).1 = .ok last ∧
      (Markup.scan document.toList).2 = none ∧ last.depth = 0 ∧
      read = ⟨last.nodes, last.edges⟩ := by
  have events : decode document =
      decodeEvents (R := R) (Markup.scan document.toList).1 (Markup.scan document.toList).2 := rfl
  rw [events, decodeEvents] at accepted
  split at accepted
  · cases accepted
  · next last taken =>
    split at accepted
    · cases accepted
    · next clean =>
      split at accepted
      · cases accepted
      · next closed =>
        cases accepted
        exact ⟨last, taken, clean, Nat.eq_zero_of_not_pos closed, rfl⟩

/-- A document that is accepted closes what it opens. -/
theorem balanced_of_decode {document : String} {read : Partial R}
    (accepted : decode document = .ok read) :
    Markup.nestAll [] (Markup.scan document.toList).1 = .ok [] := by
  obtain ⟨last, taken, clean, closed, rfl⟩ := exists_steps_of_decode accepted
  obtain ⟨inner, nested⟩ := Markup.exists_nestAll_of_scan clean
  have deep : last.depth = inner.length := Reading.depth_steps taken nested rfl
  have none : inner = [] := List.length_eq_zero_iff.1 (deep.symm.trans closed)
  exact none ▸ nested

end PeerNet.GraphML
