import PeerNet.GraphML.Presets
import PeerNet.Proofs.Text.Split

/-!
# Where presets are looked for

A preset is listed by the name of its file without the extension, and looked for at its
name with the extension. A name that carries the extension itself is taken for the name
of a file, so a preset whose file repeats the extension is listed, but another file is
looked for; and a request takes the extension off twice, where a path takes it off once.
-/

set_option autoImplicit false

namespace PeerNet

/-! ## Paths of names with an ending -/

namespace FilePath

theorem named_append (front : String) {ending : String} (long : 2 ≤ ending.length) :
    front ++ ending ≠ "" ∧ front ++ ending ≠ "." := by
  have longer : 2 ≤ (front ++ ending).length := by
    rw [String.length_append]
    omega
  constructor
  · intro same
    rw [same] at longer
    cases longer
  · intro same
    rw [same] at longer
    exact absurd longer (by decide)

/-- A text that ends in an ending writes a path whose last name does. -/
theorem exists_getLast?_ofText (directory : FilePath) (front : String) :
    ∃ last, ∀ ending : String, '/' ∉ ending.toList → 2 ≤ ending.length →
      (ofText directory (front ++ ending)).getLast? = some (last ++ ending) := by
  obtain ⟨earlier, last, cut⟩ := Text.exists_segments_append '/' front.toList
  refine ⟨String.ofList last, fun ending absent long => ?_⟩
  obtain ⟨filled, apart⟩ := named_append (String.ofList last) long
  unfold ofText
  simp only [String.toList_append, cut ending.toList absent]
  split
  · simp [filled, apart]
  · simp [filled, apart]

/-- A text without slashes that ends in an ending is itself a name in the directory. -/
theorem ofText_append (directory : FilePath) {front ending : String} (flat : '/' ∉ front.toList)
    (absent : '/' ∉ ending.toList) (long : 2 ≤ ending.length) :
    ofText directory (front ++ ending) = directory ++ [front ++ ending] := by
  obtain ⟨filled, apart⟩ := named_append front long
  have whole : '/' ∉ (front ++ ending).toList := by
    simp [flat, absent]
  have relative : (front ++ ending).startsWith "/" = false := by
    rw [String.startsWith_string_eq_false_iff]
    rintro ⟨rest, same⟩
    exact whole (by rw [← same]; simp)
  unfold ofText
  rw [Text.segments_eq_singleton whole]
  simp [relative, filled, apart]

end FilePath

namespace GraphML.Presets

/-! ## Names and their extension -/

/-- The name ends in the extension itself. -/
def Extended (name : String) : Prop :=
  ∃ front, name = front ++ extension

theorem extension_flat : '/' ∉ extension.toList := by decide

theorem extension_long : 2 ≤ extension.length := by decide

theorem withoutEnding?_extension {text : String} {rest : List Char} :
    Text.withoutEnding? extension.toList text.toList = some rest ↔
      text = String.ofList rest ++ extension := by
  rw [Text.withoutEnding?_eq_some_iff, ← String.toList_inj]
  simp

theorem stem_append_extension (front : String) : stem (front ++ extension) = front := by
  have found : Text.withoutEnding? extension.toList (front ++ extension).toList =
      some front.toList := by
    rw [withoutEnding?_extension, String.ofList_toList]
  rw [stem, found]
  exact String.ofList_toList

theorem stem_of_not_extended {name : String} (plain : ¬Extended name) : stem name = name := by
  unfold stem
  split
  · next rest found => exact absurd ⟨_, withoutEnding?_extension.1 found⟩ plain
  · rfl

theorem stem_eq_self_iff {name : String} : stem name = name ↔ ¬Extended name := by
  refine ⟨?_, stem_of_not_extended⟩
  rintro same ⟨front, rfl⟩
  have lengths := congrArg String.length same
  rw [stem_append_extension, String.length_append] at lengths
  have long := extension_long
  omega

theorem length_stem_le (name : String) : (stem name).length ≤ name.length := by
  by_cases twice : Extended name
  · obtain ⟨front, rfl⟩ := twice
    rw [stem_append_extension, String.length_append]
    omega
  · exact Nat.le_of_eq (by rw [stem_of_not_extended twice])

/-- What is taken off twice is back only when there is nothing to take off. -/
theorem stem_stem_eq_iff {name : String} : stem (stem name) = name ↔ ¬Extended name := by
  constructor
  · intro same
    have first := length_stem_le (stem name)
    have second := length_stem_le name
    rw [same] at first
    intro twice
    obtain ⟨front, rfl⟩ := twice
    rw [stem_append_extension, String.length_append] at first
    have long := extension_long
    omega
  · intro once
    rw [stem_of_not_extended once, stem_of_not_extended once]

theorem flat_stem {name : String} (flat : '/' ∉ name.toList) : '/' ∉ (stem name).toList := by
  by_cases twice : Extended name
  · obtain ⟨front, rfl⟩ := twice
    rw [stem_append_extension]
    simp at flat
    exact flat.1
  · rwa [stem_of_not_extended twice]

theorem eq_append_of_presetOf? {entry name : String} (listed : presetOf? entry = some name) :
    entry = name ++ extension := by
  unfold presetOf? at listed
  split at listed
  · next found =>
    cases listed
    exact withoutEnding?_extension.1 found
  · cases listed

/-! ## Paths -/

variable (presets : Presets)

theorem path_request (name : String) :
    (presets.request name).1.path = presets.pathOf (stem name) := by
  simp [request]

theorem pathOf_of_flat {name : String} (flat : '/' ∉ (stem name).toList) :
    presets.pathOf name = presets.directory ++ [stem name ++ extension] :=
  FilePath.ofText_append presets.directory flat extension_flat extension_long

/-- The path with one extension is another one than the path with two. -/
theorem pathOf_ne_of_extended {name : String} (twice : Extended (stem name)) :
    presets.pathOf (stem name) ≠ presets.pathOf name := by
  obtain ⟨front, same⟩ := twice
  obtain ⟨last, lastName⟩ := FilePath.exists_getLast?_ofText presets.directory front
  intro equal
  have once : (presets.pathOf (stem name)).getLast? = some (last ++ extension) := by
    rw [pathOf, same, stem_append_extension]
    exact lastName extension extension_flat extension_long
  have again : (presets.pathOf name).getLast? = some (last ++ (extension ++ extension)) := by
    rw [pathOf, same, String.append_assoc]
    exact lastName _ (by decide) (by decide)
  rw [equal, again] at once
  have lengths := congrArg String.length (Option.some.inj once)
  simp only [String.length_append] at lengths
  have long := extension_long
  omega

theorem path_request_iff (name : String) :
    (presets.request name).1.path = presets.pathOf name ↔ ¬Extended (stem name) := by
  rw [path_request]
  constructor
  · intro same twice
    exact presets.pathOf_ne_of_extended twice same
  · intro once
    rw [pathOf, pathOf, stem_of_not_extended once]

/-- Every listed name is that of an entry of the directory, less its extension. The paths
for it lead to this entry just when it does not carry the extension once more, and for
all names whatever a request leads where the path leads unless the name carries the
extension twice. -/
theorem paths_of_listed (presets : Presets) :
    (∀ entries, presets.files.entries? presets.directory = some entries →
      (∀ entry ∈ entries, '/' ∉ entry.toList) →
      (∃ names, presets.list? = some names ∧
        ∀ name, name ∈ names ↔ ∃ entry ∈ entries, presetOf? entry = some name) ∧
      ∀ entry ∈ entries, ∀ name, presetOf? entry = some name →
        (presets.pathOf name = presets.directory ++ [entry] ↔ ¬Extended name) ∧
        ((presets.request name).1.path = presets.directory ++ [entry] ↔ ¬Extended name)) ∧
      ∀ name, (presets.request name).1.path = presets.pathOf name ↔ ¬Extended (stem name) := by
  refine ⟨fun entries found flat => ⟨?_, fun entry member name listed => ?_⟩,
    presets.path_request_iff⟩
  · refine ⟨(entries.filterMap presetOf?).mergeSort fun a b => decide (a ≤ b), ?_, fun name => ?_⟩
    · rw [list?, found, Option.map_some]
    · rw [List.mem_mergeSort, List.mem_filterMap]
  · obtain rfl := eq_append_of_presetOf? listed
    have flatName : '/' ∉ name.toList := fun inside =>
      flat _ member (by rw [String.toList_append]; exact List.mem_append_left _ inside)
    have apart {first : String} :
        presets.directory ++ [first ++ extension] = presets.directory ++ [name ++ extension] ↔
          first = name := by
      simp
    rw [path_request, pathOf_of_flat _ (flat_stem flatName),
      pathOf_of_flat _ (flat_stem (flat_stem flatName)), apart, apart]
    exact ⟨stem_eq_self_iff, stem_stem_eq_iff⟩

/-- Two presets, the file of one of which repeats the extension. -/
def repeated : Presets where
  files := { files := [(["graphml", "ring.graphml"], ""), (["graphml", "star.graphml.graphml"], "")] }
  directory := ["graphml"]
  generation := 0

theorem entries?_repeated :
    repeated.files.entries? repeated.directory =
      some ["ring.graphml", "star.graphml.graphml"] := by
  decide +kernel

theorem list?_repeated : repeated.list? = some ["ring", "star.graphml"] := by
  have names : ["ring.graphml", "star.graphml.graphml"].filterMap presetOf? =
      ["ring", "star.graphml"] := by decide +kernel
  rw [list?, entries?_repeated, Option.map_some, names]
  exact congrArg some (List.mergeSort_of_pairwise (by decide +kernel))

theorem paths_of_listed_repeated :
    repeated.list? = some ["ring", "star.graphml"] ∧
      repeated.pathOf "ring" = ["graphml", "ring.graphml"] ∧
      repeated.pathOf "star.graphml" ≠ ["graphml", "star.graphml.graphml"] := by
  obtain ⟨listing, -⟩ := paths_of_listed repeated
  obtain ⟨-, paths⟩ := listing _ entries?_repeated (by decide +kernel)
  have ring := paths "ring.graphml" (by decide) "ring" (by decide +kernel)
  have star := paths "star.graphml.graphml" (by decide) "star.graphml" (by decide +kernel)
  refine ⟨list?_repeated, ring.1.2 ?_, fun found => star.1.1 found ⟨"star", by decide⟩⟩
  exact stem_eq_self_iff.1 (by decide +kernel)

/-- A listed preset is looked for, and requested, where another one would be, and a
request for the name of its file does not lead to the file. -/
theorem paths_of_listed_not_found :
    repeated.list? = some ["ring", "star.graphml"] ∧
      repeated.pathOf "star.graphml" = ["graphml", "star.graphml"] ∧
      (repeated.request "star.graphml").1.path = ["graphml", "star.graphml"] ∧
      repeated.pathOf "star.graphml.graphml" = ["graphml", "star.graphml.graphml"] ∧
      (repeated.request "star.graphml.graphml").1.path = ["graphml", "star.graphml"] := by
  refine ⟨list?_repeated, ?_⟩
  decide +kernel

end GraphML.Presets

end PeerNet
