import Mathlib.Data.List.Basic
import PeerNet.Overrides.Basic
import PeerNet.Proofs.Text.Blank
import PeerNet.Proofs.Text.Split

/-!
# Canonical overrides

A setting is canonical if its flat text can be told from its surroundings: its
name and value are tight, the name is not empty and holds no equals sign, and
neither holds a comma. Reading a flat text gives canonical settings, and
canonical settings are read back from their flat text.
-/

set_option autoImplicit false

namespace PeerNet.Overrides

structure CanonicalEntry (entry : String × String) : Prop where
  named : entry.1.toList ≠ []
  tightName : Text.Tight entry.1.toList
  tightValue : Text.Tight entry.2.toList
  nameSigns : ',' ∉ entry.1.toList ∧ '=' ∉ entry.1.toList
  valueSigns : ',' ∉ entry.2.toList

def Canonical (overrides : Overrides) : Prop :=
  ∀ entry ∈ overrides.entries, CanonicalEntry entry

theorem canonical_empty : empty.Canonical := by
  intro entry member
  cases member

/-! ## Lists of settings -/

theorem mem_ofList {settings : List (String × String)} {entry : String × String}
    (member : entry ∈ (ofList settings).entries) : entry ∈ settings := by
  have kept (overrides : Overrides) :
      entry ∈ (settings.foldl (fun overrides setting =>
        overrides.insert setting.1 setting.2) overrides).entries →
      entry ∈ overrides.entries ∨ entry ∈ settings := by
    clear member
    induction settings generalizing overrides with
    | nil => exact .inl
    | cons setting rest ih =>
      intro member
      rcases ih _ member with inserted | later
      · rcases mem_insertEntry inserted with rfl | old
        · exact .inr List.mem_cons_self
        · exact .inl old
      · exact .inr (List.mem_cons_of_mem setting later)
  rcases kept empty member with none | listed
  · cases none
  · exact listed

theorem insertEntry_of_greatest {name value : String} {entries : List (String × String)}
    (greatest : ∀ entry ∈ entries, entry.1 < name) :
    insertEntry name value entries = entries ++ [(name, value)] := by
  induction entries with
  | nil => rfl
  | cons first rest ih =>
    obtain ⟨below, later⟩ := List.forall_mem_cons.1 greatest
    have notBefore : ¬ name < first.1 := String.lt_asymm below
    have different : name ≠ first.1 := by
      rintro rfl
      exact String.lt_irrefl _ below
    rw [insertEntry, if_neg notBefore, if_neg different, ih later, List.cons_append]

theorem ext_entries {first second : Overrides} (same : first.entries = second.entries) :
    first = second := by
  cases first
  cases second
  cases same
  rfl

/-- Overrides are the list of their own settings. -/
theorem ofList_entries (overrides : Overrides) : ofList overrides.entries = overrides := by
  have grown (settings : List (String × String)) (built : Overrides)
      (sorted : (built.entries ++ settings).Pairwise
        (fun before behind => before.1 < behind.1)) :
      (settings.foldl (fun overrides setting =>
        overrides.insert setting.1 setting.2) built).entries = built.entries ++ settings := by
    induction settings generalizing built with
    | nil => rw [List.foldl_nil, List.append_nil]
    | cons setting rest ih =>
      have greatest : ∀ entry ∈ built.entries, entry.1 < setting.1 := fun entry member =>
        (List.pairwise_append.1 sorted).2.2 entry member setting List.mem_cons_self
      have inserted : (built.insert setting.1 setting.2).entries = built.entries ++ [setting] :=
        insertEntry_of_greatest greatest
      have whole : built.entries ++ setting :: rest = built.entries ++ [setting] ++ rest := by
        rw [List.append_assoc, List.singleton_append]
      rw [List.foldl_cons, ih _ (by rw [inserted, ← whole]; exact sorted), inserted, ← whole]
  exact ext_entries (grown overrides.entries empty overrides.sorted)

/-! ## Flat texts -/

theorem canonicalEntry_of_entryOf? {segment : List Char} {entry : String × String}
    (whole : ',' ∉ segment) (found : entryOf? segment = some entry) : CanonicalEntry entry := by
  rw [entryOf?] at found
  split at found
  · cases found
  · next name value halves =>
    have split := Text.halves?_eq_append halves
    dsimp only at found
    split at found
    · cases found
    · next filled =>
      cases found
      have inName {c : Char} (member : c ∈ Text.trim name) : c ∈ name :=
        Text.mem_of_mem_trim member
      refine ⟨?_, ?_, ?_, ⟨?_, ?_⟩, ?_⟩
      · simpa using filled
      · simpa using Text.tight_trim name
      · simpa using Text.tight_trim value
      · rw [String.toList_ofList]
        intro member
        exact whole (split ▸ List.mem_append_left _ (inName member))
      · rw [String.toList_ofList]
        intro member
        exact Text.not_mem_of_halves? halves (inName member)
      · rw [String.toList_ofList]
        intro member
        exact whole (split ▸ List.mem_append_right _
          (List.mem_cons_of_mem _ (Text.mem_of_mem_trim member)))

/-- Whatever a flat text holds, it is read as canonical settings. -/
theorem canonical_unflatten (flat : String) : (unflatten flat).Canonical := by
  intro entry member
  obtain ⟨segment, listed, found⟩ := List.mem_filterMap.1 (mem_ofList member)
  exact canonicalEntry_of_entryOf? (Text.not_mem_segments listed) found

theorem mem_of_entryOf? {segment : List Char} {entry : String × String}
    (found : entryOf? segment = some entry) {c : Char}
    (member : c ∈ entry.1.toList ∨ c ∈ entry.2.toList) : c ∈ segment := by
  rw [entryOf?] at found
  split at found
  · cases found
  · next name value halves =>
    dsimp only at found
    split at found
    · cases found
    · cases found
      rw [String.toList_ofList, String.toList_ofList] at member
      rw [Text.halves?_eq_append halves]
      rcases member with name | value
      · exact List.mem_append_left _ (Text.mem_of_mem_trim name)
      · exact List.mem_append_right _ (List.mem_cons_of_mem _ (Text.mem_of_mem_trim value))

/-- The settings of a flat text hold no other characters than the text does. -/
theorem mem_of_mem_unflatten {flat : String} {entry : String × String}
    (listed : entry ∈ (unflatten flat).entries) {c : Char}
    (member : c ∈ entry.1.toList ∨ c ∈ entry.2.toList) : c ∈ flat.toList := by
  obtain ⟨segment, cut, found⟩ := List.mem_filterMap.1 (mem_ofList listed)
  exact Text.mem_of_mem_segments cut (mem_of_entryOf? found member)

theorem entryOf?_entryText {entry : String × String} (canonical : CanonicalEntry entry) :
    entryOf? (entryText entry) = some entry := by
  have filled : entry.1.toList.isEmpty = false := by
    simpa using canonical.named
  rw [entryOf?, entryText, Text.halves?_append canonical.nameSigns.2]
  simp only [Text.trim_eq_self canonical.tightName, Text.trim_eq_self canonical.tightValue,
    filled, Bool.false_eq_true, ↓reduceIte, String.ofList_toList]

theorem comma_not_mem_entryText {entry : String × String} (canonical : CanonicalEntry entry) :
    ',' ∉ entryText entry := by
  intro member
  rcases List.mem_append.1 member with name | rest
  · exact canonical.nameSigns.1 name
  · rcases List.mem_cons.1 rest with sign | value
    · cases sign
    · exact canonical.valueSigns value

/-- Canonical settings in any order are read back from their joined texts. -/
theorem unflatten_join {settings : List (String × String)}
    (canonical : ∀ entry ∈ settings, CanonicalEntry entry) :
    unflatten (String.ofList (Text.join ',' (settings.map entryText))) = ofList settings := by
  cases settings with
  | nil => rfl
  | cons entry others =>
    have whole : ∀ part ∈ (entry :: others).map entryText, ',' ∉ part := by
      intro part member
      obtain ⟨setting, listed, rfl⟩ := List.mem_map.1 member
      exact comma_not_mem_entryText (canonical setting listed)
    have read : ((entry :: others).map entryText).filterMap entryOf? = entry :: others := by
      rw [List.filterMap_map]
      refine (List.filterMap_congr fun setting listed => ?_).trans List.filterMap_some
      exact entryOf?_entryText (canonical setting listed)
    rw [unflatten, String.toList_ofList, Text.segments_join (by simp) whole, read]

theorem unflatten_flatten {overrides : Overrides} (canonical : overrides.Canonical) :
    unflatten overrides.flatten = overrides := by
  rw [flatten, unflatten_join canonical, ofList_entries]

theorem unflatten_flatten_eq_self_iff {overrides : Overrides} :
    unflatten overrides.flatten = overrides ↔ overrides.Canonical := by
  constructor
  · intro same
    exact same ▸ canonical_unflatten overrides.flatten
  · exact unflatten_flatten

/-- Reading gives canonical overrides whatever the text, and the canonical ones are exactly
those that are read back from their flat texts. So what was read once is read again. -/
theorem canonical_read_back :
    (∀ flat : String, (unflatten flat).Canonical) ∧
      (∀ overrides : Overrides,
        unflatten overrides.flatten = overrides ↔ overrides.Canonical) ∧
      ∀ flat : String, unflatten (unflatten flat).flatten = unflatten flat := by
  refine ⟨canonical_unflatten, fun overrides => unflatten_flatten_eq_self_iff, fun flat => ?_⟩
  have canonical : (unflatten flat).Canonical := canonical_unflatten flat
  exact unflatten_flatten_eq_self_iff.2 canonical

end PeerNet.Overrides
