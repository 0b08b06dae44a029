import PeerNet.Overrides.Conf
import PeerNet.Proofs.Overrides.Canonical

/-!
# Configuration files in flat form

The settings of a configuration file, each with the section that it stands in, are the settings
that the file is read as. Their names and values are tight, and a name holds no comma and no
equals sign that the header of its section does not hold. So a file is read back from its flat
form unless a value holds a comma or a setting stands in a section whose name holds one of the
two signs.
-/

set_option autoImplicit false

namespace PeerNet.Overrides

/-! ## Names in a list of settings -/

theorem mem_names_insertEntry {name value other : String} {entries : List (String × String)} :
    other ∈ (insertEntry name value entries).map (·.1) ↔
      other = name ∨ other ∈ entries.map (·.1) := by
  induction entries with
  | nil => simp [insertEntry]
  | cons entry rest ih =>
    simp only [insertEntry]
    split
    · simp
    · split
      · next same => simp [same]
      · simp only [List.map_cons, List.mem_cons, ih]
        exact or_left_comm

/-- A later value replaces an earlier one, but no name is lost. -/
theorem mem_names_ofList {settings : List (String × String)} {name : String} :
    name ∈ (ofList settings).entries.map (·.1) ↔ name ∈ settings.map (·.1) := by
  have grown (built : Overrides) :
      name ∈ (settings.foldl (fun overrides setting =>
          overrides.insert setting.1 setting.2) built).entries.map (·.1) ↔
        name ∈ built.entries.map (·.1) ∨ name ∈ settings.map (·.1) := by
    induction settings generalizing built with
    | nil => simp
    | cons setting rest ih =>
      have inserted : name ∈ (built.insert setting.1 setting.2).entries.map (·.1) ↔
          name = setting.1 ∨ name ∈ built.entries.map (·.1) := mem_names_insertEntry
      rw [List.foldl_cons, ih, inserted, List.map_cons, List.mem_cons]
      exact or_assoc.trans or_left_comm
  exact (grown empty).trans (or_iff_right List.not_mem_nil)

/-! ## Lines -/

namespace ConfLine

private theorem toNat_between {low high c : Char}
    (above : low.val ≤ c.val) (below : c.val ≤ high.val) :
    low.toNat ≤ c.toNat ∧ c.toNat ≤ high.toNat :=
  ⟨UInt32.le_iff_toNat_le.1 above, UInt32.le_iff_toNat_le.1 below⟩

theorem toNat_of_isNameChar {c : Char} (inName : isNameChar c = true) :
    33 ≤ c.toNat ∧ c.toNat ≤ 126 := by
  simp only [isNameChar, Char.isAlphanum, Bool.or_eq_true, beq_iff_eq] at inName
  rcases inName with (((letter | digit) | rfl) | rfl) | rfl
  · rcases Bool.or_eq_true_iff.1 letter with upper | lower
    · obtain ⟨above, below⟩ := of_decide_eq_true upper
      have between : 65 ≤ c.toNat ∧ c.toNat ≤ 90 := toNat_between above below
      omega
    · obtain ⟨above, below⟩ := Bool.and_eq_true_iff.1 lower
      have between : 97 ≤ c.toNat ∧ c.toNat ≤ 122 :=
        toNat_between (of_decide_eq_true above) (of_decide_eq_true below)
      omega
  · obtain ⟨above, below⟩ := Bool.and_eq_true_iff.1 digit
    have between : 48 ≤ c.toNat ∧ c.toNat ≤ 57 :=
      toNat_between (of_decide_eq_true above) (of_decide_eq_true below)
    omega
  · decide
  · decide
  · decide

theorem isBlank_of_isNameChar {c : Char} (inName : isNameChar c = true) :
    Text.isBlank c = false := by
  have bounds := toNat_of_isNameChar inName
  simp only [Text.isBlank, Bool.or_eq_false_iff, Bool.and_eq_false_iff,
    decide_eq_false_iff_not, beq_eq_false_iff_ne]
  omega

/-- True of the texts that can name a setting. -/
def IsName (name : List Char) : Prop :=
  name ≠ [] ∧ ∀ c ∈ name, isNameChar c = true

/-- True of the lines that reading gives. -/
def Tidy : ConfLine → Prop
  | .nothing => True
  | .header name => Text.Tight name.toList
  | .setting name value => IsName name.toList ∧ Text.Tight value.toList

theorem named_of_setting? {trimmed name value : List Char}
    (found : setting? trimmed = some (name, value)) : IsName name ∧ Text.Tight value := by
  unfold setting? at found
  split at found
  · cases found
  · next before behind _ =>
    dsimp only at found
    split at found
    · cases found
    · next plain =>
      cases found
      exact ⟨by simpa [IsName] using plain, Text.tight_trim behind⟩

theorem tidy_ofText (line : List Char) : (ofText line).Tidy := by
  unfold ofText
  dsimp only
  split
  · trivial
  · split
    · next name _ => simpa [Tidy] using Text.tight_trim name
    · split
      · next found => simpa [Tidy] using named_of_setting? found
      · trivial

end ConfLine

/-! ## Settings in their sections -/

/-- A setting of a file and the section that is open at its line. -/
structure FiledSetting where
  opened? : Option String
  name : String
  value : String
  deriving DecidableEq

/-- The settings of some lines, in their order and with repetitions. -/
def filedFrom (opened? : Option String) : List ConfLine → List FiledSetting
  | [] => []
  | .nothing :: rest => filedFrom opened? rest
  | .header name :: rest => filedFrom (some name) rest
  | .setting name value :: rest => ⟨opened?, name, value⟩ :: filedFrom opened? rest

def filedSettings (text : String) : List FiledSetting :=
  filedFrom none ((Text.lines text.toList).map .ofText)

namespace FiledSetting

def key (setting : FiledSetting) : String :=
  match setting.opened? with
  | some opened => opened ++ "." ++ setting.name
  | none => setting.name

def entry (setting : FiledSetting) : String × String :=
  (setting.key, setting.value)

/-- True of the settings of a file. -/
structure Tidy (setting : FiledSetting) : Prop where
  tightSection : ∀ opened ∈ setting.opened?, Text.Tight opened.toList
  named : ConfLine.IsName setting.name.toList
  tightValue : Text.Tight setting.value.toList

end FiledSetting

theorem overrides_foldl_line (reading : ConfReading) (lines : List ConfLine) :
    (lines.foldl ConfReading.line reading).overrides =
      ((filedFrom reading.opened? lines).map FiledSetting.entry).foldl
        (fun overrides setting => overrides.insert setting.1 setting.2) reading.overrides := by
  induction lines generalizing reading with
  | nil => rfl
  | cons line rest ih =>
    cases line with
    | nothing => exact ih reading
    | header name => exact ih { reading with opened? := some name }
    | setting name value => exact ih (reading.line (.setting name value))

/-- A file is read as the list of its settings. -/
theorem parseConf_eq_ofList (text : String) :
    parseConf text = ofList ((filedSettings text).map FiledSetting.entry) := by
  unfold parseConf filedSettings
  rw [← List.foldl_map, overrides_foldl_line]
  rfl

example : filedSettings "a=1\n# b\n[ main ]\nc = 2" =
    [⟨none, "a", "1"⟩, ⟨some "main", "c", "2"⟩] := by
  decide +kernel

theorem tidy_of_mem_filedFrom {opened? : Option String} {lines : List ConfLine}
    (tight : ∀ opened ∈ opened?, Text.Tight opened.toList) (tidy : ∀ line ∈ lines, line.Tidy)
    {setting : FiledSetting} (member : setting ∈ filedFrom opened? lines) : setting.Tidy := by
  induction lines generalizing opened? with
  | nil => cases member
  | cons line rest ih =>
    obtain ⟨first, later⟩ := List.forall_mem_cons.1 tidy
    cases line with
    | nothing => exact ih tight later member
    | header name =>
      have opens : ∀ opened ∈ some name, Text.Tight opened.toList := fun _ same =>
        Option.some.inj same ▸ first
      exact ih opens later member
    | setting name value =>
      obtain ⟨named, tightValue⟩ := first
      cases member with
      | head => exact ⟨tight, named, tightValue⟩
      | tail _ behind => exact ih tight later behind

theorem tidy_of_mem_filedSettings {text : String} {setting : FiledSetting}
    (member : setting ∈ filedSettings text) : setting.Tidy := by
  refine tidy_of_mem_filedFrom (by simp) (fun line listed => ?_) member
  obtain ⟨piece, _, rfl⟩ := List.mem_map.1 listed
  exact ConfLine.tidy_ofText piece

namespace FiledSetting

variable {setting : FiledSetting}

theorem Tidy.key_ne_nil (tidy : setting.Tidy) : setting.key.toList ≠ [] := by
  unfold key
  split
  · simp
  · exact tidy.named.1

/-- A key starts as its section does, or with the dot behind an empty one, and ends as its
name does. -/
theorem Tidy.tight_key (tidy : setting.Tidy) : Text.Tight setting.key.toList := by
  obtain ⟨filled, nameChars⟩ := tidy.named
  have unblank : ∀ c ∈ setting.name.toList, Text.isBlank c = false := fun c member =>
    ConfLine.isBlank_of_isNameChar (nameChars c member)
  unfold key
  split
  · next opened inSection =>
    have whole : (opened ++ "." ++ setting.name).toList =
        opened.toList ++ '.' :: setting.name.toList := by simp
    rw [whole]
    constructor
    · cases front : opened.toList with
      | nil => simp [Text.isBlank]
      | cons c rest =>
        have tight := tidy.tightSection opened inSection
        rw [front] at tight
        exact tight.1
    · intro c last
      rw [List.getLast?_append_of_ne_nil _ (List.cons_ne_nil _ _),
        List.getLast?_cons_of_ne_nil filled] at last
      exact unblank c (List.mem_of_getLast? last)
  · exact Text.tight_of_unblank unblank

/-- A sign that names are not made of comes into a key with its section. -/
theorem Tidy.mem_key_iff (tidy : setting.Tidy) {sign : Char}
    (other : ConfLine.isNameChar sign = false) :
    sign ∈ setting.key.toList ↔ ∃ opened ∈ setting.opened?, sign ∈ opened.toList := by
  have absent : sign ∉ setting.name.toList := by
    intro member
    simp [tidy.named.2 sign member] at other
  have notDot : sign ≠ '.' := by
    rintro rfl
    cases other
  unfold key
  split
  · next opened inSection => simp [inSection, absent, notDot]
  · next outside => simp [outside, absent]

theorem Tidy.plain_key_iff (tidy : setting.Tidy) :
    (',' ∉ setting.key.toList ∧ '=' ∉ setting.key.toList) ↔
      ∀ opened ∈ setting.opened?, ',' ∉ opened.toList ∧ '=' ∉ opened.toList := by
  have commas : ',' ∈ setting.key.toList ↔ ∃ opened ∈ setting.opened?, ',' ∈ opened.toList :=
    tidy.mem_key_iff (by decide)
  have equals : '=' ∈ setting.key.toList ↔ ∃ opened ∈ setting.opened?, '=' ∈ opened.toList :=
    tidy.mem_key_iff (by decide)
  simp only [commas, equals, not_exists, not_and, forall_and]

end FiledSetting

/-! ## What is read back -/

/-- A configuration file is read back from its flat form just when no value holds a comma and
no setting stands in a section whose name holds a comma or an equals sign. -/
theorem parseConf_read_back_iff (text : String) :
    unflatten (parseConf text).flatten = parseConf text ↔
      (∀ entry ∈ (parseConf text).entries, ',' ∉ entry.2.toList) ∧
        ∀ setting ∈ filedSettings text, ∀ opened ∈ setting.opened?,
          ',' ∉ opened.toList ∧ '=' ∉ opened.toList := by
  rw [unflatten_flatten_eq_self_iff]
  constructor
  · intro canonical
    refine ⟨fun entry listed => (canonical entry listed).valueSigns, fun setting member => ?_⟩
    have tidy : setting.Tidy := tidy_of_mem_filedSettings member
    -- A later setting may have replaced the value, so only the name is known to be listed.
    have known : setting.key ∈ (parseConf text).entries.map (·.1) := by
      rw [parseConf_eq_ofList, mem_names_ofList, List.map_map]
      exact List.mem_map_of_mem member
    obtain ⟨entry, listed, named⟩ := List.mem_map.1 known
    exact tidy.plain_key_iff.1 (named ▸ (canonical entry listed).nameSigns)
  · rintro ⟨noComma, plain⟩ entry listed
    have filed := listed
    rw [parseConf_eq_ofList] at filed
    obtain ⟨setting, member, rfl⟩ := List.mem_map.1 (mem_ofList filed)
    have tidy : setting.Tidy := tidy_of_mem_filedSettings member
    exact {
      named := tidy.key_ne_nil
      tightName := tidy.tight_key
      tightValue := tidy.tightValue
      nameSigns := tidy.plain_key_iff.2 (plain setting member)
      valueSigns := noComma _ listed }

/-- A comma in the name of a section cuts the keys of its settings in two, and an equals sign
ends them. -/
theorem parseConf_not_read_back :
    let cut := parseConf "[a,b]\nk=1"
    let ended := parseConf "[s=1]\nk=2"
    ((∀ entry ∈ cut.entries, ',' ∉ entry.2.toList) ∧ unflatten cut.flatten ≠ cut) ∧
      (∀ entry ∈ ended.entries, ',' ∉ entry.2.toList) ∧ unflatten ended.flatten ≠ ended := by
  decide +kernel

end PeerNet.Overrides
