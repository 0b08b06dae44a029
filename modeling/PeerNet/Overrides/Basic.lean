import PeerNet.Text.Blank
import PeerNet.Text.Split

/-!
# Setting overrides

A node may override settings of its host's configuration file. The overrides
are a finite map from setting names to values, kept in name order, so that
equal maps are equal values. Their flat form joins `name=value` entries by
commas; reading it back skips entries without a name or an equals sign, and of
two entries with one name the later wins.
-/

set_option autoImplicit false

namespace PeerNet

structure Overrides where
  entries : List (String × String)
  sorted : entries.Pairwise (fun before behind => before.1 < behind.1)
  deriving DecidableEq

namespace Overrides

def insertEntry (name value : String) : List (String × String) → List (String × String)
  | [] => [(name, value)]
  | entry :: rest =>
    if name < entry.1 then (name, value) :: entry :: rest
    else if name = entry.1 then (name, value) :: rest
    else entry :: insertEntry name value rest

theorem mem_insertEntry {name value : String} {entries : List (String × String)}
    {entry : String × String} (member : entry ∈ insertEntry name value entries) :
    entry = (name, value) ∨ entry ∈ entries := by
  induction entries with
  | nil => simpa [insertEntry] using member
  | cons first rest ih =>
    simp only [insertEntry] at member
    split at member
    · simpa using member
    · split at member
      · rcases List.mem_cons.1 member with same | later
        · exact .inl same
        · exact .inr (List.mem_cons_of_mem _ later)
      · rcases List.mem_cons.1 member with same | later
        · exact .inr (same ▸ List.mem_cons_self)
        · exact (ih later).imp id (List.mem_cons_of_mem _)

theorem sorted_insertEntry {name value : String} {entries : List (String × String)}
    (sorted : entries.Pairwise (fun before behind => before.1 < behind.1)) :
    (insertEntry name value entries).Pairwise (fun before behind => before.1 < behind.1) := by
  induction entries with
  | nil => simp [insertEntry]
  | cons first rest ih =>
    obtain ⟨least, sortedRest⟩ := List.pairwise_cons.1 sorted
    simp only [insertEntry]
    split
    · rename_i smaller
      refine List.pairwise_cons.2 ⟨fun entry member => ?_, sorted⟩
      rcases List.mem_cons.1 member with same | later
      · exact same ▸ smaller
      · exact String.lt_trans smaller (least entry later)
    · rename_i notSmaller
      split
      · rename_i same
        exact List.pairwise_cons.2 ⟨fun entry member => same ▸ least entry member, sortedRest⟩
      · rename_i different
        refine List.pairwise_cons.2 ⟨fun entry member => ?_, ih sortedRest⟩
        rcases mem_insertEntry member with same | later
        · rw [same]
          exact Std.lt_of_le_of_ne (String.not_lt.1 notSmaller) (Ne.symm different)
        · exact least entry later

def empty : Overrides := ⟨[], .nil⟩

instance : Inhabited Overrides := ⟨empty⟩

def insert (overrides : Overrides) (name value : String) : Overrides :=
  ⟨insertEntry name value overrides.entries, sorted_insertEntry overrides.sorted⟩

/-- Overrides from a list of settings; a later value for a name replaces an
earlier one. -/
def ofList (settings : List (String × String)) : Overrides :=
  settings.foldl (fun overrides setting => overrides.insert setting.1 setting.2) empty

def get? (overrides : Overrides) (name : String) : Option String :=
  overrides.entries.lookup name

def isEmpty (overrides : Overrides) : Bool :=
  overrides.entries.isEmpty

def entryText (entry : String × String) : List Char :=
  entry.1.toList ++ '=' :: entry.2.toList

def flatten (overrides : Overrides) : String :=
  String.ofList (Text.join ',' (overrides.entries.map entryText))

/-- The setting that one segment of a flat text gives, if any. Blanks around
the name and the value do not count. -/
def entryOf? (segment : List Char) : Option (String × String) :=
  match Text.halves? '=' segment with
  | none => none
  | some (name, value) =>
    let name := Text.trim name
    if name.isEmpty then none
    else some (String.ofList name, String.ofList (Text.trim value))

def unflatten (flat : String) : Overrides :=
  ofList ((Text.segments ',' flat.toList).filterMap entryOf?)

end Overrides

end PeerNet
