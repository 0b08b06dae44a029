import PeerNet.Proofs.Overrides.Grammar

/-!
# Entries in their sections

The section in force below some lines is that of the nearest header among them, and a file maps
a key to the value of the last entry that has the key in its section. So lines that are neither
headers nor entries can be put in anywhere, and the second of two texts overrides the first.
-/

set_option autoImplicit false

namespace PeerNet.Overrides

/-! ## The last value of a name -/

private theorem lookup_cons {name key value : String} {rest : List (String × String)} :
    ((key, value) :: rest).lookup name = if name = key then some value else rest.lookup name := by
  by_cases same : name = key
  · simp [same]
  · simp [List.lookup_cons, beq_false_of_ne same, same]

theorem get?_insert (overrides : Overrides) (name value other : String) :
    (overrides.insert name value).get? other =
      if other = name then some value else overrides.get? other := by
  have inserted (entries : List (String × String)) :
      (insertEntry name value entries).lookup other =
        if other = name then some value else entries.lookup other := by
    induction entries with
    | nil => exact lookup_cons
    | cons entry rest ih =>
      obtain ⟨key, old⟩ := entry
      rw [insertEntry]
      split
      · exact lookup_cons
      · split
        · next replaced =>
          obtain rfl : name = key := replaced
          by_cases same : other = name <;> simp [lookup_cons, same]
        · next different =>
          by_cases same : other = name <;> simp_all [lookup_cons]
  exact inserted overrides.entries

theorem get?_foldl_insert (settings : List (String × String)) (built : Overrides)
    (name : String) :
    (settings.foldl (fun overrides setting =>
        overrides.insert setting.1 setting.2) built).get? name =
      (settings.reverse.lookup name).or (built.get? name) := by
  induction settings generalizing built with
  | nil => rfl
  | cons setting rest ih =>
    obtain ⟨key, value⟩ := setting
    rw [List.foldl_cons, ih, get?_insert, List.reverse_cons, List.lookup_append, lookup_cons]
    by_cases same : name = key <;> simp [same]

theorem get?_ofList_eq_some_iff {settings : List (String × String)} {name value : String} :
    (ofList settings).get? name = some value ↔
      ∃ front back, settings = front ++ (name, value) :: back ∧
        ∀ setting ∈ back, setting.1 ≠ name := by
  have last : (ofList settings).get? name = settings.reverse.lookup name :=
    (get?_foldl_insert settings empty name).trans Option.or_none
  rw [last, List.lookup_eq_some_iff]
  constructor
  · rintro ⟨back, front, turned, other⟩
    refine ⟨front.reverse, back.reverse, by simpa using congrArg List.reverse turned, ?_⟩
    intro setting member same
    simpa [same] using other setting (List.mem_reverse.1 member)
  · rintro ⟨front, back, rfl, other⟩
    refine ⟨back.reverse, front.reverse, by simp, ?_⟩
    intro setting member
    simpa using Ne.symm (other setting (List.mem_reverse.1 member))

/-! ## Lines and their settings -/

/-- The section in force below some lines, above which `outer?` is: that of the nearest header
among the lines, if there is one. -/
inductive InForce (outer? : Option String) : List (List Char) → Option String → Prop where
  | outer {lines : List (List Char)}
      (noHeader : ∀ line ∈ lines, ∀ name, ¬ConfLine.IsHeader line name) :
      InForce outer? lines outer?
  | header {above below : List (List Char)} {line name : List Char}
      (header : ConfLine.IsHeader line name)
      (nearest : ∀ later ∈ below, ∀ name, ¬ConfLine.IsHeader later name) :
      InForce outer? (above ++ line :: below) (some (String.ofList (Text.trim name)))

/-- An entry below some lines, and its setting in the section in force there. -/
inductive EntryBelow (outer? : Option String) (above : List (List Char)) (line : List Char) :
    FiledSetting → Prop where
  | mk {opened? : Option String} {before behind : List Char}
      (inForce : InForce outer? above opened?) (entry : ConfLine.IsEntry line before behind) :
      EntryBelow outer? above line
        ⟨opened?, String.ofList (Text.trim before), String.ofList (Text.trim behind)⟩

/-- True of a key and the value of the last entry that has the key. -/
def LastEntry (outer? : Option String) (lines : List (List Char)) (key value : String) : Prop :=
  ∃ above line below setting, lines = above ++ line :: below ∧
    EntryBelow outer? above line setting ∧ setting.key = key ∧ setting.value = value ∧
    ∀ between later rest other, below = between ++ later :: rest →
      EntryBelow outer? (above ++ line :: between) later other → other.key ≠ key

/-- The section that is open behind some lines. -/
def openedBehind (outer? : Option String) : List ConfLine → Option String
  | [] => outer?
  | .header title :: rest => openedBehind (some title) rest
  | .nothing :: rest | .setting _ _ :: rest => openedBehind outer? rest

theorem openedBehind_append (outer? : Option String) (above below : List ConfLine) :
    openedBehind outer? (above ++ below) = openedBehind (openedBehind outer? above) below := by
  induction above generalizing outer? with
  | nil => rfl
  | cons line rest ih => cases line <;> exact ih _

theorem filedFrom_append (outer? : Option String) (above below : List ConfLine) :
    filedFrom outer? (above ++ below) =
      filedFrom outer? above ++ filedFrom (openedBehind outer? above) below := by
  induction above generalizing outer? with
  | nil => rfl
  | cons line rest ih =>
    cases line with
    | nothing | header _ => exact ih _
    | setting name value => exact congrArg (_ :: ·) (ih outer?)

theorem openedBehind_of_noHeader {outer? : Option String} {lines : List (List Char)}
    (noHeader : ∀ line ∈ lines, ∀ name, ¬ConfLine.IsHeader line name) :
    openedBehind outer? (lines.map .ofText) = outer? := by
  induction lines with
  | nil => rfl
  | cons line rest ih =>
    obtain ⟨first, later⟩ := List.forall_mem_cons.1 noHeader
    rw [List.map_cons]
    cases read : ConfLine.ofText line with
    | nothing | setting _ _ => exact ih later
    | header title =>
      obtain ⟨name, header, _⟩ := ConfLine.ofText_eq_header_iff.1 read
      exact absurd header (first name)

theorem inForce_openedBehind (outer? : Option String) (lines : List (List Char)) :
    InForce outer? lines (openedBehind outer? (lines.map .ofText)) := by
  induction lines generalizing outer? with
  | nil => exact .outer (by simp)
  | cons line rest ih =>
    -- What the first line opens is in force behind it unless a later header is nearer.
    have behind (title? : Option String)
        (opens : (∀ later ∈ rest, ∀ name, ¬ConfLine.IsHeader later name) →
          InForce outer? (line :: rest) title?) :
        InForce outer? (line :: rest) (openedBehind title? (rest.map .ofText)) := by
      have later := ih title?
      generalize openedBehind title? (rest.map .ofText) = opened? at later ⊢
      cases later with
      | outer noHeader => exact opens noHeader
      | header header nearest => exact @InForce.header outer? (line :: _) _ _ _ header nearest
    rw [List.map_cons]
    cases read : ConfLine.ofText line with
    | nothing | setting _ _ =>
      refine behind outer? fun noHeader =>
        .outer (List.forall_mem_cons.2 ⟨fun name header => ?_, noHeader⟩)
      simp [ConfLine.ofText_eq_header_iff.2 ⟨name, header, rfl⟩] at read
    | header title =>
      obtain ⟨name, header, rfl⟩ := ConfLine.ofText_eq_header_iff.1 read
      exact behind _ fun noHeader => @InForce.header outer? [] rest line name header noHeader

theorem inForce_iff {outer? opened? : Option String} {lines : List (List Char)} :
    InForce outer? lines opened? ↔ opened? = openedBehind outer? (lines.map .ofText) := by
  constructor
  · intro inForce
    cases inForce with
    | outer noHeader => exact (openedBehind_of_noHeader noHeader).symm
    | header header nearest =>
      have read := ConfLine.ofText_eq_header_iff.2 ⟨_, header, rfl⟩
      rw [List.map_append, List.map_cons, read, openedBehind_append, openedBehind,
        openedBehind_of_noHeader nearest]
  · rintro rfl
    exact inForce_openedBehind outer? lines

theorem entryBelow_iff {outer? : Option String} {above : List (List Char)} {line : List Char}
    {setting : FiledSetting} :
    EntryBelow outer? above line setting ↔
      ConfLine.ofText line = .setting setting.name setting.value ∧
        setting.opened? = openedBehind outer? (above.map .ofText) := by
  constructor
  · rintro ⟨inForce, entry⟩
    exact ⟨ConfLine.ofText_eq_setting_iff.2 ⟨_, _, entry, rfl, rfl⟩, inForce_iff.1 inForce⟩
  · rintro ⟨read, opened⟩
    obtain ⟨before, behind, entry, name, value⟩ := ConfLine.ofText_eq_setting_iff.1 read
    obtain ⟨opened?, _, _⟩ := setting
    subst name value
    exact .mk (inForce_iff.2 opened) entry

/-- Each setting of a file has its line, and the lines above and below it have the settings
before and behind it. -/
theorem filedFrom_eq_append_cons_iff {outer? : Option String} {lines : List (List Char)}
    {front back : List FiledSetting} {setting : FiledSetting} :
    filedFrom outer? (lines.map .ofText) = front ++ setting :: back ↔
      ∃ above line below, lines = above ++ line :: below ∧ EntryBelow outer? above line setting ∧
        filedFrom outer? (above.map .ofText) = front ∧
        filedFrom (openedBehind outer? (above.map .ofText)) (below.map .ofText) = back := by
  constructor
  · intro filed
    induction lines generalizing outer? front with
    | nil => simp [filedFrom] at filed
    | cons line rest ih =>
      rw [List.map_cons] at filed
      cases read : ConfLine.ofText line with
      | nothing | header _ =>
        rw [read] at filed
        obtain ⟨above, later, below, rfl, entry, rfl, rfl⟩ := ih filed
        obtain ⟨laterRead, opened⟩ := entryBelow_iff.1 entry
        refine ⟨line :: above, later, below, rfl, entryBelow_iff.2 ⟨laterRead, ?_⟩, ?_, ?_⟩ <;>
          simp [read, filedFrom, openedBehind, opened]
      | setting name value =>
        rw [read] at filed
        cases front with
        | nil =>
          obtain ⟨rfl, rfl⟩ := List.cons.inj filed
          exact ⟨[], line, rest, rfl, entryBelow_iff.2 ⟨read, rfl⟩, rfl, rfl⟩
        | cons first front =>
          obtain ⟨rfl, filedRest⟩ := List.cons.inj filed
          obtain ⟨above, later, below, rfl, entry, rfl, rfl⟩ := ih filedRest
          obtain ⟨laterRead, opened⟩ := entryBelow_iff.1 entry
          refine ⟨line :: above, later, below, rfl, entryBelow_iff.2 ⟨laterRead, ?_⟩, ?_, ?_⟩ <;>
            simp [read, filedFrom, openedBehind, opened]
  · rintro ⟨above, line, below, rfl, entry, rfl, rfl⟩
    obtain ⟨read, opened⟩ := entryBelow_iff.1 entry
    rw [List.map_append, List.map_cons, filedFrom_append, read, filedFrom, ← opened]

theorem mem_filedFrom_iff {outer? : Option String} {lines : List (List Char)}
    {setting : FiledSetting} :
    setting ∈ filedFrom outer? (lines.map .ofText) ↔
      ∃ above line below, lines = above ++ line :: below ∧
        EntryBelow outer? above line setting := by
  constructor
  · intro member
    obtain ⟨front, back, filed⟩ := List.append_of_mem member
    obtain ⟨above, line, below, whole, entry, _⟩ := filedFrom_eq_append_cons_iff.1 filed
    exact ⟨above, line, below, whole, entry⟩
  · rintro ⟨above, line, below, whole, entry⟩
    simp [filedFrom_eq_append_cons_iff.2 ⟨above, line, below, whole, entry, rfl, rfl⟩]

/-- The settings below an entry are in force as the lines above it and the entry have it. -/
theorem mem_filedFrom_behind_iff {outer? : Option String} {above below : List (List Char)}
    {line : List Char} {setting other : FiledSetting} (entry : EntryBelow outer? above line setting) :
    other ∈ filedFrom (openedBehind outer? (above.map .ofText)) (below.map .ofText) ↔
      ∃ between later rest, below = between ++ later :: rest ∧
        EntryBelow outer? (above ++ line :: between) later other := by
  obtain ⟨read, -⟩ := entryBelow_iff.1 entry
  simp only [mem_filedFrom_iff, entryBelow_iff, List.map_append, List.map_cons, read,
    openedBehind_append, openedBehind]

/-- The last setting with a key comes from the last entry with it. -/
theorem get?_filed_eq_some_iff {outer? : Option String} {lines : List (List Char)}
    {key value : String} :
    (ofList ((filedFrom outer? (lines.map .ofText)).map FiledSetting.entry)).get? key =
        some value ↔ LastEntry outer? lines key value := by
  rw [get?_ofList_eq_some_iff]
  constructor
  · rintro ⟨front, back, listed, others⟩
    obtain ⟨filedFront, filedRest, filed, rfl, rest⟩ := List.map_eq_append_iff.1 listed
    obtain ⟨setting, filedBack, rfl, same, rfl⟩ := List.map_eq_cons_iff.1 rest
    obtain ⟨above, line, below, rfl, entry, -, rfl⟩ := filedFrom_eq_append_cons_iff.1 filed
    cases same
    refine ⟨above, line, below, setting, rfl, entry, rfl, rfl, ?_⟩
    intro between later rest other split nearer
    have member := (mem_filedFrom_behind_iff entry).2 ⟨between, later, rest, split, nearer⟩
    exact others other.entry (List.mem_map_of_mem member)
  · rintro ⟨above, line, below, setting, whole, entry, rfl, rfl, last⟩
    have filed := filedFrom_eq_append_cons_iff.2 ⟨above, line, below, whole, entry, rfl, rfl⟩
    refine ⟨_, _, by rw [filed, List.map_append, List.map_cons]; rfl, ?_⟩
    intro listed member
    obtain ⟨other, behind, rfl⟩ := List.mem_map.1 member
    obtain ⟨between, later, rest, split, nearer⟩ := (mem_filedFrom_behind_iff entry).1 behind
    exact last between later rest other split nearer

/-! ## Texts -/

/-- What is known behind a text, of which `reading` is known in front of it. -/
def readFrom (reading : ConfReading) (text : List Char) : ConfReading :=
  (Text.lines text).foldl (fun reading line => reading.line (.ofText line)) reading

/-- What a text sets, read in a section. -/
def readIn (outer? : Option String) (text : String) : Overrides :=
  (readFrom ⟨outer?, empty⟩ text.toList).overrides

theorem get?_readIn_eq_some_iff {outer? : Option String} {text key value : String} :
    (readIn outer? text).get? key = some value ↔
      LastEntry outer? (Text.lines text.toList) key value := by
  rw [← get?_filed_eq_some_iff, readIn, readFrom, ← List.foldl_map, overrides_foldl_line]
  rfl

theorem opened?_foldl_line (reading : ConfReading) (lines : List ConfLine) :
    (lines.foldl ConfReading.line reading).opened? = openedBehind reading.opened? lines := by
  induction lines generalizing reading with
  | nil => rfl
  | cons line rest ih => cases line <;> exact ih _

theorem get?_readFrom (reading : ConfReading) (text : String) (key : String) :
    (readFrom reading text.toList).overrides.get? key =
      ((readIn reading.opened? text).get? key).or (reading.overrides.get? key) := by
  simp only [readIn, readFrom, ← List.foldl_map (f := ConfLine.ofText), overrides_foldl_line,
    get?_foldl_insert]
  simp [get?, empty]

/-- It is enough to cut a text at its line feeds. -/
theorem readFrom_eq_foldl_segments (reading : ConfReading) (text : List Char) :
    readFrom reading text = (Text.segments '\n' text).foldl
      (fun reading line => reading.line (.ofText line)) reading := by
  have cut (pieces : List (List Char)) (reading : ConfReading) :
      (Text.linesOf pieces).foldl (fun reading line => reading.line (.ofText line)) reading =
        pieces.foldl (fun reading line => reading.line (.ofText line)) reading := by
    induction pieces generalizing reading with
    | nil => rfl
    | cons line others ih =>
      cases others with
      | nil =>
        rw [Text.linesOf]
        split
        · next empty =>
          rw [List.isEmpty_iff.1 empty]
          rfl
        · rfl
      | cons next others =>
        have first : Text.linesOf (line :: next :: others) =
            Text.withoutReturn line :: Text.linesOf (next :: others) := rfl
        rw [first, List.foldl_cons, ConfLine.ofText_withoutReturn, ih, ← List.foldl_cons]
  exact cut _ reading

theorem readFrom_append_cons (reading : ConfReading) (first second : List Char) :
    readFrom reading (first ++ '\n' :: second) = readFrom (readFrom reading first) second := by
  simp only [readFrom_eq_foldl_segments, Text.segments_append_cons, List.foldl_append]

theorem readFrom_join (reading : ConfReading) (lines : List (List Char)) :
    readFrom reading (Text.join '\n' lines) = lines.foldl readFrom reading := by
  induction lines generalizing reading with
  | nil => rfl
  | cons line others ih =>
    cases others with
    | nil => rfl
    | cons next others =>
      have joined : Text.join '\n' (line :: next :: others) =
          line ++ '\n' :: Text.join '\n' (next :: others) := rfl
      rw [joined, readFrom_append_cons, ih, ← List.foldl_cons]

theorem readFrom_of_idle {line : List Char} (whole : '\n' ∉ line) (idle : ConfLine.Idle line)
    (reading : ConfReading) : readFrom reading line = reading := by
  rw [readFrom_eq_foldl_segments, Text.segments_eq_singleton whole, List.foldl_cons,
    ConfLine.ofText_of_idle idle]
  rfl

/-- The text of some lines. -/
def unlined (lines : List (List Char)) : String :=
  String.ofList (Text.join '\n' lines)

/-- A file maps a key to the value of the last entry with that key. So lines that say nothing
can be put in anywhere, and of two texts the second overrides the first, read in the section
that is in force at the end of the first. -/
theorem parseConf_last_entries :
    (∀ text key value : String, (parseConf text).get? key = some value ↔
        LastEntry none (Text.lines text.toList) key value) ∧
      (∀ above added below : List (List Char),
        (∀ line ∈ added, '\n' ∉ line ∧ ConfLine.Idle line) →
          parseConf (unlined (above ++ added ++ below)) = parseConf (unlined (above ++ below))) ∧
      ∀ first second : String, ∃ opened?,
        InForce none (Text.lines first.toList) opened? ∧
          (∀ key value, (readIn opened? second).get? key = some value ↔
            LastEntry opened? (Text.lines second.toList) key value) ∧
          ∀ key, (parseConf (first ++ "\n" ++ second)).get? key =
            ((readIn opened? second).get? key).or ((parseConf first).get? key) := by
  refine ⟨fun text key value => get?_readIn_eq_some_iff, fun above added below silent => ?_,
    fun first second => ?_⟩
  · have skipped (reading : ConfReading) : added.foldl readFrom reading = reading := by
      induction added with
      | nil => rfl
      | cons line rest ih =>
        obtain ⟨⟨whole, idle⟩, later⟩ := List.forall_mem_cons.1 silent
        rw [List.foldl_cons, readFrom_of_idle whole idle, ih later]
    have read (lines : List (List Char)) :
        parseConf (unlined lines) = (lines.foldl readFrom ⟨none, empty⟩).overrides := by
      rw [← readFrom_join, parseConf, unlined, String.toList_ofList, readFrom]
    rw [read, read, List.foldl_append, List.foldl_append, List.foldl_append, skipped]
  · refine ⟨openedBehind none ((Text.lines first.toList).map .ofText),
      inForce_openedBehind none _, fun key value => get?_readIn_eq_some_iff, fun key => ?_⟩
    have joined : (first ++ "\n" ++ second).toList = first.toList ++ '\n' :: second.toList := by
      simp
    have opened : (readFrom ⟨none, empty⟩ first.toList).opened? =
        openedBehind none ((Text.lines first.toList).map .ofText) := by
      rw [readFrom, ← List.foldl_map, opened?_foldl_line]
    have behind : parseConf (first ++ "\n" ++ second) =
        (readFrom (readFrom ⟨none, empty⟩ first.toList) second.toList).overrides := by
      rw [← readFrom_append_cons, ← joined]
      rfl
    rw [behind, get?_readFrom, opened]
    rfl

theorem parseConf_last_entries_commented :
    let above := ["[ main ]\r".toList]
    let added := ["\t ".toList, "# rpcport=2".toList, "no setting".toList]
    let below := ["rpcport = 18443 ".toList]
    (∀ line ∈ added, '\n' ∉ line ∧ ConfLine.Idle line) ∧
      parseConf (unlined (above ++ added ++ below)) = parseConf (unlined (above ++ below)) ∧
      (parseConf (unlined (above ++ added ++ below))).get? "main.rpcport" = some "18443" := by
  intro above added below
  have noHeader (name : List Char) : ¬ConfLine.IsHeader "no setting".toList name := by
    have other : ConfLine.headerName? (Text.trim "no setting".toList) = none := by decide
    rw [ConfLine.isHeader_iff, other]
    nofun
  have noEntry (before behind : List Char) :
      ¬ConfLine.IsEntry "no setting".toList before behind := by
    intro entry
    have sign : '=' ∈ "no setting".toList := entry.cut ▸ by simp
    exact absurd sign (by decide)
  have silent : ∀ line ∈ added, '\n' ∉ line ∧ ConfLine.Idle line := by
    simp only [added, List.forall_mem_cons]
    exact ⟨⟨by decide, .blank (List.all_eq_true.1 (by decide))⟩,
      ⟨by decide, .comment (ConfLine.isComment_iff.2 (by decide))⟩,
      ⟨by decide, .other noHeader noEntry⟩, by simp⟩
  exact ⟨silent, parseConf_last_entries.2.1 above added below silent, by decide +kernel⟩

end PeerNet.Overrides
