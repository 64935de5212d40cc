import Mathlib.Data.List.Sort
import KeyGloss.Proofs.ByteOrder
import KeyGloss.Proofs.Disk.Removal
import KeyGloss.Proofs.KeyMap
import KeyGloss.Proofs.Messages
import KeyGloss.Proofs.Order

/-!
# Locales do not meet

The message files of a directory are put into one map, one after the other. The map so far holds, for each
locale, what its file gives alone (`Holds`); one more file keeps this (`Holds.addFile`), and so do all
(`Holds.foldl_addEntry`). What is loaded is therefore decided by the files that can be loaded
(`Holds.eq_of_loads`), and broken files can be removed without a trace in it (`exists_removed`). This is
not so for an entry that cannot be loaded because it is a directory, and a file whose name is no text
leaves no trace at all (`load_passes_over_entries`).
-/

namespace KeyGloss

/-! ## Files in a directory -/

namespace Path

variable {dir : Path} {name other : Text}

theorem steps_join (dir : Path) (valid : IsEntryName name) :
    (dir.join name).steps = dir.steps ++ [.entry name] := by
  obtain ⟨notEmpty, notHere, notUp, plain⟩ := valid
  obtain ⟨u, opens, spelled, same⟩ := join_eq_append dir plain
  rw [spelled, steps_append opens plain (pieceStep?_eq_entry _ notEmpty notHere notUp), same]

theorem fileName?_join (dir : Path) (valid : IsEntryName name) :
    (dir.join name).fileName? = some name := by
  simp [fileName?, steps_join dir valid]

theorem le_join (dir : Path) (valid : IsEntryName name) (valid' : IsEntryName other)
    (less : Text.le name other = true) : (dir.join name).le (dir.join other) = true := by
  rw [le, steps_join dir valid, steps_join dir valid']
  induction dir.steps with
  | nil => simp [Step.listLe, Step.le, less]
  | cons step steps ih => simpa [Step.listLe] using ih

end Path

/-! ## One file after the other -/

namespace Messages

variable {d d' : Disk} {dir : Path} {entries entries' : List EntryName} {l : Text} {m m' : Messages}

/-- The name of the message file of a locale. -/
def fileName (l : Text) : Text := l ++ ".json"

/-- The name of the message file of one locale comes before that of another. -/
def Before (l l' : Text) : Prop := fileName l < fileName l'

/-- The message file of a locale in a directory. -/
def fileOf (dir : Path) (l : Text) : Path := dir.join (fileName l)

/-- A directory with these entries has a message file for a locale. -/
def HasFile (entries : List EntryName) (l : Text) : Prop := l ≠ [] ∧ .text (fileName l) ∈ entries

/-- What the message file of a locale gives when it is loaded alone. -/
def alone (d : Disk) (dir : Path) (l : Text) : Except MessageFault KeyMap :=
  loadFile d (fileOf dir l) l KeyMap.empty

/-- The locale that an entry of a directory stands for. -/
def localeIn? : EntryName → Option Text
  | .text name =>
    match Path.splitName name with
    | (stem, some last) => if last = extension then some stem else none
    | (_, none) => none
  | .stray _ => none

theorem fileName_inj {l l' : Text} (same : fileName l = fileName l') : l = l' :=
  List.append_cancel_right same

theorem splitName_eq_extension {name : Text} :
    Path.splitName name = (l, some extension) ↔ l ≠ [] ∧ name = fileName l :=
  Path.splitName_eq_some (by decide)

theorem localeIn?_eq_some {entry : EntryName} :
    localeIn? entry = some l ↔ l ≠ [] ∧ entry = .text (fileName l) := by
  cases entry with
  | stray name => simp [localeIn?]
  | text name =>
    rw [EntryName.text.injEq, ← splitName_eq_extension, localeIn?]
    split
    · next stem last split =>
      rw [split]
      simp [and_comm]
    · next stem split => simp [split]

/-- The locales with a message file, in the order of the entries. -/
def filed (entries : List EntryName) : List Text := entries.filterMap localeIn?

theorem mem_filed : l ∈ filed entries ↔ HasFile entries l := by
  unfold filed HasFile
  rw [List.mem_filterMap]
  constructor
  · rintro ⟨entry, member, stands⟩
    obtain ⟨front, rfl⟩ := localeIn?_eq_some.mp stands
    exact ⟨front, member⟩
  · rintro ⟨front, member⟩
    exact ⟨_, member, localeIn?_eq_some.mpr ⟨front, rfl⟩⟩

/-- A message file has a text for a name, which tells its locale, or its name is none. -/
theorem isMessageFile_iff {entry : EntryName} :
    isMessageFile entry = true ↔ (∃ l, localeIn? entry = some l) ∨
      ∃ name, entry = .stray name ∧
        (Text.bytes ('.' :: extension)).isSuffixOf name.bytes = true := by
  cases entry with
  | stray name => simp [isMessageFile, localeIn?]
  | text name =>
    simp only [isMessageFile, localeIn?, reduceCtorEq, false_and, exists_false, or_false]
    obtain ⟨stem, _ | last⟩ := Path.splitName name
    · simp
    · simp

theorem loadFile_cases (d : Disk) (path : Path) (l : Text) :
    (∃ fault, ∀ keys, loadFile d path l keys = .error fault) ∨
      ∃ value, ∀ keys, loadFile d path l keys = .ok (insertAll keys l value) := by
  unfold loadFile
  cases d.readText path with
  | error fault => exact .inl ⟨.unreadable path fault, fun _ => rfl⟩
  | ok content =>
    cases parsed : Json.parse content with
    | error e => exact .inl ⟨.malformed path e, fun _ => by simp only [parsed]⟩
    | ok value => exact .inr ⟨value, fun _ => by simp only [parsed]⟩

/-- What a file that is not loaded is warned about with. -/
def warning? (d : Disk) (dir : Path) (l : Text) : Option (Path × Text) :=
  match alone d dir l with
  | .ok _ => none
  | .error fault => some (fileOf dir l, fault.message)

/-- The messages so far are those of some locales, each with what its file gives alone. -/
structure Holds (d : Disk) (dir : Path) (locales : List Text) (m : Messages) : Prop where
  message_iff : ∀ key l t, m.keys.message? key l = some t ↔
    l ∈ locales ∧ ∃ keys, alone d dir l = .ok keys ∧ keys.message? key l = some t
  locales_eq : m.locales = locales.filter fun l => (alone d dir l).toBool
  warnings_eq : m.warnings = locales.filterMap (warning? d dir)

theorem holds_nil (d : Disk) (dir : Path) : Holds d dir [] {} where
  message_iff key l t := by simp [KeyMap.message?, KeyMap.get?, KeyMap.empty, Dictionary.get?]
  locales_eq := rfl
  warnings_eq := rfl

/-- One more file. -/
theorem Holds.addFile {locales : List Text} {entry : EntryName} (holds : Holds d dir locales m)
    (new : l ∉ locales) (located : located? dir entry = some (fileOf dir l, l)) :
    Holds d dir (locales ++ [l]) (addEntry d dir m entry) := by
  unfold addEntry
  simp only [located]
  rcases loadFile_cases d (fileOf dir l) l with ⟨fault, failed⟩ | ⟨value, loaded⟩
  · have single : alone d dir l = .error fault := failed _
    rw [failed]
    refine ⟨fun key other t => ?_, ?_, ?_⟩
    · rw [holds.message_iff, List.mem_append, List.mem_singleton]
      constructor
      · exact fun ⟨member, found⟩ => ⟨.inl member, found⟩
      · rintro ⟨member | rfl, keys, loaded, found⟩
        · exact ⟨member, keys, loaded, found⟩
        · cases single.symm.trans loaded
    · simp [holds.locales_eq, single, Except.toBool]
    · simp [holds.warnings_eq, single, warning?]
  · have single : alone d dir l = .ok (insertAll KeyMap.empty l value) := loaded _
    rw [loaded]
    refine ⟨fun key other t => ?_, ?_, ?_⟩
    · rw [List.mem_append, List.mem_singleton]
      by_cases here : other = l
      · subst here
        -- The map had no message of this locale, so it is as if the file were the first.
        have fresh (key : Text) : m.keys.message? key other = KeyMap.empty.message? key other := by
          refine Option.eq_none_iff_forall_ne_some.mpr fun t found => ?_
          exact new ((holds.message_iff key other t).mp found).1
        have alike : (insertAll m.keys other value).message? key other =
            (insertAll KeyMap.empty other value).message? key other :=
          KeyMap.message?_foldl_congr _ fresh key
        simp [alike, single]
      · have untouched : (insertAll m.keys l value).message? key other = m.keys.message? key other :=
          KeyMap.message?_foldl_of_not_mem _ _ fun same => absurd same here
        simp only [untouched, holds.message_iff, here, or_false]
    · simp [holds.locales_eq, single, Except.toBool]
    · simp [holds.warnings_eq, single, warning?]

theorem located?_fileName (dir : Path) (front : l ≠ []) (valid : IsEntryName (fileName l)) :
    located? dir (.text (fileName l)) = some (fileOf dir l, l) := by
  rw [located?, localeOf?, Path.fileStem?, Path.fileName?_join dir valid, Option.map_some,
    splitName_eq_extension.mpr ⟨front, rfl⟩]
  rfl

/-- All files. -/
theorem Holds.foldl_addEntry {locales : List Text} (entries : List EntryName)
    (holds : Holds d dir locales m) (files : ∀ entry ∈ entries, isMessageFile entry = true)
    (distinct : (locales ++ filed entries).Nodup)
    (valid : ∀ l ∈ filed entries, IsEntryName (fileName l)) :
    Holds d dir (locales ++ filed entries) (entries.foldl (addEntry d dir) m) := by
  induction entries generalizing locales m with
  | nil => simpa [filed] using holds
  | cons entry entries ih =>
    obtain ⟨first, later⟩ := List.forall_mem_cons.mp files
    rw [List.foldl_cons]
    rcases isMessageFile_iff.mp first with ⟨l, stands⟩ | ⟨name, rfl, -⟩
    · have here : filed (entry :: entries) = l :: filed entries := List.filterMap_cons_some stands
      rw [here] at distinct valid ⊢
      obtain ⟨named, valid⟩ := List.forall_mem_cons.mp valid
      obtain ⟨front, rfl⟩ := localeIn?_eq_some.mp stands
      have new : l ∉ locales := by
        intro member
        exact (List.nodup_append.mp distinct).2.2 l member l List.mem_cons_self rfl
      rw [List.append_cons] at distinct ⊢
      exact ih (holds.addFile new (located?_fileName dir front named)) later distinct valid
    · exact ih holds later distinct valid

/-! ## The files of a directory -/

theorem sorts_entryLe : Sorts entryLe where
  trans a b c first second := by
    simp only [entryLe, decide_eq_true_eq] at first second ⊢
    exact List.le_trans first second
  total a b := by
    simp only [entryLe, Bool.or_eq_true, decide_eq_true_eq]
    exact List.le_total _ _

/-- Sorting the message files keeps the locales of a directory in order. -/
theorem filed_messageFiles
    (increasing : (filed entries).Pairwise Before) :
    filed (messageFiles entries) = filed entries := by
  have perm : (filed (messageFiles entries)).Perm (filed entries) := by
    refine ((List.mergeSort_perm _ _).filterMap _).trans (.of_eq ?_)
    rw [List.filterMap_filter]
    refine List.filterMap_congr fun entry _ => ?_
    cases stands : localeIn? entry with
    | none => simp
    | some l => rw [if_pos (isMessageFile_iff.mpr (.inl ⟨l, stands⟩))]
  have sorted : (filed (messageFiles entries)).Pairwise
      fun l l' => (fileName l).bytes ≤ (fileName l').bytes := by
    have ordered := List.pairwise_mergeSort sorts_entryLe.trans sorts_entryLe.total
      (entries.filter isMessageFile)
    refine List.pairwise_filterMap.mpr (ordered.imp fun less l stands l' stands' => ?_)
    obtain ⟨-, rfl⟩ := localeIn?_eq_some.mp stands
    obtain ⟨-, rfl⟩ := localeIn?_eq_some.mp stands'
    exact of_decide_eq_true less
  refine perm.eq_of_pairwise (fun l l' _ _ less greater => ?_) sorted
    (increasing.imp fun less => List.le_of_lt (Text.bytes_lt_bytes less))
  exact fileName_inj (List.le_antisymm (mt Text.bytes_lt_bytes less) (mt Text.bytes_lt_bytes greater))

/-- The message files of a directory are in the order of their names, each of which is one piece of a
path. -/
theorem filed_spec (wf : d.WellFormed) (listed : d.names dir = .ok entries) :
    ((filed entries).Pairwise Before) ∧
      ∀ l ∈ filed entries, IsEntryName (fileName l) := by
  obtain ⟨base, children, found, -, rfl⟩ := Disk.names_eq_ok.mp listed
  obtain ⟨increasing, valid⟩ := wf.keys_spec found
  have texts : filed (d.entryNames base children) =
      (Dictionary.keys children).filterMap fun name => localeIn? (.text name) := by
    have strays : ((d.strays.filter (·.1 = base)).map fun stray =>
        EntryName.stray stray.2).filterMap localeIn? = [] := by
      simp [List.filterMap_map, localeIn?, Function.comp_def]
    rw [filed, Disk.entryNames, List.filterMap_append, strays, List.append_nil, List.filterMap_map]
    rfl
  rw [texts]
  constructor
  · refine List.pairwise_filterMap.mpr (increasing.imp fun less l stands l' stands' => ?_)
    obtain ⟨-, equal⟩ := localeIn?_eq_some.mp stands
    obtain ⟨-, equal'⟩ := localeIn?_eq_some.mp stands'
    rwa [Before, ← EntryName.text.inj equal, ← EntryName.text.inj equal']
  · intro l member
    obtain ⟨name, inside, stands⟩ := List.mem_filterMap.mp member
    obtain ⟨-, equal⟩ := localeIn?_eq_some.mp stands
    rw [← EntryName.text.inj equal]
    exact valid name inside

theorem nodup_filed (increasing : (filed entries).Pairwise Before) :
    (filed entries).Nodup := by
  refine increasing.imp ?_
  rintro l _ less rfl
  exact List.lt_irrefl _ less

theorem exists_holds_load (wf : d.WellFormed) (listed : d.names dir = .ok entries) :
    ∃ m, load d dir = .ok m ∧ Holds d dir (filed entries) m := by
  obtain ⟨increasing, valid⟩ := filed_spec wf listed
  obtain ⟨base, children, found, -⟩ := Disk.names_eq_ok.mp listed
  refine ⟨(messageFiles entries).foldl (addEntry d dir) {}, ?_, ?_⟩
  · simp [load, Disk.contains_of_find found, Disk.isDirectory, Disk.node, found, listed]
  · have same := filed_messageFiles increasing
    have holds := (holds_nil d dir).foldl_addEntry (messageFiles entries)
      (fun entry member => (List.mem_filter.mp (List.mem_mergeSort.mp member)).2)
      (by rw [same]; exact nodup_filed increasing) (by rwa [same])
    rwa [same] at holds

theorem fileOf_inj {l' : Text} (valid : IsEntryName (fileName l)) (valid' : IsEntryName (fileName l'))
    (same : fileOf dir l = fileOf dir l') : l = l' := by
  have steps := congrArg Path.steps same
  rw [fileOf, fileOf, Path.steps_join dir valid, Path.steps_join dir valid'] at steps
  exact fileName_inj (by simpa using steps)

theorem pairwise_fileOf {locales : List Text} (dir : Path)
    (increasing : (filed entries).Pairwise Before)
    (valid : ∀ l ∈ filed entries, IsEntryName (fileName l)) (part : locales.Sublist (filed entries)) :
    (locales.map (fileOf dir)).Pairwise fun p q => p.le q = true := by
  refine List.pairwise_map.mpr ((increasing.sublist part).imp_of_mem ?_)
  intro l l' member member' less
  exact Path.le_join dir (valid l (part.subset member)) (valid l' (part.subset member'))
    (Text.le_of_lt less)

theorem map_fst_warnings (d : Disk) (dir : Path) (locales : List Text) :
    (locales.filterMap (warning? d dir)).map (·.1) =
      (locales.filter fun l => !(alone d dir l).toBool).map (fileOf dir) := by
  induction locales with
  | nil => rfl
  | cons l locales ih =>
    cases single : alone d dir l with
    | ok keys => simpa [warning?, single, Except.toBool] using ih
    | error fault => simpa [warning?, single, Except.toBool] using ih

/-- The message file of a locale is there and gives this map. -/
def Loads (d : Disk) (dir : Path) (entries : List EntryName) (l : Text) (keys : KeyMap) : Prop :=
  HasFile entries l ∧ alone d dir l = .ok keys

/-- The message file of a locale is there and cannot be loaded. -/
def Fails (d : Disk) (dir : Path) (entries : List EntryName) (l : Text) (fault : MessageFault) : Prop :=
  HasFile entries l ∧ alone d dir l = .error fault

theorem Holds.message?_eq_some (holds : Holds d dir (filed entries) m) (key l t : Text) :
    m.keys.message? key l = some t ↔ ∃ keys, Loads d dir entries l keys ∧ keys.message? key l = some t := by
  rw [holds.message_iff, mem_filed]
  simp only [Loads, and_assoc, exists_and_left]

theorem Holds.mem_locales (holds : Holds d dir (filed entries) m) (l : Text) :
    l ∈ m.locales ↔ ∃ keys, Loads d dir entries l keys := by
  rw [holds.locales_eq, List.mem_filter, mem_filed]
  cases single : alone d dir l <;> simp [Loads, single, Except.toBool]

theorem Holds.mem_warnings (holds : Holds d dir (filed entries) m) (warning : Path × Text) :
    warning ∈ m.warnings ↔
      ∃ l fault, Fails d dir entries l fault ∧ warning = (fileOf dir l, fault.message) := by
  rw [holds.warnings_eq, List.mem_filterMap]
  constructor
  · rintro ⟨l, member, warned⟩
    unfold warning? at warned
    split at warned
    · cases warned
    · next fault failed =>
      exact ⟨l, fault, ⟨mem_filed.mp member, failed⟩, (Option.some.inj warned).symm⟩
  · rintro ⟨l, fault, ⟨there, failed⟩, rfl⟩
    exact ⟨l, mem_filed.mpr there, by simp [warning?, failed]⟩

theorem Holds.mem_warned (holds : Holds d dir (filed entries) m) (path : Path) :
    path ∈ m.warnings.map (·.1) ↔
      ∃ l, HasFile entries l ∧ (∀ keys, ¬Loads d dir entries l keys) ∧ path = fileOf dir l := by
  rw [holds.warnings_eq, map_fst_warnings, List.mem_map]
  refine exists_congr fun l => ?_
  rw [List.mem_filter, mem_filed, eq_comm (a := path), and_assoc]
  refine and_congr_right fun there => and_congr_left' ?_
  cases single : alone d dir l <;> simp [Loads, there, single, Except.toBool]

/-- Each file is accounted for once. -/
theorem Holds.nodup_files (holds : Holds d dir (filed entries) m)
    (increasing : (filed entries).Pairwise Before)
    (valid : ∀ l ∈ filed entries, IsEntryName (fileName l)) :
    (m.locales.map (fileOf dir) ++ m.warnings.map (·.1)).Nodup := by
  rw [holds.locales_eq, holds.warnings_eq, map_fst_warnings, ← List.map_append]
  refine ((List.filter_append_perm _ _).map _).nodup_iff.mpr ?_
  refine List.Nodup.map_on ?_ (nodup_filed increasing)
  intro l member l' member' same
  exact fileOf_inj (valid l member) (valid l' member') same

/-- Directories whose files give the same maps are loaded alike, whatever other files they have. -/
theorem Holds.eq_of_loads (holds : Holds d dir (filed entries) m)
    (holds' : Holds d' dir (filed entries') m')
    (increasing : (filed entries).Pairwise Before)
    (increasing' : (filed entries').Pairwise Before)
    (same : ∀ l keys, Loads d' dir entries' l keys ↔ Loads d dir entries l keys) :
    m'.keys = m.keys ∧ m'.locales = m.locales := by
  constructor
  · refine KeyMap.ext_message? fun key l => Option.ext fun t => ?_
    rw [holds'.message?_eq_some, holds.message?_eq_some]
    simp only [same]
  · have antisymm : Std.Antisymm Before :=
      ⟨fun _ _ less greater => absurd (List.lt_trans less greater) (List.lt_irrefl _)⟩
    have irrefl : Std.Irrefl Before := ⟨fun _ => List.lt_irrefl _⟩
    have sorted : m.locales.Pairwise Before := by
      rw [holds.locales_eq]
      exact increasing.sublist List.filter_sublist
    have sorted' : m'.locales.Pairwise Before := by
      rw [holds'.locales_eq]
      exact increasing'.sublist List.filter_sublist
    refine sorted'.eq_of_mem_iff sorted fun l => ?_
    rw [holds'.mem_locales, holds.mem_locales]
    simp only [same]

/-! ## Files that are removed -/

theorem alone_eq_ok {keys : KeyMap} : alone d dir l = .ok keys ↔
    ∃ bytes t value, d.readBytes (fileOf dir l) = .ok bytes ∧ Disk.textOf bytes = .ok t ∧
      Json.parse t = .ok value ∧ keys = insertAll KeyMap.empty l value := by
  unfold alone loadFile Disk.readText
  cases d.readBytes (fileOf dir l) with
  | error fault => simp [Bind.bind, Except.bind]
  | ok bytes =>
    cases read : Disk.textOf bytes with
    | error fault => simp [Bind.bind, Except.bind, read]
    | ok t =>
      cases parsed : Json.parse t with
      | error e => simp [Bind.bind, Except.bind, read, parsed]
      | ok value => simp [Bind.bind, Except.bind, read, parsed, eq_comm]

/-- The message file of a locale is a file that cannot be loaded. -/
def Broken (d : Disk) (dir : Path) (entries : List EntryName) (l : Text) : Prop :=
  (∃ fault, Fails d dir entries l fault) ∧
    ∃ place content, d.find false (fileOf dir l) = .ok (place, some (.file content))

theorem hasFile_filter {other : Text} :
    HasFile (entries.filter (· != .text (fileName l))) other ↔ HasFile entries other ∧ other ≠ l := by
  have named : fileName other = fileName l ↔ other = l := ⟨fileName_inj, congrArg fileName⟩
  simp [HasFile, and_assoc, named]

/-- A broken file is removed. -/
theorem Broken.remove (wf : d.WellFormed) (listed : d.names dir = .ok entries)
    (broken : Broken d dir entries l) :
    ∃ d' entries', d.remove (fileOf dir l) = .ok d' ∧ d'.WellFormed ∧ d'.names dir = .ok entries' ∧
      (∀ other, HasFile entries' other ↔ HasFile entries other ∧ other ≠ l) ∧
      (∀ other keys, Loads d' dir entries' other keys ↔ Loads d dir entries other keys) ∧
      ∀ other, other ≠ l → Broken d dir entries other → Broken d' dir entries' other := by
  obtain ⟨⟨fault, there, failed⟩, gone, old, file⟩ := broken
  obtain ⟨base, children, found, -⟩ := Disk.names_eq_ok.mp listed
  have valid {l : Text} (there : HasFile entries l) : IsEntryName (fileName l) :=
    (filed_spec wf listed).2 l (mem_filed.mpr there)
  obtain ⟨d', removed, wf', lacks, listed'⟩ := wf.remove_entry listed (valid there) file
  have unread {bytes : ByteArray} {t : Text} {value : Json} (text : Disk.textOf bytes = .ok t)
      (parsed : Json.parse t = .ok value) : gone ∈ d.closed ∨ bytes ≠ old := by
    by_contra both
    obtain ⟨open_, rfl⟩ : gone ∉ d.closed ∧ bytes = old := by simpa [not_or] using both
    have read := Disk.readBytes_eq_ok.mpr ⟨gone, Disk.find_follow file, open_⟩
    cases failed.symm.trans (alone_eq_ok.mpr ⟨bytes, t, value, read, text, parsed, rfl⟩)
  have loads_iff (other : Text) (keys : KeyMap) :
      Loads d' dir (entries.filter (· != .text (fileName l))) other keys ↔
        Loads d dir entries other keys := by
    unfold Loads
    rw [hasFile_filter, alone_eq_ok, alone_eq_ok]
    constructor
    · rintro ⟨⟨has, -⟩, bytes, t, value, read, loaded⟩
      exact ⟨has, bytes, t, value, lacks.readBytes_of_ok read, loaded⟩
    · rintro ⟨has, bytes, t, value, read, text, parsed, equal⟩
      refine ⟨⟨has, ?_⟩, bytes, t, value, lacks.readBytes_ok read (unread text parsed), text, parsed,
        equal⟩
      rintro rfl
      cases failed.symm.trans (alone_eq_ok.mpr ⟨bytes, t, value, read, text, parsed, rfl⟩)
  refine ⟨d', _, removed, wf', listed', fun other => hasFile_filter, loads_iff, ?_⟩
  rintro other different ⟨⟨otherFault, has, otherFailed⟩, place, content, otherFile⟩
  have has' := hasFile_filter.mpr ⟨has, different⟩
  refine ⟨?_, place, content, ?_⟩
  · cases result : alone d' dir other with
    | ok keys =>
      have before := ((loads_iff other keys).mp ⟨has', result⟩).2
      cases otherFailed.symm.trans before
    | error fault => exact ⟨fault, has', result⟩
  · -- The two files stand at different places of the directory.
    have apart : place ≠ gone := by
      rw [Disk.place_of_find_join found (valid has) otherFile,
        Disk.place_of_find_join found (valid there) file]
      exact fun same => different (fileName_inj (by simpa using same))
    have seen := Node.at?_eq_file.mp (Disk.at?_of_find otherFile)
    have same : d'.look place = d.look place := by rw [lacks.look, if_neg apart]
    have after := Disk.find_of_keepsWays lacks.keepsWays lacks.current otherFile same
    rwa [Node.at?_eq_file.mpr (same.trans seen)] at after

/-- Any number of broken files are removed. -/
theorem exists_removed {broken : List Text} (wf : d.WellFormed) (listed : d.names dir = .ok entries)
    (distinct : broken.Nodup) (all : ∀ l ∈ broken, Broken d dir entries l) :
    ∃ d' entries', (broken.map (fileOf dir)).foldlM Disk.remove d = .ok d' ∧ d'.WellFormed ∧
      d'.names dir = .ok entries' ∧
      (∀ other, HasFile entries' other ↔ HasFile entries other ∧ other ∉ broken) ∧
      ∀ other keys, Loads d' dir entries' other keys ↔ Loads d dir entries other keys := by
  induction broken generalizing d entries with
  | nil => exact ⟨d, entries, rfl, wf, listed, by simp, fun _ _ => Iff.rfl⟩
  | cons l broken ih =>
    obtain ⟨new, distinct⟩ := List.nodup_cons.mp distinct
    obtain ⟨first, later⟩ := List.forall_mem_cons.mp all
    obtain ⟨d₁, entries₁, removed, wf₁, listed₁, has₁, loads₁, broken₁⟩ := first.remove wf listed
    obtain ⟨d', entries', rest, wf', listed', has', loads'⟩ := ih wf₁ listed₁ distinct
      fun other member => broken₁ other (fun same => new (same ▸ member)) (later other member)
    refine ⟨d', entries', ?_, wf', listed', fun other => ?_, fun other keys => ?_⟩
    · rw [List.map_cons, List.foldlM_cons, removed]
      exact rest
    · rw [has', has₁, List.mem_cons, not_or, and_assoc]
    · rw [loads', loads₁]

/-- Locales do not meet. A directory that can be listed is loaded. Its map has the messages of each locale
that the message file of the locale gives alone, and no key without a message. Every message file whose name
is a text is listed once, as a locale or with a warning, each in the order of paths. A directory with the same
files that can be loaded, and any others that cannot, gives the same map and the same locales; in particular,
broken files can be removed, and no warning is left for those and for no others. -/
theorem load_isolates_locales (d : Disk) (dir : Path) (entries : List EntryName) (wf : d.WellFormed)
    (listed : d.names dir = .ok entries) :
    ∃ m, load d dir = .ok m ∧
      (∀ key l t, m.keys.message? key l = some t ↔
        ∃ keys, Loads d dir entries l keys ∧ keys.message? key l = some t) ∧
      (∀ key ∈ m.keys.keys, ∃ l t, m.keys.message? key l = some t) ∧
      (∀ l, l ∈ m.locales ↔ ∃ keys, Loads d dir entries l keys) ∧
      (∀ warning, warning ∈ m.warnings ↔
        ∃ l fault, Fails d dir entries l fault ∧ warning = (fileOf dir l, fault.message)) ∧
      (m.locales.map (fileOf dir) ++ m.warnings.map (·.1)).Nodup ∧
      ((m.locales.map (fileOf dir)).Pairwise fun p q => p.le q = true) ∧
      ((m.warnings.map (·.1)).Pairwise fun p q => p.le q = true) ∧
      (∀ d' entries', d'.WellFormed → d'.names dir = .ok entries' →
        (∀ l keys, Loads d' dir entries' l keys ↔ Loads d dir entries l keys) →
        ∃ m', load d' dir = .ok m' ∧ m'.keys = m.keys ∧ m'.locales = m.locales) ∧
      ∀ broken : List Text, broken.Nodup → (∀ l ∈ broken, Broken d dir entries l) →
        ∃ d' m', (broken.map (fileOf dir)).foldlM Disk.remove d = .ok d' ∧ load d' dir = .ok m' ∧
          m'.keys = m.keys ∧ m'.locales = m.locales ∧
          ∀ path, path ∈ m'.warnings.map (·.1) ↔
            path ∈ m.warnings.map (·.1) ∧ path ∉ broken.map (fileOf dir) := by
  obtain ⟨increasing, valid⟩ := filed_spec wf listed
  obtain ⟨m, loaded, holds⟩ := exists_holds_load wf listed
  refine ⟨m, loaded, holds.message?_eq_some, fun key member => KeyMap.exists_message member,
    holds.mem_locales, holds.mem_warnings, holds.nodup_files increasing valid, ?_, ?_, ?_, ?_⟩
  · rw [holds.locales_eq]
    exact pairwise_fileOf dir increasing valid List.filter_sublist
  · rw [holds.warnings_eq, map_fst_warnings]
    exact pairwise_fileOf dir increasing valid List.filter_sublist
  · intro d' entries' wf' listed' same
    obtain ⟨m', loaded', holds'⟩ := exists_holds_load wf' listed'
    exact ⟨m', loaded', holds.eq_of_loads holds' increasing (filed_spec wf' listed').1 same⟩
  · intro broken distinct all
    obtain ⟨d', entries', removed, wf', listed', has, same⟩ := exists_removed wf listed distinct all
    obtain ⟨m', loaded', holds'⟩ := exists_holds_load wf' listed'
    obtain ⟨keys, locales⟩ := holds.eq_of_loads holds' increasing (filed_spec wf' listed').1 same
    refine ⟨d', m', removed, loaded', keys, locales, fun path => ?_⟩
    rw [holds'.mem_warned, holds.mem_warned]
    simp only [has, same]
    constructor
    · rintro ⟨l, ⟨there, kept⟩, unloaded, rfl⟩
      refine ⟨⟨l, there, unloaded, rfl⟩, fun member => ?_⟩
      obtain ⟨other, gone, equal⟩ := List.mem_map.mp member
      obtain ⟨⟨fault, otherThere, -⟩, -⟩ := all other gone
      exact kept (fileOf_inj (valid other (mem_filed.mpr otherThere)) (valid l (mem_filed.mpr there))
        equal ▸ gone)
    · rintro ⟨⟨l, there, unloaded, rfl⟩, kept⟩
      exact ⟨l, ⟨there, fun gone => kept (List.mem_map_of_mem gone)⟩, unloaded, rfl⟩

/-! ## Directories that are written out -/

/-- Loading a message file, from what its path leads to. -/
theorem alone_of_find {found : Except DiskFault (Place × Option Node)}
    (leads : d.find true (fileOf dir l) = found) :
    alone d dir l =
      match found >>= d.bytesOf >>= Disk.textOf with
      | .error fault => .error (.unreadable (fileOf dir l) fault)
      | .ok content =>
        match Json.parse content with
        | .error e => .error (.malformed (fileOf dir l) e)
        | .ok value => .ok (insertAll KeyMap.empty l value) := by
  subst leads
  rfl

theorem loads_of_toOption {keys : KeyMap} (there : HasFile entries l)
    (loaded : (alone d dir l).toOption = some keys) : Loads d dir entries l keys := by
  refine ⟨there, ?_⟩
  cases result : alone d dir l with
  | error fault =>
    rw [result] at loaded
    cases loaded
  | ok other =>
    rw [result] at loaded
    exact congrArg Except.ok (Option.some.inj loaded)

section Mixed

/-- The name of a message file that is no text. -/
def strayFile : StrayName := ⟨[255, 46, 106, 115, 111, 110], by decide +kernel⟩

/-- Two message files that use the same key, one of them twice, a broken one between them, and a file that is
none. -/
def mixedFiles : List (Text × ByteArray) :=
  [("en.json", Text.encode "\x7b\"a\":\x7b\"b\":\"x\"\x7d,\"a.b\":\"y\"\x7d"),
    ("no.json", Text.encode "\x7b"), ("sv.json", Text.encode "\x7b\"a.b\":\"z\"\x7d"),
    ("t.txt", Text.encode "\x7b")]

def mixedDisk : Disk :=
  { tree := .directory [("m", .directory (mixedFiles.map fun file => (file.1, .file file.2)))]
    strays := [(["m"], strayFile)] }

/-- The entries of the directory, with one whose name is no text. -/
def mixedEntries : List EntryName :=
  [.text "en.json", .text "no.json", .text "sv.json", .text "t.txt", .stray strayFile]

theorem mixedDisk_wellFormed : mixedDisk.WellFormed := by decide +kernel

theorem names_mixed : mixedDisk.names "/m" = .ok mixedEntries := by
  have leads : mixedDisk.find true "/m" = .ok (["m"], _) := Disk.find_of_placeOf (by decide +kernel)
  rw [Disk.names, leads]
  decide +kernel

theorem broken_mixed : Broken mixedDisk "/m" mixedEntries "no" := by
  have leads : mixedDisk.find true (fileOf "/m" "no") = .ok (["m", "no.json"], _) :=
    Disk.find_of_placeOf (by decide +kernel)
  have failed : (alone mixedDisk "/m" "no").toBool = false := by
    rw [alone_of_find leads]
    decide +kernel
  refine ⟨?_, ["m", "no.json"], Text.encode "\x7b", Disk.find_of_placeOf (by decide +kernel)⟩
  cases result : alone mixedDisk "/m" "no" with
  | ok keys =>
    rw [result] at failed
    cases failed
  | error fault => exact ⟨fault, ⟨by decide, by decide⟩, result⟩

end Mixed

/-- A key in two locales, with a broken file that is removed. -/
theorem load_isolates_locales_mixed :
    mixedDisk.WellFormed ∧ mixedDisk.names "/m" = .ok mixedEntries ∧
    Broken mixedDisk "/m" mixedEntries "no" ∧
    ∃ m d' m', load mixedDisk "/m" = .ok m ∧
      m.keys.message? "a.b" "en" = some "y" ∧ m.keys.message? "a.b" "sv" = some "z" ∧
      (fileOf "/m" "no" ∈ m.warnings.map (·.1)) ∧
      mixedDisk.remove (fileOf "/m" "no") = .ok d' ∧ load d' "/m" = .ok m' ∧
      m'.keys = m.keys ∧ m'.locales = m.locales ∧ fileOf "/m" "no" ∉ m'.warnings.map (·.1) := by
  obtain ⟨m, loaded, messages, -, -, warnings, -, -, -, -, removal⟩ := load_isolates_locales mixedDisk "/m"
    mixedEntries mixedDisk_wellFormed names_mixed
  obtain ⟨d', m', removed, loaded', keys, locales, left⟩ := removal ["no"] (by simp)
    (by simpa using broken_mixed)
  obtain ⟨fault, failed⟩ := broken_mixed.1
  have leads : mixedDisk.find true (fileOf "/m" "en") = .ok (["m", "en.json"], _) :=
    Disk.find_of_placeOf (by decide +kernel)
  have leads' : mixedDisk.find true (fileOf "/m" "sv") = .ok (["m", "sv.json"], _) :=
    Disk.find_of_placeOf (by decide +kernel)
  have first : Loads mixedDisk "/m" mixedEntries "en" (KeyMap.ofTriples [("a.b", "en", "y")]) :=
    loads_of_toOption ⟨by decide, by decide⟩ (by rw [alone_of_find leads]; decide +kernel)
  have last : Loads mixedDisk "/m" mixedEntries "sv" (KeyMap.ofTriples [("a.b", "sv", "z")]) :=
    loads_of_toOption ⟨by decide, by decide⟩ (by rw [alone_of_find leads']; decide +kernel)
  refine ⟨mixedDisk_wellFormed, names_mixed, broken_mixed, m, d', m', loaded,
    (messages _ _ _).mpr ⟨_, first, by decide⟩, (messages _ _ _).mpr ⟨_, last, by decide⟩, ?_, ?_, loaded',
    keys, locales, ?_⟩
  · exact List.mem_map.mpr ⟨_, (warnings _).mpr ⟨"no", fault, failed, rfl⟩, rfl⟩
  · simpa using removed
  · exact fun member => ((left _).mp member).2 (by simp)

section Unlisted

/-- A directory with a message file whose name is no text. -/
def strayDisk : Disk :=
  { tree := .directory [("m", .directory [])]
    strays := [(["m"], strayFile)] }

/-- A directory that is named like a message file, and a message file that is a link into it. -/
def linkedDisk : Disk :=
  { tree := .directory [("m", .directory
      [("a.json", .directory [("real", .file (Text.encode "\x7b\"k\":\"v\"\x7d"))]),
       ("b.json", .link "a.json/real")])] }

/-- The link alone. -/
def unlinkedDisk : Disk :=
  { tree := .directory [("m", .directory [("b.json", .link "a.json/real")])] }

/-- Not every message file is accounted for, and not every entry that is warned about can be removed. A
message file whose name is no text is neither a locale nor warned about. A directory that is named like a
message file is warned about, but the message file of a locale can be a link into it. -/
theorem load_passes_over_entries :
    (strayDisk.names "/m" = .ok [.stray strayFile] ∧ isMessageFile (.stray strayFile) = true ∧
      ∃ m, load strayDisk "/m" = .ok m ∧ m.locales = [] ∧ m.warnings = []) ∧
    ∃ m m', load linkedDisk "/m" = .ok m ∧ fileOf "/m" "a" ∈ m.warnings.map (·.1) ∧
      ("b" : Text) ∈ m.locales ∧ linkedDisk.remove (fileOf "/m" "a") = .ok unlinkedDisk ∧
      load unlinkedDisk "/m" = .ok m' ∧ ("b" : Text) ∉ m'.locales := by
  constructor
  · have leads : strayDisk.find true "/m" = .ok (["m"], _) := Disk.find_of_placeOf (by decide +kernel)
    have listed : strayDisk.names "/m" = .ok [.stray strayFile] := by
      rw [Disk.names, leads]
      decide +kernel
    obtain ⟨m, loaded, holds⟩ := exists_holds_load (by decide +kernel) listed
    exact ⟨listed, by decide +kernel, m, loaded, holds.locales_eq, holds.warnings_eq⟩
  · have leads : linkedDisk.find true "/m" = .ok (["m"], _) := Disk.find_of_placeOf (by decide +kernel)
    have listed : linkedDisk.names "/m" = .ok [.text "a.json", .text "b.json"] := by
      rw [Disk.names, leads]
      decide +kernel
    have leads' : unlinkedDisk.find true "/m" = .ok (["m"], _) := Disk.find_of_placeOf (by decide +kernel)
    have listed' : unlinkedDisk.names "/m" = .ok [.text "b.json"] := by
      rw [Disk.names, leads']
      decide +kernel
    obtain ⟨m, loaded, holds⟩ := exists_holds_load (by decide +kernel) listed
    obtain ⟨m', loaded', holds'⟩ := exists_holds_load (by decide +kernel) listed'
    have folder : linkedDisk.find true (fileOf "/m" "a") = .ok (["m", "a.json"], _) :=
      Disk.find_of_placeOf (by decide +kernel)
    have first : (alone linkedDisk "/m" "a").toBool = false := by
      rw [alone_of_find folder]
      decide +kernel
    have target : linkedDisk.find true (fileOf "/m" "b") = .ok (["m", "a.json", "real"], _) :=
      Disk.find_of_placeOf (by decide +kernel)
    have second : (alone linkedDisk "/m" "b").toBool = true := by
      rw [alone_of_find target]
      decide +kernel
    have second' : (alone unlinkedDisk "/m" "b").toBool = false := by
      have lost : unlinkedDisk.find true (fileOf "/m" "b") = .error .notFound := by
        rw [Disk.find_eq_placeOf (by decide +kernel)]
        rfl
      rw [alone_of_find lost]
      rfl
    have removed : linkedDisk.remove (fileOf "/m" "a") = .ok unlinkedDisk := by
      have named : linkedDisk.find false (fileOf "/m" "a") = .ok (["m", "a.json"], _) :=
        Disk.find_of_placeOf (by decide +kernel)
      rw [Disk.remove, named]
      rfl
    refine ⟨m, m', loaded, ?_, ?_, removed, loaded', ?_⟩
    · rw [holds.warnings_eq, map_fst_warnings]
      exact List.mem_map_of_mem (List.mem_filter.mpr ⟨by decide, by rw [first]; rfl⟩)
    · rw [holds.locales_eq]
      exact List.mem_filter.mpr ⟨by decide, second⟩
    · rw [holds'.locales_eq, List.mem_filter, second']
      simp

end Unlisted

end Messages

end KeyGloss
