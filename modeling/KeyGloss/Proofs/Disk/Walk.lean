import Mathlib.Data.List.Nodup
import KeyGloss.Proofs.Disk.Place
import KeyGloss.Disk.Files

/-!
# Files found on a walk

A walk lists each file below its start once, under a path that its place decides (`walk_spec`): those to
which it can go down through directories that it enters and that can be listed (`mem_files_iff`). A walk
that meets no directory that cannot be listed misses none (`listsDown_of_walk`), and from a root that
leads to a directory it starts in that directory, also when the root is a link (`walk_of_directory`).
-/

namespace KeyGloss

namespace Node

/-- The files that a walk meets. -/
def files (lists : Path → Place → Bool) (enter : Text → Bool) (path : Path) (place : Place)
    (node : Node) : List FileRef :=
  (node.walk lists enter path place).filterMap Met.file?

/-- Every directory on the way down that names spell can be listed. -/
def ListsDown (lists : Path → Place → Bool) (path : Path) (place names : Place) : Prop :=
  ∀ front rest, names = front ++ rest → rest ≠ [] →
    lists (front.foldl Path.join path) (place ++ front) = true

section Walk

variable {lists : Path → Place → Bool} {enter : Text → Bool} {path : Path} {place : Place}

theorem listsDown_nil : ListsDown lists path place [] := by
  intro front rest split more
  exact absurd (List.append_eq_nil_iff.mp split.symm).2 more

theorem listsDown_cons {name : Text} {names : Place} :
    ListsDown lists path place (name :: names) ↔
      lists path place = true ∧ ListsDown lists (path.join name) (place ++ [name]) names := by
  constructor
  · intro down
    refine ⟨by simpa using down [] (name :: names) rfl (by simp), fun front rest split more => ?_⟩
    simpa using down (name :: front) rest (by simp [split]) more
  · rintro ⟨here, below⟩ front rest split more
    cases front with
    | nil => simpa using here
    | cons first front =>
      obtain ⟨rfl, later⟩ := List.cons.inj split
      simpa using below front rest later more

theorem walkEntries_eq_flatMap (lists : Path → Place → Bool) (enter : Text → Bool) (path : Path)
    (place : Place) (entries : List (Text × Node)) :
    walkEntries lists enter path place entries = entries.flatMap fun entry =>
      if enter entry.1 then entry.2.walk lists enter (path.join entry.1) (place ++ [entry.1])
      else [] := by
  induction entries with
  | nil => rw [walkEntries, List.flatMap_nil]
  | cons entry entries ih => rw [walkEntries, ih, List.flatMap_cons]

@[simp] theorem files_file (content : ByteArray) :
    (Node.file content).files lists enter path place = [⟨path, place⟩] := by
  simp [files, walk, Met.file?]

@[simp] theorem files_link (target : Path) :
    (Node.link target).files lists enter path place = [] := by
  simp [files, walk]

theorem files_directory (entries : List (Text × Node)) :
    (Node.directory entries).files lists enter path place =
      if lists path place then entries.flatMap fun entry =>
        if enter entry.1 then entry.2.files lists enter (path.join entry.1) (place ++ [entry.1])
        else []
      else [] := by
  rw [files, walk]
  split
  · rw [walkEntries_eq_flatMap, List.filterMap_flatMap]
    refine List.flatMap_congr fun entry _ => ?_
    split <;> rfl
  · rfl

/-- The files of a walk: those that can be reached by names that are entered, through directories that
can be listed. The path spells the way there. -/
theorem WellFormed.mem_files_iff {node : Node} (wf : node.WellFormed) {file : FileRef} :
    file ∈ node.files lists enter path place ↔ ∃ names content,
      file = ⟨names.foldl Path.join path, place ++ names⟩ ∧ node.look names = some (.file content) ∧
        (∀ name ∈ names, enter name = true) ∧ ListsDown lists path place names := by
  induction wf generalizing path place with
  | file content =>
    rw [files_file, List.mem_singleton]
    constructor
    · rintro rfl
      exact ⟨[], content, by simp, rfl, by simp, listsDown_nil⟩
    · rintro ⟨names, content, rfl, seen, -⟩
      cases names with
      | nil => simp
      | cons name names => cases seen
  | link target =>
    rw [files_link]
    constructor
    · intro member
      cases member
    · rintro ⟨names, content, -, seen, -⟩
      cases names <;> cases seen
  | @directory entries increasing names children ih =>
    rw [files_directory]
    constructor
    · intro member
      split at member
      · next listed =>
        obtain ⟨entry, inside, below⟩ := List.mem_flatMap.mp member
        split at below
        · next entered =>
          obtain ⟨names, content, rfl, seen, all, down⟩ := (ih entry inside).mp below
          refine ⟨entry.1 :: names, content, by simp, ?_, List.forall_mem_cons.mpr ⟨entered, all⟩,
            listsDown_cons.mpr ⟨listed, down⟩⟩
          rw [look_cons, increasing.get?_of_mem inside, Option.bind_some, seen]
        · cases below
      · cases member
    · rintro ⟨names, content, rfl, seen, all, down⟩
      cases names with
      | nil => cases seen
      | cons name names =>
        obtain ⟨listed, down⟩ := listsDown_cons.mp down
        obtain ⟨entered, all⟩ := List.forall_mem_cons.mp all
        rw [look_cons] at seen
        obtain ⟨child, under, seen⟩ := Option.bind_eq_some_iff.mp seen
        have inside := Dictionary.mem_of_get? under
        rw [if_pos listed, List.mem_flatMap]
        refine ⟨(name, child), inside, ?_⟩
        rw [if_pos entered]
        exact (ih _ inside).mpr ⟨names, content, by simp, seen, all, down⟩

/-- A walk comes to each place once. -/
theorem WellFormed.nodup_files {node : Node} (wf : node.WellFormed) (path : Path) (place : Place) :
    ((node.files lists enter path place).map (·.place)).Nodup := by
  induction wf generalizing path place with
  | file content => simp
  | link target => simp
  | @directory entries increasing names children ih =>
    rw [files_directory]
    split
    · rw [List.map_flatMap, List.nodup_flatMap]
      refine ⟨fun entry listed => ?_, ?_⟩
      · split
        · exact ih entry listed _ _
        · exact List.nodup_nil
      · refine increasing.imp_of_mem fun {a b} listed listed' smaller => ?_
        -- Places below two entries differ in the name of the entry.
        refine List.disjoint_left.mpr fun there first second => ?_
        obtain ⟨file, below, rfl⟩ := List.mem_map.mp first
        obtain ⟨file', below', equal⟩ := List.mem_map.mp second
        split at below
        · split at below'
          · obtain ⟨rest, _, rfl, -⟩ := (children a listed).mem_files_iff.mp below
            obtain ⟨rest', _, rfl, -⟩ := (children b listed').mem_files_iff.mp below'
            simp only [List.append_assoc, List.singleton_append, List.append_cancel_left_eq,
              List.cons.injEq] at equal
            exact Std.ne_of_lt smaller equal.1.symm
          · cases below'
        · cases below
    · exact List.nodup_nil

/-- A walk that enters everything and is refused nowhere goes down every way to a file. -/
theorem listsDown_of_walk {node : Node} {names : Place} {content : ByteArray}
    (seen : node.look names = some (.file content))
    (open_ : ∀ met ∈ node.walk lists (fun _ => true) path place, met.isRefused = false) :
    ListsDown lists path place names := by
  induction names generalizing node path place with
  | nil => exact listsDown_nil
  | cons name names ih =>
    cases node with
    | file content => cases seen
    | link target => cases seen
    | directory entries =>
      rw [look_cons] at seen
      obtain ⟨child, under, below⟩ := Option.bind_eq_some_iff.mp seen
      have listed : lists path place = true := by
        by_contra refused
        rw [walk, if_neg refused] at open_
        cases open_ _ (List.mem_singleton_self _)
      rw [walk, if_pos listed, walkEntries_eq_flatMap] at open_
      refine listsDown_cons.mpr ⟨listed, ih below fun met member => open_ met ?_⟩
      exact List.mem_flatMap.mpr ⟨(name, child), Dictionary.mem_of_get? under, member⟩

end Walk

end Node

namespace Disk

variable {d : Disk}

/-- A way that leads to a directory when links are followed leads to it also when a last link is kept, or
ends at that link. -/
theorem locate_false_of_true {links : Nat} {here place : Place} {pieces : List Text}
    {entries : List (Text × Node)}
    (followed : d.locate true links here pieces = .ok (place, some (.directory entries))) :
    d.locate false links here pieces = .ok (place, some (.directory entries)) ∨
      ∃ there target, d.locate false links here pieces = .ok (there, some (.link target)) := by
  fun_induction locate d true links here pieces with
  | case1 links here => exact .inl (by rwa [locate])
  | case3 links here piece rest entries directory stays ih =>
    rw [locate, directory]
    simpa only [stays, if_true] using ih followed
  | case4 links here rest entries directory climbs ih =>
    rw [locate, directory]
    simpa using ih followed
  | case9 here piece rest entries directory stays climbs target found kept links ih =>
    rw [locate, directory]
    simp only [stays, climbs, if_false, found]
    cases rest with
    | nil => exact .inr ⟨_, _, rfl⟩
    | cons next rest => exact ih followed
  | case10 links here piece rest entries directory stays climbs child noLink found ih =>
    rw [locate, directory]
    simp only [stays, climbs, if_false, found]
    cases child with
    | link target => exact absurd rfl (noLink target)
    | file content => exact ih followed
    | directory inner => exact ih followed
  | case7 => simp_all
  | _ => cases followed

/-- The walk from a root that leads to a directory. -/
theorem walk_of_directory {root : Path} {base : Place} {entries : List (Text × Node)}
    (leads : d.find true root = .ok (base, some (.directory entries))) (enter : Text → Bool) :
    d.walk enter root = .ok ((Node.directory entries).walk d.lists enter root base) := by
  have kept : d.find false root = .ok (base, some (.directory entries)) ∨
      ∃ there target, d.find false root = .ok (there, some (.link target)) := by
    obtain ⟨named, taken, located⟩ := find_eq_ok.mp leads
    rcases locate_false_of_true located with same | ⟨there, target, link⟩
    · exact .inl (find_eq_ok.mpr ⟨named, taken, same⟩)
    · exact .inr ⟨there, target, find_eq_ok.mpr ⟨named, taken, link⟩⟩
  unfold walk
  rcases kept with same | ⟨there, target, link⟩
  · simp [same, Bind.bind, Except.bind]
  · simp [link, leads, Bind.bind, Except.bind]

/-- What a walk from the node at a place finds. -/
theorem WellFormed.files_at {base : Place} {node : Node} (wf : d.WellFormed)
    (found : d.tree.at? base = some node) (enter : Text → Bool) (root : Path) :
    (∀ file ∈ node.files d.lists enter root base,
      file.path = (file.place.drop base.length).foldl Path.join root ∧
        ∃ content, d.look file.place = some (.file content)) ∧
      ((node.files d.lists enter root base).map (·.place)).Nodup := by
  have below := (wf.tree.of_at? found).2
  refine ⟨fun file member => ?_, below.nodup_files root base⟩
  obtain ⟨rest, content, rfl, seen, -⟩ := below.mem_files_iff.mp member
  refine ⟨by rw [List.drop_left], content, ?_⟩
  rw [← Node.at?_eq_file] at seen
  rw [look, ← Node.at?_eq_file, Node.at?_append, found, Option.bind_some, seen]

/-- Where a walk starts, whatever it enters: at the root, or where the root leads to when it is a
link. A link to something else than a directory is not followed. -/
theorem walk_eq (d : Disk) (root : Path) :
    (∃ base node, d.tree.at? base = some node ∧
      ∀ enter, d.walk enter root = .ok (node.walk d.lists enter root base)) ∨
    ∀ enter met, d.walk enter root = .ok met → met = [] := by
  unfold walk
  cases kept : d.find false root with
  | error fault => exact .inr fun enter met listed => by cases listed
  | ok start =>
    obtain ⟨base, _ | node⟩ := start
    · exact .inr fun enter met listed => by cases listed
    · have here := at?_of_find kept
      cases node with
      | file content => exact .inl ⟨base, _, here, fun enter => rfl⟩
      | directory entries => exact .inl ⟨base, _, here, fun enter => rfl⟩
      | link target =>
        cases followed : d.find true root with
        | error fault => exact .inr fun enter met listed => by cases listed
        | ok target =>
          obtain ⟨base, _ | node⟩ := target
          · exact .inr fun enter met listed => by cases listed
          · cases node with
            | directory entries => exact .inl ⟨base, _, at?_of_find followed, fun enter => rfl⟩
            | file content => exact .inr fun enter met listed => by cases listed; rfl
            | link target => exact .inr fun enter met listed => by cases listed; rfl

/-- A walk lists files, each of them once, and under the same paths whatever it enters. -/
theorem WellFormed.walk_spec (wf : d.WellFormed) (root : Path) :
    ∃ pathAt : Place → Path, ∀ enter met, d.walk enter root = .ok met →
      (∀ file ∈ met.filterMap Met.file?, file.path = pathAt file.place ∧
        ∃ content, d.look file.place = some (.file content)) ∧
      ((met.filterMap Met.file?).map (·.place)).Nodup := by
  rcases d.walk_eq root with ⟨base, node, found, walk⟩ | nothing
  · refine ⟨fun place => (place.drop base.length).foldl Path.join root, ?_⟩
    intro enter met listed
    obtain rfl := Except.ok.inj ((walk enter).symm.trans listed)
    exact wf.files_at found enter root
  · refine ⟨fun _ => root, ?_⟩
    intro enter met listed
    obtain rfl := nothing enter met listed
    simp

/-- Reading a file that was found: its path must be taken, and the file open. -/
theorem readFile_of_file {file : FileRef} {content : ByteArray} (wf : d.WellFormed)
    (seen : d.look file.place = some (.file content)) :
    d.readFile file = if !takes file.path then .error .tooLong
      else if file.place ∈ d.closed then .error .denied else textOf content := by
  rw [readFile, readPlace_of_file wf seen]

/-- Reading a file that holds the bytes of a text. -/
theorem readFile_of_text {file : FileRef} {t : Text} (wf : d.WellFormed)
    (seen : d.look file.place = some (.file (Text.encode t))) (taken : takes file.path = true)
    (allowed : file.place ∉ d.closed) : d.readFile file = .ok t := by
  rw [readFile_of_file wf seen, taken, textOf_encode]
  exact if_neg allowed

end Disk

end KeyGloss
