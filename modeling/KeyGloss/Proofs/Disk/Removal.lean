import KeyGloss.Proofs.Disk.Place
import KeyGloss.Proofs.Path

/-!
# Taking a file away

What a path leads to depends on the directories and links of a disk, and on what stands where the way
ends (`locate_of_keepsWays`). So a disk that lacks one file is the same disk for every path that did not
lead to this file (`Lacks.readBytes_of_ok`, `Lacks.readBytes_ok`). Removing a file from a directory
gives such a disk, and the directory no longer lists the name (`WellFormed.remove_entry`).
-/

namespace KeyGloss

/-- The directory without the child that was taken away. -/
theorem Node.at?_erase {tree : Node} {base : Place} {entries : List (Text × Node)} {name : Text}
    (directory : tree.at? base = some (.directory entries)) :
    (tree.erase (base ++ [name])).at? base = some (.directory (entries.filter (·.1 != name))) := by
  induction base generalizing tree with
  | nil =>
    obtain rfl : tree = .directory entries := by simpa [at?] using directory
    rw [List.nil_append, erase, at?]
  | cons first base ih =>
    cases tree with
    | file content => cases directory
    | link target => cases directory
    | directory around =>
      rw [at?] at directory
      split at directory
      · next child found =>
        rw [List.cons_append, erase_cons_of_get? (by simp) found, at?, Dictionary.get?_insert,
          if_pos rfl]
        exact ih directory
      · cases directory

namespace Disk

variable {d d' : Disk} {follow : Bool} {links : Nat} {here place : Place} {pieces : List Text}

section Ways

/-- All that leads on in one disk, its directories and links, is seen in another. -/
def KeepsWays (d d' : Disk) : Prop :=
  ∀ place entry, d.look place = some entry → (∀ content, entry ≠ .file content) →
    d'.look place = some entry

/-- What is seen under a name in a directory. -/
theorem look_entry {entries : List (Text × Node)} (name : Text)
    (directory : d.tree.at? here = some (.directory entries)) :
    d.look (here ++ [name]) = (Dictionary.get? entries name).map Node.entry := by
  rw [look, Node.look, Node.at?_append, directory, Option.bind_some, Node.at?]
  cases Dictionary.get? entries name with
  | none => rfl
  | some child => cases child <;> rfl

/-- No way leads on behind a file. -/
theorem place_of_locate_file {content : ByteArray} {found : Option Node}
    (file : d.tree.at? here = some (.file content))
    (located : d.locate follow links here pieces = .ok (place, found)) : place = here := by
  unfold locate at located
  split at located
  · exact (Prod.mk.inj (Except.ok.inj located)).1.symm
  · rw [file] at located
    cases located

/-- A way that ends at a node is the same way on a disk that keeps directories and links, if what is seen
at its end stays. -/
theorem locate_of_keepsWays {node : Node} (keeps : KeepsWays d d')
    (located : d.locate follow links here pieces = .ok (place, some node))
    (same : d'.look place = d.look place) :
    d'.locate follow links here pieces = .ok (place, d'.tree.at? place) := by
  have directories {place : Place} {entries : List (Text × Node)}
      (directory : d.tree.at? place = some (.directory entries)) :
      ∃ entries', d'.tree.at? place = some (.directory entries') := by
    have seen := Node.look_eq_directory.mpr ⟨entries, directory⟩
    exact Node.look_eq_directory.mp (keeps place .directory seen (by simp))
  have children {here : Place} {piece : Text} {entries entries' : List (Text × Node)} {child : Node}
      (directory : d.tree.at? here = some (.directory entries))
      (directory' : d'.tree.at? here = some (.directory entries'))
      (found : Dictionary.get? entries piece = some child)
      (seen : d'.look (here ++ [piece]) = d.look (here ++ [piece])) :
      ∃ child', Dictionary.get? entries' piece = some child' ∧ child'.entry = child.entry := by
    rw [look_entry piece directory', look_entry piece directory, found] at seen
    exact Option.map_eq_some_iff.mp seen
  fun_induction locate d follow links here pieces with
  | case1 links here =>
    obtain ⟨rfl, -⟩ := Prod.mk.inj (Except.ok.inj located)
    rw [locate]
  | case3 links here piece rest entries directory stays ih =>
    obtain ⟨entries', directory'⟩ := directories directory
    rw [locate, directory']
    simp only [stays, if_true]
    exact ih located
  | case4 links here rest entries directory climbs ih =>
    obtain ⟨entries', directory'⟩ := directories directory
    rw [locate, directory']
    simp only [climbs, if_false, if_true]
    exact ih located
  | case7 links here piece rest entries directory notHere notUp target found kept =>
    obtain ⟨entries', directory'⟩ := directories directory
    obtain ⟨rfl, -⟩ := Prod.mk.inj (Except.ok.inj located)
    obtain ⟨child, found', link⟩ := children directory directory' found same
    obtain rfl : child = .link target := by cases child <;> simp_all [Node.entry]
    rw [locate, directory', Node.at?_append, directory', Option.bind_some]
    simp [notHere, notUp, found', kept, Node.at?]
  | case9 here piece rest entries directory notHere notUp target found followed links ih =>
    obtain ⟨entries', directory'⟩ := directories directory
    have seen : d.look (here ++ [piece]) = some (.link target) := by
      rw [look_entry piece directory, found]
      rfl
    obtain ⟨child, found', link⟩ := children directory directory' found
      ((keeps _ _ seen (by simp)).trans seen.symm)
    obtain rfl : child = .link target := by cases child <;> simp_all [Node.entry]
    rw [locate, directory']
    simp only [notHere, notUp, if_false, found', followed]
    exact ih located
  | case10 links here piece rest entries directory notHere notUp child noLink found ih =>
    obtain ⟨entries', directory'⟩ := directories directory
    have stands : d.tree.at? (here ++ [piece]) = some child := by
      rw [Node.at?_append, directory, Option.bind_some, Node.at?, found]
      cases child <;> rfl
    have seen : d'.look (here ++ [piece]) = d.look (here ++ [piece]) := by
      cases child with
      | link target => exact absurd rfl (noLink target)
      | file content => rwa [← place_of_locate_file stands located]
      | directory below =>
        have seen := Node.look_eq_directory.mpr ⟨below, stands⟩
        exact (keeps _ _ seen (by simp)).trans seen.symm
    obtain ⟨child', found', alike⟩ := children directory directory' found seen
    have noLink' : ∀ target, child' ≠ .link target := by
      rintro target rfl
      cases child <;> cases alike
      exact noLink _ rfl
    rw [locate, directory']
    simp only [notHere, notUp, if_false, found']
    cases child' with
    | link target => exact absurd rfl (noLink' target)
    | file content => exact ih located
    | directory below => exact ih located
  | case5 => cases located
  | _ => cases located

theorem find_of_keepsWays {path : Path} {node : Node} (keeps : KeepsWays d d')
    (current : d'.current = d.current) (found : d.find follow path = .ok (place, some node))
    (same : d'.look place = d.look place) :
    d'.find follow path = .ok (place, d'.tree.at? place) := by
  obtain ⟨named, taken, located⟩ := find_eq_ok.mp found
  refine find_eq_ok.mpr ⟨named, taken, ?_⟩
  rw [current]
  exact locate_of_keepsWays keeps located same

/-- A way to a file is the same whether or not a link at its end is followed. -/
theorem locate_follow {content : ByteArray}
    (located : d.locate false links here pieces = .ok (place, some (.file content))) :
    d.locate true links here pieces = .ok (place, some (.file content)) := by
  fun_induction locate d false links here pieces with
  | case1 links here => rwa [locate]
  | case3 links here piece rest entries directory stays ih =>
    rw [locate, directory]
    simpa only [stays, if_true] using ih located
  | case4 links here rest entries directory climbs ih =>
    rw [locate, directory]
    simpa only [climbs, if_false, if_true] using ih located
  | case7 links here piece rest entries directory notHere notUp target found kept => cases located
  | case9 here piece rest entries directory notHere notUp target found followed links ih =>
    rw [locate, directory]
    simpa [notHere, notUp, found] using ih located
  | case10 links here piece rest entries directory notHere notUp child noLink found ih =>
    rw [locate, directory]
    simpa only [notHere, notUp, if_false, found] using ih located
  | case5 => cases located
  | _ => cases located

theorem find_follow {path : Path} {content : ByteArray}
    (found : d.find false path = .ok (place, some (.file content))) :
    d.find true path = .ok (place, some (.file content)) :=
  find_eq_ok.mpr ((find_eq_ok.mp found).imp_right fun taken => taken.imp_right locate_follow)

end Ways

section Entries

/-- A way that ends at a directory goes on there. -/
theorem locate_append {entries : List (Text × Node)}
    (located : d.locate true links here pieces = .ok (place, some (.directory entries))) :
    ∃ left, ∀ follow rest, rest ≠ [] →
      d.locate follow links here (pieces ++ rest) = d.locate follow left place rest := by
  fun_induction locate d true links here pieces with
  | case1 links here =>
    obtain ⟨rfl, -⟩ := Prod.mk.inj (Except.ok.inj located)
    exact ⟨links, fun _ _ _ => rfl⟩
  | case3 links here piece rest entries directory stays ih =>
    obtain ⟨left, goesOn⟩ := ih located
    refine ⟨left, fun follow more goes => ?_⟩
    rw [List.cons_append, locate, directory]
    simp only [stays, if_true]
    exact goesOn follow more goes
  | case4 links here rest entries directory climbs ih =>
    obtain ⟨left, goesOn⟩ := ih located
    refine ⟨left, fun follow more goes => ?_⟩
    rw [List.cons_append, locate, directory]
    simp only [climbs, if_false, if_true]
    exact goesOn follow more goes
  | case7 links here piece rest entries directory notHere notUp target found kept => simp at kept
  | case9 here piece rest entries directory notHere notUp target found followed links ih =>
    obtain ⟨left, goesOn⟩ := ih located
    refine ⟨left, fun follow more goes => ?_⟩
    rw [List.cons_append, locate, directory]
    simp only [notHere, notUp, if_false, found]
    rw [if_neg (by simp [goes]), ← List.append_assoc]
    exact goesOn follow more goes
  | case10 links here piece rest entries directory notHere notUp child noLink found ih =>
    obtain ⟨left, goesOn⟩ := ih located
    refine ⟨left, fun follow more goes => ?_⟩
    rw [List.cons_append, locate, directory]
    simp only [notHere, notUp, if_false, found]
    exact goesOn follow more goes
  | case5 => cases located
  | _ => cases located

/-- An empty piece does not count, unless it is the last one. -/
theorem locate_skip {rest : List Text} (goes : rest ≠ []) :
    d.locate follow links here (pieces ++ [] :: rest) = d.locate follow links here (pieces ++ rest) := by
  fun_induction locate d true links here pieces with
  | case1 links here =>
    obtain ⟨piece, rest, rfl⟩ := List.exists_cons_of_ne_nil goes
    cases found : d.tree.at? here with
    | none => simp [locate, found]
    | some node =>
      cases node with
      | directory entries =>
        rw [List.nil_append, locate, found]
        rfl
      | file content => simp [locate, found]
      | link target => simp [locate, found]
  | case3 links here piece more entries directory stays ih =>
    rw [List.cons_append, List.cons_append, locate, directory, locate, directory]
    simpa only [stays, if_true] using ih
  | case4 links here more entries directory climbs ih =>
    rw [List.cons_append, List.cons_append, locate, directory, locate, directory]
    simpa only [climbs, if_false, if_true] using ih
  | case7 links here piece more entries directory notHere notUp target found kept => simp at kept
  | case9 here piece more entries directory notHere notUp target found followed links ih =>
    simp only [List.append_assoc] at ih
    rw [List.cons_append, List.cons_append, locate, directory, locate, directory]
    simpa [notHere, notUp, found, goes] using ih
  | case10 links here piece more entries directory notHere notUp child noLink found ih =>
    rw [List.cons_append, List.cons_append, locate, directory, locate, directory]
    simpa only [notHere, notUp, if_false, found] using ih
  | _ => simp_all [locate]

variable {dir : Path} {base : Place} {entries : List (Text × Node)}

/-- A path to an entry of a directory leads there through the directory, unless it is too long. -/
theorem find_join (found : d.find true dir = .ok (base, some (.directory entries))) :
    ∃ left, ∀ follow name, '/' ∉ name → takes (dir.join name) = true →
      d.find follow (dir.join name) = d.locate follow left base [name] := by
  obtain ⟨there, -, located⟩ := find_eq_ok.mp found
  obtain ⟨left, goesOn⟩ := locate_append located
  refine ⟨left, fun follow name plain taken => ?_⟩
  have goesOn := goesOn follow [name] (by simp)
  unfold Path.join at taken ⊢
  rw [Path.isAbsolute_eq_false plain, if_neg (by simp)] at taken ⊢
  split at taken
  · next ends =>
    obtain ⟨v, rfl⟩ : ∃ v, dir = v ++ ['/'] := by
      rcases List.eq_nil_or_concat dir with rfl | ⟨v, c, rfl⟩
      · exact absurd rfl there
      · exact ⟨v, by simpa using ends⟩
    have absolute : Path.isAbsolute (v ++ ['/'] ++ name) = Path.isAbsolute (v ++ ['/']) := by
      cases v <;> rfl
    have spelled : v ++ ['/'] ++ name = v ++ '/' :: name := by simp
    rw [List.splitOn_append_cons_self, List.splitOn_nil, List.append_assoc, List.singleton_append,
      locate_skip (by simp)] at goesOn
    rw [if_pos ends, find, if_neg (by simp), if_neg (by rw [taken]; simp), absolute, spelled,
      List.splitOn_append_cons_self, List.splitOn_eq_singleton plain, goesOn]
  · next open_ =>
    have absolute : Path.isAbsolute (dir ++ '/' :: name) = Path.isAbsolute dir := by
      cases dir with
      | nil => exact absurd rfl there
      | cons c dir => rfl
    rw [if_neg open_, find, if_neg (by simp), if_neg (by simp [taken]), absolute,
      List.splitOn_append_cons_self, List.splitOn_eq_singleton plain, goesOn]

/-- The last piece of a way, when it is the name of a file. -/
theorem place_of_locate_entry {name : Text} {content : ByteArray}
    (directory : d.tree.at? base = some (.directory entries)) (valid : IsEntryName name)
    (located : d.locate false links base [name] = .ok (place, some (.file content))) :
    place = base ++ [name] := by
  obtain ⟨notEmpty, notHere, notUp, -⟩ := valid
  rw [locate, directory] at located
  simp only [notEmpty, notHere, or_self, if_false, notUp] at located
  split at located
  · cases located
  · cases located
  · rw [locate] at located
    exact (Prod.mk.inj (Except.ok.inj located)).1.symm

/-- A file in a directory stands there under its name. -/
theorem place_of_find_join {name : Text} {content : ByteArray}
    (found : d.find true dir = .ok (base, some (.directory entries))) (valid : IsEntryName name)
    (file : d.find false (dir.join name) = .ok (place, some (.file content))) :
    place = base ++ [name] := by
  obtain ⟨left, through⟩ := find_join found
  obtain ⟨-, taken, -⟩ := find_eq_ok.mp file
  exact place_of_locate_entry (at?_of_find found) valid
    ((through false name valid.slashFree taken).symm.trans file)

/-- The names in a directory: those of its entries, and the others that are kept for its place. -/
def entryNames (d : Disk) (base : Place) (entries : List (Text × Node)) : List EntryName :=
  (Dictionary.keys entries).map .text
    ++ (d.strays.filter (·.1 = base)).map fun stray => .stray stray.2

/-- A directory can be listed if it is open. -/
theorem names_eq_ok {names : List EntryName} :
    d.names dir = .ok names ↔
      ∃ base entries, d.find true dir = .ok (base, some (.directory entries)) ∧ base ∉ d.closed ∧
        names = d.entryNames base entries := by
  unfold Disk.names entryNames
  cases found : d.find true dir with
  | error fault => simp [Bind.bind, Except.bind]
  | ok there =>
    obtain ⟨base, node⟩ := there
    cases node with
    | none => simp [Bind.bind, Except.bind]
    | some node =>
      cases node with
      | directory entries =>
        by_cases closed : base ∈ d.closed
        · simp [Bind.bind, Except.bind, openPlace, closed]
        · simp [Bind.bind, Except.bind, openPlace, closed, eq_comm]
      | file content => simp [Bind.bind, Except.bind]
      | link target => simp [Bind.bind, Except.bind]

theorem contains_of_find (found : d.find true dir = .ok (base, some (.directory entries))) :
    d.contains dir = true := by
  simp [contains, Disk.node, found, Except.toBool]

/-- The entries of a directory are in order, and each name is one piece of a path. -/
theorem WellFormed.keys_spec (wf : d.WellFormed)
    (found : d.find true dir = .ok (base, some (.directory entries))) :
    (Dictionary.keys entries).Pairwise (· < ·) ∧ ∀ name ∈ Dictionary.keys entries, IsEntryName name := by
  obtain ⟨increasing, valid, -⟩ := Node.wellFormed_directory.mp (wf.tree.of_at? (at?_of_find found)).2
  refine ⟨List.pairwise_map.mpr increasing, fun name member => ?_⟩
  obtain ⟨entry, inside, rfl⟩ := List.mem_map.mp member
  exact valid entry inside

theorem readBytes_eq_ok {path : Path} {bytes : ByteArray} :
    d.readBytes path = .ok bytes ↔
      ∃ place, d.find true path = .ok (place, some (.file bytes)) ∧ place ∉ d.closed := by
  unfold readBytes
  cases found : d.find true path with
  | error fault => simp [Bind.bind, Except.bind]
  | ok there =>
    obtain ⟨place, node⟩ := there
    cases node with
    | none => simp [Bind.bind, Except.bind, bytesOf]
    | some node =>
      by_cases closed : place ∈ d.closed
      · cases node <;> simp [Bind.bind, Except.bind, bytesOf, openPlace, closed]
      · cases node <;> simp [Bind.bind, Except.bind, bytesOf, openPlace, closed]

end Entries

section Removal

/-- A disk that is as another one, but for a file that it lacks. -/
structure Lacks (d d' : Disk) (gone : Place) (old : ByteArray) : Prop where
  file : d.look gone = some (.file old)
  look : ∀ place, d'.look place = if place = gone then none else d.look place
  current : d'.current = d.current
  closed : ∀ place, d'.look place ≠ none → (place ∈ d'.closed ↔ place ∈ d.closed)

namespace Lacks

variable {gone : Place} {old : ByteArray} {path : Path} {bytes : ByteArray}

theorem look_of_some {entry : Entry} (lacks : Lacks d d' gone old) (seen : d'.look place = some entry) :
    d.look place = some entry := by
  rw [lacks.look] at seen
  split at seen
  · cases seen
  · exact seen

theorem look_of_ne (lacks : Lacks d d' gone old) (other : d.look place ≠ some (.file old)) :
    d'.look place = d.look place := by
  rw [lacks.look, if_neg]
  rintro rfl
  exact other lacks.file

theorem keepsWays (lacks : Lacks d d' gone old) : KeepsWays d d' := by
  intro place entry seen noFile
  rw [lacks.look_of_ne (by simpa [seen] using noFile old), seen]

/-- Whatever can be read without the file could be read before. -/
theorem readBytes_of_ok (lacks : Lacks d d' gone old) (read : d'.readBytes path = .ok bytes) :
    d.readBytes path = .ok bytes := by
  obtain ⟨place, found, open_⟩ := readBytes_eq_ok.mp read
  have seen : d'.look place = some (.file bytes) := Node.at?_eq_file.mp (at?_of_find found)
  have before := lacks.look_of_some seen
  have back := find_of_keepsWays (fun _ _ seen _ => lacks.look_of_some seen) lacks.current.symm found
    (before.trans seen.symm)
  rw [Node.at?_eq_file.mpr before] at back
  exact readBytes_eq_ok.mpr ⟨place, back, mt (lacks.closed place (by simp [seen])).mpr open_⟩

/-- If the file could not be read, or what was read differs from it, the same is read without it. -/
theorem readBytes_ok (lacks : Lacks d d' gone old) (read : d.readBytes path = .ok bytes)
    (other : gone ∈ d.closed ∨ bytes ≠ old) : d'.readBytes path = .ok bytes := by
  obtain ⟨place, found, open_⟩ := readBytes_eq_ok.mp read
  have before : d.look place = some (.file bytes) := Node.at?_eq_file.mp (at?_of_find found)
  have apart : place ≠ gone := by
    rintro rfl
    have equal : bytes = old := by simpa [before] using lacks.file
    exact other.elim open_ fun different => different equal
  have same : d'.look place = d.look place := by rw [lacks.look, if_neg apart]
  have after := find_of_keepsWays lacks.keepsWays lacks.current found same
  have seen := same.trans before
  rw [Node.at?_eq_file.mpr seen] at after
  exact readBytes_eq_ok.mpr ⟨place, after, mt (lacks.closed place (by simp [seen])).mp open_⟩

end Lacks

/-- Nothing is seen below the place of a file, so nothing seen is taken away with it. -/
theorem eq_of_prefix_of_look {gone : Place} {old : ByteArray} {entry : Entry}
    (file : d.look gone = some (.file old)) (seen : d.look place = some entry)
    (below : gone <+: place) : place = gone := by
  obtain ⟨rest, rfl⟩ := below
  by_contra further
  have directory := Node.look_directory_of_append seen fun nothing => further (by simp [nothing])
  rw [show d.tree.look gone = _ from file] at directory
  cases directory

theorem WellFormed.lacks_without {gone : Place} {old : ByteArray} (wf : d.WellFormed)
    (seen : d.look gone = some (.file old)) :
    (d.without gone).WellFormed ∧ Lacks d (d.without gone) gone old := by
  obtain ⟨wfErased, erased⟩ := wf.erase_file seen
  have looks : ∀ place, (d.without gone).look place = if place = gone then none else d.look place :=
    erased
  refine ⟨⟨wfErased.tree, wfErased.top⟩, seen, looks, rfl, fun place there => ?_⟩
  rw [looks] at there
  obtain ⟨other, there⟩ := ite_ne_left_iff.mp there
  obtain ⟨entry, there⟩ := Option.ne_none_iff_exists'.mp (Ne.symm there)
  have apart : gone.isPrefixOf place = false := by
    rw [← Bool.not_eq_true, List.isPrefixOf_iff_prefix]
    exact fun below => other (eq_of_prefix_of_look seen there below)
  simp [without, List.mem_filter, apart]

/-- The names in a directory from which an entry was taken away. -/
theorem entryNames_without {base : Place} (entries : List (Text × Node)) (name : Text) :
    (d.without (base ++ [name])).entryNames base (entries.filter (·.1 != name)) =
      (d.entryNames base entries).filter (· != .text name) := by
  have apart : (base ++ [name]).isPrefixOf base = false := by
    rw [← Bool.not_eq_true, List.isPrefixOf_iff_prefix]
    exact fun within => absurd within.length_le (by simp)
  have strays : (d.without (base ++ [name])).strays.filter (·.1 = base) =
      d.strays.filter (·.1 = base) := by
    simp only [without, List.filter_filter]
    refine List.filter_congr fun stray _ => ?_
    by_cases here : stray.1 = base
    · simp [here, apart]
    · simp [here]
  have keys : Dictionary.keys (entries.filter (·.1 != name)) =
      (Dictionary.keys entries).filter (· != name) := by
    rw [Dictionary.keys, Dictionary.keys, List.filter_map]
    rfl
  have texts : ((Dictionary.keys entries).map EntryName.text).filter (· != .text name) =
      ((Dictionary.keys entries).filter (· != name)).map .text := by
    rw [List.filter_map]
    congr 1
    refine List.filter_congr fun other _ => ?_
    simp [bne, Bool.beq_eq_decide_eq]
  have others : ∀ other ∈ (d.strays.filter (·.1 = base)).map fun stray => EntryName.stray stray.2,
      (other != .text name) = true := by
    rw [List.forall_mem_map]
    simp
  rw [entryNames, entryNames, strays, keys, List.filter_append, texts,
    List.filter_eq_self.mpr others]

/-- A file in a directory can be removed. Nothing else changes, and its name is no longer listed. -/
theorem WellFormed.remove_entry {dir : Path} {names : List EntryName} {name : Text} {gone : Place}
    {old : ByteArray} (wf : d.WellFormed) (listed : d.names dir = .ok names) (valid : IsEntryName name)
    (file : d.find false (dir.join name) = .ok (gone, some (.file old))) :
    ∃ d', d.remove (dir.join name) = .ok d' ∧ d'.WellFormed ∧ Lacks d d' gone old ∧
      d'.names dir = .ok (names.filter (· != .text name)) := by
  obtain ⟨base, entries, found, open_, rfl⟩ := names_eq_ok.mp listed
  have directory := at?_of_find found
  obtain ⟨wfWithout, lacks⟩ := wf.lacks_without (Node.at?_eq_file.mp (at?_of_find file))
  refine ⟨d.without gone, ?_, wfWithout, lacks, ?_⟩
  · simp [remove, file, Bind.bind, Except.bind]
  · obtain rfl := place_of_find_join found valid file
    have stays := find_of_keepsWays lacks.keepsWays lacks.current found
      (lacks.look_of_ne (by simp [look, Node.look, directory, Node.entry]))
    rw [show (d.without (base ++ [name])).tree.at? base = _ from Node.at?_erase directory] at stays
    exact names_eq_ok.mpr ⟨base, _, stays, fun closed => open_ (List.mem_of_mem_filter closed),
      (entryNames_without entries name).symm⟩

end Removal

end Disk

end KeyGloss
