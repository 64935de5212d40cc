import KeyGloss.Proofs.ByteOrder
import KeyGloss.Proofs.Disk.Tree

/-!
# Places of a disk

What stands at a place of a disk can be read, unless it is closed, and replaced there, whatever path
leads to it. A step that writes, takes away or moves a single file is told by what is seen afterwards:
`put_file`, `put_over`, `erase_file`, `rename_file`. The place that a path leads to is given once more by
a function that can be evaluated (`placeOf`, `locate_eq_placeOf`), for disks that are written out.
-/

namespace KeyGloss

namespace Disk

/-- A tree of directories and files that a disk can hold. -/
structure WellFormed (d : Disk) : Prop where
  tree : d.tree.WellFormed
  top : d.tree.look [] = some .directory

instance : DecidablePred WellFormed := fun d =>
  decidable_of_iff (d.tree.WellFormed ∧ d.tree matches .directory _) <| by
    constructor
    · rintro ⟨tree, top⟩
      refine ⟨tree, ?_⟩
      revert top
      cases d.tree <;> simp [Node.look_nil, Node.entry]
    · rintro ⟨tree, top⟩
      refine ⟨tree, ?_⟩
      revert top
      cases d.tree <;> simp [Node.look_nil, Node.entry]

/-- What can be seen at a place of a disk. -/
def look (d : Disk) (place : Place) : Option Entry := d.tree.look place

/-- What a disk has besides its tree. -/
def besides (d : Disk) : Disk := { d with tree := .directory [] }

theorem closed_of_besides {d d' : Disk} (same : d.besides = d'.besides) : d.closed = d'.closed := by
  have closures := congrArg Disk.closed same
  exact closures

theorem WellFormed.ext {d d' : Disk} (wf : d.WellFormed) (wf' : d'.WellFormed)
    (same : ∀ place, d.look place = d'.look place) (besides : d.besides = d'.besides) : d = d' := by
  have tree : d.tree = d'.tree := wf.tree.look_ext wf'.tree same
  calc d = { d.besides with tree := d.tree } := rfl
    _ = { d'.besides with tree := d'.tree } := by rw [besides, tree]
    _ = d' := rfl

/-- The place of a file is a name in a directory. -/
theorem WellFormed.exists_parent {d : Disk} {place : Place} {content : ByteArray}
    (wf : d.WellFormed) (found : d.look place = some (.file content)) :
    ∃ parent name, place = parent ++ [name] ∧ d.look parent = some .directory ∧
      IsEntryName name := by
  rcases List.eq_nil_or_concat place with rfl | ⟨parent, name, rfl⟩
  · exact absurd (wf.top.symm.trans found) (by simp)
  · obtain ⟨node, here, -⟩ := Option.map_eq_some_iff.mp found
    rw [List.concat_eq_append] at *
    exact ⟨parent, name, rfl, Node.look_directory_of_append found (by simp),
      (wf.tree.of_at? here).1 name (by simp)⟩

/-- The names on the way to a file. -/
theorem WellFormed.names_of_look {d : Disk} {place : Place} {content : ByteArray}
    (wf : d.WellFormed) (seen : d.look place = some (.file content)) :
    ∀ name ∈ place, IsEntryName name :=
  (wf.tree.of_at? (Node.at?_eq_file.mpr seen)).1

/-- The bytes of a text are read as the text. -/
theorem textOf_encode (t : Text) : textOf (Text.encode t) = .ok t := by
  rw [textOf, Text.decode?_encode]

section Locate

variable {d : Disk} {follow : Bool} {here : Place}

/-- The pieces of the place of a file lead straight to it. -/
theorem locate_of_file {content : ByteArray} (wf : d.WellFormed) (links : Nat) (rest : Place)
    (found : d.tree.at? (here ++ rest) = some (.file content)) :
    d.locate follow links here rest = .ok (here ++ rest, some (.file content)) := by
  induction rest generalizing here with
  | nil =>
    rw [List.append_nil] at found ⊢
    rw [locate, found]
  | cons piece rest ih =>
    have seen : d.look (here ++ piece :: rest) = some (.file content) := Node.at?_eq_file.mp found
    obtain ⟨entries, directory⟩ :=
      Node.look_eq_directory.mp (Node.look_directory_of_append seen (by simp))
    have next : here ++ piece :: rest = (here ++ [piece]) ++ rest := by simp
    obtain ⟨notEmpty, notHere, notUp, -⟩ := (wf.tree.of_at? found).1 piece (by simp)
    rw [locate, directory]
    simp only [notEmpty, notHere, or_self, if_false, notUp]
    -- The child under the name is the file itself or a directory on the way, never a link.
    rw [Node.at?_append, directory, Option.bind_some, Node.at?] at found
    split at found
    · next child under =>
      rw [under]
      have goesOn : d.locate follow links (here ++ [piece]) rest =
          .ok (here ++ piece :: rest, some (.file content)) := by
        rw [next]
        refine ih ?_
        rw [← next]
        exact Node.at?_eq_file.mpr seen
      cases child with
      | file _ => exact goesOn
      | directory _ => exact goesOn
      | link target => cases rest <;> cases found
    · cases found

theorem readPlace_of_file {place : Place} {content : ByteArray} (wf : d.WellFormed)
    (found : d.look place = some (.file content)) :
    d.readPlace place = if place ∈ d.closed then .error .denied else textOf content := by
  have straight : d.locate true linkLimit [] place = .ok (place, some (.file content)) :=
    locate_of_file wf linkLimit place (Node.at?_eq_file.mpr found)
  by_cases closed : place ∈ d.closed
  · simp [readPlace, straight, bytesOf, openPlace, closed, Bind.bind, Except.bind]
  · simp [readPlace, straight, bytesOf, openPlace, closed, Bind.bind, Except.bind]

theorem replacePlace_of_file {place : Place} {content : ByteArray} (new : ByteArray)
    (wf : d.WellFormed) (found : d.look place = some (.file content)) :
    d.replacePlace place new = .ok (d.put place (.file new)) := by
  have straight : d.locate false linkLimit [] place = .ok (place, some (.file content)) :=
    locate_of_file wf linkLimit place (Node.at?_eq_file.mpr found)
  simp [replacePlace, straight, putFile, Bind.bind, Except.bind]

/-- The place that pieces lead to from a directory; `jump` goes on where a link leads. -/
def descend (d : Disk) (follow : Bool) (jump : Place → List Text → Except DiskFault Place)
    (here : Place) : List Text → Except DiskFault Place
  | [] => .ok here
  | piece :: rest =>
    match d.tree.at? here with
    | none => .error .notFound
    | some (.directory entries) =>
      if piece = [] ∨ piece = ['.'] then d.descend follow jump here rest
      else if piece = ['.', '.'] then d.descend follow jump here.dropLast rest
      else
        match Dictionary.get? entries piece with
        | none => if rest.isEmpty then .ok (here ++ [piece]) else .error .notFound
        | some (.link target) =>
          if rest.isEmpty && !follow then .ok (here ++ [piece])
          else jump (if target.isAbsolute then [] else here) (target.splitOn '/' ++ rest)
        | some _ => d.descend follow jump (here ++ [piece]) rest
    | some _ => .error .notADirectory

/-- The place that pieces lead to. As it goes down by one thing at a time, first the links and then the
pieces, it can be evaluated on a disk that is written out. -/
def placeOf (d : Disk) (follow : Bool) : Nat → Place → List Text → Except DiskFault Place
  | 0 => d.descend follow fun _ _ => .error .tooManyLinks
  | links + 1 => d.descend follow (d.placeOf follow links)

/-- What pieces lead to is what stands at their place. -/
theorem locate_eq_placeOf (links : Nat) (pieces : List Text) :
    d.locate follow links here pieces =
      (d.placeOf follow links here pieces).map fun place => (place, d.tree.at? place) := by
  fun_induction locate d follow links here pieces with
  | case1 links here => cases links <;> rfl
  | case2 links here piece rest missing =>
    cases links <;> simp [placeOf, descend, missing, Except.map]
  | case3 links here piece rest entries directory stays ih =>
    rw [ih]
    cases links <;> simp [placeOf, descend, directory, stays]
  | case4 links here rest entries directory climbs ih =>
    rw [ih]
    cases links <;> simp [placeOf, descend, directory]
  | case5 links here piece rest entries directory stays climbs missing last =>
    have nothing : d.tree.at? (here ++ [piece]) = none := by
      simp [Node.at?_append, directory, Node.at?, missing]
    cases links <;> simp [placeOf, descend, directory, stays, climbs, missing, last, nothing, Except.map]
  | case6 links here piece rest entries directory stays climbs missing more =>
    cases links <;> simp [placeOf, descend, directory, stays, climbs, missing, more, Except.map]
  | case7 links here piece rest entries directory stays climbs target found kept =>
    have link : d.tree.at? (here ++ [piece]) = some (.link target) := by
      simp [Node.at?_append, directory, Node.at?, found]
    cases links <;> simp [placeOf, descend, directory, stays, climbs, found, kept, link, Except.map]
  | case8 here piece rest entries directory stays climbs target found followed =>
    simp [placeOf, descend, directory, stays, climbs, found, followed, Except.map]
  | case9 here piece rest entries directory stays climbs target found followed links ih =>
    rw [dite_eq_ite] at ih
    rw [ih]
    simp [placeOf, descend, directory, stays, climbs, found, followed]
  | case10 links here piece rest entries directory stays climbs child noLink found ih =>
    rw [ih]
    cases links <;> cases child <;> simp_all [placeOf, descend]
  | case11 links here piece rest leaf noDirectory found =>
    cases links <;> cases leaf <;> simp_all [placeOf, descend, Except.map]

/-- The node that is given for a place stands there. -/
theorem at?_of_locate {links : Nat} {pieces : List Text} {place : Place} {node : Node}
    (located : d.locate follow links here pieces = .ok (place, some node)) :
    d.tree.at? place = some node := by
  rw [locate_eq_placeOf] at located
  cases led : d.placeOf follow links here pieces with
  | error fault =>
    rw [led] at located
    cases located
  | ok there =>
    rw [led] at located
    obtain ⟨rfl, equal⟩ := Prod.mk.inj (Except.ok.inj located)
    exact equal

/-- What is found by a path that the system takes. -/
theorem find_eq_ok {path : Path} {found : Place × Option Node} :
    d.find follow path = .ok found ↔ path ≠ [] ∧ takes path = true ∧
      d.locate follow linkLimit (if path.isAbsolute then [] else d.current) (path.splitOn '/') =
        .ok found := by
  unfold find
  by_cases empty : path = []
  · simp [empty]
  · cases taken : takes path <;> simp [empty]

/-- What a path leads to, by its place. -/
theorem find_eq_placeOf {path : Path} (taken : path ≠ [] ∧ takes path = true) :
    d.find follow path = (d.placeOf follow linkLimit (if path.isAbsolute then [] else d.current)
      (path.splitOn '/')).map fun place => (place, d.tree.at? place) := by
  rw [← locate_eq_placeOf, find, taken.2]
  simp [taken.1]

theorem find_of_placeOf {path : Path} {place : Place}
    (leads : (path ≠ [] ∧ takes path = true) ∧ d.placeOf follow linkLimit
      (if path.isAbsolute then [] else d.current) (path.splitOn '/') = .ok place) :
    d.find follow path = .ok (place, d.tree.at? place) := by
  rw [find_eq_placeOf leads.1, leads.2]
  rfl

theorem at?_of_find {path : Path} {place : Place} {node : Node}
    (found : d.find follow path = .ok (place, some node)) : d.tree.at? place = some node :=
  at?_of_locate (find_eq_ok.mp found).2.2

end Locate

/-- Moves what stands at one place to another place in one step. -/
def rename (d : Disk) (old new : Place) : Disk :=
  match d.tree.at? old with
  | some node => { d with tree := (d.tree.erase old).put new node }
  | none => d

section Effects

variable {d : Disk}

@[simp] theorem put_besides (place : Place) (node : Node) : (d.put place node).besides = d.besides :=
  rfl

@[simp] theorem rename_besides (old new : Place) : (d.rename old new).besides = d.besides := by
  unfold rename
  split <;> rfl

/-- A file put where no directory stands is seen there, and all else is seen as before. -/
theorem WellFormed.put_file {parent : Place} {name : Text} (wf : d.WellFormed) (content : ByteArray)
    (directory : d.look parent = some .directory) (valid : IsEntryName name)
    (leaf : d.look (parent ++ [name]) ≠ some .directory) :
    (d.put (parent ++ [name]) (.file content)).WellFormed ∧
      ∀ other, (d.put (parent ++ [name]) (.file content)).look other =
        if other = parent ++ [name] then some (.file content) else d.look other := by
  have looks := Node.look_put content directory leaf
  refine ⟨⟨wf.tree.put content directory valid, ?_⟩, looks⟩
  exact (looks []).trans (by simp [wf.top])

/-- A file that is written anew. -/
theorem WellFormed.put_over {place : Place} {old : ByteArray} (wf : d.WellFormed)
    (content : ByteArray) (found : d.look place = some (.file old)) :
    (d.put place (.file content)).WellFormed ∧ ∀ other, (d.put place (.file content)).look other =
      if other = place then some (.file content) else d.look other := by
  obtain ⟨parent, name, rfl, directory, valid⟩ := wf.exists_parent found
  exact wf.put_file content directory valid (by simp [found])

/-- A file that is taken away. -/
theorem WellFormed.erase_file {place : Place} {old : ByteArray} (wf : d.WellFormed)
    (found : d.look place = some (.file old)) :
    ({ d with tree := d.tree.erase place } : Disk).WellFormed ∧
      ∀ other, ({ d with tree := d.tree.erase place } : Disk).look other =
        if other = place then none else d.look other := by
  obtain ⟨parent, name, rfl, directory, -⟩ := wf.exists_parent found
  have leaf : d.look (parent ++ [name]) ≠ some .directory := by simp [found]
  have looks := Node.look_erase directory leaf
  refine ⟨⟨wf.tree.erase _, ?_⟩, looks⟩
  exact (looks []).trans (by simp [wf.top])

/-- A file that takes the place of another one. -/
theorem WellFormed.rename_file {old new : Place} {content replaced : ByteArray} (wf : d.WellFormed)
    (found : d.look old = some (.file content)) (target : d.look new = some (.file replaced))
    (different : old ≠ new) :
    (d.rename old new).WellFormed ∧ ∀ other, (d.rename old new).look other =
      if other = new then some (.file content) else if other = old then none else d.look other := by
  obtain ⟨wfErased, erased⟩ := wf.erase_file found
  have there : ({ d with tree := d.tree.erase old } : Disk).look new = some (.file replaced) := by
    rw [erased, if_neg (Ne.symm different), target]
  obtain ⟨wfPut, looks⟩ := wfErased.put_over content there
  have moved : d.rename old new =
      ({ d with tree := d.tree.erase old } : Disk).put new (.file content) := by
    rw [rename, Node.at?_eq_file.mpr found]
    rfl
  rw [moved]
  refine ⟨wfPut, fun other => ?_⟩
  rw [looks, erased]

end Effects

end Disk

end KeyGloss
