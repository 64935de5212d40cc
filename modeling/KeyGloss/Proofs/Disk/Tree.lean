import Mathlib.Data.List.Basic
import KeyGloss.Disk.Basic
import KeyGloss.Proofs.Dictionary

/-!
# Trees by what stands at each place

A tree is told by what can be seen at each of its places (`Node.look`): as the entries of a
directory are a dictionary, two trees that look the same everywhere are the same (`look_ext`). Putting
or taking away a single file changes what is seen at its own place and nowhere else (`look_put`,
`look_erase`).
-/

namespace KeyGloss

/-- What can be seen of a node without looking into it. -/
inductive Entry where
  | file (content : ByteArray)
  | directory
  | link (target : Path)

/-- A name that an entry of a directory can have: one piece of a path that leads on. -/
def IsEntryName (name : Text) : Prop :=
  name ≠ [] ∧ name ≠ ['.'] ∧ name ≠ ['.', '.'] ∧ '/' ∉ name

instance : DecidablePred IsEntryName := fun name =>
  inferInstanceAs (Decidable (name ≠ [] ∧ name ≠ ['.'] ∧ name ≠ ['.', '.'] ∧ '/' ∉ name))

theorem IsEntryName.slashFree {name : Text} (valid : IsEntryName name) : '/' ∉ name := valid.2.2.2

namespace Node

/-- The entries of every directory are a dictionary under names that entries can have. -/
inductive WellFormed : Node → Prop
  | file (content : ByteArray) : WellFormed (.file content)
  | link (target : Path) : WellFormed (.link target)
  | directory {entries : List (Text × Node)} (increasing : Dictionary.Increasing entries)
      (names : ∀ entry ∈ entries, IsEntryName entry.1)
      (children : ∀ entry ∈ entries, WellFormed entry.2) : WellFormed (.directory entries)

/-- What can be seen of a node. -/
def entry : Node → Entry
  | .file content => .file content
  | .directory _ => .directory
  | .link target => .link target

/-- What can be seen at a place. -/
def look (tree : Node) (place : Place) : Option Entry := (tree.at? place).map entry

theorem look_nil (tree : Node) : tree.look [] = some tree.entry := by
  simp [look, at?]

theorem look_cons (entries : List (Text × Node)) (name : Text) (place : Place) :
    (Node.directory entries).look (name :: place) =
      (Dictionary.get? entries name).bind (look · place) := by
  unfold look
  rw [at?]
  cases Dictionary.get? entries name <;> rfl

theorem look_cons_of_leaf {tree : Node} (leaf : tree.entry ≠ .directory) (name : Text)
    (place : Place) : tree.look (name :: place) = none := by
  cases tree with
  | directory entries => exact absurd rfl leaf
  | file content => rfl
  | link target => rfl

theorem at?_eq_file {tree : Node} {place : Place} {content : ByteArray} :
    tree.at? place = some (.file content) ↔ tree.look place = some (.file content) := by
  unfold look
  cases tree.at? place with
  | none => simp
  | some node => cases node <;> simp [entry]

theorem look_eq_directory {tree : Node} {place : Place} :
    tree.look place = some .directory ↔ ∃ entries, tree.at? place = some (.directory entries) := by
  unfold look
  cases tree.at? place with
  | none => simp
  | some node => cases node <;> simp [entry]

theorem at?_append (tree : Node) (place rest : Place) :
    tree.at? (place ++ rest) = (tree.at? place).bind (·.at? rest) := by
  induction place generalizing tree with
  | nil => cases tree <;> rfl
  | cons name place ih =>
    cases tree with
    | directory entries =>
      rw [List.cons_append, at?, at?]
      cases Dictionary.get? entries name with
      | none => rfl
      | some child => exact ih child
    | file content => rfl
    | link target => rfl

/-- The way to a place leads through directories only. -/
theorem look_directory_of_append {tree : Node} {place rest : Place} {seen : Entry}
    (found : tree.look (place ++ rest) = some seen) (more : rest ≠ []) :
    tree.look place = some .directory := by
  obtain ⟨name, rest, rfl⟩ := List.exists_cons_of_ne_nil more
  unfold look at found ⊢
  rw [at?_append] at found
  cases here : tree.at? place with
  | none => simp [here] at found
  | some node =>
    cases node with
    | directory entries => rfl
    | file content => simp [here, at?] at found
    | link target => simp [here, at?] at found

theorem wellFormed_directory {entries : List (Text × Node)} :
    (Node.directory entries).WellFormed ↔ Dictionary.Increasing entries ∧
      (∀ entry ∈ entries, IsEntryName entry.1) ∧ ∀ entry ∈ entries, entry.2.WellFormed :=
  ⟨fun | .directory increasing names children => ⟨increasing, names, children⟩,
    fun ⟨increasing, names, children⟩ => .directory increasing names children⟩

mutual

/-- Tells whether a tree is well formed. -/
def isWellFormed : Node → Bool
  | .directory entries => decide (Dictionary.Increasing entries) && areWellFormed entries
  | .file _ | .link _ => true

/-- Tells whether the names and the nodes of entries are well formed. -/
def areWellFormed : List (Text × Node) → Bool
  | [] => true
  | (name, node) :: rest => decide (IsEntryName name) && isWellFormed node && areWellFormed rest

end

theorem areWellFormed_iff {entries : List (Text × Node)} :
    areWellFormed entries = true ↔
      ∀ entry ∈ entries, IsEntryName entry.1 ∧ isWellFormed entry.2 = true := by
  induction entries with
  | nil => simp [areWellFormed]
  | cons entry entries ih => simp [areWellFormed, ih, and_assoc]

mutual

theorem wellFormed_of_isWellFormed : ∀ {node : Node}, isWellFormed node = true → node.WellFormed
  | .file content, _ => .file content
  | .link target, _ => .link target
  | .directory entries, checked => by
    rw [isWellFormed, Bool.and_eq_true, decide_eq_true_iff] at checked
    exact .directory checked.1 (fun entry member => (areWellFormed_iff.mp checked.2 entry member).1)
      (children_of_areWellFormed checked.2)

theorem children_of_areWellFormed :
    ∀ {entries : List (Text × Node)}, areWellFormed entries = true →
      ∀ entry ∈ entries, entry.2.WellFormed
  | [], _, _, member => nomatch member
  | (name, node) :: rest, checked, entry, member => by
    rw [areWellFormed, Bool.and_eq_true, Bool.and_eq_true] at checked
    rcases List.mem_cons.mp member with rfl | later
    · exact wellFormed_of_isWellFormed checked.1.2
    · exact children_of_areWellFormed checked.2 entry later

end

theorem WellFormed.isWellFormed {node : Node} (wf : node.WellFormed) : node.isWellFormed = true := by
  induction wf with
  | file content => rfl
  | link target => rfl
  | directory increasing names children ih =>
    rw [Node.isWellFormed, Bool.and_eq_true, decide_eq_true_iff]
    exact ⟨increasing, areWellFormed_iff.mpr fun entry member => ⟨names entry member, ih entry member⟩⟩

instance : DecidablePred WellFormed := fun node =>
  decidable_of_iff (node.isWellFormed = true)
    ⟨wellFormed_of_isWellFormed, WellFormed.isWellFormed⟩

theorem WellFormed.of_get? {entries : List (Text × Node)} {name : Text} {child : Node}
    (wf : (Node.directory entries).WellFormed) (found : Dictionary.get? entries name = some child) :
    IsEntryName name ∧ child.WellFormed := by
  obtain ⟨-, names, children⟩ := wellFormed_directory.mp wf
  have member := Dictionary.mem_of_get? found
  exact ⟨names _ member, children _ member⟩

theorem WellFormed.insert {entries : List (Text × Node)} {name : Text} {child : Node}
    (wf : (Node.directory entries).WellFormed) (valid : IsEntryName name)
    (below : child.WellFormed) : (Node.directory (Dictionary.insert name child entries)).WellFormed := by
  obtain ⟨increasing, names, children⟩ := wellFormed_directory.mp wf
  refine .directory (increasing.insert _ _) (fun entry member => ?_) fun entry member => ?_
  · rcases Dictionary.mem_insert member with rfl | old
    · exact valid
    · exact names entry old
  · rcases Dictionary.mem_insert member with rfl | old
    · exact below
    · exact children entry old

/-- The names on the way to a place are names that entries can have, and what stands there is well
formed in turn. -/
theorem WellFormed.of_at? {tree : Node} {place : Place} {node : Node}
    (wf : tree.WellFormed) (found : tree.at? place = some node) :
    (∀ name ∈ place, IsEntryName name) ∧ node.WellFormed := by
  induction place generalizing tree with
  | nil =>
    obtain rfl : tree = node := by simpa [at?] using found
    exact ⟨by simp, wf⟩
  | cons first place ih =>
    cases tree with
    | directory entries =>
      rw [at?] at found
      split at found
      · next child here =>
        obtain ⟨name, below⟩ := wf.of_get? here
        exact (ih below found).imp_left fun names => List.forall_mem_cons.mpr ⟨name, names⟩
      · cases found
    | file content => cases found
    | link target => cases found

/-- Trees that look the same at all places are the same. -/
theorem WellFormed.look_ext {tree tree' : Node} (wf : tree.WellFormed) (wf' : tree'.WellFormed)
    (same : ∀ place, tree.look place = tree'.look place) : tree = tree' := by
  induction wf generalizing tree' with
  | file content =>
    have top := same []
    rw [look_nil, look_nil] at top
    cases tree' <;> cases top
    rfl
  | link target =>
    have top := same []
    rw [look_nil, look_nil] at top
    cases tree' <;> cases top
    rfl
  | @directory entries increasing names children ih =>
    have top := same []
    rw [look_nil, look_nil] at top
    cases tree' with
    | file content => cases top
    | link target => cases top
    | directory entries' =>
      obtain ⟨increasing', -, children'⟩ := wellFormed_directory.mp wf'
      congr 1
      refine increasing.ext increasing' fun name => ?_
      have below : ∀ place, (Dictionary.get? entries name).bind (look · place) =
          (Dictionary.get? entries' name).bind (look · place) := by
        intro place
        rw [← look_cons, ← look_cons, same]
      cases here : Dictionary.get? entries name with
      | none =>
        cases there : Dictionary.get? entries' name with
        | none => rfl
        | some child' =>
          have first := below []
          simp [here, there, look_nil] at first
      | some child =>
        cases there : Dictionary.get? entries' name with
        | none =>
          have first := below []
          simp [here, there, look_nil] at first
        | some child' =>
          congr 1
          refine ih _ (Dictionary.mem_of_get? here) (children' _ (Dictionary.mem_of_get? there)) ?_
          intro place
          simpa [here, there] using below place

section Leaf

variable {tree : Node} {place : Place} {name : Text}

theorem put_cons_of_get? {entries : List (Text × Node)} {child : Node} (new : Node)
    (found : Dictionary.get? entries name = some child) :
    (Node.directory entries).put (name :: place) new =
      .directory (Dictionary.insert name (child.put place new) entries) := by
  rw [put, found]
  rfl

/-- A file that is put into a directory, where no directory stood, is seen at its place and changes
nothing that is seen elsewhere. -/
theorem look_put (content : ByteArray) (parent : tree.look place = some .directory)
    (leaf : tree.look (place ++ [name]) ≠ some .directory) (other : Place) :
    (tree.put (place ++ [name]) (.file content)).look other =
      if other = place ++ [name] then some (.file content) else tree.look other := by
  induction place generalizing tree other with
  | nil =>
    obtain ⟨entries, found⟩ := look_eq_directory.mp parent
    obtain rfl : tree = .directory entries := by simpa [at?] using found
    rw [List.nil_append] at leaf ⊢
    rw [put]
    cases other with
    | nil => simp [look_nil, entry]
    | cons first other =>
      simp only [put, look_cons, Dictionary.get?_insert]
      by_cases here : first = name
      · subst here
        rw [look_cons] at leaf
        cases other with
        | nil => simp [look_nil, entry]
        | cons second other =>
          -- What stood there was no directory, so nothing was below it.
          have nothing : (Node.file content).look (second :: other) = none :=
            look_cons_of_leaf (by simp [entry]) second other
          cases before : Dictionary.get? entries first with
          | none => simp [nothing]
          | some child =>
            have noDirectory : child.entry ≠ .directory := by
              simpa [before, look_nil] using leaf
            simp [nothing, look_cons_of_leaf noDirectory]
      · simp [here]
  | cons first place ih =>
    cases tree with
    | file content => cases parent
    | link target => cases parent
    | directory entries =>
      rw [List.cons_append, look_cons] at leaf
      obtain ⟨child, found, below⟩ := Option.bind_eq_some_iff.mp ((look_cons ..).symm.trans parent)
      rw [found] at leaf
      rw [List.cons_append, put_cons_of_get? _ found]
      cases other with
      | nil => simp [look_nil, entry]
      | cons start other =>
        rw [look_cons, Dictionary.get?_insert, look_cons]
        by_cases here : start = first
        · subst here
          simp [found, ih below leaf other]
        · simp [here]

theorem WellFormed.put (wf : tree.WellFormed) (content : ByteArray)
    (parent : tree.look place = some .directory) (valid : IsEntryName name) :
    (tree.put (place ++ [name]) (.file content)).WellFormed := by
  induction place generalizing tree with
  | nil =>
    obtain ⟨entries, found⟩ := look_eq_directory.mp parent
    obtain rfl : tree = .directory entries := by simpa [at?] using found
    rw [List.nil_append, Node.put]
    exact wf.insert valid (.file content)
  | cons first place ih =>
    cases tree with
    | file content => cases parent
    | link target => cases parent
    | directory entries =>
      obtain ⟨child, found, below⟩ := Option.bind_eq_some_iff.mp ((look_cons ..).symm.trans parent)
      obtain ⟨firstValid, childWf⟩ := wf.of_get? found
      rw [List.cons_append, put_cons_of_get? _ found]
      exact wf.insert firstValid (ih childWf below)

theorem erase_cons_of_get? {entries : List (Text × Node)} {child : Node} (more : place ≠ [])
    (found : Dictionary.get? entries name = some child) :
    (Node.directory entries).erase (name :: place) =
      .directory (Dictionary.insert name (child.erase place) entries) := by
  obtain ⟨second, place, rfl⟩ := List.exists_cons_of_ne_nil more
  rw [erase, found]
  simp

/-- A leaf that is taken away is no longer seen, and all else is. -/
theorem look_erase (parent : tree.look place = some .directory)
    (leaf : tree.look (place ++ [name]) ≠ some .directory) (other : Place) :
    (tree.erase (place ++ [name])).look other =
      if other = place ++ [name] then none else tree.look other := by
  induction place generalizing tree other with
  | nil =>
    obtain ⟨entries, found⟩ := look_eq_directory.mp parent
    obtain rfl : tree = .directory entries := by simpa [at?] using found
    rw [List.nil_append] at leaf ⊢
    rw [erase]
    cases other with
    | nil => simp [look_nil, entry]
    | cons first other =>
      rw [look_cons, Dictionary.get?_filter_ne, look_cons]
      by_cases here : first = name
      · subst here
        rw [look_cons] at leaf
        cases before : Dictionary.get? entries first with
        | none => simp
        | some child =>
          have noDirectory : child.entry ≠ .directory := by
            simpa [before, look_nil] using leaf
          cases other with
          | nil => simp
          | cons second other => simp [look_cons_of_leaf noDirectory]
      · simp [here]
  | cons first place ih =>
    cases tree with
    | file content => cases parent
    | link target => cases parent
    | directory entries =>
      rw [List.cons_append, look_cons] at leaf
      obtain ⟨child, found, below⟩ := Option.bind_eq_some_iff.mp ((look_cons ..).symm.trans parent)
      rw [found] at leaf
      rw [List.cons_append, erase_cons_of_get? (by simp) found]
      cases other with
      | nil => simp [look_nil, entry]
      | cons start other =>
        rw [look_cons, Dictionary.get?_insert, look_cons]
        by_cases here : start = first
        · subst here
          simp [found, ih below leaf other]
        · simp [here]

theorem WellFormed.erase (wf : tree.WellFormed) (place : Place) : (tree.erase place).WellFormed := by
  induction place generalizing tree with
  | nil => cases tree <;> exact wf
  | cons name place ih =>
    cases tree with
    | file content => exact wf
    | link target => exact wf
    | directory entries =>
      cases place with
      | nil =>
        obtain ⟨increasing, names, children⟩ := wellFormed_directory.mp wf
        rw [Node.erase]
        exact .directory (increasing.filter _)
          (fun entry member => names entry (List.mem_of_mem_filter member))
          fun entry member => children entry (List.mem_of_mem_filter member)
      | cons second place =>
        rw [Node.erase]
        split
        · next child found =>
          obtain ⟨valid, below⟩ := wf.of_get? found
          exact wf.insert valid (ih below)
        · exact wf
        · simp

end Leaf

end Node

end KeyGloss
