import Mathlib.Data.List.Induction
import KeyGloss.KeyModule
import KeyGloss.Proofs.Dictionary
import KeyGloss.Proofs.Text

/-!
# The properties of the key module

What stands under a path of property names once all keys were put in their places. It does not depend
on the order of the keys: under a path there are properties if some key nests below it, and else the
key that the path spells (`listed_ofKeys`). `look_place` is the step lemma.
-/

namespace KeyGloss

namespace KeyNode

/-- What stands under a path of property names. -/
def at? : KeyNode → List Text → Option KeyNode
  | node, [] => some node
  | .branch children, name :: rest => (Dictionary.get? children name).bind (at? · rest)
  | .leaf _, _ :: _ => none

/-- What can be seen of a property: its key, or that it has properties of its own. -/
inductive Shape where
  | leaf (key : Text)
  | branch
  deriving DecidableEq

def shape : KeyNode → Shape
  | .leaf key => .leaf key
  | .branch _ => .branch

theorem shape_eq_leaf {node : KeyNode} {key : Text} : node.shape = .leaf key ↔ node = .leaf key := by
  cases node <;> simp [shape]

/-- What can be seen under a path. -/
def look (tree : Dictionary KeyNode) (path : List Text) : Option Shape :=
  (at? (.branch tree) path).map shape

theorem at?_eq_leaf {tree : Dictionary KeyNode} {path : List Text} {key : Text} :
    at? (.branch tree) path = some (.leaf key) ↔ look tree path = some (.leaf key) := by
  unfold look
  cases at? (.branch tree) path <;> simp [shape_eq_leaf]

theorem look_nil (tree : Dictionary KeyNode) : look tree [] = some .branch := by
  simp [look, at?, shape]

theorem look_cons (tree : Dictionary KeyNode) (name : Text) (path : List Text) :
    look tree (name :: path) =
      match tree.get? name with
      | some (.branch children) => look children path
      | some (.leaf key) => if path = [] then some (.leaf key) else none
      | none => none := by
  unfold look
  rw [at?]
  split
  · next found => rw [found, Option.bind_some]
  · next found =>
    rw [found, Option.bind_some]
    cases path <;> simp [at?, shape]
  · next found => rw [found, Option.bind_none, Option.map_none]

theorem look_empty (path : List Text) : look [] path = if path = [] then some .branch else none := by
  cases path with
  | nil => exact look_nil []
  | cons name path => simp [look_cons, Dictionary.get?]

theorem look_insert (tree : Dictionary KeyNode) (name other : Text) (path : List Text)
    (node : KeyNode) :
    look (tree.insert name node) (other :: path) =
      if other = name then
        match node with
        | .branch children => look children path
        | .leaf key => if path = [] then some (.leaf key) else none
      else look tree (other :: path) := by
  rw [look_cons, Dictionary.get?_insert]
  by_cases same : other = name
  · rw [if_pos same, if_pos same]
    cases node <;> rfl
  · rw [if_neg same, if_neg same, look_cons]

theorem place_singleton_of_branch (key : Text) {last : Text} {tree : Dictionary KeyNode}
    {children : List (Text × KeyNode)} (found : tree.get? last = some (.branch children)) :
    (place key [last] tree).1 = tree := by
  simp [place, found]

theorem place_singleton_of_other (key : Text) {last : Text} {tree : Dictionary KeyNode}
    (other : ∀ children, tree.get? last ≠ some (.branch children)) :
    (place key [last] tree).1 = tree.insert last (.leaf key) := by
  unfold place
  split
  · next children found => exact absurd found (other children)
  · rfl

/-- Only what has properties shows something below. -/
theorem look_of_other {name : Text} {tree : Dictionary KeyNode}
    (other : ∀ children, tree.get? name ≠ some (.branch children)) (path : List Text) :
    look tree (name :: path) ≠ some .branch ∧ (path ≠ [] → look tree (name :: path) = none) := by
  rw [look_cons]
  split
  · next children found => exact absurd found (other children)
  · constructor
    · split <;> simp
    · intro below
      rw [if_neg below]
  · simp

theorem place_cons (key segment : Text) {rest : List Text} (more : rest ≠ [])
    (tree : Dictionary KeyNode) :
    (place key (segment :: rest) tree).1 =
      tree.insert segment (.branch (place key rest (openBranch (tree.get? segment)).1).1) := by
  obtain ⟨next, rest, rfl⟩ := List.exists_cons_of_ne_nil more
  rfl

/-- Below a name, the properties that are opened there show what was seen before. -/
theorem look_openBranch (tree : Dictionary KeyNode) (name : Text) {path : List Text}
    (below : path ≠ []) : look (openBranch (tree.get? name)).1 path = look tree (name :: path) := by
  rw [look_cons]
  split
  · next found => rw [found, openBranch]
  · next found => rw [found, openBranch, look_empty, if_neg below, if_neg below]
  · next found => rw [found, openBranch, look_empty, if_neg below]

/-- What is seen under other names does not change. -/
theorem look_place_of_ne (key : Text) {name segment : Text} (rest : List Text)
    (tree : Dictionary KeyNode) (path : List Text) (apart : name ≠ segment) :
    look (place key (segment :: rest) tree).1 (name :: path) = look tree (name :: path) := by
  by_cases more : rest = []
  · subst more
    by_cases nested : ∃ children, tree.get? segment = some (.branch children)
    · obtain ⟨children, found⟩ := nested
      rw [place_singleton_of_branch key found]
    · rw [place_singleton_of_other key (not_exists.mp nested), look_insert, if_neg apart]
  · rw [place_cons key segment more, look_insert, if_neg apart]

/-- At the end of the way the key is seen, or the properties that were there before. -/
theorem look_place_singleton (key last : Text) (tree : Dictionary KeyNode) (path : List Text) :
    look (place key [last] tree).1 (last :: path) =
      if path = [] then
        if look tree [last] = some .branch then some .branch else some (.leaf key)
      else look tree (last :: path) := by
  by_cases nested : ∃ children, tree.get? last = some (.branch children)
  · obtain ⟨children, found⟩ := nested
    rw [place_singleton_of_branch key found]
    split
    · next ends => simp [ends, look_cons, found, look_nil]
    · rfl
  · have other := not_exists.mp nested
    rw [place_singleton_of_other key other, look_insert, if_pos rfl]
    simp only
    by_cases ends : path = []
    · rw [if_pos ends, if_pos ends, if_neg (look_of_other other []).1]
    · rw [if_neg ends, if_neg ends, (look_of_other other path).2 ends]

/-- A key that is put in its place opens all properties on the way, and is seen there itself unless
other keys nest under it. Nothing else changes. -/
theorem look_place (key : Text) {segments : List Text} (notEmpty : segments ≠ [])
    (tree : Dictionary KeyNode) (path : List Text) :
    look (place key segments tree).1 path =
      if path = segments then
        if look tree path = some .branch then some .branch else some (.leaf key)
      else if path <+: segments then some .branch
      else look tree path := by
  induction segments generalizing tree path with
  | nil => exact absurd rfl notEmpty
  | cons segment rest ih =>
    cases path with
    | nil => simp [look_nil]
    | cons name path =>
      by_cases here : name = segment
      · subst here
        simp only [List.cons.injEq, true_and, List.cons_prefix_cons]
        by_cases more : rest = []
        · subst more
          rw [look_place_singleton]
          by_cases ends : path = []
          · simp only [ends, if_true]
          · simp only [ends, List.prefix_nil, if_false]
        · rw [place_cons key name more, look_insert, if_pos rfl]
          simp only
          rw [ih more]
          by_cases below : path = []
          · subst below
            rw [if_neg (Ne.symm more), if_neg (Ne.symm more), if_pos List.nil_prefix,
              if_pos List.nil_prefix]
          · rw [look_openBranch tree name below]
      · rw [look_place_of_ne key rest tree path here, if_neg (by simp [here]),
          if_neg (by simp [List.cons_prefix_cons, here])]

/-- The names that lead to a key. -/
def segments (key : Text) : List Text := key.splitOn '.'

theorem segments_ne_nil (key : Text) : segments key ≠ [] := List.splitOn_ne_nil '.' key

theorem segments_inj {key other : Text} (same : segments key = segments other) : key = other := by
  rw [← Text.join_splitOn '.' key, ← Text.join_splitOn '.' other]
  exact congrArg _ same

/-- Whether a key lies below a path, and not at it. -/
def Below (path : List Text) (key : Text) : Prop := path <+: segments key ∧ path ≠ segments key

/-- A key lies below the place of another one if it starts with that one and a dot. -/
theorem below_segments_iff {key other : Text} :
    Below (segments key) other ↔ key ++ ['.'] <+: other := by
  constructor
  · rintro ⟨⟨rest, equal⟩, apart⟩
    have more : rest ≠ [] := by
      rintro rfl
      exact apart (by simpa using equal)
    refine ⟨Text.join ['.'] rest, ?_⟩
    have joined := congrArg (Text.join ['.']) equal
    rw [Text.join_append _ (segments_ne_nil key) more] at joined
    simpa only [segments, Text.join_splitOn] using joined
  · rintro ⟨rest, rfl⟩
    have split : segments (key ++ ['.'] ++ rest) = segments key ++ segments rest := by
      simp [segments, List.splitOn_append_cons_self]
    refine ⟨⟨segments rest, split.symm⟩, fun same => ?_⟩
    rw [split] at same
    exact segments_ne_nil rest (List.self_eq_append_right.mp same)

/-- Properties that show exactly the given keys: every path above a key, and every key that no other
one lies below. -/
structure Listed (keys : List Text) (tree : Dictionary KeyNode) : Prop where
  branch : ∀ path, look tree path = some .branch ↔ path = [] ∨ ∃ key ∈ keys, Below path key
  leaf : ∀ path key, look tree path = some (.leaf key) ↔
    key ∈ keys ∧ segments key = path ∧ ∀ other ∈ keys, ¬ Below path other

theorem listed_nil : Listed [] [] where
  branch path := by simp [look_empty]
  leaf path key := by
    rw [look_empty]
    split <;> simp

section Place

variable {keys : List Text} {tree : Dictionary KeyNode}

theorem Listed.branch_place (listed : Listed keys tree) (key : Text) (path : List Text) :
    look (place key (segments key) tree).1 path = some .branch ↔
      path = [] ∨ ∃ other ∈ keys ++ [key], Below path other := by
  have within : (∃ other ∈ keys ++ [key], Below path other) ↔
      (∃ other ∈ keys, Below path other) ∨ Below path key := by
    simp [or_and_right, exists_or]
  rw [look_place key (segments_ne_nil key), within, ← or_assoc, ← listed.branch path]
  by_cases here : path = segments key
  · subst here
    have self : ¬ Below (segments key) key := fun below => below.2 rfl
    simp [self]
  · by_cases above : path <+: segments key
    · simp [here, above, Below]
    · simp [here, above, Below]

/-- At the place of the new key, another key can only be the same. -/
theorem Listed.leaf_place_self (listed : Listed keys tree) (key other : Text) :
    look (place key (segments key) tree).1 (segments key) = some (.leaf other) ↔
      other ∈ keys ++ [key] ∧ segments other = segments key ∧
        ∀ third ∈ keys ++ [key], ¬ Below (segments key) third := by
  have old := listed.branch (segments key)
  rw [look_place key (segments_ne_nil key), if_pos rfl]
  split
  · next nested =>
    obtain ⟨below, member, lies⟩ := (old.mp nested).resolve_left (segments_ne_nil key)
    constructor
    · intro equal
      cases equal
    · rintro ⟨-, -, free⟩
      exact absurd lies (free below (List.mem_append_left _ member))
  · next alone =>
    constructor
    · intro equal
      cases equal
      refine ⟨by simp, rfl, fun third member below => ?_⟩
      rcases List.mem_append.mp member with before | last
      · exact alone (old.mpr (.inr ⟨third, before, below⟩))
      · exact below.2 (congrArg segments (List.mem_singleton.mp last).symm)
    · rintro ⟨-, same, -⟩
      rw [segments_inj same]

theorem Listed.leaf_place_of_ne (listed : Listed keys tree) (key other : Text) {path : List Text}
    (here : path ≠ segments key) :
    look (place key (segments key) tree).1 path = some (.leaf other) ↔
      other ∈ keys ++ [key] ∧ segments other = path ∧
        ∀ third ∈ keys ++ [key], ¬ Below path third := by
  rw [look_place key (segments_ne_nil key), if_neg here]
  split
  · next above =>
    constructor
    · intro equal
      cases equal
    · rintro ⟨-, -, free⟩
      exact absurd ⟨above, here⟩ (free key (by simp))
  · next apart =>
    rw [listed.leaf path other]
    constructor
    · rintro ⟨member, same, free⟩
      refine ⟨List.mem_append_left _ member, same, fun third inside below => ?_⟩
      rcases List.mem_append.mp inside with before | last
      · exact free third before below
      · exact apart (List.mem_singleton.mp last ▸ below.1)
    · rintro ⟨member, same, free⟩
      refine ⟨?_, same, fun third inside => free third (List.mem_append_left _ inside)⟩
      rcases List.mem_append.mp member with before | last
      · exact before
      · exact absurd (List.mem_singleton.mp last ▸ same).symm here

theorem Listed.place (listed : Listed keys tree) (key : Text) :
    Listed (keys ++ [key]) (place key (segments key) tree).1 where
  branch := listed.branch_place key
  leaf path other := by
    by_cases here : path = segments key
    · rw [here]
      exact listed.leaf_place_self key other
    · exact listed.leaf_place_of_ne key other here

end Place

/-- One key more. -/
theorem ofKeys_concat (keys : List Text) (key : Text) :
    (ofKeys (keys ++ [key])).1 = (place key (segments key) (ofKeys keys).1).1 := by
  simp [ofKeys, segments]

/-- The properties of all keys show exactly these keys, in whatever order they are given. -/
theorem listed_ofKeys (keys : List Text) : Listed keys (ofKeys keys).1 := by
  induction keys using List.reverseRecOn with
  | nil => exact listed_nil
  | append_singleton keys key ih =>
    rw [ofKeys_concat]
    exact ih.place key

/-- Properties in increasing order of their names, at every level. -/
inductive Ordered : KeyNode → Prop
  | leaf (key : Text) : Ordered (.leaf key)
  | branch {children : List (Text × KeyNode)} (increasing : Dictionary.Increasing children)
      (below : ∀ entry ∈ children, Ordered entry.2) : Ordered (.branch children)

theorem Ordered.of_get? {tree : Dictionary KeyNode} {name : Text} {node : KeyNode}
    (ordered : Ordered (.branch tree)) (found : tree.get? name = some node) : Ordered node := by
  cases ordered with
  | branch increasing below => exact below _ (Dictionary.mem_of_get? found)

theorem Ordered.insert {tree : Dictionary KeyNode} {node : KeyNode}
    (ordered : Ordered (.branch tree)) (name : Text) (new : Ordered node) :
    Ordered (.branch (tree.insert name node)) := by
  cases ordered with
  | branch increasing below =>
    refine .branch (increasing.insert name node) fun entry member => ?_
    rcases Dictionary.mem_insert member with rfl | old
    · exact new
    · exact below entry old

theorem ordered_empty : Ordered (.branch []) := .branch List.Pairwise.nil (by simp)

theorem Ordered.place {tree : Dictionary KeyNode} (ordered : Ordered (.branch tree)) (key : Text)
    (segments : List Text) : Ordered (.branch (place key segments tree).1) := by
  induction segments generalizing tree with
  | nil => exact ordered
  | cons segment rest ih =>
    by_cases more : rest = []
    · subst more
      by_cases nested : ∃ children, tree.get? segment = some (.branch children)
      · obtain ⟨children, found⟩ := nested
        rwa [place_singleton_of_branch key found]
      · rw [place_singleton_of_other key (not_exists.mp nested)]
        exact ordered.insert segment (.leaf key)
    · rw [place_cons key segment more]
      refine ordered.insert segment (ih ?_)
      cases found : tree.get? segment with
      | none => exact ordered_empty
      | some node =>
        cases node with
        | leaf old => exact ordered_empty
        | branch children => exact ordered.of_get? found

theorem ordered_ofKeys (keys : List Text) : Ordered (.branch (ofKeys keys).1) := by
  induction keys using List.reverseRecOn with
  | nil => exact ordered_empty
  | append_singleton keys key ih =>
    rw [ofKeys_concat]
    exact ih.place key (segments key)

end KeyNode

end KeyGloss
