import Mathlib.Data.List.Nodup
import KeyGloss.Proofs.KeyModule.Tree

/-!
# The keys in the key module and the keys left out

The leaves of a property, each with the names that lead to it. When no name occurs twice they are what
stands under the paths (`Ordered.mem_leaves`), and there are as many as are counted (`length_leaves`).
A key has no place exactly if another key lies below it (`mem_skipped`); `mem_lost` is the step lemma. So
the module of a map lists each key once, as a leaf (`leaves_perm`) or as left out (`skipped_perm`).
-/

namespace KeyGloss

namespace KeyNode

/-! ## Leaves -/

mutual

/-- The keys of a property, each with the names that lead to it. -/
def leaves : KeyNode → List (List Text × Text)
  | .leaf key => [([], key)]
  | .branch children => leavesAll children

/-- The keys of properties, each with the names that lead to it. -/
def leavesAll : List (Text × KeyNode) → List (List Text × Text)
  | [] => []
  | (name, node) :: rest => (leaves node).map (fun (path, key) => (name :: path, key)) ++ leavesAll rest

end

mutual

theorem length_leaves : ∀ node : KeyNode, (leaves node).length = count node
  | .leaf key => by rw [leaves, count, List.length_singleton]
  | .branch children => by rw [leaves, count, length_leavesAll children]

theorem length_leavesAll :
    ∀ children : List (Text × KeyNode), (leavesAll children).length = countAll children
  | [] => by rw [leavesAll, countAll, List.length_nil]
  | (name, node) :: rest => by
    rw [leavesAll, countAll, List.length_append, List.length_map, length_leaves node,
      length_leavesAll rest]

end

theorem mem_leavesAll {children : List (Text × KeyNode)} {path : List Text} {key : Text} :
    (path, key) ∈ leavesAll children ↔
      ∃ entry ∈ children, ∃ rest, (rest, key) ∈ leaves entry.2 ∧ path = entry.1 :: rest := by
  induction children with
  | nil => simp [leavesAll]
  | cons entry children ih =>
    obtain ⟨name, node⟩ := entry
    rw [leavesAll, List.mem_append, ih, List.exists_mem_cons_iff]
    refine or_congr_left ?_
    constructor
    · intro mapped
      obtain ⟨⟨rest, other⟩, member, equal⟩ := List.mem_map.mp mapped
      cases equal
      exact ⟨rest, member, rfl⟩
    · rintro ⟨rest, member, rfl⟩
      exact List.mem_map.mpr ⟨(rest, key), member, rfl⟩

/-- The leaves of ordered properties are the keys that stand under the paths. -/
theorem Ordered.mem_leaves {node : KeyNode} (ordered : Ordered node) {path : List Text} {key : Text} :
    (path, key) ∈ leaves node ↔ at? node path = some (.leaf key) := by
  induction ordered generalizing path with
  | leaf other =>
    cases path with
    | nil => simp [leaves, at?, eq_comm]
    | cons name rest => simp [leaves, at?]
  | @branch children increasing below ih =>
    rw [leaves, mem_leavesAll]
    cases path with
    | nil => simp [at?]
    | cons name rest =>
      rw [at?, Option.bind_eq_some_iff]
      constructor
      · rintro ⟨⟨first, node⟩, member, more, inside, equal⟩
        cases equal
        exact ⟨node, increasing.get?_of_mem member, (ih _ member).mp inside⟩
      · rintro ⟨node, found, leads⟩
        have member := Dictionary.mem_of_get? found
        exact ⟨_, member, rest, (ih _ member).mpr leads, rfl⟩

/-- No property name occurs twice in an object, at any level. -/
inductive DistinctNames : KeyNode → Prop
  | leaf (key : Text) : DistinctNames (.leaf key)
  | branch {children : List (Text × KeyNode)} (distinct : (children.map (·.1)).Nodup)
      (below : ∀ entry ∈ children, DistinctNames entry.2) : DistinctNames (.branch children)

theorem Ordered.distinctNames {node : KeyNode} (ordered : Ordered node) : DistinctNames node := by
  induction ordered with
  | leaf key => exact .leaf key
  | branch increasing below ih =>
    refine .branch ?_ ih
    rw [List.Nodup, List.pairwise_map]
    exact increasing.imp fun smaller => Std.ne_of_lt smaller

theorem nodup_leavesAll {children : List (Text × KeyNode)} (distinct : (children.map (·.1)).Nodup)
    (each : ∀ entry ∈ children, (leaves entry.2).Nodup) : (leavesAll children).Nodup := by
  induction children with
  | nil => exact List.Pairwise.nil
  | cons entry children ih =>
    obtain ⟨name, node⟩ := entry
    obtain ⟨here, later⟩ := List.forall_mem_cons.mp each
    rw [List.map_cons, List.nodup_cons] at distinct
    rw [leavesAll, List.nodup_append]
    refine ⟨List.Nodup.map ?_ here, ih distinct.2 later, ?_⟩
    · rintro ⟨path, key⟩ ⟨path', key'⟩ equal
      cases equal
      rfl
    · -- Leaves of different properties differ in their first names.
      rintro _ first ⟨path, key⟩ second equal
      obtain ⟨⟨rest, other⟩, -, rfl⟩ := List.mem_map.mp first
      obtain ⟨entry, member, more, -, leads⟩ := mem_leavesAll.mp second
      cases equal
      cases leads
      exact distinct.1 (List.mem_map.mpr ⟨entry, member, rfl⟩)

theorem DistinctNames.nodup_leaves {node : KeyNode} (distinct : DistinctNames node) :
    (leaves node).Nodup := by
  induction distinct with
  | leaf key => exact List.nodup_singleton ([], key)
  | branch names below ih => exact nodup_leavesAll names ih

/-! ## Keys without a place -/

/-- The key that gives way where properties are opened. -/
theorem mem_openBranch (tree : Dictionary KeyNode) (name key : Text) :
    key ∈ (openBranch (tree.get? name)).2 ↔ look tree [name] = some (.leaf key) := by
  rw [look_cons]
  split
  · next found => simp [found, openBranch, look_nil]
  · next found => simp [found, openBranch, eq_comm]
  · next found => simp [found, openBranch]

/-- A key stands as a leaf on the way that the names lead. -/
def OnWay (tree : Dictionary KeyNode) (segments : List Text) (key : Text) : Prop :=
  ∃ path, path <+: segments ∧ path ≠ segments ∧ look tree path = some (.leaf key)

theorem not_onWay_singleton (tree : Dictionary KeyNode) (last key : Text) :
    ¬ OnWay tree [last] key := by
  rintro ⟨path, within, shorter, stands⟩
  cases path with
  | nil => simp [look_nil] at stands
  | cons name path =>
    obtain ⟨rfl, ends⟩ := List.cons_prefix_cons.mp within
    exact shorter (by rw [List.prefix_nil.mp ends])

/-- A leaf on the way stands under its first name, or on the way below. -/
theorem onWay_cons (tree : Dictionary KeyNode) (segment key : Text) {rest : List Text}
    (more : rest ≠ []) :
    OnWay tree (segment :: rest) key ↔
      look tree [segment] = some (.leaf key) ∨
        OnWay (openBranch (tree.get? segment)).1 rest key := by
  constructor
  · rintro ⟨path, within, shorter, stands⟩
    cases path with
    | nil => simp [look_nil] at stands
    | cons name path =>
      obtain ⟨rfl, inner⟩ := List.cons_prefix_cons.mp within
      by_cases here : path = []
      · subst here
        exact .inl stands
      · refine .inr ⟨path, inner, fun equal => shorter (by rw [equal]), ?_⟩
        rwa [look_openBranch tree name here]
  · rintro (stands | ⟨path, within, shorter, stands⟩)
    · exact ⟨[segment], by simp, by simp [Ne.symm more], stands⟩
    · have here : path ≠ [] := by
        rintro rfl
        simp [look_nil] at stands
      rw [look_openBranch tree segment here] at stands
      exact ⟨segment :: path, List.cons_prefix_cons.mpr ⟨rfl, within⟩, by simpa using shorter, stands⟩

theorem mem_lost_singleton (key last other : Text) (tree : Dictionary KeyNode) :
    other ∈ (place key [last] tree).2 ↔ other = key ∧ look tree [last] = some .branch := by
  unfold place
  split
  · next children found => simp [look_cons, found, look_nil]
  · next noBranch =>
    have alone := (look_of_other (fun children found => noBranch children found) []).1
    simp [alone]

/-- The keys that lose their place to a new one are the leaves on its way, and the new one has none itself
where there are properties already. -/
theorem mem_lost (key other : Text) {segments : List Text} (notEmpty : segments ≠ [])
    (tree : Dictionary KeyNode) :
    other ∈ (place key segments tree).2 ↔
      OnWay tree segments other ∨ other = key ∧ look tree segments = some .branch := by
  induction segments generalizing tree with
  | nil => exact absurd rfl notEmpty
  | cons segment rest ih =>
    by_cases more : rest = []
    · subst more
      rw [mem_lost_singleton]
      exact (or_iff_right (not_onWay_singleton tree segment other)).symm
    · have lost : (place key (segment :: rest) tree).2 =
          (openBranch (tree.get? segment)).2 ++
            (place key rest (openBranch (tree.get? segment)).1).2 := by
        obtain ⟨next, rest, rfl⟩ := List.exists_cons_of_ne_nil more
        rfl
      rw [lost, List.mem_append, mem_openBranch, ih more, look_openBranch tree segment more,
        onWay_cons tree segment other more, or_assoc]

/-- The leaves on the way of a key are the keys that it lies below and that kept their place so far. -/
theorem Listed.onWay_iff {keys : List Text} {tree : Dictionary KeyNode} (listed : Listed keys tree)
    (key other : Text) :
    OnWay tree (segments key) other ↔
      other ∈ keys ∧ Below (segments other) key ∧ ∀ third ∈ keys, ¬ Below (segments other) third := by
  constructor
  · rintro ⟨path, within, shorter, stands⟩
    obtain ⟨member, rfl, free⟩ := (listed.leaf path other).mp stands
    exact ⟨member, ⟨within, shorter⟩, free⟩
  · rintro ⟨member, below, free⟩
    exact ⟨segments other, below.1, below.2, (listed.leaf _ other).mpr ⟨member, rfl, free⟩⟩

theorem ofKeys_concat_snd (keys : List Text) (key : Text) :
    (ofKeys (keys ++ [key])).2 =
      (ofKeys keys).2 ++ (place key (segments key) (ofKeys keys).1).2 := by
  simp [ofKeys, segments]

/-- A key is left out exactly if another key lies below it, in whatever order the keys are given. -/
theorem mem_skipped (keys : List Text) (other : Text) :
    other ∈ (ofKeys keys).2 ↔ other ∈ keys ∧ ∃ third ∈ keys, Below (segments other) third := by
  induction keys using List.reverseRecOn with
  | nil => simp [ofKeys]
  | append_singleton keys key ih =>
    have listed := listed_ofKeys keys
    have self : ¬ Below (segments key) key := fun below => below.2 rfl
    have nested : look (ofKeys keys).1 (segments key) = some .branch ↔
        ∃ third ∈ keys, Below (segments key) third := by
      rw [listed.branch, or_iff_right (segments_ne_nil key)]
    rw [ofKeys_concat_snd, List.mem_append, ih, mem_lost key other (segments_ne_nil key),
      listed.onWay_iff, nested]
    simp only [List.mem_append, List.mem_singleton]
    constructor
    · rintro (⟨member, third, inside, below⟩ | ⟨member, below, -⟩ | ⟨rfl, third, inside, below⟩)
      · exact ⟨.inl member, third, .inl inside, below⟩
      · exact ⟨.inl member, key, .inr rfl, below⟩
      · exact ⟨.inr rfl, third, .inl inside, below⟩
    · rintro ⟨member | rfl, third, inside | rfl, below⟩
      · exact .inl ⟨member, third, inside, below⟩
      · -- It was left out before, or loses its place now.
        by_cases before : ∃ earlier ∈ keys, Below (segments other) earlier
        · exact .inl ⟨member, before⟩
        · exact .inr (.inl ⟨member, below, fun earlier inside lies => before ⟨earlier, inside, lies⟩⟩)
      · exact .inr (.inr ⟨rfl, third, inside, below⟩)
      · exact absurd below self

end KeyNode

namespace KeyModule

open KeyNode

/-! ## The keys of a map -/

/-- The keys that a module leaves out are those that other keys nest under. -/
theorem mem_skipped_iff (m : KeyMap) (importAs key : Text) :
    key ∈ (ofKeyMap m importAs).skipped ↔
      key ∈ m.keys ∧ ∃ other ∈ m.keys, key ++ ['.'] <+: other := by
  have listed : key ∈ (ofKeyMap m importAs).skipped ↔ key ∈ (ofKeys m.keys).2 := by
    simp only [ofKeyMap, Dictionary.mem_keys_ofList, List.map_map, Function.comp_def, List.map_id']
  simp only [listed, mem_skipped, below_segments_iff]

/-- The leaves of the module's object are the keys that were not left out, each under its own names. -/
theorem mem_leaves_iff (m : KeyMap) (importAs : Text) (path : List Text) (key : Text) :
    (path, key) ∈ leaves (.branch (ofKeys m.keys).1) ↔
      key ∈ m.keys ∧ key ∉ (ofKeyMap m importAs).skipped ∧ path = key.splitOn '.' := by
  rw [(ordered_ofKeys m.keys).mem_leaves, at?_eq_leaf, (listed_ofKeys m.keys).leaf, mem_skipped_iff]
  constructor
  · rintro ⟨member, rfl, alone⟩
    refine ⟨member, ?_, rfl⟩
    rintro ⟨-, other, inside, nested⟩
    exact alone other inside (below_segments_iff.mpr nested)
  · rintro ⟨member, kept, rfl⟩
    refine ⟨member, rfl, fun other inside below => kept ⟨member, other, inside, ?_⟩⟩
    exact below_segments_iff.mp below

theorem nodup_keys (m : KeyMap) : m.keys.Nodup :=
  List.pairwise_map.mpr (m.increasing.imp fun smaller => Std.ne_of_lt smaller)

/-- Each key that was not left out is a leaf once. -/
theorem leaves_perm (m : KeyMap) (importAs : Text) :
    ((leaves (.branch (ofKeys m.keys).1)).map (·.2)).Perm
      (m.keys.filter (· ∉ (ofKeyMap m importAs).skipped)) := by
  have listed := mem_leaves_iff m importAs
  have once : ((leaves (.branch (ofKeys m.keys).1)).map (·.2)).Nodup := by
    refine List.Nodup.map_on ?_ (ordered_ofKeys m.keys).distinctNames.nodup_leaves
    rintro ⟨path, key⟩ first ⟨path', key'⟩ second same
    obtain rfl : key = key' := same
    rw [((listed path key).mp first).2.2, ((listed path' key).mp second).2.2]
  refine (List.perm_ext_iff_of_nodup once ((nodup_keys m).filter _)).mpr fun key => ?_
  rw [List.mem_map, List.mem_filter, decide_eq_true_iff]
  constructor
  · rintro ⟨⟨path, key⟩, member, rfl⟩
    obtain ⟨known, kept, -⟩ := (listed path key).mp member
    exact ⟨known, kept⟩
  · rintro ⟨known, kept⟩
    exact ⟨(key.splitOn '.', key), (listed _ _).mpr ⟨known, kept, rfl⟩, rfl⟩

theorem skipped_pairwise (m : KeyMap) (importAs : Text) :
    (ofKeyMap m importAs).skipped.Pairwise fun first second => first < second :=
  List.pairwise_map.mpr (Dictionary.increasing_ofList _)

theorem skipped_perm (m : KeyMap) (importAs : Text) :
    (ofKeyMap m importAs).skipped.Perm (m.keys.filter (· ∈ (ofKeyMap m importAs).skipped)) := by
  have once : (ofKeyMap m importAs).skipped.Nodup :=
    (skipped_pairwise m importAs).imp fun smaller => Std.ne_of_lt smaller
  refine (List.perm_ext_iff_of_nodup once ((nodup_keys m).filter _)).mpr fun key => ?_
  rw [List.mem_filter, decide_eq_true_iff]
  exact (and_iff_right_of_imp fun left => ((mem_skipped_iff m importAs key).mp left).1).symm

/-- The keys that a module leaves out are listed in increasing order, each once: they are the keys that
other keys nest under. Together with the keys in the module they are as many as the map has. -/
theorem ofKeyMap_skips_nested (m : KeyMap) (importAs : Text) :
    ((ofKeyMap m importAs).skipped.Pairwise fun first second => first < second) ∧
      (∀ key, key ∈ (ofKeyMap m importAs).skipped ↔
        key ∈ m.keys ∧ ∃ other ∈ m.keys, key ++ ['.'] <+: other) ∧
      (ofKeyMap m importAs).keyCount + (ofKeyMap m importAs).skipped.length = m.size := by
  refine ⟨skipped_pairwise m importAs, mem_skipped_iff m importAs, ?_⟩
  have kept : (ofKeyMap m importAs).keyCount =
      (m.keys.filter fun key => !decide (key ∈ (ofKeyMap m importAs).skipped)).length := by
    have length := (leaves_perm m importAs).length_eq
    rw [List.length_map, length_leaves, count] at length
    simp only [decide_not] at length
    exact length
  have left := (skipped_perm m importAs).length_eq
  calc (ofKeyMap m importAs).keyCount + (ofKeyMap m importAs).skipped.length
      = m.keys.length := by
        rw [kept, left, Nat.add_comm]
        exact (List.length_eq_length_filter_add _).symm
    _ = m.size := List.length_map _

/-- A key that two others nest under, one of which has a key nested in turn; and an empty key below which
there is one of two empty segments. -/
theorem ofKeyMap_skips_nested_chain :
    let m : KeyMap := KeyMap.ofTriples
      [("a.b", "en", "B"), ("", "en", "E"), ("a-b", "en", "D"), ("a", "en", "A"), (".", "en", "P"),
        ("a.b.c", "en", "C")]
    m.size = 6 ∧ (ofKeyMap m "k").skipped = ["", "a", "a.b"] ∧
      (ofKeyMap m "k").keyCount + (ofKeyMap m "k").skipped.length = 6 := by
  intro m
  have size : m.size = 6 := by decide +kernel
  refine ⟨size, by decide +kernel, ?_⟩
  rw [← size]
  exact (ofKeyMap_skips_nested m "k").2.2

end KeyModule

end KeyGloss
