import Mathlib.Data.List.Basic
import KeyGloss.Dictionary

/-!
# Facts about dictionaries

A dictionary is told by what it has under each key (`Increasing.ext`), and putting in a value changes
what is under its key and nothing else (`get?_insert`).
-/

namespace KeyGloss

namespace Dictionary

variable {β : Type}

theorem get?_cons (k key : Text) (v : β) (d : Dictionary β) :
    get? ((k, v) :: d) key = if key = k then some v else get? d key := by
  unfold get?
  rw [List.lookup_cons]
  by_cases same : key = k
  · simp [same]
  · rw [beq_eq_false_iff_ne.mpr same, if_neg same]

theorem get?_insert (d : Dictionary β) (key other : Text) (value : β) :
    get? (insert key value d) other = if other = key then some value else get? d other := by
  induction d with
  | nil => rw [insert, get?_cons]
  | cons entry d ih =>
    obtain ⟨k, v⟩ := entry
    unfold insert
    split
    · rw [get?_cons]
    · split
      · next same =>
        subst same
        rw [get?_cons, get?_cons]
        split <;> rfl
      · next different =>
        rw [get?_cons, ih, get?_cons]
        by_cases here : other = k
        · subst here
          rw [if_pos rfl, if_pos rfl, if_neg (Ne.symm different)]
        · rw [if_neg here, if_neg here]

theorem get?_filter_key (d : Dictionary β) (keep : Text → Bool) (key : Text) :
    get? (d.filter fun entry => keep entry.1) key = if keep key then get? d key else none := by
  induction d with
  | nil => simp [get?]
  | cons entry d ih =>
    obtain ⟨k, v⟩ := entry
    rw [List.filter_cons, get?_cons]
    by_cases here : key = k
    · subst here
      split
      · rw [get?_cons, if_pos rfl, if_pos rfl]
      · next gone => rw [ih, if_neg gone]
    · rw [if_neg here, ← ih]
      split
      · rw [get?_cons, if_neg here]
      · rfl

theorem get?_filter_ne (d : Dictionary β) (key other : Text) :
    get? (d.filter (·.1 != key)) other = if other = key then none else get? d other := by
  rw [get?_filter_key d (· != key)]
  by_cases same : other = key <;> simp [same]

theorem get?_map {γ : Type} (f : β → γ) (d : Dictionary β) (key : Text) :
    get? (d.map fun entry => (entry.1, f entry.2)) key = (get? d key).map f := by
  induction d with
  | nil => rfl
  | cons entry d ih =>
    obtain ⟨k, v⟩ := entry
    rw [List.map_cons, get?_cons, get?_cons, ih]
    split <;> rfl

theorem exists_get?_of_mem_keys {d : Dictionary β} {key : Text} (listed : key ∈ d.keys) :
    ∃ value, get? d key = some value := by
  obtain ⟨entry, member, rfl⟩ := List.mem_map.mp listed
  cases found : get? d entry.1 with
  | some value => exact ⟨value, rfl⟩
  | none =>
    have different := List.lookup_eq_none_iff.mp found entry member
    simp at different

theorem mem_keys_of_get? {d : Dictionary β} {key : Text} {value : β}
    (found : get? d key = some value) : key ∈ d.keys :=
  List.mem_map.mpr ⟨_, mem_of_get? found, rfl⟩

theorem mem_keys_iff {d : Dictionary β} {key : Text} : key ∈ d.keys ↔ (get? d key).isSome = true := by
  rw [Option.isSome_iff_exists]
  exact ⟨exists_get?_of_mem_keys, fun ⟨_, found⟩ => mem_keys_of_get? found⟩

theorem mem_keys_insert {d : Dictionary β} {key other : Text} {value : β} :
    other ∈ (d.insert key value).keys ↔ other = key ∨ other ∈ d.keys := by
  rw [mem_keys_iff, mem_keys_iff, get?_insert]
  by_cases same : other = key <;> simp [same]

/-- The dictionary of some entries has their keys. -/
theorem mem_keys_ofList {entries : List (Text × β)} {key : Text} :
    key ∈ (ofList entries).keys ↔ key ∈ entries.map (·.1) := by
  have start (d : Dictionary β) :
      key ∈ keys (entries.foldl (fun d entry => d.insert entry.1 entry.2) d) ↔
        key ∈ d.keys ∨ key ∈ entries.map (·.1) := by
    induction entries generalizing d with
    | nil => simp
    | cons entry entries ih =>
      rw [List.foldl_cons, ih, mem_keys_insert, List.map_cons, List.mem_cons]
      tauto
  exact (start []).trans (by simp [keys])

/-- The dictionary of some entries is in order, however they came. -/
theorem increasing_ofList (entries : List (Text × β)) : Increasing (ofList entries) := by
  have start (d : Dictionary β) (increasing : Increasing d) :
      Increasing (entries.foldl (fun d entry => d.insert entry.1 entry.2) d) := by
    induction entries generalizing d with
    | nil => exact increasing
    | cons entry entries ih => exact ih _ (increasing.insert entry.1 entry.2)
  exact start [] List.Pairwise.nil

theorem Increasing.get?_of_mem {d : Dictionary β} {key : Text} {value : β}
    (increasing : Increasing d) (member : (key, value) ∈ d) : get? d key = some value := by
  induction d with
  | nil => cases member
  | cons first d ih =>
    obtain ⟨k, v⟩ := first
    obtain ⟨above, rest⟩ := List.pairwise_cons.mp increasing
    rw [get?_cons]
    rcases List.mem_cons.mp member with here | later
    · cases here
      rw [if_pos rfl]
    · rw [if_neg (Std.ne_of_lt (above _ later)).symm, ih rest later]

theorem get?_of_below {d : Dictionary β} {key : Text} (below : ∀ entry ∈ d, key < entry.1) :
    get? d key = none := by
  rw [Option.eq_none_iff_forall_ne_some]
  intro value found
  exact List.lt_irrefl _ (below _ (mem_of_get? found))

/-- Each key of a dictionary in order is listed once, so no entry hides behind one that is filtered out. -/
theorem Increasing.get?_filter {d : Dictionary β} (increasing : Increasing d) (keep : β → Bool) (key : Text) :
    get? (d.filter fun entry => keep entry.2) key = (get? d key).filter keep := by
  induction d with
  | nil => rfl
  | cons entry d ih =>
    obtain ⟨k, v⟩ := entry
    obtain ⟨above, rest⟩ := List.pairwise_cons.mp increasing
    rw [List.filter_cons, get?_cons]
    by_cases here : key = k
    · subst here
      rw [if_pos rfl, Option.filter_some]
      split
      · rw [get?_cons, if_pos rfl]
      · rw [ih rest, get?_of_below above, Option.filter_none]
    · rw [if_neg here]
      split
      · rw [get?_cons, if_neg here, ih rest]
      · exact ih rest

/-- Dictionaries with the same values under all keys are equal. -/
theorem Increasing.ext {d d' : Dictionary β} (increasing : Increasing d)
    (increasing' : Increasing d') (same : ∀ key, get? d key = get? d' key) : d = d' := by
  induction d generalizing d' with
  | nil =>
    cases d' with
    | nil => rfl
    | cons first d' =>
      obtain ⟨k, v⟩ := first
      have found := same k
      rw [get?_cons, if_pos rfl] at found
      cases found
  | cons first d ih =>
    obtain ⟨k, v⟩ := first
    cases d' with
    | nil =>
      have found := same k
      rw [get?_cons, if_pos rfl] at found
      cases found
    | cons first' d' =>
      obtain ⟨k', v'⟩ := first'
      obtain ⟨above, rest⟩ := List.pairwise_cons.mp increasing
      obtain ⟨above', rest'⟩ := List.pairwise_cons.mp increasing'
      have here : (k, v) ∈ (k', v') :: d' := mem_of_get? (by rw [← same k, get?_cons, if_pos rfl])
      have there : (k', v') ∈ (k, v) :: d := mem_of_get? (by rw [same k', get?_cons, if_pos rfl])
      -- The first key of either is the least of both.
      obtain ⟨rfl, rfl⟩ : k = k' ∧ v = v' := by
        rcases List.mem_cons.mp here with equal | later
        · exact Prod.mk.inj equal
        · rcases List.mem_cons.mp there with equal | later'
          · exact (Prod.mk.inj equal).imp Eq.symm Eq.symm
          · exact absurd (List.lt_trans (above' _ later) (above _ later')) (List.lt_irrefl _)
      congr 1
      refine ih rest rest' fun key => ?_
      have both := same key
      rw [get?_cons, get?_cons] at both
      by_cases first : key = k
      · subst first
        rw [get?_of_below above, get?_of_below above']
      · rwa [if_neg first, if_neg first] at both

end Dictionary

end KeyGloss
