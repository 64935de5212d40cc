import KeyGloss.Text.Basic

/-!
# Dictionaries

Entries in increasing order of their keys, each key once (`Increasing`). As the order is fixed,
two dictionaries with the same entries are equal.
-/

namespace KeyGloss

/-- Entries in increasing order of their keys. -/
abbrev Dictionary (β : Type) := List (Text × β)

namespace Dictionary

variable {β : Type}

/-- The value under a key. -/
def get? (d : Dictionary β) (key : Text) : Option β := d.lookup key

/-- Puts a value under a key; what was there before is gone. -/
def insert (key : Text) (value : β) : Dictionary β → Dictionary β
  | [] => [(key, value)]
  | (k, v) :: rest =>
    if key < k then (key, value) :: (k, v) :: rest
    else if key = k then (key, value) :: rest
    else (k, v) :: insert key value rest

/-- The keys in increasing order. -/
def keys (d : Dictionary β) : List Text := d.map (·.1)

/-- The dictionary of the given entries; a later entry replaces an earlier one. -/
def ofList (entries : List (Text × β)) : Dictionary β :=
  entries.foldl (fun d (key, value) => d.insert key value) []

/-- The keys of a dictionary come in increasing order, each of them once. -/
def Increasing (d : Dictionary β) : Prop := d.Pairwise fun a b => a.1 < b.1

instance (d : Dictionary β) : Decidable d.Increasing :=
  inferInstanceAs (Decidable (d.Pairwise fun a b => a.1 < b.1))

theorem mem_of_get? {d : Dictionary β} {key : Text} {value : β} (found : get? d key = some value) :
    (key, value) ∈ d := by
  obtain ⟨front, back, rfl, -⟩ := List.lookup_eq_some_iff.mp found
  simp

theorem mem_insert {d : Dictionary β} {key : Text} {value : β} {entry : Text × β}
    (member : entry ∈ insert key value d) : entry = (key, value) ∨ entry ∈ d := by
  induction d with
  | nil => exact .inl (List.mem_singleton.mp member)
  | cons first d ih =>
    obtain ⟨k, v⟩ := first
    unfold insert at member
    split at member
    · exact List.mem_cons.mp member
    · split at member
      · exact (List.mem_cons.mp member).imp_right (List.mem_cons_of_mem _)
      · rcases List.mem_cons.mp member with rfl | later
        · exact .inr List.mem_cons_self
        · exact (ih later).imp_right (List.mem_cons_of_mem _)

theorem insert_ne_nil (d : Dictionary β) (key : Text) (value : β) : d.insert key value ≠ [] := by
  cases d with
  | nil => simp [insert]
  | cons first d =>
    unfold insert
    split
    · simp
    · split <;> simp

theorem Increasing.insert {d : Dictionary β} (increasing : Increasing d) (key : Text) (value : β) :
    Increasing (d.insert key value) := by
  induction d with
  | nil => exact List.pairwise_singleton _ _
  | cons first d ih =>
    obtain ⟨k, v⟩ := first
    obtain ⟨above, rest⟩ := List.pairwise_cons.mp increasing
    unfold Dictionary.insert
    split
    · next smaller =>
      refine List.pairwise_cons.mpr ⟨fun entry member => ?_, increasing⟩
      rcases List.mem_cons.mp member with rfl | later
      · exact smaller
      · exact List.lt_trans smaller (above entry later)
    · next notSmaller =>
      split
      · next same =>
        subst same
        exact List.pairwise_cons.mpr ⟨above, rest⟩
      · next different =>
        refine List.pairwise_cons.mpr ⟨fun entry member => ?_, ih rest⟩
        rcases mem_insert member with rfl | later
        · refine Decidable.byContradiction fun notLarger => ?_
          exact different (List.le_antisymm notSmaller notLarger).symm
        · exact above entry later

theorem Increasing.filter {d : Dictionary β} (increasing : Increasing d) (keep : Text × β → Bool) :
    Increasing (List.filter keep d) :=
  List.Pairwise.filter keep increasing

theorem Increasing.mapValues {γ : Type} {d : Dictionary β} (increasing : Increasing d) (f : β → γ) :
    Increasing (d.map fun entry => (entry.1, f entry.2)) :=
  List.pairwise_map.mpr increasing

end Dictionary

end KeyGloss
