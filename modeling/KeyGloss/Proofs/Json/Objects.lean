import KeyGloss.Json.Reader

/-!
# The objects in a JSON value

A text may name a member twice, but the value that is read from it does not: at every depth each name
stands once, with the value that was given last (`distinct_of_parse`).
-/

namespace KeyGloss

namespace Json

/-- Every object in a value, at whatever depth, has members of which `p` holds. -/
inductive Objects (p : List (Text × Json) → Prop) : Json → Prop
  | null : Objects p .null
  | bool (b : Bool) : Objects p (.bool b)
  | number (n : JsonNumber) : Objects p (.number n)
  | string (t : Text) : Objects p (.string t)
  | array {elements : List Json} (each : ∀ element ∈ elements, Objects p element) :
      Objects p (.array elements)
  | object {members : List (Text × Json)} (here : p members)
      (each : ∀ member ∈ members, Objects p member.2) : Objects p (.object members)

/-- Members with different names. -/
def DistinctNames (members : List (Text × Json)) : Prop := (members.map (·.1)).Nodup

end Json

namespace JsonReader

open Json (Objects DistinctNames)

variable {α β : Type}

/-- Whatever a reader reads satisfies `p`. -/
def Gives (reader : JsonReader α) (p : α → Prop) : Prop :=
  ∀ before a after, reader before = .ok a after → p a

theorem gives_pure {a : α} {p : α → Prop} (holds : p a) : Gives (pure a) p := by
  intro before b after success
  cases success
  exact holds

theorem gives_fail (fault : JsonFault) (p : α → Prop) : Gives (fail fault) p := by
  intro before a after success
  cases success

theorem gives_failAhead (fault : JsonFault) (p : α → Prop) : Gives (failAhead fault) p := by
  intro before a after success
  unfold failAhead at success
  split at success <;> cases success

theorem Gives.bind {first : JsonReader α} {next : α → JsonReader β} {p : α → Prop} {q : β → Prop}
    (one : Gives first p) (other : ∀ a, p a → Gives (next a) q) : Gives (first >>= next) q := by
  intro before b after success
  change EStateM.bind first next before = _ at success
  unfold EStateM.bind at success
  split at success
  · next a between read => exact other a (one _ _ _ read) _ _ _ success
  · cases success

/-- What is read first does not matter. -/
theorem gives_bind {first : JsonReader α} {next : α → JsonReader β} {q : β → Prop}
    (other : ∀ a, Gives (next a) q) : Gives (first >>= next) q :=
  Gives.bind (p := fun _ => True) (fun _ _ _ _ => trivial) fun a _ => other a

theorem Gives.closing {body : JsonReader α} {p : α → Prop} (reads : Gives body p)
    (close : JsonReader Unit) : Gives (closing body close) p := by
  intro before a after success
  unfold JsonReader.closing at success
  split at success
  · next read =>
    split at success
    · cases success
      exact reads _ _ _ read
    · cases success
  · split at success <;> cases success

/-- Setting a member adds its name at most. -/
theorem names_setMember (name : Text) (value : Json) (members : List (Text × Json)) :
    (setMember name value members).map (·.1) =
      if name ∈ members.map (·.1) then members.map (·.1) else members.map (·.1) ++ [name] := by
  induction members with
  | nil => simp [setMember]
  | cons member members ih =>
    obtain ⟨n, v⟩ := member
    unfold setMember
    by_cases same : n = name
    · simp [same]
    · rw [if_neg same, List.map_cons, ih]
      by_cases listed : name ∈ members.map (·.1)
      · simp only [listed, List.map_cons, List.mem_cons, or_true, if_true]
      · simp only [listed, List.map_cons, List.mem_cons, or_false, Ne.symm same, if_false,
          List.cons_append]

theorem mem_setMember {name : Text} {value : Json} {members : List (Text × Json)}
    {member : Text × Json} (listed : member ∈ setMember name value members) :
    member.2 = value ∨ member ∈ members := by
  induction members with
  | nil => exact .inl (by rw [List.mem_singleton.mp listed])
  | cons first members ih =>
    obtain ⟨n, v⟩ := first
    unfold setMember at listed
    split at listed
    · rcases List.mem_cons.mp listed with rfl | later
      · exact .inl rfl
      · exact .inr (List.mem_cons_of_mem _ later)
    · rcases List.mem_cons.mp listed with rfl | later
      · exact .inr List.mem_cons_self
      · exact (ih later).imp_right (List.mem_cons_of_mem _)

/-- Setting a member keeps the names different, at every depth. -/
theorem objects_setMember {name : Text} {value : Json} {members : List (Text × Json)}
    (before : Objects DistinctNames (.object members)) (new : Objects DistinctNames value) :
    Objects DistinctNames (.object (setMember name value members)) := by
  cases before with
  | object distinct each =>
    constructor
    · unfold DistinctNames
      rw [names_setMember]
      split
      · exact distinct
      · next absent => exact List.nodup_append.mpr ⟨distinct, by simp, by
          intro a listed b single equal
          obtain rfl := List.mem_singleton.mp single
          exact absent (equal ▸ listed)⟩
    · intro member listed
      rcases mem_setMember listed with equal | old
      · rw [equal]
        exact new
      · exact each member old

/-- The readers of values, elements and members, by the calls that they may make. -/
theorem distinct_of_value (fuel : Nat) :
    (∀ depth, Gives (value depth fuel) (Objects DistinctNames)) ∧
      (∀ depth first, Gives (elements depth first fuel)
        fun read => Objects DistinctNames (.array read)) ∧
      ∀ depth first before, Objects DistinctNames (.object before) →
        Gives (members depth first before fuel) fun read => Objects DistinctNames (.object read) := by
  induction fuel with
  | zero =>
    refine ⟨fun depth => ?_, fun depth first => ?_, fun depth first before _ => ?_⟩
    · exact gives_fail _ _
    · exact gives_fail _ _
    · exact gives_fail _ _
  | succ fuel ih =>
    obtain ⟨values, lists, objects⟩ := ih
    refine ⟨fun depth => ?_, fun depth first => ?_, fun depth first before distinct => ?_⟩
    · unfold value
      refine gives_bind fun ahead => ?_
      split
      · exact gives_failAhead _ _
      · exact gives_bind fun _ => gives_bind fun _ => gives_pure .null
      · exact gives_bind fun _ => gives_bind fun _ => gives_pure (.bool _)
      · exact gives_bind fun _ => gives_bind fun _ => gives_pure (.bool _)
      · exact gives_bind fun _ => gives_bind fun t => gives_pure (.string t)
      · exact gives_bind fun _ => gives_bind fun n => gives_pure (.number n)
      · split
        · exact gives_failAhead _ _
        · refine gives_bind fun _ => ((lists _ _).closing _).bind fun read distinct => ?_
          exact gives_pure distinct
      · split
        · exact gives_failAhead _ _
        · have empty : Objects DistinctNames (.object []) := .object List.nodup_nil (by simp)
          refine gives_bind fun _ => ((objects _ _ _ empty).closing _).bind fun read distinct => ?_
          exact gives_pure distinct
      · split
        · exact gives_bind fun n => gives_pure (.number n)
        · exact gives_failAhead _ _
    · unfold elements
      refine gives_bind fun more => ?_
      split
      · refine (values depth).bind fun element one => (lists depth false).bind fun rest others => ?_
        cases others with
        | array each =>
          refine gives_pure (.array fun e listed => ?_)
          rcases List.mem_cons.mp listed with rfl | later
          · exact one
          · exact each e later
      · exact gives_pure (.array (by simp))
    · unfold members
      refine gives_bind fun more => ?_
      split
      · refine gives_bind fun name => gives_bind fun _ => (values depth).bind fun v new => ?_
        exact objects depth false _ (objects_setMember distinct new)
      · exact gives_pure distinct

end JsonReader

namespace Json

/-- No object of a value that was read names a member twice. -/
theorem distinct_of_parse {t : Text} {value : Json} (read : parse t = .ok value) :
    value.Objects DistinctNames := by
  have whole : JsonReader.Gives (do
      let a ← JsonReader.value JsonReader.depthLimit (JsonReader.fuelFor t)
      JsonReader.finish
      pure a) (Objects DistinctNames) :=
    ((JsonReader.distinct_of_value _).1 _).bind fun a distinct =>
      JsonReader.gives_bind fun _ => JsonReader.gives_pure distinct
  unfold parse JsonReader.run at read
  simp only at read
  split at read
  · next success =>
    obtain rfl := Except.ok.inj read
    exact whole _ _ _ success
  · cases read

end Json

end KeyGloss
