import Mathlib.Data.List.Basic
import KeyGloss.Diagnostic

/-!
# Orders of paths and diagnostics

Paths and diagnostics are sorted by orders that are total and transitive. A sort keeps what it cannot
tell apart in the order in which it came, so the sorted diagnostics depend only on the order that the
diagnostics of each file came in (`Diagnostic.sorted_eq_of_files`).
-/

namespace KeyGloss

section Sorting

variable {α : Type}

/-- An order by which lists can be sorted. -/
structure Sorts (le : α → α → Bool) : Prop where
  trans : ∀ a b c, le a b = true → le b c = true → le a c = true
  total : ∀ a b, (le a b || le b a) = true

/-- Whether an order does not tell two elements apart. -/
def alike (le : α → α → Bool) (a b : α) : Bool := le a b && le b a

variable {le : α → α → Bool}

theorem Sorts.refl (sorts : Sorts le) (a : α) : le a a = true := by
  simpa using sorts.total a a

theorem Sorts.alike_refl (sorts : Sorts le) (a : α) : alike le a a = true := by
  simp [alike, sorts.refl a]

/-- Sorting keeps the elements that are alike as they came. -/
theorem Sorts.filter_mergeSort (sorts : Sorts le) (l : List α) (a : α) :
    (l.mergeSort le).filter (alike le a) = l.filter (alike le a) := by
  have ordered : (l.filter (alike le a)).Pairwise fun b c => le b c = true := by
    rw [List.pairwise_filter]
    refine List.pairwise_of_forall fun b c likeB likeC => ?_
    exact sorts.trans b a c (Bool.and_eq_true_iff.mp likeB).2 (Bool.and_eq_true_iff.mp likeC).1
  have kept : (l.filter (alike le a)).Sublist (l.mergeSort le) :=
    List.sublist_mergeSort sorts.trans sorts.total ordered List.filter_sublist
  have within := kept.filter (alike le a)
  rw [List.filter_filter] at within
  simp only [Bool.and_self] at within
  have length := ((List.mergeSort_perm l le).filter (alike le a)).length_eq
  exact (within.eq_of_length length.symm).symm

/-- A sorted list is told by the elements that are alike, for each element. -/
theorem Sorts.eq_of_filter_eq (sorts : Sorts le) {l l' : List α}
    (ordered : l.Pairwise fun a b => le a b = true) (ordered' : l'.Pairwise fun a b => le a b = true)
    (same : ∀ a, l.filter (alike le a) = l'.filter (alike le a)) : l = l' := by
  have mem_of_same : ∀ {m m' : List α} {a : α}, a ∈ m →
      m.filter (alike le a) = m'.filter (alike le a) → a ∈ m' := by
    intro m m' a member equal
    have listed := List.mem_filter.mpr ⟨member, sorts.alike_refl a⟩
    rw [equal] at listed
    exact (List.mem_filter.mp listed).1
  induction l generalizing l' with
  | nil =>
    cases l' with
    | nil => rfl
    | cons b l' => exact absurd (mem_of_same List.mem_cons_self (same b).symm) List.not_mem_nil
  | cons a l ih =>
    cases l' with
    | nil => exact absurd (mem_of_same List.mem_cons_self (same a)) List.not_mem_nil
    | cons b l' =>
      obtain ⟨above, rest⟩ := List.pairwise_cons.mp ordered
      obtain ⟨above', rest'⟩ := List.pairwise_cons.mp ordered'
      -- Either head is least, so the heads are alike, and each comes first among these.
      have below : le a b = true := by
        rcases List.mem_cons.mp (mem_of_same List.mem_cons_self (same b).symm) with rfl | later
        · exact sorts.refl b
        · exact above b later
      have below' : le b a = true := by
        rcases List.mem_cons.mp (mem_of_same List.mem_cons_self (same a)) with rfl | later
        · exact sorts.refl a
        · exact above' a later
      have heads : a = b := by
        have equal := same a
        rw [List.filter_cons, if_pos (sorts.alike_refl a), List.filter_cons,
          if_pos (by simp [alike, below, below'])] at equal
        exact (List.cons.inj equal).1
      subst heads
      congr 1
      refine ih rest rest' fun c => ?_
      have equal := same c
      rw [List.filter_cons, List.filter_cons] at equal
      split at equal
      · exact (List.cons.inj equal).2
      · exact equal

theorem Sorts.mergeSort_congr (sorts : Sorts le) {l l' : List α}
    (same : ∀ a, l.filter (alike le a) = l'.filter (alike le a)) : l.mergeSort le = l'.mergeSort le := by
  refine sorts.eq_of_filter_eq (List.pairwise_mergeSort sorts.trans sorts.total l)
    (List.pairwise_mergeSort sorts.trans sorts.total l') fun a => ?_
  rw [sorts.filter_mergeSort, sorts.filter_mergeSort, same]

end Sorting

section Lexicographic

variable {α : Type} [DecidableEq α]

/-- Lists compared at the first place where they differ. -/
def lexLe (le : α → α → Bool) : List α → List α → Bool
  | [], _ => true
  | _ :: _, [] => false
  | a :: as, b :: bs => if a = b then lexLe le as bs else le a b

/-- An order of different elements. -/
structure Separates (le : α → α → Bool) : Prop where
  trans : ∀ a b c, a ≠ b → b ≠ c → le a b = true → le b c = true → a ≠ c ∧ le a c = true
  total : ∀ a b, a ≠ b → (le a b || le b a) = true

variable {le : α → α → Bool}

theorem Separates.lexLe_trans (separates : Separates le) (as bs cs : List α)
    (first : lexLe le as bs = true) (second : lexLe le bs cs = true) : lexLe le as cs = true := by
  induction as generalizing bs cs with
  | nil => rfl
  | cons a as ih =>
    cases bs with
    | nil => cases first
    | cons b bs =>
      cases cs with
      | nil => cases second
      | cons c cs =>
        simp only [lexLe] at first second ⊢
        by_cases ab : a = b
        · subst ab
          by_cases ac : a = c
          · rw [if_pos ac] at second ⊢
            rw [if_pos rfl] at first
            exact ih bs cs first second
          · rwa [if_neg ac] at second ⊢
        · rw [if_neg ab] at first
          by_cases bc : b = c
          · subst bc
            rwa [if_neg ab]
          · rw [if_neg bc] at second
            obtain ⟨ac, through⟩ := separates.trans a b c ab bc first second
            rwa [if_neg ac]

theorem Separates.lexLe_total (separates : Separates le) (as bs : List α) :
    (lexLe le as bs || lexLe le bs as) = true := by
  induction as generalizing bs with
  | nil => rfl
  | cons a as ih =>
    cases bs with
    | nil => rfl
    | cons b bs =>
      simp only [lexLe]
      by_cases same : a = b
      · subst same
        simpa using ih bs
      · rw [if_neg same, if_neg (Ne.symm same)]
        exact separates.total a b same

theorem Separates.lexLe_antisymm (separates : Separates le) (as bs : List α)
    (first : lexLe le as bs = true) (second : lexLe le bs as = true) : as = bs := by
  induction as generalizing bs with
  | nil =>
    cases bs with
    | nil => rfl
    | cons b bs => cases second
  | cons a as ih =>
    cases bs with
    | nil => cases first
    | cons b bs =>
      simp only [lexLe] at first second
      by_cases same : a = b
      · subst same
        rw [if_pos rfl] at first second
        rw [ih bs first second]
      · rw [if_neg same] at first
        rw [if_neg (Ne.symm same)] at second
        exact absurd rfl (separates.trans a b a same (Ne.symm same) first second).1

theorem Separates.sorts (separates : Separates le) : Sorts (lexLe le) :=
  ⟨separates.lexLe_trans, separates.lexLe_total⟩

end Lexicographic

namespace Text

theorem separates_lt : Separates fun a b : Char => decide (a < b) where
  trans a b c _ _ first second := by
    simp only [decide_eq_true_eq] at first second ⊢
    have := Char.lt_trans first second
    exact ⟨Std.ne_of_lt this, this⟩
  total a b different := by
    simp only [Bool.or_eq_true, decide_eq_true_eq]
    by_cases smaller : a < b
    · exact .inl smaller
    · exact .inr (Std.lt_of_le_of_ne (Std.not_lt.mp smaller) (Ne.symm different))

theorem le_eq_lexLe (a b : Text) : le a b = lexLe (fun a b => decide (a < b)) a b := by
  induction a generalizing b with
  | nil => rfl
  | cons c a ih =>
    cases b with
    | nil => rfl
    | cons d b => simp only [le, lexLe, ih]

theorem sorts_le : Sorts le where
  trans a b c := by
    simp only [le_eq_lexLe]
    exact separates_lt.lexLe_trans a b c
  total a b := by
    simp only [le_eq_lexLe]
    exact separates_lt.lexLe_total a b

theorem le_antisymm {a b : Text} (first : le a b = true) (second : le b a = true) : a = b := by
  rw [le_eq_lexLe] at first second
  exact separates_lt.lexLe_antisymm a b first second

theorem le_of_lt {t u : Text} (less : t < u) : le t u = true := by
  induction t generalizing u with
  | nil => rfl
  | cons c t ih =>
    cases u with
    | nil => cases less
    | cons e u =>
      rw [le]
      rcases List.cons_lt_cons_iff.mp less with smaller | ⟨rfl, rest⟩
      · rw [if_neg (Std.ne_of_lt smaller)]
        simpa using smaller
      · rw [if_pos rfl]
        exact ih rest

end Text

namespace Step

theorem separates_le : Separates le where
  trans a b c ab bc first second := by
    refine ⟨?_, ?_⟩
    · rintro rfl
      cases a <;> cases b <;> simp [le] at ab first second
      exact ab (Text.le_antisymm first second)
    · cases a <;> cases b <;> cases c <;> simp [le] at first second ⊢
      exact Text.sorts_le.trans _ _ _ first second
  total a b _ := by
    cases a <;> cases b <;> simp [le]
    simpa using Text.sorts_le.total _ _

theorem listLe_eq_lexLe (as bs : List Step) : listLe as bs = lexLe le as bs := by
  induction as generalizing bs with
  | nil => rfl
  | cons a as ih =>
    cases bs with
    | nil => rfl
    | cons b bs => simp only [listLe, lexLe, ih]

end Step

theorem Path.sorts_le : Sorts Path.le where
  trans a b c := by
    simp only [Path.le, Step.listLe_eq_lexLe]
    exact Step.separates_le.lexLe_trans _ _ _
  total a b := by
    simp only [Path.le, Step.listLe_eq_lexLe]
    exact Step.separates_le.lexLe_total _ _

namespace Diagnostic

theorem sorts_le : Sorts le where
  trans a b c first second := by
    unfold le at first second ⊢
    by_cases ab : a.filePath = b.filePath
    · by_cases bc : b.filePath = c.filePath
      · rw [if_pos ab] at first
        rw [if_pos bc] at second
        rw [if_pos (ab.trans bc)]
        split at first <;> split at second <;> split <;>
          simp only [decide_eq_true_eq] at first second ⊢ <;> omega
      · rw [if_neg bc, ← ab] at second
        rwa [if_neg (fun ac => bc (ab.symm.trans ac))]
    · rw [if_neg ab] at first
      by_cases bc : b.filePath = c.filePath
      · rwa [if_neg (fun ac => ab (ac.trans bc.symm)), ← bc]
      · rw [if_neg bc] at second
        have ac : a.filePath ≠ c.filePath := by
          intro ac
          rw [← ac] at second
          exact ab (Text.le_antisymm first second)
        rw [if_neg ac]
        exact Text.sorts_le.trans _ _ _ first second
  total a b := by
    unfold le
    by_cases ab : a.filePath = b.filePath
    · rw [if_pos ab, if_pos ab.symm]
      by_cases line : a.line = b.line
      · rw [if_pos line, if_pos line.symm]
        simp only [Bool.or_eq_true, decide_eq_true_eq]
        omega
      · rw [if_neg line, if_neg (Ne.symm line)]
        simp only [Bool.or_eq_true, decide_eq_true_eq]
        omega
    · rw [if_neg ab, if_neg (Ne.symm ab)]
      exact Text.sorts_le.total _ _

/-- Diagnostics that are not told apart are about the same file. -/
theorem filePath_of_alike {a b : Diagnostic} (like : alike le a b = true) :
    a.filePath = b.filePath := by
  obtain ⟨first, second⟩ := Bool.and_eq_true_iff.mp like
  unfold le at first second
  by_contra different
  rw [if_neg different] at first
  rw [if_neg (Ne.symm different)] at second
  exact different (Text.le_antisymm first second)

/-- The sorted diagnostics depend only on how those of each file came one after the other. -/
theorem sorted_eq_of_files {l l' : List Diagnostic}
    (same : ∀ file, l.filter (·.filePath = file) = l'.filter (·.filePath = file)) :
    sorted l = sorted l' := by
  refine sorts_le.mergeSort_congr fun a => ?_
  have narrow : ∀ m : List Diagnostic,
      m.filter (alike le a) = (m.filter (·.filePath = a.filePath)).filter (alike le a) := by
    intro m
    rw [List.filter_filter]
    refine List.filter_congr fun b _ => ?_
    cases like : alike le a b with
    | true => simp [(filePath_of_alike like).symm]
    | false => rfl
  rw [narrow l, narrow l', same]

end Diagnostic

end KeyGloss
