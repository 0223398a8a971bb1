import Mathlib.Data.List.GetD
import Mathlib.Data.List.Sort

/-!
In-place selection sort. The outer loop walks the positions from the left; the inner loop finds the
position of a least element from there on and the two are swapped. The result is a sorted permutation
of the list.
-/

namespace SelectionSort

variable {α : Type} [LinearOrder α] [Inhabited α]

/-- The inner loop: the best position among the given one and the ones scanned. -/
def minPosition (list : List α) (position : Nat) : List Nat → Nat
  | [] => position
  | j :: js =>
    minPosition list (if list.getD position default > list.getD j default then j else position) js

/-- One iteration of the outer loop. -/
def sortStep (list : List α) (i : Nat) : List α :=
  let position := minPosition list i (List.range' (i + 1) (list.length - (i + 1)))
  if position ≠ i then
    (list.set position (list.getD i default)).set i (list.getD position default)
  else list

def selectionSort (list : List α) : List α := (List.range (list.length - 1)).foldl sortStep list

theorem minPosition_mem (list : List α) (position : Nat) (js : List Nat) :
    minPosition list position js = position ∨ minPosition list position js ∈ js := by
  induction js generalizing position with
  | nil => exact Or.inl rfl
  | cons j js ih =>
      unfold minPosition
      obtain h | h := ih (if list.getD position default > list.getD j default then j else position)
      · rw [h]
        split
        · exact Or.inr List.mem_cons_self
        · exact Or.inl rfl
      · exact Or.inr (List.mem_cons_of_mem j h)

/-- The position found is of a least element among the first one and those scanned. -/
theorem minPosition_le (list : List α) (position : Nat) (js : List Nat) :
    list.getD (minPosition list position js) default ≤ list.getD position default ∧
      ∀ j ∈ js, list.getD (minPosition list position js) default ≤ list.getD j default := by
  induction js generalizing position with
  | nil => exact ⟨le_refl _, fun _ h => nomatch h⟩
  | cons j js ih =>
      unfold minPosition
      by_cases h : list.getD position default > list.getD j default
      · rw [if_pos h]
        obtain ⟨hj, hjs⟩ := ih j
        exact ⟨hj.trans h.le, List.forall_mem_cons.mpr ⟨hj, hjs⟩⟩
      · rw [if_neg h]
        obtain ⟨hposition, hjs⟩ := ih position
        exact ⟨hposition, List.forall_mem_cons.mpr ⟨hposition.trans (not_lt.mp h), hjs⟩⟩

/-- The elements before a position are in order and none is above a later one. -/
def SortedUpTo (list : List α) (i : Nat) : Prop :=
  ∀ a b, a < i → a < b → b < list.length → list.getD a default ≤ list.getD b default

/-- The iteration at a position inside the list swaps it with a later one, or with itself, that holds a
least element from there on. -/
theorem sortStep_eq {list : List α} {i : Nat} (hi : i < list.length) :
    ∃ p, i ≤ p ∧ p < list.length ∧
      (∀ b, i ≤ b → b < list.length → list.getD p default ≤ list.getD b default) ∧
      sortStep list i = (list.set p (list.getD i default)).set i (list.getD p default) := by
  have hmem := minPosition_mem list i (List.range' (i + 1) (list.length - (i + 1)))
  have hle := minPosition_le list i (List.range' (i + 1) (list.length - (i + 1)))
  unfold sortStep
  generalize minPosition list i (List.range' (i + 1) (list.length - (i + 1))) = p at hmem hle ⊢
  have hp : i ≤ p ∧ p < list.length := by
    obtain rfl | h := hmem
    · exact ⟨Nat.le_refl _, hi⟩
    · have := List.mem_range'_1.mp h
      omega
  refine ⟨p, hp.1, hp.2, fun b hib hb => ?_, ?_⟩
  · obtain rfl | hlt := Nat.eq_or_lt_of_le hib
    · exact hle.1
    · exact hle.2 b (List.mem_range'_1.mpr (by omega))
  · dsimp only
    by_cases hpi : p = i
    · subst hpi
      rw [if_neg (by simp), List.set_set, List.getD_eq_getElem _ _ hi, List.set_getElem_self]
    · rw [if_pos hpi]

theorem sortStep_perm {list : List α} {i : Nat} (hi : i < list.length) :
    (sortStep list i).Perm list := by
  obtain ⟨p, _, hp, _, hstep⟩ := sortStep_eq hi
  rw [hstep, List.getD_eq_getElem _ _ hi, List.getD_eq_getElem _ _ hp]
  exact List.set_set_perm hp hi

theorem sortStep_sortedUpTo {list : List α} {i : Nat} (hi : i < list.length) (h : SortedUpTo list i) :
    SortedUpTo (sortStep list i) (i + 1) := by
  obtain ⟨p, hip, hp, hleast, hstep⟩ := sortStep_eq hi
  have hget : ∀ k, k < list.length → (sortStep list i).getD k default =
      if k = i then list.getD p default else if k = p then list.getD i default else list.getD k default := by
    intro k hk
    rw [hstep]
    by_cases hki : k = i
    · subst hki
      rw [if_pos rfl, List.getD_eq_getElem _ _ (by simpa using hk), List.getElem_set_self]
    · rw [if_neg hki, List.getD_eq_getElem _ _ (by simpa using hk), List.getElem_set_ne (Ne.symm hki)]
      by_cases hkp : k = p
      · subst hkp
        rw [if_pos rfl, List.getElem_set_self]
      · rw [if_neg hkp, List.getElem_set_ne (Ne.symm hkp), List.getD_eq_getElem _ _ hk]
  intro a b ha hab hb
  rw [(sortStep_perm hi).length_eq] at hb
  rw [hget a (by omega), hget b hb]
  by_cases hai : a = i
  · -- the least element from here on
    rw [if_pos hai, if_neg (by omega)]
    by_cases hbp : b = p
    · rw [if_pos hbp]
      exact hleast i (Nat.le_refl _) hi
    · rw [if_neg hbp]
      exact hleast b (by omega) hb
  · rw [if_neg hai, if_neg (by omega)]
    by_cases hbi : b = i
    · rw [if_pos hbi]
      exact h a p (by omega) (by omega) hp
    · rw [if_neg hbi]
      by_cases hbp : b = p
      · rw [if_pos hbp]
        exact h a i (by omega) (by omega) hi
      · rw [if_neg hbp]
        exact h a b (by omega) hab hb

theorem foldl_sortStep (list : List α) (n : Nat) (hn : n ≤ list.length) :
    ((List.range n).foldl sortStep list).Perm list ∧ SortedUpTo ((List.range n).foldl sortStep list) n := by
  induction n with
  | zero => exact ⟨List.Perm.refl _, fun _ _ h => absurd h (Nat.not_lt_zero _)⟩
  | succ n ih =>
      obtain ⟨hperm, hsorted⟩ := ih (by omega)
      rw [List.range_succ, List.foldl_append, List.foldl_cons, List.foldl_nil]
      have hlt : n < ((List.range n).foldl sortStep list).length := by rw [hperm.length_eq]; omega
      exact ⟨(sortStep_perm hlt).trans hperm, sortStep_sortedUpTo hlt hsorted⟩

theorem selectionSort_perm (list : List α) : (selectionSort list).Perm list :=
  (foldl_sortStep list _ (Nat.sub_le _ _)).1

theorem selectionSort_sorted (list : List α) : (selectionSort list).Pairwise (· ≤ ·) := by
  obtain ⟨hperm, hsorted⟩ := foldl_sortStep list (list.length - 1) (Nat.sub_le _ _)
  rw [List.pairwise_iff_getElem]
  intro a b ha hb hab
  have hlen : (selectionSort list).length = list.length := hperm.length_eq
  have h : (selectionSort list).getD a default ≤ (selectionSort list).getD b default :=
    hsorted a b (by omega) hab hb
  rwa [List.getD_eq_getElem _ _ ha, List.getD_eq_getElem _ _ hb] at h

end SelectionSort
