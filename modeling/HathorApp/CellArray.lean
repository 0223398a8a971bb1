import Mathlib.Data.List.Basic
import Mathlib.Data.List.Induction

/-!
Writes into an array of fixed length. A write outside the array has no result. Writing cell after cell
gives a result exactly when the last cell is inside, and then the cells written are a segment of the
array, whatever was written there before. A segment is reversed in place by two indices that move towards
each other.
-/

namespace CellArray

variable {α : Type}

def write (cells : List α) (i : Nat) (a : α) : Option (List α) :=
  if i < cells.length then some (cells.set i a) else none

/-- One cell after the other, from cell `i` on. -/
def writeAll (cells : List α) (i : Nat) : List α → Option (List α)
  | [] => some cells
  | a :: rest =>
    match write cells i a with
    | none => none
    | some cells => writeAll cells (i + 1) rest

/-- Exchange two cells. -/
def swap (cells : List α) (i j : Nat) : Option (List α) := do
  let a ← cells[i]?
  let b ← cells[j]?
  let cells ← write cells i b
  write cells j a

/-- Exchange the cells at two indices as long as the first is below the second, and move the indices
towards each other. -/
def swapInwards (cells : List α) (i : Nat) : Nat → Option (List α)
  | 0 => some cells
  | j + 1 =>
    if i < j + 1 then
      match swap cells i (j + 1) with
      | none => none
      | some cells => swapInwards cells (i + 1) j
    else some cells

variable {cells : List α} {i : Nat}

theorem write_of_lt {a : α} (h : i < cells.length) : write cells i a = some (cells.set i a) := if_pos h

theorem write_of_le {a : α} (h : cells.length ≤ i) : write cells i a = none := if_neg (Nat.not_lt.mpr h)

theorem writeAll_cons (a : α) (v : List α) :
    writeAll cells i (a :: v) = (write cells i a).bind fun cells => writeAll cells (i + 1) v := by
  rw [writeAll]
  cases write cells i a <;> rfl

theorem writeAll_singleton (a : α) : writeAll cells i [a] = write cells i a := by
  rw [writeAll_cons]
  cases write cells i a <;> rfl

/-- Nothing is written from a place behind the array on. -/
theorem writeAll_of_length_le {v : List α} (hi : cells.length ≤ i) (hv : v ≠ []) : writeAll cells i v = none := by
  cases v with
  | nil => exact absurd rfl hv
  | cons a v => rw [writeAll_cons, write_of_le hi, Option.bind_none]

theorem writeAll_append (u v : List α) :
    writeAll cells i (u ++ v) = (writeAll cells i u).bind fun cells => writeAll cells (i + u.length) v := by
  induction u generalizing cells i with
  | nil => rfl
  | cons a u ih =>
      rw [List.cons_append, writeAll_cons, writeAll_cons, Option.bind_assoc, List.length_cons, Nat.add_comm u.length,
        ← Nat.add_assoc]
      congr 1
      funext cells
      exact ih

/-- What is written is inside the array, and nothing else changes. -/
theorem writeAll_of_fits {v : List α} (h : i + v.length ≤ cells.length) :
    writeAll cells i v = some (cells.take i ++ v ++ cells.drop (i + v.length)) := by
  induction v generalizing cells i with
  | nil =>
      rw [writeAll, List.append_nil, List.length_nil, Nat.add_zero, List.take_append_drop]
  | cons a v ih =>
      rw [List.length_cons] at h
      have hi : i < cells.length := by omega
      have htake : (cells.set i a).take (i + 1) = cells.take i ++ [a] := by
        rw [List.take_succ_eq_append_getElem (by rw [List.length_set]; omega), List.getElem_set_self,
          List.take_set_of_le (Nat.le_refl i)]
      have hdrop : (cells.set i a).drop (i + 1 + v.length) = cells.drop (i + (a :: v).length) := by
        rw [List.drop_set_of_lt (by omega), List.length_cons, Nat.add_assoc i 1, Nat.add_comm 1]
      rw [writeAll, write_of_lt hi]
      dsimp only
      rw [ih (by rw [List.length_set]; omega), htake, hdrop, List.append_assoc (cells.take i), List.singleton_append]

theorem writeAll_eq_none {v : List α} (hi : i ≤ cells.length) (h : cells.length < i + v.length) :
    writeAll cells i v = none := by
  induction v generalizing cells i with
  | nil =>
      rw [List.length_nil] at h
      omega
  | cons a v ih =>
      rw [writeAll]
      rcases Nat.lt_or_ge i cells.length with hlt | hge
      · rw [write_of_lt hlt]
        rw [List.length_cons] at h
        exact ih (by rw [List.length_set]; omega) (by rw [List.length_set]; omega)
      · rw [write_of_le hge]

section Behind

variable {done rest : List α}

theorem write_behind (a b : α) : write (done ++ b :: rest) done.length a = some (done ++ a :: rest) := by
  rw [write_of_lt (by simp), List.set_append_right _ _ (Nat.le_refl _), Nat.sub_self, List.set_cons_zero]

theorem write_behind_nil (a : α) : write done done.length a = none := write_of_le (Nat.le_refl _)

theorem writeAll_behind (v : List α) : writeAll (done ++ rest) done.length v =
    if v.length ≤ rest.length then some (done ++ v ++ rest.drop v.length) else none := by
  have hlength : (done ++ rest).length = done.length + rest.length := List.length_append
  by_cases h : v.length ≤ rest.length
  · rw [if_pos h, writeAll_of_fits (by omega), List.take_left, List.drop_append, List.drop_of_length_le (by omega),
      List.nil_append, Nat.add_sub_cancel_left]
  · rw [if_neg h, writeAll_eq_none (by omega) (by omega)]

end Behind

/-! ### Reversing in place -/

section Reverse

variable {before after : List α}

theorem swap_ends (a b : α) (inner : List α) :
    swap (before ++ (a :: inner ++ [b]) ++ after) before.length (before.length + inner.length + 1) =
      some (before ++ (b :: inner ++ [a]) ++ after) := by
  have hleft : before ++ (a :: inner ++ [b]) ++ after = before ++ a :: (inner ++ b :: after) := by simp
  have hright : before ++ b :: (inner ++ b :: after) = (before ++ b :: inner) ++ b :: after := by simp
  have hlength : before.length + inner.length + 1 = (before ++ b :: inner).length := by
    rw [List.length_append, List.length_cons, Nat.add_assoc]
  have ha : (before ++ a :: (inner ++ b :: after))[before.length]? = some a := by
    rw [List.getElem?_append_right (Nat.le_refl _), Nat.sub_self]
    rfl
  have hb : (before ++ a :: (inner ++ b :: after))[before.length + inner.length + 1]? = some b := by
    rw [List.getElem?_append_right (by omega), Nat.add_assoc, Nat.add_sub_cancel_left, List.getElem?_cons_succ,
      List.getElem?_append_right (Nat.le_refl _), Nat.sub_self]
    rfl
  rw [hleft]
  calc
    swap (before ++ a :: (inner ++ b :: after)) before.length (before.length + inner.length + 1) =
        (write (before ++ a :: (inner ++ b :: after)) before.length b).bind
          fun cells => write cells (before.length + inner.length + 1) a := by
      unfold swap
      rw [ha, hb]
      rfl
    _ = write ((before ++ b :: inner) ++ b :: after) (before ++ b :: inner).length a := by
      rw [write_behind, Option.bind_some, hright, hlength]
    _ = some (before ++ (b :: inner ++ [a]) ++ after) := by
      rw [write_behind]
      simp

theorem swapInwards_of_le {j : Nat} (h : j ≤ i) : swapInwards cells i j = some cells := by
  cases j with
  | zero => rfl
  | succ j => rw [swapInwards, if_neg (by omega)]

/-- Two indices that start at the ends of a segment and move towards each other reverse it. -/
theorem swapInwards_segment (segment : List α) :
    swapInwards (before ++ segment ++ after) before.length (before.length + segment.length - 1) =
      some (before ++ segment.reverse ++ after) := by
  induction segment using List.bidirectionalRec generalizing before after with
  | nil =>
      rw [List.reverse_nil, List.length_nil, Nat.add_zero, swapInwards_of_le (Nat.sub_le _ _)]
  | singleton a =>
      rw [List.length_singleton, Nat.add_sub_cancel, List.reverse_singleton, swapInwards_of_le (Nat.le_refl _)]
  | cons_append a inner b ih =>
      have hlast : before.length + (a :: (inner ++ [b])).length - 1 = before.length + inner.length + 1 := by
        rw [List.length_cons, List.length_append, List.length_singleton]
        omega
      have hnext : swapInwards (before ++ [b] ++ inner ++ a :: after) (before ++ [b]).length
          ((before ++ [b]).length + inner.length - 1) = some (before ++ [b] ++ inner.reverse ++ a :: after) := ih
      rw [List.length_append, List.length_singleton] at hnext
      rw [hlast, swapInwards, if_pos (by omega), ← List.cons_append, swap_ends]
      have hsplit : before ++ (b :: inner ++ [a]) ++ after = before ++ [b] ++ inner ++ a :: after := by simp
      have hresult : before ++ (a :: inner ++ [b]).reverse ++ after =
          before ++ [b] ++ inner.reverse ++ a :: after := by simp
      dsimp only
      rw [hsplit, hresult, ← hnext]
      congr 1
      omega

/-- The same for a segment at the start of the array. -/
theorem swapInwards_prefix (segment : List α) :
    swapInwards (segment ++ after) 0 (segment.length - 1) = some (segment.reverse ++ after) := by
  have h : swapInwards ([] ++ segment ++ after) ([] : List α).length (([] : List α).length + segment.length - 1) =
      some ([] ++ segment.reverse ++ after) := swapInwards_segment segment
  rwa [List.length_nil, Nat.zero_add, List.nil_append, List.nil_append] at h

end Reverse

end CellArray
