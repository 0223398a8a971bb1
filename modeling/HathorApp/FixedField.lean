import HathorApp.CellArray

/-!
Values kept in a fixed number of consecutive cells of an array. A codec turns a value into that many cells and
back. Storing and loading at an offset are then a lens on the array: what is stored is loaded again, storing what is
there changes nothing, the second of two stores stays, and fields that do not overlap have nothing to do with one
another, whatever codecs they are kept by.
-/

namespace FixedField

open CellArray

variable {α β γ : Type}

/-- A value in so many cells. Not every value need have a form: those that fit do. -/
structure Codec (α β : Type) where
  width : Nat
  fits : β → Prop
  encode : β → List α
  decode : List α → β
  length_encode : ∀ v, (encode v).length = width
  decode_encode : ∀ v, fits v → decode (encode v) = v
  encode_decode : ∀ l, l.length = width → encode (decode l) = l

namespace Codec

/-- The same cells from the last one to the first. -/
def reversed (c : Codec α β) : Codec α β where
  width := c.width
  fits := c.fits
  encode v := (c.encode v).reverse
  decode l := c.decode l.reverse
  length_encode v := by rw [List.length_reverse, c.length_encode]
  decode_encode v h := by rw [List.reverse_reverse, c.decode_encode v h]
  encode_decode l h := by
    rw [c.encode_decode _ (by rw [List.length_reverse, h]), List.reverse_reverse]

def load (c : Codec α β) (cells : List α) (offset : Nat) : β := c.decode ((cells.drop offset).take c.width)

def store (c : Codec α β) (cells : List α) (offset : Nat) (v : β) : Option (List α) :=
  writeAll cells offset (c.encode v)

end Codec

section Segment

variable {cells v : List α} {i : Nat}

/-- An array with some cells from an index on. -/
def overwrite (cells : List α) (i : Nat) (v : List α) : List α := cells.take i ++ v ++ cells.drop (i + v.length)

variable (h : i + v.length ≤ cells.length)
include h

theorem writeAll_eq_overwrite : writeAll cells i v = some (overwrite cells i v) := writeAll_of_fits h

theorem length_overwrite : (overwrite cells i v).length = cells.length := by
  unfold overwrite
  rw [List.length_append, List.length_append, List.length_take, List.length_drop]
  omega

theorem getElem?_overwrite (j : Nat) :
    (overwrite cells i v)[j]? = if i ≤ j ∧ j < i + v.length then v[j - i]? else cells[j]? := by
  have htake : (cells.take i).length = i := by
    rw [List.length_take]
    omega
  unfold overwrite
  rcases Nat.lt_or_ge j i with hbefore | hfrom
  · rw [if_neg (by omega), List.append_assoc, List.getElem?_append_left (by omega), List.getElem?_take_of_lt hbefore]
  · rw [List.append_assoc, List.getElem?_append_right (by omega), htake]
    rcases Nat.lt_or_ge j (i + v.length) with hinside | hbehind
    · rw [if_pos ⟨hfrom, hinside⟩, List.getElem?_append_left (by omega)]
    · rw [if_neg (by omega), List.getElem?_append_right (by omega), List.getElem?_drop]
      congr 1
      omega

/-- The segment written is read back. -/
theorem segment_overwrite : ((overwrite cells i v).drop i).take v.length = v := by
  ext j : 1
  rw [List.getElem?_take, List.getElem?_drop, getElem?_overwrite h, Nat.add_sub_cancel_left]
  by_cases hj : j < v.length
  · rw [if_pos hj, if_pos ⟨Nat.le_add_right i j, by omega⟩]
  · rw [if_neg hj, List.getElem?_eq_none (by omega)]

/-- A segment that does not overlap it is as it was. -/
theorem segment_overwrite_of_disjoint {j n : Nat} (hdisjoint : j + n ≤ i ∨ i + v.length ≤ j) :
    ((overwrite cells i v).drop j).take n = (cells.drop j).take n := by
  ext k : 1
  rw [List.getElem?_take, List.getElem?_take, List.getElem?_drop, List.getElem?_drop, getElem?_overwrite h]
  by_cases hk : k < n
  · rw [if_pos hk, if_pos hk, if_neg (by omega)]
  · rw [if_neg hk, if_neg hk]

omit h in
/-- Writing the segment that is there changes nothing. -/
theorem overwrite_self (hsame : (cells.drop i).take v.length = v) : overwrite cells i v = cells := by
  calc
    overwrite cells i v = cells.take i ++ ((cells.drop i).take v.length ++ (cells.drop i).drop v.length) := by
      unfold overwrite
      rw [hsame, List.drop_drop, List.append_assoc]
    _ = cells := by rw [List.take_append_drop, List.take_append_drop]

/-- The second of two writes to one segment stays. -/
theorem overwrite_overwrite {v' : List α} (hlength : v'.length = v.length) :
    overwrite (overwrite cells i v) i v' = overwrite cells i v' := by
  have hlen := length_overwrite h
  ext j : 1
  rw [getElem?_overwrite (by omega), getElem?_overwrite h, getElem?_overwrite (by omega), hlength]
  split <;> rfl

/-- Writes to segments that do not overlap commute. -/
theorem overwrite_comm {v' : List α} {i' : Nat} (h' : i' + v'.length ≤ cells.length)
    (hdisjoint : i + v.length ≤ i' ∨ i' + v'.length ≤ i) :
    overwrite (overwrite cells i v) i' v' = overwrite (overwrite cells i' v') i v := by
  have hlen := length_overwrite h
  have hlen' := length_overwrite h'
  ext j : 1
  rw [getElem?_overwrite (by omega), getElem?_overwrite h, getElem?_overwrite (by omega), getElem?_overwrite h']
  by_cases hfirst : i ≤ j ∧ j < i + v.length
  · rw [if_neg (by omega), if_pos hfirst, if_pos hfirst]
  · rw [if_neg hfirst, if_neg hfirst]

end Segment

namespace Codec

variable {c : Codec α β} {cells cells' : List α} {offset : Nat} {v : β}

theorem store_of_fits (h : offset + c.width ≤ cells.length) :
    c.store cells offset v = some (overwrite cells offset (c.encode v)) := by
  unfold store
  rw [writeAll_eq_overwrite (by rw [c.length_encode]; exact h)]

/-- A field that is not all in the array is not stored. -/
theorem store_eq_none_iff (hwidth : 0 < c.width) :
    c.store cells offset v = none ↔ cells.length < offset + c.width := by
  have hlength := c.length_encode v
  constructor
  · intro hnone
    by_contra hfits
    rw [store_of_fits (Nat.not_lt.mp hfits)] at hnone
    cases hnone
  · intro hlong
    rcases Nat.le_total offset cells.length with hoffset | hbehind
    · exact writeAll_eq_none hoffset (by rw [hlength]; exact hlong)
    · exact writeAll_of_length_le hbehind (List.length_pos_iff.mp (by rw [hlength]; exact hwidth))

/-- A field that is stored was all in the array. -/
theorem fits_of_store (hwidth : 0 < c.width) (h : c.store cells offset v = some cells') :
    offset + c.width ≤ cells.length ∧ cells' = overwrite cells offset (c.encode v) := by
  have hroom : offset + c.width ≤ cells.length := by
    by_contra hlong
    rw [(store_eq_none_iff hwidth).mpr (Nat.not_le.mp hlong)] at h
    cases h
  rw [store_of_fits hroom] at h
  cases h
  exact ⟨hroom, rfl⟩

variable (h : offset + c.width ≤ cells.length)
include h

theorem load_overwrite (hv : c.fits v) : c.load (overwrite cells offset (c.encode v)) offset = v := by
  have hroom : offset + (c.encode v).length ≤ cells.length := by
    rw [c.length_encode]
    exact h
  have hsegment := segment_overwrite hroom
  rw [c.length_encode] at hsegment
  rw [load, hsegment, c.decode_encode v hv]

theorem load_overwrite_of_disjoint (c' : Codec α γ) {place : Nat}
    (hdisjoint : place + c'.width ≤ offset ∨ offset + c.width ≤ place) :
    c'.load (overwrite cells offset (c.encode v)) place = c'.load cells place := by
  rw [load, load, segment_overwrite_of_disjoint (by rw [c.length_encode]; exact h) (by rw [c.length_encode]; exact hdisjoint)]

/-- What is loaded is stored back without a change. -/
theorem store_load : c.store cells offset (c.load cells offset) = some cells := by
  have hlength : ((cells.drop offset).take c.width).length = c.width := by
    rw [List.length_take, List.length_drop]
    omega
  have hencode : c.encode (c.load cells offset) = (cells.drop offset).take c.width := c.encode_decode _ hlength
  rw [store_of_fits h, overwrite_self (by rw [hencode, hlength])]

/-- The second of two stores stays. -/
theorem store_store (v' : β) :
    c.store (overwrite cells offset (c.encode v)) offset v' = c.store cells offset v' := by
  have hroom : offset + (c.encode v).length ≤ cells.length := by rwa [c.length_encode]
  rw [store_of_fits (by rw [length_overwrite hroom]; exact h), store_of_fits h,
    overwrite_overwrite hroom (by rw [c.length_encode, c.length_encode])]

/-- Stores to fields that do not overlap commute. -/
theorem store_comm (c' : Codec α γ) {place : Nat} {v' : γ} (h' : place + c'.width ≤ cells.length)
    (hdisjoint : place + c'.width ≤ offset ∨ offset + c.width ≤ place) :
    c'.store (overwrite cells offset (c.encode v)) place v' =
      c.store (overwrite cells place (c'.encode v')) offset v := by
  have hroom : offset + (c.encode v).length ≤ cells.length := by rwa [c.length_encode]
  have hroom' : place + (c'.encode v').length ≤ cells.length := by rwa [c'.length_encode]
  rw [store_of_fits (by rw [length_overwrite hroom]; exact h'), store_of_fits (by rw [length_overwrite hroom']; exact h),
    overwrite_comm hroom hroom']
  rw [c.length_encode, c'.length_encode]
  exact hdisjoint.symm

end Codec

end FixedField
