import HathorApp.IntegerText

/-!
Signed integers as text. `format_i64` writes the digits into an array of its own, from the last one on, with the sign
behind them, and copies them backwards to its caller; it never negates the value, so that the least one is no
exception.
-/

namespace HathorApp

open CellArray PositionalNumeral

/-- The initial value of `temp`, the text of the least value and its NUL. -/
def formatI64Temp : Bytes := [45, 57, 50, 50, 51, 51, 55, 50, 48, 51, 54, 56, 53, 52, 55, 55, 53, 56, 48, 56, 0]

/-- The digit loop of `format_i64`, from cell `ptr` on: the array and the cell after the last digit. A loop still
running after `fuel` tests has no result. -/
def formatI64Digits (sign : Int) : Nat → Bytes → Nat → Int → Option (Bytes × Nat)
  | 0, _, _, _ => none
  | fuel + 1, temp, ptr, num =>
    if num = 0 then some (temp, ptr)
    else do
      let temp ← write temp ptr (UInt8.ofNat (48 + num.tmod 10 * sign).toNat)
      formatI64Digits sign fuel temp (ptr + 1) (num.tdiv 10)

/-- The copying loop, which goes down to the first cell of `temp`. -/
def formatI64Copy (temp : Bytes) : Nat → Bytes → Nat → Option (Bytes × Nat)
  | 0, dst, index => some (dst, index)
  | ptr + 1, dst, index => do
    let dst ← write dst index (temp.getD ptr 0)
    formatI64Copy temp ptr dst (index + 1)

/-- The character behind the digits: the sign, or the digit that the loop does not write for zero. -/
def formatI64Sign (value : Int) (temp : Bytes) (ptr : Nat) : Option (Bytes × Nat) :=
  if value < 0 then do
    let temp ← write temp ptr 45
    return (temp, ptr + 1)
  else if value = 0 then do
    let temp ← write temp ptr 48
    return (temp, ptr + 1)
  else some (temp, ptr)

/-- A size as an `int` of 32 bits. -/
def intOfSize (size : Nat) : Int := Int.bmod size (2 ^ 32)

/-- The capacity test and what comes behind it. -/
def formatI64Finish (temp : Bytes) (ptr : Nat) (dst : Bytes) (capacity : Int) : Option (Bool × Bytes) :=
  let distance := ptr + 1
  if capacity < distance then some (false, dst)
  else do
    let (dst, index) ← formatI64Copy temp ptr dst 0
    let dst ← write dst index 0
    return (true, dst)

/-- `format_i64`: what it returns and the array it leaves. -/
def formatI64 (dst : Bytes) (dstLen : Nat) (value : Int) : Option (Bool × Bytes) :=
  if dstLen = 0 then some (false, dst)
  else do
    let sign : Int := if value < 0 then -1 else 1
    let (temp, ptr) ← formatI64Digits sign 20 formatI64Temp 0 value
    let (temp, ptr) ← formatI64Sign value temp ptr
    formatI64Finish temp ptr dst (intOfSize dstLen)

/-- The remainder takes the sign of the value away again. -/
theorem remainder_char {num sign : Int} (hneg : num < 0 → sign = -1) (hpos : 0 < num → sign = 1) (hzero : num ≠ 0) :
    UInt8.ofNat (48 + num.tmod 10 * sign).toNat = digitChar (num.natAbs % 10) := by
  have habs : (num.tmod 10).natAbs = num.natAbs % 10 := Int.natAbs_tmod num 10
  have hchar : (48 + num.tmod 10 * sign).toNat = num.natAbs % 10 + 48 := by
    rcases Int.lt_or_gt_of_ne hzero with hnum | hnum
    · have hopposite : (-num).tmod 10 = -num.tmod 10 := Int.neg_tmod num 10
      have hsign : 0 ≤ (-num).tmod 10 := Int.tmod_nonneg 10 (by omega)
      rw [hneg hnum]
      omega
    · have hsign : 0 ≤ num.tmod 10 := Int.tmod_nonneg 10 (by omega)
      rw [hpos hnum]
      omega
  rw [digitChar, hchar]

/-- The quotient keeps the sign or is zero. -/
theorem quotient_sign (num : Int) : (num.tdiv 10 < 0 → num < 0) ∧ (0 < num.tdiv 10 → 0 < num) := by
  constructor
  · intro hquotient
    by_contra hnum
    have hnonneg : 0 ≤ num.tdiv 10 := Int.tdiv_nonneg (by omega) (by decide)
    omega
  · intro hquotient
    by_contra hnum
    have hopposite : (-num).tdiv 10 = -num.tdiv 10 := Int.neg_tdiv num 10
    have hnonneg : 0 ≤ (-num).tdiv 10 := Int.tdiv_nonneg (by omega) (by decide)
    omega

/-- The digits of the absolute value go behind what is there, the last one first. -/
theorem formatI64Digits_eq {num sign : Int} {fuel : Nat} {done rest : Bytes} (hneg : num < 0 → sign = -1)
    (hpos : 0 < num → sign = 1) (hnum : num.natAbs < 10 ^ fuel)
    (hroom : (Nat.digits 10 num.natAbs).length ≤ rest.length) :
    formatI64Digits sign (fuel + 1) (done ++ rest) done.length num =
      some (done ++ (Nat.digits 10 num.natAbs).map digitChar ++ rest.drop (Nat.digits 10 num.natAbs).length,
        done.length + (Nat.digits 10 num.natAbs).length) := by
  induction fuel generalizing num done rest with
  | zero =>
      have hzero : num = 0 := by
        rw [Nat.pow_zero] at hnum
        omega
      rw [formatI64Digits, if_pos hzero, hzero]
      simp
  | succ fuel ih =>
      rw [formatI64Digits]
      by_cases hzero : num = 0
      · rw [if_pos hzero, hzero]
        simp
      · have hdigits : Nat.digits 10 num.natAbs = num.natAbs % 10 :: Nat.digits 10 (num.natAbs / 10) :=
          Nat.digits_def' (by decide) (by omega)
        have hquotient : (num.tdiv 10).natAbs = num.natAbs / 10 := Int.natAbs_tdiv num 10
        rw [hdigits, List.length_cons] at hroom
        obtain ⟨x, rest, rfl⟩ := List.exists_cons_of_ne_nil (l := rest) (by
          rintro rfl
          rw [List.length_nil] at hroom
          omega)
        rw [List.length_cons] at hroom
        have hdone : (done ++ [digitChar (num.natAbs % 10)]).length = done.length + 1 := List.length_append
        rw [if_neg hzero, write_behind, remainder_char hneg hpos hzero, List.append_cons, ← hdone]
        have hnum' : (num.tdiv 10).natAbs < 10 ^ fuel := by
          rw [Nat.pow_succ] at hnum
          omega
        calc
          _ = formatI64Digits sign (fuel + 1) (done ++ [digitChar (num.natAbs % 10)] ++ rest)
              (done ++ [digitChar (num.natAbs % 10)]).length (num.tdiv 10) := rfl
          _ = _ := by
            rw [ih (fun h => hneg ((quotient_sign num).1 h)) (fun h => hpos ((quotient_sign num).2 h)) hnum'
              (by rw [hquotient]; omega), hquotient, hdigits, hdone, List.length_cons, List.map_cons, List.drop_succ_cons]
            simp only [List.append_assoc, List.cons_append, List.nil_append, Nat.add_assoc, Nat.add_comm 1]

/-- The copying loop writes the cells before `ptr` from the last one on. -/
theorem formatI64Copy_eq {temp : Bytes} {ptr : Nat} {done rest : Bytes} (hptr : ptr ≤ temp.length)
    (hroom : ptr ≤ rest.length) :
    formatI64Copy temp ptr (done ++ rest) done.length =
      some (done ++ (temp.take ptr).reverse ++ rest.drop ptr, done.length + ptr) := by
  induction ptr generalizing done rest with
  | zero =>
      rw [formatI64Copy]
      simp
  | succ ptr ih =>
      obtain ⟨x, rest, rfl⟩ := List.exists_cons_of_ne_nil (l := rest) (by
        rintro rfl
        rw [List.length_nil] at hroom
        omega)
      rw [List.length_cons] at hroom
      have hdone : (done ++ [temp.getD ptr 0]).length = done.length + 1 := List.length_append
      have htake : temp.take (ptr + 1) = temp.take ptr ++ [temp.getD ptr 0] := by
        rw [List.take_add_one, List.getD_eq_getElem?_getD, List.getElem?_eq_getElem (by omega)]
        rfl
      rw [formatI64Copy, write_behind, List.append_cons, ← hdone]
      calc
        _ = formatI64Copy temp ptr (done ++ [temp.getD ptr 0] ++ rest) (done ++ [temp.getD ptr 0]).length := rfl
        _ = _ := by
          rw [ih (by omega) (by omega), hdone, htake, List.reverse_append, List.drop_succ_cons]
          simp only [List.reverse_singleton, List.append_assoc, List.cons_append, List.nil_append, Nat.add_assoc,
            Nat.add_comm 1]

/-- The integer that a text denotes, with a minus or without. -/
def readInteger (text : Bytes) : Int :=
  if text.head? = some 45 then -(readDecimal text.tail : Int) else readDecimal text

theorem integerNumeral_ten (value : Int) :
    integerNumeral 10 value = (if value < 0 then [45] else []) ++ decimalText value.natAbs := by
  have htext : (numeral 10 value.natAbs).map baseChar = decimalText value.natAbs := by
    apply List.map_congr_left
    intro d hd
    exact baseChar_eq_digitChar d (numeral_lt (by decide) d hd)
  rw [integerNumeral, htext]

theorem readInteger_integerNumeral (value : Int) : readInteger (integerNumeral 10 value) = value := by
  rw [integerNumeral_ten]
  by_cases hneg : value < 0
  · rw [if_pos hneg, List.singleton_append, readInteger, List.head?_cons, if_pos rfl, List.tail_cons, readDecimal_decimalText]
    omega
  · have hhead : (decimalText value.natAbs).head? ≠ some 45 := by
      intro hminus
      have hdigit := le_of_mem_decimalText (List.mem_of_mem_head? hminus)
      revert hdigit
      decide
    rw [if_neg hneg, List.nil_append, readInteger, if_neg hhead, readDecimal_decimalText]
    omega

/-- The cells of `temp` that are in use, backwards: the numeral. -/
theorem reverse_temp (value : Int) :
    ((Nat.digits 10 value.natAbs).map digitChar ++
      (if value < 0 then [45] else if value = 0 then [48] else [])).reverse = integerNumeral 10 value := by
  rw [integerNumeral_ten, List.reverse_append]
  by_cases hzero : value = 0
  · rw [hzero]
    rfl
  · have hdigits : ((Nat.digits 10 value.natAbs).map digitChar).reverse = decimalText value.natAbs := by
      rw [decimalText, numeral, if_neg (by omega), List.map_reverse]
    rw [hdigits, if_neg hzero]
    by_cases hneg : value < 0
    · rw [if_pos hneg]
      rfl
    · rw [if_neg hneg]
      rfl

/-- The digits and the sign have room in `temp`. -/
theorem formatI64_temp {value : Int} (hvalue : -2 ^ 63 ≤ value ∧ value < 2 ^ 63) :
    ∃ digits used rest, formatI64Digits (if value < 0 then -1 else 1) 20 formatI64Temp 0 value = some digits ∧
      formatI64Sign value digits.1 digits.2 = some (used ++ rest, used.length) ∧
        used.reverse = integerNumeral 10 value := by
  have hlength : (Nat.digits 10 value.natAbs).length ≤ 19 := (Nat.digits_length_le_iff (by decide) _).mpr (by omega)
  have hfits : (Nat.digits 10 value.natAbs).length ≤ formatI64Temp.length := hlength.trans (by decide)
  have hlast : (Nat.digits 10 value.natAbs).length < formatI64Temp.length := Nat.lt_of_le_of_lt hlength (by decide)
  have hdigits : formatI64Digits (if value < 0 then -1 else 1) 20 formatI64Temp 0 value =
      some ((Nat.digits 10 value.natAbs).map digitChar ++ formatI64Temp.drop (Nat.digits 10 value.natAbs).length,
        ((Nat.digits 10 value.natAbs).map digitChar).length) := by
    have hspec := @formatI64Digits_eq value (if value < 0 then -1 else 1) 19 [] formatI64Temp (fun h => if_pos h)
      (fun h => if_neg (by omega)) (by omega) hfits
    rw [List.length_map]
    simpa using hspec
  have hreverse := reverse_temp value
  by_cases hneg : value < 0
  · rw [if_pos hneg] at hreverse
    refine ⟨_, _, formatI64Temp.drop ((Nat.digits 10 value.natAbs).length + 1), hdigits, ?_, hreverse⟩
    rw [formatI64Sign, if_pos hneg, List.drop_eq_getElem_cons hlast, write_behind]
    simp
  · rw [if_neg hneg] at hreverse
    by_cases hzero : value = 0
    · rw [if_pos hzero] at hreverse
      refine ⟨_, _, formatI64Temp.drop ((Nat.digits 10 value.natAbs).length + 1), hdigits, ?_, hreverse⟩
      rw [formatI64Sign, if_neg hneg, if_pos hzero, List.drop_eq_getElem_cons hlast, write_behind]
      simp
    · rw [if_neg hzero] at hreverse
      refine ⟨_, _, formatI64Temp.drop (Nat.digits 10 value.natAbs).length, hdigits, ?_, hreverse⟩
      rw [formatI64Sign, if_neg hneg, if_neg hzero]
      simp

/-- The cast changes the sizes from 2^31 on. -/
theorem intOfSize_eq {size : Nat} (h : size < 2 ^ 32) :
    intOfSize size = if size < 2 ^ 31 then (size : Int) else (size : Int) - 2 ^ 32 := by
  unfold intOfSize
  by_cases hint : size < 2 ^ 31
  · rw [if_pos hint, Int.bmod_def, if_pos]
    · omega
    · omega
  · have hmod : (size : Int) % (2 ^ 32 : Nat) = size := by omega
    rw [if_neg hint, Int.bmod_def, hmod, if_neg]
    · omega
    · omega

/-- What `format_i64` does for every value of 64 bits and every array: the text with its NUL goes to the first cells
if the capacity, taken as an `int`, has room for it, and otherwise nothing is written. The array in which the digits
are made is never left. -/
theorem formatI64_eq {dst : Bytes} {value : Int} (hdst : dst.length < 2 ^ 32)
    (hvalue : -2 ^ 63 ≤ value ∧ value < 2 ^ 63) :
    formatI64 dst dst.length value =
      if (integerNumeral 10 value).length + 1 ≤ dst.length ∧ dst.length < 2 ^ 31 then
        some (true, integerNumeral 10 value ++ 0 :: dst.drop ((integerNumeral 10 value).length + 1))
      else some (false, dst) := by
  obtain ⟨⟨temp, ptr⟩, used, rest, hdigits, hsign, htext⟩ := formatI64_temp hvalue
  dsimp only at hsign
  have hused : used.length = (integerNumeral 10 value).length := by rw [← htext, List.length_reverse]
  have hrun : formatI64 dst dst.length value = if dst.length = 0 then some (false, dst)
      else formatI64Finish (used ++ rest) used.length dst (intOfSize dst.length) := by
    rw [formatI64]
    dsimp only
    rw [hdigits, Option.bind_eq_bind, Option.bind_some]
    dsimp only
    rw [hsign, Option.bind_some]
  rw [hrun, intOfSize_eq hdst, formatI64Finish]
  dsimp only
  rw [hused]
  by_cases hfits : (integerNumeral 10 value).length + 1 ≤ dst.length ∧ dst.length < 2 ^ 31
  · obtain ⟨hroom, hint⟩ := hfits
    have hcopy := @formatI64Copy_eq (used ++ rest) used.length [] dst
      (by rw [List.length_append]; omega) (by omega)
    rw [List.nil_append, List.nil_append, List.length_nil, Nat.zero_add, List.take_left, htext, hused] at hcopy
    have hlast : (integerNumeral 10 value).length < dst.length := hroom
    rw [if_neg (by omega), if_pos hint, if_neg (by omega), if_pos ⟨hroom, hint⟩, hcopy, Option.bind_eq_bind,
      Option.bind_some, List.drop_eq_getElem_cons hlast, write_behind]
    rfl
  · rw [if_neg hfits]
    by_cases hempty : dst.length = 0
    · rw [if_pos hempty]
    · rw [if_neg hempty, if_pos]
      split <;> omega

theorem zero_not_mem_integerNumeral_ten (value : Int) : 0 ∉ integerNumeral 10 value := by
  rw [integerNumeral_ten, List.mem_append, not_or]
  refine ⟨?_, zero_not_mem_decimalText _⟩
  by_cases hneg : value < 0
  · rw [if_pos hneg]
    decide
  · rw [if_neg hneg]
    decide

/-- `format_i64` is exact or refuses, and refuses if there is no room or the capacity is negative as an `int`. What it
writes is read as the value again; a refusal leaves the array as it is. -/
theorem formatI64_exact {dst : Bytes} {value : Int} (hdst : dst.length < 2 ^ 32)
    (hvalue : -2 ^ 63 ≤ value ∧ value < 2 ^ 63) :
    ∃ returned dst', formatI64 dst dst.length value = some (returned, dst') ∧ dst'.length = dst.length ∧
      (returned = true ↔ (integerNumeral 10 value).length + 1 ≤ dst.length ∧ dst.length < 2 ^ 31) ∧
      (returned = true → cString dst' = integerNumeral 10 value ∧ readInteger (cString dst') = value ∧
        ∀ i, (integerNumeral 10 value).length < i → dst'[i]? = dst[i]?) ∧
      (returned = false → dst' = dst) := by
  rw [formatI64_eq hdst hvalue]
  by_cases hfits : (integerNumeral 10 value).length + 1 ≤ dst.length ∧ dst.length < 2 ^ 31
  · have htext : cString (integerNumeral 10 value ++ 0 :: dst.drop ((integerNumeral 10 value).length + 1)) =
        integerNumeral 10 value := by
      rw [cString_append_nul, cString_eq_self (zero_not_mem_integerNumeral_ten value)]
    refine ⟨true, _, if_pos hfits, ?_, iff_of_true rfl hfits, fun _ => ⟨htext, ?_, fun i hi => ?_⟩,
      fun h => Bool.noConfusion h⟩
    · rw [List.length_append, List.length_cons, List.length_drop]
      omega
    · rw [htext, readInteger_integerNumeral]
    · obtain ⟨k, rfl⟩ : ∃ k, i = (integerNumeral 10 value).length + (k + 1) :=
        ⟨i - (integerNumeral 10 value).length - 1, by omega⟩
      rw [List.getElem?_append_right (by omega), Nat.add_sub_cancel_left, List.getElem?_cons_succ, List.getElem?_drop]
      congr 1
      omega
  · refine ⟨false, dst, if_neg hfits, rfl, iff_of_false Bool.false_ne_true hfits, fun h => ?_, fun _ => rfl⟩
    cases h

/-- The least value, in an array of the size that its text needs. -/
theorem formatI64_exact_least : ∃ returned dst', formatI64 (List.replicate 21 0) 21 (-2 ^ 63) = some (returned, dst') ∧
    dst'.length = 21 ∧ (returned = true ↔ (integerNumeral 10 (-2 ^ 63)).length + 1 ≤ 21 ∧ 21 < 2 ^ 31) ∧
    (returned = true → cString dst' = integerNumeral 10 (-2 ^ 63) ∧ readInteger (cString dst') = -2 ^ 63 ∧
      ∀ i, (integerNumeral 10 (-2 ^ 63)).length < i → dst'[i]? = (List.replicate 21 (0 : UInt8))[i]?) ∧
    (returned = false → dst' = List.replicate 21 0) :=
  @formatI64_exact (List.replicate 21 0) (-2 ^ 63) (by decide) (by decide)

end HathorApp
