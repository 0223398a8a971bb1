import HathorApp.AmountText

/-!
The text of a value is exact. It is the digits of the integer part in groups of three, a point and two
decimals, so that without commas and point it is the digits of the value itself.
-/

namespace HathorApp

open CellArray PositionalNumeral

/-- The digits over 100 with a comma before every group of three, a point and the last two digits. -/
def valueText (value : Nat) : Bytes :=
  groupDigits (decimalText (value / 100)) ++ 46 :: (lastDigits 10 2 value).map digitChar

/-- Neither a comma nor the point. -/
def noPunctuation (c : UInt8) : Bool := c ≠ 44 ∧ c ≠ 46

/-- The number left without commas and point. -/
def readValue (text : Bytes) : Nat := readDecimal (text.filter noPunctuation)

theorem formatValue_eq_valueText {value : Nat} (hvalue : value < 10 ^ 23) : formatValue value = valueText value := by
  have hr : value % 100 < 100 := Nat.mod_lt value (by decide)
  have hlast : lastDigits 10 2 (value % 100) = lastDigits 10 2 value := by
    have htens : value % 100 / 10 % 10 = value / 10 % 10 := by omega
    have hones : value % 100 % 10 = value % 10 := by omega
    show [value % 100 / 10 % 10, value % 100 % 10] = [value / 10 % 10, value % 10]
    rw [htens, hones]
  rw [formatValue_eq, groupedText_eq hvalue, decimalsText_eq hr, hlast, valueText]

theorem noPunctuation_digit {c : UInt8} (h : 48 ≤ c.toNat) : noPunctuation c = true := by
  apply decide_eq_true
  constructor
  · intro hcomma
    rw [hcomma] at h
    revert h
    decide
  · intro hpoint
    rw [hpoint] at h
    revert h
    decide

theorem filter_digits {text : Bytes} (h : ∀ c ∈ text, 48 ≤ c.toNat) :
    text.filter noPunctuation = text :=
  List.filter_eq_self.mpr fun c hc => noPunctuation_digit (h c hc)

theorem filter_groupDigits {text : Bytes} (h : ∀ c ∈ text, 48 ≤ c.toNat) :
    (groupDigits text).filter noPunctuation = text := by
  induction text with
  | nil => rfl
  | cons c rest ih =>
      obtain ⟨hc, hrest⟩ := List.forall_mem_cons.mp h
      rw [groupDigits]
      split
      · rw [List.filter_cons_of_pos (noPunctuation_digit hc), List.filter_cons_of_neg (a := 44) (by decide), ih hrest]
      · rw [List.filter_cons_of_pos (noPunctuation_digit hc), ih hrest]

theorem readValue_valueText (value : Nat) : readValue (valueText value) = value := by
  have hinteger : ∀ c ∈ decimalText (value / 100), 48 ≤ c.toNat := fun c hc => le_of_mem_decimalText hc
  have hlast : ∀ d ∈ lastDigits 10 2 value, d < 10 := lastDigits_lt (by decide)
  have hdecimals : ∀ c ∈ (lastDigits 10 2 value).map digitChar, 48 ≤ c.toNat := fun c hc => le_of_mem_digits hlast hc
  have hpoint : [(46 : UInt8)].filter noPunctuation = [] := by decide
  have hdigits : (valueText value).filter noPunctuation =
      (numeral 10 (value / 100) ++ lastDigits 10 2 value).map digitChar := by
    rw [valueText, ← List.singleton_append, List.filter_append, List.filter_append, filter_groupDigits hinteger, hpoint,
      filter_digits hdecimals, List.nil_append, List.map_append, decimalText]
  have hall : ∀ d ∈ numeral 10 (value / 100) ++ lastDigits 10 2 value, d < 10 :=
    List.forall_mem_append.mpr ⟨numeral_lt (by decide), hlast⟩
  calc
    readValue (valueText value) = PositionalNumeral.value 10 (numeral 10 (value / 100) ++ lastDigits 10 2 value) := by
      rw [readValue, hdigits, readDecimal_map hall]
    _ = value / 100 * 10 ^ 2 + value % 10 ^ 2 := by
      rw [value_append, value_numeral, value_lastDigits, length_lastDigits]
    _ = value := by omega

/-- `format_value` writes the text of a value and a NUL, and nothing else; different values have different texts. -/
theorem formatValue_exact {value : Nat} (hvalue : value < 2 ^ 64) (out : Bytes) :
    (formatValueInto out 0 value = if (valueText value).length + 1 ≤ out.length then
        some (valueText value ++ 0 :: out.drop ((valueText value).length + 1)) else none) ∧
      0 ∉ valueText value ∧ readValue (valueText value) = value ∧
      ∀ other, valueText other = valueText value → other = value := by
  have hvalue' : value < 10 ^ 23 := by omega
  have htext := formatValue_eq_valueText hvalue'
  have hlength : (valueText value).length = (groupedText value).length + 3 := by
    rw [groupedText_eq hvalue', valueText, List.length_append, List.length_cons, List.length_map, length_lastDigits]
  have hinto : formatValueInto out 0 value = if (groupedText value).length + 4 ≤ out.length then
      some (formatValue value ++ 0 :: out.drop ((groupedText value).length + 4)) else none :=
    @formatValueInto_eq [] out value hvalue'
  refine ⟨?_, ?_, readValue_valueText value, fun other hother => ?_⟩
  · rw [hinto, htext, hlength]
  · rw [← htext]
    exact zero_not_mem_formatValue hvalue'
  · rw [← readValue_valueText other, hother, readValue_valueText]

/-- The largest value in an array of 27 cells. -/
theorem formatValue_exact_max : formatValueInto (List.replicate 27 1) 0 (2 ^ 64 - 1) =
    some (valueText (2 ^ 64 - 1) ++ [0]) := by
  have hlength : (valueText (2 ^ 64 - 1)).length = 26 := by decide +kernel
  have hvalue : 2 ^ 64 - 1 < 2 ^ 64 := by decide
  have h := (formatValue_exact hvalue (List.replicate 27 1)).1
  rw [hlength] at h
  exact h

end HathorApp
