import HathorApp.IntegerText

/-!
A number with a fixed count of decimals. `format_fpu64` tests the length of its array before it writes. For
a number of more digits than decimals it asks for more than the text needs. For the others the test is about
the zeros only, and the digits are copied by a `strncpy` that cuts them to what is left.
-/

namespace HathorApp

open CellArray PositionalNumeral

/-- The full text of a value over a power of ten. -/
def fixedPointText (value decimals : Nat) : Bytes :=
  decimalText (value / 10 ^ decimals) ++ 46 :: (lastDigits 10 decimals value).map digitChar

/-- The text has an integer part and a fraction of as many digits as decimals, which denote the value. -/
def IsFixedPoint (text : Bytes) (value decimals : Nat) : Prop :=
  ∃ integer fraction : List Nat, text = integer.map digitChar ++ 46 :: fraction.map digitChar ∧ integer ≠ [] ∧
    (∀ d ∈ integer ++ fraction, d < 10) ∧ fraction.length = decimals ∧
    PositionalNumeral.value 10 (integer ++ fraction) = value

theorem fixedPointText_isFixedPoint (value decimals : Nat) :
    IsFixedPoint (fixedPointText value decimals) value decimals := by
  refine ⟨numeral 10 (value / 10 ^ decimals), lastDigits 10 decimals value, rfl, numeral_ne_nil _ _, ?_,
    length_lastDigits _ _ _, ?_⟩
  · intro d hd
    rcases List.mem_append.mp hd with hd | hd
    · exact numeral_lt (by decide) d hd
    · exact lastDigits_lt (by decide) d hd
  · calc
      PositionalNumeral.value 10 (numeral 10 (value / 10 ^ decimals) ++ lastDigits 10 decimals value) =
          value / 10 ^ decimals * 10 ^ decimals + value % 10 ^ decimals := by
        rw [value_append, value_numeral, value_lastDigits, length_lastDigits]
      _ = value := Nat.div_add_mod' value (10 ^ decimals)

theorem zero_not_mem_fixedPointText (value decimals : Nat) : 0 ∉ fixedPointText value decimals := by
  unfold fixedPointText
  rw [List.mem_append, List.mem_cons, not_or, not_or]
  refine ⟨zero_not_mem_decimalText _, by decide, fun h => ?_⟩
  rcases List.mem_map.mp h with ⟨d, hd, hzero⟩
  exact digitChar_ne_zero (lastDigits_lt (by decide) d hd) hzero

section Text

variable {value decimals : Nat}

/-- A number of no more digits than decimals has zeros before them. -/
theorem fixedPointText_of_le (h : (decimalText value).length ≤ decimals) :
    fixedPointText value decimals =
      48 :: 46 :: List.replicate (decimals - (decimalText value).length) 48 ++ decimalText value := by
  have hpos : 0 < decimals := Nat.lt_of_lt_of_le (length_decimalText_pos value) h
  have hsmall : value < 10 ^ decimals := (length_decimalText_le hpos).mp h
  have hlength : (numeral 10 value).length = (decimalText value).length := (List.length_map _).symm
  unfold fixedPointText
  rw [Nat.div_eq_of_lt hsmall, decimalText_of_lt (by decide), lastDigits_eq_append (by decide) (by omega),
    List.map_append, List.map_replicate, hlength]
  rfl

/-- The digits of any other are parted by the point. -/
theorem fixedPointText_of_lt (h : decimals < (decimalText value).length) :
    fixedPointText value decimals = (decimalText value).take ((decimalText value).length - decimals) ++
      46 :: (decimalText value).drop ((decimalText value).length - decimals) := by
  have hsplit : decimalText value =
      decimalText (value / 10 ^ decimals) ++ (lastDigits 10 decimals value).map digitChar := by
    rcases Nat.eq_zero_or_pos decimals with hzero | hpos
    · rw [hzero, Nat.pow_zero, Nat.div_one, lastDigits, List.map_nil, List.append_nil]
    · have hlarge : 10 ^ decimals ≤ value := by
        by_contra hsmall
        have := (length_decimalText_le (n := value) hpos).mpr (by omega)
        omega
      rw [decimalText, numeral_eq_append (by decide) hlarge, List.map_append, decimalText]
  have hlength : (decimalText value).length - decimals = (decimalText (value / 10 ^ decimals)).length := by
    rw [hsplit, List.length_append, List.length_map, length_lastDigits, Nat.add_sub_cancel]
  rw [hlength, hsplit, List.take_left, List.drop_left, fixedPointText]

/-- The point is one character, and each decimal. -/
theorem length_fixedPointText_of_le (h : (decimalText value).length ≤ decimals) :
    (fixedPointText value decimals).length = 2 + decimals := by
  rw [fixedPointText_of_le h]
  simp only [List.cons_append, List.length_cons, List.length_append, List.length_replicate]
  omega

theorem length_fixedPointText_of_lt (h : decimals < (decimalText value).length) :
    (fixedPointText value decimals).length = (decimalText value).length + 1 := by
  rw [fixedPointText_of_lt h, List.length_append, List.length_cons, List.length_take, List.length_drop]
  omega

end Text

/-! ### `format_fpu64` -/

section FormatFpu64

variable {dstLen value decimals : Nat}

/-- The digits in the buffer of `format_fpu64`. -/
theorem formatFpu64_digits (hvalue : value < 2 ^ 64) :
    ∃ cells, formatU64InPlace (List.replicate 21 0) 21 value = some (true, cells) ∧ cString cells = decimalText value := by
  have hlength : (decimalText value).length ≤ 20 := (length_decimalText_le (by decide)).mpr (by omega)
  have hroom : (decimalText value).length + 1 ≤ (List.replicate 21 (0 : UInt8)).length := by
    rw [List.length_replicate]
    omega
  refine ⟨_, formatU64InPlace_fits (by omega) hroom, ?_⟩
  rw [cString_append_nul, cString_eq_self (zero_not_mem_decimalText value)]

/-- What is written into a zeroed array from a cell on is followed by zeros. -/
theorem writeAll_zeros {n : Nat} (done v : Bytes) (h : v.length ≤ n) :
    writeAll (done ++ List.replicate n 0) done.length v = some (done ++ v ++ List.replicate (n - v.length) 0) := by
  rw [writeAll_behind, if_pos (by rwa [List.length_replicate]), List.drop_replicate]

/-- With no more digits than decimals the digits are cut to the cells left. -/
theorem formatFpu64_of_le (hvalue : value < 2 ^ 64) (h : (decimalText value).length ≤ decimals) :
    formatFpu64 (List.replicate dstLen 0) dstLen value decimals =
      if dstLen ≤ 2 + decimals - (decimalText value).length then some (false, List.replicate dstLen 0)
      else some (true, (fixedPointText value decimals).take dstLen ++ List.replicate (dstLen - (2 + decimals)) 0) := by
  rcases formatFpu64_digits hvalue with ⟨cells, hbuffer, htext⟩
  unfold formatFpu64
  rw [hbuffer]
  dsimp only
  rw [htext, if_pos h]
  by_cases hshort : dstLen ≤ 2 + decimals - (decimalText value).length
  · rw [if_pos hshort, if_pos hshort]
  · rw [if_neg hshort, if_neg hshort]
    generalize hzeros : (48 :: 46 :: List.replicate (decimals - (decimalText value).length) 48 : Bytes) = zeros
    have hlength : zeros.length = 2 + (decimals - (decimalText value).length) := by
      rw [← hzeros, List.length_cons, List.length_cons, List.length_replicate]
      omega
    have hleft : dstLen - zeros.length = dstLen - (2 + decimals - (decimalText value).length) := by omega
    have hstart : writeAll (List.replicate dstLen 0) 0 zeros =
        some (zeros ++ List.replicate (dstLen - zeros.length) 0) := writeAll_zeros [] zeros (by omega)
    have hcopied : ((decimalText value).take (dstLen - zeros.length) ++
        List.replicate (dstLen - zeros.length - (decimalText value).length) (0 : UInt8)).length = dstLen - zeros.length := by
      rw [List.length_append, List.length_take, List.length_replicate]
      omega
    have hcopy : strncpy (zeros ++ List.replicate (dstLen - zeros.length) 0) zeros.length (decimalText value)
        (dstLen - zeros.length) = some (zeros ++ ((decimalText value).take (dstLen - zeros.length) ++
          List.replicate (dstLen - zeros.length - (decimalText value).length) 0)) := by
      rw [strncpy, writeAll_zeros _ _ (Nat.le_of_eq hcopied), hcopied, Nat.sub_self, List.replicate_zero, List.append_nil]
    have htake : (fixedPointText value decimals).take dstLen = zeros ++ (decimalText value).take (dstLen - zeros.length) := by
      rw [fixedPointText_of_le h, hzeros, List.take_append, List.take_of_length_le (by omega)]
    have hpad : dstLen - zeros.length - (decimalText value).length = dstLen - (2 + decimals) := by omega
    rw [← hlength, ← hleft, hstart]
    dsimp only [Option.bind_eq_bind, Option.bind_some]
    rw [hcopy, htake, hpad, List.append_assoc]
    rfl

/-- With more digits the text is always whole. -/
theorem formatFpu64_of_lt (hvalue : value < 2 ^ 64) (h : decimals < (decimalText value).length) :
    formatFpu64 (List.replicate dstLen 0) dstLen value decimals =
      if dstLen ≤ (decimalText value).length + 1 + decimals then some (false, List.replicate dstLen 0)
      else some (true, fixedPointText value decimals ++ List.replicate (dstLen - ((decimalText value).length + 1)) 0) := by
  rcases formatFpu64_digits hvalue with ⟨cells, hbuffer, htext⟩
  unfold formatFpu64
  rw [hbuffer]
  dsimp only
  rw [htext, if_neg (by omega)]
  by_cases hshort : dstLen ≤ (decimalText value).length + 1 + decimals
  · rw [if_pos hshort, if_pos hshort]
  · rw [if_neg hshort, if_neg hshort]
    have hparts := fixedPointText_of_lt h
    generalize hinteger : (decimalText value).take ((decimalText value).length - decimals) = integer at hparts ⊢
    generalize hfraction : (decimalText value).drop ((decimalText value).length - decimals) = fraction at hparts ⊢
    have hlength : integer.length = (decimalText value).length - decimals := by
      rw [← hinteger, List.length_take]
      omega
    have hdecimals : fraction.length = decimals := by
      rw [← hfraction, List.length_drop]
      omega
    have hstart : writeAll (List.replicate dstLen 0) 0 integer =
        some (integer ++ List.replicate (dstLen - integer.length) 0) := writeAll_zeros [] integer (by omega)
    have hcells : dstLen - integer.length = dstLen - integer.length - 1 + 1 := by omega
    have hpoint : write (integer ++ List.replicate (dstLen - integer.length) 0) integer.length 46 =
        some (integer ++ [46] ++ List.replicate (dstLen - integer.length - 1) 0) := by
      rw [hcells, List.replicate_succ, write_behind, List.append_assoc, List.singleton_append]
      rfl
    have hbehind : (integer ++ [46]).length = integer.length + 1 := List.length_append
    have hcopy : strncpy (integer ++ [46] ++ List.replicate (dstLen - integer.length - 1) 0) (integer.length + 1)
        fraction decimals = some (integer ++ [46] ++ fraction ++
          List.replicate (dstLen - integer.length - 1 - fraction.length) 0) := by
      rw [strncpy, hdecimals, Nat.sub_self, List.replicate_zero, List.append_nil, List.take_of_length_le (by omega),
        ← hbehind, writeAll_zeros _ _ (by omega), hdecimals]
    have hpad : dstLen - integer.length - 1 - fraction.length = dstLen - ((decimalText value).length + 1) := by omega
    rw [← hlength, hstart]
    dsimp only [Option.bind_eq_bind, Option.bind_some]
    rw [hpoint]
    dsimp only [Option.bind_eq_bind, Option.bind_some]
    rw [hcopy, hparts, hpad]
    simp

/-- `format_fpu64` stays within a zeroed array. Where it returns true the array holds a text with that many decimals
that denotes the value, and a NUL; it returns false where the full text does not fit. -/
def FormatsFpu64 (dstLen value decimals : Nat) : Prop :=
  ∃ returned dst, formatFpu64 (List.replicate dstLen 0) dstLen value decimals = some (returned, dst) ∧
    dst.length = dstLen ∧
    (returned = true → ∃ text rest, dst = text ++ 0 :: rest ∧ 0 ∉ text ∧ IsFixedPoint text value decimals) ∧
    (dstLen < (fixedPointText value decimals).length + 1 → returned = false)

/-- It does so unless the zeros of the text fit and its digits and NUL do not. -/
theorem formatFpu64_exact_iff (hvalue : value < 2 ^ 64) :
    FormatsFpu64 dstLen value decimals ↔
      ¬((decimalText value).length ≤ decimals ∧ 2 + decimals - (decimalText value).length < dstLen ∧
        dstLen ≤ 2 + decimals) := by
  have hnul := zero_not_mem_fixedPointText value decimals
  have hdenotes := fixedPointText_isFixedPoint value decimals
  have hwhole : ∀ n, 0 < n → fixedPointText value decimals ++ List.replicate n (0 : UInt8) =
      fixedPointText value decimals ++ 0 :: List.replicate (n - 1) 0 := by
    intro n hn
    obtain ⟨m, rfl⟩ : ∃ m, n = m + 1 := ⟨n - 1, by omega⟩
    rw [List.replicate_succ, Nat.add_sub_cancel]
  rcases Nat.lt_or_ge decimals (decimalText value).length with hmore | hfewer
  · have hlength := length_fixedPointText_of_lt hmore
    refine ⟨fun _ => by omega, fun _ => ?_⟩
    rw [FormatsFpu64, formatFpu64_of_lt hvalue hmore]
    by_cases hshort : dstLen ≤ (decimalText value).length + 1 + decimals
    · rw [if_pos hshort]
      refine ⟨false, _, rfl, List.length_replicate, fun h => ?_, fun _ => rfl⟩
      cases h
    · rw [if_neg hshort]
      refine ⟨true, _, rfl, ?_, fun _ => ⟨_, _, hwhole _ (by omega), hnul, hdenotes⟩, fun h => by omega⟩
      rw [List.length_append, List.length_replicate]
      omega
  · have hlength := length_fixedPointText_of_le hfewer
    have hpos := length_decimalText_pos value
    rw [FormatsFpu64, formatFpu64_of_le hvalue hfewer]
    by_cases hshort : dstLen ≤ 2 + decimals - (decimalText value).length
    · rw [if_pos hshort]
      refine ⟨fun _ => by omega, fun _ => ⟨false, _, rfl, List.length_replicate, fun h => ?_, fun _ => rfl⟩⟩
      cases h
    · rw [if_neg hshort]
      constructor
      · rintro ⟨returned, dst, hrun, _, _, hrefuses⟩ ⟨_, _, hcut⟩
        obtain ⟨rfl, rfl⟩ := Prod.mk.injEq .. ▸ Option.some.inj hrun
        exact absurd (hrefuses (by omega)) (by decide)
      · intro hroom
        have hfits : 2 + decimals < dstLen := by omega
        have htake : (fixedPointText value decimals).take dstLen = fixedPointText value decimals :=
          List.take_of_length_le (by omega)
        rw [htake]
        refine ⟨true, _, rfl, ?_, fun _ => ⟨_, _, hwhole _ (by omega), hnul, hdenotes⟩, fun h => by omega⟩
        rw [List.length_append, List.length_replicate]
        omega

/-- One bitcoin in an array of 22 cells. -/
theorem formatFpu64_exact_iff_bitcoin : FormatsFpu64 22 100000000 8 ↔
    ¬((decimalText 100000000).length ≤ 8 ∧ 2 + 8 - (decimalText 100000000).length < 22 ∧ 22 ≤ 2 + 8) :=
  formatFpu64_exact_iff (by decide)

/-- 12345 with eight decimals in an array of six cells is shown as 0.0001, with no NUL. -/
theorem formatFpu64_cuts : formatFpu64 (List.replicate 6 0) 6 12345 8 = some (true, [48, 46, 48, 48, 48, 49]) ∧
    ¬FormatsFpu64 6 12345 8 := by
  have hrun : formatFpu64 (List.replicate 6 0) 6 12345 8 = some (true, [48, 46, 48, 48, 48, 49]) := by decide +kernel
  refine ⟨hrun, ?_⟩
  rintro ⟨returned, dst, hrun', _, htext, _⟩
  rw [hrun] at hrun'
  cases hrun'
  rcases htext rfl with ⟨text, rest, hcells, _⟩
  have hzero : (0 : UInt8) ∈ text ++ 0 :: rest := List.mem_append_right _ List.mem_cons_self
  rw [← hcells] at hzero
  revert hzero
  decide

end FormatFpu64

end HathorApp
