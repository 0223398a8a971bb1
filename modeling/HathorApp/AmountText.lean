import HathorApp.DisplaySpec
import HathorApp.IntegerText

/-!
The amount on screen. What `prepare_display_output` writes into `g_amount` is symbol, space, value and a
NUL, and no write goes further than the NUL. The value has two decimals and a comma for every three
digits, so that its length depends on the number of digits alone, and the array is large enough for
three characters of symbol; a longer symbol leaves less room.
-/

namespace HathorApp

open CellArray

/-- The digits of a number, with as many of them as powers of ten that it reaches. -/
structure IsDecimal (digits : Bytes) (n : Nat) : Prop where
  nonempty : digits ≠ []
  text : 0 ∉ digits
  length_le : ∀ k, 0 < k → (digits.length ≤ k ↔ n < 10 ^ k)

theorem decimalText_isDecimal (n : Nat) : IsDecimal (decimalText n) n :=
  ⟨decimalText_ne_nil n, zero_not_mem_decimalText n, fun _ hk => length_decimalText_le hk⟩

/-- The integer part of a value as text. -/
def integerText (value : Nat) : Bytes := cString (formatU64 35 (value / 100)).2

theorem integerText_eq {value : Nat} (hvalue : value < 10 ^ 23) : integerText value = decimalText (value / 100) := by
  have hlength : (decimalText (value / 100)).length ≤ 21 := (length_decimalText_le (by decide)).mpr (by omega)
  unfold integerText
  rw [formatU64_fits (by omega) (by omega), cString_append_nul, cString_eq_self (zero_not_mem_decimalText _)]

theorem integerText_spec {value : Nat} (hvalue : value < 10 ^ 23) : IsDecimal (integerText value) (value / 100) := by
  rw [integerText_eq hvalue]
  exact decimalText_isDecimal _

theorem formatValueIntoLoop_eq (buf : Bytes) (c : Nat) (cells : Bytes) (out : Nat) :
    formatValueIntoLoop buf c cells out =
      (writeAll cells out (formatValueLoop buf c)).map fun cells => (cells, out + (formatValueLoop buf c).length) := by
  induction buf generalizing c cells out with
  | nil => rfl
  | cons p rest ih =>
      unfold formatValueIntoLoop formatValueLoop
      dsimp only
      by_cases hcomma : c = 1
      · simp only [if_pos hcomma, writeAll, List.length_cons]
        cases write cells out p with
        | none => rfl
        | some cells =>
            dsimp only
            cases write cells (out + 1) 44 with
            | none => rfl
            | some cells =>
                dsimp only
                rw [ih, Nat.add_assoc out, Nat.add_comm 2]
      · simp only [if_neg hcomma, writeAll, List.length_cons]
        cases write cells out p with
        | none => rfl
        | some cells =>
            dsimp only
            rw [ih, Nat.add_assoc out, Nat.add_comm 1]

/-- A comma follows every third digit, counted so that one follows the last. -/
theorem length_formatValueLoop (buf : Bytes) {c : Nat} (hc : c < 3) :
    (formatValueLoop buf c).length = buf.length + (buf.length + (c + 1) % 3) / 3 := by
  induction buf generalizing c with
  | nil =>
      rw [formatValueLoop, List.length_nil]
      omega
  | cons p rest ih =>
      have hnext := ih (c := (c + 1) % 3) (by omega)
      rw [formatValueLoop]
      split <;> simp only [List.length_cons, hnext] <;> omega

/-- A comma before every group of three digits, counted from the right. -/
def groupDigits : Bytes → Bytes
  | [] => []
  | c :: rest => if rest ≠ [] ∧ rest.length % 3 = 0 then c :: 44 :: groupDigits rest else c :: groupDigits rest

/-- The counter comes to the last comma behind the last digit. -/
theorem formatValueLoop_eq_group {buf : Bytes} {c : Nat} (hbuf : buf ≠ []) (hc : c < 3)
    (hlast : (c + buf.length) % 3 = 2) : formatValueLoop buf c = groupDigits buf ++ [44] := by
  induction buf generalizing c with
  | nil => exact absurd rfl hbuf
  | cons p rest ih =>
      rw [List.length_cons] at hlast
      rw [formatValueLoop, groupDigits]
      by_cases hrest : rest = []
      · subst hrest
        rw [List.length_nil] at hlast
        rw [if_pos (by omega), if_neg (by simp)]
        rfl
      · have hnext := ih hrest (c := (c + 1) % 3) (by omega) (by omega)
        rw [hnext]
        by_cases hcomma : c = 1
        · rw [if_pos hcomma, if_pos ⟨hrest, by omega⟩]
          rfl
        · have hinside : ¬(rest ≠ [] ∧ rest.length % 3 = 0) := fun h => by omega
          rw [if_neg hcomma, if_neg hinside]
          rfl

theorem zero_not_mem_formatValueLoop {buf : Bytes} (hbuf : 0 ∉ buf) (c : Nat) : 0 ∉ formatValueLoop buf c := by
  induction buf generalizing c with
  | nil => exact List.not_mem_nil
  | cons p rest ih =>
      rw [List.mem_cons, not_or] at hbuf
      have hnext := ih hbuf.2 ((c + 1) % 3)
      rw [formatValueLoop]
      split
      · simp only [List.mem_cons, not_or]
        exact ⟨hbuf.1, by decide, hnext⟩
      · simp only [List.mem_cons, not_or]
        exact ⟨hbuf.1, hnext⟩

/-- The integer part with its commas. -/
def groupedText (value : Nat) : Bytes :=
  (formatValueLoop (integerText value) (2 - (integerText value).length % 3)).dropLast

theorem formatValueLoop_integerText {value : Nat} (hvalue : value < 10 ^ 23) :
    formatValueLoop (integerText value) (2 - (integerText value).length % 3) = groupDigits (integerText value) ++ [44] := by
  have hdecimal := integerText_spec hvalue
  have hpos := List.length_pos_iff.mpr hdecimal.nonempty
  exact formatValueLoop_eq_group hdecimal.nonempty (by omega) (by omega)

theorem groupedText_eq {value : Nat} (hvalue : value < 10 ^ 23) :
    groupedText value = groupDigits (decimalText (value / 100)) := by
  rw [groupedText, formatValueLoop_integerText hvalue, List.dropLast_concat, integerText_eq hvalue]

theorem groupedText_spec {value : Nat} (hvalue : value < 10 ^ 23) :
    formatValueLoop (integerText value) (2 - (integerText value).length % 3) = groupedText value ++ [44] ∧
      (groupedText value).length = (integerText value).length + ((integerText value).length - 1) / 3 ∧
      0 ∉ groupedText value := by
  have hdecimal := integerText_spec hvalue
  have hpos := List.length_pos_iff.mpr hdecimal.nonempty
  have htext : formatValueLoop (integerText value) (2 - (integerText value).length % 3) = groupedText value ++ [44] := by
    rw [groupedText, formatValueLoop_integerText hvalue, List.dropLast_concat]
  have hlength := length_formatValueLoop (integerText value) (c := 2 - (integerText value).length % 3) (by omega)
  have hnul := zero_not_mem_formatValueLoop hdecimal.text (2 - (integerText value).length % 3)
  rw [htext] at hlength hnul
  rw [List.length_append, List.length_singleton] at hlength
  rw [List.mem_append, not_or] at hnul
  exact ⟨htext, by omega, hnul.1⟩

/-- The two digits behind the decimal point. -/
def decimalsText (r : Nat) : Bytes := (if r < 10 then [48] else []) ++ (itoa r 10).getD []

theorem length_decimalText_small {r : Nat} (hr : r < 100) : (decimalText r).length = if r < 10 then 1 else 2 := by
  have hpos := length_decimalText_pos r
  have hone := length_decimalText_le (n := r) (k := 1) (by decide)
  have htwo := length_decimalText_le (n := r) (k := 2) (by decide)
  split <;> omega

/-- They are the last two digits. -/
theorem decimalsText_eq {r : Nat} (hr : r < 100) :
    decimalsText r = (PositionalNumeral.lastDigits 10 2 r).map digitChar := by
  have hlength := length_decimalText_small hr
  have hnumeral : (PositionalNumeral.numeral 10 r).length = (decimalText r).length := (List.length_map _).symm
  rw [decimalsText, itoa_decimal (by omega), Option.getD_some,
    PositionalNumeral.lastDigits_eq_append (by decide) (by rw [hnumeral, hlength]; split <;> decide), List.map_append,
    List.map_replicate, hnumeral, hlength]
  by_cases hone : r < 10
  · rw [if_pos hone, if_pos hone]
    rfl
  · rw [if_neg hone, if_neg hone]
    rfl

section Decimals

variable (done rest : Bytes)

/-- `itoa` writes its digits and a NUL. -/
theorem itoaInto_eq {r : Nat} (hr : r < 100) :
    itoaInto (done ++ rest) done.length (r : Nat) 10 =
      if (decimalText r).length + 1 ≤ rest.length then
        some (done ++ decimalText r ++ 0 :: rest.drop ((decimalText r).length + 1)) else none := by
  rcases itoaLoop_decimal (n := r) (by omega) with ⟨last, hloop, hlast⟩
  have hreverse : (decimalText r).reverse.length = (decimalText r).length := List.length_reverse
  have hlength : ((decimalText r).reverse ++ [0]).length = (decimalText r).length + 1 := by
    rw [List.length_append, hreverse, List.length_singleton]
  unfold itoaInto
  rw [hloop]
  dsimp only
  rw [if_neg hlast, List.reverse_reverse, writeAll_behind, hlength]
  by_cases hfits : (decimalText r).length + 1 ≤ rest.length
  · rw [if_pos hfits, if_pos hfits]
    have hdigits : writeAll (done ++ ((decimalText r).reverse ++ 0 :: rest.drop ((decimalText r).length + 1))) done.length
        (decimalText r) = some (done ++ decimalText r ++ 0 :: rest.drop ((decimalText r).length + 1)) := by
      rw [writeAll_behind, if_pos (by rw [List.length_append, hreverse]; omega), List.drop_append, hreverse,
        List.drop_of_length_le (by omega), Nat.sub_self, List.nil_append, List.drop_zero]
    rw [← hdigits, List.append_assoc done, List.append_assoc _ [0]]
    rfl
  · rw [if_neg hfits, if_neg hfits]
    rfl

/-- The decimals are written behind the decimal point, with a zero before a single digit. -/
theorem decimalsInto_eq {r : Nat} (hr : r < 100) :
    (if r < 10 then (write (done ++ rest) done.length 48).bind fun cells => itoaInto cells (done.length + 1) (r : Nat) 10
      else itoaInto (done ++ rest) done.length (r : Nat) 10) =
      (if 3 ≤ rest.length then some (done ++ decimalsText r ++ 0 :: rest.drop 3) else none) ∧
    (decimalsText r).length = 2 ∧ 0 ∉ decimalsText r := by
  have hlength := length_decimalText_small hr
  have htwo : (decimalsText r).length = 2 := by
    rw [decimalsText_eq hr, List.length_map, PositionalNumeral.length_lastDigits]
  have hnul : 0 ∉ decimalsText r := by
    rw [decimalsText, itoa_decimal (by omega), List.mem_append, not_or]
    refine ⟨?_, zero_not_mem_decimalText r⟩
    split <;> decide
  refine ⟨?_, htwo, hnul⟩
  by_cases hone : r < 10
  · have hdecimals : decimalsText r = 48 :: decimalText r := by
      rw [decimalsText, if_pos hone, itoa_decimal (by omega)]
      rfl
    rw [if_pos hone] at hlength
    cases rest with
    | nil => rw [if_pos hone, List.append_nil, write_behind_nil, if_neg (by decide)]; rfl
    | cons x rest =>
        have hdone : (done ++ [48]).length = done.length + 1 := List.length_append
        rw [if_pos hone, write_behind, Option.bind_some, List.append_cons, ← hdone, itoaInto_eq _ _ hr, hlength, hdecimals,
          List.length_cons, List.drop_succ_cons]
        by_cases hfits : 2 ≤ rest.length
        · rw [if_pos hfits, if_pos (by omega), List.append_assoc done, List.singleton_append]
        · rw [if_neg hfits, if_neg (by omega)]
  · have hdecimals : decimalsText r = decimalText r := by
      rw [decimalsText, if_neg hone, itoa_decimal (by omega)]
      rfl
    rw [if_neg hone] at hlength
    rw [if_neg hone, itoaInto_eq _ _ hr, hlength, hdecimals]

end Decimals

theorem formatValue_eq (value : Nat) : formatValue value = groupedText value ++ 46 :: decimalsText (value % 100) := by
  unfold formatValue groupedText integerText decimalsText
  split <;> simp

/-- `format_value` writes its text and a NUL, and goes no further in between. -/
theorem formatValueInto_eq {done rest : Bytes} {value : Nat} (hvalue : value < 10 ^ 23) :
    formatValueInto (done ++ rest) done.length value =
      if (groupedText value).length + 4 ≤ rest.length then
        some (done ++ formatValue value ++ 0 :: rest.drop ((groupedText value).length + 4))
      else none := by
  obtain ⟨hloop, _, _⟩ := groupedText_spec hvalue
  have hr : value % 100 < 100 := Nat.mod_lt value (by decide)
  have hlength : (groupedText value ++ [44]).length = (groupedText value).length + 1 := List.length_append
  have hinto : formatValueInto (done ++ rest) done.length value =
      ((writeAll (done ++ rest) done.length (groupedText value ++ [44])).map fun cells =>
        (cells, done.length + (groupedText value ++ [44]).length)).bind fun (cells, out) =>
      (write cells (out - 1) 0).bind fun cells =>
      (write cells (out - 1 + (cString (cells.drop (out - 1))).length) 46).bind fun cells' =>
      if value % 100 < 10 then
        (write cells' (out - 1 + (cString (cells.drop (out - 1))).length + 1) 48).bind fun cells'' =>
          itoaInto cells'' (out - 1 + (cString (cells.drop (out - 1))).length + 1 + 1) (value % 100 : Nat) 10
      else itoaInto cells' (out - 1 + (cString (cells.drop (out - 1))).length + 1) (value % 100 : Nat) 10 := by
    rw [← hloop, ← formatValueIntoLoop_eq]
    rfl
  rw [hinto, writeAll_behind, hlength]
  by_cases hcomma : (groupedText value).length + 1 ≤ rest.length
  · -- the end of the string is put on the last comma, and the decimal point on that
    obtain ⟨hdecimals, _, _⟩ := decimalsInto_eq (done ++ groupedText value ++ [46])
      (rest.drop ((groupedText value).length + 1)) hr
    have hout : done.length + ((groupedText value).length + 1) - 1 = (done ++ groupedText value).length := by
      rw [List.length_append]
      omega
    have hpoint : (done ++ groupedText value ++ [46]).length = (done ++ groupedText value).length + 1 :=
      List.length_append
    have hstrlen : (done ++ groupedText value).length +
        (cString (0 :: rest.drop ((groupedText value).length + 1))).length = (done ++ groupedText value).length := rfl
    rw [if_pos hcomma, Option.map_some, Option.bind_some]
    dsimp only
    rw [hout, ← List.append_assoc done, List.append_assoc _ [44], List.singleton_append, write_behind, Option.bind_some,
      List.drop_left, hstrlen, write_behind, Option.bind_some, List.append_cons, ← hpoint, hdecimals, formatValue_eq,
      List.length_drop, List.drop_drop]
    by_cases hfits : (groupedText value).length + 4 ≤ rest.length
    · rw [if_pos (by omega), if_pos hfits]
      simp only [List.append_assoc, List.singleton_append]
    · rw [if_neg (by omega), if_neg hfits]
  · rw [if_neg hcomma, if_neg (by omega)]
    rfl

/-- `g_amount` holds symbol, space, value and NUL, if it is large enough for them. -/
theorem amountCells_eq {symbol : Bytes} {value : Nat} (hsymbol : symbol.length ≤ maxTokenSymbolLen)
    (hvalue : value < 10 ^ 23) :
    amountCells symbol value =
      if symbol.length + (groupedText value).length + 5 ≤ gAmountLen then
        some (symbol ++ 32 :: formatValue value ++
          List.replicate (gAmountLen - (symbol.length + (groupedText value).length + 4)) 0)
      else none := by
  have hmax : maxTokenSymbolLen = 5 := rfl
  have hsize : gAmountLen = 30 := rfl
  have htake : symbol.take maxTokenSymbolLen = symbol := List.take_of_length_le hsymbol
  have hcells : amountCells symbol value =
      (writeAll (List.replicate gAmountLen 0) 0 (symbol.take maxTokenSymbolLen ++ [0])).bind fun cells =>
        (write cells symbol.length 32).bind fun cells => formatValueInto cells (symbol.length + 1) value := rfl
  have hstart : writeAll (List.replicate gAmountLen 0) 0 (symbol ++ [0]) =
      some (symbol ++ 0 :: List.replicate (gAmountLen - (symbol.length + 1)) 0) := by
    rw [writeAll_of_fits (by rw [List.length_append, List.length_replicate, List.length_singleton]; omega),
      List.length_append, List.length_singleton, Nat.zero_add, List.drop_replicate, List.take_zero, List.nil_append,
      List.append_assoc]
    rfl
  have hspace : (symbol ++ [32]).length = symbol.length + 1 := List.length_append
  rw [hcells, htake, hstart, Option.bind_some, write_behind, Option.bind_some, List.append_cons, ← hspace,
    formatValueInto_eq hvalue, List.length_replicate, List.drop_replicate]
  by_cases hfits : symbol.length + (groupedText value).length + 5 ≤ gAmountLen
  · rw [if_pos (by omega), if_pos hfits]
    have hzeros : gAmountLen - (symbol.length + (groupedText value).length + 4) =
        gAmountLen - (symbol.length + 1) - ((groupedText value).length + 4) + 1 := by omega
    rw [hzeros, List.replicate_succ, hspace]
    simp only [List.append_assoc, List.nil_append, List.cons_append]
  · rw [if_neg (by omega), if_neg hfits]

/-- The room that a symbol leaves for a value. -/
def AmountFits (symbol : Bytes) (value : Nat) : Prop :=
  symbol.length ≤ 3 ∨ symbol.length = 4 ∧ value < 10 ^ 18 ∨ symbol.length = 5 ∧ value < 10 ^ 17

theorem zero_not_mem_formatValue {value : Nat} (hvalue : value < 10 ^ 23) : 0 ∉ formatValue value := by
  have hr : value % 100 < 100 := Nat.mod_lt value (by decide)
  obtain ⟨_, _, hgrouped⟩ := groupedText_spec hvalue
  obtain ⟨_, _, hdecimals⟩ := decimalsInto_eq [] [] hr
  rw [formatValue_eq, List.mem_append, List.mem_cons, not_or, not_or]
  exact ⟨hgrouped, by decide, hdecimals⟩

instance (symbol : Bytes) (value : Nat) : Decidable (AmountFits symbol value) := by
  unfold AmountFits
  infer_instance

/-- The array is large enough for the amounts that fit. -/
theorem amountRoom_iff {symbol : Bytes} {value : Nat} (hsymbol : symbol.length ≤ maxTokenSymbolLen) (hvalue : value ≤ 2 ^ 63) :
    symbol.length + (groupedText value).length + 5 ≤ gAmountLen ↔ AmountFits symbol value := by
  have hmax : maxTokenSymbolLen = 5 := rfl
  have hsize : gAmountLen = 30 := rfl
  have hvalue' : value < 10 ^ 23 := by omega
  have hdecimal := integerText_spec hvalue'
  have h15 := hdecimal.length_le 15 (by decide)
  have h16 := hdecimal.length_le 16 (by decide)
  have h17 := hdecimal.length_le 17 (by decide)
  rw [(groupedText_spec hvalue').2.1, AmountFits]
  omega

/-- The cells of an amount hold its text and a NUL. -/
theorem cString_amount {symbol : Bytes} {value : Nat} (htext : 0 ∉ symbol) (hvalue : value < 10 ^ 23)
    (hroom : symbol.length + (groupedText value).length + 5 ≤ gAmountLen) :
    cString (symbol ++ 32 :: formatValue value ++
      List.replicate (gAmountLen - (symbol.length + (groupedText value).length + 4)) 0) =
    symbol ++ [32] ++ formatValue value := by
  have hzeros : gAmountLen - (symbol.length + (groupedText value).length + 4) =
      gAmountLen - (symbol.length + (groupedText value).length + 5) + 1 := by omega
  have hall : 0 ∉ symbol ++ 32 :: formatValue value := by
    rw [List.mem_append, List.mem_cons, not_or, not_or]
    exact ⟨htext, by decide, zero_not_mem_formatValue hvalue⟩
  rw [hzeros, List.replicate_succ, cString_append_nul, cString_eq_self hall, List.append_assoc]
  rfl

/-- The text of an amount that fits. -/
theorem amountText_eq {symbol : Bytes} {value : Nat} (hsymbol : symbol.length ≤ maxTokenSymbolLen) (htext : 0 ∉ symbol)
    (hvalue : value ≤ 2 ^ 63) :
    amountText symbol value = if AmountFits symbol value then some (symbol ++ [32] ++ formatValue value) else none := by
  have hvalue' : value < 10 ^ 23 := by omega
  have hroom := amountRoom_iff hsymbol hvalue
  unfold amountText
  rw [amountCells_eq hsymbol hvalue']
  by_cases hfits : symbol.length + (groupedText value).length + 5 ≤ gAmountLen
  · rw [if_pos hfits, if_pos (hroom.mp hfits), Option.map_some, cString_amount htext hvalue' hfits]
  · rw [if_neg hfits, if_neg fun h => hfits (hroom.mpr h), Option.map_none]

/-- Every write of the amount of an output stays within `g_amount`, and leaves symbol, space, value and a
NUL there, unless the symbol has four or five characters and the value too many digits for it. -/
theorem amount_within_array_iff {symbol : Bytes} {value : Nat} (hsymbol : symbol.length ≤ maxTokenSymbolLen)
    (htext : 0 ∉ symbol) (hvalue : value ≤ 2 ^ 63) :
    (∃ cells, amountCells symbol value = some cells ∧ cells.length = gAmountLen ∧ 0 ∈ cells ∧
      cString cells = symbol ++ [32] ++ formatValue value) ↔ AmountFits symbol value := by
  have hvalue' : value < 10 ^ 23 := by omega
  have hsize : gAmountLen = 30 := rfl
  have hroom := amountRoom_iff hsymbol hvalue
  rw [amountCells_eq hsymbol hvalue']
  by_cases hfits : symbol.length + (groupedText value).length + 5 ≤ gAmountLen
  · rw [if_pos hfits]
    refine ⟨fun _ => hroom.mp hfits, fun _ => ⟨_, rfl, ?_, ?_, cString_amount htext hvalue' hfits⟩⟩
    · have hlength : (formatValue value).length = (groupedText value).length + 3 := by
        have hr : value % 100 < 100 := Nat.mod_lt value (by decide)
        obtain ⟨_, hdecimals, _⟩ := decimalsInto_eq [] [] hr
        rw [formatValue_eq, List.length_append, List.length_cons, hdecimals]
      rw [List.length_append, List.length_append, List.length_cons, List.length_replicate, hlength]
      omega
    · apply List.mem_append_right
      exact List.mem_replicate.mpr ⟨by omega, rfl⟩
  · rw [if_neg hfits]
    constructor
    · rintro ⟨_, h, _⟩
      cases h
    · exact fun h => absurd (hroom.mpr h) hfits

/-- The largest value in HTR. -/
theorem amount_within_array_iff_htr :
    (∃ cells, amountCells htrSymbol (2 ^ 63) = some cells ∧ cells.length = gAmountLen ∧ 0 ∈ cells ∧
      cString cells = htrSymbol ++ [32] ++ formatValue (2 ^ 63)) ↔ AmountFits htrSymbol (2 ^ 63) :=
  amount_within_array_iff (by decide) (by decide) (Nat.le_refl _)

/-- An output of 10^17 in a token with a symbol of five characters is written past the end of `g_amount`. -/
theorem amount_past_array :
    (∃ output n, parseOutput ([254, 156, 186, 135, 162, 118, 0, 0, 1, 0, 25, 0x76, 0xA9, 20] ++
      List.replicate 20 0 ++ [0x88, 0xAC]) = .ok (output, n) ∧ output.value = 10 ^ 17) ∧
      amountCells [65, 66, 67, 68, 69] (10 ^ 17) = none := by
  refine ⟨⟨_, _, rfl, rfl⟩, ?_⟩
  decide +kernel

end HathorApp
