import HathorApp.Format

/-!
Integers as text. `format_u64` and `itoa` write the digits of a number from the last one on into the array
of their caller, and reverse them there. `format_u64` tests the capacity inside its digit loop, which a
number of one digit never enters; `itoa` tests its base and goes on all the same, through a digit table whose
last cell holds the NUL of its literal.
-/

namespace HathorApp

open CellArray PositionalNumeral

theorem toNat_digitChar {d : Nat} (h : d < 10) : (digitChar d).toNat = d + 48 := by
  rw [digitChar, UInt8.toNat_ofNat']
  omega

theorem digitChar_ne_zero {d : Nat} (h : d < 10) : digitChar d ≠ 0 := by
  intro heq
  have hnat := toNat_digitChar h
  rw [heq, UInt8.toNat_zero] at hnat
  omega

/-- The number that decimal digits denote. -/
def readDecimal (text : Bytes) : Nat := PositionalNumeral.value 10 (text.map fun c => c.toNat - 48)

theorem readDecimal_map {digits : List Nat} (h : ∀ d ∈ digits, d < 10) :
    readDecimal (digits.map digitChar) = PositionalNumeral.value 10 digits := by
  have hdigits : (digits.map digitChar).map (fun c => c.toNat - 48) = digits := by
    rw [List.map_map]
    conv_rhs => rw [← List.map_id digits]
    apply List.map_congr_left
    intro d hd
    show (digitChar d).toNat - 48 = d
    rw [toNat_digitChar (h d hd), Nat.add_sub_cancel]
  rw [readDecimal, hdigits]

/-- Digits are no punctuation. -/
theorem le_of_mem_digits {digits : List Nat} (h : ∀ d ∈ digits, d < 10) {c : UInt8} (hc : c ∈ digits.map digitChar) :
    48 ≤ c.toNat := by
  rcases List.mem_map.mp hc with ⟨d, hd, rfl⟩
  rw [toNat_digitChar (h d hd)]
  omega

section DecimalText

variable {n k : Nat}

theorem readDecimal_decimalText (n : Nat) : readDecimal (decimalText n) = n := by
  rw [decimalText, readDecimal_map (numeral_lt (by decide)), value_numeral]

theorem le_of_mem_decimalText {c : UInt8} (h : c ∈ decimalText n) : 48 ≤ c.toNat :=
  le_of_mem_digits (numeral_lt (by decide)) h

theorem decimalText_of_lt (h : n < 10) : decimalText n = [digitChar n] := by
  rw [decimalText, numeral_of_lt h, List.map_singleton]

theorem decimalText_of_le (h : 10 ≤ n) : decimalText n = decimalText (n / 10) ++ [digitChar (n % 10)] := by
  rw [decimalText, numeral_of_le (by decide) h, List.map_append, List.map_singleton, decimalText]

theorem decimalText_ne_nil (n : Nat) : decimalText n ≠ [] := by
  rw [decimalText, Ne, List.map_eq_nil_iff]
  exact numeral_ne_nil 10 n

theorem zero_not_mem_decimalText (n : Nat) : 0 ∉ decimalText n := by
  intro h
  have hdigit := le_of_mem_decimalText h
  revert hdigit
  decide

theorem length_decimalText_le (hk : 0 < k) : (decimalText n).length ≤ k ↔ n < 10 ^ k := by
  rw [decimalText, List.length_map]
  exact length_numeral_le (by decide) hk

theorem length_decimalText_pos (n : Nat) : 0 < (decimalText n).length := List.length_pos_iff.mpr (decimalText_ne_nil n)

end DecimalText

/-! ### `format_u64` -/

section FormatU64

variable {n fuel : Nat}

/-- The digit loop of `format_u64`, for a number whose digits fit the capacity, leaves the first digit. -/
theorem formatU64Loop_fits {outLen : Nat} {out : Bytes} (hfuel : 0 < fuel) (hn : n < 10 ^ fuel)
    (hroom : out.length + (decimalText n).length ≤ outLen) :
    formatU64Loop outLen fuel out n = (true, out ++ (decimalText n).reverse) := by
  induction fuel generalizing out n with
  | zero => exact absurd hfuel (Nat.lt_irrefl 0)
  | succ fuel ih =>
      rw [formatU64Loop]
      by_cases hlast : n > 9
      · have hsplit := decimalText_of_le hlast
        have hfuel' : 0 < fuel := by
          apply Nat.pos_of_ne_zero
          intro hzero
          rw [hzero, Nat.zero_add, Nat.pow_one] at hn
          omega
        have hn' : n / 10 < 10 ^ fuel := by
          rw [Nat.pow_succ] at hn
          omega
        have hpos := length_decimalText_pos (n / 10)
        rw [hsplit, List.length_append, List.length_singleton] at hroom
        have hlength : (out ++ [digitChar (n % 10)]).length = out.length + 1 := List.length_append
        rw [if_pos hlast]
        dsimp only
        rw [if_neg (by omega), ih hfuel' hn' (by omega), hsplit, List.reverse_append, List.reverse_singleton,
          List.append_assoc]
      · rw [if_neg hlast, decimalText_of_lt (by omega), List.reverse_singleton]

/-- The text of a number that fits. -/
theorem formatU64_fits {outLen : Nat} (hn : n < 10 ^ 21) (hroom : (decimalText n).length + 1 ≤ outLen) :
    formatU64 outLen n = (true, decimalText n ++ [0]) := by
  have hloop : formatU64Loop (outLen - 1) 21 [] n = (true, (decimalText n).reverse) := by
    rw [formatU64Loop_fits (by decide) hn, List.nil_append]
    rw [List.length_nil]
    omega
  rw [formatU64, if_neg (by omega), hloop]
  dsimp only
  rw [List.reverse_reverse]

/-- The digit loop in place. All digits but the first are written, the last one first, if they and a NUL fit
behind what is there; otherwise the capacity test refuses. -/
theorem formatU64Digits_spec {cap : Nat} {done rest : Bytes} (hfuel : 0 < fuel) (hn : n < 10 ^ fuel)
    (hsize : done.length + rest.length = cap + 1) (hroom : done = [] ∨ done.length + 1 ≤ cap) :
    ∃ first more, decimalText n = digitChar first :: more ∧
      if more = [] ∨ done.length + more.length + 1 ≤ cap then
        formatU64Digits cap fuel (done ++ rest) done.length n =
          some (true, done ++ more.reverse ++ rest.drop more.length, done.length + more.length, first)
      else ∃ out i n', formatU64Digits cap fuel (done ++ rest) done.length n = some (false, out, i, n') ∧
        out.length = cap + 1 := by
  induction fuel generalizing done rest n with
  | zero => exact absurd hfuel (Nat.lt_irrefl 0)
  | succ fuel ih =>
      rw [formatU64Digits]
      by_cases hlast : n > 9
      · have hfuel' : 0 < fuel := by
          apply Nat.pos_of_ne_zero
          intro hzero
          rw [hzero, Nat.zero_add, Nat.pow_one] at hn
          omega
        have hn' : n / 10 < 10 ^ fuel := by
          rw [Nat.pow_succ] at hn
          omega
        have hcell : rest ≠ [] := by
          intro hnil
          rw [hnil, List.length_nil] at hsize
          rcases hroom with rfl | hroom
          · rw [List.length_nil] at hsize
            omega
          · omega
        obtain ⟨x, rest, rfl⟩ := List.exists_cons_of_ne_nil hcell
        have hdone : (done ++ [digitChar (n % 10)]).length = done.length + 1 := List.length_append
        rw [List.length_cons] at hsize
        rw [if_pos hlast, write_behind]
        dsimp only
        by_cases hfull : done.length + 1 + 1 > cap
        · -- the next cell is the last one, which is for the NUL
          obtain ⟨first, more, hmore⟩ := List.exists_cons_of_ne_nil (decimalText_ne_nil (n / 10))
          rcases List.mem_map.mp (hmore ▸ List.mem_cons_self : first ∈ decimalText (n / 10)) with ⟨d, _, rfl⟩
          refine ⟨d, more ++ [digitChar (n % 10)], ?_, ?_⟩
          · rw [decimalText_of_le hlast, hmore, List.cons_append]
          · rw [if_neg, if_pos hfull]
            · refine ⟨_, _, _, rfl, ?_⟩
              rw [List.length_append, List.length_cons]
              omega
            · rw [List.length_append, List.length_singleton, not_or]
              exact ⟨by simp, by omega⟩
        · rw [if_neg hfull, List.append_cons, ← hdone]
          have hsize' : (done ++ [digitChar (n % 10)]).length + rest.length = cap + 1 := by omega
          rcases ih hfuel' hn' hsize' (Or.inr (by omega)) with ⟨first, more, hmore, hloop⟩
          refine ⟨first, more ++ [digitChar (n % 10)], ?_, ?_⟩
          · rw [decimalText_of_le hlast, hmore, List.cons_append]
          · have hiff : (more = [] ∨ (done ++ [digitChar (n % 10)]).length + more.length + 1 ≤ cap) ↔
                (more ++ [digitChar (n % 10)] = [] ∨ done.length + (more ++ [digitChar (n % 10)]).length + 1 ≤ cap) := by
              rw [hdone, List.length_append, List.length_singleton]
              constructor
              · rintro (rfl | h)
                · exact Or.inr (by rw [List.length_nil]; omega)
                · exact Or.inr (by omega)
              · rintro (h | h)
                · simp at h
                · exact Or.inr (by omega)
            by_cases hfits : more = [] ∨ (done ++ [digitChar (n % 10)]).length + more.length + 1 ≤ cap
            · rw [if_pos hfits] at hloop
              have hmore' : (more ++ [digitChar (n % 10)]).length = more.length + 1 := List.length_append
              rw [if_pos (hiff.mp hfits), hloop, hdone, hmore', List.reverse_append, List.reverse_singleton,
                List.drop_succ_cons, Nat.add_assoc done.length, Nat.add_comm 1]
              simp only [List.append_assoc, List.singleton_append]
            · rw [if_neg hfits] at hloop
              rw [if_neg (fun h => hfits (hiff.mpr h))]
              exact hloop
      · refine ⟨n, [], decimalText_of_lt (by omega), ?_⟩
        rw [if_pos (Or.inl rfl), if_neg hlast]
        simp

/-- `format_u64` leaves the digits and a NUL in an array that is large enough for them. -/
theorem formatU64InPlace_fits {out : Bytes} (hn : n < 10 ^ 21) (hroom : (decimalText n).length + 1 ≤ out.length) :
    formatU64InPlace out out.length n =
      some (true, decimalText n ++ 0 :: out.drop ((decimalText n).length + 1)) := by
  have hpos := length_decimalText_pos n
  have hsize : ([] : Bytes).length + out.length = out.length - 1 + 1 := by
    rw [List.length_nil]
    omega
  rcases formatU64Digits_spec (by decide) hn hsize (Or.inl rfl) with ⟨first, more, htext, hloop⟩
  have hlength : (decimalText n).length = more.length + 1 := by rw [htext, List.length_cons]
  have hfits : more = [] ∨ ([] : Bytes).length + more.length + 1 ≤ out.length - 1 := by
    rw [List.length_nil]
    exact Or.inr (by omega)
  rw [if_pos hfits, List.nil_append, List.nil_append, List.length_nil, Nat.zero_add] at hloop
  -- the first digit and the NUL behind the others
  have hreverse : more.reverse.length = more.length := List.length_reverse
  have hrest : (out.drop more.length).length = out.length - more.length := List.length_drop
  have hwrites : (write (more.reverse ++ out.drop more.length) more.length (digitChar first)).bind
      (fun out => write out (more.length + 1) 0) =
        some (more.reverse ++ [digitChar first] ++ 0 :: out.drop ((decimalText n).length + 1)) := by
    calc
      _ = writeAll (more.reverse ++ out.drop more.length) more.reverse.length [digitChar first, 0] := by
        rw [writeAll_cons, hreverse]
        congr 1
        funext cells
        rw [writeAll_singleton]
      _ = _ := by
        have hdrop : (out.drop more.length).drop [digitChar first, 0].length = out.drop ((decimalText n).length + 1) := by
          rw [List.drop_drop, hlength]
          rfl
        rw [writeAll_behind, if_pos (by rw [hrest]; show 2 ≤ _; omega), hdrop]
        simp
  have hdigits : (more.reverse ++ [digitChar first]).reverse = decimalText n := by
    rw [List.reverse_append, List.reverse_singleton, List.reverse_reverse, List.singleton_append, htext]
  have hindex : (more.reverse ++ [digitChar first]).length - 1 = more.length := by
    rw [List.length_append, hreverse, List.length_singleton, Nat.add_sub_cancel]
  have hswap : swapInwards (more.reverse ++ [digitChar first] ++ 0 :: out.drop ((decimalText n).length + 1)) 0
      more.length = some (decimalText n ++ 0 :: out.drop ((decimalText n).length + 1)) := by
    rw [← hindex, swapInwards_prefix, hdigits]
  calc
    formatU64InPlace out out.length n =
        ((write (more.reverse ++ out.drop more.length) more.length (digitChar first)).bind
          fun out => write out (more.length + 1) 0).bind
            fun out => (swapInwards out 0 more.length).bind fun out => some (true, out) := by
      rw [formatU64InPlace, if_neg (by omega), hloop, Option.bind_assoc]
      rfl
    _ = some (true, decimalText n ++ 0 :: out.drop ((decimalText n).length + 1)) := by
      rw [hwrites, Option.bind_some, hswap, Option.bind_some]

/-- It refuses a number of several digits that does not fit, and writes nothing outside. -/
theorem formatU64InPlace_refuses {out : Bytes} (hn : n < 10 ^ 21) (hout : 1 ≤ out.length)
    (hshort : out.length < (decimalText n).length + 1) (hseveral : 9 < n) :
    ∃ out', formatU64InPlace out out.length n = some (false, out') ∧ out'.length = out.length := by
  have hsize : ([] : Bytes).length + out.length = out.length - 1 + 1 := by
    rw [List.length_nil]
    omega
  rcases formatU64Digits_spec (by decide) hn hsize (Or.inl rfl) with ⟨first, more, htext, hloop⟩
  have hlength : (decimalText n).length = more.length + 1 := by rw [htext, List.length_cons]
  have htwo : 1 < (decimalText n).length := by
    have hle := length_decimalText_le (n := n) (k := 1) (by decide)
    omega
  have hrefuses : ¬(more = [] ∨ ([] : Bytes).length + more.length + 1 ≤ out.length - 1) := by
    rw [List.length_nil, not_or]
    refine ⟨fun hnil => ?_, by omega⟩
    rw [hnil, List.length_nil] at hlength
    omega
  rw [if_neg hrefuses, List.nil_append, List.length_nil] at hloop
  rcases hloop with ⟨out', i, n', hloop, hkeeps⟩
  refine ⟨out', ?_, by omega⟩
  rw [formatU64InPlace, if_neg (by omega), hloop]

/-- The NUL behind a single digit is outside an array of one cell. -/
theorem formatU64InPlace_outside {out : Bytes} (hout : out.length = 1) (hone : n ≤ 9) :
    formatU64InPlace out out.length n = none := by
  obtain ⟨x, rfl⟩ := List.length_eq_one_iff.mp hout
  have hdigits : formatU64Digits (1 - 1) 21 [x] 0 n = some (true, [x], 0, n) := by
    rw [formatU64Digits, if_neg (by omega)]
  rw [hout, formatU64InPlace, if_neg (by decide), hdigits]
  rfl

/-- `format_u64` stays within the array it is given, tells whether the digits and their NUL fit, and leaves
exactly these if they do. -/
def FormatsU64 (out : Bytes) (n : Nat) : Prop :=
  ∃ returned out', formatU64InPlace out out.length n = some (returned, out') ∧ out'.length = out.length ∧
    (returned = true ↔ (decimalText n).length + 1 ≤ out.length) ∧
    (returned = true → out' = decimalText n ++ 0 :: out.drop ((decimalText n).length + 1))

/-- It does so except for a single digit and an array of one cell, where the NUL is written outside. -/
theorem formatU64_within_iff {out : Bytes} (hn : n < 2 ^ 64) (hout : 1 ≤ out.length) :
    FormatsU64 out n ↔ ¬(out.length = 1 ∧ n ≤ 9) := by
  have hn' : n < 10 ^ 21 := by omega
  have hpos := length_decimalText_pos n
  constructor
  · rintro ⟨returned, out', hrun, _⟩ ⟨hone, hdigit⟩
    rw [formatU64InPlace_outside hone hdigit] at hrun
    cases hrun
  · intro hroom
    by_cases hfits : (decimalText n).length + 1 ≤ out.length
    · refine ⟨true, _, formatU64InPlace_fits hn' hfits, ?_, ⟨fun _ => hfits, fun _ => rfl⟩, fun _ => rfl⟩
      rw [List.length_append, List.length_cons, List.length_drop]
      omega
    · have hseveral : 9 < n := by
        have hle := length_decimalText_le (n := n) (k := 1) (by decide)
        omega
      rcases formatU64InPlace_refuses hn' hout (by omega) hseveral with ⟨out', hrun, hkeeps⟩
      refine ⟨false, out', hrun, hkeeps, ⟨fun h => ?_, fun h => absurd h hfits⟩, fun h => ?_⟩
      · cases h
      · cases h

/-- The largest value in the array that `format_fpu64` has for it. -/
theorem formatU64_within_iff_max : FormatsU64 (List.replicate 21 0) (2 ^ 64 - 1) ↔
    ¬((List.replicate 21 (0 : UInt8)).length = 1 ∧ 2 ^ 64 - 1 ≤ 9) :=
  formatU64_within_iff (by decide) (by decide)

/-- A zero for an array of one cell is written past its end. -/
theorem formatU64_past_array : ¬FormatsU64 [0] 0 := by
  rintro ⟨returned, out', hrun, _⟩
  have hnone : formatU64InPlace [0] 1 0 = none := by decide +kernel
  rw [List.length_singleton, hnone] at hrun
  cases hrun

end FormatU64

/-! ### `itoa` -/

/-- The character of a digit in a base up to 36. -/
def baseChar (d : Nat) : UInt8 := UInt8.ofNat (if d < 10 then d + 48 else d + 87)

/-- The numeral of an integer in a base, without leading zeros and with a minus if it is negative. -/
def integerNumeral (base : Nat) (value : Int) : Bytes :=
  (if value < 0 then [45] else []) ++ (numeral base value.natAbs).map baseChar

/-- The table is mirrored: a digit is as far from its middle on either side. -/
theorem itoaTable_digit : ∀ d < 36, itoaTable.getD (35 + d) 0 = baseChar d ∧ itoaTable.getD (35 - d) 0 = baseChar d := by
  decide

/-- The last place of the table holds the NUL of the literal, and no other one does. -/
theorem itoaTable_eq_zero : ∀ i < 72, itoaTable.getD i 0 = 0 ↔ i = 71 := by decide

theorem baseChar_eq_digitChar : ∀ d < 10, baseChar d = digitChar d := by decide

section Itoa

variable {base value last : Int} {fuel : Nat} {digits : Bytes}

theorem tdiv_tdiv (a b c : Int) : (a.tdiv b).tdiv c = a.tdiv (b * c) := by
  have hnat : ∀ m n k : Nat, ((m : Int).tdiv n).tdiv k = (m : Int).tdiv (n * k) := by
    intro m n k
    rw [← Int.natCast_mul, ← Int.ofNat_tdiv, ← Int.ofNat_tdiv, ← Int.ofNat_tdiv, Nat.div_div_eq_div_mul]
  obtain ⟨m, rfl | rfl⟩ := Int.eq_nat_or_neg a
  all_goals obtain ⟨n, rfl | rfl⟩ := Int.eq_nat_or_neg b
  all_goals obtain ⟨k, rfl | rfl⟩ := Int.eq_nat_or_neg c
  all_goals simp only [Int.neg_tdiv, Int.tdiv_neg, Int.neg_mul, Int.mul_neg, Int.neg_neg, hnat]

/-- A remainder that the table has a character for. -/
def InTable (digit : Int) : Prop := -35 ≤ digit ∧ digit ≤ 36

/-- The loop ends at the leading digit, whose character it writes last. The table has a character for each digit behind it. -/
theorem itoaLoop_some (h : itoaLoop base fuel value = some (digits, last)) :
    base ≠ 0 ∧ ∃ n, last = value.tdiv (base ^ n) ∧ last.tdiv base = 0 ∧ InTable last ∧
      digits.getLast? = some (itoaTable.getD (35 + last).toNat 0) ∧
      ∀ i < n, InTable ((value.tdiv (base ^ i)).tmod base) := by
  induction fuel generalizing value digits with
  | zero => cases h
  | succ fuel ih =>
      rw [itoaLoop] at h
      split at h
      · cases h
      · rename_i hbase
        dsimp only at h
        have hrem : value - value.tdiv base * base = value.tmod base := by rw [Int.tmod_def, Int.mul_comm]
        rw [hrem] at h
        split at h
        · cases h
        · rename_i hindex
          have hdigit : InTable (value.tmod base) := by
            unfold InTable
            omega
          split at h
          · rename_i hzero
            cases h
            have hlast : last.tmod base = last := by rw [← hrem, hzero, Int.zero_mul, Int.sub_zero]
            rw [hlast] at hdigit ⊢
            refine ⟨hbase, 0, ?_, hzero, hdigit, rfl, fun i hi => absurd hi (Nat.not_lt_zero i)⟩
            rw [Int.pow_zero, Int.tdiv_one]
          · split at h
            · cases h
            · rename_i rest last' hrest
              cases h
              obtain ⟨_, n, hlast, hzero, hinside, hchar, hothers⟩ := ih hrest
              refine ⟨hbase, n + 1, ?_, hzero, hinside, ?_, fun i hi => ?_⟩
              · rw [hlast, tdiv_tdiv, Int.pow_succ']
              · rw [List.getLast?_cons_of_ne_nil (fun hnil => by rw [hnil] at hchar; cases hchar), hchar]
              · cases i with
                | zero =>
                    rw [Int.pow_zero, Int.tdiv_one]
                    exact hdigit
                | succ i =>
                    have hnext := hothers i (Nat.lt_of_succ_lt_succ hi)
                    rwa [tdiv_tdiv, ← Int.pow_succ'] at hnext

/-- The leading digit of the value is 36, which no valid base has: its character is the NUL that ends the table. The table has
a character for each digit behind it. -/
def LeadsWithNul (value base : Int) : Prop :=
  36 < base.natAbs ∧ ∃ n, value.tdiv (base ^ n) = 36 ∧ ∀ i < n, InTable ((value.tdiv (base ^ i)).tmod base)

theorem itoaLoop_leadsWithNul {n : Nat} (hbase : 36 < base.natAbs) (hlead : value.tdiv (base ^ n) = 36)
    (hothers : ∀ i < n, InTable ((value.tdiv (base ^ i)).tmod base)) :
    ∃ digits, itoaLoop base (n + 1) value = some (digits, 36) ∧ digits.getLast? = some 0 ∧ digits.length = n + 1 := by
  have hnonzero : base ≠ 0 := by
    intro hzero
    rw [hzero] at hbase
    exact absurd hbase (by decide)
  have hrem : ∀ v : Int, v - v.tdiv base * base = v.tmod base := by
    intro v
    rw [Int.tmod_def, Int.mul_comm]
  induction n generalizing value with
  | zero =>
      rw [Int.pow_zero, Int.tdiv_one] at hlead
      subst hlead
      have hzero : (36 : Int).tdiv base = 0 := by
        rw [← Int.natAbs_eq_zero, Int.natAbs_tdiv]
        exact Nat.div_eq_of_lt hbase
      refine ⟨[0], ?_, rfl, rfl⟩
      rw [itoaLoop, if_neg hnonzero]
      dsimp only
      rw [hzero, Int.zero_mul, Int.sub_zero, if_neg (by decide), if_pos rfl]
      rfl
  | succ n ih =>
      have hfirst := hothers 0 (Nat.succ_pos n)
      rw [Int.pow_zero, Int.tdiv_one] at hfirst
      have hnext : (value.tdiv base).tdiv (base ^ n) = 36 := by rw [tdiv_tdiv, ← Int.pow_succ', hlead]
      have hmore : value.tdiv base ≠ 0 := by
        intro hzero
        rw [hzero, Int.zero_tdiv] at hnext
        cases hnext
      obtain ⟨digits, hloop, hlast, hlength⟩ := ih hnext fun i hi => by
        rw [tdiv_tdiv, ← Int.pow_succ']
        exact hothers (i + 1) (Nat.succ_lt_succ hi)
      refine ⟨itoaTable.getD (35 + value.tmod base).toNat 0 :: digits, ?_, ?_, ?_⟩
      · rw [itoaLoop, if_neg hnonzero]
        dsimp only
        unfold InTable at hfirst
        rw [hrem, if_neg (by omega), if_neg hmore, hloop]
      · rw [List.getLast?_cons_of_ne_nil (fun hnil => by rw [hnil] at hlast; cases hlast), hlast]
      · rw [List.length_cons, hlength]

/-- The digits written are those of the loop. -/
theorem itoaDigits_eq (base : Int) (fuel : Nat) (cells : Bytes) (ptr : Nat) (value : Int) :
    itoaDigits base fuel cells ptr value = (itoaLoop base fuel value).bind fun loop =>
      (writeAll cells ptr loop.1).map fun cells => (cells, ptr + loop.1.length, loop.2) := by
  induction fuel generalizing cells ptr value with
  | zero => rfl
  | succ fuel ih =>
      rw [itoaDigits, itoaLoop]
      by_cases hbase : base = 0
      · rw [if_pos hbase, if_pos hbase]
        rfl
      · rw [if_neg hbase, if_neg hbase]
        dsimp only
        by_cases hindex : 35 + (value - value.tdiv base * base) < 0 ∨ 72 ≤ 35 + (value - value.tdiv base * base)
        · rw [if_pos hindex, if_pos hindex]
          rfl
        · rw [if_neg hindex, if_neg hindex]
          generalize itoaTable.getD (35 + (value - value.tdiv base * base)).toNat 0 = digit
          by_cases hlast : value.tdiv base = 0
          · rw [if_pos hlast, Option.bind_some, writeAll_singleton]
            cases write cells ptr digit with
            | none => rfl
            | some cells =>
                dsimp only
                rw [if_pos hlast]
                rfl
          · rw [if_neg hlast]
            cases hrest : itoaLoop base fuel (value.tdiv base) with
            | none =>
                cases write cells ptr digit with
                | none => rfl
                | some cells =>
                    dsimp only
                    rw [if_neg hlast, ih, hrest]
                    rfl
            | some rest =>
                rw [Option.bind_some, writeAll_cons]
                cases write cells ptr digit with
                | none => rfl
                | some cells =>
                    dsimp only
                    rw [if_neg hlast, ih, hrest, Option.bind_some, Option.bind_some]
                    congr 1
                    funext cells
                    rw [List.length_cons, Nat.add_assoc, Nat.add_comm 1]

/-- The sign, the NUL and the reversal, behind the digits. -/
theorem itoa_finish {cells : Bytes} (digits : Bytes) (last : Int) :
    ((writeAll cells 0 digits).bind fun cells =>
      (if last < 0 then write cells digits.length 45 else some cells).bind fun cells =>
        (write cells (if last < 0 then digits.length + 1 else digits.length) 0).bind fun cells =>
          swapInwards cells 0 ((if last < 0 then digits.length + 1 else digits.length) - 1)) =
      let text := if last < 0 then digits ++ [45] else digits
      if text.length + 1 ≤ cells.length then some (text.reverse ++ 0 :: cells.drop (text.length + 1)) else none := by
  have hall : ∀ text : Bytes,
      (writeAll cells 0 (text ++ [0])).bind (fun cells => swapInwards cells 0 (text.length - 1)) =
        if text.length + 1 ≤ cells.length then some (text.reverse ++ 0 :: cells.drop (text.length + 1)) else none := by
    intro text
    have hbehind : writeAll cells 0 (text ++ [0]) = if (text ++ [0]).length ≤ cells.length then
        some ([] ++ (text ++ [0]) ++ cells.drop (text ++ [0]).length) else none :=
      @writeAll_behind _ [] cells (text ++ [0])
    have hlength : (text ++ [0]).length = text.length + 1 := List.length_append
    rw [hbehind, hlength]
    by_cases hfits : text.length + 1 ≤ cells.length
    · rw [if_pos hfits, if_pos hfits, Option.bind_some, List.nil_append, List.append_assoc, List.singleton_append,
        swapInwards_prefix]
    · rw [if_neg hfits, if_neg hfits]
      rfl
  dsimp only
  by_cases hsign : last < 0
  · have hlength : (digits ++ [45]).length = digits.length + 1 := List.length_append
    simp only [if_pos hsign]
    rw [← hall (digits ++ [45]), writeAll_append, writeAll_append, hlength, Nat.zero_add, Nat.zero_add,
      Option.bind_assoc, Option.bind_assoc]
    congr 1
    funext cells
    rw [writeAll_singleton]
    congr 1
    funext cells
    rw [writeAll_singleton]
  · simp only [if_neg hsign]
    rw [← hall digits, writeAll_append, Nat.zero_add, Option.bind_assoc]
    congr 1
    funext cells
    rw [Option.bind_some, writeAll_singleton]

/-- `itoa` leaves the digits, the sign before them and a NUL behind them, if the loop ends and the array is large
enough. The empty string stored for a base that is not valid is written over. -/
theorem itoaInPlace_eq (fuel : Nat) (result : Bytes) (value base : Int) :
    itoaInPlace fuel result value base = (itoaLoop base fuel value).bind fun loop =>
      let text := if loop.2 < 0 then loop.1 ++ [45] else loop.1
      if text.length + 1 ≤ result.length then some (text.reverse ++ 0 :: result.drop (text.length + 1)) else none := by
  have hstart : ∀ cells : Bytes, ((itoaDigits base fuel cells 0 value).bind fun loop =>
      (if loop.2.2 < 0 then write loop.1 loop.2.1 45 else some loop.1).bind fun cells =>
        (write cells (if loop.2.2 < 0 then loop.2.1 + 1 else loop.2.1) 0).bind fun cells =>
          swapInwards cells 0 ((if loop.2.2 < 0 then loop.2.1 + 1 else loop.2.1) - 1)) =
      (itoaLoop base fuel value).bind fun loop =>
        let text := if loop.2 < 0 then loop.1 ++ [45] else loop.1
        if text.length + 1 ≤ cells.length then some (text.reverse ++ 0 :: cells.drop (text.length + 1)) else none := by
    intro cells
    rw [itoaDigits_eq, Option.bind_assoc]
    congr 1
    funext loop
    rw [← itoa_finish, Option.bind_map, Nat.zero_add]
    rfl
  have hrun : itoaInPlace fuel result value base =
      (if base < 2 ∨ 36 < base then write result 0 0 else some result).bind fun cells =>
        (itoaDigits base fuel cells 0 value).bind fun loop =>
          (if loop.2.2 < 0 then write loop.1 loop.2.1 45 else some loop.1).bind fun cells =>
            (write cells (if loop.2.2 < 0 then loop.2.1 + 1 else loop.2.1) 0).bind fun cells =>
              swapInwards cells 0 ((if loop.2.2 < 0 then loop.2.1 + 1 else loop.2.1) - 1) := rfl
  rw [hrun]
  by_cases hbase : base < 2 ∨ 36 < base
  · rw [if_pos hbase]
    cases result with
    | nil =>
        have hnone : write ([] : Bytes) 0 0 = none := rfl
        rw [hnone, Option.bind_none]
        cases itoaLoop base fuel value with
        | none => rfl
        | some loop =>
            dsimp only [Option.bind_some]
            rw [if_neg (by rw [List.length_nil]; omega)]
    | cons x rest =>
        have hstored : write (x :: rest) 0 0 = some (0 :: rest) := rfl
        rw [hstored, Option.bind_some, hstart]
        rfl
  · rw [if_neg hbase, Option.bind_some, hstart]

/-! In a valid base the loop ends with the numeral. -/

section ValidBase

variable {b : Nat} (hb : 2 ≤ b) (hb' : b ≤ 36)

include hb hb'

/-- The character that the loop takes for a remainder, of either sign. -/
theorem itoaTable_remainder (value : Int) : 0 ≤ 35 + (value - value.tdiv b * b) ∧ 35 + (value - value.tdiv b * b) < 71 ∧
    itoaTable.getD (35 + (value - value.tdiv b * b)).toNat 0 = baseChar (value.natAbs % b) := by
  have hrem : value - value.tdiv b * b = value.tmod b := by rw [Int.tmod_def, Int.mul_comm]
  have habs : (value.tmod b).natAbs = value.natAbs % b := by rw [Int.natAbs_tmod, Int.natAbs_natCast]
  have hlt : value.natAbs % b < b := Nat.mod_lt _ (by omega)
  obtain ⟨hright, hleft⟩ := itoaTable_digit (value.natAbs % b) (by omega)
  rw [hrem]
  rcases Int.natAbs_eq (value.tmod b) with hpos | hneg
  · rw [habs] at hpos
    refine ⟨by omega, by omega, ?_⟩
    rw [← hright]
    congr 1
    omega
  · rw [habs] at hneg
    refine ⟨by omega, by omega, ?_⟩
    rw [← hleft]
    congr 1
    omega

theorem itoaLoop_eq {value : Int} {fuel : Nat} (hfuel : 0 < fuel) (hvalue : value.natAbs < b ^ fuel) :
    ∃ last, itoaLoop b fuel value = some (((numeral b value.natAbs).map baseChar).reverse, last) ∧
      (last < 0 ↔ value < 0) := by
  induction fuel generalizing value with
  | zero => exact absurd hfuel (Nat.lt_irrefl 0)
  | succ fuel ih =>
      obtain ⟨hlow, hhigh, hchar⟩ := itoaTable_remainder hb hb' value
      have hdiv : (value.tdiv b).natAbs = value.natAbs / b := by rw [Int.natAbs_tdiv, Int.natAbs_natCast]; rfl
      rw [itoaLoop, if_neg (by omega)]
      dsimp only
      rw [if_neg (by omega), hchar]
      by_cases hlast : value.tdiv b = 0
      · have hsmall : value.natAbs < b := by
          rw [hlast, Int.natAbs_zero] at hdiv
          rcases Nat.div_eq_zero_iff.mp hdiv.symm with h | h
          · omega
          · exact h
        refine ⟨value, ?_, Iff.rfl⟩
        rw [if_pos hlast, numeral_of_lt hsmall, List.map_singleton, List.reverse_singleton, Nat.mod_eq_of_lt hsmall]
      · have hlarge : b ≤ value.natAbs := by
          by_contra hsmall
          apply hlast
          rw [← Int.natAbs_eq_zero, hdiv]
          exact Nat.div_eq_of_lt (by omega)
        have hfuel' : 0 < fuel := by
          apply Nat.pos_of_ne_zero
          intro hzero
          rw [hzero, Nat.zero_add, Nat.pow_one] at hvalue
          omega
        have hvalue' : (value.tdiv b).natAbs < b ^ fuel := by
          rw [hdiv, Nat.div_lt_iff_lt_mul (by omega), ← Nat.pow_succ]
          exact hvalue
        have hsign : value.tdiv b < 0 ↔ value < 0 := by
          have hneg : (-value).tdiv b = -value.tdiv b := Int.neg_tdiv value b
          by_cases hnegative : value < 0
          · have hquotient : 0 ≤ (-value).tdiv b := Int.tdiv_nonneg (by omega) (by omega)
            omega
          · have hquotient : 0 ≤ value.tdiv b := Int.tdiv_nonneg (by omega) (by omega)
            omega
        rcases ih hfuel' hvalue' with ⟨last, hloop, hlastSign⟩
        refine ⟨last, ?_, hlastSign.trans hsign⟩
        rw [if_neg hlast, hloop, hdiv, numeral_of_le (by omega) hlarge, List.map_append, List.map_singleton,
          List.reverse_append, List.reverse_singleton, List.singleton_append]

omit hb hb' in
/-- The numeral is what the loop has written from the end, and the sign. -/
theorem reverse_written {value last : Int} (hsign : last < 0 ↔ value < 0) :
    (if last < 0 then ((numeral b value.natAbs).map baseChar).reverse ++ [45]
      else ((numeral b value.natAbs).map baseChar).reverse).reverse = integerNumeral b value := by
  unfold integerNumeral
  by_cases hneg : value < 0
  · rw [if_pos (hsign.mpr hneg), if_pos hneg, List.reverse_append, List.reverse_reverse, List.reverse_singleton]
  · rw [if_neg (fun h => hneg (hsign.mp h)), if_neg hneg, List.reverse_reverse, List.nil_append]

theorem itoaInPlace_valid {value : Int} {fuel : Nat} {result : Bytes} (hfuel : 0 < fuel) (hvalue : value.natAbs < b ^ fuel)
    (hroom : (integerNumeral b value).length + 1 ≤ result.length) :
    itoaInPlace fuel result value b =
      some (integerNumeral b value ++ 0 :: result.drop ((integerNumeral b value).length + 1)) := by
  rcases itoaLoop_eq hb hb' hfuel hvalue with ⟨last, hloop, hsign⟩
  have htext := reverse_written (b := b) hsign
  have hlength := congrArg List.length htext
  rw [List.length_reverse] at hlength
  rw [itoaInPlace_eq, hloop, Option.bind_some]
  dsimp only
  rw [htext, hlength, if_pos hroom]

/-- A 32-bit integer needs a sign and 32 digits at most. -/
theorem length_integerNumeral_le {value : Int} (hvalue : value.natAbs ≤ 2 ^ 31) : (integerNumeral b value).length ≤ 33 := by
  have hpow : 2 ^ 32 ≤ b ^ 32 := Nat.pow_le_pow_left hb 32
  have hdigits : (numeral b value.natAbs).length ≤ 32 := (length_numeral_le (by omega) (by decide)).mpr (by omega)
  unfold integerNumeral
  rw [List.length_append, List.length_map]
  by_cases hneg : value < 0
  · rw [if_pos hneg, List.length_singleton]
    omega
  · rw [if_neg hneg, List.length_nil]
    omega

end ValidBase

/-- A natural number in base 10. -/
theorem itoaLoop_decimal {n : Nat} (hn : n < 10 ^ 33) :
    ∃ last, itoaLoop 10 33 (n : Nat) = some ((decimalText n).reverse, last) ∧ ¬last < 0 := by
  have habs : (n : Int).natAbs = n := Int.natAbs_natCast n
  have htext : (numeral 10 n).map baseChar = decimalText n := by
    apply List.map_congr_left
    intro d hd
    exact baseChar_eq_digitChar d (numeral_lt (by decide) d hd)
  have hrange : (n : Int).natAbs < 10 ^ 33 := by rwa [habs]
  rcases itoaLoop_eq (by decide) (by decide) (by decide) hrange with ⟨last, hloop, hsign⟩
  rw [habs, htext] at hloop
  exact ⟨last, hloop, by omega⟩

theorem itoa_decimal {n : Nat} (hn : n < 10 ^ 33) : itoa (n : Nat) 10 = some (decimalText n) := by
  rcases itoaLoop_decimal hn with ⟨last, hloop, hsign⟩
  unfold itoa
  rw [hloop]
  dsimp only
  rw [if_neg hsign, List.reverse_reverse]

/-- `itoa` comes to its end without a division by zero or an index outside its digit table, and leaves the numeral
of the value in a valid base and an empty string in any other. -/
def ItoaWrites (result : Bytes) (value base : Int) : Prop :=
  ∃ fuel cells, itoaInPlace fuel result value base = some cells ∧
    if 2 ≤ base ∧ base ≤ 36 then
      cells = integerNumeral base.toNat value ++ 0 :: result.drop ((integerNumeral base.toNat value).length + 1)
    else cString cells = []

theorem head?_cString {text rest : Bytes} (hne : text ≠ []) :
    cString (text ++ 0 :: rest) = [] ↔ text.head? = some 0 := by
  rw [cString_append_nul]
  cases text with
  | nil => exact absurd rfl hne
  | cons c text =>
      rw [List.head?_cons, Option.some.injEq, cString, List.takeWhile_cons]
      by_cases hnul : c = 0
      · simp [hnul]
      · simp [hnul]

/-- A text written backwards is empty for its reader when its last character is a NUL. -/
theorem getLast?_of_empty {text result cells : Bytes} (hne : text ≠ [])
    (hcells : (if text.length + 1 ≤ result.length then some (text.reverse ++ 0 :: result.drop (text.length + 1)) else none) =
      some cells) (hempty : cString cells = []) : text.getLast? = some 0 := by
  by_cases hfits : text.length + 1 ≤ result.length
  · rw [if_pos hfits, Option.some.injEq] at hcells
    rw [← hcells, head?_cString (fun h => hne (List.reverse_eq_nil_iff.mp h)), List.head?_reverse] at hempty
    exact hempty
  · rw [if_neg hfits] at hcells
    cases hcells

/-- The loop writes at least one digit, so that what it leaves is empty only if the leading digit has the NUL. -/
theorem leadsWithNul_of_empty {result cells : Bytes} (hrun : itoaInPlace fuel result value base = some cells)
    (hempty : cString cells = []) : LeadsWithNul value base := by
  rw [itoaInPlace_eq, Option.bind_eq_some_iff] at hrun
  rcases hrun with ⟨⟨digits, last⟩, hloop, hcells⟩
  obtain ⟨hnonzero, n, hlast, hzero, hinside, hchar, hothers⟩ := itoaLoop_some hloop
  have hne : digits ≠ [] := by
    intro hnil
    rw [hnil] at hchar
    cases hchar
  dsimp only at hcells
  by_cases hsign : last < 0
  · -- a sign comes first
    simp only [if_pos hsign] at hcells
    have hnul := getLast?_of_empty (List.append_ne_nil_of_left_ne_nil hne [45]) hcells hempty
    rw [List.getLast?_append, List.getLast?_singleton] at hnul
    cases hnul
  · simp only [if_neg hsign] at hcells
    have hnul := getLast?_of_empty hne hcells hempty
    unfold InTable at hinside
    rw [hchar, Option.some.injEq, itoaTable_eq_zero _ (by omega)] at hnul
    have hlead : last = 36 := by omega
    refine ⟨?_, n, hlast ▸ hlead, hothers⟩
    rw [hlead, ← Int.natAbs_eq_zero, Int.natAbs_tdiv] at hzero
    rcases Nat.div_eq_zero_iff.mp hzero with h | h
    · exact absurd (Int.natAbs_eq_zero.mp h) hnonzero
    · exact h

/-- The powers of the base are below the value, so the digits find room where a numeral in base 2 does. -/
theorem LeadsWithNul.writes {result : Bytes} (hroom : 34 ≤ result.length) (hvalue : -2 ^ 31 ≤ value ∧ value < 2 ^ 31)
    (h : LeadsWithNul value base) : ∃ fuel cells, itoaInPlace fuel result value base = some cells ∧ cString cells = [] := by
  obtain ⟨hbase, n, hlead, hothers⟩ := h
  obtain ⟨digits, hloop, hlast, hlength⟩ := itoaLoop_leadsWithNul hbase hlead hothers
  have hquotient : value.natAbs / base.natAbs ^ n = 36 := by
    rw [← Int.natAbs_pow]
    exact (Int.natAbs_tdiv value (base ^ n)).symm.trans (congrArg Int.natAbs hlead)
  have hle : 2 ^ n ≤ 2 ^ 31 := by
    calc
      2 ^ n ≤ base.natAbs ^ n := Nat.pow_le_pow_left (by omega) n
      _ ≤ base.natAbs ^ n * (value.natAbs / base.natAbs ^ n) := Nat.le_mul_of_pos_right _ (by rw [hquotient]; decide)
      _ ≤ value.natAbs := Nat.mul_div_le _ _
      _ ≤ 2 ^ 31 := by omega
  have hfew : n ≤ 31 := (Nat.pow_le_pow_iff_right (by decide)).mp hle
  have hne : digits ≠ [] := by
    intro hnil
    rw [hnil] at hlength
    cases hlength
  have hpositive : ¬(36 : Int) < 0 := by decide
  have hfits : digits.length + 1 ≤ result.length := by omega
  refine ⟨n + 1, digits.reverse ++ 0 :: result.drop (digits.length + 1), ?_, ?_⟩
  · rw [itoaInPlace_eq, hloop, Option.bind_some]
    simp only [if_neg hpositive, if_pos hfits]
  · rw [head?_cString (fun h => hne (List.reverse_eq_nil_iff.mp h)), List.head?_reverse, hlast]

/-- It does so in a valid base, and in one that has the digit 36 if that is the leading one. For any other base the loop is
entered all the same, and if it ends the empty string is written over. -/
theorem itoa_writes_iff {result : Bytes} {value base : Int} (hroom : 34 ≤ result.length)
    (hvalue : -2 ^ 31 ≤ value ∧ value < 2 ^ 31) :
    ItoaWrites result value base ↔ (2 ≤ base ∧ base ≤ 36) ∨ LeadsWithNul value base := by
  constructor
  · rintro ⟨fuel, cells, hrun, htext⟩
    by_cases hbase : 2 ≤ base ∧ base ≤ 36
    · exact Or.inl hbase
    · rw [if_neg hbase] at htext
      exact Or.inr (leadsWithNul_of_empty hrun htext)
  · rintro (⟨hlow, hhigh⟩ | hleads)
    · obtain ⟨b, rfl⟩ : ∃ b : Nat, base = b := ⟨base.toNat, by omega⟩
      have habs : value.natAbs ≤ 2 ^ 31 := by omega
      have hlength := length_integerNumeral_le (b := b) (by omega) (by omega) habs
      have hpow : 2 ^ 33 ≤ b ^ 33 := Nat.pow_le_pow_left (by omega) 33
      refine ⟨33, _, itoaInPlace_valid (by omega) (by omega) (by decide) (by omega) (by omega), ?_⟩
      rw [if_pos ⟨hlow, hhigh⟩, Int.toNat_natCast]
    · obtain ⟨fuel, cells, hrun, hempty⟩ := hleads.writes hroom hvalue
      have hinvalid : ¬(2 ≤ base ∧ base ≤ 36) := by
        have hlarge := hleads.1
        omega
      exact ⟨fuel, cells, hrun, by rwa [if_neg hinvalid]⟩

/-- The least integer in base 2, which has the longest numeral, and the digits 36 and 5 in base 37. -/
theorem itoa_writes_iff_min :
    ItoaWrites (List.replicate 34 0) (-2 ^ 31) 2 ∧ ItoaWrites (List.replicate 34 1) 1337 37 := by
  refine ⟨(itoa_writes_iff (by decide) (by decide)).mpr (Or.inl (by decide)), ?_⟩
  refine (itoa_writes_iff (by decide) (by decide)).mpr (Or.inr ⟨by decide, 1, by decide, fun i hi => ?_⟩)
  obtain rfl : i = 0 := Nat.lt_one_iff.mp hi
  exact ⟨by decide, by decide⟩

/-- Base 0 is a division by zero. -/
theorem itoa_base_zero : ¬ItoaWrites (List.replicate 34 0) 27 0 := by
  rintro ⟨fuel, cells, hrun, _⟩
  cases fuel with
  | zero => cases hrun
  | succ fuel => cases hrun

end Itoa

end HathorApp
