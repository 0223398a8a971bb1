import HathorApp.Base58

/-!
`base58_decode` divides a numeral in base 58 by 256 again and again, in place. Each division leaves one more
zero in front, so that there are as many divisions as digits behind the leading zeros, and the remainders are
as many bytes. Decoding and `base58_encode` are inverse to one another, where the sizes allow both.
-/

namespace HathorApp

open PositionalNumeral

/-- The quotients and the last remainder of a division of the digits by 256, with a remainder brought along. -/
theorem base58DivLoop_spec {remainder : Nat} {digits : List Nat} (hremainder : remainder < 256) (hdigits : ∀ d ∈ digits, d < 58) :
    (base58DivLoop remainder digits).1.length = digits.length ∧
      (∀ d ∈ (base58DivLoop remainder digits).1, d < 58) ∧ (base58DivLoop remainder digits).2 < 256 ∧
      256 * value 58 (base58DivLoop remainder digits).1 + (base58DivLoop remainder digits).2 =
        remainder * 58 ^ digits.length + value 58 digits := by
  induction digits generalizing remainder with
  | nil => exact ⟨rfl, fun _ h => absurd h List.not_mem_nil, hremainder, by simp [base58DivLoop]⟩
  | cons d rest ih =>
      obtain ⟨hd, hrest⟩ := List.forall_mem_cons.mp hdigits
      obtain ⟨hlength, hsmall, hlast, hvalue⟩ := ih (Nat.mod_lt (remainder * 58 + d) (by decide)) hrest
      have hquotient : (remainder * 58 + d) / 256 < 58 := by omega
      have hbyte : (remainder * 58 + d) / 256 % 256 = (remainder * 58 + d) / 256 := Nat.mod_eq_of_lt (by omega)
      have hcons : ∀ (x : Nat) (l : List Nat), value 58 (x :: l) = x * 58 ^ l.length + value 58 l := by
        intro x l
        rw [← List.singleton_append, value_append]
        rfl
      have hdiv := Nat.div_add_mod (remainder * 58 + d) 256
      rw [base58DivLoop]
      dsimp only
      rw [hbyte]
      refine ⟨?_, List.forall_mem_cons.mpr ⟨hquotient, hsmall⟩, hlast, ?_⟩
      · rw [List.length_cons, List.length_cons, hlength]
      · rw [hcons, hcons, hlength]
        calc
          256 * ((remainder * 58 + d) / 256 * 58 ^ rest.length + value 58 (base58DivLoop ((remainder * 58 + d) % 256) rest).1) +
                (base58DivLoop ((remainder * 58 + d) % 256) rest).2 =
              256 * ((remainder * 58 + d) / 256) * 58 ^ rest.length +
                (256 * value 58 (base58DivLoop ((remainder * 58 + d) % 256) rest).1 +
                  (base58DivLoop ((remainder * 58 + d) % 256) rest).2) := by ring
          _ = (256 * ((remainder * 58 + d) / 256) + (remainder * 58 + d) % 256) * 58 ^ rest.length + value 58 rest := by
            rw [hvalue]
            ring
          _ = remainder * 58 ^ (d :: rest).length + (d * 58 ^ rest.length + value 58 rest) := by
            rw [hdiv, List.length_cons, Nat.pow_succ]
            ring

/-- A division of digits leaves a zero in front, then the quotient. -/
theorem base58DivLoop_zero {d : Nat} {rest : List Nat} (hdigits : ∀ x ∈ d :: rest, x < 58) :
    ∃ quotients, base58DivLoop 0 (d :: rest) = (0 :: quotients, value 58 (d :: rest) % 256) ∧
      quotients.length = rest.length ∧ (∀ x ∈ quotients, x < 58) ∧ value 58 quotients = value 58 (d :: rest) / 256 := by
  have hbyte : (0 : Nat) < 256 := by decide
  obtain ⟨hlength, hsmall, hlast, hvalue⟩ := base58DivLoop_spec hbyte hdigits
  obtain ⟨hd, _⟩ := List.forall_mem_cons.mp hdigits
  have hfirst : (0 * 58 + d) / 256 % 256 = 0 := by omega
  have hzero : ∀ l : List Nat, value 58 (0 :: l) = value 58 l := by
    intro l
    rw [← List.singleton_append, value_append, value_of_zeros (by simp), Nat.zero_mul, Nat.zero_add]
  obtain ⟨quotients, last, hloop⟩ : ∃ quotients last, base58DivLoop 0 (d :: rest) = (0 :: quotients, last) := by
    rw [base58DivLoop]
    dsimp only
    rw [hfirst]
    exact ⟨_, _, rfl⟩
  rw [hloop] at hlength hsmall hlast hvalue
  rw [List.length_cons, List.length_cons] at hlength
  rw [hzero, Nat.zero_mul, Nat.zero_add] at hvalue
  dsimp only at hlast hvalue
  have hremainder : last = value 58 (d :: rest) % 256 := by omega
  refine ⟨quotients, ?_, by omega, ?_, by omega⟩
  · rw [hloop, hremainder]
  · exact fun x hx => hsmall x (List.mem_cons_of_mem 0 hx)

/-- One division for each digit from `start_at` on, and the remainders before `j`. -/
theorem base58DecodeLoop_spec {fuel startAt j : Nat} {tmp buffer : List Nat} (hstart : startAt ≤ tmp.length)
    (hdigits : ∀ d ∈ tmp.drop startAt, d < 58) (hj : tmp.length - startAt ≤ j) (hbuffer : j ≤ buffer.length)
    (hfuel : tmp.length - startAt < fuel) :
    base58DecodeLoop fuel tmp startAt buffer j =
      some (buffer.take (j - (tmp.length - startAt)) ++
        lastDigits 256 (tmp.length - startAt) (value 58 (tmp.drop startAt)) ++ buffer.drop j, j - (tmp.length - startAt)) := by
  induction fuel generalizing startAt j tmp buffer with
  | zero => exact absurd hfuel (Nat.not_lt_zero _)
  | succ fuel ih =>
      rw [base58DecodeLoop]
      by_cases hmore : startAt < tmp.length
      · rw [if_pos hmore]
        obtain ⟨d, rest, hactive⟩ : ∃ d rest, tmp.drop startAt = d :: rest :=
          List.exists_cons_of_ne_nil (by rw [Ne, List.drop_eq_nil_iff]; omega)
        have hlength : rest.length + 1 = tmp.length - startAt := by
          rw [← List.length_cons (a := d), ← hactive, List.length_drop]
        rw [hactive] at hdigits
        rcases base58DivLoop_zero hdigits with ⟨quotients, hloop, hquotients, hsmall, hvalue⟩
        have htake : (tmp.take startAt).length = startAt := by
          rw [List.length_take]
          omega
        have hnew : (tmp.take startAt ++ 0 :: quotients).length = tmp.length := by
          rw [List.length_append, htake, List.length_cons]
          omega
        have hfirst : (tmp.take startAt ++ 0 :: quotients).getD startAt 0 = 0 := by
          rw [List.getD_eq_getElem?_getD, List.getElem?_append_right (by omega), htake, Nat.sub_self]
          rfl
        have hdrop : (tmp.take startAt ++ 0 :: quotients).drop (startAt + 1) = quotients := by
          rw [List.append_cons, List.drop_left']
          rw [List.length_append, htake, List.length_singleton]
        rw [hactive, hloop]
        dsimp only
        rw [if_pos hfirst, if_neg (by omega)]
        have hnext := @ih (startAt + 1) (j - 1) (tmp.take startAt ++ 0 :: quotients)
          (buffer.set (j - 1) (value 58 (d :: rest) % 256)) (by omega) (by rwa [hdrop]) (by omega)
          (by rw [List.length_set]; omega) (by omega)
        have hlast : (buffer.set (j - 1) (value 58 (d :: rest) % 256)).drop (j - 1) =
            value 58 (d :: rest) % 256 :: buffer.drop j := by
          rw [List.drop_eq_getElem_cons (by rw [List.length_set]; omega), List.getElem_set_self,
            List.drop_set_of_lt (by omega)]
          congr 2
          omega
        have hcount : (tmp.take startAt ++ 0 :: quotients).length - (startAt + 1) = rest.length := by omega
        have hbefore : j - 1 - rest.length = j - (tmp.length - startAt) := by omega
        have hfront : (buffer.set (j - 1) (value 58 (d :: rest) % 256)).take (j - 1 - rest.length) =
            buffer.take (j - (tmp.length - startAt)) := by
          rw [List.take_set_of_le (by omega), hbefore]
        rw [hcount, hdrop, hvalue, hlast, hfront, hbefore] at hnext
        rw [hnext, ← hlength, lastDigits]
        simp only [List.append_assoc, List.singleton_append]
      · have hend : tmp.length - startAt = 0 := by omega
        rw [if_neg hmore, hend, Nat.sub_zero, lastDigits, List.append_nil, List.take_append_drop]

theorem base58Table_alphabet : ∀ d < 58, (base58Alphabet.getD d 0).toNat < base58Table.length ∧
    base58Table.getD (base58Alphabet.getD d 0).toNat 0 = d := by
  decide +kernel

theorem base58Digits_text {digits : List Nat} (hdigits : ∀ d ∈ digits, d < 58) :
    base58Digits (base58Text digits) = some digits := by
  induction digits with
  | nil => rfl
  | cons d rest ih =>
      obtain ⟨hd, hrest⟩ := List.forall_mem_cons.mp hdigits
      obtain ⟨hinside, hchar⟩ := base58Table_alphabet d hd
      have hcons : base58Text (d :: rest) = base58Alphabet.getD d 0 :: base58Text rest := rfl
      rw [hcons, base58Digits, if_neg (by omega), hchar, if_neg (by omega), ih hrest]
      rfl

/-- A string of Base58 characters is the text of digits. -/
theorem exists_base58Text {s : Bytes} (h : ∀ c ∈ s, c ∈ base58Alphabet) :
    ∃ digits, (∀ d ∈ digits, d < 58) ∧ base58Text digits = s := by
  induction s with
  | nil => exact ⟨[], fun _ hd => absurd hd List.not_mem_nil, rfl⟩
  | cons c s ih =>
      obtain ⟨hc, hs⟩ := List.forall_mem_cons.mp h
      rcases ih hs with ⟨digits, hdigits, rfl⟩
      obtain ⟨d, hd, hchar⟩ := List.mem_iff_getElem.mp hc
      refine ⟨d :: digits, List.forall_mem_cons.mpr ⟨hd, hdigits⟩, ?_⟩
      have hget : base58Alphabet.getD d 0 = c := by
        rw [List.getD_eq_getElem?_getD, List.getElem?_eq_getElem hd, hchar]
        rfl
      rw [← hget]
      rfl

@[simp] theorem length_base58Text (digits : List Nat) : (base58Text digits).length = digits.length := List.length_map _

/-- The bytes that digits in base 58 stand for: a zero byte for each leading zero, and those of the number. -/
def base58Bytes (digits : List Nat) : Bytes :=
  (List.replicate (digits.takeWhile (· = 0)).length 0 ++ (Nat.digits 256 (value 58 digits)).reverse).map UInt8.ofNat

/-- `base58_decode` gives them, if they fit. -/
theorem base58Decode_eq {digits : List Nat} (hdigits : ∀ d ∈ digits, d < 58) (htwo : 2 ≤ digits.length)
    (hsize : digits.length ≤ maxDecInputSize) (outLen : Nat) :
    base58Decode (base58Text digits) outLen =
      if outLen < (base58Bytes digits).length then none else some (base58Bytes digits) := by
  have hsplit := zeros_append_digits (by decide) hdigits
  generalize hz : (digits.takeWhile (· = 0)).length = z at hsplit
  generalize hN : value 58 digits = N at hsplit
  have hrest : ∀ d ∈ (Nat.digits 58 N).reverse, d < 58 := by
    intro d hd
    exact Nat.digits_lt_base (by decide) (List.mem_reverse.mp hd)
  have hvalue : value 58 (Nat.digits 58 N).reverse = N := by rw [value, List.reverse_reverse, Nat.ofDigits_digits]
  have hbound := value_lt (by decide) hrest
  rw [hvalue] at hbound
  generalize (Nat.digits 58 N).reverse = rest at hsplit hrest hvalue hbound
  have hlength : z + rest.length = digits.length := by rw [← hsplit, List.length_append, List.length_replicate]
  have hmax : maxDecInputSize = 164 := rfl
  have hdrop : digits.drop z = rest := by
    rw [← hsplit, List.drop_left']
    exact List.length_replicate
  -- the remainders, as many as there are digits behind the zeros
  have hcount : digits.length - z = rest.length := by omega
  have hafter : digits.length - rest.length = z := by omega
  have hloop : base58DecodeLoop (digits.length + 1) digits z (List.replicate maxDecInputSize 0) digits.length =
      some (List.replicate z 0 ++ lastDigits 256 rest.length N ++ List.replicate (maxDecInputSize - digits.length) 0, z) := by
    rw [base58DecodeLoop_spec (by omega) (by rwa [hdrop]) (by omega) (by rwa [List.length_replicate]) (by omega), hcount,
      hafter, hdrop, hvalue, List.take_replicate, List.drop_replicate, Nat.min_eq_left (by omega)]
  have hbytes := zeros_append_digits (b := 256) (by decide) (lastDigits_lt (b := 256) (k := rest.length) (n := N) (by decide))
  have hnumber : value 256 (lastDigits 256 rest.length N) = N := by
    rw [value_lastDigits]
    exact Nat.mod_eq_of_lt (Nat.lt_of_lt_of_le hbound (Nat.pow_le_pow_left (by decide) _))
  rw [hnumber] at hbytes
  have hwidth := length_lastDigits 256 rest.length N
  unfold base58Decode base58Bytes
  rw [length_base58Text, if_neg (by omega), base58Digits_text hdigits]
  dsimp only
  rw [hz, hloop, hN]
  dsimp only
  generalize lastDigits 256 rest.length N = remainders at hbytes hwidth ⊢
  have hfront : (List.replicate z 0 ++ remainders).length = digits.length := by
    rw [List.length_append, List.length_replicate, hwidth, hlength]
  have hread : ((List.replicate z 0 ++ remainders ++ List.replicate (maxDecInputSize - digits.length) 0).take
      digits.length).drop z = remainders := by
    rw [List.take_left' hfront, List.drop_left']
    exact List.length_replicate
  rw [hread]
  generalize (remainders.takeWhile (· = 0)).length = k at hbytes ⊢
  generalize (Nat.digits 256 N).reverse = bytes at hbytes ⊢
  subst hbytes
  rw [List.length_append, List.length_replicate] at hwidth
  -- the zeros of the bytes and those of the text change places
  have hout : ((List.replicate z 0 ++ (List.replicate k 0 ++ bytes) ++
      List.replicate (maxDecInputSize - digits.length) 0).drop (z + k - z)).take (digits.length - (z + k - z)) =
        List.replicate z 0 ++ bytes := by
    have hswap : List.replicate z 0 ++ (List.replicate k 0 ++ bytes) = List.replicate k 0 ++ (List.replicate z 0 ++ bytes) := by
      rw [← List.append_assoc, ← List.append_assoc, List.replicate_append_replicate, List.replicate_append_replicate,
        Nat.add_comm]
    rw [Nat.add_sub_cancel_left, hswap, List.append_assoc, List.drop_left' List.length_replicate, List.take_left']
    rw [List.length_append, List.length_replicate]
    omega
  have hlen : digits.length - (z + k - z) = ((List.replicate z 0 ++ bytes).map UInt8.ofNat).length := by
    rw [List.length_map, List.length_append, List.length_replicate]
    omega
  rw [hout, hlen]

theorem base58Text_zeros_append (k : Nat) (digits : List Nat) :
    base58Text (List.replicate k 0 ++ digits) = List.replicate k 49 ++ base58Text digits := by
  unfold base58Text
  rw [List.map_append, List.map_replicate]
  rfl

theorem toNat_base58Bytes (digits : List Nat) : (base58Bytes digits).map UInt8.toNat =
    List.replicate (digits.takeWhile (· = 0)).length 0 ++ (Nat.digits 256 (value 58 digits)).reverse := by
  apply map_toNat_ofNat
  intro d hd
  rcases List.mem_append.mp hd with hd | hd
  · rw [List.eq_of_mem_replicate hd]
    decide
  · exact Nat.digits_lt_base (by decide) (List.mem_reverse.mp hd)

@[simp] theorem zeros_base58Bytes (digits : List Nat) :
    ((base58Bytes digits).takeWhile (· = 0)).length = (digits.takeWhile (· = 0)).length := by
  rw [← length_takeWhile_toNat, toNat_base58Bytes, takeWhile_zeros_digits, List.length_replicate]

@[simp] theorem byteValue_base58Bytes (digits : List Nat) : byteValue (base58Bytes digits) = value 58 digits := by
  rw [byteValue, toNat_base58Bytes, value_append, value_replicate_zero, Nat.zero_mul, Nat.zero_add, value,
    List.reverse_reverse, Nat.ofDigits_digits]

/-- A `1` for each leading zero byte, and the digits in base 58 of the number the bytes denote. -/
def base58Numeral (x : Bytes) : Bytes :=
  List.replicate (x.takeWhile (· = 0)).length 49 ++ base58Text (Nat.digits 58 (byteValue x)).reverse

theorem base58Numeral_eq (x : Bytes) : base58Numeral x =
    base58Text (List.replicate (x.takeWhile (· = 0)).length 0 ++ (Nat.digits 58 (byteValue x)).reverse) := by
  rw [base58Text_zeros_append, base58Numeral]

/-- The bytes of the numeral of some bytes. -/
theorem base58Bytes_numeral (x : Bytes) :
    base58Bytes (List.replicate (x.takeWhile (· = 0)).length 0 ++ (Nat.digits 58 (byteValue x)).reverse) = x := by
  have hsplit := zeros_append_digits (by decide) (toNat_lt_of_mem x)
  rw [length_takeWhile_toNat] at hsplit
  have hvalue : value 58 (List.replicate (x.takeWhile (· = 0)).length 0 ++ (Nat.digits 58 (byteValue x)).reverse) =
      value 256 (x.map UInt8.toNat) := by
    rw [value_append, value_replicate_zero, Nat.zero_mul, Nat.zero_add, value, List.reverse_reverse, Nat.ofDigits_digits,
      byteValue]
  rw [base58Bytes, takeWhile_zeros_digits, List.length_replicate, hvalue, hsplit, map_ofNat_toNat]

theorem base58_sizes : ∀ m ≤ maxEncInputSize, 256 ^ m ≤ 58 ^ (m + 44) := by decide +kernel

/-- Bytes that `base58_encode` takes have a numeral that `base58_decode` takes. -/
theorem length_base58Numeral {x : Bytes} (htwo : 2 ≤ x.length) (hsize : x.length ≤ maxEncInputSize) :
    2 ≤ (base58Numeral x).length ∧ (base58Numeral x).length ≤ maxDecInputSize := by
  have hnumeral : (base58Numeral x).length =
      (x.takeWhile (· = 0)).length + (Nat.digits 58 (byteValue x)).length := by
    rw [base58Numeral_eq, length_base58Text, List.length_append, List.length_replicate, List.length_reverse]
  have hbytes : x.length = (x.takeWhile (· = 0)).length + (Nat.digits 256 (byteValue x)).length := by
    have hsplit := congrArg List.length (zeros_append_digits (by decide) (toNat_lt_of_mem x))
    rw [length_takeWhile_toNat, List.length_append, List.length_replicate, List.length_reverse, List.length_map] at hsplit
    exact hsplit.symm
  have hmax : maxEncInputSize = 120 := rfl
  have hmax' : maxDecInputSize = 164 := rfl
  have hlower : (Nat.digits 256 (byteValue x)).length ≤ (Nat.digits 58 (byteValue x)).length :=
    length_digits_anti (by decide) (by decide) _
  have hupper : (Nat.digits 58 (byteValue x)).length ≤ (Nat.digits 256 (byteValue x)).length + 44 := by
    apply (Nat.digits_length_le_iff (by decide) _).mpr
    calc
      byteValue x < 256 ^ (Nat.digits 256 (byteValue x)).length := Nat.lt_base_pow_length_digits (by decide)
      _ ≤ 58 ^ ((Nat.digits 256 (byteValue x)).length + 44) := base58_sizes _ (by omega)
  omega

/-- What fits is encoded, decoded and encoded again without loss. `base58_encode` fails for want of room only, and so
does `base58_decode`. -/
theorem base58_round_trip :
    (∀ x : Bytes, 2 ≤ x.length → x.length ≤ maxEncInputSize → ∀ outLen,
      base58Encode x outLen = (if outLen < (base58Numeral x).length then none else some (base58Numeral x)) ∧
      base58Decode (base58Numeral x) outLen = if outLen < x.length then none else some x) ∧
    ∀ s : Bytes, 2 ≤ s.length → s.length ≤ maxDecInputSize → (∀ c ∈ s, c ∈ base58Alphabet) →
      ∃ x, (∀ outLen, base58Decode s outLen = if outLen < x.length then none else some x) ∧
        (x.length ≤ maxEncInputSize → ∀ outLen, s.length ≤ outLen → base58Encode x outLen = some s) := by
  constructor
  · intro x htwo hsize outLen
    obtain ⟨hlow, hhigh⟩ := length_base58Numeral htwo hsize
    have hdigits : ∀ d ∈ List.replicate (x.takeWhile (· = 0)).length 0 ++ (Nat.digits 58 (byteValue x)).reverse, d < 58 := by
      intro d hd
      rcases List.mem_append.mp hd with hd | hd
      · rw [List.eq_of_mem_replicate hd]
        decide
      · exact Nat.digits_lt_base (by decide) (List.mem_reverse.mp hd)
    constructor
    · rw [base58Encode_eq hsize, base58Numeral, List.length_append, List.length_replicate, length_base58Text,
        List.length_reverse]
      rfl
    · rw [base58Numeral_eq, length_base58Text] at hlow hhigh
      rw [base58Numeral_eq, base58Decode_eq hdigits hlow hhigh, base58Bytes_numeral]
  · intro s htwo hsize halphabet
    rcases exists_base58Text halphabet with ⟨digits, hdigits, rfl⟩
    rw [length_base58Text] at htwo hsize
    refine ⟨base58Bytes digits, base58Decode_eq hdigits htwo hsize, fun hfits outLen hroom => ?_⟩
    have hsplit := zeros_append_digits (by decide) hdigits
    have hlength := congrArg List.length hsplit
    rw [length_base58Text] at hroom
    rw [List.length_append, List.length_replicate, List.length_reverse] at hlength
    rw [base58Encode_eq hfits, zeros_base58Bytes, byteValue_base58Bytes, if_neg (by omega)]
    conv_rhs => rw [← hsplit, base58Text_zeros_append]
    rfl

/-- The numeral of the bytes 0 and 1 is `12`: both functions at the least capacity and below it, and the way back. -/
theorem base58_round_trip_one :
    (base58Encode [0, 1] 2 = some [49, 50] ∧ base58Decode [49, 50] 2 = some [0, 1]) ∧
      (base58Encode [0, 1] 1 = none ∧ base58Decode [49, 50] 1 = none) ∧
      ∃ x, base58Decode [49, 50] 2 = some x ∧ base58Encode x 2 = some [49, 50] := by
  have hnumeral : base58Numeral [0, 1] = [49, 50] := by decide +kernel
  have hencode := base58_round_trip.1 [0, 1] (by decide) (by decide)
  rw [hnumeral] at hencode
  obtain ⟨x, hdecode, hagain⟩ := base58_round_trip.2 [49, 50] (by decide) (by decide) (by decide +kernel)
  have hx : x = [0, 1] := by
    have hdecode' := (hdecode 2).symm.trans (hencode 2).2
    by_cases hroom : 2 < x.length
    · rw [if_pos hroom] at hdecode'
      cases hdecode'
    · rw [if_neg hroom] at hdecode'
      exact Option.some.inj hdecode'
  subst hx
  exact ⟨hencode 2, hencode 1, _, hdecode 2, hagain (by decide) 2 (by decide)⟩

end HathorApp
