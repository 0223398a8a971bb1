import HathorApp.ByteNumeral
import HathorApp.Format

/-!
`base58_encode` converts bytes to a numeral in base 58. Its buffer holds the numeral of the bytes read so
far, multiplied by 256 for the next byte with a carry that runs from the last cell to the first one.
The inner loop stops early, at a cell that the numeral has not reached yet; the cells before it are zero,
and the buffer is long enough that the loop never runs out of it.
-/

namespace HathorApp

open PositionalNumeral

/-- What the carry loop leaves of the cells up to the one it starts at, when it may stop before cell `s`
and brings the carry `c` along: the cells from the stop `j` on hold the product, and it goes further
than it has to only as far as the product reaches. -/
structure CarryEnds (s c : Nat) (before after : List Nat) (j : Nat) : Prop where
  length : after.length = before.length
  digits : ∀ d ∈ after, d < 58
  product : value 58 after = 256 * value 58 before + c
  stop : j < s ∧ j < before.length
  zeros : ∀ d ∈ after.take j, d = 0
  reach : before.length < s → c ≠ 0 → 58 ^ (before.length - 1 - j) ≤ value 58 after
  atStop : s ≤ before.length → j + 1 = s ∨ 58 ^ (before.length - 1 - j) ≤ value 58 after

theorem base58CarryLoop_eq (s c d : Nat) (left right : List Nat) :
    base58CarryLoop (some (s + 1)) left.length c (left ++ d :: right) =
      if left.length ≤ s ∧ (c + 256 * d) / 58 = 0 then (left ++ (c + 256 * d) % 58 :: right, some left.length)
      else
        match left.length with
        | 0 => (left ++ (c + 256 * d) % 58 :: right, none)
        | j + 1 => base58CarryLoop (some (s + 1)) j ((c + 256 * d) / 58) (left ++ (c + 256 * d) % 58 :: right) := by
  have hget : (left ++ d :: right).getD left.length 0 = d := by
    rw [List.getD_eq_getElem?_getD, List.getElem?_append_right (Nat.le_refl _), Nat.sub_self]
    rfl
  have hset : ∀ x, (left ++ d :: right).set left.length x = left ++ x :: right := by
    intro x
    rw [List.set_append_right _ _ (Nat.le_refl _), Nat.sub_self, List.set_cons_zero]
  rw [base58CarryLoop.eq_def]
  dsimp only
  rw [hget, hset]
  cases left.length <;> simp only [decide_eq_true_eq]

section Carry

variable {s c d j : Nat} {left after : List Nat}

/-- The loop stops at the cell it is at. -/
theorem CarryEnds.stopped (hleft : ∀ x ∈ left, x < 58) (hzeros : ∀ x ∈ left.take (s + 1), x = 0)
    (hreached : left.length ≤ s) (hcarry : (c + 256 * d) / 58 = 0) :
    CarryEnds (s + 1) c (left ++ [d]) (left ++ [(c + 256 * d) % 58]) left.length := by
  have hsmall : (c + 256 * d) % 58 = c + 256 * d := Nat.mod_eq_of_lt (by omega)
  have hzero : value 58 left = 0 := by
    rw [List.take_of_length_le (by omega)] at hzeros
    exact value_of_zeros hzeros
  have hlength : ∀ x, (left ++ [x]).length = left.length + 1 := fun _ => List.length_append
  have hvalue : value 58 (left ++ [(c + 256 * d) % 58]) = 256 * value 58 (left ++ [d]) + c := by
    rw [value_concat, value_concat, hzero, hsmall]
    omega
  refine ⟨?_, ?_, hvalue, ⟨by omega, ?_⟩, ?_, ?_, ?_⟩
  · rw [hlength, hlength]
  · refine List.forall_mem_append.mpr ⟨hleft, fun x hx => ?_⟩
    rw [List.mem_singleton.mp hx]
    exact Nat.mod_lt _ (by decide)
  · rw [hlength]
    exact Nat.lt_succ_self _
  · rw [List.take_left]
    rwa [List.take_of_length_le (by omega)] at hzeros
  · intro _ hc
    rw [hvalue, hlength, Nat.add_sub_cancel, Nat.sub_self, Nat.pow_zero]
    omega
  · intro hlong
    rw [hlength] at hlong
    exact Or.inl (by omega)

/-- The loop goes on with the cell before. -/
theorem CarryEnds.carried (hnext : CarryEnds (s + 1) ((c + 256 * d) / 58) left after j)
    (hgoes : ¬(left.length ≤ s ∧ (c + 256 * d) / 58 = 0)) :
    CarryEnds (s + 1) c (left ++ [d]) (after ++ [(c + 256 * d) % 58]) j := by
  have hlength : (left ++ [d]).length = left.length + 1 := List.length_append
  have hstop := hnext.stop
  have hvalue : value 58 (after ++ [(c + 256 * d) % 58]) = 256 * value 58 (left ++ [d]) + c := by
    rw [value_concat, hnext.product, mulAdd_concat]
  have hpower : 58 ^ (left.length - 1 - j) ≤ value 58 after →
      58 ^ ((left ++ [d]).length - 1 - j) ≤ value 58 (after ++ [(c + 256 * d) % 58]) := by
    intro h
    calc
      58 ^ ((left ++ [d]).length - 1 - j) = 58 * 58 ^ (left.length - 1 - j) := by
        rw [← Nat.pow_succ']
        congr 1
        omega
      _ ≤ 58 * value 58 after := Nat.mul_le_mul_left 58 h
      _ ≤ value 58 (after ++ [(c + 256 * d) % 58]) := by
        rw [value_concat]
        exact Nat.le_add_right _ _
  refine ⟨?_, ?_, hvalue, ⟨hstop.1, by omega⟩, ?_, fun hshort hc => ?_, fun hlong => ?_⟩
  · rw [List.length_append, hnext.length, hlength, List.length_singleton]
  · refine List.forall_mem_append.mpr ⟨hnext.digits, fun x hx => ?_⟩
    rw [List.mem_singleton.mp hx]
    exact Nat.mod_lt _ (by decide)
  · rw [List.take_append_of_le_length (by rw [hnext.length]; omega)]
    exact hnext.zeros
  · rw [hlength] at hshort
    exact hpower (hnext.reach (by omega) fun h => hgoes ⟨by omega, h⟩)
  · rw [hlength] at hlong
    rcases Nat.lt_or_ge s left.length with hbefore | hbehind
    · exact (hnext.atStop hbefore).imp_right hpower
    · exact Or.inr (hpower (hnext.reach (by omega) fun h => hgoes ⟨hbehind, h⟩))

theorem base58CarryLoop_spec (right : List Nat) (hleft : ∀ x ∈ left, x < 58)
    (hzeros : ∀ x ∈ left.take (s + 1), x = 0) (hfits : 256 * value 58 (left ++ [d]) + c < 58 ^ (left.length + 1)) :
    ∃ after j, base58CarryLoop (some (s + 1)) left.length c (left ++ d :: right) = (after ++ right, some j) ∧
      CarryEnds (s + 1) c (left ++ [d]) after j := by
  induction left using List.reverseRecOn generalizing c d right with
  | nil =>
      have hnone : (c + 256 * d) / 58 = 0 := by
        rw [value_concat, value_nil, List.length_nil] at hfits
        omega
      have hstops : ([] : List Nat).length ≤ s ∧ (c + 256 * d) / 58 = 0 := ⟨Nat.zero_le s, hnone⟩
      rw [base58CarryLoop_eq, if_pos hstops]
      exact ⟨_, _, rfl, .stopped hleft hzeros hstops.1 hnone⟩
  | append_singleton left d' ih =>
      have hlength : (left ++ [d']).length = left.length + 1 := List.length_append
      rw [base58CarryLoop_eq]
      by_cases hstops : (left ++ [d']).length ≤ s ∧ (c + 256 * d) / 58 = 0
      · rw [if_pos hstops]
        refine ⟨_, _, ?_, .stopped hleft hzeros hstops.1 hstops.2⟩
        rw [List.append_assoc (left ++ [d']), List.singleton_append]
      · have hfits' : 256 * value 58 (left ++ [d']) + (c + 256 * d) / 58 < 58 ^ (left.length + 1) := by
          rw [mulAdd_concat, hlength, Nat.pow_succ'] at hfits
          omega
        have hleft' : ∀ x ∈ left, x < 58 := fun x hx => hleft x (List.mem_append_left _ hx)
        have hzeros' : ∀ x ∈ left.take (s + 1), x = 0 := by
          intro x hx
          apply hzeros x
          rw [List.take_append]
          exact List.mem_append_left _ hx
        rcases ih ((c + 256 * d) % 58 :: right) hleft' hzeros' hfits' with ⟨after, j, hloop, hends⟩
        rw [if_neg hstops, hlength]
        refine ⟨after ++ [(c + 256 * d) % 58], j, ?_, hends.carried hstops⟩
        dsimp only
        rw [List.append_assoc left, List.singleton_append, hloop, List.append_assoc after, List.singleton_append]

end Carry

/-- The buffer holds the number of the bytes read so far, in cells from the last stop on. -/
structure HoldsNumber (outputSize read number stop : Nat) (buffer : List Nat) : Prop where
  length : buffer.length = outputSize
  digits : ∀ d ∈ buffer, d < 58
  denotes : value 58 buffer = number
  bound : number < 256 ^ read
  inside : stop < outputSize
  zeros : ∀ d ∈ buffer.take stop, d = 0
  reach : 58 ^ (outputSize - 1 - stop) ≤ 256 ^ read

section Encode

variable {outputSize read number stop : Nat} {buffer : List Nat}

/-- The buffer is longer than the numeral of the bytes read before the last one. -/
theorem HoldsNumber.stop_pos (h : HoldsNumber outputSize read number stop buffer) (hroom : 256 ^ read < 58 ^ (outputSize - 1)) :
    0 < stop := by
  apply Nat.pos_of_ne_zero
  intro hzero
  have hreach := h.reach
  rw [hzero, Nat.sub_zero] at hreach
  exact absurd hroom (Nat.not_lt.mpr hreach)

theorem HoldsNumber.next (h : HoldsNumber outputSize read number stop buffer) (hroom : 256 ^ read < 58 ^ (outputSize - 1))
    (hfits : 256 ^ (read + 1) ≤ 58 ^ outputSize) (c : UInt8) :
    ∃ buffer' j, base58CarryLoop (some stop) (outputSize - 1) c.toNat buffer = (buffer', some j) ∧
      HoldsNumber outputSize (read + 1) (256 * number + c.toNat) j buffer' := by
  obtain ⟨s, rfl⟩ : ∃ s, stop = s + 1 := ⟨stop - 1, by have := h.stop_pos hroom; omega⟩
  have hstop := h.inside
  have hbyte := c.toNat_lt
  have hbound : 256 * number + c.toNat < 256 ^ (read + 1) := by
    have := h.bound
    rw [Nat.pow_succ]
    omega
  have hne : buffer ≠ [] := by
    intro hnil
    have hlength := h.length
    rw [hnil, List.length_nil] at hlength
    omega
  obtain ⟨left, d, rfl⟩ : ∃ left d, buffer = left ++ [d] :=
    ⟨buffer.dropLast, buffer.getLast hne, (List.dropLast_append_getLast hne).symm⟩
  have hlength : left.length + 1 = outputSize := by
    rw [← h.length, List.length_append, List.length_singleton]
  have hleft : ∀ x ∈ left, x < 58 := fun x hx => h.digits x (List.mem_append_left _ hx)
  have hzeros : ∀ x ∈ left.take (s + 1), x = 0 := by
    intro x hx
    apply h.zeros x
    rw [List.take_append]
    exact List.mem_append_left _ hx
  have hproduct : 256 * value 58 (left ++ [d]) + c.toNat < 58 ^ (left.length + 1) := by
    rw [h.denotes, hlength]
    exact Nat.lt_of_lt_of_le hbound hfits
  rcases base58CarryLoop_spec [] hleft hzeros hproduct with ⟨after, j, hloop, hends⟩
  have hsize : outputSize - 1 = left.length := by omega
  have hbefore : (left ++ [d]).length = outputSize := h.length
  refine ⟨after, j, ?_, hends.length.trans hbefore, hends.digits, ?_, hbound, ?_, hends.zeros, ?_⟩
  · rw [hsize, hloop, List.append_nil]
  · rw [hends.product, h.denotes]
  · rw [← hbefore]
    exact hends.stop.2
  · have hends' := hends.atStop
    rw [hbefore] at hends'
    rcases hends' (Nat.le_of_lt hstop) with hj | hpower
    · calc
        58 ^ (outputSize - 1 - j) = 58 * 58 ^ (outputSize - 1 - (s + 1)) := by
          rw [← Nat.pow_succ']
          congr 1
          omega
        _ ≤ 256 * 256 ^ read := Nat.mul_le_mul (by decide) h.reach
        _ = 256 ^ (read + 1) := (Nat.pow_succ' ..).symm
    · rw [hends.product, h.denotes] at hpower
      exact Nat.le_of_lt (Nat.lt_of_le_of_lt hpower hbound)

/-- All bytes. The room is that of the buffer of the source for as many bytes. -/
theorem base58EncodeLoop_spec {m : Nat} (hroom : 256 ^ (m - 1) < 58 ^ (outputSize - 1))
    (hfits : 256 ^ m ≤ 58 ^ outputSize) (l : Bytes) (h : HoldsNumber outputSize read number stop buffer)
    (hread : read + l.length = m) :
    ∃ stop', HoldsNumber outputSize m (number * 256 ^ l.length + byteValue l) stop'
      (base58EncodeLoop outputSize l (some stop) buffer) := by
  induction l generalizing read number stop buffer with
  | nil =>
      refine ⟨stop, ?_⟩
      rw [List.length_nil, Nat.pow_zero, Nat.mul_one, ← hread]
      exact h
  | cons c l ih =>
      rw [List.length_cons] at hread
      have hroom' : 256 ^ read < 58 ^ (outputSize - 1) :=
        Nat.lt_of_le_of_lt (Nat.pow_le_pow_right (by decide) (by omega)) hroom
      have hfits' : 256 ^ (read + 1) ≤ 58 ^ outputSize :=
        Nat.le_trans (Nat.pow_le_pow_right (by decide) (by omega)) hfits
      rcases h.next hroom' hfits' c with ⟨buffer', j, hloop, hholds⟩
      rcases ih hholds (by omega) with ⟨stop', hends⟩
      have hnumber : number * 256 ^ (c :: l).length + byteValue (c :: l) =
          (256 * number + c.toNat) * 256 ^ l.length + byteValue l := by
        rw [byteValue_cons, List.length_cons, Nat.pow_succ]
        ring
      rw [hnumber, base58EncodeLoop, hloop]
      exact ⟨stop', hends⟩

end Encode

/-- The characters of base 58 digits. -/
def base58Text (digits : List Nat) : Bytes := digits.map fun d => base58Alphabet.getD d 0

/-- 138/100 is more than the digits in base 58 that a byte needs. -/
theorem outputSize_suffices : ∀ m ≤ maxEncInputSize, 0 < m →
    256 ^ (m - 1) < 58 ^ (m * 138 / 100 + 1 - 1) ∧ 256 ^ m ≤ 58 ^ (m * 138 / 100 + 1) := by
  decide +kernel

theorem holds_start {outputSize : Nat} (h : 0 < outputSize) :
    HoldsNumber outputSize 0 0 (outputSize - 1) (List.replicate outputSize 0) := by
  refine ⟨List.length_replicate, ?_, value_replicate_zero _, Nat.one_pos, Nat.sub_one_lt (by omega), ?_, ?_⟩
  · intro d hd
    rw [List.eq_of_mem_replicate hd]
    decide
  · intro d hd
    exact List.eq_of_mem_replicate (List.mem_of_mem_take hd)
  · rw [Nat.sub_self]
    exact Nat.le_refl 1

/-- `base58_encode` gives a `1` for each leading zero byte and the digits of the number the bytes denote,
if they fit. -/
theorem base58Encode_eq {input : Bytes} (hsize : input.length ≤ maxEncInputSize) (outLen : Nat) :
    base58Encode input outLen =
      if outLen < (input.takeWhile (· = 0)).length + (Nat.digits 58 (byteValue input)).length then none
      else some (List.replicate (input.takeWhile (· = 0)).length (base58Alphabet.getD 0 0) ++
        base58Text (Nat.digits 58 (byteValue input)).reverse) := by
  have hsplit : input.takeWhile (· = 0) ++ input.dropWhile (· = 0) = input := List.takeWhile_append_dropWhile
  have hzeros : ∀ z ∈ input.takeWhile (· = 0), z = 0 := by
    intro z hz
    have hzero := List.mem_takeWhile_imp hz
    exact of_decide_eq_true hzero
  have hencode : base58Encode input outLen =
      let zeroCount := (input.takeWhile (· = 0)).length
      let outputSize := (input.length - zeroCount) * 138 / 100 + 1
      let buffer := base58EncodeLoop outputSize (input.drop zeroCount) (some (outputSize - 1))
        (List.replicate outputSize 0)
      if outLen < zeroCount + (buffer.dropWhile (· = 0)).length then none
      else some (List.replicate zeroCount (base58Alphabet.getD 0 0) ++ base58Text (buffer.dropWhile (· = 0))) :=
    if_neg (Nat.not_lt.mpr hsize)
  rw [hencode]
  generalize input.takeWhile (· = 0) = zeros at hsplit hzeros
  generalize input.dropWhile (· = 0) = bytes at hsplit
  subst hsplit
  rw [List.length_append] at hsize
  have hnumber := byteValue_zeros_append hzeros bytes
  dsimp only
  rw [List.drop_left, List.length_append, Nat.add_sub_cancel_left, hnumber]
  have hbuffer : ∃ stop, HoldsNumber (bytes.length * 138 / 100 + 1) bytes.length (byteValue bytes) stop
      (base58EncodeLoop (bytes.length * 138 / 100 + 1) bytes (some (bytes.length * 138 / 100 + 1 - 1))
        (List.replicate (bytes.length * 138 / 100 + 1) 0)) := by
    have hstart := holds_start (Nat.succ_pos (bytes.length * 138 / 100))
    rcases Nat.eq_zero_or_pos bytes.length with hnil | hpos
    · rw [List.length_eq_zero_iff] at hnil
      subst hnil
      exact ⟨_, hstart⟩
    · obtain ⟨hroom, hfits⟩ := outputSize_suffices bytes.length (by omega) hpos
      rcases base58EncodeLoop_spec hroom hfits bytes hstart (Nat.zero_add _) with ⟨stop, hholds⟩
      rw [Nat.zero_mul, Nat.zero_add] at hholds
      exact ⟨stop, hholds⟩
  rcases hbuffer with ⟨stop, hholds⟩
  rw [dropZeros_eq_digits (by decide) hholds.digits, hholds.denotes, List.length_reverse]

end HathorApp
