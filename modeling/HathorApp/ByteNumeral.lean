import HathorApp.Buffer
import HathorApp.PositionalNumeral

/-!
Bytes as a numeral in base 256, the most significant one first. The readers of `common/read.c` give the number
of the bytes at an offset, and a number of that many bytes is written back by its last digits.
-/

namespace HathorApp

open PositionalNumeral

/-- The number that bytes denote. -/
def byteValue (l : Bytes) : Nat := value 256 (l.map UInt8.toNat)

theorem byteValue_cons (c : UInt8) (l : Bytes) : byteValue (c :: l) = c.toNat * 256 ^ l.length + byteValue l := by
  unfold byteValue
  rw [List.map_cons, ← List.singleton_append, value_append, List.length_map, ← List.nil_append [c.toNat], value_concat,
    value_nil, Nat.mul_zero, Nat.zero_add]

theorem byteValue_zeros_append {zeros : Bytes} (h : ∀ z ∈ zeros, z = 0) (l : Bytes) :
    byteValue (zeros ++ l) = byteValue l := by
  unfold byteValue
  rw [List.map_append, value_append, value_of_zeros, Nat.zero_mul, Nat.zero_add]
  intro d hd
  rcases List.mem_map.mp hd with ⟨c, hc, rfl⟩
  rw [h c hc]
  rfl

theorem byteValue_lt (l : Bytes) : byteValue l < 256 ^ l.length := by
  have hbytes : ∀ d ∈ l.map UInt8.toNat, d < 256 := by
    intro d hd
    rcases List.mem_map.mp hd with ⟨c, _, rfl⟩
    exact c.toNat_lt
  have hlt := value_lt (by decide) hbytes
  rwa [List.length_map] at hlt

theorem toNat_lt_of_mem (x : Bytes) : ∀ d ∈ x.map UInt8.toNat, d < 256 := by
  intro d hd
  rcases List.mem_map.mp hd with ⟨c, _, rfl⟩
  exact c.toNat_lt

theorem length_takeWhile_toNat (x : Bytes) :
    ((x.map UInt8.toNat).takeWhile (· = 0)).length = (x.takeWhile (· = 0)).length := by
  induction x with
  | nil => rfl
  | cons c x ih =>
      rw [List.map_cons]
      by_cases hzero : c = 0
      · subst hzero
        rw [List.takeWhile_cons_of_pos (by decide), List.takeWhile_cons_of_pos (by decide), List.length_cons,
          List.length_cons, ih]
      · have hnat : c.toNat ≠ 0 := fun h => hzero (UInt8.toNat_inj.mp h)
        rw [List.takeWhile_cons_of_neg (by simpa using hnat), List.takeWhile_cons_of_neg (by simpa using hzero)]
        rfl

theorem map_toNat_ofNat {l : List Nat} (h : ∀ d ∈ l, d < 256) : (l.map UInt8.ofNat).map UInt8.toNat = l := by
  rw [List.map_map]
  conv_rhs => rw [← List.map_id l]
  apply List.map_congr_left
  intro d hd
  exact UInt8.toNat_ofNat_of_lt' (h d hd)

theorem map_ofNat_toNat (x : Bytes) : (x.map UInt8.toNat).map UInt8.ofNat = x := by
  rw [List.map_map]
  conv_rhs => rw [← List.map_id x]
  apply List.map_congr_left
  intro c _
  exact UInt8.ofNat_toNat

/-- A number in so many bytes. -/
def bytesBe (k n : Nat) : Bytes := (lastDigits 256 k n).map UInt8.ofNat

@[simp] theorem length_bytesBe (k n : Nat) : (bytesBe k n).length = k := by simp [bytesBe]

theorem byteValue_bytesBe_mod (k n : Nat) : byteValue (bytesBe k n) = n % 256 ^ k := by
  rw [byteValue, bytesBe, map_toNat_ofNat (lastDigits_lt (by decide)), value_lastDigits]

theorem byteValue_bytesBe {k n : Nat} (h : n < 256 ^ k) : byteValue (bytesBe k n) = n := by
  rw [byteValue_bytesBe_mod, Nat.mod_eq_of_lt h]

/-- Bytes are those of their number. -/
theorem bytesBe_byteValue (l : Bytes) : bytesBe l.length (byteValue l) = l := by
  have hdigits : lastDigits 256 l.length (byteValue l) = l.map UInt8.toNat := by
    apply @value_injective 256 _ (by decide)
    · rw [length_lastDigits, List.length_map]
    · exact lastDigits_lt (by decide)
    · exact toNat_lt_of_mem l
    · rw [value_lastDigits, Nat.mod_eq_of_lt (byteValue_lt l), byteValue]
  rw [bytesBe, hdigits, map_ofNat_toNat]

/-- Only the low bytes of a number go into an array. -/
theorem bytesBe_mod (k n : Nat) : bytesBe k (n % 256 ^ k) = bytesBe k n := by
  have hbytes := bytesBe_byteValue (bytesBe k n)
  rwa [length_bytesBe, byteValue_bytesBe_mod] at hbytes

/-- The levels of a path in four bytes each. -/
theorem length_levels (path : Bip32Path) : (path.flatMap (bytesBe 4)).length = 4 * path.length := by
  induction path with
  | nil => rfl
  | cons level path ih =>
      rw [List.flatMap_cons, List.length_append, ih, length_bytesBe, List.length_cons]
      ring

section Read

variable {ptr : Bytes} {offset : Nat}

theorem map_byteAt {k : Nat} (h : offset + k ≤ ptr.length) :
    (List.range k).map (fun i => byteAt ptr (offset + i)) = ((ptr.drop offset).take k).map UInt8.toNat := by
  apply List.ext_getElem
  · simp
    omega
  · intro i hi _
    have hlt : offset + i < ptr.length := by
      rw [List.length_map, List.length_range] at hi
      omega
    simp [byteAt, hlt]

theorem byteAt_eq (h : offset + 1 ≤ ptr.length) : byteAt ptr offset = byteValue ((ptr.drop offset).take 1) := by
  rw [byteValue, ← map_byteAt h, value_map_range_succ]
  simp

theorem readU16Be_eq (h : offset + 2 ≤ ptr.length) : readU16Be ptr offset = byteValue ((ptr.drop offset).take 2) := by
  rw [byteValue, ← map_byteAt h]
  simp only [value_map_range_succ, List.range_zero, List.map_nil, value_nil]
  unfold readU16Be
  omega

theorem readU32Be_eq (h : offset + 4 ≤ ptr.length) : readU32Be ptr offset = byteValue ((ptr.drop offset).take 4) := by
  rw [byteValue, ← map_byteAt h]
  simp only [value_map_range_succ, List.range_zero, List.map_nil, value_nil]
  unfold readU32Be
  omega

theorem readU64Be_eq (h : offset + 8 ≤ ptr.length) : readU64Be ptr offset = byteValue ((ptr.drop offset).take 8) := by
  rw [byteValue, ← map_byteAt h]
  simp only [value_map_range_succ, List.range_zero, List.map_nil, value_nil]
  unfold readU64Be
  omega

/-! The readers of little endian numbers read the bytes backwards. -/

theorem readU16Le_eq (h : offset + 2 ≤ ptr.length) :
    readU16Le ptr offset = byteValue ((ptr.drop offset).take 2).reverse := by
  rw [byteValue, List.map_reverse, ← map_byteAt h]
  simp only [value_reverse_map_range_succ, List.range_zero, List.map_nil, List.reverse_nil, value_nil]
  unfold readU16Le
  omega

theorem readU32Le_eq (h : offset + 4 ≤ ptr.length) :
    readU32Le ptr offset = byteValue ((ptr.drop offset).take 4).reverse := by
  rw [byteValue, List.map_reverse, ← map_byteAt h]
  simp only [value_reverse_map_range_succ, List.range_zero, List.map_nil, List.reverse_nil, value_nil]
  unfold readU32Le
  omega

theorem readU64Le_eq (h : offset + 8 ≤ ptr.length) :
    readU64Le ptr offset = byteValue ((ptr.drop offset).take 8).reverse := by
  rw [byteValue, List.map_reverse, ← map_byteAt h]
  simp only [value_reverse_map_range_succ, List.range_zero, List.map_nil, List.reverse_nil, value_nil]
  unfold readU64Le
  omega

end Read

end HathorApp
