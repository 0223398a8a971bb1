import Mathlib.Data.List.TakeWhile
import Mathlib.Data.Nat.Digits.Lemmas

/-!
Numerals in a base, the most significant digit first. Digits of one length denote different numbers, and
the digits without leading zeros are those that `Nat.digits` gives. Multiplying a numeral and adding to
it goes from the last digit on, with a carry. The numeral of a number ends with its last digits.
-/

namespace PositionalNumeral

/-- The number that digits denote. -/
def value (b : Nat) (l : List Nat) : Nat := Nat.ofDigits b l.reverse

variable {b : Nat} {l : List Nat}

@[simp] theorem value_nil : value b [] = 0 := rfl

theorem value_concat (l : List Nat) (d : Nat) : value b (l ++ [d]) = b * value b l + d := by
  unfold value
  rw [List.reverse_append, List.reverse_singleton, List.singleton_append, Nat.ofDigits_cons, Nat.add_comm]

theorem value_append (u v : List Nat) : value b (u ++ v) = value b u * b ^ v.length + value b v := by
  unfold value
  rw [List.reverse_append, Nat.ofDigits_append, List.length_reverse, Nat.add_comm, Nat.mul_comm]

/-- The digits at the places of a range, from the first one on. -/
theorem value_map_range_succ (f : Nat → Nat) (k : Nat) :
    value b ((List.range (k + 1)).map f) = b * value b ((List.range k).map f) + f k := by
  rw [List.range_succ, List.map_append, List.map_singleton, value_concat]

/-- From the last one on. -/
theorem value_reverse_map_range_succ (f : Nat → Nat) (k : Nat) :
    value b ((List.range (k + 1)).map f).reverse = f k * b ^ k + value b ((List.range k).map f).reverse := by
  have hlast : value b [f k] = f k := by
    rw [← List.nil_append [f k], value_concat, value_nil, Nat.mul_zero, Nat.zero_add]
  rw [List.range_succ, List.map_append, List.map_singleton, List.reverse_append, List.reverse_singleton, value_append, hlast,
    List.length_reverse, List.length_map, List.length_range]

theorem value_replicate_zero (n : Nat) : value b (List.replicate n 0) = 0 := by
  unfold value
  rw [List.reverse_replicate, Nat.ofDigits_replicate_zero]

theorem value_of_zeros (h : ∀ d ∈ l, d = 0) : value b l = 0 := by
  rw [List.eq_replicate_of_mem h]
  exact value_replicate_zero _

theorem value_lt (hb : 1 < b) (hl : ∀ d ∈ l, d < b) : value b l < b ^ l.length := by
  have hreverse : ∀ d ∈ l.reverse, d < b := fun d hd => hl d (List.mem_reverse.mp hd)
  have hlt := Nat.ofDigits_lt_base_pow_length hb hreverse
  rwa [List.length_reverse] at hlt

/-- Digits of one length are told apart by the number they denote. -/
theorem value_injective (hb : 1 < b) {l' : List Nat} (hlen : l.length = l'.length) (hl : ∀ d ∈ l, d < b)
    (hl' : ∀ d ∈ l', d < b) (h : value b l = value b l') : l = l' := by
  apply List.reverse_inj.mp
  apply Nat.ofDigits_inj_of_len_eq hb _ _ _ h
  · rw [List.length_reverse, List.length_reverse, hlen]
  · exact fun d hd => hl d (List.mem_reverse.mp hd)
  · exact fun d hd => hl' d (List.mem_reverse.mp hd)

theorem value_dropZeros (l : List Nat) : value b (l.dropWhile (· = 0)) = value b l := by
  induction l with
  | nil => rfl
  | cons d l ih =>
      by_cases hzero : d = 0
      · subst hzero
        rw [List.dropWhile_cons_of_pos (by decide), ih, ← List.singleton_append, value_append,
          value_of_zeros (l := [0]) (by simp), Nat.zero_mul, Nat.zero_add]
      · rw [List.dropWhile_cons_of_neg (by simpa using hzero)]

/-- Without its leading zeros a numeral is the one of its number. -/
theorem dropZeros_eq_digits (hb : 1 < b) (hl : ∀ d ∈ l, d < b) :
    l.dropWhile (· = 0) = (Nat.digits b (value b l)).reverse := by
  have hdigits : ∀ d ∈ (l.dropWhile (· = 0)).reverse, d < b := fun d hd =>
    hl d ((List.dropWhile_sublist _).mem (List.mem_reverse.mp hd))
  have hlast : ∀ h : (l.dropWhile (· = 0)).reverse ≠ [], (l.dropWhile (· = 0)).reverse.getLast h ≠ 0 := by
    intro h
    rw [List.getLast_reverse]
    have hhead := List.head_dropWhile_not (fun d : Nat => decide (d = 0)) (l := l)
      (fun h' => h (by rw [h', List.reverse_nil]))
    exact of_decide_eq_false hhead
  rw [← value_dropZeros, value, Nat.digits_ofDigits b hb _ hdigits hlast, List.reverse_reverse]

/-- Behind its leading zeros a numeral is the one of its number. -/
theorem zeros_append_digits (hb : 1 < b) (hl : ∀ d ∈ l, d < b) :
    List.replicate (l.takeWhile (· = 0)).length 0 ++ (Nat.digits b (value b l)).reverse = l := by
  have hzeros : ∀ d ∈ l.takeWhile (· = 0), d = 0 := by
    intro d hd
    have hzero := List.mem_takeWhile_imp hd
    exact of_decide_eq_true hzero
  rw [← dropZeros_eq_digits hb hl, ← List.eq_replicate_of_mem hzeros, List.takeWhile_append_dropWhile]

/-- The digits of a number have no leading zero. -/
theorem takeWhile_zeros_digits (b k n : Nat) :
    (List.replicate k 0 ++ (Nat.digits b n).reverse).takeWhile (· = 0) = List.replicate k 0 := by
  have hhead : (Nat.digits b n).reverse.takeWhile (· = 0) = [] := by
    cases hdigits : (Nat.digits b n).reverse with
    | nil => rfl
    | cons d rest =>
        have hne : Nat.digits b n ≠ [] := by
          intro hnil
          rw [hnil] at hdigits
          cases hdigits
        have hzero : n ≠ 0 := Nat.digits_ne_nil_iff_ne_zero.mp hne
        have hlast := Nat.getLast_digit_ne_zero b hzero
        have hd : (Nat.digits b n).getLast hne = d := by
          rw [← List.head_reverse (by rw [hdigits]; exact List.cons_ne_nil _ _)]
          simp [hdigits]
        rw [List.takeWhile_cons_of_neg (by simpa [hd] using hlast)]
  rw [List.takeWhile_append_of_pos (by simp), hhead, List.append_nil]

/-- A larger base needs no more digits. -/
theorem length_digits_anti {c : Nat} (hc : 1 < c) (h : c ≤ b) (n : Nat) :
    (Nat.digits b n).length ≤ (Nat.digits c n).length := by
  by_cases hzero : n = 0
  · rw [hzero, Nat.digits_zero, Nat.digits_zero]
  · rw [Nat.length_digits b n (by omega) hzero, Nat.length_digits c n hc hzero]
    exact Nat.succ_le_succ (Nat.log_anti_left hc h)

/-- The last digit of a multiple of a numeral with a carry, and the carry it leaves. -/
theorem mulAdd_concat (a c d : Nat) (l : List Nat) :
    a * value b (l ++ [d]) + c = b * (a * value b l + (c + a * d) / b) + (c + a * d) % b := by
  have hdiv := Nat.div_add_mod (c + a * d) b
  calc
    a * value b (l ++ [d]) + c = b * (a * value b l) + (c + a * d) := by
      rw [value_concat]
      ring
    _ = b * (a * value b l) + (b * ((c + a * d) / b) + (c + a * d) % b) := by rw [hdiv]
    _ = b * (a * value b l + (c + a * d) / b) + (c + a * d) % b := by ring

/-- The digits of a number without leading zeros. Zero has one digit. -/
def numeral (b n : Nat) : List Nat := if n = 0 then [0] else (Nat.digits b n).reverse

/-- The last `k` digits of a number, with leading zeros where it has fewer. -/
def lastDigits (b : Nat) : Nat → Nat → List Nat
  | 0, _ => []
  | k + 1, n => lastDigits b k (n / b) ++ [n % b]

section Numeral

variable {n k : Nat}

theorem numeral_of_lt (h : n < b) : numeral b n = [n] := by
  unfold numeral
  by_cases hzero : n = 0
  · rw [if_pos hzero, hzero]
  · rw [if_neg hzero, Nat.digits_of_lt b n hzero h, List.reverse_singleton]

theorem numeral_of_le (hb : 1 < b) (h : b ≤ n) : numeral b n = numeral b (n / b) ++ [n % b] := by
  have hpos : 0 < n := by omega
  have hdiv : n / b ≠ 0 := Nat.div_ne_zero_iff.mpr ⟨by omega, h⟩
  unfold numeral
  rw [if_neg (by omega), if_neg hdiv, Nat.digits_def' hb hpos, List.reverse_cons]

theorem numeral_ne_nil (b n : Nat) : numeral b n ≠ [] := by
  unfold numeral
  by_cases hzero : n = 0
  · rw [if_pos hzero]
    exact List.cons_ne_nil _ _
  · rw [if_neg hzero]
    intro hnil
    exact hzero (Nat.digits_eq_nil_iff_eq_zero.mp (List.reverse_eq_nil_iff.mp hnil))

theorem numeral_lt (hb : 1 < b) : ∀ d ∈ numeral b n, d < b := by
  intro d hd
  unfold numeral at hd
  by_cases hzero : n = 0
  · rw [if_pos hzero, List.mem_singleton] at hd
    omega
  · rw [if_neg hzero, List.mem_reverse] at hd
    exact Nat.digits_lt_base hb hd

theorem value_numeral (b n : Nat) : value b (numeral b n) = n := by
  unfold numeral
  by_cases hzero : n = 0
  · rw [if_pos hzero, hzero]
    exact value_of_zeros (by simp)
  · rw [if_neg hzero, value, List.reverse_reverse, Nat.ofDigits_digits]

theorem length_numeral_le (hb : 1 < b) (hk : 0 < k) : (numeral b n).length ≤ k ↔ n < b ^ k := by
  unfold numeral
  by_cases hzero : n = 0
  · rw [if_pos hzero, hzero]
    exact ⟨fun _ => Nat.pow_pos (by omega), fun _ => hk⟩
  · rw [if_neg hzero, List.length_reverse]
    exact Nat.digits_length_le_iff hb n

@[simp] theorem length_lastDigits (b k n : Nat) : (lastDigits b k n).length = k := by
  induction k generalizing n with
  | zero => rfl
  | succ k ih => rw [lastDigits, List.length_append, ih, List.length_singleton]

theorem lastDigits_lt (hb : 0 < b) : ∀ d ∈ lastDigits b k n, d < b := by
  induction k generalizing n with
  | zero => simp [lastDigits]
  | succ k ih =>
      intro d hd
      rw [lastDigits, List.mem_append, List.mem_singleton] at hd
      rcases hd with hd | rfl
      · exact ih d hd
      · exact Nat.mod_lt n hb

theorem value_lastDigits (b k n : Nat) : value b (lastDigits b k n) = n % b ^ k := by
  induction k generalizing n with
  | zero => simp [lastDigits, Nat.mod_one]
  | succ k ih => rw [lastDigits, value_concat, ih, Nat.pow_succ', Nat.mod_mul, Nat.add_comm]

/-- A numeral of more digits ends with the last ones. -/
theorem numeral_eq_append (hb : 1 < b) (h : b ^ k ≤ n) :
    numeral b n = numeral b (n / b ^ k) ++ lastDigits b k n := by
  induction k generalizing n with
  | zero => simp [lastDigits]
  | succ k ih =>
      have hpos : 0 < b ^ k := Nat.pow_pos (by omega)
      have hle : b ≤ n := by
        calc
          b = b * 1 := (Nat.mul_one b).symm
          _ ≤ b * b ^ k := Nat.mul_le_mul_left b hpos
          _ = b ^ (k + 1) := (Nat.pow_succ' ..).symm
          _ ≤ n := h
      have hdiv : b ^ k ≤ n / b := by
        rw [Nat.le_div_iff_mul_le (by omega), ← Nat.pow_succ]
        exact h
      rw [numeral_of_le hb hle, ih hdiv, lastDigits, Nat.div_div_eq_div_mul, Nat.pow_succ', List.append_assoc]

/-- A numeral of fewer digits is the last ones behind the zeros. -/
theorem lastDigits_eq_append (hb : 1 < b) (h : (numeral b n).length ≤ k) :
    lastDigits b k n = List.replicate (k - (numeral b n).length) 0 ++ numeral b n := by
  have hpos : 0 < k := Nat.lt_of_lt_of_le (List.length_pos_iff.mpr (numeral_ne_nil b n)) h
  have hlt := (length_numeral_le hb hpos).mp h
  apply value_injective hb
  · rw [length_lastDigits, List.length_append, List.length_replicate, Nat.sub_add_cancel h]
  · exact lastDigits_lt (by omega)
  · intro d hd
    rcases List.mem_append.mp hd with hd | hd
    · rw [List.eq_of_mem_replicate hd]
      omega
    · exact numeral_lt hb d hd
  · rw [value_lastDigits, value_append, value_replicate_zero, Nat.zero_mul, Nat.zero_add, value_numeral,
      Nat.mod_eq_of_lt hlt]

end Numeral

end PositionalNumeral
