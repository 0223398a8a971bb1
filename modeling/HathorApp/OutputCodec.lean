import HathorApp.ByteNumeral
import HathorApp.TxStream

/-!
An output as `doc/TRANSACTION.md` has it: its value in four bytes, or the negative of its value in eight, the token
byte, and a P2PKH script behind its length. `parse_output` reads it back whatever follows, asks for more
within it, and accepts nothing else.
-/

namespace HathorApp

/-- The parts of a serialized output. The long form holds the negative of a value, the short one a value without its
highest bit. -/
structure SerializedOutput where
  long : Bool
  value : Nat
  tokenData : UInt8
  pubkeyHash : Bytes
  value_fits : if long then 1 ≤ value ∧ value ≤ 2 ^ 63 else value < 2 ^ 31
  length_hash : pubkeyHash.length = pubkeyHashLen

def p2pkhScript (pubkeyHash : Bytes) : Bytes :=
  [opDup, opHash160, UInt8.ofNat pubkeyHashLen] ++ pubkeyHash ++ [opEqualverify, opChecksig]

namespace SerializedOutput

/-- The value, or the two's complement of its negative. -/
def serializeValue (o : SerializedOutput) : Bytes :=
  if o.long then bytesBe 8 (-(BitVec.ofNat 64 o.value)).toNat else bytesBe 4 o.value

def serialize (o : SerializedOutput) : Bytes :=
  o.serializeValue ++ [o.tokenData] ++ bytesBe 2 25 ++ p2pkhScript o.pubkeyHash

/-- The output it stands for. -/
def output (o : SerializedOutput) : TxOutput := ⟨0, o.value, o.tokenData.toNat, o.pubkeyHash⟩

theorem length_serializeValue (o : SerializedOutput) : o.serializeValue.length = if o.long then 8 else 4 := by
  unfold serializeValue
  cases o.long <;> simp

theorem length_serialize (o : SerializedOutput) : o.serialize.length = if o.long then 36 else 32 := by
  have hhash : o.pubkeyHash.length = 20 := o.length_hash
  simp only [serialize, p2pkhScript, List.length_append, length_bytesBe, length_serializeValue, hhash, List.length_cons,
    List.length_nil]
  cases o.long <;> rfl

end SerializedOutput

/-- The first bit of the first byte is the highest one of the number of the first bytes. -/
theorem flag_iff {input : Bytes} {k : Nat} (hk : 0 < k) (h : k ≤ input.length) :
    byteAt input 0 &&& 0x80 ≠ 0 ↔ 128 * 256 ^ (k - 1) ≤ byteValue (input.take k) := by
  have hbit : ∀ c < 256, c &&& 0x80 ≠ 0 ↔ 128 ≤ c := by decide +kernel
  obtain ⟨c, rest, rfl⟩ := List.exists_cons_of_ne_nil (List.length_pos_iff.mp (Nat.lt_of_lt_of_le hk h))
  obtain ⟨j, rfl⟩ : ∃ j, k = j + 1 := ⟨k - 1, by omega⟩
  have hfirst : byteAt (c :: rest) 0 = c.toNat := rfl
  have hlength : (rest.take j).length = j := by
    apply List.length_take_of_le
    simpa using h
  have hrest := byteValue_lt (rest.take j)
  rw [hfirst, hbit c.toNat c.toNat_lt, List.take_succ_cons, byteValue_cons, hlength, Nat.add_sub_cancel]
  rw [hlength] at hrest
  constructor
  · intro hc
    calc
      128 * 256 ^ j ≤ c.toNat * 256 ^ j := Nat.mul_le_mul_right _ hc
      _ ≤ c.toNat * 256 ^ j + byteValue (rest.take j) := Nat.le_add_right _ _
  · intro hle
    by_contra hc
    have hsucc : (c.toNat + 1) * 256 ^ j ≤ 128 * 256 ^ j := Nat.mul_le_mul_right _ (by omega)
    rw [Nat.add_mul, Nat.one_mul] at hsucc
    omega

theorem take_bytesBe (k n : Nat) (r : Bytes) : (bytesBe k n ++ r).take k = bytesBe k n :=
  List.take_left' (length_bytesBe k n)

theorem outputValue_long {n : Nat} (hlow : 2 ^ 63 ≤ n) (hhigh : n < 2 ^ 64) (r : Bytes) :
    outputValueLen (bytesBe 8 n ++ r) = 8 ∧ outputValue (bytesBe 8 n ++ r) = 2 ^ 64 - n := by
  have hnumber : byteValue (bytesBe 8 n) = n := byteValue_bytesBe (by simpa using hhigh)
  have hflag : byteAt (bytesBe 8 n ++ r) 0 &&& 0x80 ≠ 0 := by
    rw [@flag_iff _ 8 (by decide) (by simp), take_bytesBe, hnumber]
    simpa using hlow
  have hread : readU64Be (bytesBe 8 n ++ r) 0 = n := by
    rw [readU64Be_eq (by simp), List.drop_zero, take_bytesBe, hnumber]
  constructor
  · exact if_pos hflag
  · rw [outputValue, if_pos hflag, hread]
    exact Nat.mod_eq_of_lt (by omega)

theorem outputValue_short {n : Nat} (hn : n < 2 ^ 31) (r : Bytes) :
    outputValueLen (bytesBe 4 n ++ r) = 4 ∧ outputValue (bytesBe 4 n ++ r) = n := by
  have hnumber : byteValue (bytesBe 4 n) = n := byteValue_bytesBe (by omega)
  have hflag : ¬byteAt (bytesBe 4 n ++ r) 0 &&& 0x80 ≠ 0 := by
    rw [@flag_iff _ 4 (by decide) (by simp), take_bytesBe, hnumber]
    simpa using hn
  have hread : readU32Be (bytesBe 4 n ++ r) 0 = n := by
    rw [readU32Be_eq (by simp), List.drop_zero, take_bytesBe, hnumber]
  constructor
  · exact if_neg hflag
  · rw [outputValue, if_neg hflag, hread]

/-- The value is read back, and its form with it. -/
theorem outputValue_serializeValue (o : SerializedOutput) (r : Bytes) :
    outputValueLen (o.serializeValue ++ r) = o.serializeValue.length ∧ outputValue (o.serializeValue ++ r) = o.value := by
  have hfits := o.value_fits
  unfold SerializedOutput.serializeValue
  by_cases hform : o.long
  · rw [if_pos hform] at hfits
    have hnegative : (-(BitVec.ofNat 64 o.value)).toNat = 2 ^ 64 - o.value := by
      rw [BitVec.toNat_neg, BitVec.toNat_ofNat]
      omega
    obtain ⟨hlen, hvalue⟩ := outputValue_long (n := 2 ^ 64 - o.value) (by omega) (by omega) r
    rw [if_pos hform, hnegative, length_bytesBe, hlen, hvalue]
    refine ⟨rfl, ?_⟩
    omega
  · rw [if_neg hform] at hfits
    obtain ⟨hlen, hvalue⟩ := outputValue_short hfits r
    rw [if_neg hform, length_bytesBe]
    exact ⟨hlen, hvalue⟩

/-- Every value is in one of the two forms. -/
theorem exists_serializeValue {input : Bytes} (h : outputValueLen input ≤ input.length) :
    ∃ long : Bool, (if long then 1 ≤ outputValue input ∧ outputValue input ≤ 2 ^ 63 else outputValue input < 2 ^ 31) ∧
      input.take (outputValueLen input) =
        if long then bytesBe 8 (-(BitVec.ofNat 64 (outputValue input))).toNat else bytesBe 4 (outputValue input) := by
  have hbytes := bytesBe_byteValue (input.take (outputValueLen input))
  have hhigh := byteValue_lt (input.take (outputValueLen input))
  rw [List.length_take_of_le h] at hbytes hhigh
  by_cases hflag : byteAt input 0 &&& 0x80 ≠ 0
  · have hlen : outputValueLen input = 8 := if_pos hflag
    rw [hlen] at h hbytes hhigh ⊢
    have hvalue : outputValue input = 2 ^ 64 - byteValue (input.take 8) := by
      have hlow := (@flag_iff _ 8 (by decide) h).mp hflag
      norm_num at hlow
      rw [outputValue, if_pos hflag, readU64Be_eq (by omega), List.drop_zero]
      exact Nat.mod_eq_of_lt (by omega)
    have hlow := (@flag_iff _ 8 (by decide) h).mp hflag
    norm_num at hlow hhigh
    have hnegative : (-(BitVec.ofNat 64 (outputValue input))).toNat = byteValue (input.take 8) := by
      rw [hvalue, BitVec.toNat_neg, BitVec.toNat_ofNat]
      omega
    refine ⟨true, ?_, ?_⟩
    · rw [if_pos rfl, hvalue]
      omega
    · rw [if_pos rfl, hnegative, hbytes]
  · have hlen : outputValueLen input = 4 := if_neg hflag
    rw [hlen] at h hbytes hhigh ⊢
    have hvalue : outputValue input = byteValue (input.take 4) := by
      rw [outputValue, if_neg hflag, readU32Be_eq (by omega), List.drop_zero]
    have hlow : ¬128 * 256 ^ (4 - 1) ≤ byteValue (input.take 4) := fun hle =>
      hflag ((@flag_iff _ 4 (by decide) h).mpr hle)
    refine ⟨false, ?_, ?_⟩
    · simpa [hvalue] using hlow
    · simpa [hvalue] using hbytes.symm

section Layout

variable {input : Bytes} {k : Nat}

/-- What the fixed positions behind a value hold. -/
theorem layout_of_eq {head hash r : Bytes} {t : UInt8} (hhead : head.length = k) (hhash : hash.length = pubkeyHashLen)
    (hinput : input = head ++ [t] ++ bytesBe 2 25 ++ p2pkhScript hash ++ r) :
    byteAt input k = t.toNat ∧ readU16Be input (k + 1) = 25 ∧ IsP2pkh input (k + 3) ∧
      (input.drop (k + 6)).take pubkeyHashLen = hash := by
  have hlength : hash.length = 20 := hhash
  have hdrop : ∀ i n, input.drop (i + n) = (input.drop i).drop n := fun _ _ => List.drop_drop.symm
  have htoken : input.drop k = t :: (bytesBe 2 25 ++ p2pkhScript hash ++ r) := by
    rw [hinput]
    simp only [List.append_assoc]
    exact List.drop_left' hhead
  have hscriptLen : input.drop (k + 1) = bytesBe 2 25 ++ p2pkhScript hash ++ r := by
    rw [hdrop k 1, htoken]
    rfl
  have hscript : input.drop (k + 3) = p2pkhScript hash ++ r := by
    rw [hdrop (k + 1) 2, hscriptLen, List.append_assoc]
    exact List.drop_left' (length_bytesBe 2 25)
  have hafter : input.drop (k + 6) = hash ++ ([opEqualverify, opChecksig] ++ r) := by
    rw [hdrop (k + 3) 3, hscript]
    simp [p2pkhScript]
  have hend : input.drop (k + 26) = [opEqualverify, opChecksig] ++ r := by
    rw [hdrop (k + 6) 20, hafter]
    exact List.drop_left' hlength
  have hroom : k + 1 + 2 ≤ input.length := by
    rw [hinput]
    simp [hhead]
    omega
  refine ⟨?_, ?_, ⟨?_, ?_⟩, ?_⟩
  · have hfirst : (input.drop k).head? = some t := by rw [htoken]; rfl
    rw [List.head?_drop] at hfirst
    rw [byteAt, List.getD_eq_getElem?_getD, hfirst]
    rfl
  · rw [readU16Be_eq hroom, hscriptLen, List.append_assoc, take_bytesBe]
    exact byteValue_bytesBe (by decide)
  · rw [hscript]
    rfl
  · rw [Nat.add_assoc, hend]
    rfl
  · rw [hafter]
    exact List.take_left' hhash

/-- An input with the fixed bytes behind its value is a value, a byte, the length of a script and the script. -/
theorem eq_of_layout (hroom : k + 28 ≤ input.length) (hlen : readU16Be input (k + 1) = 25) (hscript : IsP2pkh input (k + 3)) :
    input = input.take k ++ [input.getD k 0] ++ bytesBe 2 25 ++
      p2pkhScript ((input.drop (k + 6)).take pubkeyHashLen) ++ input.drop (k + 28) := by
  have hsplit : ∀ i n, input.drop i = (input.drop i).take n ++ input.drop (i + n) := by
    intro i n
    rw [← List.drop_drop, List.take_append_drop]
  have htoken : (input.drop k).take 1 = [input.getD k 0] := by
    rw [List.take_one, List.head?_drop, List.getD_eq_getElem?_getD, List.getElem?_eq_getElem (by omega)]
    rfl
  have hlength : (input.drop (k + 1)).take 2 = bytesBe 2 25 := by
    have hbytes := bytesBe_byteValue ((input.drop (k + 1)).take 2)
    rw [readU16Be_eq (by omega)] at hlen
    rw [hlen, List.length_take_of_le (by rw [List.length_drop]; omega)] at hbytes
    exact hbytes.symm
  obtain ⟨hfirst, hlast⟩ := hscript
  conv_lhs => rw [← List.take_append_drop k input, hsplit k 1, htoken, hsplit (k + 1) 2, hlength, hsplit (k + 1 + 2) 3, hfirst,
    hsplit (k + 1 + 2 + 3) 20, hsplit (k + 1 + 2 + 3 + 20) 2, hlast]
  simp [p2pkhScript, pubkeyHashLen]

end Layout

/-- `parse_output` with the arguments of the source: the input is the first `inlen` bytes of those at `in`. The first
byte is read whatever their number. -/
def parseOutputIn (ptr : Bytes) (inlen : Nat) : Except Nat (TxOutput × Nat) :=
  match parseOutputValue ⟨ptr, inlen, 0⟩ with
  | .error e => .error e
  | .ok (value, buf) =>
    match bufferReadU8 buf with
    | (false, _, _) => .error txStateReady
    | (true, tokenData, buf) =>
      match bufferReadU16 buf .be with
      | (false, _, _) => .error txStateReady
      | (true, scriptLen, buf) =>
        match validateP2pkhScript buf scriptLen with
        | .error e => .error e
        | .ok () =>
          let pubkeyHash := (buf.ptr.drop (buf.offset + 3)).take pubkeyHashLen
          match bufferSeekCur buf scriptLen with
          | (false, _) => .error swTxParsingFail
          | (true, buf) => .ok (⟨0, value, tokenData, pubkeyHash⟩, buf.offset)

/-- A buffer over an input with other bytes behind it. -/
def Buffer.over (input stale : Bytes) (offset : Nat) : Buffer := ⟨input ++ stale, input.length, offset⟩

section Over

variable {input stale : Bytes} {offset : Nat}

theorem bufferSeekCur_over {n : Nat} (hn : offset + n < 2 ^ 32) (hle : offset + n ≤ input.length) :
    bufferSeekCur (.over input stale offset) n = (true, .over input stale (offset + n)) := by
  apply if_neg
  simp [Buffer.over]
  omega

/-- A read of bytes of the input, as if nothing was behind it. -/
theorem bufferRead_over {α : Type} {n : Nat} (hpos : 0 < n) (hn : offset + n < 2 ^ 32) (none value : α) {read : α}
    (hread : offset + n ≤ input.length → read = value) :
    (if !bufferCanRead (.over input stale offset) n then (false, none, Buffer.over input stale offset)
      else (true, read, (bufferSeekCur (.over input stale offset) n).2)) =
      if input.length < offset + n then (false, none, .over input stale offset)
      else (true, value, .over input stale (offset + n)) := by
  have hcan : bufferCanRead (.over input stale offset) n = decide (n ≤ input.length - offset) := rfl
  by_cases h : input.length < offset + n
  · rw [if_pos h, hcan, if_pos (by simp; omega)]
  · rw [if_neg h, hcan, if_neg (by simp; omega), bufferSeekCur_over hn (by omega), hread (by omega)]

theorem bufferReadU8_over (hn : offset + 1 < 2 ^ 32) :
    bufferReadU8 (.over input stale offset) =
      if input.length < offset + 1 then (false, 0, .over input stale offset)
      else (true, byteAt input offset, .over input stale (offset + 1)) :=
  bufferRead_over (by decide) hn _ _ byteAt_append_left

theorem bufferReadU16_over (hn : offset + 2 < 2 ^ 32) :
    bufferReadU16 (.over input stale offset) .be =
      if input.length < offset + 2 then (false, 0, .over input stale offset)
      else (true, readU16Be input offset, .over input stale (offset + 2)) :=
  bufferRead_over (by decide) hn _ _ (readU16Be_append stale)

theorem bufferReadU32_over (hn : offset + 4 < 2 ^ 32) :
    bufferReadU32 (.over input stale offset) .be =
      if input.length < offset + 4 then (false, 0, .over input stale offset)
      else (true, readU32Be input offset, .over input stale (offset + 4)) := by
  apply bufferRead_over (by decide) hn
  intro h
  have hlonger : offset + 4 ≤ (input ++ stale).length := by
    rw [List.length_append]
    omega
  exact (readU32Be_eq hlonger).trans (by rw [take_drop_append stale h, readU32Be_eq h])

theorem bufferReadU64_over (hn : offset + 8 < 2 ^ 32) :
    bufferReadU64 (.over input stale offset) .be =
      if input.length < offset + 8 then (false, 0, .over input stale offset)
      else (true, readU64Be input offset, .over input stale (offset + 8)) := by
  apply bufferRead_over (by decide) hn
  intro h
  have hlonger : offset + 8 ≤ (input ++ stale).length := by
    rw [List.length_append]
    omega
  exact (readU64Be_eq hlonger).trans (by rw [take_drop_append stale h, readU64Be_eq h])

theorem validateP2pkhScript_over (scriptLen : Nat) :
    validateP2pkhScript (.over input stale offset) scriptLen = validateP2pkhScript (.at input offset) scriptLen := by
  by_cases hroom : input.length - offset < 25
  · unfold validateP2pkhScript Buffer.over Buffer.at
    simp only [hroom, if_true]
  · have hscript : IsP2pkh (input ++ stale) offset ↔ IsP2pkh input offset := isP2pkh_append stale (by omega)
    have hoffset : offset + pubkeyHashLen + 3 = offset + 23 := rfl
    unfold IsP2pkh at hscript
    simp only [validateP2pkhScript, Buffer.over, Buffer.at, hoffset, ← not_and_or, hscript, ne_eq]

/-- The value of an empty input is asked for, whichever form the byte there announces. -/
theorem parseOutputValue_over :
    parseOutputValue (.over input stale 0) =
      if input.length < outputValueLen input then .error txStateReady
      else .ok (outputValue input, .over input stale (outputValueLen input)) := by
  rw [parseOutputValue, bufferReadU64_over (by decide), bufferReadU32_over (by decide)]
  by_cases hempty : input = []
  · subst hempty
    split <;> rfl
  · have hflag : byteAt (Buffer.over input stale 0).ptr 0 = byteAt input 0 :=
      byteAt_append_left (List.length_pos_iff.mpr hempty)
    rw [hflag, outputValueLen, outputValue]
    by_cases h : byteAt input 0 &&& 0x80 ≠ 0
    · by_cases hlen : input.length < 8 <;> simp [h, hlen]
    · by_cases hlen : input.length < 4 <;> simp [h, hlen]

/-- What is behind the input makes no difference. -/
theorem parseOutputIn_eq (input stale : Bytes) : parseOutputIn (input ++ stale) input.length = parseOutput input := by
  have hn := outputValueLen_cases input
  have hstart : (⟨input ++ stale, input.length, 0⟩ : Buffer) = .over input stale 0 := rfl
  unfold parseOutputIn parseOutput
  rw [hstart, parseOutputValue_over, parseOutputValue_eq]
  generalize outputValueLen input = n at hn ⊢
  have htoken : n + 1 < 2 ^ 32 := by omega
  have hlength : n + 1 + 2 < 2 ^ 32 := by omega
  by_cases h0 : input.length < n
  · simp only [h0, if_true]
  · simp only [h0, if_false, bufferReadU8_over htoken, bufferReadU8_at htoken]
    by_cases h1 : input.length < n + 1
    · simp only [h1, if_true]
    · simp only [h1, if_false, bufferReadU16_over hlength, bufferReadU16_at hlength]
      by_cases h3 : input.length < n + 1 + 2
      · simp only [h3, if_true]
      · simp only [h3, if_false, validateP2pkhScript_over, validateP2pkhScript_at]
        by_cases hlen : readU16Be input (n + 1) = 25
        · by_cases hroom : input.length < n + 1 + 2 + 25
          · simp only [hlen, hroom, ne_eq, not_true_eq_false, if_true, if_false]
          · have hseek : bufferSeekCur (.over input stale (n + 1 + 2)) 25 = _ := bufferSeekCur_over (by omega) (by omega)
            have hseek' : bufferSeekCur (.at input (n + 1 + 2)) 25 = _ := bufferSeekCur_at (by omega) (by omega)
            have hhash : ((input ++ stale).drop (n + 1 + 2 + 3)).take pubkeyHashLen =
                (input.drop (n + 1 + 2 + 3)).take pubkeyHashLen := take_drop_append stale (by unfold pubkeyHashLen; omega)
            by_cases hp : IsP2pkh input (n + 1 + 2)
            · simp only [hlen, hroom, hp, hseek, hseek', ne_eq, not_true_eq_false, if_false]
              simp only [Buffer.over, Buffer.at, hhash]
            · simp only [hlen, hroom, hp, ne_eq, not_true_eq_false, not_false_eq_true, if_true, if_false]
        · simp only [hlen, ne_eq, not_false_eq_true, if_true]

end Over

/-- A serialized output is parsed, whatever follows it. -/
theorem parseOutput_serialize (o : SerializedOutput) (r : Bytes) :
    parseOutput (o.serialize ++ r) = .ok (o.output, o.serialize.length) := by
  have hinput : o.serialize ++ r = o.serializeValue ++ [o.tokenData] ++ bytesBe 2 25 ++ p2pkhScript o.pubkeyHash ++ r := rfl
  obtain ⟨htoken, hlen, hscript, hhash⟩ := layout_of_eq rfl o.length_hash hinput
  obtain ⟨hvalueLen, hvalue⟩ := outputValue_serializeValue o ([o.tokenData] ++ bytesBe 2 25 ++ p2pkhScript o.pubkeyHash ++ r)
  have hassoc : o.serializeValue ++ ([o.tokenData] ++ bytesBe 2 25 ++ p2pkhScript o.pubkeyHash ++ r) = o.serialize ++ r := by
    rw [hinput]
    simp only [List.append_assoc]
  rw [hassoc] at hvalueLen hvalue
  have hwhole : o.serialize.length = outputLen (o.serialize ++ r) := by
    rw [outputLen, hvalueLen, o.length_serialize, o.length_serializeValue]
    cases o.long <;> rfl
  have hroom : outputLen (o.serialize ++ r) ≤ (o.serialize ++ r).length := by
    rw [← hwhole, List.length_append]
    exact Nat.le_add_right _ _
  have hdef : outputLen (o.serialize ++ r) = o.serializeValue.length + 28 := by rw [outputLen, hvalueLen]
  rw [parseOutput_eq, hvalueLen, if_neg (by omega), hlen, if_neg (by decide), if_neg (by omega), if_neg (not_not.mpr hscript),
    ← hwhole, outputAt, hvalue, hvalueLen, htoken, hhash]
  rfl

/-- What is accepted starts with the serialization of what is returned. -/
theorem exists_serialize {input : Bytes} {output : TxOutput} {n : Nat} (h : parseOutput input = .ok (output, n)) :
    ∃ (o : SerializedOutput) (r : Bytes), input = o.serialize ++ r ∧ output = o.output ∧ n = o.serialize.length := by
  obtain ⟨rfl, rfl, hle, hlen, hscript⟩ := parseOutput_ok h
  have hroom : outputValueLen input + 28 ≤ input.length := hle
  rcases exists_serializeValue (Nat.le_trans (Nat.le_add_right _ 28) hroom) with ⟨long, hfits, hvalue⟩
  have hhash : ((input.drop (outputValueLen input + 6)).take pubkeyHashLen).length = pubkeyHashLen := by
    apply List.length_take_of_le
    rw [List.length_drop]
    unfold pubkeyHashLen
    omega
  have hsplit := eq_of_layout hroom hlen hscript
  rw [hvalue] at hsplit
  have hwhole : ∀ o : SerializedOutput, input = o.serialize ++ input.drop (outputValueLen input + 28) →
      outputLen input = o.serialize.length := by
    intro o ho
    have hlength := congrArg List.length ho
    rw [List.length_append, List.length_drop] at hlength
    unfold outputLen
    omega
  exact ⟨⟨long, outputValue input, input.getD (outputValueLen input) 0, _, hfits, hhash⟩, _, hsplit, rfl, hwhole _ hsplit⟩

/-- `parse_output` and the serialization are inverse to one another. A proper prefix is asked to be completed, and
a refusal is final. -/
theorem parseOutput_codec :
    (∀ (o : SerializedOutput) (r stale : Bytes),
      parseOutputIn (o.serialize ++ r ++ stale) (o.serialize ++ r).length = .ok (o.output, if o.long then 36 else 32) ∧
        o.serialize.length = if o.long then 36 else 32) ∧
    (∀ (o : SerializedOutput) (p rest stale : Bytes), o.serialize = p ++ rest → rest ≠ [] →
      parseOutputIn (p ++ stale) p.length = .error txStateReady) ∧
    (∀ (input stale : Bytes) (output : TxOutput) (n : Nat), parseOutputIn (input ++ stale) input.length = .ok (output, n) →
      ∃ (o : SerializedOutput) (r : Bytes), input = o.serialize ++ r ∧ output = o.output ∧ n = o.serialize.length) ∧
    ∀ input stale : Bytes, parseOutputIn (input ++ stale) input.length = .error swTxParsingFail →
      ∀ later stale' : Bytes, parseOutputIn (input ++ later ++ stale') (input ++ later).length = .error swTxParsingFail := by
  refine ⟨fun o r stale => ?_, fun o p rest stale hsplit hrest => ?_, fun input stale output n hok => ?_,
    fun input stale herror later stale' => ?_⟩
  · rw [parseOutputIn_eq, parseOutput_serialize, o.length_serialize]
    exact ⟨rfl, rfl⟩
  · have hwhole := parseOutput_serialize o []
    rw [List.append_nil, hsplit] at hwhole
    rw [parseOutputIn_eq]
    cases hparse : parseOutput p with
    | error e =>
        obtain ⟨rfl, _⟩ | ⟨rfl, _⟩ := parseOutput_error hparse
        · rfl
        · rw [parseOutput_append_error rest hparse (by decide)] at hwhole
          cases hwhole
    | ok result =>
        obtain ⟨output, n⟩ := result
        obtain ⟨_, hn, hle, _⟩ := parseOutput_ok hparse
        rw [parseOutput_append_ok rest hparse] at hwhole
        have hlength : n = (p ++ rest).length := congrArg Prod.snd (Except.ok.inj hwhole)
        have hpos := List.length_pos_iff.mpr hrest
        rw [List.length_append] at hlength
        omega
  · rw [parseOutputIn_eq] at hok
    exact exists_serialize hok
  · rw [parseOutputIn_eq] at herror ⊢
    exact parseOutput_append_error later herror (by decide)

/-- The largest value, cut after ten bytes, whole, and with a script that is none. -/
theorem parseOutput_codec_max :
    let o : SerializedOutput := ⟨true, 2 ^ 63, 1, List.replicate 20 7, by decide, rfl⟩
    let bad : Bytes := [0, 0, 0, 1, 0, 0, 24]
    parseOutputIn (o.serialize ++ [5] ++ [9, 9]) 37 = .ok (o.output, 36) ∧
      parseOutputIn (o.serialize.take 10 ++ [9, 9]) 10 = .error txStateReady ∧
      (∃ (o' : SerializedOutput) (r : Bytes), o.serialize ++ [5] = o'.serialize ++ r ∧ o.output = o'.output) ∧
      parseOutputIn (bad ++ [5] ++ []) 8 = .error swTxParsingFail := by
  intro o bad
  obtain ⟨hparse, hprefix, haccepted, hrefused⟩ := parseOutput_codec
  have hwhole : (o.serialize ++ [5]).length = 37 := by decide +kernel
  have hcut : (o.serialize.take 10).length = 10 := by decide +kernel
  have hok := (hparse o [5] [9, 9]).1
  have hbad : parseOutputIn (bad ++ [9]) bad.length = .error swTxParsingFail := by decide +kernel
  have hrest : o.serialize.drop 10 ≠ [] := by decide +kernel
  have hpending := hprefix o _ _ [9, 9] (List.take_append_drop 10 o.serialize).symm hrest
  rcases haccepted _ _ _ _ hok with ⟨o', r, hinput, houtput, _⟩
  rw [hwhole] at hok
  rw [hcut] at hpending
  exact ⟨hok, hpending, ⟨o', r, hinput, houtput⟩, hrefused bad [9] hbad [5] []⟩

end HathorApp
