import HathorApp.StreamDecoder
import HathorApp.Transaction

/-!
A transaction as a stream of elements: token UIDs, inputs and outputs. `txMachine` says what the
decoder makes of the bytes at hand and which verdicts are final, with no buffer, no cursors and no
limit on how the bytes arrive.
-/

namespace HathorApp

open StreamDecoder

/-- The first bit of the first byte tells the length of the value. -/
def outputValueLen (input : Bytes) : Nat := if byteAt input 0 &&& 0x80 ≠ 0 then 8 else 4

def outputValue (input : Bytes) : Nat :=
  if byteAt input 0 &&& 0x80 ≠ 0 then (2 ^ 64 - readU64Be input 0) % 2 ^ 64 else readU32Be input 0

/-- The length of a complete output: the value, a token byte, a script length and the script. -/
def outputLen (input : Bytes) : Nat := outputValueLen input + 28

/-- The five fixed bytes of a P2PKH script at an offset. -/
def IsP2pkh (input : Bytes) (offset : Nat) : Prop :=
  (input.drop offset).take 3 = [opDup, opHash160, UInt8.ofNat pubkeyHashLen] ∧
    (input.drop (offset + 23)).take 2 = [opEqualverify, opChecksig]

instance (input : Bytes) (offset : Nat) : Decidable (IsP2pkh input offset) := by
  unfold IsP2pkh
  infer_instance

/-- The output at the start of the input. -/
def outputAt (input : Bytes) : TxOutput :=
  ⟨0, outputValue input, byteAt input (outputValueLen input),
    (input.drop (outputValueLen input + 6)).take pubkeyHashLen⟩

theorem outputValueLen_cases (input : Bytes) : outputValueLen input = 4 ∨ outputValueLen input = 8 := by
  unfold outputValueLen
  by_cases h : byteAt input 0 &&& 0x80 ≠ 0
  · exact Or.inr (if_pos h)
  · exact Or.inl (if_neg h)

/-- The value reader asks for the bytes of the value and moves past them. -/
theorem parseOutputValue_eq (input : Bytes) :
    parseOutputValue (Buffer.ofData input) =
      if input.length < outputValueLen input then .error txStateReady
      else .ok (outputValue input, .at input (outputValueLen input)) := by
  rw [Buffer.ofData_eq, parseOutputValue, bufferReadU64_at (by decide), bufferReadU32_at (by decide),
    outputValueLen, outputValue]
  by_cases h : byteAt input 0 &&& 0x80 ≠ 0
  · by_cases hlen : input.length < 8 <;> simp [Buffer.at, h, hlen]
  · by_cases hlen : input.length < 4 <;> simp [Buffer.at, h, hlen]

theorem validateP2pkhScript_at (input : Bytes) (offset scriptLen : Nat) :
    validateP2pkhScript (.at input offset) scriptLen =
      if scriptLen ≠ 25 then .error swTxParsingFail
      else if input.length < offset + 25 then .error txStateReady
      else if ¬IsP2pkh input offset then .error swTxParsingFail
      else .ok () := by
  have hlen : (input.length - offset < 25) = (input.length < offset + 25) := propext (by omega)
  have hoffset : offset + pubkeyHashLen + 3 = offset + 23 := rfl
  simp only [validateP2pkhScript, Buffer.at, hlen, hoffset, IsP2pkh, not_and_or, ne_eq]

/-- The script length is judged as soon as it is read, the script once it is complete. -/
theorem parseOutput_eq (input : Bytes) :
    parseOutput input =
      if input.length < outputValueLen input + 3 then .error txStateReady
      else if readU16Be input (outputValueLen input + 1) ≠ 25 then .error swTxParsingFail
      else if input.length < outputLen input then .error txStateReady
      else if ¬IsP2pkh input (outputValueLen input + 3) then .error swTxParsingFail
      else .ok (outputAt input, outputLen input) := by
  have hn := outputValueLen_cases input
  unfold parseOutput outputLen outputAt
  rw [parseOutputValue_eq]
  generalize outputValueLen input = n at hn ⊢
  by_cases h0 : input.length < n
  · have h3 : input.length < n + 3 := by omega
    simp only [h0, h3, if_true]
  · simp only [h0, if_false, bufferReadU8_at (show n + 1 < 2 ^ 32 by omega)]
    by_cases h1 : input.length < n + 1
    · have h3 : input.length < n + 3 := by omega
      simp only [h1, h3, if_true]
    · simp only [h1, if_false, bufferReadU16_at (show n + 1 + 2 < 2 ^ 32 by omega)]
      by_cases h3 : input.length < n + 3
      · simp only [Nat.add_assoc, Nat.reduceAdd, h3, if_true]
      · simp only [Nat.add_assoc, Nat.reduceAdd, h3, if_false, validateP2pkhScript_at]
        by_cases hlen : readU16Be input (n + 1) = 25
        · by_cases h28 : input.length < n + 28
          · simp only [hlen, h28, ne_eq, not_true_eq_false, if_true, if_false]
          · have hseek : bufferSeekCur (.at input (n + 3)) 25 = _ := bufferSeekCur_at (by omega) (by omega)
            by_cases hp : IsP2pkh input (n + 3)
            · simp only [hlen, h28, hp, hseek, ne_eq, not_true_eq_false, if_false]
              rfl
            · simp only [hlen, h28, hp, ne_eq, not_true_eq_false, not_false_eq_true, if_true, if_false]
        · simp only [hlen, ne_eq, not_false_eq_true, if_true]

theorem outputLen_le (input : Bytes) : 32 ≤ outputLen input ∧ outputLen input ≤ 36 := by
  have hn := outputValueLen_cases input
  unfold outputLen
  omega

theorem parseOutput_ok {input : Bytes} {output : TxOutput} {n : Nat}
    (h : parseOutput input = .ok (output, n)) :
    output = outputAt input ∧ n = outputLen input ∧ outputLen input ≤ input.length ∧
      readU16Be input (outputValueLen input + 1) = 25 ∧ IsP2pkh input (outputValueLen input + 3) := by
  rw [parseOutput_eq] at h
  split at h
  · cases h
  · split at h
    · cases h
    · split at h
      · cases h
      · split at h
        · cases h
        · rename_i _ hlen hle hscript
          obtain ⟨rfl, rfl⟩ := Prod.mk.injEq .. ▸ Except.ok.inj h
          exact ⟨rfl, rfl, by omega, not_not.mp hlen, not_not.mp hscript⟩

/-- An output is asked to be completed or refused, nothing else. -/
theorem parseOutput_error {input : Bytes} {e : Nat} (h : parseOutput input = .error e) :
    e = txStateReady ∧ input.length < outputLen input ∨
      e = swTxParsingFail ∧ outputValueLen input + 3 ≤ input.length ∧
        (readU16Be input (outputValueLen input + 1) ≠ 25 ∨
          outputLen input ≤ input.length ∧ ¬IsP2pkh input (outputValueLen input + 3)) := by
  rw [parseOutput_eq] at h
  split at h
  · rename_i h3
    refine Or.inl ⟨(Except.error.inj h).symm, ?_⟩
    unfold outputLen
    omega
  · rename_i h3
    split at h
    · rename_i hlen
      exact Or.inr ⟨(Except.error.inj h).symm, by omega, Or.inl hlen⟩
    · split at h
      · rename_i h28
        exact Or.inl ⟨(Except.error.inj h).symm, h28⟩
      · split at h
        · rename_i h28 hscript
          exact Or.inr ⟨(Except.error.inj h).symm, by omega, Or.inr ⟨by omega, hscript⟩⟩
        · cases h

section Append

variable {input : Bytes} (later : Bytes)

theorem outputValueLen_append (h : input ≠ []) :
    outputValueLen (input ++ later) = outputValueLen input := by
  unfold outputValueLen
  rw [byteAt_append_left (List.length_pos_iff.mpr h)]

theorem outputLen_append (h : input ≠ []) : outputLen (input ++ later) = outputLen input := by
  rw [outputLen, outputLen, outputValueLen_append later h]

theorem readU16Be_append {offset : Nat} (h : offset + 1 < input.length) :
    readU16Be (input ++ later) offset = readU16Be input offset := by
  unfold readU16Be
  rw [byteAt_append_left (by omega), byteAt_append_left h]

theorem take_drop_append {offset n : Nat} (h : offset + n ≤ input.length) :
    ((input ++ later).drop offset).take n = (input.drop offset).take n := by
  rw [List.drop_append_of_le_length (by omega), List.take_append_of_le_length]
  rw [List.length_drop]
  omega

theorem isP2pkh_append {offset : Nat} (h : offset + 25 ≤ input.length) :
    IsP2pkh (input ++ later) offset ↔ IsP2pkh input offset := by
  unfold IsP2pkh
  rw [take_drop_append later (by omega), take_drop_append later (by omega)]

theorem outputAt_append (h : outputLen input ≤ input.length) :
    outputAt (input ++ later) = outputAt input := by
  have hlen := outputLen_le input
  have hn := outputValueLen_cases input
  have hne : input ≠ [] := List.length_pos_iff.mp (by omega)
  have hbytes : ∀ i, i < outputLen input → byteAt (input ++ later) i = byteAt input i :=
    fun i hi => byteAt_append_left (by omega)
  unfold outputLen at h hbytes
  unfold outputAt
  rw [outputValueLen_append later hne, hbytes _ (by omega),
    take_drop_append later (by unfold pubkeyHashLen; omega)]
  have hvalue : outputValue (input ++ later) = outputValue input := by
    unfold outputValue
    rw [hbytes 0 (by omega)]
    split
    · rename_i htop
      have h8 : outputValueLen input = 8 := if_pos htop
      simp only [readU64Be, Nat.zero_add]
      rw [hbytes 0 (by omega), hbytes 1 (by omega), hbytes 2 (by omega), hbytes 3 (by omega),
        hbytes 4 (by omega), hbytes 5 (by omega), hbytes 6 (by omega), hbytes 7 (by omega)]
    · simp only [readU32Be, Nat.zero_add]
      rw [hbytes 0 (by omega), hbytes 1 (by omega), hbytes 2 (by omega), hbytes 3 (by omega)]
  rw [hvalue]

/-- A complete output stays what it is whatever follows it. -/
theorem parseOutput_append_ok {output : TxOutput} {n : Nat} (h : parseOutput input = .ok (output, n)) :
    parseOutput (input ++ later) = .ok (output, n) := by
  obtain ⟨rfl, rfl, hle, hlen, hscript⟩ := parseOutput_ok h
  have hrange := outputLen_le input
  have hne : input ≠ [] := List.length_pos_iff.mp (by omega)
  have hdef : outputLen input = outputValueLen input + 28 := rfl
  have hlonger : ¬(input ++ later).length < outputLen input := by rw [List.length_append]; omega
  rw [parseOutput_eq, outputLen_append later hne, outputValueLen_append later hne,
    readU16Be_append later (by omega), outputAt_append later hle, if_neg (by omega),
    if_neg (not_not.mpr hlen), if_neg hlonger, if_neg]
  rw [isP2pkh_append later (by omega)]
  exact not_not.mpr hscript

/-- A refused output stays refused whatever follows it. -/
theorem parseOutput_append_error {e : Nat} (h : parseOutput input = .error e) (he : e ≠ txStateReady) :
    parseOutput (input ++ later) = .error e := by
  obtain ⟨rfl, _⟩ | ⟨rfl, h3, hbad⟩ := parseOutput_error h
  · exact absurd rfl he
  · have hne : input ≠ [] := List.length_pos_iff.mp (by omega)
    have hlonger : ¬(input ++ later).length < outputValueLen input + 3 := by
      rw [List.length_append]; omega
    rw [parseOutput_eq, outputLen_append later hne, outputValueLen_append later hne,
      readU16Be_append later (by omega), if_neg hlonger]
    obtain hlen | ⟨h28, hscript⟩ := hbad
    · rw [if_pos hlen]
    · by_cases hlen : readU16Be input (outputValueLen input + 1) = 25
      · have hdef : outputLen input = outputValueLen input + 28 := rfl
        have hlonger' : ¬(input ++ later).length < outputLen input := by rw [List.length_append]; omega
        rw [if_neg (not_not.mpr hlen), if_neg hlonger', if_pos]
        rwa [isP2pkh_append later (by omega)]
      · rw [if_pos hlen]

end Append

/-- What has been decoded of a transaction and what is still to come. -/
structure TxState where
  /-- The registry slots of the tokens. -/
  tokens : List Nat
  remainingTokens : Nat
  remainingInputs : Nat
  outputs : List TxOutput
  deriving DecidableEq, Repr

/-- Every change entry that names the output verifies. -/
def ChangeVerifies (verify : ChangeOutputInfo → TxOutput → Option Bool) (changes : List ChangeOutputInfo)
    (output : TxOutput) : Prop :=
  ∀ info ∈ changes, output.index = info.index → verify info output = some true

instance (verify : ChangeOutputInfo → TxOutput → Option Bool) (changes : List ChangeOutputInfo)
    (output : TxOutput) : Decidable (ChangeVerifies verify changes output) := by
  unfold ChangeVerifies
  infer_instance

section Machine

variable (verify : ChangeOutputInfo → TxOutput → Option Bool) (registry : TokenDataCtx)
  (changes : List ChangeOutputInfo) (outputsLen : Nat)

/-- What the bytes at hand say about the next element. -/
def nextElement (s : TxState) (l : Bytes) : Next TxState :=
  if s.remainingTokens > 0 then
    if l.length < tokenUidLen then .more
    else
      match findTokenRegistryIndex registry (l.take tokenUidLen) with
      | none => .fail
      | some slot =>
        .element { s with tokens := s.tokens ++ [slot], remainingTokens := s.remainingTokens - 1 } tokenUidLen
  else if s.remainingInputs > 0 then
    if l.length < txInputLen then .more
    else if readU16Be l 33 > 0 then .fail
    else .element { s with remainingInputs := s.remainingInputs - 1 } txInputLen
  else if s.outputs.length < outputsLen then
    match parseOutput l with
    | .error e => if e = txStateReady then .more else .fail
    | .ok (parsed, n) =>
      let output := { parsed with index := s.outputs.length }
      if output.tokenData &&& tokenDataAuthorityMask ≠ 0 ∨ output.tokenIndex > s.tokens.length ∨
          ¬ChangeVerifies verify changes output then .fail
      else .element { s with outputs := s.outputs ++ [output] } n
  else .fail

/-- The complete elements that are accepted, by their kind. -/
inductive Element (s : TxState) (l : Bytes) : TxState → Nat → Prop where
  | token {slot : Nat} (pending : 0 < s.remainingTokens) (complete : tokenUidLen ≤ l.length)
      (known : findTokenRegistryIndex registry (l.take tokenUidLen) = some slot) :
      Element s l { s with tokens := s.tokens ++ [slot], remainingTokens := s.remainingTokens - 1 } tokenUidLen
  | input (tokens : s.remainingTokens = 0) (pending : 0 < s.remainingInputs) (complete : txInputLen ≤ l.length)
      (noData : readU16Be l 33 = 0) :
      Element s l { s with remainingInputs := s.remainingInputs - 1 } txInputLen
  | output {parsed output : TxOutput} {n : Nat} (tokens : s.remainingTokens = 0)
      (inputs : s.remainingInputs = 0) (pending : s.outputs.length < outputsLen)
      (complete : parseOutput l = .ok (parsed, n)) (index : output = { parsed with index := s.outputs.length })
      (noAuthority : output.tokenData &&& tokenDataAuthorityMask = 0)
      (inTable : output.tokenIndex ≤ s.tokens.length) (verifies : ChangeVerifies verify changes output) :
      Element s l { s with outputs := s.outputs ++ [output] } n

variable {verify registry changes outputsLen}

theorem nextElement_of_element {s s' : TxState} {l : Bytes} {n : Nat}
    (h : Element verify registry changes outputsLen s l s' n) :
    nextElement verify registry changes outputsLen s l = .element s' n := by
  unfold nextElement
  cases h with
  | token pending complete known => rw [if_pos pending, if_neg (by omega), known]
  | input tokens pending complete noData =>
      rw [if_neg (by omega), if_pos pending, if_neg (by omega), if_neg (by omega)]
  | output tokens inputs pending complete index noAuthority inTable verifies =>
      subst index
      rw [if_neg (by omega), if_neg (by omega), if_pos pending, complete]
      dsimp only
      rw [if_neg]
      rintro (h | h | h)
      · exact h noAuthority
      · omega
      · exact h verifies

theorem element_of_nextElement {s s' : TxState} {l : Bytes} {n : Nat}
    (h : nextElement verify registry changes outputsLen s l = .element s' n) :
    Element verify registry changes outputsLen s l s' n := by
  unfold nextElement at h
  split at h
  · rename_i pending
    split at h
    · cases h
    · rename_i complete
      cases known : findTokenRegistryIndex registry (l.take tokenUidLen) with
      | none => rw [known] at h; cases h
      | some slot =>
          rw [known] at h
          cases h
          exact .token pending (by omega) known
  · rename_i tokens
    split at h
    · rename_i pending
      split at h
      · cases h
      · rename_i complete
        split at h
        · cases h
        · rename_i noData
          cases h
          exact .input (by omega) pending (by omega) (by omega)
    · rename_i inputs
      split at h
      · rename_i pending
        cases complete : parseOutput l with
        | error e =>
            rw [complete] at h
            dsimp only at h
            split at h <;> cases h
        | ok result =>
            obtain ⟨parsed, m⟩ := result
            rw [complete] at h
            dsimp only at h
            split at h
            · cases h
            · rename_i accepted
              rw [not_or, not_or, not_not, not_not] at accepted
              cases h
              exact .output (by omega) (by omega) pending complete rfl accepted.1 (by omega) accepted.2.2
      · cases h

/-- An output that is complete and refused. -/
theorem nextElement_of_refused {s : TxState} {l : Bytes} {parsed output : TxOutput} {n : Nat}
    (tokens : s.remainingTokens = 0) (inputs : s.remainingInputs = 0)
    (pending : s.outputs.length < outputsLen) (complete : parseOutput l = .ok (parsed, n))
    (index : output = { parsed with index := s.outputs.length })
    (refused : output.tokenData &&& tokenDataAuthorityMask ≠ 0 ∨ output.tokenIndex > s.tokens.length ∨
      ¬ChangeVerifies verify changes output) :
    nextElement verify registry changes outputsLen s l = .fail := by
  subst index
  unfold nextElement
  rw [if_neg (by omega), if_neg (by omega), if_pos pending, complete]
  exact if_pos refused

/-- An element is waited for only while it can still be completed within its longest form. -/
theorem length_of_more {s : TxState} {l : Bytes}
    (h : nextElement verify registry changes outputsLen s l = .more) : l.length ≤ 35 := by
  unfold nextElement at h
  split at h
  · split at h
    · rename_i hlen
      unfold tokenUidLen at hlen
      omega
    · split at h <;> cases h
  · split at h
    · split at h
      · rename_i hlen
        unfold txInputLen at hlen
        omega
      · split at h <;> cases h
    · split at h
      · cases complete : parseOutput l with
        | error e =>
            rw [complete] at h
            dsimp only at h
            split at h
            · obtain ⟨_, hlen⟩ | ⟨rfl, _⟩ := parseOutput_error complete
              · have := outputLen_le l
                omega
              · rename_i he
                exact absurd he (by decide)
            · cases h
        | ok result =>
            rw [complete] at h
            dsimp only at h
            split at h <;> cases h
      · cases h

theorem Element.pos {s s' : TxState} {l : Bytes} {n : Nat}
    (h : Element verify registry changes outputsLen s l s' n) : 0 < n := by
  cases h with
  | token => decide
  | input => decide
  | output _ _ _ complete =>
      obtain ⟨_, rfl, _⟩ := parseOutput_ok complete
      have := outputLen_le l
      omega

theorem Element.le {s s' : TxState} {l : Bytes} {n : Nat}
    (h : Element verify registry changes outputsLen s l s' n) : n ≤ l.length := by
  cases h with
  | token _ complete => exact complete
  | input _ _ complete => exact complete
  | output _ _ _ complete =>
      obtain ⟨_, rfl, hle, _⟩ := parseOutput_ok complete
      exact hle

theorem Element.append {s s' : TxState} {l : Bytes} {n : Nat} (later : Bytes)
    (h : Element verify registry changes outputsLen s l s' n) :
    Element verify registry changes outputsLen s (l ++ later) s' n := by
  cases h with
  | token pending complete known =>
      refine .token pending (by rw [List.length_append]; omega) ?_
      rwa [List.take_append_of_le_length complete]
  | input tokens pending complete noData =>
      refine .input tokens pending (by rw [List.length_append]; omega) ?_
      rwa [readU16Be_append later (by unfold txInputLen at complete; omega)]
  | output tokens inputs pending complete index noAuthority inTable verifies =>
      exact .output tokens inputs pending (parseOutput_append_ok later complete) index noAuthority inTable
        verifies

/-- A token decoded is a token less to come. -/
theorem Element.tokens_add {s s' : TxState} {l : Bytes} {n : Nat}
    (h : Element verify registry changes outputsLen s l s' n) :
    s'.tokens.length + s'.remainingTokens = s.tokens.length + s.remainingTokens := by
  cases h with
  | token pending =>
      simp only [List.length_append, List.length_singleton]
      omega
  | input => rfl
  | output => rfl

/-- Outputs are only ever appended. -/
theorem Element.outputs_grow {s s' : TxState} {l : Bytes} {n : Nat}
    (h : Element verify registry changes outputsLen s l s' n) : s.outputs <+: s'.outputs := by
  cases h with
  | token => exact List.prefix_refl _
  | input => exact List.prefix_refl _
  | output => exact List.prefix_append _ _

/-- Every output takes 32 bytes at least. -/
theorem Element.room {s s' : TxState} {l : Bytes} {n : Nat}
    (h : Element verify registry changes outputsLen s l s' n) :
    32 * s'.outputs.length + (l.drop n).length ≤ 32 * s.outputs.length + l.length := by
  rw [List.length_drop]
  cases h with
  | token => dsimp only; omega
  | input => dsimp only; omega
  | output _ _ _ complete =>
      obtain ⟨_, rfl, hle, _⟩ := parseOutput_ok complete
      have := outputLen_le l
      rw [List.length_append, List.length_singleton]
      omega

theorem nextElement_append_fail {s : TxState} {l : Bytes} (later : Bytes)
    (h : nextElement verify registry changes outputsLen s l = .fail) :
    nextElement verify registry changes outputsLen s (l ++ later) = .fail := by
  have hlen : (l ++ later).length = l.length + later.length := List.length_append
  unfold nextElement at h ⊢
  split at h
  · rename_i pending
    rw [if_pos pending]
    split at h
    · cases h
    · rename_i complete
      rw [if_neg (by omega), List.take_append_of_le_length (by omega)]
      exact h
  · rename_i tokens
    rw [if_neg tokens]
    split at h
    · rename_i pending
      rw [if_pos pending]
      split at h
      · cases h
      · rename_i complete
        unfold txInputLen at complete ⊢
        rw [if_neg (by omega), readU16Be_append later (by omega)]
        exact h
    · rename_i inputs
      rw [if_neg inputs]
      split at h
      · rename_i pending
        rw [if_pos pending]
        cases complete : parseOutput l with
        | error e =>
            rw [complete] at h
            dsimp only at h
            split at h
            · cases h
            · rename_i he
              rw [parseOutput_append_error later complete he]
              exact if_neg he
        | ok result =>
            obtain ⟨parsed, n⟩ := result
            rw [complete] at h
            rw [parseOutput_append_ok later complete]
            exact h
      · rename_i done
        rw [if_neg done]

/-- Decoding a transaction, with verdicts that later bytes do not change. -/
def txMachine (verify : ChangeOutputInfo → TxOutput → Option Bool) (registry : TokenDataCtx)
    (changes : List ChangeOutputInfo) (outputsLen : Nat) : Machine TxState UInt8 where
  next := nextElement verify registry changes outputsLen
  pos h := (element_of_nextElement h).pos
  le h := (element_of_nextElement h).le
  element_append later h := nextElement_of_element ((element_of_nextElement h).append later)
  fail_append later h := nextElement_append_fail later h

@[simp] theorem txMachine_next (s : TxState) (l : Bytes) :
    (txMachine verify registry changes outputsLen).next s l =
      nextElement verify registry changes outputsLen s l := rfl

theorem run_outputs_grow {s s' : TxState} {l t : Bytes}
    (h : (txMachine verify registry changes outputsLen).run s l = .rest s' t) : s.outputs <+: s'.outputs :=
  Machine.run_invariant (P := fun s₁ _ => s.outputs <+: s₁.outputs)
    (fun _ _ _ _ hpre hnext => hpre.trans (element_of_nextElement hnext).outputs_grow)
    (List.prefix_refl _) h

theorem run_room {s s' : TxState} {l t : Bytes}
    (h : (txMachine verify registry changes outputsLen).run s l = .rest s' t) :
    32 * s'.outputs.length + t.length ≤ 32 * s.outputs.length + l.length :=
  Machine.run_invariant (P := fun s₁ l₁ => 32 * s₁.outputs.length + l₁.length ≤ 32 * s.outputs.length + l.length)
    (fun _ _ _ _ hroom hnext => Nat.le_trans (element_of_nextElement hnext).room hroom) (Nat.le_refl _) h

theorem run_tokens_add {s s' : TxState} {l t : Bytes}
    (h : (txMachine verify registry changes outputsLen).run s l = .rest s' t) :
    s'.tokens.length + s'.remainingTokens = s.tokens.length + s.remainingTokens :=
  Machine.run_invariant (P := fun s₁ _ => s₁.tokens.length + s₁.remainingTokens = s.tokens.length + s.remainingTokens)
    (fun _ _ _ _ hsum hnext => (element_of_nextElement hnext).tokens_add.trans hsum) rfl h

/-- What a run leaves is shorter than an element. -/
theorem run_tail_length {s s' : TxState} {l t : Bytes}
    (h : (txMachine verify registry changes outputsLen).run s l = .rest s' t) : t.length ≤ 35 := by
  obtain rfl | hmore := Machine.run_stops h
  · exact Nat.zero_le _
  · exact length_of_more hmore

end Machine

end HathorApp
