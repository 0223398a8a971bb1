import HathorApp.TxStream

/-!
The decoder of `handler/sign_tx.c` takes exactly the elements the stream machine takes. One call of
`_decode_elements` is one element; `decode_elements` runs the machine over the decode buffer, saves
the outputs it completes in the slots, and leaves the undecoded tail on the buffer. The loop always
comes to its end, and the slots never run out, because every output takes 32 bytes of a 300 byte
buffer.
-/

namespace HathorApp

open ProgramLogic StreamDecoder

/-- The outputs saved, in order. -/
def decodedOutputs (w : List Obs) : List TxOutput :=
  w.filterMap fun
    | .decoded output => some output
    | _ => none

@[simp] theorem decodedOutputs_nil : decodedOutputs [] = [] := rfl

@[simp] theorem decodedOutputs_append (u v : List Obs) :
    decodedOutputs (u ++ v) = decodedOutputs u ++ decodedOutputs v :=
  List.filterMap_append

/-- An event no one outside the application sees: a derivation or a decoded output. -/
def Obs.Internal : Obs → Prop
  | .derive _ | .decoded _ => True
  | _ => False

/-- Nothing is sent or shown. -/
def Silent (w : List Obs) : Prop := ∀ e ∈ w, e.Internal

@[simp] theorem silent_nil : Silent [] := fun _ he => nomatch he

@[simp] theorem silent_append (u v : List Obs) : Silent (u ++ v) ↔ Silent u ∧ Silent v :=
  List.forall_mem_append

@[simp] theorem silent_cons (e : Obs) (w : List Obs) : Silent (e :: w) ↔ e.Internal ∧ Silent w :=
  List.forall_mem_cons

section Silent

variable {w : List Obs} (hw : Silent w)
include hw

theorem Silent.no_reply (data : Bytes) (sw : Nat) : Obs.response data sw ∉ w := fun hmem => hw _ hmem

theorem Silent.no_display (screen : Screen) : Obs.display screen ∉ w := fun hmem => hw _ hmem

theorem Silent.no_restart : Obs.restart ∉ w := fun hmem => hw _ hmem

end Silent

/-- Write outputs into consecutive slots. -/
def fillSlots : List TxOutput → Nat → List TxOutput → List TxOutput
  | slots, _, [] => slots
  | slots, i, output :: rest => fillSlots (slots.set i output) (i + 1) rest

theorem fillSlots_append (slots : List TxOutput) (i : Nat) (a b : List TxOutput) :
    fillSlots slots i (a ++ b) = fillSlots (fillSlots slots i a) (i + a.length) b := by
  induction a generalizing slots i with
  | nil => rfl
  | cons output rest ih =>
      rw [List.cons_append, fillSlots, ih, fillSlots, List.length_cons]
      congr 1
      omega

@[simp] theorem length_fillSlots (slots : List TxOutput) (i : Nat) (new : List TxOutput) :
    (fillSlots slots i new).length = slots.length := by
  induction new generalizing slots i with
  | nil => rfl
  | cons output rest ih => rw [fillSlots, ih, List.length_set]

/-- A slot below the new ones keeps its output. -/
theorem getElem?_fillSlots_below {slots : List TxOutput} {i j : Nat} {new : List TxOutput} (h : j < i) :
    (fillSlots slots i new)[j]? = slots[j]? := by
  induction new generalizing slots i with
  | nil => rfl
  | cons output rest ih => rw [fillSlots, ih (by omega), List.getElem?_set_ne (by omega)]

/-- A new slot holds its output. -/
theorem getElem?_fillSlots {slots : List TxOutput} {i j : Nat} {new : List TxOutput} (hj : j < new.length)
    (hroom : i + new.length ≤ slots.length) : (fillSlots slots i new)[i + j]? = new[j]? := by
  induction new generalizing slots i j with
  | nil => simp at hj
  | cons output rest ih =>
      rw [List.length_cons] at hj hroom
      rw [fillSlots]
      cases j with
      | zero =>
          simp only [Nat.add_zero]
          rw [getElem?_fillSlots_below (by omega), List.getElem?_set_self (by omega)]
          rfl
      | succ j =>
          have hroom' : i + 1 + rest.length ≤ (slots.set i output).length := by
            rw [List.length_set]
            omega
          rw [show i + (j + 1) = i + 1 + j by omega, ih (by omega) hroom', List.getElem?_cons_succ]

/-- The slots filled from the first on. -/
theorem take_fillSlots {slots new : List TxOutput} (hroom : new.length ≤ slots.length) :
    (fillSlots slots 0 new).take new.length = new := by
  refine List.ext_getElem? fun j => ?_
  by_cases hj : j < new.length
  · rw [List.getElem?_take_of_lt hj]
    have h : (fillSlots slots 0 new)[0 + j]? = new[j]? := getElem?_fillSlots hj (by omega)
    rwa [Nat.zero_add] at h
  · rw [List.getElem?_eq_none (by rw [List.length_take]; omega), List.getElem?_eq_none (by omega)]

/-- The context has decoded what the machine state says. -/
structure SignTxCtx.Represents (tx : SignTxCtx) (s : TxState) : Prop where
  tokens : tx.tokens = s.tokens
  remainingTokens : tx.remainingTokens = s.remainingTokens
  remainingInputs : tx.remainingInputs = s.remainingInputs
  currentOutput : tx.currentOutput = s.outputs.length

/-- The context after the machine has come to a state and left a tail: the outputs decoded since then
are in the next slots. -/
def SignTxCtx.took (tx : SignTxCtx) (s : TxState) (tail : Bytes) : SignTxCtx :=
  { tx with
    tokens := s.tokens
    remainingTokens := s.remainingTokens
    remainingInputs := s.remainingInputs
    currentOutput := s.outputs.length
    buffer := tail
    outputs := fillSlots tx.outputs tx.bufferOutputLen (s.outputs.drop tx.currentOutput)
    bufferOutputLen := tx.bufferOutputLen + (s.outputs.drop tx.currentOutput).length }

theorem SignTxCtx.Represents.took (tx : SignTxCtx) (s : TxState) (tail : Bytes) :
    (tx.took s tail).Represents s :=
  ⟨rfl, rfl, rfl, rfl⟩

theorem SignTxCtx.Represents.took_self {tx : SignTxCtx} {s : TxState} (h : tx.Represents s) :
    tx.took s tx.buffer = tx := by
  obtain ⟨htokens, hremT, hremI, hcur⟩ := h
  have hnone : s.outputs.drop tx.currentOutput = [] := by rw [hcur, List.drop_length]
  unfold SignTxCtx.took
  rw [hnone, ← htokens, ← hremT, ← hremI, ← hcur]
  rfl

/-- Decoding twice in a row is decoding once. -/
theorem SignTxCtx.took_took (tx : SignTxCtx) {s s' : TxState} (tail tail' : Bytes)
    (hold : tx.currentOutput ≤ s.outputs.length) (hpre : s.outputs <+: s'.outputs) :
    (tx.took s tail).took s' tail' = tx.took s' tail' := by
  obtain ⟨new, hnew⟩ := hpre
  have hsplit : s'.outputs.drop tx.currentOutput = s.outputs.drop tx.currentOutput ++ new := by
    rw [← hnew, List.drop_append_of_le_length hold]
  have hlast : s'.outputs.drop s.outputs.length = new := by rw [← hnew, List.drop_left]
  unfold SignTxCtx.took
  dsimp only
  rw [hlast, hsplit, fillSlots_append, List.length_append, Nat.add_assoc]

/-- The context with a chunk appended to its decode buffer. -/
def SignTxCtx.received (tx : SignTxCtx) (chunk : Bytes) : SignTxCtx := { tx with buffer := tx.buffer ++ chunk }

theorem bufferCopy_at (data : Bytes) (offset n : Nat) :
    bufferCopy (.at data offset) n =
      if data.length - offset > n then none else some (data.drop offset) := by
  have htake : (data.drop offset).take (data.length - offset) = data.drop offset := by
    rw [← List.length_drop, List.take_length]
  simp only [bufferCopy, Buffer.at, htake]

/-- What is left of the data is copied when it fits the buffer. -/
theorem wp_copyToDecodeBuffer {tx : SignTxCtx} {data : Bytes} {offset : Nat}
    {R : Unit → SignTxCtx → List Obs → Prop} {T : Nat → SignTxCtx → List Obs → Prop} {F : Prop} :
    wp (copyToDecodeBuffer (.at data offset)) R T F tx ↔
      if data.length - offset > decodeBufferLen - tx.buffer.length then T swWrongDataLength tx []
      else R () (tx.received (data.drop offset)) [] := by
  unfold copyToDecodeBuffer
  rw [wp_bind, wp_get, bufferCopy_at]
  by_cases hlong : data.length - offset > decodeBufferLen - tx.buffer.length
  · simp only [if_pos hlong, wp_throw, List.nil_append]
  · simp only [if_neg hlong, wp_modify, List.nil_append]
    rfl

theorem copyToDecodeBuffer_spec {tx : SignTxCtx} {chunk : Bytes} {R : Unit → SignTxCtx → List Obs → Prop}
    {T : Nat → SignTxCtx → List Obs → Prop} {F : Prop}
    (hfits : tx.buffer.length + chunk.length ≤ decodeBufferLen) :
    wp (copyToDecodeBuffer (Buffer.ofData chunk)) R T F tx ↔ R () (tx.received chunk) [] := by
  rw [Buffer.ofData_eq, wp_copyToDecodeBuffer, if_neg (by omega), List.drop_zero]

section Decoder

variable (verify : ChangeOutputInfo → TxOutput → Option Bool) (registry : TokenDataCtx)

/-- The output at hand is accepted up to a change entry that names it and whose key cannot be
derived. -/
def ChangeCheckFails (changes : List ChangeOutputInfo) (outputsLen : Nat) (s : TxState) (l : Bytes) : Prop :=
  s.remainingTokens = 0 ∧ s.remainingInputs = 0 ∧ s.outputs.length < outputsLen ∧
    ∃ parsed n, parseOutput l = .ok (parsed, n) ∧ parsed.tokenData &&& tokenDataAuthorityMask = 0 ∧
      parsed.tokenIndex ≤ s.tokens.length ∧
      ∃ before info after, changes = before ++ info :: after ∧
        ChangeVerifies verify before { parsed with index := s.outputs.length } ∧
        info.index = s.outputs.length ∧ verify info { parsed with index := s.outputs.length } = none

/-- The token at hand is registered, but the token table has no place left for it. -/
def TokenTableFull (s : TxState) (l : Bytes) : Prop :=
  0 < s.remainingTokens ∧ txMaxTokens ≤ s.tokens.length ∧ tokenUidLen ≤ l.length ∧
    findTokenRegistryIndex registry (l.take tokenUidLen) ≠ none

/-- The codes thrown for an element that is refused. -/
def RefusalCode (changes : List ChangeOutputInfo) (outputsLen : Nat) (s : TxState) (l : Bytes)
    (e : Nat) : Prop :=
  e = txStateErr ∨ e = swTxParsingFail ∨ e = swInternalError ∧ ChangeCheckFails verify changes outputsLen s l

theorem changeVerifies_nil {output : TxOutput} : ChangeVerifies verify [] output := fun _ h => nomatch h

theorem changeVerifies_cons {changes : List ChangeOutputInfo} {info : ChangeOutputInfo} {output : TxOutput}
    (hinfo : output.index = info.index → verify info output = some true) :
    ChangeVerifies verify (info :: changes) output ↔ ChangeVerifies verify changes output := by
  unfold ChangeVerifies
  rw [List.forall_mem_cons]
  exact ⟨fun h => h.2, fun h => ⟨hinfo, h⟩⟩

theorem verifyChangeEntries_spec (output : TxOutput) (changes : List ChangeOutputInfo) (tx : SignTxCtx) :
    wp (verifyChangeEntries verify output changes)
      (fun _ tx' w => tx' = tx ∧ ChangeVerifies verify changes output ∧ decodedOutputs w = [] ∧ Silent w)
      (fun e _ w => ¬ChangeVerifies verify changes output ∧ Silent w ∧ decodedOutputs w = [] ∧
        (e = txStateErr ∨ e = swInternalError ∧ ∃ before info after, changes = before ++ info :: after ∧
          ChangeVerifies verify before output ∧ output.index = info.index ∧ verify info output = none))
      False tx := by
  induction changes generalizing tx with
  | nil => exact ⟨rfl, changeVerifies_nil verify, rfl, silent_nil⟩
  | cons info rest ih =>
      unfold verifyChangeEntries
      -- a refusal by this entry
      have hrefused : output.index = info.index → verify info output ≠ some true →
          ¬ChangeVerifies verify (info :: rest) output :=
        fun hindex hverify hall => hverify (hall info List.mem_cons_self hindex)
      -- what the other entries say, once this one is passed
      have hpassed : (output.index = info.index → verify info output = some true) →
          ∀ u, Silent u → decodedOutputs u = [] →
            wp (verifyChangeEntries verify output rest)
              (fun _ tx' w => tx' = tx ∧ ChangeVerifies verify (info :: rest) output ∧
                decodedOutputs (u ++ w) = [] ∧ Silent (u ++ w))
              (fun e _ w => ¬ChangeVerifies verify (info :: rest) output ∧ Silent (u ++ w) ∧
                decodedOutputs (u ++ w) = [] ∧ (e = txStateErr ∨ e = swInternalError ∧
                  ∃ before i after, info :: rest = before ++ i :: after ∧
                    ChangeVerifies verify before output ∧ output.index = i.index ∧ verify i output = none))
              False tx := by
        intro hinfo u hu hu'
        have hnone : ∀ w, decodedOutputs w = [] → decodedOutputs (u ++ w) = [] := by
          intro w hw
          rw [decodedOutputs_append, hu', hw, List.nil_append]
        refine wp_mono (ih tx) ?_ ?_ id
        · rintro _ tx' w ⟨htx, hall, hw, hsilent⟩
          exact ⟨htx, (changeVerifies_cons verify hinfo).mpr hall, hnone w hw,
            (silent_append u w).mpr ⟨hu, hsilent⟩⟩
        · rintro e tx' w ⟨hall, hsilent, hw, hcode⟩
          refine ⟨fun h => hall ((changeVerifies_cons verify hinfo).mp h),
            (silent_append u w).mpr ⟨hu, hsilent⟩, hnone w hw, ?_⟩
          obtain rfl | ⟨rfl, before, i, after, rfl, hbefore, hi, hnone⟩ := hcode
          · exact Or.inl rfl
          · exact Or.inr ⟨rfl, info :: before, i, after, rfl,
              (changeVerifies_cons verify hinfo).mpr hbefore, hi, hnone⟩
      by_cases hindex : output.index = info.index
      · rw [if_pos hindex, wp_bind, wp_emit]
        have hsilent : Silent [Obs.derive info.path] := by simp [Obs.Internal]
        cases hverify : verify info output with
        | none =>
            have hne : verify info output ≠ some true := by rw [hverify]; exact fun h => nomatch h
            exact ⟨hrefused hindex hne, hsilent, rfl, Or.inr ⟨rfl, [], info, rest, rfl,
              changeVerifies_nil verify, hindex, hverify⟩⟩
        | some b =>
            cases b with
            | false =>
                have hne : verify info output ≠ some true := by rw [hverify]; exact fun h => nomatch h
                exact ⟨hrefused hindex hne, hsilent, rfl, Or.inl rfl⟩
            | true => exact hpassed (fun _ => hverify) _ hsilent rfl
      · rw [if_neg hindex]
        exact hpassed (fun h => absurd h hindex) [] silent_nil rfl

/-! The elements of one kind each, for a context that represents a state and has room for one more
output whenever one is complete. -/

section Element

variable {tx : SignTxCtx} {s : TxState}

/-- The result of a step that is accepted. -/
def TakesElement (tx : SignTxCtx) (s : TxState) (tx' : SignTxCtx) (w : List Obs) : Prop :=
  ∃ s' n, Element verify registry tx.changes tx.outputsLen s tx.buffer s' n ∧
    tx' = tx.took s' (tx.buffer.drop n) ∧ decodedOutputs w = s'.outputs.drop tx.currentOutput ∧ Silent w

/-- The result of a step that is not. -/
def StopsElement (tx : SignTxCtx) (s : TxState) (e : Nat) (tx' : SignTxCtx) (w : List Obs) : Prop :=
  (e = txStateReady ∧ nextElement verify registry tx.changes tx.outputsLen s tx.buffer = .more ∧
      tx' = tx ∧ w = []) ∨
    (RefusalCode verify tx.changes tx.outputsLen s tx.buffer e ∧
      nextElement verify registry tx.changes tx.outputsLen s tx.buffer = .fail ∧ Silent w ∧
      decodedOutputs w = [])

theorem decodeTokenUid_spec (hrep : tx.Represents s) (hpending : 0 < s.remainingTokens) :
    wp (decodeTokenUid registry tx) (fun _ => TakesElement verify registry tx s)
      (StopsElement verify registry tx s) (TokenTableFull registry s tx.buffer) tx := by
  unfold decodeTokenUid
  by_cases hlen : tx.buffer.length < tokenUidLen
  · have hnext : nextElement verify registry tx.changes tx.outputsLen s tx.buffer = .more := by
      unfold nextElement
      rw [if_pos hpending, if_pos hlen]
    rw [if_pos hlen]
    exact Or.inl ⟨rfl, hnext, rfl, rfl⟩
  · rw [if_neg hlen]
    cases hfind : findTokenRegistryIndex registry (tx.buffer.take tokenUidLen) with
    | none =>
        have hnext : nextElement verify registry tx.changes tx.outputsLen s tx.buffer = .fail := by
          unfold nextElement
          rw [if_pos hpending, if_neg hlen, hfind]
        exact Or.inr ⟨Or.inl rfl, hnext, silent_nil, rfl⟩
    | some slot =>
        dsimp only
        by_cases hroom : tx.tokens.length < txMaxTokens
        · rw [if_pos hroom, wp_modify]
          refine ⟨_, _, .token hpending (by omega) hfind, ?_, ?_, silent_nil⟩
          · unfold SignTxCtx.took
            rw [hrep.currentOutput, List.drop_length, ← hrep.tokens, ← hrep.remainingTokens,
              ← hrep.remainingInputs, ← hrep.currentOutput]
            rfl
          · rw [hrep.currentOutput, List.drop_length]
            rfl
        · rw [if_neg hroom, wp_overrun]
          rw [hrep.tokens] at hroom
          exact ⟨hpending, by omega, by omega, by rw [hfind]; exact Option.some_ne_none _⟩

theorem decodeInput_spec (hrep : tx.Represents s) (htokens : s.remainingTokens = 0)
    (hpending : 0 < s.remainingInputs) :
    wp (decodeInput tx) (fun _ => TakesElement verify registry tx s) (StopsElement verify registry tx s)
      False tx := by
  have hnext : nextElement verify registry tx.changes tx.outputsLen s tx.buffer =
      if tx.buffer.length < txInputLen then .more
      else if readU16Be tx.buffer 33 > 0 then .fail
      else .element { s with remainingInputs := s.remainingInputs - 1 } txInputLen := by
    unfold nextElement
    rw [if_neg (by omega), if_pos hpending]
  unfold decodeInput
  by_cases hlen : tx.buffer.length < txInputLen
  · rw [if_pos hlen] at hnext
    rw [if_pos hlen]
    exact Or.inl ⟨rfl, hnext, rfl, rfl⟩
  · rw [if_neg hlen] at hnext
    rw [if_neg hlen]
    by_cases hdata : readU16Be tx.buffer 33 > 0
    · rw [if_pos hdata] at hnext
      rw [if_pos hdata]
      exact Or.inr ⟨Or.inl rfl, hnext, silent_nil, rfl⟩
    · rw [if_neg hdata, wp_modify]
      refine ⟨_, _, .input htokens hpending (by omega) (by omega), ?_, ?_, silent_nil⟩
      · unfold SignTxCtx.took
        rw [hrep.currentOutput, List.drop_length, ← hrep.tokens, ← hrep.remainingTokens,
          ← hrep.remainingInputs, ← hrep.currentOutput]
        rfl
      · rw [hrep.currentOutput, List.drop_length]
        rfl

/-- An output takes at least 32 bytes of the buffer, so while there is room for what is left of 300
bytes there is a free slot for it. -/
theorem decodeOutput_spec (hrep : tx.Represents s) (htokens : s.remainingTokens = 0)
    (hinputs : s.remainingInputs = 0) (hpending : s.outputs.length < tx.outputsLen)
    (hroom : 32 * tx.bufferOutputLen + tx.buffer.length ≤ decodeBufferLen) :
    wp (decodeOutput verify tx) (fun _ => TakesElement verify registry tx s)
      (StopsElement verify registry tx s) False tx := by
  unfold decodeOutput
  cases hparse : parseOutput tx.buffer with
  | error e =>
      dsimp only
      rw [wp_throw]
      have hnext : nextElement verify registry tx.changes tx.outputsLen s tx.buffer =
          if e = txStateReady then .more else .fail := by
        unfold nextElement
        rw [if_neg (by omega), if_neg (by omega), if_pos hpending, hparse]
      obtain ⟨rfl, _⟩ | ⟨rfl, _⟩ := parseOutput_error hparse
      · exact Or.inl ⟨rfl, hnext, rfl, rfl⟩
      · exact Or.inr ⟨Or.inr (Or.inl rfl), hnext, silent_nil, rfl⟩
  | ok result =>
      obtain ⟨parsed, n⟩ := result
      dsimp only
      obtain ⟨output, hout⟩ : ∃ output, output = { parsed with index := s.outputs.length } := ⟨_, rfl⟩
      have hrefused : _ → nextElement verify registry tx.changes tx.outputsLen s tx.buffer = .fail :=
        nextElement_of_refused htokens hinputs hpending hparse hout
      have hauth : output.tokenData = parsed.tokenData := by rw [hout]
      have hindex : output.tokenIndex = parsed.tokenIndex := by rw [hout]; rfl
      rw [hrep.currentOutput, hrep.tokens, ← hout]
      by_cases hauthority : parsed.tokenData &&& tokenDataAuthorityMask ≠ 0
      · rw [if_pos hauthority, wp_throw]
        exact Or.inr ⟨Or.inl rfl, hrefused (Or.inl (hauth ▸ hauthority)), silent_nil, rfl⟩
      · rw [if_neg hauthority]
        by_cases hover : parsed.tokenData &&& tokenDataIndexMask > s.tokens.length
        · rw [if_pos hover, wp_throw]
          exact Or.inr ⟨Or.inl rfl, hrefused (Or.inr (Or.inl (hindex ▸ hover))), silent_nil, rfl⟩
        · have hinTable : parsed.tokenIndex ≤ s.tokens.length := Nat.le_of_not_lt hover
          rw [if_neg hover, wp_bind, wp_modify, wp_bind]
          refine wp_mono (verifyChangeEntries_spec verify output tx.changes _) ?_ ?_ id
          · -- the output verifies: it is saved in a free slot
            rintro _ tx' w ⟨rfl, hverifies, hw, hsilent⟩
            obtain ⟨_, hn, hle, _⟩ := parseOutput_ok hparse
            have hlong := outputLen_le tx.buffer
            have hslots : outputSlots = 10 := rfl
            have hbuffer : decodeBufferLen = 300 := rfl
            have hfree : ¬tx.bufferOutputLen ≥ outputSlots := by omega
            simp only [wp_bind, wp_modify, hfree, if_false, wp_emit]
            refine ⟨_, n, .output htokens hinputs hpending hparse hout
              (hauth ▸ not_not.mp hauthority) (hindex ▸ hinTable) hverifies, ?_, ?_, ?_⟩
            · unfold SignTxCtx.took
              rw [hrep.currentOutput, List.drop_left, ← hrep.tokens, ← hrep.remainingTokens,
                ← hrep.remainingInputs]
              simp only [fillSlots, List.length_append, List.length_singleton, ← hrep.currentOutput]
            · rw [hrep.currentOutput, List.drop_left]
              simp only [decodedOutputs_append, hw, List.nil_append]
              rfl
            · simp [hsilent, Obs.Internal]
          · rintro e tx' w ⟨hnot, hsilent, hw, hcode⟩
            refine Or.inr ⟨?_, hrefused (Or.inr (Or.inr hnot)), hsilent, hw⟩
            obtain rfl | ⟨rfl, before, info, after, hsplit, hbefore, hinfo, hnone⟩ := hcode
            · exact Or.inl rfl
            · have hname : output.index = s.outputs.length := by rw [hout]
              exact Or.inr (Or.inr ⟨rfl, htokens, hinputs, hpending, parsed, n, hparse,
                not_not.mp hauthority, hinTable, before, info, after, hsplit, hout ▸ hbefore,
                hinfo.symm.trans hname, hout ▸ hnone⟩)

/-- One call of `_decode_elements`. -/
theorem _decodeElements_spec (hrep : tx.Represents s)
    (hroom : 32 * tx.bufferOutputLen + tx.buffer.length ≤ decodeBufferLen) :
    wp (_decodeElements verify registry)
      (fun b tx' w => b = decide (tx'.buffer.length ≠ 0) ∧ TakesElement verify registry tx s tx' w)
      (StopsElement verify registry tx s) (TokenTableFull registry s tx.buffer) tx := by
  unfold _decodeElements
  simp only [wp_bind, wp_get, wp_ite, wp_pure, wp_throw, List.nil_append, List.append_nil]
  refine ⟨fun hpending => ?_, fun htokens => ⟨fun hpending => ?_, fun hinputs => ⟨fun hpending => ?_,
    fun hdone => ?_⟩⟩⟩
  · rw [hrep.remainingTokens] at hpending
    exact wp_mono (decodeTokenUid_spec verify registry hrep hpending) (fun _ _ _ h => ⟨trivial, h⟩)
      (fun _ _ _ h => h) id
  · rw [hrep.remainingTokens] at htokens
    rw [hrep.remainingInputs] at hpending
    exact wp_mono (decodeInput_spec verify registry hrep (by omega) hpending) (fun _ _ _ h => ⟨trivial, h⟩)
      (fun _ _ _ h => h) False.elim
  · rw [hrep.remainingTokens] at htokens
    rw [hrep.remainingInputs] at hinputs
    rw [hrep.currentOutput] at hpending
    exact wp_mono (decodeOutput_spec verify registry hrep (by omega) (by omega) hpending hroom)
      (fun _ _ _ h => ⟨trivial, h⟩) (fun _ _ _ h => h) False.elim
  · rw [hrep.remainingTokens] at htokens
    rw [hrep.remainingInputs] at hinputs
    rw [hrep.currentOutput] at hdone
    refine Or.inr ⟨Or.inl rfl, ?_, silent_nil, rfl⟩
    unfold nextElement
    rw [if_neg (by omega), if_neg (by omega), if_neg hdone]

/-- What the machine makes of the decode buffer. An element is asked for even when the buffer is
empty. -/
def decodeVerdict (tx : SignTxCtx) (s : TxState) : Verdict TxState UInt8 :=
  (txMachine verify registry tx.changes tx.outputsLen).ask s tx.buffer

/-- The machine is refused an element, with the code thrown for it. -/
def Refuses (tx : SignTxCtx) (s : TxState) (e : Nat) : Prop :=
  decodeVerdict verify registry tx s = .rejected ∧
    (e = txStateErr ∨ e = swTxParsingFail ∨ e = swInternalError ∧
      ∃ s' l, (txMachine verify registry tx.changes tx.outputsLen).Reaches s tx.buffer s' l ∧
        ChangeCheckFails verify tx.changes tx.outputsLen s' l)

/-- The machine comes to a token for which the table has no place left. -/
def TableOverflows (tx : SignTxCtx) (s : TxState) : Prop :=
  ∃ s' l, (txMachine verify registry tx.changes tx.outputsLen).Reaches s tx.buffer s' l ∧
    TokenTableFull registry s' l

variable {verify registry} in
/-- It takes a header of more tokens than the table has places for. -/
theorem TableOverflows.many (hrep : tx.Represents s) (h : TableOverflows verify registry tx s) :
    txMaxTokens < tx.tokens.length + tx.remainingTokens := by
  rcases h with ⟨s', l, hreaches, hpending, hfull, _, _⟩
  have hsum : s'.tokens.length + s'.remainingTokens = s.tokens.length + s.remainingTokens := by
    clear * - hreaches
    induction hreaches with
    | refl => rfl
    | element _ next ih => exact (element_of_nextElement next).tokens_add.trans ih
  rw [hrep.tokens, hrep.remainingTokens]
  omega

/-- The machine stops with a tail, which is left on the buffer. -/
def Leaves (tx : SignTxCtx) (s : TxState) (tx' : SignTxCtx) (w : List Obs) : Prop :=
  ∃ s' tail, decodeVerdict verify registry tx s = .rest s' tail ∧ tx' = tx.took s' tail ∧
    decodedOutputs w = s'.outputs.drop tx.currentOutput

/-- One element and then the rest of the call, for the states that leave a tail. -/
theorem Leaves.cons {s₁ : TxState} {n : Nat} {tx' : SignTxCtx} {w w' : List Obs} (hrep : tx.Represents s)
    (helement : Element verify registry tx.changes tx.outputsLen s tx.buffer s₁ n)
    (hw : decodedOutputs w = s₁.outputs.drop tx.currentOutput)
    (hrest : ∃ s' tail, (txMachine verify registry tx.changes tx.outputsLen).run s₁ (tx.buffer.drop n) =
        .rest s' tail ∧ tx' = (tx.took s₁ (tx.buffer.drop n)).took s' tail ∧
        decodedOutputs w' = s'.outputs.drop s₁.outputs.length) :
    Leaves verify registry tx s tx' (w ++ w') := by
  obtain ⟨s', tail, hrun, rfl, hw'⟩ := hrest
  have hold : tx.currentOutput ≤ s₁.outputs.length := by
    rw [hrep.currentOutput]
    exact helement.outputs_grow.length_le
  obtain ⟨new, hnew⟩ := run_outputs_grow hrun
  refine ⟨s', tail, ?_, SignTxCtx.took_took tx _ _ hold ⟨new, hnew⟩, ?_⟩
  · unfold decodeVerdict Machine.ask
    rw [show (txMachine verify registry tx.changes tx.outputsLen).next s tx.buffer = _ from
      nextElement_of_element helement]
    exact hrun
  · rw [decodedOutputs_append, hw, hw', ← hnew, List.drop_left, List.drop_append_of_le_length hold]

variable {verify registry} in
/-- An element leaves room for the outputs that what is left on the buffer can hold. -/
theorem Element.took_room {s₁ : TxState} {n : Nat} (hrep : tx.Represents s)
    (helement : Element verify registry tx.changes tx.outputsLen s tx.buffer s₁ n)
    (hroom : 32 * tx.bufferOutputLen + tx.buffer.length ≤ decodeBufferLen) :
    32 * (tx.took s₁ (tx.buffer.drop n)).bufferOutputLen + (tx.took s₁ (tx.buffer.drop n)).buffer.length ≤
      decodeBufferLen := by
  have hbuffer : (tx.took s₁ (tx.buffer.drop n)).buffer = tx.buffer.drop n := rfl
  have hsaved : (tx.took s₁ (tx.buffer.drop n)).bufferOutputLen =
      tx.bufferOutputLen + (s₁.outputs.length - s.outputs.length) := by
    rw [SignTxCtx.took, hrep.currentOutput, List.length_drop]
  have hleft := helement.room
  have hgrow := helement.outputs_grow.length_le
  rw [hsaved, hbuffer]
  omega

/-- The loop, for a bound above the bytes on the buffer: every element takes a byte at least, so the
loop ends before the bound. -/
theorem decodeLoop_spec (fuel : Nat) {tx : SignTxCtx} {s : TxState} (hrep : tx.Represents s)
    (hroom : 32 * tx.bufferOutputLen + tx.buffer.length ≤ decodeBufferLen) (hfuel : tx.buffer.length < fuel) :
    wp (decodeLoop verify registry fuel)
      (fun b tx' w => b = true ∧ Leaves verify registry tx s tx' w ∧ Silent w)
      (fun e tx' w => Silent w ∧
        (e = txStateReady ∧ Leaves verify registry tx s tx' w ∨ Refuses verify registry tx s e))
      (TableOverflows verify registry tx s) tx := by
  induction fuel generalizing tx s with
  | zero => omega
  | succ fuel ih =>
      unfold decodeLoop
      rw [wp_bind]
      refine wp_mono (_decodeElements_spec verify registry hrep hroom) ?_ ?_ ?_
      · rintro b tx' w ⟨rfl, s₁, n, helement, rfl, hw, hsilent⟩
        have hnext : (txMachine verify registry tx.changes tx.outputsLen).next s tx.buffer =
          .element s₁ n := nextElement_of_element helement
        have hpos := helement.pos
        have hle := helement.le
        have hbuffer : (tx.took s₁ (tx.buffer.drop n)).buffer = tx.buffer.drop n := rfl
        rw [wp_ite]
        refine ⟨fun hmore => ?_, fun hempty => ?_⟩
        · -- bytes are left: the loop goes on
          rw [decide_eq_true_eq, hbuffer] at hmore
          have hne : tx.buffer.drop n ≠ [] := fun h => hmore (by rw [h]; rfl)
          have hfuel' : (tx.took s₁ (tx.buffer.drop n)).buffer.length < fuel := by
            rw [hbuffer, List.length_drop]
            omega
          have hask : decodeVerdict verify registry (tx.took s₁ (tx.buffer.drop n)) s₁ =
              (txMachine verify registry tx.changes tx.outputsLen).run s₁ (tx.buffer.drop n) :=
            Machine.ask_eq_run _ (Or.inl hne)
          have hverdict : decodeVerdict verify registry tx s =
              (txMachine verify registry tx.changes tx.outputsLen).run s₁ (tx.buffer.drop n) := by
            unfold decodeVerdict Machine.ask
            rw [hnext]
          have hleaves : ∀ {tx' w'}, Leaves verify registry (tx.took s₁ (tx.buffer.drop n)) s₁ tx' w' →
              Leaves verify registry tx s tx' (w ++ w') := by
            rintro tx' w' ⟨s', tail, hrun, htx', hw'⟩
            exact Leaves.cons verify registry hrep helement hw ⟨s', tail, hask ▸ hrun, htx', hw'⟩
          refine wp_mono (ih (SignTxCtx.Represents.took tx s₁ _) (helement.took_room hrep hroom) hfuel') ?_ ?_ ?_
          · rintro b tx' w' ⟨rfl, hl, hsilent'⟩
            exact ⟨rfl, hleaves hl, (silent_append w w').mpr ⟨hsilent, hsilent'⟩⟩
          · rintro e tx' w' ⟨hsilent', hstop⟩
            refine ⟨(silent_append w w').mpr ⟨hsilent, hsilent'⟩, ?_⟩
            obtain ⟨rfl, hl⟩ | ⟨hrejected, hcode⟩ := hstop
            · exact Or.inl ⟨rfl, hleaves hl⟩
            · refine Or.inr ⟨hverdict.trans (hask.symm.trans hrejected), ?_⟩
              obtain rfl | rfl | ⟨rfl, s', l, hreaches, hfails⟩ := hcode
              · exact Or.inl rfl
              · exact Or.inr (Or.inl rfl)
              · exact Or.inr (Or.inr ⟨rfl, s', l, Machine.Reaches.head hnext hreaches, hfails⟩)
          · rintro ⟨s', l, hreaches, hfull⟩
            exact ⟨s', l, Machine.Reaches.head hnext hreaches, hfull⟩
        · -- the buffer is empty: the loop is over
          rw [decide_eq_true_eq, not_not, hbuffer, List.length_eq_zero_iff] at hempty
          rw [wp_pure]
          refine ⟨rfl, ?_, by rwa [List.append_nil]⟩
          refine Leaves.cons verify registry hrep helement hw ⟨s₁, [], ?_, ?_, ?_⟩
          · rw [hempty, Machine.run_nil]
          · rw [hempty]
            exact ((SignTxCtx.Represents.took tx s₁ []).took_self).symm
          · rw [List.drop_length]
            rfl
      · rintro e tx' w hstop
        obtain ⟨rfl, hmore, rfl, rfl⟩ | ⟨hcode, hfail, hsilent, _⟩ := hstop
        · refine ⟨silent_nil, Or.inl ⟨rfl, s, tx'.buffer, ?_, hrep.took_self.symm, ?_⟩⟩
          · unfold decodeVerdict Machine.ask
            rw [show (txMachine verify registry tx'.changes tx'.outputsLen).next s tx'.buffer = _ from hmore]
          · rw [hrep.currentOutput, List.drop_length]
            rfl
        · refine ⟨hsilent, Or.inr ⟨?_, ?_⟩⟩
          · unfold decodeVerdict Machine.ask
            rw [show (txMachine verify registry tx.changes tx.outputsLen).next s tx.buffer = _ from hfail]
          · obtain rfl | rfl | ⟨rfl, hfails⟩ := hcode
            · exact Or.inl rfl
            · exact Or.inr (Or.inl rfl)
            · exact Or.inr (Or.inr ⟨rfl, s, tx.buffer, .refl, hfails⟩)
      · exact fun hfull => ⟨s, tx.buffer, .refl, hfull⟩

/-- `decode_elements`: the state it returns, and the context when that asks for more data. -/
theorem decodeElements_spec (hrep : tx.Represents s)
    (hroom : 32 * tx.bufferOutputLen + tx.buffer.length ≤ decodeBufferLen) :
    wp (decodeElements verify registry)
      (fun result tx' w => Silent w ∧
        (result = txStateReady ∧ Leaves verify registry tx s tx' w ∨
          result = txStateErr ∧ decodeVerdict verify registry tx s = .rejected ∨
          result = swInternalError ∧ Refuses verify registry tx s swInternalError))
      (fun _ _ _ => False) (TableOverflows verify registry tx s) tx := by
  unfold decodeElements
  rw [wp_bind, wp_get, wp_catchAll, wp_bind]
  refine wp_mono (decodeLoop_spec verify registry _ hrep hroom (Nat.lt_succ_self _)) ?_ ?_ id
  · rintro b tx' w ⟨rfl, hleaves, hsilent⟩
    rw [if_pos rfl, wp_pure, List.append_nil, List.nil_append]
    exact ⟨hsilent, Or.inl ⟨rfl, hleaves⟩⟩
  · rintro e tx' w ⟨hsilent, hstop⟩
    rw [wp_pure, List.append_nil, List.nil_append]
    refine ⟨hsilent, ?_⟩
    obtain ⟨rfl, hleaves⟩ | hrefuses := hstop
    · exact Or.inl ⟨rfl, hleaves⟩
    · obtain rfl | rfl | ⟨rfl, _⟩ := hrefuses.2
      · exact Or.inr (Or.inl ⟨rfl, hrefuses.1⟩)
      · exact Or.inr (Or.inl ⟨rfl, hrefuses.1⟩)
      · exact Or.inr (Or.inr ⟨rfl, hrefuses⟩)

end Element

end Decoder

end HathorApp
