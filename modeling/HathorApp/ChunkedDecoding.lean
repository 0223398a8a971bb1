import HathorApp.DecoderSpec

/-!
Chunked decoding is whole-message decoding. The copy-and-decode part of `receive_data`, fed the bytes
after the header chunk by chunk, agrees with a reference parser that reads all of them in one pass:
it rejects in some chunk exactly when the parser rejects what has been received, and otherwise the
outputs saved by the calls, one call after the other, are the outputs parsed.
-/

namespace HathorApp

open ProgramLogic StreamDecoder

section Reference

variable (verify : ChangeOutputInfo → TxOutput → Option Bool) (registry : TokenDataCtx)
  (changes : List ChangeOutputInfo) (inputsLen outputsLen : Nat)

/-! ### The reference parser

It reads the declared tokens, inputs and outputs in this order, with what it has parsed so far as an
argument. `none` is a rejection. The bytes of an element that is not complete are the tail. -/

/-- `n` more outputs. The script length is judged once it is read, everything else once the output is
complete. Nothing may follow the last one. -/
def refOutputs (tokens : List Nat) : List TxOutput → Nat → Bytes → Option (TxState × Bytes)
  | outputs, 0, l => if l = [] then some (⟨tokens, 0, 0, outputs⟩, []) else none
  | outputs, n + 1, l =>
    if l.length < outputValueLen l + 3 then some (⟨tokens, 0, 0, outputs⟩, l)
    else if readU16Be l (outputValueLen l + 1) ≠ 25 then none
    else if l.length < outputLen l then some (⟨tokens, 0, 0, outputs⟩, l)
    else
      let output := { outputAt l with index := outputs.length }
      if IsP2pkh l (outputValueLen l + 3) ∧ output.tokenData &&& tokenDataAuthorityMask = 0 ∧
          output.tokenIndex ≤ tokens.length ∧ ChangeVerifies verify changes output then
        refOutputs tokens (outputs ++ [output]) n (l.drop (outputLen l))
      else none

/-- `n` more inputs, and then the outputs. -/
def refInputs (tokens : List Nat) : Nat → Bytes → Option (TxState × Bytes)
  | 0, l => refOutputs verify changes tokens [] outputsLen l
  | n + 1, l =>
    if l.length < txInputLen then some (⟨tokens, 0, n + 1, []⟩, l)
    else if readU16Be l 33 = 0 then refInputs tokens n (l.drop txInputLen)
    else none

/-- `n` more tokens, and then the inputs. -/
def refTokens : List Nat → Nat → Bytes → Option (TxState × Bytes)
  | tokens, 0, l => refInputs verify changes outputsLen tokens inputsLen l
  | tokens, n + 1, l =>
    if l.length < tokenUidLen then some (⟨tokens, n + 1, inputsLen, []⟩, l)
    else
      match findTokenRegistryIndex registry (l.take tokenUidLen) with
      | none => none
      | some slot => refTokens (tokens ++ [slot]) n (l.drop tokenUidLen)

/-- The reference parser on the bytes after a header. -/
def refParse (tokensLen : Nat) (l : Bytes) : Option (TxState × Bytes) :=
  refTokens verify registry changes inputsLen outputsLen [] tokensLen l

end Reference

/-- The verdict the reference parser stands for. -/
def verdictOf : Option (TxState × Bytes) → Verdict TxState UInt8
  | none => .rejected
  | some (s, tail) => .rest s tail

section Agreement

variable {verify : ChangeOutputInfo → TxOutput → Option Bool} {registry : TokenDataCtx}
  {changes : List ChangeOutputInfo} {inputsLen outputsLen : Nat}

theorem run_refOutputs (tokens : List Nat) (outputs : List TxOutput) (n : Nat) (l : Bytes)
    (hn : outputs.length + n = outputsLen) :
    (txMachine verify registry changes outputsLen).run ⟨tokens, 0, 0, outputs⟩ l =
      verdictOf (refOutputs verify changes tokens outputs n l) := by
  induction n generalizing outputs l with
  | zero =>
      rw [refOutputs]
      by_cases hl : l = []
      · subst hl
        rw [Machine.run_nil, if_pos rfl, verdictOf]
      · rw [if_neg hl, verdictOf]
        refine Machine.run_of_fail hl ?_
        rw [txMachine_next]
        unfold nextElement
        rw [if_neg (Nat.lt_irrefl 0), if_neg (Nat.lt_irrefl 0), if_neg]
        show ¬outputs.length < outputsLen
        omega
  | succ n ih =>
      have hpending : outputs.length < outputsLen := by omega
      have hnext : ∀ e, parseOutput l = .error e →
          nextElement verify registry changes outputsLen ⟨tokens, 0, 0, outputs⟩ l =
            if e = txStateReady then .more else .fail := by
        intro e he
        unfold nextElement
        rw [if_neg (Nat.lt_irrefl 0), if_neg (Nat.lt_irrefl 0), if_pos hpending, he]
      have hparse := parseOutput_eq l
      have hdef : outputLen l = outputValueLen l + 28 := rfl
      rw [refOutputs]
      by_cases h3 : l.length < outputValueLen l + 3
      · rw [if_pos h3] at hparse ⊢
        exact Machine.run_of_more (hnext _ hparse)
      · have hl : l ≠ [] := List.length_pos_iff.mp (by omega)
        rw [if_neg h3] at hparse ⊢
        by_cases hlen : readU16Be l (outputValueLen l + 1) ≠ 25
        · rw [if_pos hlen] at hparse ⊢
          exact Machine.run_of_fail hl (hnext _ hparse)
        · rw [if_neg hlen] at hparse ⊢
          by_cases h28 : l.length < outputLen l
          · rw [if_pos h28] at hparse ⊢
            exact Machine.run_of_more (hnext _ hparse)
          · rw [if_neg h28] at hparse ⊢
            by_cases hscript : IsP2pkh l (outputValueLen l + 3)
            · rw [if_neg (not_not.mpr hscript)] at hparse
              dsimp only
              split
              · rename_i haccept
                obtain ⟨_, hauth, htable, hverifies⟩ := haccept
                have hstep : Element verify registry changes outputsLen ⟨tokens, 0, 0, outputs⟩ l _ _ :=
                  .output rfl rfl hpending hparse rfl hauth htable hverifies
                have hnext' := nextElement_of_element hstep
                rw [← txMachine_next] at hnext'
                rw [Machine.run_of_element hnext']
                exact ih (outputs ++ [_]) (l.drop (outputLen l))
                  (by rw [List.length_append, List.length_singleton]; omega)
              · rename_i hrefuse
                refine Machine.run_of_fail hl ?_
                rw [txMachine_next]
                refine nextElement_of_refused rfl rfl hpending hparse rfl ?_
                by_contra hno
                rw [not_or, not_or, not_not, not_not, Nat.not_lt] at hno
                exact hrefuse ⟨hscript, hno⟩
            · rw [if_pos hscript] at hparse
              dsimp only
              rw [if_neg (fun h => hscript h.1)]
              exact Machine.run_of_fail hl (hnext _ hparse)

theorem run_refInputs (tokens : List Nat) (n : Nat) (l : Bytes) :
    (txMachine verify registry changes outputsLen).run ⟨tokens, 0, n, []⟩ l =
      verdictOf (refInputs verify changes outputsLen tokens n l) := by
  induction n generalizing l with
  | zero => exact run_refOutputs tokens [] outputsLen l (Nat.zero_add _)
  | succ n ih =>
      have hnext : nextElement verify registry changes outputsLen ⟨tokens, 0, n + 1, []⟩ l =
          if l.length < txInputLen then .more
          else if readU16Be l 33 > 0 then .fail
          else .element ⟨tokens, 0, n, []⟩ txInputLen := by
        unfold nextElement
        rw [if_neg (Nat.lt_irrefl 0), if_pos (Nat.succ_pos n)]
        rfl
      rw [refInputs]
      by_cases hlen : l.length < txInputLen
      · rw [if_pos hlen] at hnext ⊢
        exact Machine.run_of_more hnext
      · have hl : l ≠ [] := List.length_pos_iff.mp (by unfold txInputLen at hlen; omega)
        rw [if_neg hlen] at hnext ⊢
        by_cases hdata : readU16Be l 33 = 0
        · rw [if_neg (by omega)] at hnext
          rw [if_pos hdata, Machine.run_of_element hnext]
          exact ih _
        · rw [if_pos (by omega)] at hnext
          rw [if_neg hdata]
          exact Machine.run_of_fail hl hnext

/-- The machine started after a header decodes what the reference parser parses. -/
theorem run_refTokens (tokens : List Nat) (n : Nat) (l : Bytes) :
    (txMachine verify registry changes outputsLen).run ⟨tokens, n, inputsLen, []⟩ l =
      verdictOf (refTokens verify registry changes inputsLen outputsLen tokens n l) := by
  induction n generalizing tokens l with
  | zero => exact run_refInputs tokens inputsLen l
  | succ n ih =>
      have hnext : nextElement verify registry changes outputsLen ⟨tokens, n + 1, inputsLen, []⟩ l =
          if l.length < tokenUidLen then .more
          else match findTokenRegistryIndex registry (l.take tokenUidLen) with
            | none => .fail
            | some slot => .element ⟨tokens ++ [slot], n, inputsLen, []⟩ tokenUidLen := by
        unfold nextElement
        rw [if_pos (Nat.succ_pos n)]
        rfl
      rw [refTokens]
      by_cases hlen : l.length < tokenUidLen
      · rw [if_pos hlen] at hnext ⊢
        exact Machine.run_of_more hnext
      · have hl : l ≠ [] := List.length_pos_iff.mp (by unfold tokenUidLen at hlen; omega)
        rw [if_neg hlen] at hnext ⊢
        cases hfind : findTokenRegistryIndex registry (l.take tokenUidLen) with
        | none =>
            rw [hfind] at hnext
            exact Machine.run_of_fail hl hnext
        | some slot =>
            rw [hfind] at hnext
            rw [Machine.run_of_element hnext]
            exact ih _ _

end Agreement

section Feed

variable (verify : ChangeOutputInfo → TxOutput → Option Bool) (registry : TokenDataCtx)

/-- What a data command does with a chunk: forget the outputs of the last call, append the chunk to the
decode buffer and decode. -/
def feedChunk (chunk : Bytes) : Decoder Nat := do
  Prog.modify SignTxCtx.resetCall
  copyToDecodeBuffer (Buffer.ofData chunk)
  decodeElements verify registry

/-- Chunks fed one after the other, up to the first one that is rejected: the outputs saved by each
call, one call after the other, or `none` for a rejection. -/
def feedChunks : List Bytes → Decoder (Option (List TxOutput))
  | [] => return some []
  | chunk :: rest => do
    let result ← feedChunk verify registry chunk
    if result = txStateReady then do
      let tx ← Prog.get
      let saved := tx.outputs.take tx.bufferOutputLen
      let later ← feedChunks rest
      return later.map (saved ++ ·)
    else return none

/-- The context in which `receive_data` comes to its first copy: the header has been read. -/
structure SignTxCtx.HeaderRead (tx : SignTxCtx) (tokensLen inputsLen outputsLen : Nat) : Prop where
  buffer : tx.buffer = []
  tokens : tx.tokens = []
  remainingTokens : tx.remainingTokens = tokensLen
  remainingInputs : tx.remainingInputs = inputsLen
  outputsLen : tx.outputsLen = outputsLen
  currentOutput : tx.currentOutput = 0
  slots : tx.outputs.length = outputSlots

variable {verify registry} {tx : SignTxCtx} {s : TxState}

/-- One chunk, for a context with a tail that waits for more. -/
theorem feedChunk_spec (hrep : tx.Represents s) {chunk : Bytes}
    (hfits : tx.buffer.length + chunk.length ≤ decodeBufferLen)
    (htokens : tx.tokens.length + tx.remainingTokens ≤ txMaxTokens)
    (hask : tx.buffer ++ chunk ≠ [] ∨
      nextElement verify registry tx.changes tx.outputsLen s (tx.buffer ++ chunk) = .more) :
    wp (feedChunk verify registry chunk)
      (fun result tx' _ =>
        match (txMachine verify registry tx.changes tx.outputsLen).run s (tx.buffer ++ chunk) with
        | .rejected => result ≠ txStateReady
        | .rest s' tail => result = txStateReady ∧
            tx' = (tx.resetCall.received chunk).took s' tail)
      (fun _ _ _ => False) False tx := by
  have hfits' : tx.resetCall.buffer.length + chunk.length ≤ decodeBufferLen := hfits
  unfold feedChunk
  rw [wp_bind, wp_modify, wp_bind, copyToDecodeBuffer_spec hfits']
  have hverdict : decodeVerdict verify registry (tx.resetCall.received chunk) s =
      (txMachine verify registry tx.changes tx.outputsLen).run s (tx.buffer ++ chunk) :=
    Machine.ask_eq_run _ hask
  have hrep' : (tx.resetCall.received chunk).Represents s :=
    ⟨hrep.tokens, hrep.remainingTokens, hrep.remainingInputs, hrep.currentOutput⟩
  refine wp_mono (decodeElements_spec verify registry hrep' ?_) ?_ (fun _ _ _ h => h) ?_
  · show 32 * 0 + (tx.buffer ++ chunk).length ≤ decodeBufferLen
    rw [List.length_append]
    omega
  · rintro result tx' w ⟨_, hresult⟩
    obtain ⟨rfl, s', tail, hrest, htx', _⟩ | ⟨rfl, hrejected⟩ | ⟨rfl, hrejected, _⟩ := hresult
    · rw [hverdict] at hrest
      simp only [hrest]
      exact ⟨trivial, htx'⟩
    · rw [hverdict] at hrejected
      simp only [hrejected]
      decide
    · rw [hverdict] at hrejected
      simp only [hrejected]
      decide
  · intro hover
    exact absurd (hover.many hrep') (Nat.not_lt.mpr htokens)

/-- A run of chunks. Only the first one may be empty, when an element is still awaited. -/
theorem feedChunks_spec (chunks : List Bytes) (hchunks : ∀ c ∈ chunks, c.length ≤ 255)
    (hlater : ∀ c ∈ chunks.tail, c ≠ [])
    (hfirst : nextElement verify registry tx.changes tx.outputsLen s tx.buffer = .more ∨ ∀ c ∈ chunks, c ≠ [])
    (hrep : tx.Represents s) (hslots : tx.outputs.length = outputSlots)
    (htokens : tx.tokens.length + tx.remainingTokens ≤ txMaxTokens) (htail : tx.buffer.length ≤ 35)
    (hstop : tx.buffer = [] ∨ nextElement verify registry tx.changes tx.outputsLen s tx.buffer = .more) :
    wp (feedChunks verify registry chunks)
      (fun outputs tx' _ =>
        match (txMachine verify registry tx.changes tx.outputsLen).run s (tx.buffer ++ chunks.flatten) with
        | .rejected => outputs = none
        | .rest s' tail => outputs = some (s'.outputs.drop s.outputs.length) ∧ tx'.Represents s' ∧
            tx'.buffer = tail)
      (fun _ _ _ => False) False tx := by
  induction chunks generalizing tx s with
  | nil =>
      have hrun : (txMachine verify registry tx.changes tx.outputsLen).run s tx.buffer =
          .rest s tx.buffer := by
        obtain hempty | hmore := hstop
        · rw [hempty, Machine.run_nil]
        · exact Machine.run_of_more hmore
      unfold feedChunks
      rw [List.flatten_nil, List.append_nil, hrun, wp_pure]
      refine ⟨?_, hrep, rfl⟩
      rw [List.drop_length]
  | cons chunk rest ih =>
      obtain ⟨hlen, hrest⟩ := List.forall_mem_cons.mp hchunks
      have hlimit : decodeBufferLen = 300 := rfl
      have hask : tx.buffer ++ chunk ≠ [] ∨
          nextElement verify registry tx.changes tx.outputsLen s (tx.buffer ++ chunk) = .more := by
        by_cases hempty : chunk = []
        · obtain hmore | hne := hfirst
          · rw [hempty, List.append_nil]
            exact Or.inr hmore
          · exact absurd hempty (hne chunk List.mem_cons_self)
        · exact Or.inl (by simp [hempty])
      unfold feedChunks
      rw [wp_bind, List.flatten_cons, ← List.append_assoc, Machine.run_append]
      refine wp_mono (feedChunk_spec hrep (by omega) htokens hask) ?_ (fun _ _ _ h => h) id
      intro result tx₁ _ hfeed
      cases hrun : (txMachine verify registry tx.changes tx.outputsLen).run s (tx.buffer ++ chunk) with
      | rejected =>
          rw [hrun] at hfeed
          rw [if_neg hfeed, wp_pure]
          rfl
      | rest s₁ tail =>
          rw [hrun] at hfeed
          obtain ⟨rfl, rfl⟩ := hfeed
          generalize htx₁ : (tx.resetCall.received chunk).took s₁ tail = tx₁
          have hroom := run_room hrun
          have hgrow := run_outputs_grow hrun
          have hsum := run_tokens_add hrun
          have hrep₁ : tx₁.Represents s₁ := htx₁ ▸ SignTxCtx.Represents.took _ s₁ tail
          have hsaved : tx₁.outputs.take tx₁.bufferOutputLen = s₁.outputs.drop s.outputs.length := by
            have hfit : (s₁.outputs.drop s.outputs.length).length ≤ tx.outputs.length := by
              rw [hslots, List.length_drop]
              rw [List.length_append] at hroom
              have hten : outputSlots = 10 := rfl
              omega
            rw [← htx₁, ← hrep.currentOutput]
            rw [← hrep.currentOutput] at hfit
            simp only [SignTxCtx.took, SignTxCtx.received, SignTxCtx.resetCall, Nat.zero_add]
            exact take_fillSlots hfit
          have hih := ih hrest (fun c hc => hlater c (List.mem_of_mem_tail hc)) (Or.inr hlater) hrep₁
            (by rw [← htx₁]; exact (length_fillSlots _ _ _).trans hslots)
            (by rw [hrep₁.tokens, hrep₁.remainingTokens, hsum, ← hrep.tokens, ← hrep.remainingTokens]
                exact htokens)
            (by rw [← htx₁]; exact run_tail_length hrun)
            (by rw [← htx₁]; exact Machine.run_stops hrun)
          rw [if_pos rfl, wp_bind, wp_get, wp_bind]
          refine wp_mono hih ?_ (fun _ _ _ h => h) id
          intro outputs tx' _ hlater
          rw [wp_pure]
          have hchanges : tx₁.changes = tx.changes := by rw [← htx₁]; rfl
          have hlen₁ : tx₁.outputsLen = tx.outputsLen := by rw [← htx₁]; rfl
          have hbuffer : tx₁.buffer = tail := by rw [← htx₁]; rfl
          rw [hchanges, hlen₁, hbuffer] at hlater
          rw [Machine.feed_rest]
          cases hrun' : (txMachine verify registry tx.changes tx.outputsLen).run s₁ (tail ++ rest.flatten) with
          | rejected =>
              rw [hrun'] at hlater
              rw [hlater]
              rfl
          | rest s' tail' =>
              rw [hrun'] at hlater
              obtain ⟨rfl, hrep', htail'⟩ := hlater
              refine ⟨?_, hrep', htail'⟩
              obtain ⟨new, hnew⟩ := run_outputs_grow hrun'
              rw [Option.map_some, hsaved, ← hnew, List.drop_left,
                List.drop_append_of_le_length hgrow.length_le]

/-- Chunked decoding equals whole-message decoding: for every header that declares an element and at
most `TX_MAX_TOKENS` tokens, and every cut of what follows it, some chunk is rejected exactly when the
reference parser rejects the bytes received, and otherwise the outputs of the calls, the token table,
the counts and the tail are those it parses. -/
theorem chunked_eq_reference (verifies : Bip32Path → TxOutput → Bool) (registry : TokenDataCtx)
    {tx : SignTxCtx} {tokensLen inputsLen outputsLen : Nat}
    (hheader : tx.HeaderRead tokensLen inputsLen outputsLen) (htokens : tokensLen ≤ txMaxTokens)
    (hsome : 0 < tokensLen + inputsLen + outputsLen) (first : Bytes) (hfirst : first.length ≤ 255)
    (later : List Bytes) (hlater : ∀ c ∈ later, c ≠ [] ∧ c.length ≤ 255) :
    wp (feedChunks (fun info output => some (verifies info.path output)) registry (first :: later))
      (fun outputs tx' _ =>
        match refParse (fun info output => some (verifies info.path output)) registry tx.changes inputsLen
            outputsLen tokensLen (first ++ later.flatten) with
        | none => outputs = none
        | some (s, tail) => outputs = some s.outputs ∧ tx'.tokens = s.tokens ∧
            tx'.remainingTokens = s.remainingTokens ∧ tx'.remainingInputs = s.remainingInputs ∧
            tx'.currentOutput = s.outputs.length ∧ tx'.buffer = tail)
      (fun _ _ _ => False) False tx := by
  generalize hverify : (fun (info : ChangeOutputInfo) output => some (verifies info.path output)) = verify
  have hrep : tx.Represents ⟨[], tokensLen, inputsLen, []⟩ :=
    ⟨hheader.tokens, hheader.remainingTokens, hheader.remainingInputs, hheader.currentOutput⟩
  have hawaits : nextElement verify registry tx.changes tx.outputsLen ⟨[], tokensLen, inputsLen, []⟩ [] =
      .more := by
    rw [hheader.outputsLen]
    unfold nextElement
    by_cases hnoTokens : tokensLen > 0
    · rw [if_pos hnoTokens]
      rfl
    · by_cases hnoInputs : inputsLen > 0
      · rw [if_neg hnoTokens, if_pos hnoInputs]
        rfl
      · have houtputs : ([] : List TxOutput).length < outputsLen := by rw [List.length_nil]; omega
        rw [if_neg hnoTokens, if_neg hnoInputs, if_pos houtputs]
        rfl
  have hrun : (txMachine verify registry tx.changes outputsLen).run ⟨[], tokensLen, inputsLen, []⟩
      (first ++ later.flatten) = _ := run_refTokens [] tokensLen (first ++ later.flatten)
  refine wp_mono (feedChunks_spec (first :: later) ?_ (fun c hc => (hlater c hc).1) ?_ hrep hheader.slots
    ?_ ?_ (Or.inl hheader.buffer)) ?_ (fun _ _ _ h => h) id
  · exact List.forall_mem_cons.mpr ⟨hfirst, fun c hc => (hlater c hc).2⟩
  · rw [hheader.buffer]
    exact Or.inl hawaits
  · rw [hheader.tokens, hheader.remainingTokens, List.length_nil, Nat.zero_add]
    exact htokens
  · rw [hheader.buffer]
    exact Nat.zero_le _
  · intro outputs tx' _ h
    rw [hheader.buffer, List.nil_append, List.flatten_cons, hheader.outputsLen, hrun] at h
    unfold refParse
    cases href : refTokens verify registry tx.changes inputsLen outputsLen [] tokensLen
        (first ++ later.flatten) with
    | none =>
        rw [href] at h
        exact h
    | some result =>
        obtain ⟨s, tail⟩ := result
        rw [href] at h
        obtain ⟨houtputs, hrep', htail⟩ := h
        exact ⟨houtputs, hrep'.tokens, hrep'.remainingTokens, hrep'.remainingInputs,
          hrep'.currentOutput, htail⟩

/-- One output of value 1, cut inside its value. -/
theorem chunked_eq_reference_cut :
    wp (feedChunks (fun _ _ => some true) zeroTokenDataCtx
        [[0, 0], [0, 1, 0, 0, 25, 0x76, 0xA9, 20] ++ List.replicate 20 7 ++ [0x88, 0xAC]])
      (fun outputs tx' _ => outputs = some [⟨0, 1, 0, List.replicate 20 7⟩] ∧ tx'.tokens = [] ∧
        tx'.remainingTokens = 0 ∧ tx'.remainingInputs = 0 ∧ tx'.currentOutput = 1 ∧ tx'.buffer = [])
      (fun _ _ _ => False) False { zeroSignTxCtx with outputsLen := 1 } := by
  have hheader : SignTxCtx.HeaderRead { zeroSignTxCtx with outputsLen := 1 } 0 0 1 :=
    ⟨rfl, rfl, rfl, rfl, rfl, rfl, rfl⟩
  exact chunked_eq_reference (fun _ _ => true) zeroTokenDataCtx hheader (by decide) (by decide) [0, 0]
    (by decide) [[0, 1, 0, 0, 25, 0x76, 0xA9, 20] ++ List.replicate 20 7 ++ [0x88, 0xAC]] (by decide)

end Feed

end HathorApp
