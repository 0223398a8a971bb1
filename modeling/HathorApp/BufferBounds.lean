import HathorApp.Runs

/-!
The decode buffer and the output slots. Whatever the host sends, a session that receives data holds less
than an element undecoded, so the next chunk fits the buffer, the loop over it comes to its end, and
there is a free slot for every output it completes.
-/

namespace HathorApp

open ProgramLogic StreamDecoder TraceRun

section Call

variable (verify : ChangeOutputInfo → TxOutput → Option Bool) (registry : TokenDataCtx)

/-- The contexts in which the loop asks for another element. -/
inductive LoopReaches (tx : SignTxCtx) : SignTxCtx → Prop where
  | start : LoopReaches tx tx
  | iterate {tx₁ tx₂ : SignTxCtx} {w : List Obs} (reaches : LoopReaches tx tx₁)
      (again : _decodeElements verify registry tx₁ = .ret true tx₂ w) : LoopReaches tx tx₂

/-- A call of the decoder in which the buffer and the slots do not overflow: every iteration that asks for
another takes bytes off the buffer, the loop ends, less than an element is left, and an output that is
complete finds a free slot. Only a header with more tokens than the token table holds can take the loop
out of its memory. -/
structure SafeCall (tx : SignTxCtx) : Prop where
  shrinks : ∀ tx₁ tx₂ w, LoopReaches verify registry tx tx₁ →
    _decodeElements verify registry tx₁ = .ret true tx₂ w → tx₂.buffer.length < tx₁.buffer.length
  ends : wp (decodeLoop verify registry (tx.buffer.length + 1))
    (fun b tx' _ => b = true ∧ tx'.buffer.length ≤ 35)
    (fun e tx' _ => e = txStateReady → tx'.buffer.length ≤ 35)
    (txMaxTokens < tx.tokens.length + tx.remainingTokens) tx
  decodes : wp (decodeLoop verify registry (tx.buffer.length + 1))
    (fun _ _ w => (decodedOutputs w).length ≤ outputSlots)
    (fun _ _ w => (decodedOutputs w).length ≤ outputSlots) True tx
  freeSlot : ∀ tx₁ parsed n, LoopReaches verify registry tx tx₁ → tx₁.remainingTokens = 0 →
    tx₁.remainingInputs = 0 → parseOutput tx₁.buffer = .ok (parsed, n) → tx₁.bufferOutputLen < outputSlots

variable {verify registry}

/-- An element leaves as much room for outputs as it found. -/
theorem TakesElement.room {tx tx' : SignTxCtx} {s : TxState} {w : List Obs} (hrep : tx.Represents s)
    (h : TakesElement verify registry tx s tx' w) :
    32 * tx'.bufferOutputLen + tx'.buffer.length ≤ 32 * tx.bufferOutputLen + tx.buffer.length ∧
      tx'.buffer.length < tx.buffer.length ∧
      tx'.bufferOutputLen = tx.bufferOutputLen + (decodedOutputs w).length := by
  rcases h with ⟨s', n, helement, rfl, hw, _⟩
  have hroom := helement.room
  have hgrow := helement.outputs_grow.length_le
  have hpos := helement.pos
  have hle := helement.le
  have hsaved : (tx.took s' (tx.buffer.drop n)).bufferOutputLen =
      tx.bufferOutputLen + (s'.outputs.drop tx.currentOutput).length := rfl
  have hbuffer : (tx.took s' (tx.buffer.drop n)).buffer = tx.buffer.drop n := rfl
  rw [hsaved, hbuffer, hw, hrep.currentOutput]
  simp only [List.length_drop] at hroom ⊢
  refine ⟨?_, ?_, trivial⟩
  · omega
  · omega

/-- The contexts of a loop have room for what is left of the buffer. -/
theorem LoopReaches.room {tx tx' : SignTxCtx}
    (hroom : 32 * tx.bufferOutputLen + tx.buffer.length ≤ decodeBufferLen)
    (h : LoopReaches verify registry tx tx') :
    32 * tx'.bufferOutputLen + tx'.buffer.length ≤ decodeBufferLen := by
  induction h with
  | start => exact hroom
  | @iterate tx₁ tx₂ w _ again ih =>
      have hspec := _decodeElements_spec verify registry tx₁.represents_someState ih
      rw [wp_of_ret again] at hspec
      exact Nat.le_trans (TakesElement.room tx₁.represents_someState hspec.2).1 ih

theorem decodeLoop_room (fuel : Nat) {tx : SignTxCtx}
    (hroom : 32 * tx.bufferOutputLen + tx.buffer.length ≤ decodeBufferLen) :
    wp (decodeLoop verify registry fuel)
      (fun _ _ w => 32 * (decodedOutputs w).length ≤ tx.buffer.length)
      (fun _ _ w => 32 * (decodedOutputs w).length ≤ tx.buffer.length) True tx := by
  induction fuel generalizing tx with
  | zero => exact Nat.zero_le _
  | succ fuel ih =>
      have hrep := tx.represents_someState
      unfold decodeLoop
      rw [wp_bind]
      refine wp_mono (_decodeElements_spec verify registry hrep hroom) ?_ ?_ fun _ => trivial
      · rintro b tx₁ w ⟨_, htakes⟩
        obtain ⟨hroom₁, hshorter, hsaved⟩ := TakesElement.room hrep htakes
        have hroom₁' := Nat.le_trans hroom₁ hroom
        rw [wp_ite, wp_pure]
        refine ⟨fun _ => ?_, fun _ => ?_⟩
        · refine wp_mono (ih hroom₁') ?_ ?_ id
          · intro _ _ w' hw'
            rw [decodedOutputs_append, List.length_append]
            omega
          · intro _ _ w' hw'
            rw [decodedOutputs_append, List.length_append]
            omega
        · rw [List.append_nil]
          omega
      · intro e tx₁ w hstop
        rcases hstop with ⟨_, _, _, rfl⟩ | ⟨_, _, _, hw⟩
        · exact Nat.zero_le _
        · rw [hw]
          exact Nat.zero_le _

/-- A call that starts with empty slots and a buffer within its bounds is safe. -/
theorem safeCall {tx : SignTxCtx} (hslots : tx.bufferOutputLen = 0) (hbuffer : tx.buffer.length ≤ decodeBufferLen) :
    SafeCall verify registry tx := by
  have hroom : 32 * tx.bufferOutputLen + tx.buffer.length ≤ decodeBufferLen := by omega
  have hrep := tx.represents_someState
  have hten : outputSlots = 10 := rfl
  have hlimit : decodeBufferLen = 300 := rfl
  refine ⟨?_, ?_, ?_, ?_⟩
  · intro tx₁ tx₂ w hreaches hagain
    have hspec := _decodeElements_spec verify registry tx₁.represents_someState (hreaches.room hroom)
    rw [wp_of_ret hagain] at hspec
    exact (TakesElement.room tx₁.represents_someState hspec.2).2.1
  · refine wp_mono (decodeLoop_spec verify registry _ hrep hroom (Nat.lt_succ_self _)) ?_ ?_
      (fun h => h.many hrep)
    · intro b tx' w ⟨hb, ⟨s', tail, hverdict, htx', _⟩, _⟩
      refine ⟨hb, ?_⟩
      rw [htx']
      exact run_tail_length (Machine.run_of_ask hverdict)
    · intro e tx' w ⟨_, hstop⟩ hready
      rcases hstop with ⟨_, s', tail, hverdict, htx', _⟩ | ⟨_, hcode⟩
      · rw [htx']
        exact run_tail_length (Machine.run_of_ask hverdict)
      · rcases hcode with rfl | rfl | ⟨rfl, _⟩ <;> exact absurd hready (by decide)
  · refine wp_mono (decodeLoop_room _ hroom) ?_ ?_ id
    · intro _ _ w hw
      omega
    · intro _ _ w hw
      omega
  · intro tx₁ parsed n hreaches _ _ hparse
    have hroom₁ := hreaches.room hroom
    obtain ⟨_, rfl, hle, _⟩ := parseOutput_ok hparse
    have hlong := outputLen_le tx₁.buffer
    omega

end Call

/-- The chunk of a data command is taken: the device on which its elements are decoded. -/
def TakesChunk (d : Device) (e : Event) (o : Outcome) (d₁ : Device) : Prop :=
  ∃ raw cmd, e = .apdu o raw ∧ apduParser raw = some cmd ∧ cmd.Is insSignTx ∧ cmd.p1 = 0 ∧ cmd.data ≠ [] ∧
    d.state ≠ .approved ∧ (0 < cmd.p2 → d.state = .recvData) ∧
    takeChunk o (Buffer.ofData cmd.data) cmd.p2 d.entered = .ret () d₁ []

/-- What becomes of the chunk of a data command can be tested. -/
instance decidableTakesChunk (d : Device) (e : Event) (P : Device → Prop) [DecidablePred P] :
    Decidable (∃ o d₁, TakesChunk d e o d₁ ∧ P d₁) :=
  match e with
  | .press .. => isFalse fun ⟨_, _, ⟨_, _, he, _⟩, _⟩ => nomatch he
  | .quit => isFalse fun ⟨_, _, ⟨_, _, he, _⟩, _⟩ => nomatch he
  | .apdu o raw =>
    match hparse : apduParser raw with
    | none => isFalse fun ⟨_, _, ⟨_, _, he, hcmd, _⟩, _⟩ => by
        cases he
        exact nomatch hparse.symm.trans hcmd
    | some cmd =>
      match htaken : takeChunk o (Buffer.ofData cmd.data) cmd.p2 d.entered with
      | .ret () d₁ [] =>
        decidable_of_iff ((cmd.cla = cla ∧ cmd.ins = insSignTx) ∧ cmd.p1 = 0 ∧ cmd.data ≠ [] ∧ d.state ≠ .approved ∧
            (0 < cmd.p2 → d.state = .recvData) ∧ P d₁)
          ⟨fun ⟨is, stage, nonempty, open', later, h⟩ =>
              ⟨o, d₁, ⟨raw, cmd, rfl, hparse, is, stage, nonempty, open', later, htaken⟩, h⟩,
            fun ⟨_, d₂, ⟨_, cmd', he, hcmd, is, stage, nonempty, open', later, ret⟩, h⟩ => by
              cases he
              obtain rfl : cmd = cmd' := Option.some.inj (hparse.symm.trans hcmd)
              rw [htaken] at ret
              cases ret
              exact ⟨is, stage, nonempty, open', later, h⟩⟩
      | .ret () _ (_ :: _) => isFalse fun ⟨_, _, ⟨_, cmd', he, hcmd, _, _, _, _, _, ret⟩, _⟩ => by
          cases he
          obtain rfl : cmd = cmd' := Option.some.inj (hparse.symm.trans hcmd)
          exact nomatch htaken.symm.trans ret
      | .throw .. => isFalse fun ⟨_, _, ⟨_, cmd', he, hcmd, _, _, _, _, _, ret⟩, _⟩ => by
          cases he
          obtain rfl : cmd = cmd' := Option.some.inj (hparse.symm.trans hcmd)
          exact nomatch htaken.symm.trans ret
      | .overrun => isFalse fun ⟨_, _, ⟨_, cmd', he, hcmd, _, _, _, _, _, ret⟩, _⟩ => by
          cases he
          obtain rfl : cmd = cmd' := Option.some.inj (hparse.symm.trans hcmd)
          exact nomatch htaken.symm.trans ret

section Tail

variable {pf : Platform} {d : Device}

/-- A session that receives data holds less than an element. -/
def Device.TailBounded (d : Device) : Prop := d.state = .recvData → d.tx.buffer.length ≤ 35

theorem tail_invariant : DecodedInvariant pf fun tx => tx.buffer.length ≤ 35 where
  zero := Nat.zero_le _
  same := by
    intro tx tx' htail hsame
    have hlength := congrArg (fun tx => tx.buffer.length) hsame
    exact Nat.le_trans (Nat.le_of_eq hlength) htail
  unread := by
    rintro tx ⟨_, _, _, _, _, _, _, _, rfl⟩
    exact Nat.zero_le _
  started _ verdict := run_tail_length (Machine.run_of_ask verdict)
  continued _ verdict := run_tail_length (Machine.run_of_ask verdict)

theorem run_tailBounded {h : History Device Event Obs} (run : Run (freeSystem pf) h d) : d.TailBounded :=
  fun _ => tail_invariant.run run

/-- In every reachable state a session that receives data holds at most 35 bytes, the copy of the next
chunk does not fail, so that what is hashed is what the decoder is given, and the call of the decoder on
it is safe. -/
theorem decode_buffer_never_overflows {h : History Device Event Obs} (run : Run (freeSystem pf) h d)
    (o : Outcome) {data : Bytes} (hdata : data.length ≤ 255) (chunk : Nat)
    (hreceives : 0 < chunk → d.state = .recvData) :
    (d.state = .recvData → d.tx.buffer.length ≤ 35 ∧ d.tx.buffer.length + 255 ≤ decodeBufferLen ∧
      bufferCopy (Buffer.ofData data) (decodeBufferLen - d.tx.buffer.length) = some data) ∧
    wp (takeChunk o (Buffer.ofData data) chunk)
      (fun _ d₁ _ => SafeCall (verifyChange pf o) d₁.gTokenSymbols d₁.tx ∧
        if chunk = 0 then ∃ header, header.length = 5 ∧ d₁.tx.sha256 = some (header ++ d₁.tx.buffer)
        else ∃ m, d.tx.sha256 = some m ∧ d₁.tx.sha256 = some (m ++ data) ∧ d₁.tx.buffer = d.tx.buffer ++ data)
      (fun e d₁ _ =>
        if chunk = 0 then d₁.state = .none ∨ d₁.tx.HeaderUnread
        else e = o.hashError ∧ d₁.tx.sha256 = d.tx.sha256)
      False (d.withTx d.tx.resetCall) := by
  have hlimit : decodeBufferLen = 300 := rfl
  have htail : d.TailBounded := run_tailBounded run
  refine ⟨fun hstate => ?_, ?_⟩
  · have hshort := htail hstate
    refine ⟨hshort, by omega, ?_⟩
    rw [Buffer.ofData_eq, bufferCopy_at, if_neg (by omega), List.drop_zero]
  obtain rfl | hlater := Nat.eq_zero_or_pos chunk
  · by_cases hstate : d.state = .recvData
    · unfold takeChunk
      have hstate' : (d.withTx d.tx.resetCall).state = .recvData := hstate
      rw [if_pos rfl, wp_bind, wp_get, if_pos hstate']
      exact Or.inl rfl
    · refine wp_mono (takeChunk_first_spec o (by omega) (d.withTx d.tx.resetCall) hstate) ?_ ?_ id
      · intro _ d₁ w ⟨_, changeLen, changeInfo, offset, _, _, _, hheader, hd₁⟩
        rw [if_pos rfl, hd₁]
        refine ⟨safeCall rfl ?_, (data.drop offset).take 5, ?_, ?_⟩
        · show ((data.drop offset).drop 5).length ≤ decodeBufferLen
          simp only [List.length_drop]
          omega
        · rw [List.length_take, List.length_drop]
          omega
        · show some (data.drop offset) = some ((data.drop offset).take 5 ++ (data.drop offset).drop 5)
          rw [List.take_append_drop]
      · intro e d₁ w ⟨_, tx, hunread, hd₁⟩
        rw [if_pos rfl, hd₁]
        exact Or.inr hunread
  · have hnot : chunk ≠ 0 := by omega
    have hshort := htail (hreceives hlater)
    rw [takeChunk_later o hlater]
    simp only [if_neg hnot]
    cases hhash : cxHashNoThrow o (d.withTx d.tx.resetCall).tx.sha256 data with
    | none => exact ⟨trivial, rfl⟩
    | some m =>
        obtain ⟨m₀, hctx, rfl⟩ := cxHashNoThrow_some hhash
        have hfits : ¬data.length > decodeBufferLen - (d.withTx d.tx.resetCall).tx.buffer.length := by
          show ¬data.length > decodeBufferLen - d.tx.buffer.length
          omega
        dsimp only
        rw [if_neg hfits]
        refine ⟨safeCall rfl ?_, m₀, hctx, rfl, rfl⟩
        show (d.tx.buffer ++ data).length ≤ decodeBufferLen
        rw [List.length_append]
        omega

/-- The first chunk ends inside an output, so that 20 bytes are left to decode when the next chunk brings the rest of it. -/
theorem decode_buffer_never_overflows_cut :
    ∃ h d, Run (freeSystem countingPlatform) h d ∧ d.state = .recvData ∧ d.tx.buffer = (sampleOutput 7).take 20 ∧
      (d.tx.buffer.length ≤ 35 ∧ d.tx.buffer.length + 255 ≤ decodeBufferLen ∧
        bufferCopy (Buffer.ofData ((sampleOutput 7).drop 20)) (decodeBufferLen - d.tx.buffer.length) =
          some ((sampleOutput 7).drop 20)) ∧
      wp (takeChunk (.allOk []) (Buffer.ofData ((sampleOutput 7).drop 20)) 1)
        (fun _ d₁ _ => SafeCall (verifyChange countingPlatform (.allOk [])) d₁.gTokenSymbols d₁.tx ∧
          ∃ m, d.tx.sha256 = some m ∧ d₁.tx.sha256 = some (m ++ (sampleOutput 7).drop 20) ∧
            d₁.tx.buffer = d.tx.buffer ++ (sampleOutput 7).drop 20)
        (fun e d₁ _ => e = Outcome.hashError (.allOk []) ∧ d₁.tx.sha256 = d.tx.sha256) False (d.withTx d.tx.resetCall) := by
  obtain ⟨h, r, _, run, hP⟩ := exists_step_of_play countingPlatform false [] []
    (signTxData 0 ([0, 0, 1, 0, 0, 1] ++ (sampleOutput 7).take 20))
    (fun _ r => r.post.state = .recvData ∧ r.post.tx.buffer = (sampleOutput 7).take 20) (by decide +kernel)
  obtain ⟨hstate, hbuffer⟩ := of_decide_eq_true hP
  have hdata : ((sampleOutput 7).drop 20).length ≤ 255 := by decide
  obtain ⟨htail, htaken⟩ := decode_buffer_never_overflows run (.allOk []) hdata 1 (fun _ => hstate)
  exact ⟨_, _, run, hstate, hbuffer, htail hstate, htaken⟩

end Tail

end HathorApp
