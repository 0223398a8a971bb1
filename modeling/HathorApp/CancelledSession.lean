import HathorApp.BufferBounds
import HathorApp.FirstChunk

/-!
What a data command leaves when it fails. The failures found after the chunk was read clear the context before
they reply, and so do the user's rejections. The readers throw instead: what they throw reaches the command
loop, which replies, while the session stays open with what was read so far. A chunk the SDK does not hash and
an empty one leave the session as it is, too.
-/

namespace HathorApp

open ProgramLogic StreamDecoder TraceRun

/-- No session, and nothing of one in the context. -/
structure Device.Clear (d : Device) : Prop where
  state : d.state = .none
  empty : d.tx = zeroSignTxCtx

instance (d : Device) : Decidable d.Clear :=
  decidable_of_iff (d.state = .none ∧ d.tx = zeroSignTxCtx) ⟨fun h => ⟨h.1, h.2⟩, fun h => ⟨h.state, h.empty⟩⟩

theorem clear_of_zero {d : Device} (h : d.gContext = zeroGlobalCtx) : d.Clear :=
  ⟨congrArg GlobalCtx.state h, congrArg GlobalCtx.txInfo h⟩

theorem Device.Clear.congr {d d' : Device} (h : d.Clear) (hsame : d'.gContext = d.gContext) : d'.Clear :=
  ⟨(congrArg GlobalCtx.state hsame).trans h.state, (congrArg GlobalCtx.txInfo hsame).trans h.empty⟩

/-- The command is a data command. -/
structure Command.SendsData (cmd : Command) : Prop where
  ins : cmd.Is insSignTx
  stage : cmd.p1 = 0

/-- A session is cancelled: the context is clear, a later chunk is refused, and a first chunk is taken and
decoded from nothing but its own data. -/
structure Cancelled (pf : Platform) (d : Device) : Prop where
  clear : d.Clear
  refuses : ∀ {o raw cmd}, apduParser raw = some cmd → cmd.SendsData → 0 < cmd.p2 →
    ∃ d' w, handle pf (.apdu o raw) d = .ret () d' w ∧ d'.Clear ∧ ∀ data, Obs.response data swOk ∉ w
  accepts : ∀ {o raw cmd}, apduParser raw = some cmd → cmd.SendsData → cmd.p2 = 0 → OpensSession o cmd.data →
    ∃ changeLen changeInfo offset, TakesChunk d (.apdu o raw) o
      ((initSignTxCtx d.entered).withTx (startedTx changeLen changeInfo (cmd.data.drop offset)))

section Cancelled

variable {pf : Platform} {o : Outcome} {cmd : Command} {d : Device}

theorem apduDispatcher_data (h : cmd.SendsData) :
    apduDispatcher pf o cmd =
      if cmd.data = [] then ioSendSw swWrongDataLength
      else handlerSignTx pf o (Buffer.ofData cmd.data) .data cmd.p2 := by
  have hdispatch : apduDispatcher pf o cmd = dispatchSignTx pf o cmd := by
    unfold apduDispatcher
    simp [h.ins.1, h.ins.2, insSignTx, insGetVersion, insGetAddress, insGetXpub]
  rw [hdispatch, dispatchSignTx, h.stage]
  by_cases hdata : cmd.data = []
  · simp [hdata]
  · simp [hdata]

theorem Settles.clear {d₁ d' : Device} {r : Ending} {w : List Obs} (h : Settles d₁ r d' w) (hclear : d₁.Clear) :
    d'.Clear := by
  cases h with
  | resumes => exact hclear.congr rfl
  | restarts => exact clear_of_zero rfl

theorem later_chunk_refused (pf : Platform) (o : Outcome) {raw : Bytes} (hparse : apduParser raw = some cmd)
    (hcmd : cmd.SendsData) (hlater : 0 < cmd.p2) (hclear : d.Clear) :
    ∃ d' w, handle pf (.apdu o raw) d = .ret () d' w ∧ d'.Clear ∧ ∀ data, Obs.response data swOk ∉ w := by
  have hwake : (wake d).Clear := hclear.congr (wake_gContext d)
  have hdispatched : wp (apduDispatcher pf o cmd)
      (fun v d' w => (d'.Clear ∧ ∀ data, Obs.response data swOk ∉ w) ∧ (Ending.ret v).reply = [])
      (fun e d' w => (d'.Clear ∧ ∀ data, Obs.response data swOk ∉ w) ∧ (Ending.thrown e).reply = []) False (wake d) := by
    rw [apduDispatcher_data hcmd, wp_ite]
    refine ⟨fun _ => ?_, fun _ => ?_⟩
    · rw [wp_ioSendSw]
      exact ⟨⟨hwake.congr rfl, by simp [swOk, swWrongDataLength]⟩, rfl⟩
    · have hstate : (wake d).state = .none := hwake.state
      unfold handlerSignTx
      rw [wp_bind, wp_modify, wp_bind, wp_get]
      dsimp only
      rw [if_neg, if_pos, wp_bzeroMenuReply]
      · exact ⟨⟨clear_of_zero rfl, by simp [swOk, swBadState]⟩, rfl⟩
      · refine ⟨hlater, fun hrecv => ?_⟩
        exact nomatch hstate.symm.trans hrecv
      · exact fun happroved => nomatch hstate.symm.trans happroved
  have hspec := handleCommand_settles pf
    (R := fun r d' w => (d'.Clear ∧ ∀ data, Obs.response data swOk ∉ w) ∧ r.reply = []) hparse hdispatched
  have hhandle : wp (handle pf (.apdu o raw)) (fun _ d' w => d'.Clear ∧ ∀ data, Obs.response data swOk ∉ w)
      (fun _ _ _ => False) False d := by
    refine wp_mono hspec ?_ (fun _ _ _ h => h) id
    rintro _ d' _ ⟨r, d₁, w₁, w₂, ⟨⟨hclear₁, hreplies⟩, hnone⟩, hsettles, rfl⟩
    refine ⟨hsettles.clear hclear₁, fun data hmem => ?_⟩
    rcases List.mem_append.mp hmem with hmem | hmem
    · exact hreplies data hmem
    · cases hsettles with
      | resumes =>
          rw [hnone] at hmem
          exact absurd hmem List.not_mem_nil
      | restarts =>
          rw [hnone, List.nil_append, List.mem_singleton] at hmem
          cases hmem
  obtain ⟨_, d', w, ret, hcancelled⟩ := exists_ret_of_wp hhandle
  exact ⟨d', w, ret, hcancelled⟩

theorem OpensSession.nonempty {data : Bytes} (h : OpensSession o data) : data ≠ [] := by
  rintro rfl
  obtain ⟨offset, hend, _⟩ := h
  exact nomatch hend

/-- A clear context is all that a cancelled session takes. -/
theorem cancelled_of_clear (pf : Platform) (hclear : d.Clear) : Cancelled pf d := by
  have hstate : d.state = .none := hclear.state
  refine ⟨hclear, fun hparse hcmd hlater => later_chunk_refused pf _ hparse hcmd hlater hclear, ?_⟩
  intro o raw cmd hparse hcmd hfirst hopens
  have hlimit : decodeBufferLen = 300 := rfl
  have hlen : cmd.data.length ≤ 255 := apduParser_fits hparse
  have hentered : d.entered.state ≠ .recvData := by
    rw [entered_state, hstate]
    decide
  obtain ⟨changeLen, changeInfo, offset, htaken⟩ := hopens.taken o (by omega) d.entered hentered
  refine ⟨changeLen, changeInfo, offset, raw, cmd, rfl, hparse, hcmd.ins, hcmd.stage, hopens.nonempty, ?_, ?_, ?_⟩
  · rw [hstate]
    decide
  · intro hlater
    rw [hfirst] at hlater
    exact absurd hlater (Nat.lt_irrefl 0)
  · rw [hfirst]
    exact htaken

theorem cancelled_iff_clear (pf : Platform) : Cancelled pf d ↔ d.Clear :=
  ⟨Cancelled.clear, cancelled_of_clear pf⟩

end Cancelled

section Failure

variable {pf : Platform} {o : Outcome} {d d' : Device} {w : List Obs}

/-- A reply with an error comes with a clear context. -/
def ErrorClears (d' : Device) (w : List Obs) : Prop :=
  ∀ data sw, Obs.response data sw ∈ w → sw ≠ swOk → d'.Clear

theorem errorClears_of_clear (h : d'.Clear) : ErrorClears d' w := fun _ _ _ _ => h

theorem ErrorClears.after_silent {w' : List Obs} (h : ErrorClears d' w') (hw : Silent w) : ErrorClears d' (w ++ w') := by
  intro data sw hmem hsw
  rcases List.mem_append.mp hmem with hmem | hmem
  · exact absurd hmem (hw.no_reply data sw)
  · exact h data sw hmem hsw

theorem CheckEnds.errorClears (h : CheckEnds d d' w) : ErrorClears d' w := by
  cases h with
  | parsed => exact fun _ _ hmem => absurd hmem (by simp)
  | foreign => exact errorClears_of_clear (clear_of_zero rfl)
  | more =>
      intro data sw hmem hsw
      simp only [List.mem_cons, Obs.response.injEq, reduceCtorEq, List.not_mem_nil, or_false] at hmem
      exact absurd hmem.2 hsw

theorem DisplayEnds.errorClears (h : DisplayEnds pf d d' w) : ErrorClears d' w := by
  cases h with
  | checked check => exact check.errorClears
  | failed => exact errorClears_of_clear (clear_of_zero rfl)
  | shown => exact fun _ _ hmem => absurd hmem (by simp [outputScreen])

theorem DecodeEffect.errorClears {s : TxState} (h : DecodeEffect pf o s d true d' w) : ErrorClears d' w := by
  cases h with
  | rejected => exact errorClears_of_clear (clear_of_zero rfl)
  | awaits silent =>
      refine ErrorClears.after_silent ?_ silent
      intro data sw hmem hsw
      simp only [List.mem_singleton, Obs.response.injEq] at hmem
      exact absurd hmem.2 hsw
  | displays silent _ _ _ _ _ ends => exact ends.errorClears.after_silent silent

/-- The readers return: the session refuses the chunk before they are called, or the chunk opens a session,
or the SDK hashes it. -/
def ReadersReturn (o : Outcome) (context : GlobalCtx) (data : Bytes) (chunk : Nat) : Prop :=
  if chunk = 0 then context.state = .approved ∨ context.state = .recvData ∨ OpensSession o data
  else context.state = .recvData → cxHashNoThrow o context.txInfo.sha256 data ≠ none

instance (o : Outcome) (context : GlobalCtx) (data : Bytes) (chunk : Nat) :
    Decidable (ReadersReturn o context data chunk) := by
  unfold ReadersReturn
  infer_instance

/-- What the handler of a data command leaves. -/
inductive DataLeaves (o : Outcome) (context : GlobalCtx) (data : Bytes) (chunk : Nat) :
    Ending → Device → List Obs → Prop where
  | returned {v : Int} {d' : Device} {w : List Obs} (readers : ReadersReturn o context data chunk)
      (clears : 0 ≤ v → ErrorClears d' w) : DataLeaves o context data chunk (.ret v) d' w
  | cleared {e : Nat} {d' : Device} (readers : ReadersReturn o context data chunk) (clear : d'.Clear) :
      DataLeaves o context data chunk (.thrown e) d' []
  | left {e : Nat} {d' : Device} (readers : ¬ReadersReturn o context data chunk) (state : d'.state = .recvData) :
      DataLeaves o context data chunk (.thrown e) d' []

theorem decodeChunk_leaves {context : GlobalCtx} {data : Bytes} {chunk : Nat}
    (hreaders : ReadersReturn o context data chunk) {d₁ : Device} (hslots : d₁.tx.bufferOutputLen = 0)
    (hbuffer : d₁.tx.buffer.length ≤ decodeBufferLen) :
    wp (decodeChunk pf o) (fun b d' w => DataLeaves o context data chunk (.ret (if b then 0 else -1)) d' w)
      (fun _ _ _ => False) True d₁ := by
  have hroom : 32 * d₁.tx.bufferOutputLen + d₁.tx.buffer.length ≤ decodeBufferLen := by omega
  refine wp_mono (decodeChunk_spec pf o d₁.tx.represents_someState hroom) ?_ (fun _ _ _ h => h) fun _ => trivial
  intro b d' w heffect
  refine .returned hreaders fun hnonneg => ?_
  cases b with
  | true => exact heffect.errorClears
  | false => exact absurd hnonneg (by decide)

theorem handlerSignTx_data_leaves (pf : Platform) (o : Outcome) {data : Bytes} (chunk : Nat) (hdata : data.length ≤ 255)
    (hbuffer : d.tx.buffer.length ≤ 35) :
    wp (handlerSignTx pf o (Buffer.ofData data) .data chunk)
      (fun v d' w => DataLeaves o d.gContext data chunk (.ret v) d' w)
      (fun e d' w => DataLeaves o d.gContext data chunk (.thrown e) d' w) True d := by
  have hlimit : decodeBufferLen = 300 := rfl
  unfold handlerSignTx
  rw [wp_bind, wp_modify, wp_bind, wp_get]
  have hslots : (d.withTx d.tx.resetCall).tx.bufferOutputLen = 0 := rfl
  have hbuffer' : (d.withTx d.tx.resetCall).tx.buffer.length ≤ 35 := hbuffer
  have hreaders : ReadersReturn o d.gContext data chunk ↔
      ReadersReturn o (d.withTx d.tx.resetCall).gContext data chunk := Iff.rfl
  generalize d.gContext = context at hreaders
  generalize d.withTx d.tx.resetCall = d at hslots hbuffer' hreaders
  rw [ReadersReturn.eq_def o d.gContext] at hreaders
  dsimp only
  rw [wp_ite]
  refine ⟨fun happroved => ?_, fun hopen => ?_⟩
  · rw [wp_bzeroMenuReply]
    refine .returned (hreaders.mpr ?_) fun _ => errorClears_of_clear (clear_of_zero rfl)
    by_cases hfirst : chunk = 0
    · rw [if_pos hfirst]
      exact Or.inl happroved
    · rw [if_neg hfirst]
      exact fun hrecv => nomatch happroved.symm.trans hrecv
  rw [wp_ite]
  refine ⟨fun hmisfit => ?_, fun hfits => ?_⟩
  · rw [wp_bzeroMenuReply]
    refine .returned (hreaders.mpr ?_) fun _ => errorClears_of_clear (clear_of_zero rfl)
    rw [if_neg (Nat.ne_of_gt hmisfit.1)]
    exact fun hrecv => absurd hrecv hmisfit.2
  rw [wp_accepted, receiveData, wp_bind]
  simp only [List.nil_append]
  rcases Nat.eq_zero_or_pos chunk with rfl | hlater
  · rw [if_pos rfl] at hreaders
    by_cases hstate : d.state = .recvData
    · unfold takeChunk
      rw [if_pos rfl, wp_bind, wp_get, if_pos hstate]
      exact .cleared (hreaders.mpr (Or.inr (Or.inl hstate))) (clear_of_zero rfl)
    · have hlen : data.length ≤ decodeBufferLen := by omega
      refine wp_mono (wp_and (takeChunk_opens o hlen d hstate) (takeChunk_first_spec o hlen d hstate)) ?_ ?_
        fun h => h.1.elim
      · rintro _ _ _ ⟨hopens, rfl, changeLen, changeInfo, offset, _, _, _, hheader, rfl⟩
        refine wp_mono (decodeChunk_leaves (hreaders.mpr (Or.inr (Or.inr hopens))) rfl ?_) (fun _ _ _ h => h)
          (fun _ _ _ h => h.elim) id
        show ((data.drop offset).drop 5).length ≤ decodeBufferLen
        simp only [List.length_drop]
        omega
      · rintro e d' _ ⟨⟨hnot, rfl, hrecv⟩, _⟩
        refine .left (fun h => ?_) hrecv
        rcases hreaders.mp h with happroved | hrecv | hopens
        · exact hopen happroved
        · exact hstate hrecv
        · exact hnot hopens
  · rw [if_neg (Nat.ne_of_gt hlater)] at hreaders
    have hstate : d.state = .recvData := by
      by_contra h
      exact hfits ⟨hlater, h⟩
    rw [takeChunk_later o hlater]
    cases hhash : cxHashNoThrow o d.tx.sha256 data with
    | none => exact .left (fun h => hreaders.mp h hstate hhash) hstate
    | some m =>
        have hhashed : ReadersReturn o context data chunk := by
          refine hreaders.mpr fun _ => ?_
          rw [hhash]
          exact Option.some_ne_none m
        dsimp only
        rw [if_neg (by omega)]
        refine wp_mono (decodeChunk_leaves hhashed hslots ?_) (fun _ _ _ h => h) (fun _ _ _ h => h.elim) id
        show (d.tx.buffer ++ data).length ≤ decodeBufferLen
        rw [List.length_append]
        omega

/-- What a data command does before the application goes back to waiting. -/
inductive DataDispatched (o : Outcome) (cmd : Command) (d : Device) : Ending → Device → List Obs → Prop where
  | noData {v : Int} {d' : Device} {w : List Obs} (empty : cmd.data = []) (context : d'.gContext = d.gContext) :
      DataDispatched o cmd d (.ret v) d' w
  | handled {r : Ending} {d' : Device} {w : List Obs} (data : cmd.data ≠ [])
      (leaves : DataLeaves o d.gContext cmd.data cmd.p2 r d' w) : DataDispatched o cmd d r d' w

theorem apduDispatcher_data_leaves {cmd : Command} (hfits : cmd.Fits) (hcmd : cmd.SendsData)
    (hbuffer : d.tx.buffer.length ≤ 35) :
    wp (apduDispatcher pf o cmd) (fun v d' w => DataDispatched o cmd d (.ret v) d' w)
      (fun e d' w => DataDispatched o cmd d (.thrown e) d' w) True (wake d) := by
  have hdata : cmd.data.length ≤ 255 := hfits
  rw [apduDispatcher_data hcmd, wp_ite]
  refine ⟨fun hempty => ?_, fun hdata' => ?_⟩
  · rw [wp_ioSendSw]
    exact .noData hempty (wake_gContext d)
  · have hbuffer' : (wake d).tx.buffer.length ≤ 35 := by
      rw [Device.tx, wake_gContext]
      exact hbuffer
    have hleaves := handlerSignTx_data_leaves pf o cmd.p2 hdata hbuffer'
    rw [wake_gContext] at hleaves
    exact wp_mono hleaves (fun _ _ _ h => .handled hdata' h) (fun _ _ _ h => .handled hdata' h) id

end Failure

section Failed

variable {pf : Platform} {d d' : Device} {w : List Obs}

/-- The event may answer a data command: it is one, or a press on a screen that one puts up. -/
inductive AnswersData (d : Device) : Event → Prop where
  | command {o : Outcome} {raw : Bytes} {cmd : Command} (parse : apduParser raw = some cmd) (sends : cmd.SendsData) :
      AnswersData d (.apdu o raw)
  | press {o : Outcome} {choice : Bool} (flow : d.flow.OfTx) : AnswersData d (.press o choice)

/-- A failure of the event leaves no session: a data command without data finds none, and with data its readers
return. A failure after a press never leaves one. -/
def FailsCleanly (d : Device) : Event → Prop
  | .apdu o raw => ∀ cmd, apduParser raw = some cmd →
      if cmd.data = [] then d.Clear else ReadersReturn o d.gContext cmd.data cmd.p2
  | .press .. | .quit => True

theorem failsCleanly_command {o : Outcome} {raw : Bytes} {cmd : Command} (hparse : apduParser raw = some cmd) :
    FailsCleanly d (.apdu o raw) ↔
      if cmd.data = [] then d.Clear else ReadersReturn o d.gContext cmd.data cmd.p2 := by
  constructor
  · exact fun h => h cmd hparse
  · intro h cmd' hcmd'
    obtain rfl : cmd = cmd' := Option.some.inj (hparse.symm.trans hcmd')
    exact h

/-- A press that answers with an error leaves a clear context. -/
theorem press_errorClears {o : Outcome} {choice : Bool} (hcallback : d.CallbackSet) (hflow : d.flow.OfTx)
    (ret : handle pf (.press o choice) d = .ret () d' w) : ErrorClears d' w := by
  have ret' : handlePress pf o choice d = .ret () d' w := ret
  cases hscreen : d.flow with
  | confirmTx =>
      have hspec := handlePress_confirmTx pf o choice hcallback hscreen
      rw [wp_of_ret ret'] at hspec
      cases choice with
      | true =>
          rw [if_pos rfl] at hspec
          rw [hspec.2]
          intro data sw hmem hsw
          simp only [List.mem_cons, Obs.response.injEq, reduceCtorEq, List.not_mem_nil, or_false] at hmem
          exact absurd hmem.2 hsw
      | false =>
          rw [if_neg (by decide)] at hspec
          rw [hspec.1]
          exact errorClears_of_clear (clear_of_zero rfl)
  | txOutput =>
      have hspec := handlePress_txOutput pf o choice hcallback hscreen
      rw [wp_of_ret ret'] at hspec
      cases choice with
      | true =>
          rw [if_pos rfl] at hspec
          obtain ⟨tx, _, hends⟩ := hspec
          exact hends.errorClears
      | false =>
          rw [if_neg (by decide)] at hspec
          rw [hspec.1]
          exact errorClears_of_clear (clear_of_zero rfl)
  | menuMain => rw [hscreen] at hflow; exact hflow.elim
  | processing => rw [hscreen] at hflow; exact hflow.elim
  | xpub => rw [hscreen] at hflow; exact hflow.elim
  | address => rw [hscreen] at hflow; exact hflow.elim
  | resetTokenSignatures => rw [hscreen] at hflow; exact hflow.elim
  | signTokenData => rw [hscreen] at hflow; exact hflow.elim

theorem not_clear_of_recvData (h : d.state = .recvData) : ¬d.Clear := fun hclear => nomatch hclear.state.symm.trans h

/-- A data command that is answered with an error leaves a clear context exactly when it fails cleanly. -/
theorem command_clear_iff {o : Outcome} {raw : Bytes} {cmd : Command} (hparse : apduParser raw = some cmd)
    (hcmd : cmd.SendsData) (hbuffer : d.tx.buffer.length ≤ 35) (ret : handle pf (.apdu o raw) d = .ret () d' w)
    {sw : Nat} (hanswered : Answered w sw) (hsw : sw ≠ swOk) : d'.Clear ↔ FailsCleanly d (.apdu o raw) := by
  have hspec := handleCommand_settles pf (R := DataDispatched o cmd d) hparse
    (apduDispatcher_data_leaves (apduParser_fits hparse) hcmd hbuffer)
  have ret' : handleCommand pf o raw d = .ret () d' w := ret
  rw [wp_of_ret ret'] at hspec
  obtain ⟨r, d₁, w₁, w₂, hdispatched, hsettles, rfl⟩ := hspec
  rw [failsCleanly_command hparse]
  obtain ⟨⟨data, hreply⟩, hno⟩ := hanswered
  cases hsettles with
  | restarts => exact absurd (List.mem_append_right _ (List.mem_append_right _ (List.mem_singleton_self _))) hno
  | @resumes io exchange hnonneg =>
      have hsame : Device.Clear { d₁ with gIoState := io, exchange := exchange } ↔ d₁.Clear :=
        ⟨fun h => h.congr rfl, fun h => h.congr rfl⟩
      rw [hsame]
      cases hdispatched with
      | noData empty context =>
          rw [if_pos empty]
          exact ⟨fun h => h.congr context.symm, fun h => h.congr context⟩
      | handled hdata leaves =>
          rw [if_neg hdata]
          cases leaves with
          | returned readers clears =>
              rw [Ending.reply, List.append_nil] at hreply
              exact iff_of_true (clears (hnonneg _ rfl) data sw hreply hsw) readers
          | cleared readers clear => exact iff_of_true clear readers
          | left readers state => exact iff_of_false (not_clear_of_recvData state) readers

/-- In every reachable state, an event that answers a data command with an error cancels the session exactly
when it fails cleanly. -/
theorem failed_data_cancels_iff {h : History Device Event Obs} (run : Run (freeSystem pf) h d) {e : Event}
    (hanswers : AnswersData d e) (ret : handle pf e d = .ret () d' w) {sw : Nat} (hanswered : Answered w sw)
    (hsw : sw ≠ swOk) : Cancelled pf d' ↔ FailsCleanly d e := by
  rw [cancelled_iff_clear]
  cases hanswers with
  | command parse sends => exact command_clear_iff parse sends (tail_invariant.run run) ret hanswered hsw
  | press flow =>
      obtain ⟨⟨data, hreply⟩, _⟩ := hanswered
      exact iff_of_true (press_errorClears (run_callbackSet run) flow ret data sw hreply hsw) trivial

/-- A token that is not registered: the session is cancelled. -/
theorem failed_data_cancels_iff_unregistered :
    ∃ h r, Run (freeSystem countingPlatform) (r :: h) r.post ∧ Answered r.seen swInvalidTx ∧
      FailsCleanly r.pre r.event ∧ (Cancelled countingPlatform r.post ↔ FailsCleanly r.pre r.event) := by
  obtain ⟨h, r, hevent, run, hP⟩ := exists_step_of_play countingPlatform false [] []
    (signTxData 0 ([0, 0, 1, 1, 0, 1] ++ List.replicate 32 0))
    (fun _ r => (Obs.response [] swInvalidTx ∈ r.seen ∧ Obs.restart ∉ r.seen) ∧
      ReadersReturn (.allOk []) r.pre.gContext ([0, 0, 1, 1, 0, 1] ++ List.replicate 32 0) 0) (by decide +kernel)
  obtain ⟨⟨hreply, hno⟩, hreaders⟩ := of_decide_eq_true hP
  have hparse : apduParser ([0xE0, 0x06, 0, 0, UInt8.ofNat 38] ++ ([0, 0, 1, 1, 0, 1] ++ List.replicate 32 0)) =
      some ⟨0xE0, 0x06, 0, 0, [0, 0, 1, 1, 0, 1] ++ List.replicate 32 0⟩ := by decide
  have hanswered : Answered r.seen swInvalidTx := ⟨⟨[], hreply⟩, hno⟩
  have hclean : FailsCleanly r.pre r.event := by
    rw [hevent]
    exact (failsCleanly_command hparse).mpr hreaders
  have run' : Run (freeSystem countingPlatform) ([] ++ r :: h) r.post := run
  obtain ⟨before, _, ret⟩ := run'.before
  have hanswers : AnswersData r.pre r.event := by
    rw [hevent]
    exact .command hparse ⟨⟨rfl, rfl⟩, rfl⟩
  exact ⟨h, r, run, hanswered, hclean, failed_data_cancels_iff before hanswers ret hanswered (by decide)⟩

/-- The header ends before its last byte. The command is answered with an error, and the session is open with
the two inputs of the header. -/
theorem cut_header_keeps_session :
    ∃ h r, r.event = signTxData 0 [0, 0, 1, 0, 2] ∧ Run (waitingSystem countingPlatform) (r :: h) r.post ∧
      AnswersData r.pre r.event ∧ Answered r.seen swWrongDataLength ∧
      (r.post.state = .recvData ∧ r.post.tx.remainingInputs = 2) ∧ ¬Cancelled countingPlatform r.post := by
  obtain ⟨h, r, hevent, run, hP⟩ := exists_step_of_play countingPlatform true [] [] (signTxData 0 [0, 0, 1, 0, 2])
    (fun _ r => (Obs.response [] swWrongDataLength ∈ r.seen ∧ Obs.restart ∉ r.seen) ∧
      r.post.state = .recvData ∧ r.post.tx.remainingInputs = 2) (by decide +kernel)
  obtain ⟨⟨hreply, hno⟩, hstate, hinputs⟩ := of_decide_eq_true hP
  have hparse : apduParser [0xE0, 0x06, 0, 0, 5, 0, 0, 1, 0, 2] = some ⟨0xE0, 0x06, 0, 0, [0, 0, 1, 0, 2]⟩ := by decide
  have hanswers : AnswersData r.pre r.event := by
    rw [hevent]
    exact .command hparse ⟨⟨rfl, rfl⟩, rfl⟩
  refine ⟨h, r, hevent, run, hanswers, ⟨⟨[], hreply⟩, hno⟩, ⟨hstate, hinputs⟩, ?_⟩
  exact fun hcancelled => not_clear_of_recvData hstate hcancelled.clear

end Failed

end HathorApp
