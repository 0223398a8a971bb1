import HathorApp.Runs

/-!
A sign command that is refused. `handler_sign_tx` resets the cursor of the display and the number of saved
outputs before it looks at the stage and the state, and the path reader stores a path before it tests its
levels. Neither is undone when the command is refused, so a refused sign command leaves the context as it
was only when there was nothing to reset and nothing to store.
-/

namespace HathorApp

open ProgramLogic StreamDecoder TraceRun

variable {pf : Platform} {o : Outcome}

/-- The dispatcher on a sign command. -/
theorem apduDispatcher_sign {cmd : Command} (is : cmd.Is insSignTx) (stage : cmd.p1 = 1) :
    apduDispatcher pf o cmd =
      if cmd.p2 ≠ 0 then ioSendSw swWrongP1P2
      else if cmd.data = [] then ioSendSw swWrongDataLength
      else handlerSignTx pf o (Buffer.ofData cmd.data) .sign cmd.p2 := by
  have hdispatch : apduDispatcher pf o cmd = dispatchSignTx pf o cmd := by
    unfold apduDispatcher
    simp [is.1, is.2, insSignTx, insGetVersion, insGetAddress, insGetXpub]
  rw [hdispatch, dispatchSignTx, stage]
  by_cases hp2 : cmd.p2 = 0
  · by_cases hdata : cmd.data = []
    · simp [hp2, hdata]
    · simp [hp2, hdata]
  · simp [hp2]

/-- What a sign command does before the application goes back to waiting. -/
inductive SignDispatched (pf : Platform) (o : Outcome) (cmd : Command) (d : Device) : Int → Device → List Obs → Prop where
  | badArgument {v : Int} {d' : Device} (context : d'.gContext = d.gContext) :
      SignDispatched pf o cmd d v d' [.response [] swWrongP1P2]
  | noData {v : Int} {d' : Device} (empty : cmd.data = []) (context : d'.gContext = d.gContext) :
      SignDispatched pf o cmd d v d' [.response [] swWrongDataLength]
  | handled {v : Int} {d' : Device} {w : List Obs} (data : cmd.data ≠ [])
      (effect : SignEffect pf o cmd.data d.entered v d' w) : SignDispatched pf o cmd d v d' w

theorem apduDispatcher_sign_spec {cmd : Command} (is : cmd.Is insSignTx) (stage : cmd.p1 = 1) (d : Device) :
    wp (apduDispatcher pf o cmd) (fun v d' w => SignDispatched pf o cmd d v d' w) (fun _ _ _ => False) False
      (wake d) := by
  rw [apduDispatcher_sign is stage, wp_ite]
  refine ⟨fun _ => ?_, fun _ => ?_⟩
  · rw [wp_ioSendSw]
    exact .badArgument (wake_gContext d)
  · rw [wp_ite]
    refine ⟨fun hempty => ?_, fun hdata => ?_⟩
    · rw [wp_ioSendSw]
      exact .noData hempty (wake_gContext d)
    · have hspec := handlerSignTx_sign_spec pf o cmd.data cmd.p2 (wake d)
      rw [wake_resetCall] at hspec
      exact wp_mono hspec (fun _ _ _ h => .handled hdata h) (fun _ _ _ h => h) id

theorem handle_sign {raw : Bytes} {cmd : Command} {d d' : Device} {w : List Obs} (hparse : apduParser raw = some cmd)
    (is : cmd.Is insSignTx) (stage : cmd.p1 = 1) (ret : handle pf (.apdu o raw) d = .ret () d' w) :
    ∃ v d₁ w₁ w₂, SignDispatched pf o cmd d v d₁ w₁ ∧ Settles d₁ (.ret v) d' w₂ ∧ w = w₁ ++ w₂ := by
  have hdispatched : wp (apduDispatcher pf o cmd)
      (fun v d' w => ∃ v', Ending.ret v = .ret v' ∧ SignDispatched pf o cmd d v' d' w)
      (fun e d' w => ∃ v', Ending.thrown e = .ret v' ∧ SignDispatched pf o cmd d v' d' w) False (wake d) :=
    wp_mono (apduDispatcher_sign_spec is stage d) (fun v _ _ h => ⟨v, rfl, h⟩) (fun _ _ _ h => h.elim) id
  have hspec := handleCommand_settles pf (R := fun r d' w => ∃ v, r = .ret v ∧ SignDispatched pf o cmd d v d' w)
    hparse hdispatched
  have ret' : handleCommand pf o raw d = .ret () d' w := ret
  rw [wp_of_ret ret'] at hspec
  obtain ⟨_, d₁, w₁, w₂, ⟨v, rfl, hd₁⟩, hsettles, rfl⟩ := hspec
  exact ⟨v, d₁, w₁, w₂, hd₁, hsettles, rfl⟩

/-- The context is what it was, or entirely cleared. -/
def ContextKept (d d' : Device) : Prop := d'.gContext = d.gContext ∨ d'.gContext = zeroGlobalCtx

instance (d d' : Device) : Decidable (ContextKept d d') := by
  unfold ContextKept
  infer_instance

/-- A path the reader refuses is not stored, or is the one already there: the payload announces more levels
than a path has or than it carries, or it carries the levels of the path. -/
def PathStays (data : Bytes) (path : Bip32Path) : Prop :=
  byteAt data 0 > maxBip32Path ∨ byteAt data 0 * 4 + 1 > data.length ∨ bip32LevelsRead data (byteAt data 0) = path

/-- A refusal of the sign command leaves the context alone: the dispatcher refuses it, or there is no cursor
and no output to reset and no path to store, or the rest of the context is clear already. -/
def RefusedHarmlessly (d : Device) (cmd : Command) : Prop :=
  cmd.data = [] ∨
    (d.tx.displayIndex = 0 ∧ d.tx.bufferOutputLen = 0 ∧
      (d.state = .approved → PathStays cmd.data d.gContext.bip32Path)) ∨
    { d.gContext with txInfo := d.tx.resetCall } = zeroGlobalCtx

instance (d : Device) (cmd : Command) : Decidable (RefusedHarmlessly d cmd) := by
  unfold RefusedHarmlessly PathStays
  infer_instance

theorem resetCall_eq_iff {tx : SignTxCtx} : tx.resetCall = tx ↔ tx.displayIndex = 0 ∧ tx.bufferOutputLen = 0 := by
  constructor
  · intro h
    exact ⟨(congrArg SignTxCtx.displayIndex h).symm, (congrArg SignTxCtx.bufferOutputLen h).symm⟩
  · rintro ⟨hindex, hlen⟩
    cases tx
    simp only at hindex hlen
    subst hindex hlen
    rfl

/-- A path that is refused: what is left of it in the context. -/
theorem refused_path_stays_iff {data : Bytes} {out path : Bip32Path} {rest : Buffer} (hdata : data ≠ [])
    (hread : bufferReadBip32Path (Buffer.ofData data) out = (false, path, rest)) :
    path = out ↔ PathStays data out := by
  have hnonempty : ¬data.length < 1 := by
    have := List.length_pos_iff.mpr hdata
    omega
  have hrefused : bip32PathRead data data.length out = (false, path) := by
    rw [Buffer.ofData_eq, bufferReadBip32Path, Buffer.at, List.drop_zero, Nat.sub_zero] at hread
    dsimp only at hread
    split at hread
    · rename_i hpath
      cases hread
      exact hpath
    · cases hread
  unfold bip32PathRead at hrefused
  unfold PathStays
  by_cases hshort : data.length < 1 ∨ byteAt data 0 > maxBip32Path ∨ byteAt data 0 * 4 + 1 > data.length
  · rw [if_pos hshort] at hrefused
    cases hrefused
    refine iff_of_true rfl ?_
    rcases hshort.resolve_left hnonempty with hdeep | hcut
    · exact Or.inl hdeep
    · exact Or.inr (Or.inl hcut)
  · rw [if_neg hshort] at hrefused
    rw [not_or, not_or] at hshort
    have hlevels : path = bip32LevelsRead data (byteAt data 0) := by
      dsimp only at hrefused
      split at hrefused
      · cases hrefused
        rfl
      · split at hrefused
        · cases hrefused
          rfl
        · cases hrefused
    rw [hlevels]
    constructor
    · exact fun hsame => Or.inr (Or.inr hsame)
    · rintro (hdeep | hcut | hsame)
      · exact absurd hdeep hshort.2.1
      · exact absurd hcut hshort.2.2
      · exact hsame

@[simp] theorem entered_gContext (d : Device) :
    d.entered.gContext = { d.gContext with txInfo := d.tx.resetCall } := by
  show { (wake d).gContext with txInfo := d.tx.resetCall } = _
  rw [wake_gContext]

/-- The context with its cursors reset and a path stored is what it was exactly when both were already so. -/
theorem resetContext_eq_iff {context : GlobalCtx} {path : Bip32Path} :
    { context with txInfo := context.txInfo.resetCall, bip32Path := path } = context ↔
      (context.txInfo.displayIndex = 0 ∧ context.txInfo.bufferOutputLen = 0) ∧ path = context.bip32Path := by
  rw [← resetCall_eq_iff]
  constructor
  · intro h
    exact ⟨congrArg GlobalCtx.txInfo h, congrArg GlobalCtx.bip32Path h⟩
  · rintro ⟨htx, rfl⟩
    rw [htx]

/-- The status words a sign command is refused with. -/
def RefusalSent (w : List Obs) : Prop := Answered w swBadState ∨ Answered w swWrongDataLength

theorem not_refusalSent_of_restart {w : List Obs} (h : .restart ∈ w) : ¬RefusalSent w := by
  rintro (hrefused | hrefused)
  · exact hrefused.2 h
  · exact hrefused.2 h

theorem not_refusalSent_of_replies {w : List Obs}
    (h : ∀ data sw, .response data sw ∈ w → sw ≠ swBadState ∧ sw ≠ swWrongDataLength) : ¬RefusalSent w := by
  rintro (⟨⟨data, hmem⟩, _⟩ | ⟨⟨data, hmem⟩, _⟩)
  · exact (h data _ hmem).1 rfl
  · exact (h data _ hmem).2 rfl

theorem Sighash.replyless {d d' : Device} {r : Option Bytes} {w : List Obs} (h : Sighash pf o d r d' w) (data : Bytes)
    (sw : Nat) : .response data sw ∉ w := by
  cases h <;> simp

/-- A signed command is not answered with a refusal. -/
theorem not_refusalSent_signed {d d' : Device} {signature : Bytes} {w : List Obs}
    (h : Sighash pf o d (some signature) d' w) : ¬RefusalSent (w ++ [replyOf signature swOk]) := by
  apply not_refusalSent_of_replies
  intro data sw hmem
  rcases List.mem_append.mp hmem with hmem | hmem
  · exact absurd hmem (h.replyless data sw)
  · rw [List.mem_singleton, replyOf] at hmem
    split at hmem
    · cases hmem
      decide
    · cases hmem
      decide

/-- What a refusal leaves in the context. -/
theorem SignEffect.refusal {data : Bytes} {d d' : Device} {v : Int} {w : List Obs} (h : SignEffect pf o data d v d' w)
    (hnonneg : 0 ≤ v) (hrefused : RefusalSent w) :
    (d.state ≠ .approved ∧ d'.gContext = d.gContext) ∨
      (d.state = .approved ∧ ∃ path rest,
        bufferReadBip32Path (Buffer.ofData data) d.gContext.bip32Path = (false, path, rest) ∧
        d'.gContext = { d.gContext with bip32Path := path }) := by
  cases h with
  | unapproved state => exact Or.inl ⟨state, rfl⟩
  | unread state read => exact Or.inr ⟨state, _, _, read, rfl⟩
  | pathless => exact absurd hnonneg (by decide)
  | failed => exact absurd hnonneg (by decide)
  | signed _ _ _ sighash => exact absurd hrefused (not_refusalSent_signed sighash)

/-- A refusal of a command with data, by the state and by the path. -/
theorem refused_context_iff {data : Bytes} (hdata : data ≠ []) {context context' : GlobalCtx}
    (h : (context.state ≠ .approved ∧ context' = { context with txInfo := context.txInfo.resetCall }) ∨
      (context.state = .approved ∧ ∃ path rest,
        bufferReadBip32Path (Buffer.ofData data) context.bip32Path = (false, path, rest) ∧
        context' = { context with txInfo := context.txInfo.resetCall, bip32Path := path })) :
    context' = context ∨ context' = zeroGlobalCtx ↔
      (context.txInfo.displayIndex = 0 ∧ context.txInfo.bufferOutputLen = 0 ∧
        (context.state = .approved → PathStays data context.bip32Path)) ∨
      { context with txInfo := context.txInfo.resetCall } = zeroGlobalCtx := by
  rcases h with ⟨hstate, rfl⟩ | ⟨hstate, path, rest, hread, rfl⟩
  · have hkept : { context with txInfo := context.txInfo.resetCall } = context ↔
        (context.txInfo.displayIndex = 0 ∧ context.txInfo.bufferOutputLen = 0) ∧
          context.bip32Path = context.bip32Path := resetContext_eq_iff
    rw [hkept]
    simp [hstate]
  · -- an approved session is not a cleared one
    have hclear : ∀ tx path, { context with txInfo := tx, bip32Path := path } ≠ zeroGlobalCtx := by
      intro tx path hzero
      have hnone : context.state = .none := congrArg GlobalCtx.state hzero
      rw [hnone] at hstate
      cases hstate
    have hclear' : { context with txInfo := context.txInfo.resetCall } ≠ zeroGlobalCtx :=
      hclear context.txInfo.resetCall context.bip32Path
    rw [or_iff_left (hclear _ path), or_iff_left hclear', resetContext_eq_iff, refused_path_stays_iff hdata hread,
      and_assoc]
    simp [hstate]

/-- A sign command that is answered with a bad state or a wrong data length leaves the context as it was, or
clear, exactly when its refusal has nothing to undo. -/
theorem refused_sign_keeps_context_iff {raw : Bytes} {cmd : Command} {d d' : Device} {w : List Obs}
    (hparse : apduParser raw = some cmd) (is : cmd.Is insSignTx) (stage : cmd.p1 = 1)
    (ret : handle pf (.apdu o raw) d = .ret () d' w)
    (hrefused : Answered w swBadState ∨ Answered w swWrongDataLength) :
    ContextKept d d' ↔ RefusedHarmlessly d cmd := by
  obtain ⟨v, d₁, w₁, w₂, hdispatched, hsettles, rfl⟩ := handle_sign hparse is stage ret
  have hrefused : RefusalSent (w₁ ++ w₂) := hrefused
  cases hsettles with
  | restarts =>
      refine absurd hrefused (not_refusalSent_of_restart ?_)
      simp
  | resumes hnonneg =>
      rw [Ending.reply, List.append_nil] at hrefused
      show d₁.gContext = d.gContext ∨ d₁.gContext = zeroGlobalCtx ↔ _
      cases hdispatched with
      | badArgument =>
          refine absurd hrefused (not_refusalSent_of_replies fun data sw hmem => ?_)
          cases List.mem_singleton.mp hmem
          decide
      | noData empty context => exact iff_of_true (Or.inl context) (Or.inl empty)
      | handled hdata effect =>
          have hcontext := effect.refusal (hnonneg v rfl) hrefused
          rw [entered_state, entered_gContext] at hcontext
          rw [RefusedHarmlessly, or_iff_right hdata]
          exact refused_context_iff hdata hcontext

/-- A path of four levels, the last of which is refused. -/
def refusedPath : Bytes := [4] ++ List.replicate 15 0 ++ [2]

/-- A refused path in an approved session resets the cursors and is stored. The same command once more changes nothing. -/
theorem refused_sign_keeps_context_iff_approved :
    (∃ h r, Run (freeSystem countingPlatform) (r :: h) r.post ∧
      r.event = .apdu (.allOk []) ([0xE0, 0x06, 1, 0, 17] ++ refusedPath) ∧ r.pre.state = .approved ∧
      Answered r.seen swWrongDataLength ∧ ¬RefusedHarmlessly r.pre ⟨0xE0, 0x06, 1, 0, refusedPath⟩ ∧
      ¬ContextKept r.pre r.post) ∧
    ∃ h r, Run (freeSystem countingPlatform) (r :: h) r.post ∧
      r.event = .apdu (.allOk []) ([0xE0, 0x06, 1, 0, 17] ++ refusedPath) ∧ r.pre.state = .approved ∧
      Answered r.seen swWrongDataLength ∧ RefusedHarmlessly r.pre ⟨0xE0, 0x06, 1, 0, refusedPath⟩ ∧
      ContextKept r.pre r.post := by
  have hparse : apduParser ([0xE0, 0x06, 1, 0, 17] ++ refusedPath) = some ⟨0xE0, 0x06, 1, 0, refusedPath⟩ := by decide
  have hiff : ∀ h (r : Step Device Event Obs), Run (freeSystem countingPlatform) (r :: h) r.post →
      r.event = .apdu (.allOk []) ([0xE0, 0x06, 1, 0, 17] ++ refusedPath) → Answered r.seen swWrongDataLength →
      (ContextKept r.pre r.post ↔ RefusedHarmlessly r.pre ⟨0xE0, 0x06, 1, 0, refusedPath⟩) := by
    intro h r run hevent hanswered
    cases run with
    | step _ _ ret =>
        dsimp only at hevent
        subst hevent
        exact refused_sign_keeps_context_iff hparse ⟨rfl, rfl⟩ rfl ret (Or.inr hanswered)
  constructor
  · obtain ⟨h, r, hevent, run, hP⟩ := exists_step_of_play countingPlatform false []
      [signTxData 0 ([0, 0, 1, 0, 0, 1] ++ sampleOutput 7), press true, press true]
      (.apdu (.allOk []) ([0xE0, 0x06, 1, 0, 17] ++ refusedPath))
      (fun _ r => r.pre.state = .approved ∧ (Obs.response [] swWrongDataLength ∈ r.seen ∧ Obs.restart ∉ r.seen) ∧
        ¬RefusedHarmlessly r.pre ⟨0xE0, 0x06, 1, 0, refusedPath⟩) (by decide +kernel)
    obtain ⟨happroved, ⟨hreply, hno⟩, hharm⟩ := of_decide_eq_true hP
    have hanswered : Answered r.seen swWrongDataLength := ⟨⟨[], hreply⟩, hno⟩
    exact ⟨h, r, run, hevent, happroved, hanswered, hharm, fun hkept => hharm ((hiff h r run hevent hanswered).mp hkept)⟩
  · obtain ⟨h, r, hevent, run, hP⟩ := exists_step_of_play countingPlatform false []
      [signTxData 0 ([0, 0, 1, 0, 0, 1] ++ sampleOutput 7), press true, press true,
        .apdu (.allOk []) ([0xE0, 0x06, 1, 0, 17] ++ refusedPath)]
      (.apdu (.allOk []) ([0xE0, 0x06, 1, 0, 17] ++ refusedPath))
      (fun _ r => r.pre.state = .approved ∧ (Obs.response [] swWrongDataLength ∈ r.seen ∧ Obs.restart ∉ r.seen) ∧
        RefusedHarmlessly r.pre ⟨0xE0, 0x06, 1, 0, refusedPath⟩) (by decide +kernel)
    obtain ⟨happroved, ⟨hreply, hno⟩, hharmless⟩ := of_decide_eq_true hP
    have hanswered : Answered r.seen swWrongDataLength := ⟨⟨[], hreply⟩, hno⟩
    exact ⟨h, r, run, hevent, happroved, hanswered, hharmless, (hiff h r run hevent hanswered).mpr hharmless⟩

/-- The second of three outputs is on screen when a sign command is refused: the cursor is back at the
first one. -/
theorem refused_sign_moves_cursor :
    ∃ h r, r.event = .apdu (.allOk []) [0xE0, 0x06, 1, 0, 1, 0] ∧ Run (freeSystem countingPlatform) (r :: h) r.post ∧
      Answered r.seen swBadState ∧ (r.pre.state = .recvData ∧ r.pre.flow = .txOutput ∧ r.pre.tx.displayIndex = 1) ∧
      (r.post.state = .recvData ∧ r.post.flow = .txOutput ∧ r.post.tx.displayIndex = 0) ∧
      ¬ContextKept r.pre r.post := by
  obtain ⟨h, r, hevent, run, hP⟩ := exists_step_of_play countingPlatform false []
    [signTxData 0 ([0, 0, 1, 0, 0, 3] ++ sampleOutput 7 ++ sampleOutput 8 ++ sampleOutput 9), press true]
    (.apdu (.allOk []) [0xE0, 0x06, 1, 0, 1, 0])
    (fun _ r => (Obs.response [] swBadState ∈ r.seen ∧ Obs.restart ∉ r.seen) ∧
      (r.pre.state = .recvData ∧ r.pre.flow = .txOutput ∧ r.pre.tx.displayIndex = 1) ∧
      (r.post.state = .recvData ∧ r.post.flow = .txOutput ∧ r.post.tx.displayIndex = 0) ∧
      ¬ContextKept r.pre r.post) (by decide +kernel)
  obtain ⟨⟨hreply, hno⟩, hpre, hpost, hmoved⟩ := of_decide_eq_true hP
  exact ⟨h, r, hevent, run, ⟨⟨[], hreply⟩, hno⟩, hpre, hpost, hmoved⟩

end HathorApp
