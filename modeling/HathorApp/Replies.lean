import HathorApp.Runs

/-!
Who owes a reply. A command is replied to at once, or it puts up a screen and the reply is owed until the
user has answered; a press replies and takes the screen down, or puts up the next one. A host that waits for
each reply therefore only finds a device on which no screen asks anything.
-/

namespace HathorApp

open ProgramLogic StreamDecoder TraceRun

/-- The replies handed to `io_send_response`. -/
def replies (w : List Obs) : List (Bytes × Nat) := w.filterMap fun
  | .response data sw => some (data, sw)
  | _ => none

@[simp] theorem replies_nil : replies [] = [] := rfl

@[simp] theorem replies_append (u w : List Obs) : replies (u ++ w) = replies u ++ replies w := List.filterMap_append

@[simp] theorem replies_response (data : Bytes) (sw : Nat) (w : List Obs) :
    replies (.response data sw :: w) = (data, sw) :: replies w := rfl

@[simp] theorem replies_display (screen : Screen) (w : List Obs) : replies (.display screen :: w) = replies w := rfl

@[simp] theorem replies_derive (path : Bip32Path) (w : List Obs) : replies (.derive path :: w) = replies w := rfl

@[simp] theorem replies_restart (w : List Obs) : replies (.restart :: w) = replies w := rfl

theorem length_replies_replyOf (data : Bytes) (sw : Nat) : (replies [replyOf data sw]).length = 1 := by
  unfold replyOf
  split
  · rfl
  · rfl

theorem Silent.replies {w : List Obs} (hw : Silent w) : replies w = [] := by
  apply List.filterMap_eq_nil_iff.mpr
  intro e he
  have hinternal := hw e he
  cases e <;> first | rfl | exact hinternal.elim

/-- No reply is sent and no screen put up, and a reply that is owed stays owed. -/
structure Quiet (d d' : Device) (w : List Obs) : Prop where
  none : replies w = []
  io : d'.gIoState = d.gIoState
  flow : d'.flow = d.flow
  exchange : d'.exchange = d.exchange

theorem quiet_composable : Composable Quiet where
  refl _ := ⟨rfl, rfl, rfl, rfl⟩
  trans h h' := by
    refine ⟨?_, h'.io.trans h.io, h'.flow.trans h.flow, h'.exchange.trans h.exchange⟩
    rw [replies_append, h.none, h'.none, List.append_nil]

/-- The ways a handler ends. One that fails makes the application start anew. -/
inductive Concludes (raises : Flow → Prop) (d : Device) : Ending → Device → List Obs → Prop where
  | replied {v : Int} {d' : Device} {w : List Obs} (one : (replies w).length = 1) (ready : d'.gIoState = .ready)
      (screen : d'.flow = d.flow ∨ d'.flow.asks = false) (nonneg : d.gIoState ≠ .ready → 0 ≤ v) :
      Concludes raises d (.ret v) d' w
  | asks {v : Int} {d' : Device} {w : List Obs} (none : replies w = []) (io : d'.gIoState = d.gIoState)
      (screen : d'.flow.asks = true) (raised : raises d'.flow) (nonneg : 0 ≤ v) : Concludes raises d (.ret v) d' w
  | throws {e : Nat} {d' : Device} {w : List Obs} (quiet : Quiet d d' w) : Concludes raises d (.thrown e) d' w
  | fails {v : Int} {d' : Device} {w : List Obs} (negative : v < 0) : Concludes raises d (.ret v) d' w

/-- A handler that concludes from every state, unless it leaves its memory. -/
def Concluding (raises : Flow → Prop) (p : App Int) : Prop :=
  ∀ d, wp p (fun v d' w => Concludes raises d (.ret v) d' w) (fun e d' w => Concludes raises d (.thrown e) d' w) True d

section Rules

variable {raises : Flow → Prop}

theorem Quiet.concludes {d d₁ d' : Device} {u w : List Obs} {r : Ending} (hquiet : Quiet d d₁ u)
    (h : Concludes raises d₁ r d' w) : Concludes raises d r d' (u ++ w) := by
  cases h with
  | replied one ready screen nonneg =>
      refine .replied ?_ ready (hquiet.flow ▸ screen) (hquiet.io ▸ nonneg)
      rw [replies_append, hquiet.none, List.nil_append]
      exact one
  | asks none io screen raised nonneg =>
      refine .asks ?_ (io.trans hquiet.io) screen raised nonneg
      rw [replies_append, hquiet.none, none, List.append_nil]
  | throws quiet => exact .throws (quiet_composable.trans hquiet quiet)
  | fails negative => exact .fails negative

theorem Concludes.mono {raises' : Flow → Prop} (h : ∀ flow, raises flow → raises' flow) {d d' : Device} {r : Ending}
    {w : List Obs} (hd : Concludes raises d r d' w) : Concludes raises' d r d' w := by
  cases hd with
  | replied one ready screen nonneg => exact .replied one ready screen nonneg
  | asks none io screen raised nonneg => exact .asks none io screen (h _ raised) nonneg
  | throws quiet => exact .throws quiet
  | fails negative => exact .fails negative

theorem Concluding.mono {raises' : Flow → Prop} {p : App Int} (hp : Concluding raises p)
    (h : ∀ flow, raises flow → raises' flow) : Concluding raises' p := by
  intro d
  exact wp_mono (hp d) (fun _ _ _ hd => hd.mono h) (fun _ _ _ hd => hd.mono h) id

/-- A handler that concludes, and does not fail either when a reply is awaited. -/
def Answering (raises : Flow → Prop) (p : App Int) : Prop :=
  ∀ d, wp p (fun v d' w => Concludes raises d (.ret v) d' w ∧ (d.gIoState ≠ .ready → 0 ≤ v))
    (fun e d' w => Concludes raises d (.thrown e) d' w) True d

theorem Answering.concluding {p : App Int} (hp : Answering raises p) : Concluding raises p := by
  intro d
  exact wp_mono (hp d) (fun _ _ _ h => h.1) (fun _ _ _ h => h) id

theorem Answering.after {α : Type} {p : App α} {f : α → App Int} (hp : Within Quiet p)
    (hf : ∀ a, Answering raises (f a)) : Answering raises (p >>= f) := by
  intro d
  rw [wp_bind]
  refine wp_mono (hp d) ?_ (fun _ _ _ h => .throws h) id
  intro a d₁ w hquiet
  refine wp_mono (hf a d₁) ?_ (fun _ _ _ h => hquiet.concludes h) id
  intro v d' w' h
  refine ⟨hquiet.concludes h.1, fun hio => h.2 ?_⟩
  rw [hquiet.io]
  exact hio

theorem Answering.ite {c : Prop} [Decidable c] {p q : App Int} (hp : c → Answering raises p)
    (hq : ¬c → Answering raises q) : Answering raises (if c then p else q) := by
  by_cases hc : c
  · rw [if_pos hc]
    exact hp hc
  · rw [if_neg hc]
    exact hq hc

theorem Answering.mono {raises' : Flow → Prop} {p : App Int} (hp : Answering raises p)
    (h : ∀ flow, raises flow → raises' flow) : Answering raises' p := by
  intro d
  exact wp_mono (hp d) (fun _ _ _ hd => ⟨hd.1.mono h, hd.2⟩) (fun _ _ _ hd => hd.mono h) id

theorem replyResult_nonneg {d : Device} (hio : d.gIoState ≠ .ready) : 0 ≤ replyResult d := by
  rw [replyResult, if_neg hio]

theorem answering_ioSendResponse (data : Bytes) (sw : Nat) : Answering raises (ioSendResponse data sw) := by
  intro d
  rw [wp_ioSendResponse]
  exact ⟨.replied (length_replies_replyOf data sw) rfl (Or.inl rfl) replyResult_nonneg, replyResult_nonneg⟩

theorem answering_ioSendSw (sw : Nat) : Answering raises (ioSendSw sw) := by
  intro d
  rw [wp_ioSendSw]
  exact ⟨.replied rfl rfl (Or.inl rfl) replyResult_nonneg, replyResult_nonneg⟩

theorem concludes_refused {d : Device} {v : Int} {w : List Obs} (one : (replies w).length = 1)
    (hnonneg : d.gIoState ≠ .ready → 0 ≤ v) : Concludes raises d (.ret v) d.refused w :=
  .replied one rfl (Or.inr rfl) hnonneg

theorem answering_bzeroAndReply {sw : Nat} {v : Int} (hv : 0 ≤ v) :
    Answering raises (bzeroAndReply sw >>= fun _ => pure v) := by
  intro d
  rw [wp_bind, wp_bzeroAndReply, wp_pure]
  exact ⟨concludes_refused rfl fun _ => hv, fun _ => hv⟩

theorem answering_askUser {callback : Callback} {flow : Flow} (hasks : flow.asks = true) (hraises : raises flow) :
    Answering raises (askUser callback flow >>= fun _ => pure 0) := by
  intro d
  rw [wp_bind, wp_askUser, wp_pure]
  exact ⟨.asks rfl rfl hasks hraises (Int.le_refl 0), fun _ => Int.le_refl 0⟩

/-- The parts of the device in which a reply and a screen show. -/
def Device.replyPart (d : Device) : IoState × Flow × Exchange := (d.gIoState, d.flow, d.exchange)

/-- An update of the rest of the device is quiet. -/
theorem quiet_modify {f : Device → Device} (h : ∀ d, (f d).replyPart = d.replyPart) : Within Quiet (Prog.modify f) := by
  refine .modify fun d => ⟨rfl, ?_, ?_, ?_⟩
  · exact congrArg Prod.fst (h d)
  · exact congrArg (fun part => part.2.1) (h d)
  · exact congrArg (fun part => part.2.2) (h d)

theorem quiet_emit_derive (path : Bip32Path) : Within Quiet (Prog.emit (.derive path)) :=
  .emit fun _ => ⟨rfl, rfl, rfl, rfl⟩

end Rules

section Handlers

variable {pf : Platform} {o : Outcome} {raises : Flow → Prop}

theorem quiet_readContextPath (cdata : Buffer) : Within Quiet (readContextPath cdata) := by
  have hr := quiet_composable
  refine .bind hr (.get hr) fun d => .bind hr ?_ fun _ => .pure hr _
  exact quiet_modify fun _ => rfl

theorem quiet_deriveAddress : Within Quiet (deriveAddress pf o) := by
  have hr := quiet_composable
  refine .bind hr (.get hr) fun d => .bind hr (quiet_emit_derive _) fun _ => ?_
  split
  · exact .throw hr _
  · exact quiet_modify fun _ => rfl

theorem answering_uiDisplayConfirmAddress : Answering (· = .address) (uiDisplayConfirmAddress pf o) := by
  have hr := quiet_composable
  refine .after (.get hr) fun d => .ite (fun _ => .after ?_ fun _ => answering_ioSendSw _) fun _ => ?_
  · exact quiet_modify fun _ => rfl
  · refine .after (quiet_modify fun _ => rfl) fun _ => ?_
    refine .after (quiet_emit_derive _) fun _ => ?_
    split
    · exact answering_bzeroAndReply (by decide)
    · refine .after (quiet_modify fun _ => rfl) fun _ => ?_
      exact answering_askUser rfl rfl

theorem answering_handlerGetAddress (cdata : Buffer) : Answering (· = .address) (handlerGetAddress pf o cdata) := by
  refine .after (quiet_modify fun _ => rfl) fun _ => ?_
  refine .after (quiet_readContextPath cdata) fun read => .ite (fun _ => ?_) fun _ => answering_ioSendSw _
  exact .after quiet_deriveAddress fun _ => answering_uiDisplayConfirmAddress

theorem quiet_deriveXpubKey : Within Quiet (deriveXpubKey pf o) := by
  have hr := quiet_composable
  refine .bind hr (.get hr) fun d => .bind hr (quiet_emit_derive _) fun _ => ?_
  split
  · exact .throw hr _
  · split
    · exact .throw hr _
    · exact quiet_modify fun _ => rfl

theorem quiet_deriveXpubParent : Within Quiet (deriveXpubParent pf o) := by
  have hr := quiet_composable
  refine .bind hr (.get hr) fun d => .ite (fun _ => .overrun) fun _ => .bind hr (quiet_emit_derive _) fun _ => ?_
  split
  · exact .throw hr _
  · exact quiet_modify fun _ => rfl

theorem answering_uiDisplayXpubConfirm : Answering (· = .xpub) uiDisplayXpubConfirm := by
  refine .after (.get quiet_composable) fun d => .ite (fun _ => .after ?_ fun _ => answering_ioSendSw _) fun _ => ?_
  · exact quiet_modify fun _ => rfl
  · exact answering_askUser rfl rfl

theorem answering_handlerGetXpub (cdata : Buffer) : Answering (· = .xpub) (handlerGetXpub pf o cdata) := by
  refine .after (quiet_modify fun _ => rfl) fun _ => ?_
  refine .after (quiet_readContextPath cdata) fun read => .ite (fun _ => ?_) fun _ => answering_ioSendSw _
  refine .after quiet_deriveXpubKey fun _ => .after quiet_deriveXpubParent fun _ => ?_
  exact answering_uiDisplayXpubConfirm

theorem answering_uiDisplaySignTokenData : Answering (· = .signTokenData) uiDisplaySignTokenData := by
  refine .after (.get quiet_composable) fun d => .ite (fun _ => answering_bzeroAndReply (by decide)) fun _ => ?_
  refine .after (quiet_modify fun _ => rfl) fun _ => ?_
  exact answering_askUser rfl rfl

theorem answering_handlerSignTokenData (cdata : Buffer) : Answering (· = .signTokenData) (handlerSignTokenData cdata) := by
  refine .after (quiet_modify fun _ => rfl) fun _ => ?_
  split
  refine .after (quiet_modify fun _ => rfl) fun _ => ?_
  exact .ite (fun _ => answering_uiDisplaySignTokenData) fun _ => answering_ioSendSw _

theorem quiet_checkTokenSignatureFromApdu (cdata : Buffer) : Within Quiet (checkTokenSignatureFromApdu pf o cdata) := by
  have hr := quiet_composable
  unfold checkTokenSignatureFromApdu
  split
  · exact .pure hr _
  · split
    · exact .pure hr _
    · refine .bind hr (fun d => ?_) fun _ => .pure hr _
      rw [wp_getSecret]
      exact ⟨rfl, rfl, rfl, rfl⟩

theorem answering_replyTokenCheck (isTokenVerified : Nat) : Answering raises (replyTokenCheck isTokenVerified) :=
  .ite (fun _ => answering_ioSendSw _) fun _ => answering_ioSendSw _

theorem answering_handlerVerifyTokenSignature (cdata : Buffer) :
    Answering raises (handlerVerifyTokenSignature pf o cdata) := by
  refine .after (quiet_modify fun _ => rfl) fun _ => ?_
  refine .after (quiet_checkTokenSignatureFromApdu cdata) fun _ => ?_
  exact .ite (fun _ => answering_ioSendSw _) fun _ => answering_replyTokenCheck _

theorem answering_registerToken (cdata : Buffer) : Answering raises (registerToken pf o cdata) := by
  have hmodify : ∀ f : Device → TokenDataCtx, Within Quiet (Prog.modify fun d => { d with gTokenSymbols := f d }) :=
    fun f => quiet_modify fun _ => rfl
  refine .after (.get quiet_composable) fun d => .ite (fun _ => ?_) fun _ => ?_
  · exact .after (hmodify fun _ => zeroTokenDataCtx) fun _ => answering_ioSendSw _
  · refine .after (quiet_checkTokenSignatureFromApdu cdata) fun _ => .ite (fun _ => ?_) fun _ => answering_replyTokenCheck _
    refine .after (hmodify _) fun _ => ?_
    exact .ite (fun _ => answering_ioSendSw _) fun _ => answering_ioSendSw _

theorem answering_handlerSendTokenData (first : Bool) (cdata : Buffer) :
    Answering raises (handlerSendTokenData pf o first cdata) := by
  refine .ite (fun _ => .after ?_ fun _ => answering_registerToken cdata) fun _ => answering_registerToken cdata
  exact quiet_modify fun _ => rfl

theorem CheckEnds.concludes {d d' : Device} {w : List Obs} (h : CheckEnds d d' w) {v : Int} (hv : 0 ≤ v) :
    Concludes Flow.OfTx d (.ret v) d' w := by
  cases h with
  | parsed => exact .asks rfl rfl rfl trivial hv
  | foreign => exact concludes_refused rfl fun _ => hv
  | more => exact .replied rfl rfl (Or.inr rfl) fun _ => hv

theorem DisplayEnds.concludes {d d' : Device} {w : List Obs} (h : DisplayEnds pf d d' w) {v : Int} (hv : 0 ≤ v) :
    Concludes Flow.OfTx d (.ret v) d' w := by
  cases h with
  | checked check => exact check.concludes hv
  | failed => exact .replied rfl rfl (Or.inr rfl) fun _ => hv
  | shown => exact .asks rfl rfl rfl trivial hv

theorem concludes_of_tx {d d' : Device} {tx : SignTxCtx} {r : Ending} {w : List Obs}
    (h : Concludes raises (d.withTx tx) r d' w) : Concludes raises d r d' w := by
  have hmoved : Quiet d (d.withTx tx) [] := ⟨rfl, rfl, rfl, rfl⟩
  exact hmoved.concludes h

theorem Silent.concludes {d d' : Device} {r : Ending} {u w : List Obs} (hu : Silent u) (h : Concludes raises d r d' w) :
    Concludes raises d r d' (u ++ w) := by
  have hquiet : Quiet d d u := ⟨hu.replies, rfl, rfl, rfl⟩
  exact hquiet.concludes h

theorem DecodeEffect.concludes {s : TxState} {d d' : Device} {accepted : Bool} {w : List Obs}
    (h : DecodeEffect pf o s d accepted d' w) :
    Concludes Flow.OfTx d (.ret (if accepted then 0 else -1)) d' w := by
  cases h with
  | rejected silent => exact silent.concludes (concludes_refused rfl fun _ => Int.le_refl 0)
  | broken => exact .fails (by decide)
  | awaits silent => exact silent.concludes (.replied rfl rfl (Or.inl rfl) fun _ => Int.le_refl 0)
  | displays silent _ _ _ _ _ ends => exact silent.concludes (concludes_of_tx (ends.concludes (Int.le_refl 0)))

theorem DataEffect.concludes {data : Bytes} {chunk : Nat} {s : TxState} {d d' : Device} {r : Ending} {w : List Obs}
    (h : DataEffect pf o data chunk s d r d' w) : Concludes Flow.OfTx d r d' w := by
  cases h with
  | dropped => exact concludes_refused rfl replyResult_nonneg
  | busy => exact .throws ⟨rfl, rfl, rfl, rfl⟩
  | headerUnread => exact .throws ⟨rfl, rfl, rfl, rfl⟩
  | started _ _ _ _ _ _ _ effect =>
      have hstarted : Quiet d (initSignTxCtx d) [] := ⟨rfl, rfl, rfl, rfl⟩
      exact hstarted.concludes (concludes_of_tx effect.concludes)
  | notHashed => exact .throws ⟨rfl, rfl, rfl, rfl⟩
  | notCopied => exact .throws ⟨rfl, rfl, rfl, rfl⟩
  | continued _ _ _ _ effect => exact concludes_of_tx effect.concludes

theorem SignEffect.concludes {data : Bytes} {d d' : Device} {v : Int} {w : List Obs}
    (h : SignEffect pf o data d v d' w) : Concludes raises d (.ret v) d' w := by
  cases h with
  | unapproved => exact .replied rfl rfl (Or.inl rfl) replyResult_nonneg
  | unread => exact .replied rfl rfl (Or.inl rfl) replyResult_nonneg
  | pathless => exact .fails (by decide)
  | failed => exact .fails (by decide)
  | signed _ _ _ sighash =>
      obtain ⟨tx, rfl⟩ := sighash.frame
      cases sighash with
      | signed =>
          refine .replied ?_ rfl (Or.inl rfl) replyResult_nonneg
          rw [replies_append, List.length_append, length_replies_replyOf]
          rfl

variable (pf o) in
/-- The handlers answer every command but those with a chunk of a transaction and those for a signature of it. Only
SIGN_TOKEN_DATA puts up the screen of a token. -/
theorem apduDispatcher_answers (cmd : Command) :
    Answering (fun flow => flow = .signTokenData → cmd.Is insSignTokenData) (apduDispatcher pf o cmd) ∨
      cmd.Is insSignTx ∧ cmd.data ≠ [] ∧
        (cmd.p1 = 0 ∧ apduDispatcher pf o cmd = handlerSignTx pf o (Buffer.ofData cmd.data) .data cmd.p2 ∨
          cmd.p1 = 1 ∧ apduDispatcher pf o cmd = handlerSignTx pf o (Buffer.ofData cmd.data) .sign cmd.p2) := by
  have hother : ∀ {flow : Flow} {p : App Int}, flow ≠ .signTokenData → Answering (· = flow) p →
      Answering (fun flow => flow = .signTokenData → cmd.Is insSignTokenData) p := by
    intro flow p hflow hp
    exact hp.mono fun flow' hraised htoken => absurd (hraised ▸ htoken) hflow
  have hdispatches := apduDispatcher_dispatches pf o cmd
  generalize apduDispatcher pf o cmd = p at hdispatches
  cases hdispatches with
  | refused => exact Or.inl (answering_ioSendSw _)
  | getVersion => exact Or.inl (answering_ioSendResponse _ _)
  | getAddress => exact Or.inl (hother (by decide) (answering_handlerGetAddress _))
  | getXpub => exact Or.inl (hother (by decide) (answering_handlerGetXpub _))
  | signTxData is p1 nonempty => exact Or.inr ⟨is, nonempty, Or.inl ⟨p1, rfl⟩⟩
  | signTxSign is p1 nonempty => exact Or.inr ⟨is, nonempty, Or.inr ⟨p1, rfl⟩⟩
  | signTxDone =>
      refine Or.inl (.after (quiet_modify fun _ => rfl) fun _ => ?_)
      refine .after (.get quiet_composable) fun _ d => ?_
      rw [wp_bzeroMenuReply]
      exact ⟨concludes_refused rfl replyResult_nonneg, replyResult_nonneg⟩
  | signTokenData is => exact Or.inl ((answering_handlerSignTokenData _).mono fun _ _ _ => is)
  | sendTokenData => exact Or.inl (answering_handlerSendTokenData _ _)
  | verifyTokenSignature => exact Or.inl (answering_handlerVerifyTokenSignature _)
  | resetTokenSignatures => exact Or.inl (hother (by decide) (answering_askUser rfl rfl))

/-- Every command concludes. -/
theorem concluding_apduDispatcher {cmd : Command} (hfits : cmd.Fits) :
    Concluding (fun flow => flow = .signTokenData → cmd.Is insSignTokenData) (apduDispatcher pf o cmd) := by
  have htx : ∀ flow : Flow, flow.OfTx → flow = .signTokenData → cmd.Is insSignTokenData := by
    intro flow hflow htoken
    rw [htoken] at hflow
    exact hflow.elim
  have hlen : cmd.data.length ≤ decodeBufferLen := Nat.le_trans hfits (by decide)
  rcases apduDispatcher_answers pf o cmd with hanswers | ⟨is, hdata, ⟨_, heq⟩ | ⟨_, heq⟩⟩
  · exact hanswers.concluding
  · intro d
    have hreset : Quiet d (d.withTx d.tx.resetCall) [] := ⟨rfl, rfl, rfl, rfl⟩
    rw [heq]
    refine wp_mono (handlerSignTx_data_spec pf o cmd.data cmd.p2 hdata hlen d.tx.represents_someState) ?_ ?_ fun _ => trivial
    · exact fun _ _ _ h => hreset.concludes (h.concludes.mono htx)
    · exact fun _ _ _ h => hreset.concludes (h.concludes.mono htx)
  · intro d
    have hreset : Quiet d (d.withTx d.tx.resetCall) [] := ⟨rfl, rfl, rfl, rfl⟩
    rw [heq]
    refine wp_mono (handlerSignTx_sign_spec pf o cmd.data cmd.p2 d) ?_ (fun _ _ _ h => h.elim) fun _ => trivial
    exact fun _ _ _ h => hreset.concludes h.concludes

end Handlers

section Loop

variable (pf : Platform) (o : Outcome)

/-- The command put up the screen of a token only if it asks for a signature of one. -/
def RawRaises (raw : Bytes) (flow : Flow) : Prop :=
  flow = .signTokenData → ∃ cmd, apduParser raw = some cmd ∧ cmd.Is insSignTokenData

theorem handleCommand_rests (raw : Bytes) (d : Device) :
    wp (handleCommand pf o raw)
      (fun _ d' w => ∃ r d₁ w₁ w₂, Concludes (RawRaises raw) (wake d) r d₁ w₁ ∧ Rests d₁ r d' w₂ ∧ w = w₁ ++ w₂)
      (fun _ _ _ => False) True d := by
  cases hparse : apduParser raw with
  | none =>
      unfold handleCommand
      rw [wp_bind, wp_modify, wp_catchAll, hparse]
      dsimp only
      rw [wp_bind, wp_ioSendSw]
      have hrefused : Concludes (RawRaises raw) (wake d) (.ret 0) { wake d with gIoState := .ready }
          [.response [] swWrongDataLength] := .replied rfl rfl (Or.inl rfl) fun _ => Int.le_refl 0
      refine wp_mono (ioRecvCommand_rests (Int.le_refl 0) _) ?_ (fun _ _ _ h => h.elim) fun _ => trivial
      exact fun _ d' w₂ hrests => ⟨.ret 0, _, _, w₂, hrefused, hrests, rfl⟩
  | some cmd =>
      have hdispatcher : Concluding (RawRaises raw) (apduDispatcher pf o cmd) :=
        (concluding_apduDispatcher (apduParser_fits hparse)).mono fun _ hraised htoken => ⟨cmd, hparse, hraised htoken⟩
      exact handleCommand_ends pf hparse (hdispatcher (wake d))

/-- What a press does: a screen without the step pressed ignores it, another one is closed with a reply, or
the next one is put up. -/
inductive PressEnds (choice : Bool) (d : Device) : Device → List Obs → Prop where
  | ignored (step : (if choice then d.flow.asks else d.flow.rejects) = false) : PressEnds choice d d []
  | replied {d' : Device} {w : List Obs} (asked : d.flow.asks = true) (one : (replies w).length = 1)
      (ready : d'.gIoState = .ready) (closed : d'.flow.asks = false) (exchange : d'.exchange = d.exchange) :
      PressEnds choice d d' w
  | asks {d' : Device} {w : List Obs} (asked : d.flow.asks = true) (none : replies w = [])
      (io : d'.gIoState = d.gIoState) (screen : d'.flow.OfTx) (exchange : d'.exchange = d.exchange) :
      PressEnds choice d d' w

theorem asks_of_rejects {flow : Flow} (h : flow.rejects = true) : flow.asks = true := by
  cases flow <;> first | rfl | cases h

theorem asks_of_ofTx {flow : Flow} (h : flow.OfTx) : flow.asks = true := by
  cases flow <;> first | rfl | exact h.elim

theorem DisplayEnds.exchange {d d' : Device} {w : List Obs} (h : DisplayEnds pf d d' w) : d'.exchange = d.exchange := by
  cases h with
  | checked check => cases check <;> rfl
  | failed => rfl
  | shown => rfl

theorem runCallback_ends {d : Device} {choice : Bool} (hasked : d.flow.asks = true) (callback : Callback) :
    wp (runCallback pf o callback choice) (fun _ d' w => PressEnds choice d d' w) (fun _ _ _ => False) True d := by
  have hrefused : ∀ {w}, (replies w).length = 1 → PressEnds choice d d.refused w :=
    fun one => .replied hasked one rfl rfl rfl
  have hdeny : wp (bzeroAndReply swDeny) (fun _ d' w => PressEnds choice d d' w) (fun _ _ _ => False) True d := by
    rw [wp_bzeroAndReply]
    exact hrefused rfl
  have hreplyOf : ∀ data, (replies ([replyOf data swOk] ++ [Obs.display .menuMain])).length = 1 := by
    intro data
    rw [replies_append, List.length_append, length_replies_replyOf]
    rfl
  cases callback with
  | uiActionTxConfirm =>
      refine (wp_ite _ _ _).mpr ⟨fun _ => ?_, fun _ => hdeny⟩
      simp only [wp_bind, wp_modify, wp_ioSendSw, wp_uxFlowInit]
      exact .replied hasked rfl rfl rfl rfl
  | uiConfirmOutput =>
      cases choice with
      | true =>
          refine wp_mono (uiConfirmOutput_spec pf o d) ?_ (fun _ _ _ h => h.elim) fun _ => trivial
          rintro _ d' w ⟨tx, _, hends⟩
          cases hends with
          | checked check =>
              cases check with
              | parsed => exact .asks hasked rfl rfl trivial rfl
              | foreign => exact hrefused rfl
              | more => exact .replied hasked rfl rfl rfl rfl
          | failed => exact .replied hasked rfl rfl rfl rfl
          | shown => exact .asks hasked rfl rfl trivial rfl
      | false => exact hdeny
  | uiActionConfirmXpub =>
      refine (wp_ite _ _ _).mpr ⟨fun _ => ?_, fun _ => hdeny⟩
      simp only [helperSendResponseXpub, wp_bind, wp_get, wp_ioSendResponse, wp_uiMenuMain]
      exact .replied hasked (hreplyOf _) rfl rfl rfl
  | uiActionConfirmAddress =>
      refine (wp_ite _ _ _).mpr ⟨fun _ => ?_, fun _ => hdeny⟩
      simp only [wp_bind, wp_ioSendSw, wp_uiMenuMain]
      exact .replied hasked rfl rfl rfl rfl
  | uiConfirmResetTokenSignatures =>
      refine (wp_ite _ _ _).mpr ⟨fun _ => ?_, fun _ => ?_⟩
      · simp only [wp_bind, wp_generateSecret, wp_ioSendSw, wp_uiMenuMain]
        exact .replied hasked rfl rfl rfl rfl
      · simp only [wp_bind, wp_ioSendSw, wp_uiMenuMain]
        exact .replied hasked rfl rfl rfl rfl
  | uiActionSignTokenData =>
      refine (wp_ite _ _ _).mpr ⟨fun _ => ?_, fun _ => hdeny⟩
      simp only [helperSendTokenDataSignature, wp_bind, wp_getSecret, wp_get, wp_ioSendResponse, wp_uiMenuMain]
      exact .replied hasked (hreplyOf _) rfl rfl rfl

theorem handlePress_ends (choice : Bool) (d : Device) :
    wp (handlePress pf o choice) (fun _ d' w => PressEnds choice d d' w) (fun _ _ _ => False) True d := by
  unfold handlePress
  rw [wp_bind, wp_get, wp_ite]
  refine ⟨fun hstep => ?_, fun hno => .ignored (by simpa using hno)⟩
  have hasked : d.flow.asks = true := by
    cases choice with
    | true => exact hstep
    | false => exact asks_of_rejects hstep
  split
  · trivial
  · rename_i callback _
    rw [wp_catchAll]
    exact wp_mono (runCallback_ends pf o hasked callback) (fun _ _ _ h => h) (fun _ _ _ h => h.elim) id

/-- A press on the quit step. -/
theorem handleQuit_ends (d : Device) :
    wp handleQuit
      (fun _ d' w => d' = d ∧ w = [] ∨ d.flow = .processing ∧ d'.flow = .menuMain ∧ replies w = [] ∧
        d'.gIoState = d.gIoState ∧ d'.exchange = d.exchange) (fun _ _ _ => False) False d := by
  unfold handleQuit
  rw [wp_bind, wp_get, wp_ite]
  refine ⟨fun hprocessing => ?_, fun _ => Or.inl ⟨rfl, rfl⟩⟩
  simp only [wp_bind, wp_modify, wp_uiMenuMain]
  exact Or.inr ⟨hprocessing, trivial, rfl, rfl, rfl⟩

end Loop

/-- A reply is owed exactly while a screen asks something, and when none is owed a command can be replied
to. -/
structure Device.Disciplined (d : Device) : Prop where
  owed : d.flow.asks = true ↔ d.gIoState = .waiting
  waits : d.gIoState = .waiting → d.exchange = .asynchReply
  listens : d.exchange = .apdu → d.gIoState = .received

theorem disciplined_of_rest {d : Device} (hflow : d.flow.asks = false) (hio : d.gIoState = .received) :
    d.Disciplined := by
  refine ⟨iff_of_false ?_ ?_, fun h => ?_, fun _ => hio⟩
  · rw [hflow]
    decide
  · rw [hio]
    decide
  · rw [hio] at h
    cases h

theorem Device.Disciplined.wake_received {d : Device} (hd : d.Disciplined) :
    (wake d).gIoState = .received := by
  unfold wake
  split
  · rfl
  · rename_i hexchange
    cases hx : d.exchange with
    | apdu => exact hd.listens hx
    | asynchReply => exact absurd hx hexchange

theorem wake_flow (d : Device) : (wake d).flow = d.flow := by
  obtain ⟨io, hwake⟩ := wake_eq d
  rw [hwake]

/-- A command leaves the discipline in place when no reply is owed as it arrives. -/
theorem disciplined_of_concludes {raises : Flow → Prop} {d d₁ d' : Device} {r : Ending} {w₁ w₂ : List Obs}
    (hd : d.Disciplined) (hfree : d.gIoState ≠ .waiting) (hconcludes : Concludes raises (wake d) r d₁ w₁)
    (hrests : Rests d₁ r d' w₂) : d'.Disciplined := by
  have hio := hd.wake_received
  have hclosed : (wake d).flow.asks = false := by
    rw [wake_flow]
    exact Bool.eq_false_iff.mpr fun hasks => hfree (hd.owed.mp hasks)
  cases hrests with
  | restarts => exact disciplined_of_rest rfl rfl
  | thrown =>
      cases hconcludes with
      | throws quiet =>
          apply disciplined_of_rest _ rfl
          rw [← hclosed, ← quiet.flow]
  | replied hnonneg hready =>
      cases hconcludes with
      | replied _ _ screen =>
          apply disciplined_of_rest _ rfl
          rcases screen with hsame | hother
          · rw [← hclosed, ← hsame]
          · exact hother
      | asks _ io =>
          rw [hready, hio] at io
          cases io
      | fails negative => exact absurd hnonneg (Int.not_le.mpr negative)
  | owes hnonneg hreceived =>
      cases hconcludes with
      | replied _ ready =>
          rw [ready] at hreceived
          cases hreceived
      | asks _ _ screen => exact ⟨iff_of_true screen rfl, fun _ => rfl, fun h => nomatch h⟩
      | fails negative => exact absurd hnonneg (Int.not_le.mpr negative)

theorem disciplined_of_press {choice : Bool} {d d' : Device} {w : List Obs} (hd : d.Disciplined)
    (hends : PressEnds choice d d' w) : d'.Disciplined := by
  cases hends with
  | ignored => exact hd
  | replied asked _ ready closed exchange =>
      have hasynch : d'.exchange = .asynchReply := exchange.trans (hd.waits (hd.owed.mp asked))
      refine ⟨iff_of_false ?_ ?_, fun h => ?_, fun h => ?_⟩
      · rw [closed]
        decide
      · rw [ready]
        decide
      · rw [ready] at h
        cases h
      · rw [hasynch] at h
        cases h
  | asks asked _ io screen exchange =>
      have hwaiting : d'.gIoState = .waiting := io.trans (hd.owed.mp asked)
      have hasynch : d'.exchange = .asynchReply := exchange.trans (hd.waits (hd.owed.mp asked))
      exact ⟨iff_of_true (asks_of_ofTx screen) hwaiting, fun _ => hasynch, fun h => nomatch hasynch.symm.trans h⟩

section Run

variable {pf : Platform} {h : History Device Event Obs} {d : Device}

/-- A step keeps the discipline, when a command is sent after the reply to the last one only. -/
theorem handle_disciplined {e : Event} (hd : d.Disciplined) (admitted : (waitingSystem pf).admits d e) :
    wp (handle pf e) (fun _ d' _ => d'.Disciplined) (fun _ _ _ => True) True d := by
  cases e with
  | apdu o raw =>
      have hfree : d.gIoState ≠ .waiting := admitted rfl o raw rfl
      refine wp_mono (handleCommand_rests pf o raw d) ?_ (fun _ _ _ _ => trivial) id
      rintro _ d' w ⟨r, d₁, w₁, w₂, hconcludes, hrests, _⟩
      exact disciplined_of_concludes hd hfree hconcludes hrests
  | press o choice =>
      refine wp_mono (handlePress_ends pf o choice d) ?_ (fun _ _ _ _ => trivial) id
      exact fun _ _ _ hends => disciplined_of_press hd hends
  | quit =>
      refine wp_mono (handleQuit_ends d) ?_ (fun _ _ _ _ => trivial) fun _ => trivial
      rintro _ d' w (⟨rfl, _⟩ | ⟨hprocessing, hmenu, _, hio, hexchange⟩)
      · exact hd
      · have hfree : d'.gIoState ≠ .waiting := by
          rw [hio]
          intro hwaiting
          have hasks := hd.owed.mpr hwaiting
          rw [hprocessing] at hasks
          cases hasks
        refine ⟨iff_of_false ?_ hfree, fun h => absurd h hfree, ?_⟩
        · rw [hmenu]
          decide
        · rw [hexchange, hio]
          exact hd.listens

/-- A host that waits finds the discipline in place, whenever its reply is not owed. -/
theorem run_disciplined (run : Run (waitingSystem pf) h d) : d.Disciplined := by
  apply Run.invariant_all (I := fun _ d => d.Disciplined) _ _ run
  · rintro _ ⟨secret, rfl⟩
    exact disciplined_of_rest rfl rfl
  · exact fun _ _ _ _ hd admitted => handle_disciplined hd admitted

end Run

end HathorApp
