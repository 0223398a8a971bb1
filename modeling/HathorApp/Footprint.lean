import HathorApp.Runs

/-!
What a step can touch. The handlers change the device in a few kinds of updates: of the screen and the
input and output state, of the context without its decoded tokens and outputs, of the registry, of the
secret when it is first asked for, and by the decoder. A relation that contains each kind relates the two
ends of every step, but for a press that resets the secret.
-/

namespace HathorApp

open ProgramLogic

/-- A relation of devices, for programs on the transaction context. -/
def OnTx (r : Device → Device → List Obs → Prop) (tx tx' : SignTxCtx) (w : List Obs) : Prop :=
  ∀ d : Device, r (d.withTx tx) (d.withTx tx') w

theorem onTx_composable {r : Device → Device → List Obs → Prop} (hr : Composable r) : Composable (OnTx r) where
  refl tx d := hr.refl (d.withTx tx)
  trans h h' d := hr.trans (h d) (h' d)

/-- The tokens and outputs of a context are those of another, or it has none. -/
def SignTxCtx.DecodedFrom (tx' tx : SignTxCtx) : Prop :=
  tx'.tokens = tx.tokens ∧ tx'.outputs = tx.outputs ∨
    tx'.tokens = [] ∧ tx'.outputs = zeroSignTxCtx.outputs

theorem SignTxCtx.DecodedFrom.refl (tx : SignTxCtx) : tx.DecodedFrom tx := Or.inl ⟨rfl, rfl⟩

theorem SkipsTo.decodedFrom {start tx : SignTxCtx} (h : SkipsTo start tx) : tx.DecodedFrom start := by
  rw [h.frame]
  exact Or.inl ⟨rfl, rfl⟩

theorem SignTxCtx.DecodedFrom.trans {tx₁ tx₂ tx₃ : SignTxCtx} (h : tx₂.DecodedFrom tx₁) (h' : tx₃.DecodedFrom tx₂) :
    tx₃.DecodedFrom tx₁ := by
  rcases h' with ⟨htokens', houtputs'⟩ | hnone'
  · rcases h with ⟨htokens, houtputs⟩ | ⟨htokens, houtputs⟩
    · exact Or.inl ⟨htokens'.trans htokens, houtputs'.trans houtputs⟩
    · exact Or.inr ⟨htokens'.trans htokens, houtputs'.trans houtputs⟩
  · exact Or.inr hnone'

theorem DigestStep.decodedFrom {pf : Platform} {o : Outcome} {tx tx' : SignTxCtx} {done : Bool}
    (h : DigestStep pf o tx tx' done) : tx'.DecodedFrom tx := by
  cases h with
  | kept => exact .refl tx
  | unhashed => exact .refl tx
  | half => exact Or.inl ⟨rfl, rfl⟩
  | full => exact Or.inl ⟨rfl, rfl⟩

/-- The kinds of updates of the handlers. -/
structure Footprint (pf : Platform) (o : Outcome) (r : Device → Device → List Obs → Prop) : Prop where
  composable : Composable r
  outside : ∀ {d d' : Device} (w : List Obs), d'.gContext = d.gContext → d'.gTokenSymbols = d.gTokenSymbols →
    d'.secret = d.secret → r d d' w
  context : ∀ (d : Device) {ctx : GlobalCtx}, ctx.txInfo.DecodedFrom d.tx → r d { d with gContext := ctx } []
  registry : ∀ (d : Device) (registry : TokenDataCtx), r d { d with gTokenSymbols := registry } []
  secret : ∀ d : Device, r d { d with secret := secretFor o d } []
  decode : ∀ registry, Within (OnTx r) (_decodeElements (verifyChange pf o) registry)

namespace Footprint

variable {pf : Platform} {o : Outcome} {r : Device → Device → List Obs → Prop} (hr : Footprint pf o r)
include hr

theorem then_outside {d d₁ d' : Device} {w : List Obs} (h : r d d₁ []) (hcontext : d'.gContext = d₁.gContext)
    (hregistry : d'.gTokenSymbols = d₁.gTokenSymbols) (hsecret : d'.secret = d₁.secret) : r d d' w := by
  have hnext : r d₁ d' w := hr.outside w hcontext hregistry hsecret
  exact hr.composable.trans h hnext

/-- A step after which only the context differs, from that of another device or by nothing of what was
decoded. -/
theorem of_context {d d' : Device} {w : List Obs} (hfrom : d'.tx.DecodedFrom d.tx)
    (hregistry : d'.gTokenSymbols = d.gTokenSymbols) (hsecret : d'.secret = d.secret) : r d d' w := by
  have hcontext : r d { d with gContext := d'.gContext } [] := hr.context d hfrom
  exact hr.then_outside hcontext rfl hregistry hsecret

theorem ioSendSw (sw : Nat) : Within r (ioSendSw sw) := by
  intro d
  rw [wp_ioSendSw]
  exact hr.outside _ rfl rfl rfl

theorem ioSendResponse (data : Bytes) (sw : Nat) : Within r (ioSendResponse data sw) := by
  intro d
  rw [wp_ioSendResponse]
  exact hr.outside _ rfl rfl rfl

theorem uiMenuMain : Within r uiMenuMain := by
  intro d
  rw [wp_uiMenuMain]
  exact hr.outside _ rfl rfl rfl

theorem askUser (callback : Callback) (flow : Flow) : Within r (askUser callback flow) := by
  intro d
  rw [wp_askUser]
  exact hr.outside _ rfl rfl rfl

theorem refused {d : Device} {w : List Obs} : r d d.refused w := hr.of_context (Or.inr ⟨rfl, rfl⟩) rfl rfl

theorem bzeroAndReply (sw : Nat) : Within r (bzeroAndReply sw) := by
  intro d
  rw [wp_bzeroAndReply]
  exact hr.refused

theorem bzeroMenuReply (sw : Nat) : Within r (bzeroMenuReply sw) := by
  intro d
  rw [wp_bzeroMenuReply]
  exact hr.refused

theorem getSecret : Within r (getSecret o) := by
  intro d
  rw [wp_getSecret]
  exact hr.secret d

theorem emit (e : Obs) : Within r (Prog.emit e) := .emit fun _ => hr.outside _ rfl rfl rfl

/-- An update of the context that leaves what was decoded alone. -/
theorem modify_context {f : Device → Device} (hfrom : ∀ d, (f d).tx.DecodedFrom d.tx)
    (hregistry : ∀ d, (f d).gTokenSymbols = d.gTokenSymbols) (hsecret : ∀ d, (f d).secret = d.secret) :
    Within r (Prog.modify f) := .modify fun d => hr.of_context (hfrom d) (hregistry d) (hsecret d)

theorem checkEnds {d d' : Device} {w : List Obs} (h : CheckEnds d d' w) : r d d' w := by
  cases h with
  | parsed => exact hr.of_context (.refl d.tx) rfl rfl
  | foreign => exact hr.refused
  | more => exact hr.of_context (Or.inl ⟨rfl, rfl⟩) rfl rfl

theorem displayEnds {d d' : Device} {w : List Obs} (h : DisplayEnds pf d d' w) : r d d' w := by
  cases h with
  | checked check => exact hr.checkEnds check
  | failed => exact hr.of_context (Or.inr ⟨rfl, rfl⟩) rfl rfl
  | shown => exact hr.outside _ rfl rfl rfl

/-- The cursors move and the display stops. -/
theorem skipsThenEnds {d d' : Device} {start tx : SignTxCtx} {w : List Obs} (hstart : start.DecodedFrom d.tx)
    (hskips : SkipsTo start tx) (hends : DisplayEnds pf (d.withTx tx) d' w) : r d d' w := by
  have hmoved : r d (d.withTx tx) [] := hr.context d (hstart.trans hskips.decodedFrom)
  have hshown : r (d.withTx tx) d' w := hr.displayEnds hends
  exact hr.composable.trans hmoved hshown

theorem uiDisplayTxOutputs (o' : Outcome) : Within r (uiDisplayTxOutputs pf o') := by
  intro d
  refine wp_mono (uiDisplayTxOutputs_spec pf o' d) ?_ (fun _ _ _ h => h.elim) fun _ => trivial
  rintro _ d' w ⟨_, tx, hskips, _, hends⟩
  exact hr.skipsThenEnds (.refl d.tx) hskips hends

theorem uiConfirmOutput (o' : Outcome) (choice : Bool) : Within r (uiConfirmOutput pf o' choice) := by
  intro d
  cases choice with
  | true =>
      refine wp_mono (uiConfirmOutput_spec pf o' d) ?_ (fun _ _ _ h => h.elim) fun _ => trivial
      rintro _ d' w ⟨tx, hskips, hends⟩
      have hadvance : d.tx.advance.DecodedFrom d.tx := Or.inl ⟨rfl, rfl⟩
      exact hr.skipsThenEnds hadvance hskips hends
  | false =>
      unfold HathorApp.uiConfirmOutput
      exact hr.bzeroAndReply _ d

theorem readContextPath (cdata : Buffer) : Within r (readContextPath cdata) := by
  have hc := hr.composable
  refine .bind hc (.get hc) fun d => ?_
  refine .bind hc (hr.modify_context (fun d => .refl d.tx) (fun _ => rfl) fun _ => rfl) fun _ => ?_
  exact .pure hc _

/-- A part of a request: it derives a key and stores it in the context, or fails. -/
theorem deriveAddress : Within r (deriveAddress pf o) := by
  have hc := hr.composable
  refine .bind hc (.get hc) fun d => .bind hc (hr.emit _) fun _ => ?_
  split
  · exact .throw hc _
  · exact hr.modify_context (fun d => .refl d.tx) (fun _ => rfl) fun _ => rfl

theorem uiDisplayConfirmAddress : Within r (uiDisplayConfirmAddress pf o) := by
  have hc := hr.composable
  refine .bind hc (.get hc) fun d => .ite (fun _ => ?_) fun _ => ?_
  · refine .bind hc (hr.modify_context (fun d => .refl d.tx) (fun _ => rfl) fun _ => rfl) fun _ => ?_
    exact hr.ioSendSw _
  · refine .bind hc (.modify fun d => hr.outside _ rfl rfl rfl) fun _ => .bind hc (hr.emit _) fun _ => ?_
    split
    · exact .bind hc (hr.bzeroAndReply _) fun _ => .pure hc _
    · refine .bind hc (.modify fun d => hr.outside _ rfl rfl rfl) fun _ => ?_
      exact .bind hc (hr.askUser _ _) fun _ => .pure hc _

theorem initRequest (reqType : RequestType) : Within r (Prog.modify (initRequest reqType)) :=
  hr.modify_context (fun _ => Or.inr ⟨rfl, rfl⟩) (fun _ => rfl) fun _ => rfl

theorem handlerGetAddress (cdata : Buffer) : Within r (handlerGetAddress pf o cdata) := by
  have hc := hr.composable
  refine .bind hc (hr.initRequest _) fun _ => .bind hc (hr.readContextPath cdata) fun _ => ?_
  refine .ite (fun _ => ?_) fun _ => hr.ioSendSw _
  exact .bind hc hr.deriveAddress fun _ => hr.uiDisplayConfirmAddress

theorem deriveXpubKey : Within r (deriveXpubKey pf o) := by
  have hc := hr.composable
  refine .bind hc (.get hc) fun d => .bind hc (hr.emit _) fun _ => ?_
  split
  · exact .throw hc _
  · split
    · exact .throw hc _
    · exact hr.modify_context (fun d => .refl d.tx) (fun _ => rfl) fun _ => rfl

theorem deriveXpubParent : Within r (deriveXpubParent pf o) := by
  have hc := hr.composable
  refine .bind hc (.get hc) fun d => .ite (fun _ => .overrun) fun _ => .bind hc (hr.emit _) fun _ => ?_
  split
  · exact .throw hc _
  · exact hr.modify_context (fun d => .refl d.tx) (fun _ => rfl) fun _ => rfl

theorem uiDisplayXpubConfirm : Within r uiDisplayXpubConfirm := by
  have hc := hr.composable
  refine .bind hc (.get hc) fun d => .ite (fun _ => ?_) fun _ => ?_
  · refine .bind hc (hr.modify_context (fun d => .refl d.tx) (fun _ => rfl) fun _ => rfl) fun _ => ?_
    exact hr.ioSendSw _
  · exact .bind hc (hr.askUser _ _) fun _ => .pure hc _

theorem handlerGetXpub (cdata : Buffer) : Within r (handlerGetXpub pf o cdata) := by
  have hc := hr.composable
  refine .bind hc (hr.initRequest _) fun _ => .bind hc (hr.readContextPath cdata) fun _ => ?_
  refine .ite (fun _ => ?_) fun _ => hr.ioSendSw _
  refine .bind hc hr.deriveXpubKey fun _ => .bind hc hr.deriveXpubParent fun _ => ?_
  exact hr.uiDisplayXpubConfirm

theorem bzeroContext : Within r (Prog.modify Device.bzeroContext) :=
  hr.modify_context (fun _ => Or.inr ⟨rfl, rfl⟩) (fun _ => rfl) fun _ => rfl

theorem uiDisplaySignTokenData : Within r uiDisplaySignTokenData := by
  have hc := hr.composable
  refine .bind hc (.get hc) fun d => .ite (fun _ => ?_) fun _ => ?_
  · exact .bind hc (hr.bzeroAndReply _) fun _ => .pure hc _
  · refine .bind hc (.modify fun d => hr.outside _ rfl rfl rfl) fun _ => ?_
    exact .bind hc (hr.askUser _ _) fun _ => .pure hc _

theorem handlerSignTokenData (cdata : Buffer) : Within r (handlerSignTokenData cdata) := by
  have hc := hr.composable
  refine .bind hc hr.bzeroContext fun _ => ?_
  split
  refine .bind hc (hr.modify_context (fun d => .refl d.tx) (fun _ => rfl) fun _ => rfl) fun _ => ?_
  exact .ite (fun _ => hr.uiDisplaySignTokenData) fun _ => hr.ioSendSw _

theorem checkTokenSignatureFromApdu (cdata : Buffer) : Within r (checkTokenSignatureFromApdu pf o cdata) := by
  have hc := hr.composable
  unfold HathorApp.checkTokenSignatureFromApdu
  split
  · exact .pure hc _
  · split
    · exact .pure hc _
    · exact .bind hc hr.getSecret fun _ => .pure hc _

theorem replyTokenCheck (isTokenVerified : Nat) : Within r (replyTokenCheck isTokenVerified) :=
  .ite (fun _ => hr.ioSendSw _) fun _ => hr.ioSendSw _

theorem handlerVerifyTokenSignature (cdata : Buffer) : Within r (handlerVerifyTokenSignature pf o cdata) := by
  have hc := hr.composable
  refine .bind hc hr.bzeroContext fun _ => .bind hc (hr.checkTokenSignatureFromApdu cdata) fun _ => ?_
  exact .ite (fun _ => hr.ioSendSw _) fun _ => hr.replyTokenCheck _

theorem registerToken (cdata : Buffer) : Within r (registerToken pf o cdata) := by
  have hc := hr.composable
  refine .bind hc (.get hc) fun d => .ite (fun _ => ?_) fun _ => ?_
  · exact .bind hc (.modify fun d => hr.registry d _) fun _ => hr.ioSendSw _
  · refine .bind hc (hr.checkTokenSignatureFromApdu cdata) fun _ => .ite (fun _ => ?_) fun _ => hr.replyTokenCheck _
    refine .bind hc (.modify fun d => hr.registry d _) fun _ => ?_
    exact .ite (fun _ => hr.ioSendSw _) fun _ => hr.ioSendSw _

theorem handlerSendTokenData (first : Bool) (cdata : Buffer) : Within r (handlerSendTokenData pf o first cdata) := by
  have hc := hr.composable
  unfold HathorApp.handlerSendTokenData
  refine .ite (fun _ => ?_) fun _ => hr.registerToken cdata
  refine .bind hc (.modify fun d => ?_) fun _ => hr.registerToken cdata
  have hcleared : r d d.bzeroContext [] := hr.context d (Or.inr ⟨rfl, rfl⟩)
  exact hr.composable.trans hcleared (hr.registry d.bzeroContext _)

theorem takeChunk {data : Bytes} (hdata : data.length ≤ decodeBufferLen) (chunk : Nat) :
    Within r (takeChunk o (Buffer.ofData data) chunk) := by
  intro d
  rcases Nat.eq_zero_or_pos chunk with rfl | hlater
  · by_cases hstate : d.state = .recvData
    · unfold HathorApp.takeChunk
      rw [if_pos rfl, wp_bind, wp_get, if_pos hstate]
      exact hr.context d (Or.inr ⟨rfl, rfl⟩)
    · refine wp_mono (takeChunk_first_spec o hdata d hstate) ?_ ?_ False.elim
      · rintro _ d' w ⟨rfl, changeLen, changeInfo, offset, _, _, _, _, rfl⟩
        exact hr.of_context (Or.inr ⟨rfl, rfl⟩) rfl rfl
      · rintro e d' w ⟨rfl, tx, ⟨_, _, _, _, _, _, _, _, rfl⟩, rfl⟩
        exact hr.of_context (Or.inr ⟨rfl, rfl⟩) rfl rfl
  · rw [takeChunk_later o hlater]
    cases cxHashNoThrow o d.tx.sha256 data with
    | none => exact hr.composable.refl d
    | some m =>
        dsimp only
        split
        · exact hr.of_context (Or.inl ⟨rfl, rfl⟩) rfl rfl
        · exact hr.of_context (Or.inl ⟨rfl, rfl⟩) rfl rfl

theorem decodeLoop (registry : TokenDataCtx) (fuel : Nat) :
    Within (OnTx r) (decodeLoop (verifyChange pf o) registry fuel) := by
  have hc := onTx_composable hr.composable
  induction fuel with
  | zero => exact .pure hc _
  | succ fuel ih => exact .bind hc (hr.decode registry) fun _ => .ite (fun _ => ih) fun _ => .pure hc _

theorem decodeElements (registry : TokenDataCtx) :
    Within (OnTx r) (decodeElements (verifyChange pf o) registry) := by
  have hc := onTx_composable hr.composable
  refine .bind hc (.get hc) fun tx => .catchAll hc ?_ fun e => .pure hc _
  exact .bind hc (hr.decodeLoop registry _) fun _ => .ite (fun _ => .pure hc _) fun _ => .overrun

theorem decodeChunk : Within r (decodeChunk pf o) := by
  have hc := hr.composable
  refine .bind hc (.get hc) fun d => .bind hc ?_ fun result => ?_
  · intro d'
    rw [wp_onTx]
    exact wp_mono (hr.decodeElements d.gTokenSymbols d'.tx) (fun _ _ _ h => h d') (fun _ _ _ h => h d') id
  · refine .ite (fun _ => .bind hc (hr.bzeroAndReply _) fun _ => .pure hc _) fun _ => .ite (fun _ => ?_)
      fun _ => .pure hc _
    refine .bind hc (.get hc) fun d' => .ite (fun _ => ?_) fun _ => ?_
    · exact .bind hc (hr.uiDisplayTxOutputs o) fun _ => .pure hc _
    · exact .bind hc (hr.ioSendSw _) fun _ => .pure hc _

theorem resetCall : Within r (Prog.modify fun d : Device => d.withTx d.tx.resetCall) :=
  hr.modify_context (fun _ => Or.inl ⟨rfl, rfl⟩) (fun _ => rfl) fun _ => rfl

theorem handlerSignTx_data {data : Bytes} (hdata : data.length ≤ decodeBufferLen) (chunk : Nat) :
    Within r (handlerSignTx pf o (Buffer.ofData data) .data chunk) := by
  have hc := hr.composable
  refine .bind hc hr.resetCall fun _ => .bind hc (.get hc) fun d => ?_
  refine .ite (fun _ => hr.bzeroMenuReply _) fun _ => .ite (fun _ => hr.bzeroMenuReply _) fun _ => ?_
  have hreceive : Within r (receiveData pf o (Buffer.ofData data) chunk) :=
    .bind hc (hr.takeChunk hdata chunk) fun _ => hr.decodeChunk
  exact .bind hc hreceive fun _ => .ite (fun _ => .pure hc _) fun _ => .pure hc _

theorem sighash {d d' : Device} {signature : Option Bytes} {w : List Obs} (h : Sighash pf o d signature d' w) :
    r d d' w := by
  cases h with
  | keyless => exact hr.outside _ rfl rfl rfl
  | undigested _ step => exact hr.of_context step.decodedFrom rfl rfl
  | unsigned _ step => exact hr.of_context step.decodedFrom rfl rfl
  | signed _ step => exact hr.of_context step.decodedFrom rfl rfl

theorem signEffect {data : Bytes} {d d' : Device} {v : Int} {w : List Obs} (h : SignEffect pf o data d v d' w) :
    r d d' w := by
  have hpath : ∀ path, r d (d.withPath path) [] := fun path => hr.context d (.refl d.tx)
  cases h with
  | unapproved => exact hr.outside _ rfl rfl rfl
  | unread => exact hr.of_context (.refl d.tx) rfl rfl
  | pathless => exact hr.of_context (.refl d.tx) rfl rfl
  | failed _ _ _ sighash =>
      have hsighash := hr.composable.trans (hpath _) (hr.sighash sighash)
      exact hr.composable.trans hsighash (hr.outside _ rfl rfl rfl)
  | signed _ _ _ sighash =>
      have hsighash := hr.composable.trans (hpath _) (hr.sighash sighash)
      exact hr.composable.trans hsighash (hr.outside _ rfl rfl rfl)

theorem handlerSignTx_sign (data : Bytes) (chunk : Nat) :
    Within r (handlerSignTx pf o (Buffer.ofData data) .sign chunk) := by
  intro d
  refine wp_mono (handlerSignTx_sign_spec pf o data chunk d) ?_ (fun _ _ _ h => h.elim) fun _ => trivial
  intro v d' w heffect
  have hreset : r d (d.withTx d.tx.resetCall) [] := hr.context d (Or.inl ⟨rfl, rfl⟩)
  exact hr.composable.trans hreset (hr.signEffect heffect)

theorem handlerSignTx_done (cdata : Buffer) (chunk : Nat) : Within r (handlerSignTx pf o cdata .done chunk) := by
  have hc := hr.composable
  exact .bind hc hr.resetCall fun _ => .bind hc (.get hc) fun _ => hr.bzeroMenuReply _

theorem apduDispatcher {cmd : Command} (hfits : cmd.Fits) : Within r (apduDispatcher pf o cmd) := by
  have hlimit : decodeBufferLen = 300 := rfl
  have hlen : cmd.data.length ≤ decodeBufferLen := by
    have : cmd.data.length ≤ 255 := hfits
    omega
  have hdispatches := apduDispatcher_dispatches pf o cmd
  generalize HathorApp.apduDispatcher pf o cmd = p at hdispatches
  cases hdispatches with
  | refused => exact hr.ioSendSw _
  | getVersion => exact hr.ioSendResponse _ _
  | getAddress => exact hr.handlerGetAddress _
  | getXpub => exact hr.handlerGetXpub _
  | signTxData => exact hr.handlerSignTx_data hlen _
  | signTxSign => exact hr.handlerSignTx_sign _ _
  | signTxDone => exact hr.handlerSignTx_done _ _
  | signTokenData => exact hr.handlerSignTokenData _
  | sendTokenData => exact hr.handlerSendTokenData _ _
  | verifyTokenSignature => exact hr.handlerVerifyTokenSignature _
  | resetTokenSignatures => exact .bind hr.composable (hr.askUser _ _) fun _ => .pure hr.composable _

theorem startApp (d : Device) {w : List Obs} : r d (startApp d) w := by
  have hcleared : r d (d.bzeroContext) [] := hr.context d (Or.inr ⟨rfl, rfl⟩)
  have hemptied := hr.composable.trans hcleared (hr.registry d.bzeroContext zeroTokenDataCtx)
  exact hr.then_outside hemptied rfl rfl rfl

theorem restartApp : Within r restartApp := by
  intro d
  rw [wp_restartApp]
  exact hr.startApp d

theorem ioRecvCommand : Within r ioRecvCommand := by
  have hc := hr.composable
  refine .bind hc (.get hc) fun d => ?_
  split
  · exact .modify fun d => hr.outside _ rfl rfl rfl
  · exact .modify fun d => hr.outside _ rfl rfl rfl
  · exact hr.restartApp

theorem replyException (e : Nat) : Within r (replyException e) :=
  .bind hr.composable (hr.ioSendSw e) fun _ => hr.ioRecvCommand

theorem handleCommand (raw : Bytes) : Within r (handleCommand pf o raw) := by
  have hc := hr.composable
  refine .bind hc (.modify fun d => ?_) fun _ => .catchAll hc ?_ hr.replyException
  · obtain ⟨io, hwake⟩ := wake_eq d
    rw [hwake]
    exact hr.outside _ rfl rfl rfl
  · cases hparse : apduParser raw with
    | none => exact .bind hc (hr.ioSendSw _) fun _ => hr.ioRecvCommand
    | some cmd =>
        refine .bind hc (hr.apduDispatcher (apduParser_fits hparse)) fun _ => ?_
        exact .ite (fun _ => hr.restartApp) fun _ => hr.ioRecvCommand

/-- The callbacks, less the one that resets the secret. -/
theorem runCallback {callback : Callback} {choice : Bool}
    (hreset : callback = .uiConfirmResetTokenSignatures → choice = false) :
    Within r (runCallback pf o callback choice) := by
  have hc := hr.composable
  have hreply : ∀ sw, Within r (HathorApp.ioSendSw sw >>= fun _ => HathorApp.uiMenuMain) :=
    fun sw => .bind hc (hr.ioSendSw sw) fun _ => hr.uiMenuMain
  cases callback with
  | uiActionTxConfirm =>
      refine .ite (fun _ => ?_) fun _ => hr.bzeroAndReply _
      refine .bind hc (hr.modify_context (fun d => .refl d.tx) (fun _ => rfl) fun _ => rfl) fun _ => ?_
      refine .bind hc (hr.ioSendSw _) fun _ => ?_
      intro d
      rw [wp_uxFlowInit]
      exact hr.outside _ rfl rfl rfl
  | uiConfirmOutput => exact hr.uiConfirmOutput o choice
  | uiActionConfirmXpub =>
      refine .ite (fun _ => .bind hc (.bind hc (.get hc) fun d => ?_) fun _ => hr.uiMenuMain)
        fun _ => hr.bzeroAndReply _
      exact hr.ioSendResponse _ _
  | uiActionConfirmAddress => exact .ite (fun _ => hreply _) fun _ => hr.bzeroAndReply _
  | uiConfirmResetTokenSignatures =>
      obtain rfl := hreset rfl
      exact hreply swDeny
  | uiActionSignTokenData =>
      refine .ite (fun _ => .bind hc (.bind hc hr.getSecret fun _ => .bind hc (.get hc) fun d => ?_)
        fun _ => hr.uiMenuMain) fun _ => hr.bzeroAndReply _
      exact hr.ioSendResponse _ _

theorem handlePress {choice : Bool} {d : Device}
    (hreset : choice = true → d.flow.asks = true → d.gValidateCallback ≠ some .uiConfirmResetTokenSignatures) :
    wp (handlePress pf o choice) (fun _ d' w => r d d' w) (fun _ d' w => r d d' w) True d := by
  have hc := hr.composable
  unfold HathorApp.handlePress
  rw [wp_bind, wp_get, wp_ite]
  refine ⟨fun hasks => ?_, fun _ => hc.refl d⟩
  cases hcallback : d.gValidateCallback with
  | none => trivial
  | some callback =>
      refine Within.catchAll hc (hr.runCallback fun heq => ?_) hr.replyException d
      cases choice with
      | false => rfl
      | true => exact absurd (heq ▸ hcallback) (hreset rfl hasks)

theorem handleQuit : Within r handleQuit := by
  have hc := hr.composable
  refine .bind hc (.get hc) fun d => .ite (fun _ => ?_) fun _ => .pure hc _
  exact .bind hc hr.bzeroContext fun _ => hr.uiMenuMain

end Footprint

/-- What the SDK does during an event. -/
def Event.outcome : Event → Outcome
  | .apdu o _ | .press o _ => o
  | .quit => .allOk []

/-- The event approves a reset of the secret. -/
def Device.Resets (d : Device) (e : Event) : Prop :=
  ∃ o, e = .press o true ∧ d.flow.asks = true ∧ d.gValidateCallback = some .uiConfirmResetTokenSignatures

/-- Every event that resets no secret is within a relation that has the kinds of updates of the handlers. -/
theorem Footprint.handle {pf : Platform} {e : Event} {r : Device → Device → List Obs → Prop}
    (hr : Footprint pf e.outcome r) {d : Device} (hreset : ¬d.Resets e) :
    wp (handle pf e) (fun _ d' w => r d d' w) (fun _ d' w => r d d' w) True d := by
  cases e with
  | apdu o raw => exact hr.handleCommand raw d
  | press o choice =>
      refine hr.handlePress fun hchoice hasks hcallback => ?_
      subst hchoice
      exact hreset ⟨o, rfl, hasks, hcallback⟩
  | quit => exact hr.handleQuit d

/-- The device after a reset of the secret. -/
def Device.reset (d : Device) (o : Outcome) : Device :=
  { d with secret := o.rng.take secretLen, gIoState := .ready, flow := .menuMain }

theorem handlePress_resets (pf : Platform) (o : Outcome) {d : Device} (hasks : d.flow.asks = true)
    (hcallback : d.gValidateCallback = some .uiConfirmResetTokenSignatures) :
    wp (handlePress pf o true) (fun _ d' w => d' = d.reset o ∧ w = [.response [] swOk, .display .menuMain])
      (fun _ _ _ => False) False d := by
  unfold handlePress
  rw [wp_bind, wp_get, if_pos rfl, if_pos hasks, hcallback]
  dsimp only
  rw [wp_catchAll]
  unfold runCallback uiConfirmResetTokenSignatures
  simp only [if_true, wp_bind, wp_generateSecret, wp_ioSendSw, wp_uiMenuMain]
  exact ⟨rfl, rfl⟩

section Run

open TraceRun

variable {pf : Platform} {I : Device → Prop}

/-- The invariant rule for what every kind of update keeps. A reset of the secret changes neither the
context nor the registry. -/
theorem run_of_footprint (hboot : ∀ secret, I (bootDevice secret))
    (hkept : ∀ o, Footprint pf o fun d d' _ => I d → I d')
    (hreset : ∀ d d' : Device, d'.gContext = d.gContext → d'.gTokenSymbols = d.gTokenSymbols → I d → I d')
    {h : History Device Event Obs} {d : Device} (run : Run (freeSystem pf) h d) : I d := by
  apply Run.invariant_all (I := fun _ d => I d) _ _ run
  · rintro _ ⟨secret, rfl⟩
    exact hboot secret
  · intro h d e _ hd _
    by_cases hresets : d.Resets e
    · rcases hresets with ⟨o, rfl, hasks, hcallback⟩
      refine wp_mono (handlePress_resets pf o hasks hcallback) ?_ (fun _ _ _ h => h.elim) fun _ => trivial
      rintro _ d' w ⟨rfl, _⟩
      exact hreset d (d.reset o) rfl rfl hd
    · exact wp_mono ((hkept e.outcome).handle hresets) (fun _ _ _ h => h hd) (fun _ _ _ _ => trivial) id

end Run

end HathorApp
