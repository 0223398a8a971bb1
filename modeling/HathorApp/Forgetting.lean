import HathorApp.TwoRuns
import HathorApp.Replies

/-!
What the device remembers of its past. Besides the context, the registry and the secret there are the texts of earlier
screens, the callback of the last one and the way the application last rested; no program lets the outside see them. A
device whose session is over is therefore one that was freshly started with the same secret and registry.
-/

namespace HathorApp

open ProgramLogic TraceRun

/-- The device without what is written before it is read. -/
def Device.core (d : Device) : Device :=
  { d with
    exchange := .apdu
    gValidateCallback := none
    gOutputIndex := []
    gAddress := []
    gAmount := []
    gTokenSymbol := []
    gTokenName := []
    gTokenUid := [] }

/-- The devices differ in that at most. -/
def SameCore (d d' : Device) : Prop := d.core = d'.core

/-- What depends on the core only is the same. -/
theorem SameCore.reads {γ : Type} {d d' : Device} (h : SameCore d d') {f : Device → γ} (hf : ∀ d, f d = f d.core) :
    f d = f d' := by
  calc
    f d = f d.core := hf d
    _ = f d'.core := by rw [show d.core = d'.core from h]
    _ = f d' := (hf d').symm

theorem SameCore.assigns {d d' : Device} (h : SameCore d d') {f : Device → Device} (hf : ∀ d, (f d).core = (f d.core).core) :
    SameCore (f d) (f d') := h.reads hf

section Programs

variable {pf : Platform} {o : Outcome}

theorem twice_get {α : Type} {f : Device → App α} {Q : α → Device → Device → Prop} (hread : ∀ d, f d = f d.core)
    (hf : ∀ d, Twice SameCore (f d) Q SameCore) : Twice SameCore (Prog.get >>= f) Q SameCore :=
  .get (fun _ _ h => h.reads hread) hf

theorem blind_get {α : Type} {f : Device → App α} (hread : ∀ d, f d = f d.core) (hf : ∀ d, Blind SameCore (f d)) :
    Blind SameCore (Prog.get >>= f) := twice_get hread hf

theorem blind_modify {f : Device → Device} (hf : ∀ d, (f d).core = (f d.core).core) :
    Blind SameCore (Prog.modify f : App Unit) := Twice.modify fun _ _ h => h.assigns hf

theorem blind_ioSendReply (data : Bytes) (sw : Nat) : Blind SameCore (ioSendReply data sw) := by
  refine .bind (.emit _) fun _ => blind_get (fun _ => rfl) fun d => ?_
  split
  · exact .pure _
  · exact .bind (blind_modify fun _ => rfl) fun _ => .pure _
  · exact .bind (blind_modify fun _ => rfl) fun _ => .pure _

theorem blind_ioSendSw (sw : Nat) : Blind SameCore (ioSendSw sw) := blind_ioSendReply _ _

theorem blind_ioSendResponse (data : Bytes) (sw : Nat) : Blind SameCore (ioSendResponse data sw) :=
  .ite (blind_ioSendSw _) (blind_ioSendReply _ _)

/-- The flows without texts. -/
def Flow.Plain (flow : Flow) : Prop := flow ≠ .txOutput ∧ flow ≠ .address ∧ flow ≠ .signTokenData

theorem blind_uxFlowInit {flow : Flow} (hplain : flow.Plain) : Blind SameCore (uxFlowInit flow) := by
  intro d d' h
  have hscreen : ∀ d : Device, ({ d with flow := flow } : Device).screen = ({ d.core with flow := flow } : Device).screen := by
    intro d
    cases flow <;> first | rfl | simp [Flow.Plain] at hplain
  have hshown : ({ d with flow := flow } : Device).screen = ({ d' with flow := flow } : Device).screen := h.reads hscreen
  show (Res.ret () _ [Obs.display ({ d with flow := flow } : Device).screen]).Alike _ _
    (.ret () _ [.display ({ d' with flow := flow } : Device).screen])
  rw [hshown]
  exact .ret (h.assigns (f := fun d => { d with flow := flow }) fun _ => rfl)

theorem blind_uiMenuMain : Blind SameCore uiMenuMain := blind_uxFlowInit (by simp [Flow.Plain])

theorem blind_askUser (callback : Callback) {flow : Flow} (hplain : flow.Plain) : Blind SameCore (askUser callback flow) :=
  .bind (blind_modify fun _ => rfl) fun _ => blind_uxFlowInit hplain

theorem blind_bzeroAndReply (sw : Nat) : Blind SameCore (bzeroAndReply sw) :=
  .bind (blind_modify fun _ => rfl) fun _ => .bind (blind_ioSendSw sw) fun _ => blind_uiMenuMain

theorem blind_generateSecret : Blind SameCore (generateSecret o) := blind_modify fun _ => rfl

theorem blind_getSecret : Blind SameCore (getSecret o) := by
  refine blind_get (fun _ => rfl) fun d => .ite (.pure _) ?_
  exact .bind blind_generateSecret fun _ => blind_get (fun _ => rfl) fun _ => .pure _

theorem blind_uiDisplayTxConfirm : Blind SameCore uiDisplayTxConfirm :=
  blind_get (fun _ => rfl) fun _ => .ite (blind_bzeroAndReply _) (blind_askUser _ (by simp [Flow.Plain]))

theorem blind_checkOutputIndexState : Blind SameCore checkOutputIndexState := by
  refine blind_get (fun _ => rfl) fun _ => .ite ?_ (.ite ?_ (.pure _))
  · exact .bind (blind_modify fun _ => rfl) fun _ => .bind blind_uiDisplayTxConfirm fun _ => .pure _
  · refine .bind (blind_modify fun _ => rfl) fun _ => .bind (blind_ioSendSw _) fun _ => ?_
    exact .bind blind_uiMenuMain fun _ => .pure _

theorem blind_skipPass (indices : List Nat) : Blind SameCore (skipPass indices) := by
  induction indices with
  | nil => exact .pure _
  | cons index rest ih =>
      refine blind_get (fun _ => rfl) fun _ => .ite ?_ ih
      refine .bind (blind_modify fun _ => rfl) fun _ => .bind blind_checkOutputIndexState fun _ => ?_
      exact .ite (.pure _) ih

theorem blind_skipChangeOutputs : Blind SameCore skipChangeOutputs :=
  blind_get (fun _ => rfl) fun _ => .ite (.pure _) (.ite .overrun (blind_skipPass _))

/-- The texts of the screen of an output. -/
def SameTexts (d d' : Device) : Prop :=
  d.gOutputIndex = d'.gOutputIndex ∧ d.gAddress = d'.gAddress ∧ d.gAmount = d'.gAmount

/-- The texts are those of the output that is to be shown, whatever they were. -/
theorem prepareDisplayOutput_twice :
    Twice SameCore (prepareDisplayOutput pf o) (fun b d d' => SameCore d d' ∧ (b = false → SameTexts d d')) SameCore := by
  have hdone : Twice SameCore (pure true : App Bool) (fun b d d' => SameCore d d' ∧ (b = false → SameTexts d d')) SameCore :=
    .pure fun _ _ h => ⟨h, by simp⟩
  refine .bind blind_checkOutputIndexState fun _ => .ite hdone ?_
  refine .bind blind_skipChangeOutputs fun _ => .ite hdone ?_
  refine twice_get (fun _ => rfl) fun d => ?_
  split
  · exact .overrun
  · rename_i output _
    let setIndex : Device → Device := ({ · with gOutputIndex := outputIndexText d.tx output })
    have hindex : Twice SameCore (Prog.modify setIndex : App Unit)
        (fun _ d d' => SameCore d d' ∧ d.gOutputIndex = d'.gOutputIndex) SameCore :=
      .modify fun _ _ h => ⟨h.assigns (f := setIndex) fun _ => rfl, rfl⟩
    refine .bind hindex fun _ => ?_
    split
    · refine .bind (Q := fun _ => SameCore) (.modify fun _ _ h => ?_) fun _ => .bind (blind_bzeroAndReply _) fun _ => hdone
      exact h.1.assigns (f := fun d => { d with gAddress := [] }) fun _ => rfl
    · rename_i address _
      have haddress : Twice (fun d d' => SameCore d d' ∧ d.gOutputIndex = d'.gOutputIndex)
          (Prog.modify ({ · with gAddress := addressText address }) : App Unit)
          (fun _ d d' => SameCore d d' ∧ d.gOutputIndex = d'.gOutputIndex ∧ d.gAddress = d'.gAddress) SameCore := by
        refine .modify fun _ _ h => ⟨?_, h.2, rfl⟩
        exact h.1.assigns (f := ({ · with gAddress := addressText address })) fun _ => rfl
      refine .bind haddress fun _ => ?_
      split
      · exact .overrun
      · split
        · exact .overrun
        · rename_i amount _
          refine .bind (Q := fun _ d d' => SameCore d d' ∧ SameTexts d d') (.modify fun _ _ h => ⟨?_, h.2.1, h.2.2, rfl⟩) ?_
          · exact h.1.assigns (f := ({ · with gAmount := amount })) fun _ => rfl
          · exact fun _ => .pure fun _ _ h => ⟨h.1, fun _ => h.2⟩

/-- A screen whose texts have just been made. -/
theorem askUser_twice {R : Device → Device → Prop} (callback : Callback) {flow : Flow} (hcore : ∀ d d', R d d' → SameCore d d')
    (hscreen : ∀ d d', R d d' → ({ d with flow := flow } : Device).screen = ({ d' with flow := flow } : Device).screen) :
    Twice R (askUser callback flow) (fun _ => SameCore) SameCore := by
  intro d d' h
  let raise : Device → Device := ({ · with gValidateCallback := some callback, flow := flow })
  have hshown : (raise d).screen = (raise d').screen := by
    have hsame := hscreen d d' h
    cases flow <;> exact hsame
  show (Res.ret () (raise d) [Obs.display (raise d).screen]).Alike _ _ (.ret () (raise d') [Obs.display (raise d').screen])
  rw [hshown]
  exact .ret ((hcore d d' h).assigns (f := raise) fun _ => rfl)

theorem blind_uiDisplayTxOutputs : Blind SameCore (uiDisplayTxOutputs pf o) := by
  refine Twice.bind prepareDisplayOutput_twice fun shown => ?_
  cases shown with
  | true => exact .pure fun _ _ h => h.1
  | false =>
      refine Twice.bind (askUser_twice _ (fun _ _ h => h.1) fun d d' h => ?_) fun _ => Blind.pure _
      obtain ⟨hindex, haddress, hamount⟩ := h.2 rfl
      show Screen.txOutput _ _ _ = Screen.txOutput _ _ _
      rw [hindex, haddress, hamount]

theorem blind_uiConfirmOutput (choice : Bool) : Blind SameCore (uiConfirmOutput pf o choice) := by
  refine .ite ?_ (blind_bzeroAndReply _)
  refine .bind (blind_modify fun _ => rfl) fun _ => .bind blind_skipChangeOutputs fun _ => .ite (.pure _) ?_
  exact .bind blind_uiDisplayTxOutputs fun _ => .pure _

theorem blind_readContextPath (cdata : Buffer) : Blind SameCore (readContextPath cdata) :=
  blind_get (fun _ => rfl) fun _ => .bind (blind_modify fun _ => rfl) fun _ => .pure _

theorem blind_deriveAddress : Blind SameCore (deriveAddress pf o) := by
  refine blind_get (fun _ => rfl) fun _ => .bind (.emit _) fun _ => ?_
  split
  · exact .throw _
  · exact blind_modify fun _ => rfl

theorem blind_uiDisplayConfirmAddress : Blind SameCore (uiDisplayConfirmAddress pf o) := by
  refine blind_get (fun _ => rfl) fun _ => .ite (.bind (blind_modify fun _ => rfl) fun _ => blind_ioSendSw _) ?_
  refine .bind (blind_modify fun _ => rfl) fun _ => .bind (.emit _) fun _ => ?_
  split
  · exact .bind (blind_bzeroAndReply _) fun _ => .pure _
  · rename_i address _
    have htext : Twice SameCore (Prog.modify ({ · with gAddress := addressText address }) : App Unit)
        (fun _ d d' => SameCore d d' ∧ d.gAddress = d'.gAddress) SameCore :=
      .modify fun _ _ h => ⟨h.assigns (f := ({ · with gAddress := addressText address })) fun _ => rfl, rfl⟩
    refine Twice.bind htext fun _ => Twice.bind (askUser_twice _ (fun _ _ h => h.1) fun _ _ h => ?_) fun _ => Blind.pure _
    exact congrArg Screen.address h.2

theorem blind_handlerGetAddress (cdata : Buffer) : Blind SameCore (handlerGetAddress pf o cdata) := by
  refine .bind (blind_modify fun _ => rfl) fun _ => .bind (blind_readContextPath cdata) fun _ => .ite ?_ (blind_ioSendSw _)
  exact .bind blind_deriveAddress fun _ => blind_uiDisplayConfirmAddress

theorem blind_deriveXpubKey : Blind SameCore (deriveXpubKey pf o) := by
  refine blind_get (fun _ => rfl) fun _ => .bind (.emit _) fun _ => ?_
  split
  · exact .throw _
  · split
    · exact .throw _
    · exact blind_modify fun _ => rfl

theorem blind_deriveXpubParent : Blind SameCore (deriveXpubParent pf o) := by
  refine blind_get (fun _ => rfl) fun _ => .ite .overrun (.bind (.emit _) fun _ => ?_)
  split
  · exact .throw _
  · exact blind_modify fun _ => rfl

theorem blind_uiDisplayXpubConfirm : Blind SameCore uiDisplayXpubConfirm := by
  refine blind_get (fun _ => rfl) fun _ => .ite (.bind (blind_modify fun _ => rfl) fun _ => blind_ioSendSw _) ?_
  exact .bind (blind_askUser _ (by simp [Flow.Plain])) fun _ => .pure _

theorem blind_handlerGetXpub (cdata : Buffer) : Blind SameCore (handlerGetXpub pf o cdata) := by
  refine .bind (blind_modify fun _ => rfl) fun _ => .bind (blind_readContextPath cdata) fun _ => .ite ?_ (blind_ioSendSw _)
  exact .bind blind_deriveXpubKey fun _ => .bind blind_deriveXpubParent fun _ => blind_uiDisplayXpubConfirm

theorem blind_uiDisplaySignTokenData : Blind SameCore uiDisplaySignTokenData := by
  refine blind_get (fun _ => rfl) fun d => .ite (.bind (blind_bzeroAndReply _) fun _ => .pure _) ?_
  let token := d.gContext.token
  let setTexts : Device → Device := ({ · with
    gTokenSymbol := cString (token.symbol.take token.symbolLen)
    gTokenName := cString (token.name.take token.nameLen)
    gTokenUid := formatHex token.uid })
  have htexts : Twice SameCore (Prog.modify setTexts : App Unit) (fun _ d d' => SameCore d d' ∧
      ({ d with flow := .signTokenData } : Device).screen = ({ d' with flow := .signTokenData } : Device).screen) SameCore :=
    .modify fun _ _ h => ⟨h.assigns (f := setTexts) fun _ => rfl, rfl⟩
  exact Twice.bind htexts fun _ => Twice.bind (askUser_twice _ (fun _ _ h => h.1) fun _ _ h => h.2) fun _ => Blind.pure _

theorem blind_handlerSignTokenData (cdata : Buffer) : Blind SameCore (handlerSignTokenData cdata) := by
  refine .bind (blind_modify fun _ => rfl) fun _ => ?_
  split
  exact .bind (blind_modify fun _ => rfl) fun _ => .ite blind_uiDisplaySignTokenData (blind_ioSendSw _)

theorem blind_checkTokenSignatureFromApdu (cdata : Buffer) : Blind SameCore (checkTokenSignatureFromApdu pf o cdata) := by
  unfold checkTokenSignatureFromApdu
  split
  · exact .pure _
  · split
    · exact .pure _
    · exact .bind blind_getSecret fun _ => .pure _

theorem blind_replyTokenCheck (isTokenVerified : Nat) : Blind SameCore (replyTokenCheck isTokenVerified) :=
  .ite (blind_ioSendSw _) (blind_ioSendSw _)

theorem blind_handlerVerifyTokenSignature (cdata : Buffer) : Blind SameCore (handlerVerifyTokenSignature pf o cdata) := by
  refine .bind (blind_modify fun _ => rfl) fun _ => .bind (blind_checkTokenSignatureFromApdu cdata) fun _ => ?_
  exact .ite (blind_ioSendSw _) (blind_replyTokenCheck _)

theorem blind_registerToken (cdata : Buffer) : Blind SameCore (registerToken pf o cdata) := by
  refine blind_get (fun _ => rfl) fun _ => .ite (.bind (blind_modify fun _ => rfl) fun _ => blind_ioSendSw _) ?_
  refine .bind (blind_checkTokenSignatureFromApdu cdata) fun _ => .ite ?_ (blind_replyTokenCheck _)
  exact .bind (blind_modify fun _ => rfl) fun _ => .ite (blind_ioSendSw _) (blind_ioSendSw _)

theorem blind_handlerSendTokenData (first : Bool) (cdata : Buffer) : Blind SameCore (handlerSendTokenData pf o first cdata) :=
  .ite (.bind (blind_modify fun _ => rfl) fun _ => blind_registerToken cdata) (blind_registerToken cdata)

theorem blind_onTx {α : Type} (p : Decoder α) : Blind SameCore (onTx p) :=
  .zoom p (fun _ _ h => h.reads (f := Device.tx) fun _ => rfl) fun tx _ _ h => h.assigns (f := (·.withTx tx)) fun _ => rfl

theorem blind_readChangeEntries (n i : Nat) (cdata : Buffer) : Blind SameCore (readChangeEntries n i cdata) := by
  induction n generalizing i cdata with
  | zero => exact .pure _
  | succ n ih =>
      unfold readChangeEntries
      split
      refine blind_get (fun _ => rfl) fun _ => .bind (blind_modify fun _ => rfl) fun _ => .ite (.throw _) ?_
      split
      exact .bind (blind_modify fun _ => rfl) fun _ => .ite (.throw _) (ih _ _)

theorem blind_readChangeInfoV1 (cdata : Buffer) : Blind SameCore (readChangeInfoV1 cdata) := by
  unfold readChangeInfoV1
  split
  refine .bind (blind_modify fun _ => rfl) fun _ => .ite (.throw _) (.ite (.throw _) ?_)
  exact blind_readChangeEntries _ _ _

theorem blind_readChangeInfoOldProtocol (changeByte : Nat) (cdata : Buffer) :
    Blind SameCore (readChangeInfoOldProtocol changeByte cdata) := by
  refine .bind (blind_modify fun _ => rfl) fun _ => ?_
  split
  refine blind_get (fun _ => rfl) fun _ => .bind (blind_modify fun _ => rfl) fun _ => ?_
  refine .ite (.throw _) (.ite (.throw _) (.ite (.throw _) ?_))
  exact .bind (blind_modify fun _ => rfl) fun _ => .ite (.throw _) (.pure _)

theorem blind_readChangeInfo (cdata : Buffer) : Blind SameCore (readChangeInfo cdata) := by
  unfold readChangeInfo
  split
  refine .ite (.throw _) (.ite (.bind (blind_modify fun _ => rfl) fun _ => .pure _) (.ite ?_ (.ite ?_ (.throw _))))
  · exact blind_readChangeInfoOldProtocol _ _
  · exact blind_readChangeInfoV1 _

theorem blind_readTxData (cdata : Buffer) : Blind SameCore (readTxData cdata) := by
  unfold readTxData
  split
  refine .bind (blind_modify fun _ => rfl) fun _ => .ite (.throw _) ?_
  split
  refine .bind (blind_modify fun _ => rfl) fun _ => .ite (.throw _) ?_
  split
  refine .bind (blind_modify fun _ => rfl) fun _ => .ite (.throw _) ?_
  split
  exact .bind (blind_modify fun _ => rfl) fun _ => .ite (.throw _) (.pure _)

theorem blind_sighashAllHash (cdata : Buffer) : Blind SameCore (sighashAllHash o cdata) := by
  refine blind_get (fun _ => rfl) fun _ => ?_
  split
  · exact .throw _
  · exact blind_modify fun _ => rfl

theorem blind_takeChunk (cdata : Buffer) (chunk : Nat) : Blind SameCore (takeChunk o cdata chunk) := by
  refine .ite (blind_get (fun _ => rfl) fun _ => .ite ?_ ?_) ?_
  · exact .bind (blind_modify fun _ => rfl) fun _ => .throw _
  · refine .bind (blind_modify fun _ => rfl) fun _ => .bind (blind_readChangeInfo _) fun _ => ?_
    refine .bind (blind_sighashAllHash _) fun _ => .bind (blind_readTxData _) fun _ => ?_
    exact blind_onTx _
  · exact .bind (blind_sighashAllHash _) fun _ => blind_onTx _

theorem blind_decodeChunk : Blind SameCore (decodeChunk pf o) := by
  refine blind_get (fun _ => rfl) fun _ => .bind (blind_onTx _) fun _ => .ite ?_ (.ite ?_ (.pure _))
  · exact .bind (blind_bzeroAndReply _) fun _ => .pure _
  · refine blind_get (fun _ => rfl) fun _ => .ite ?_ (.bind (blind_ioSendSw _) fun _ => .pure _)
    exact .bind blind_uiDisplayTxOutputs fun _ => .pure _

theorem blind_signSighash : Blind SameCore (signSighash pf o) := by
  refine blind_get (fun _ => rfl) fun _ => .bind (.emit _) fun _ => ?_
  split
  · exact .pure _
  · refine .bind (.ite ?_ (.pure _)) fun _ => .ite (.pure _) ?_
    · split
      · exact .pure _
      · refine .bind (blind_modify fun _ => rfl) fun _ => ?_
        split
        · exact .pure _
        · exact .bind (blind_modify fun _ => rfl) fun _ => .pure _
    · refine blind_get (fun _ => rfl) fun _ => .bind (.emit _) fun _ => ?_
      exact .ite (.pure _) (.pure _)

theorem blind_signTxWithKey : Blind SameCore (signTxWithKey pf o) := by
  refine blind_get (fun _ => rfl) fun _ => .ite (.bind (blind_ioSendSw _) fun _ => .pure _) ?_
  refine .bind blind_signSighash fun _ => ?_
  split
  · exact .bind (blind_ioSendSw _) fun _ => .pure _
  · exact .bind (blind_ioSendResponse _ _) fun _ => .pure _

theorem blind_bzeroMenuReply (sw : Nat) : Blind SameCore (bzeroMenuReply sw) :=
  .bind (blind_modify fun _ => rfl) fun _ => .bind blind_uiMenuMain fun _ => blind_ioSendSw sw

theorem blind_handlerSignTx (cdata : Buffer) (stage : SignTxStage) (chunk : Nat) :
    Blind SameCore (handlerSignTx pf o cdata stage chunk) := by
  refine .bind (blind_modify fun _ => rfl) fun _ => blind_get (fun _ => rfl) fun _ => ?_
  cases stage with
  | done => exact blind_bzeroMenuReply _
  | sign =>
      refine .ite (blind_ioSendSw _) (.bind (blind_readContextPath _) fun _ => .ite (blind_ioSendSw _) ?_)
      exact .bind blind_signTxWithKey fun _ => .ite (.pure _) (.pure _)
  | data =>
      refine .ite (blind_bzeroMenuReply _) (.ite (blind_bzeroMenuReply _) ?_)
      refine .bind (.bind (blind_takeChunk _ _) fun _ => blind_decodeChunk) fun _ => ?_
      exact .ite (.pure _) (.pure _)

theorem blind_apduDispatcher (cmd : Command) : Blind SameCore (apduDispatcher pf o cmd) := by
  have hdispatches := apduDispatcher_dispatches pf o cmd
  generalize apduDispatcher pf o cmd = p at hdispatches
  cases hdispatches with
  | refused => exact blind_ioSendSw _
  | getVersion => exact blind_ioSendResponse _ _
  | getAddress => exact blind_handlerGetAddress _
  | getXpub => exact blind_handlerGetXpub _
  | signTxData => exact blind_handlerSignTx _ _ _
  | signTxSign => exact blind_handlerSignTx _ _ _
  | signTxDone => exact blind_handlerSignTx _ _ _
  | signTokenData => exact blind_handlerSignTokenData _
  | sendTokenData => exact blind_handlerSendTokenData _ _
  | verifyTokenSignature => exact blind_handlerVerifyTokenSignature _
  | resetTokenSignatures => exact .bind (blind_askUser _ (by simp [Flow.Plain])) fun _ => .pure _

theorem blind_ioRecvCommand : Blind SameCore ioRecvCommand := by
  refine blind_get (fun _ => rfl) fun _ => ?_
  split
  · exact blind_modify fun _ => rfl
  · exact blind_modify fun _ => rfl
  · exact .bind (.emit _) fun _ => blind_modify fun _ => rfl

theorem blind_replyException (e : Nat) : Blind SameCore (replyException e) :=
  .bind (blind_ioSendSw e) fun _ => blind_ioRecvCommand

theorem blind_runCallback (callback : Callback) (choice : Bool) : Blind SameCore (runCallback pf o callback choice) := by
  have hmenu : ∀ {p : App Int}, Blind SameCore p → Blind SameCore (p >>= fun _ => uiMenuMain) :=
    fun hp => .bind hp fun _ => blind_uiMenuMain
  cases callback with
  | uiActionTxConfirm =>
      refine .ite (.bind (blind_modify fun _ => rfl) fun _ => .bind (blind_ioSendSw _) fun _ => ?_) (blind_bzeroAndReply _)
      exact blind_uxFlowInit (by simp [Flow.Plain])
  | uiConfirmOutput => exact blind_uiConfirmOutput choice
  | uiActionConfirmXpub =>
      exact .ite (hmenu (blind_get (fun _ => rfl) fun _ => blind_ioSendResponse _ _)) (blind_bzeroAndReply _)
  | uiActionConfirmAddress => exact .ite (hmenu (blind_ioSendSw _)) (blind_bzeroAndReply _)
  | uiConfirmResetTokenSignatures =>
      exact .ite (.bind blind_generateSecret fun _ => hmenu (blind_ioSendSw _)) (hmenu (blind_ioSendSw _))
  | uiActionSignTokenData =>
      refine .ite (hmenu ?_) (blind_bzeroAndReply _)
      exact .bind blind_getSecret fun _ => blind_get (fun _ => rfl) fun _ => blind_ioSendResponse _ _

end Programs

section Runs

variable {pf : Platform} {h h' : History Device Event Obs} {d d' : Device}

/-- The same in what the next step can depend on. -/
structure SameMemory (d d' : Device) : Prop where
  context : d.gContext = d'.gContext
  registry : d.gTokenSymbols = d'.gTokenSymbols
  secret : d.secret = d'.secret
  flow : d.flow = d'.flow

/-- What holds between two steps of a device whose host waits. -/
structure Device.Settled (d : Device) : Prop where
  disciplined : d.Disciplined
  callbackSet : d.CallbackSet

/-- Two devices that a host that waits cannot tell apart. -/
def Indistinct (d d' : Device) : Prop := SameMemory d d' ∧ d.Settled ∧ d'.Settled

theorem SameMemory.symm (h : SameMemory d d') : SameMemory d' d :=
  ⟨h.context.symm, h.registry.symm, h.secret.symm, h.flow.symm⟩

theorem SameMemory.trans {d'' : Device} (h : SameMemory d d') (h' : SameMemory d' d'') : SameMemory d d'' :=
  ⟨h.context.trans h'.context, h.registry.trans h'.registry, h.secret.trans h'.secret, h.flow.trans h'.flow⟩

theorem sameCore_iff : SameCore d d' ↔ SameMemory d d' ∧ d.gIoState = d'.gIoState := by
  constructor
  · intro h
    simp only [SameCore, Device.core, Device.mk.injEq, true_and, and_true] at h
    obtain ⟨hcontext, hregistry, hsecret, hio, hflow⟩ := h
    exact ⟨⟨hcontext, hregistry, hsecret, hflow⟩, hio⟩
  · rintro ⟨h, hio⟩
    unfold SameCore Device.core
    rw [h.context, h.registry, h.secret, h.flow, hio]

theorem SameCore.memory (h : SameCore d d') : SameMemory d d' := (sameCore_iff.mp h).1

/-- Awake they are the same: both wait for a command, or both owe the reply to one. -/
theorem Indistinct.wake (h : Indistinct d d') : SameCore (wake d) (wake d') := by
  obtain ⟨hmemory, hd, hd'⟩ := h
  apply sameCore_iff.mpr
  refine ⟨⟨?_, ?_, ?_, ?_⟩, ?_⟩
  · rw [wake_gContext, wake_gContext]
    exact hmemory.context
  · rw [wake_gTokenSymbols, wake_gTokenSymbols]
    exact hmemory.registry
  · obtain ⟨io, hwake⟩ := wake_eq d
    obtain ⟨io', hwake'⟩ := wake_eq d'
    rw [hwake, hwake']
    exact hmemory.secret
  · rw [wake_flow, wake_flow]
    exact hmemory.flow
  · rw [hd.disciplined.wake_received, hd'.disciplined.wake_received]

theorem Indistinct.waiting_iff (h : Indistinct d d') : d.gIoState = .waiting ↔ d'.gIoState = .waiting := by
  obtain ⟨hmemory, hd, hd'⟩ := h
  rw [← hd.disciplined.owed, ← hd'.disciplined.owed, hmemory.flow]

theorem Indistinct.admits {e : Event} (h : Indistinct d d') (admitted : (waitingSystem pf).admits d e) :
    (waitingSystem pf).admits d' e :=
  fun hwaits o raw he hwaiting => admitted hwaits o raw he (h.waiting_iff.mpr hwaiting)

/-- Both owe a reply while a screen asks. -/
theorem Indistinct.asking (h : Indistinct d d') (hasks : d.flow.asks = true) : SameCore d d' := by
  have hwaiting := h.2.1.disciplined.owed.mp hasks
  apply sameCore_iff.mpr
  refine ⟨h.1, ?_⟩
  rw [hwaiting, h.waiting_iff.mp hwaiting]

theorem handleCommand_twice (o : Outcome) (raw : Bytes) :
    Twice Indistinct (handleCommand pf o raw) (fun _ => SameCore) SameCore := by
  refine Twice.bind (Q := fun _ => SameCore) (.modify fun _ _ h => h.wake) fun _ => ?_
  refine Blind.catchAll ?_ blind_replyException
  split
  · exact .bind (blind_ioSendSw _) fun _ => blind_ioRecvCommand
  · refine .bind (blind_apduDispatcher _) fun _ => .ite ?_ blind_ioRecvCommand
    exact .bind (.emit _) fun _ => blind_modify fun _ => rfl

theorem exists_callback_of_asks {flow : Flow} (hasks : flow.asks = true) : ∃ c, flow.callback = some c := by
  cases flow <;> first | exact ⟨_, rfl⟩ | cases hasks

/-- A press that the screen takes. -/
theorem handlePress_calls {o : Outcome} {choice : Bool} {callback : Callback}
    (htakes : (if choice then d.flow.asks else d.flow.rejects) = true) (hset : d.gValidateCallback = some callback) :
    handlePress pf o choice d = Prog.catchAll (runCallback pf o callback choice) replyException d := by
  unfold handlePress
  rw [get_bind, if_pos htakes, hset]

/-- A screen that asks is answered alike, and the others ignore a press. -/
theorem handlePress_alike (o : Outcome) (choice : Bool) (h : Indistinct d d') :
    (handlePress pf o choice d).Alike (fun _ => SameMemory) (fun _ _ => True) (handlePress pf o choice d') := by
  obtain ⟨hmemory, hd, hd'⟩ := h
  by_cases htakes : (if choice then d.flow.asks else d.flow.rejects) = true
  · have hasks : d.flow.asks = true := by
      revert htakes
      cases choice <;> cases d.flow <;> simp [Flow.asks, Flow.rejects]
    obtain ⟨c, hc⟩ := exists_callback_of_asks hasks
    have hset' := hd'.callbackSet c (hmemory.flow ▸ hc)
    rw [handlePress_calls htakes (hd.callbackSet c hc), handlePress_calls (hmemory.flow ▸ htakes) hset']
    have hblind : Blind SameCore (Prog.catchAll (runCallback pf o c choice) replyException) :=
      (blind_runCallback c choice).catchAll blind_replyException
    have hends := hblind d d' (Indistinct.asking ⟨hmemory, hd, hd'⟩ hasks)
    exact hends.mono (fun _ _ _ hcore => hcore.memory) fun _ _ _ => trivial
  · have hignores : ∀ d : Device, ¬(if choice then d.flow.asks else d.flow.rejects) = true →
        handlePress pf o choice d = .ret () d [] := by
      intro d htakes
      unfold handlePress
      apply eq_ret_of_wp
      rw [wp_bind, wp_get, if_neg htakes]
      exact ⟨rfl, rfl, rfl⟩
    rw [hignores d htakes, hignores d' (hmemory.flow ▸ htakes)]
    exact .ret hmemory

theorem blind_handleQuit : Blind SameMemory handleQuit := by
  refine Twice.get (fun d d' h => ?_) fun _ => .ite ?_ (.pure fun _ _ => id)
  · rw [h.flow]
  · refine Twice.bind (Q := fun _ => SameMemory) (.modify fun _ _ h => ⟨rfl, h.registry, h.secret, h.flow⟩) fun _ => ?_
    exact fun _ _ h => .ret ⟨h.context, h.registry, h.secret, rfl⟩

/-- The step of a host that waits. -/
theorem handle_alike (e : Event) (h : Indistinct d d') (admitted : (waitingSystem pf).admits d e) :
    (handle pf e d).Alike (fun _ => Indistinct) (fun _ _ => True) (handle pf e d') := by
  have hsettled : ∀ d : Device, d.Settled → (waitingSystem pf).admits d e →
      wp (handle pf e) (fun _ d₁ _ => d₁.Settled) (fun _ _ _ => True) True d := by
    intro d hd admitted
    have hmoves := handle_moves pf e d.tx.represents_someState hd.callbackSet
    refine wp_mono (wp_and (handle_disciplined hd.disciplined admitted) hmoves) ?_ (fun _ _ _ _ => trivial) fun _ => trivial
    rintro _ d₁ w ⟨hdisciplined, hmoves⟩
    exact ⟨hdisciplined, hmoves.callbackSet hd.callbackSet⟩
  have hmemory : (handle pf e d).Alike (fun _ => SameMemory) (fun _ _ => True) (handle pf e d') := by
    cases e with
    | apdu o raw => exact (handleCommand_twice o raw d d' h).mono (fun _ _ _ hcore => hcore.memory) fun _ _ _ => trivial
    | press o choice => exact handlePress_alike o choice h
    | quit => exact (blind_handleQuit d d' h.1).mono (fun _ _ _ h => h) fun _ _ _ => trivial
  exact hmemory.strengthen (hsettled d h.2.1 admitted) (hsettled d' h.2.2 (h.admits admitted))

theorem run_settled (run : Run (waitingSystem pf) h d) : d.Settled :=
  ⟨run_disciplined run, run_callbackSet (free_of_waiting run)⟩

/-- What is seen from now on of two devices that cannot be told apart. -/
theorem Indistinct.traces_eq (h : Indistinct d d') :
    Traces ((waitingSystem pf).startedIn d) = Traces ((waitingSystem pf).startedIn d') := by
  refine TraceRun.traces_eq (fun _ _ h => ⟨h.1.symm, h.2.2, h.2.1⟩) h ?_ ?_
  · exact fun _ _ _ hR admitted => hR.admits admitted
  · exact fun _ _ e hR admitted => handle_alike e hR admitted

/-- Whatever came before, what is seen from now on depends on the context, the registry, the secret and the screen only. -/
theorem history_forgotten (run : Run (waitingSystem pf) h d) (run' : Run (waitingSystem pf) h' d')
    (hcontext : d.gContext = d'.gContext) (hregistry : d.gTokenSymbols = d'.gTokenSymbols) (hsecret : d.secret = d'.secret)
    (hflow : d.flow = d'.flow) :
    Traces ((waitingSystem pf).startedIn d) = Traces ((waitingSystem pf).startedIn d') :=
  Indistinct.traces_eq ⟨⟨hcontext, hregistry, hsecret, hflow⟩, run_settled run, run_settled run'⟩

/-- An output was shown and rejected: the device is told apart from one that has just started by the texts it still holds,
but not by what is seen of it. -/
theorem history_forgotten_rejected : ∃ h d, Run (waitingSystem countingPlatform) h d ∧ d.gAddress ≠ [] ∧
    Traces ((waitingSystem countingPlatform).startedIn d) =
      Traces ((waitingSystem countingPlatform).startedIn (bootDevice [])) := by
  obtain ⟨h, r, _, run, hP⟩ := exists_step_of_play countingPlatform true []
    [signTxData 0 ([0, 0, 1, 0, 0, 1] ++ sampleOutput 7)] (press false)
    (fun _ r => r.post.gContext = zeroGlobalCtx ∧ r.post.gTokenSymbols = zeroTokenDataCtx ∧ r.post.secret = [] ∧
      r.post.flow = .menuMain ∧ r.post.gAddress ≠ []) (by decide +kernel)
  obtain ⟨hcontext, hregistry, hsecret, hflow, hstale⟩ := of_decide_eq_true hP
  have hboot : Run (waitingSystem countingPlatform) [] (bootDevice []) := .start ⟨[], rfl⟩
  exact ⟨r :: h, r.post, run, hstale, history_forgotten run hboot hcontext hregistry hsecret hflow⟩

/-- A device whose session is over is a freshly started one that knows its tokens. -/
theorem session_forgotten (run : Run (waitingSystem pf) h d) (hcleared : d.gContext = zeroGlobalCtx)
    (hmenu : d.flow = .menuMain) :
    Traces ((waitingSystem pf).startedIn d) =
      Traces ((waitingSystem pf).startedIn { bootDevice d.secret with gTokenSymbols := d.gTokenSymbols }) := by
  have hfresh : ({ bootDevice d.secret with gTokenSymbols := d.gTokenSymbols } : Device).Settled :=
    ⟨disciplined_of_rest rfl rfl, callbackSet_of_none rfl⟩
  exact Indistinct.traces_eq ⟨⟨hcleared, rfl, rfl, hmenu⟩, run_settled run, hfresh⟩

end Runs

end HathorApp
