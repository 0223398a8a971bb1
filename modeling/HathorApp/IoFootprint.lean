import HathorApp.Replies

/-!
What the programs do to input and output. A program does two kinds of things there: it leaves the state of the
exchange alone, and shows or derives something meanwhile, or it hands one reply to `io_send_response`. A relation
that contains both relates the two ends of every handler and of every callback. A relation may hold for the
replies of some data only: it contains the programs that send no other.
-/

namespace HathorApp

open ProgramLogic StreamDecoder

/-- An event that is neither a reply nor a new start. -/
def Obs.Still : Obs → Prop
  | .response .. | .restart => False
  | _ => True

theorem Silent.still {w : List Obs} (hw : Silent w) : ∀ e ∈ w, e.Still := by
  intro e he
  have hinternal := hw e he
  cases e <;> trivial

theorem Obs.Still.no_replies {w : List Obs} (h : ∀ e ∈ w, e.Still) : replies w = [] := by
  apply List.filterMap_eq_nil_iff.mpr
  intro e he
  have hstill := h e he
  cases e <;> first | rfl | exact hstill.elim

theorem Sighash.still {pf : Platform} {o : Outcome} {d d' : Device} {signature : Option Bytes} {w : List Obs}
    (h : Sighash pf o d signature d' w) : ∀ e ∈ w, e.Still := by
  cases h <;> simp [Obs.Still]

/-- The two kinds of steps. -/
structure IoFootprint (sends : Bytes → Prop) (r : Device → Device → List Obs → Prop) : Prop where
  composable : Composable r
  status : sends []
  still : ∀ {d d' : Device} {w : List Obs}, d'.gIoState = d.gIoState → d'.exchange = d.exchange →
    (∀ e ∈ w, e.Still) → r d d' w
  reply : ∀ (d : Device) {data : Bytes} (sw : Nat), sends data → data.length ≤ ioApduBufferSize - 2 →
    r d { d with gIoState := .ready } [.response data sw]

namespace IoFootprint

variable {pf : Platform} {o : Outcome} {sends : Bytes → Prop} {r : Device → Device → List Obs → Prop}
  (hr : IoFootprint sends r)
include hr

/-- One reply, with something shown or derived before it and after it. -/
theorem replies {d d' : Device} {data : Bytes} {sw : Nat} {u v : List Obs} (hsends : sends data)
    (hlength : data.length ≤ ioApduBufferSize - 2) (hready : d'.gIoState = .ready) (hexchange : d'.exchange = d.exchange)
    (hu : ∀ e ∈ u, e.Still) (hv : ∀ e ∈ v, e.Still) : r d d' (u ++ .response data sw :: v) := by
  have hbefore : r d d u := hr.still rfl rfl hu
  have hreply : r d { d with gIoState := .ready } [.response data sw] := hr.reply d sw hsends hlength
  have hafter : r { d with gIoState := .ready } d' v := hr.still hready hexchange hv
  exact hr.composable.trans hbefore (hr.composable.trans hreply hafter)

/-- The same for a status word. -/
theorem answers {d d' : Device} {sw : Nat} {u v : List Obs} (hready : d'.gIoState = .ready)
    (hexchange : d'.exchange = d.exchange) (hu : ∀ e ∈ u, e.Still) (hv : ∀ e ∈ v, e.Still) :
    r d d' (u ++ .response [] sw :: v) :=
  hr.replies hr.status (Nat.zero_le _) hready hexchange hu hv

theorem replyOf {d d' : Device} {data : Bytes} {sw : Nat} {u : List Obs} (hsends : sends data)
    (hready : d'.gIoState = .ready) (hexchange : d'.exchange = d.exchange) (hu : ∀ e ∈ u, e.Still) :
    r d d' (u ++ [replyOf data sw]) := by
  unfold HathorApp.replyOf
  split
  · exact hr.answers hready hexchange hu (List.forall_mem_nil _)
  · rename_i hlength
    exact hr.replies hsends (Nat.not_lt.mp hlength) hready hexchange hu (List.forall_mem_nil _)

theorem modify {f : Device → Device} (hio : ∀ d, (f d).gIoState = d.gIoState) (hexchange : ∀ d, (f d).exchange = d.exchange) :
    Within r (Prog.modify f) := .modify fun d => hr.still (hio d) (hexchange d) (List.forall_mem_nil _)

theorem emit {e : Obs} (he : e.Still) : Within r (Prog.emit e) :=
  .emit fun _ => hr.still rfl rfl (List.forall_mem_singleton.mpr he)

theorem ioSendSw (sw : Nat) : Within r (ioSendSw sw) := by
  intro d
  rw [wp_ioSendSw]
  exact hr.reply d sw hr.status (Nat.zero_le _)

theorem ioSendResponse {data : Bytes} (hsends : sends data) (sw : Nat) : Within r (ioSendResponse data sw) := by
  intro d
  rw [wp_ioSendResponse]
  exact hr.replyOf (u := []) hsends rfl rfl (List.forall_mem_nil _)

theorem uxFlowInit (flow : Flow) : Within r (uxFlowInit flow) := by
  intro d
  rw [wp_uxFlowInit]
  exact hr.still rfl rfl (by simp [Obs.Still])

theorem uiMenuMain : Within r uiMenuMain := hr.uxFlowInit _

theorem askUser (callback : Callback) (flow : Flow) : Within r (askUser callback flow) :=
  .bind hr.composable (hr.modify (fun _ => rfl) fun _ => rfl) fun _ => hr.uxFlowInit _

theorem refused {d : Device} {sw : Nat} {u : List Obs} (hu : ∀ e ∈ u, e.Still) :
    r d d.refused (u ++ [.response [] sw, .display .menuMain]) :=
  hr.answers rfl rfl hu (by simp [Obs.Still])

theorem bzeroAndReply (sw : Nat) : Within r (bzeroAndReply sw) := by
  intro d
  rw [wp_bzeroAndReply]
  exact hr.refused (List.forall_mem_nil _)

theorem dropped {d : Device} {sw : Nat} : r d d.refused [.display .menuMain, .response [] sw] := by
  have hshown : ∀ e ∈ [Obs.display .menuMain], e.Still := by simp [Obs.Still]
  exact hr.answers (u := [.display .menuMain]) rfl rfl hshown (List.forall_mem_nil _)

theorem bzeroMenuReply (sw : Nat) : Within r (bzeroMenuReply sw) := by
  intro d
  rw [wp_bzeroMenuReply]
  exact hr.dropped

theorem getSecret : Within r (getSecret o) := by
  intro d
  rw [wp_getSecret]
  exact hr.still rfl rfl (List.forall_mem_nil _)

theorem checkEnds {d d' : Device} {w : List Obs} (h : CheckEnds d d' w) : r d d' w := by
  cases h with
  | parsed => exact hr.still rfl rfl (by simp [Obs.Still])
  | foreign => exact hr.refused (List.forall_mem_nil _)
  | more => exact hr.answers (u := []) rfl rfl (List.forall_mem_nil _) (by simp [Obs.Still])

/-- The display stops, after the cursors have moved. -/
theorem displayEnds {d d' : Device} {tx : SignTxCtx} {w : List Obs} (h : DisplayEnds pf (d.withTx tx) d' w) : r d d' w := by
  have hmoved : r d (d.withTx tx) [] := hr.still rfl rfl (List.forall_mem_nil _)
  refine hr.composable.trans hmoved ?_
  cases h with
  | checked check => exact hr.checkEnds check
  | failed => exact hr.answers (u := []) rfl rfl (List.forall_mem_nil _) (by simp [Obs.Still])
  | shown => exact hr.still rfl rfl (by simp [Obs.Still, outputScreen])

theorem uiConfirmOutput (choice : Bool) : Within r (uiConfirmOutput pf o choice) := by
  intro d
  cases choice with
  | true =>
      refine wp_mono (uiConfirmOutput_spec pf o d) ?_ (fun _ _ _ h => h.elim) fun _ => trivial
      rintro _ d' w ⟨tx, _, hends⟩
      exact hr.displayEnds hends
  | false =>
      unfold HathorApp.uiConfirmOutput
      exact hr.bzeroAndReply _ d

theorem readContextPath (cdata : Buffer) : Within r (readContextPath cdata) := by
  have hc := hr.composable
  refine .bind hc (.get hc) fun d => .bind hc ?_ fun _ => .pure hc _
  exact hr.modify (fun _ => rfl) fun _ => rfl

theorem deriveAddress : Within r (deriveAddress pf o) := by
  have hc := hr.composable
  refine .bind hc (.get hc) fun d => .bind hc (hr.emit trivial) fun _ => ?_
  split
  · exact .throw hc _
  · exact hr.modify (fun _ => rfl) fun _ => rfl

theorem uiDisplayConfirmAddress : Within r (uiDisplayConfirmAddress pf o) := by
  have hc := hr.composable
  refine .bind hc (.get hc) fun d => .ite (fun _ => ?_) fun _ => ?_
  · exact .bind hc (hr.modify (fun _ => rfl) fun _ => rfl) fun _ => hr.ioSendSw _
  · refine .bind hc (hr.modify (fun _ => rfl) fun _ => rfl) fun _ => .bind hc (hr.emit trivial) fun _ => ?_
    split
    · exact .bind hc (hr.bzeroAndReply _) fun _ => .pure hc _
    · refine .bind hc (hr.modify (fun _ => rfl) fun _ => rfl) fun _ => ?_
      exact .bind hc (hr.askUser _ _) fun _ => .pure hc _

theorem handlerGetAddress (cdata : Buffer) : Within r (handlerGetAddress pf o cdata) := by
  have hc := hr.composable
  refine .bind hc (hr.modify (fun _ => rfl) fun _ => rfl) fun _ => .bind hc (hr.readContextPath cdata) fun _ => ?_
  refine .ite (fun _ => ?_) fun _ => hr.ioSendSw _
  exact .bind hc hr.deriveAddress fun _ => hr.uiDisplayConfirmAddress

theorem deriveXpubKey : Within r (deriveXpubKey pf o) := by
  have hc := hr.composable
  refine .bind hc (.get hc) fun d => .bind hc (hr.emit trivial) fun _ => ?_
  split
  · exact .throw hc _
  · split
    · exact .throw hc _
    · exact hr.modify (fun _ => rfl) fun _ => rfl

theorem deriveXpubParent : Within r (deriveXpubParent pf o) := by
  have hc := hr.composable
  refine .bind hc (.get hc) fun d => .ite (fun _ => .overrun) fun _ => .bind hc (hr.emit trivial) fun _ => ?_
  split
  · exact .throw hc _
  · exact hr.modify (fun _ => rfl) fun _ => rfl

theorem uiDisplayXpubConfirm : Within r uiDisplayXpubConfirm := by
  have hc := hr.composable
  refine .bind hc (.get hc) fun d => .ite (fun _ => ?_) fun _ => ?_
  · exact .bind hc (hr.modify (fun _ => rfl) fun _ => rfl) fun _ => hr.ioSendSw _
  · exact .bind hc (hr.askUser _ _) fun _ => .pure hc _

theorem handlerGetXpub (cdata : Buffer) : Within r (handlerGetXpub pf o cdata) := by
  have hc := hr.composable
  refine .bind hc (hr.modify (fun _ => rfl) fun _ => rfl) fun _ => .bind hc (hr.readContextPath cdata) fun _ => ?_
  refine .ite (fun _ => ?_) fun _ => hr.ioSendSw _
  refine .bind hc hr.deriveXpubKey fun _ => .bind hc hr.deriveXpubParent fun _ => ?_
  exact hr.uiDisplayXpubConfirm

theorem uiDisplaySignTokenData : Within r uiDisplaySignTokenData := by
  have hc := hr.composable
  refine .bind hc (.get hc) fun d => .ite (fun _ => ?_) fun _ => ?_
  · exact .bind hc (hr.bzeroAndReply _) fun _ => .pure hc _
  · refine .bind hc (hr.modify (fun _ => rfl) fun _ => rfl) fun _ => ?_
    exact .bind hc (hr.askUser _ _) fun _ => .pure hc _

theorem handlerSignTokenData (cdata : Buffer) : Within r (handlerSignTokenData cdata) := by
  have hc := hr.composable
  refine .bind hc (hr.modify (fun _ => rfl) fun _ => rfl) fun _ => ?_
  split
  refine .bind hc (hr.modify (fun _ => rfl) fun _ => rfl) fun _ => ?_
  exact .ite (fun _ => hr.uiDisplaySignTokenData) fun _ => hr.ioSendSw _

theorem checkTokenSignatureFromApdu (cdata : Buffer) : Within r (checkTokenSignatureFromApdu pf o cdata) := by
  have hc := hr.composable
  unfold HathorApp.checkTokenSignatureFromApdu
  split
  · exact .pure hc _
  · split
    · exact .pure hc _
    · exact .bind hc hr.getSecret fun _ => .pure hc _

theorem replyTokenCheck (isTokenVerified : Nat) : Within r (replyTokenCheck isTokenVerified) :=
  .ite (fun _ => hr.ioSendSw _) fun _ => hr.ioSendSw _

theorem handlerVerifyTokenSignature (cdata : Buffer) : Within r (handlerVerifyTokenSignature pf o cdata) := by
  have hc := hr.composable
  refine .bind hc (hr.modify (fun _ => rfl) fun _ => rfl) fun _ => ?_
  refine .bind hc (hr.checkTokenSignatureFromApdu cdata) fun _ => ?_
  exact .ite (fun _ => hr.ioSendSw _) fun _ => hr.replyTokenCheck _

theorem registerToken (cdata : Buffer) : Within r (registerToken pf o cdata) := by
  have hc := hr.composable
  refine .bind hc (.get hc) fun d => .ite (fun _ => ?_) fun _ => ?_
  · exact .bind hc (hr.modify (fun _ => rfl) fun _ => rfl) fun _ => hr.ioSendSw _
  · refine .bind hc (hr.checkTokenSignatureFromApdu cdata) fun _ => .ite (fun _ => ?_) fun _ => hr.replyTokenCheck _
    refine .bind hc (hr.modify (fun _ => rfl) fun _ => rfl) fun _ => ?_
    exact .ite (fun _ => hr.ioSendSw _) fun _ => hr.ioSendSw _

theorem handlerSendTokenData (first : Bool) (cdata : Buffer) : Within r (handlerSendTokenData pf o first cdata) := by
  unfold HathorApp.handlerSendTokenData
  refine .ite (fun _ => ?_) fun _ => hr.registerToken cdata
  exact .bind hr.composable (hr.modify (fun _ => rfl) fun _ => rfl) fun _ => hr.registerToken cdata

theorem resetCall (d : Device) : r d (d.withTx d.tx.resetCall) [] := hr.still rfl rfl (List.forall_mem_nil _)

theorem decodeEffect {s : TxState} {d d' : Device} {accepted : Bool} {w : List Obs}
    (h : DecodeEffect pf o s d accepted d' w) : r d d' w := by
  cases h with
  | rejected silent => exact hr.refused silent.still
  | broken silent => exact hr.still rfl rfl silent.still
  | awaits silent => exact hr.answers rfl rfl silent.still (List.forall_mem_nil _)
  | displays silent _ _ _ _ _ ends =>
      have hdecoded : r d d _ := hr.still rfl rfl silent.still
      exact hr.composable.trans hdecoded (hr.displayEnds ends)

theorem dataEffect {data : Bytes} {chunk : Nat} {s : TxState} {d d' : Device} {e : Ending} {w : List Obs}
    (h : DataEffect pf o data chunk s d e d' w) : r d d' w := by
  have htaken : ∀ {d₁ : Device}, r d₁ d' w → d₁.gIoState = d.gIoState → d₁.exchange = d.exchange → r d d' w := by
    intro d₁ hrest hio hexchange
    exact hr.composable.trans (hr.still hio hexchange (List.forall_mem_nil _)) hrest
  cases h with
  | dropped => exact hr.dropped
  | busy => exact hr.still rfl rfl (List.forall_mem_nil _)
  | headerUnread => exact hr.still rfl rfl (List.forall_mem_nil _)
  | started _ _ _ _ _ _ _ effect => exact htaken (hr.decodeEffect effect) rfl rfl
  | notHashed => exact hr.composable.refl d
  | notCopied => exact hr.still rfl rfl (List.forall_mem_nil _)
  | continued _ _ _ _ effect => exact htaken (hr.decodeEffect effect) rfl rfl

theorem handlerSignTx_data {data : Bytes} (hdata : data ≠ []) (hlength : data.length ≤ decodeBufferLen) (chunk : Nat) :
    Within r (handlerSignTx pf o (Buffer.ofData data) .data chunk) := by
  intro d
  refine wp_mono (handlerSignTx_data_spec pf o data chunk hdata hlength d.tx.represents_someState) ?_ ?_ fun _ => trivial
  · exact fun _ _ _ h => hr.composable.trans (hr.resetCall d) (hr.dataEffect h)
  · exact fun _ _ _ h => hr.composable.trans (hr.resetCall d) (hr.dataEffect h)

/-- A sign command, when what it may send are signatures. -/
theorem signEffect {data : Bytes} {d d' : Device} {v : Int} {w : List Obs}
    (hsigns : ∀ key digest, sends (pf.ecdsaSign key digest))
    (h : SignEffect pf o data d v d' w) : r d d' w := by
  cases h with
  | unapproved => exact hr.answers (u := []) rfl rfl (List.forall_mem_nil _) (List.forall_mem_nil _)
  | unread => exact hr.answers (u := []) rfl rfl (List.forall_mem_nil _) (List.forall_mem_nil _)
  | pathless => exact hr.answers (u := []) rfl rfl (List.forall_mem_nil _) (List.forall_mem_nil _)
  | failed _ _ _ sighash =>
      have hstill := sighash.still
      obtain ⟨tx, rfl⟩ := sighash.frame
      exact hr.answers rfl rfl hstill (List.forall_mem_nil _)
  | signed _ _ _ sighash =>
      have hstill := sighash.still
      cases sighash with
      | signed => exact hr.replyOf (hsigns _ _) rfl rfl hstill

theorem handlerSignTx_sign (hsigns : ∀ key digest, sends (pf.ecdsaSign key digest)) (data : Bytes) (chunk : Nat) :
    Within r (handlerSignTx pf o (Buffer.ofData data) .sign chunk) := by
  intro d
  refine wp_mono (handlerSignTx_sign_spec pf o data chunk d) ?_ (fun _ _ _ h => h.elim) fun _ => trivial
  exact fun _ _ _ h => hr.composable.trans (hr.resetCall d) (hr.signEffect hsigns h)

theorem handlerSignTx_done (cdata : Buffer) (chunk : Nat) : Within r (handlerSignTx pf o cdata .done chunk) := by
  have hc := hr.composable
  exact .bind hc (hr.modify (fun _ => rfl) fun _ => rfl) fun _ => .bind hc (.get hc) fun _ => hr.bzeroMenuReply _

/-- Every command but GET_VERSION and the sign command sends status words only. -/
theorem apduDispatcher {cmd : Command} (hfits : cmd.Fits) (hversion : cmd.Is insGetVersion → sends ([72, 84, 82] ++ appVersion))
    (hsigns : cmd.Is insSignTx → cmd.p1 = 1 → ∀ key digest, sends (pf.ecdsaSign key digest)) :
    Within r (apduDispatcher pf o cmd) := by
  have hlength : cmd.data.length ≤ decodeBufferLen := Nat.le_trans hfits (by decide)
  have hdispatches := apduDispatcher_dispatches pf o cmd
  generalize HathorApp.apduDispatcher pf o cmd = p at hdispatches
  cases hdispatches with
  | refused => exact hr.ioSendSw _
  | getVersion is => exact hr.ioSendResponse (hversion is) _
  | getAddress => exact hr.handlerGetAddress _
  | getXpub => exact hr.handlerGetXpub _
  | signTxData _ _ nonempty => exact hr.handlerSignTx_data nonempty hlength _
  | signTxSign is p1 => exact hr.handlerSignTx_sign (hsigns is p1) _ _
  | signTxDone => exact hr.handlerSignTx_done _ _
  | signTokenData => exact hr.handlerSignTokenData _
  | sendTokenData => exact hr.handlerSendTokenData _ _
  | verifyTokenSignature => exact hr.handlerVerifyTokenSignature _
  | resetTokenSignatures => exact .bind hr.composable (hr.askUser _ _) fun _ => .pure hr.composable _

/-- Every press but the approvals of a public key and of a token signature sends status words only. -/
theorem runCallback {callback : Callback} {choice : Bool}
    (hxpub : callback = .uiActionConfirmXpub → choice = true → ∀ data, sends data)
    (htoken : callback = .uiActionSignTokenData → choice = true → ∀ data, sends data) :
    Within r (runCallback pf o callback choice) := by
  have hc := hr.composable
  have hreply : ∀ sw, Within r (HathorApp.ioSendSw sw >>= fun _ => HathorApp.uiMenuMain) :=
    fun sw => .bind hc (hr.ioSendSw sw) fun _ => hr.uiMenuMain
  cases callback with
  | uiActionTxConfirm =>
      refine .ite (fun _ => ?_) fun _ => hr.bzeroAndReply _
      refine .bind hc (hr.modify (fun _ => rfl) fun _ => rfl) fun _ => ?_
      exact .bind hc (hr.ioSendSw _) fun _ => hr.uxFlowInit _
  | uiConfirmOutput => exact hr.uiConfirmOutput choice
  | uiActionConfirmXpub =>
      refine .ite (fun happroved => ?_) fun _ => hr.bzeroAndReply _
      refine .bind hc (.bind hc (.get hc) fun d => ?_) fun _ => hr.uiMenuMain
      exact hr.ioSendResponse (hxpub rfl happroved _) _
  | uiActionConfirmAddress => exact .ite (fun _ => hreply _) fun _ => hr.bzeroAndReply _
  | uiConfirmResetTokenSignatures =>
      refine .ite (fun _ => ?_) fun _ => hreply _
      exact .bind hc (hr.modify (fun _ => rfl) fun _ => rfl) fun _ => hreply _
  | uiActionSignTokenData =>
      refine .ite (fun happroved => ?_) fun _ => hr.bzeroAndReply _
      refine .bind hc (.bind hc hr.getSecret fun _ => .bind hc (.get hc) fun d => ?_) fun _ => hr.uiMenuMain
      exact hr.ioSendResponse (htoken rfl happroved _) _

end IoFootprint

end HathorApp
