import HathorApp.ChangeAddress
import HathorApp.IoFootprint
import HathorApp.TokenRoundTrip

/-!
What the user is asked besides a transaction, and what the answer is. A command that asks for a public key, an
address, a signature of a token or a reset of the secret puts up a screen. While its reply is owed nothing happens
but presses, so the command, its screen and the answer given on approval belong together.
-/

namespace HathorApp

open ProgramLogic StreamDecoder TraceRun

/-- What a command asks the user for. -/
inductive Request where
  | xpub (path : Bip32Path)
  | address (path : Bip32Path)
  | tokenSignature (token : Token)
  | resetTokenSignatures

/-- The command asks for it. -/
inductive Command.Requests (cmd : Command) : Request → Prop where
  | xpub {path : Bip32Path} {rest : Buffer} (is : cmd.Is insGetXpub)
      (read : bufferReadBip32Path (Buffer.ofData cmd.data) [] = (true, path, rest)) : cmd.Requests (.xpub path)
  | address {path : Bip32Path} {rest : Buffer} (is : cmd.Is insGetAddress)
      (read : bufferReadBip32Path (Buffer.ofData cmd.data) [] = (true, path, rest)) : cmd.Requests (.address path)
  | tokenSignature {token : Token} {rest : Buffer} (is : cmd.Is insSignTokenData)
      (parse : parseToken (Buffer.ofData cmd.data) zeroToken = (true, token, rest)) : cmd.Requests (.tokenSignature token)
  | resetTokenSignatures (is : cmd.Is insResetTokenSignatures) : cmd.Requests .resetTokenSignatures

section Meaning

variable (pf : Platform)

/-- The key at a path, its chain code and the fingerprint of its parent. -/
def xpubOf (path : Bip32Path) : XpubCtx :=
  ⟨pf.generatePair (pf.deriveBip32 path).1, (pf.deriveBip32 path).2, (pathHash pf path.dropLast).take fingerprintLen⟩

namespace Request

/-- The screen that asks for it. -/
def screen : Request → Screen
  | .xpub _ => .xpub
  | .address path => .address (addressText (addressOf pf (pathHash pf path)))
  | .tokenSignature token => .signTokenData (cString token.symbol) (cString token.name) (formatHex token.uid)
  | .resetTokenSignatures => .resetTokenSignatures

/-- The data of the reply to an approval, when the secret is this one. -/
def answer (secret : Bytes) : Request → Bytes
  | .xpub path => (xpubOf pf path).rawPublicKey ++ (xpubOf pf path).chainCode ++ (xpubOf pf path).fingerprint
  | .tokenSignature token => signToken pf secret token
  | .address _ | .resetTokenSignatures => []

/-- The secret an approval leaves in the flash: only a token signature and a reset can change it. -/
def secretAfter (o : Outcome) (d : Device) : Request → Bytes
  | .xpub _ | .address _ => d.secret
  | .tokenSignature _ => secretFor o d
  | .resetTokenSignatures => o.rng.take secretLen

end Request

/-- The device asks for it, and has what the answer is made of. -/
def Device.Holds (d : Device) : Request → Prop
  | .xpub path => d.flow = .xpub ∧ d.gContext.pkInfo = xpubOf pf path
  | .address path => d.flow = .address ∧ d.gAddress = addressText (addressOf pf (pathHash pf path))
  | .tokenSignature token => d.flow = .signTokenData ∧ d.gContext.token = token ∧ d.gTokenSymbol = cString token.symbol ∧
      d.gTokenName = cString token.name ∧ d.gTokenUid = formatHex token.uid
  | .resetTokenSignatures => d.flow = .resetTokenSignatures

variable {pf} {d : Device} {request : Request}

theorem Device.Holds.screen_eq (h : d.Holds pf request) : d.screen = request.screen pf := by
  unfold Device.screen Request.screen
  cases request with
  | xpub => rw [h.1]
  | address =>
      rw [h.1]
      exact congrArg Screen.address h.2
  | tokenSignature =>
      obtain ⟨hflow, _, hsymbol, hname, huid⟩ := h
      rw [hflow, hsymbol, hname, huid]
  | resetTokenSignatures => rw [show d.flow = .resetTokenSignatures from h]

theorem Device.Holds.io (h : d.Holds pf request) (state : IoState) (exchange : Exchange) :
    Device.Holds pf { d with gIoState := state, exchange := exchange } request := by
  cases request <;> exact h

end Meaning

section Commands

variable (pf : Platform) (o : Outcome)

/-- The screen after a handler: it is as before, asks nothing, belongs to a transaction or asks for what the command
requests. A handler that fails leaves no screen behind. -/
inductive AsksFor (cmd : Command) (d : Device) : Ending → Device → List Obs → Prop where
  | closed {r : Ending} {d' : Device} {w : List Obs} (screen : d'.flow = d.flow ∨ d'.flow.asks = false) :
      AsksFor cmd d r d' w
  | transaction {r : Ending} {d' : Device} {w : List Obs} (screen : d'.flow.OfTx) : AsksFor cmd d r d' w
  | request {r : Ending} {d' : Device} {w : List Obs} {request : Request} (requests : cmd.Requests request)
      (holds : d'.Holds pf request) (shown : Obs.display (request.screen pf) ∈ w) : AsksFor cmd d r d' w
  | fails {v : Int} {d' : Device} {w : List Obs} (negative : v < 0) : AsksFor cmd d (.ret v) d' w

variable {pf o} {cmd : Command} {d d' : Device} {r : Ending} {w : List Obs}

theorem Concludes.asksFor (h : Concludes Flow.OfTx d r d' w) : AsksFor pf cmd d r d' w := by
  cases h with
  | replied _ _ screen => exact .closed screen
  | asks _ _ _ raised => exact .transaction raised
  | throws quiet => exact .closed (Or.inl quiet.flow)
  | fails negative => exact .fails negative

theorem Concluding.asksFor {p : App Int} (hp : Concluding Flow.OfTx p) (d : Device) :
    wp p (fun v d' w => AsksFor pf cmd d (.ret v) d' w) (fun e d' w => AsksFor pf cmd d (.thrown e) d' w) True d :=
  wp_mono (hp d) (fun _ _ _ h => h.asksFor) (fun _ _ _ h => h.asksFor) id

/-- What a handler did before with the same screen up does not matter. -/
theorem AsksFor.after {d₁ : Device} (h : AsksFor pf cmd d₁ r d' w) (hflow : d₁.flow = d.flow) (u : List Obs) :
    AsksFor pf cmd d r d' (u ++ w) := by
  cases h with
  | closed screen => exact .closed (hflow ▸ screen)
  | transaction screen => exact .transaction screen
  | request requests holds shown => exact .request requests holds (List.mem_append_right _ shown)
  | fails negative => exact .fails negative

theorem derivePrivateKey_eq {path : Bip32Path} {key : Bytes × Bytes} (h : derivePrivateKey pf o path = some key) :
    key = pf.deriveBip32 path := by
  unfold derivePrivateKey at h
  rw [Option.ite_none_right_eq_some] at h
  obtain ⟨_, h⟩ := h
  dsimp only at h
  rw [Option.ite_none_right_eq_some, Option.some.injEq] at h
  exact h.2.symm

/-- A request that reads a path starts over with the levels it reads. -/
theorem readPath_request {p : App Int} {reqType : RequestType} (cdata : Buffer)
    (hp : ∀ path rest, bufferReadBip32Path cdata [] = (true, path, rest) →
      wp p (fun v d' w => AsksFor pf cmd d (.ret v) d' w) (fun e d' w => AsksFor pf cmd d (.thrown e) d' w) True
        { initRequest reqType d with gContext := { (initRequest reqType d).gContext with bip32Path := path } }) :
    wp (do
        Prog.modify (initRequest reqType)
        if ← readContextPath cdata then p else ioSendSw swWrongDataLength)
      (fun v d' w => AsksFor pf cmd d (.ret v) d' w) (fun e d' w => AsksFor pf cmd d (.thrown e) d' w) True d := by
  obtain ⟨⟨read, path, rest⟩, hread⟩ : ∃ result, bufferReadBip32Path cdata [] = result := ⟨_, rfl⟩
  have hread' : bufferReadBip32Path cdata (initRequest reqType d).gContext.bip32Path = (read, path, rest) := hread
  unfold readContextPath
  simp only [wp_bind, wp_modify, wp_get, hread', wp_pure, wp_ite]
  refine ⟨fun haccepted => ?_, fun _ => ?_⟩
  · subst haccepted
    exact hp path rest hread
  · rw [wp_ioSendSw]
    exact .closed (Or.inl rfl)

theorem uiDisplayConfirmAddress_asksFor {path : Bip32Path} (htype : d.gContext.reqType = .confirmAddress)
    (hstate : d.state = .none) (hpath : d.gContext.bip32Path = path) (hrequests : cmd.Requests (.address path)) :
    wp (uiDisplayConfirmAddress pf o) (fun v d' w => AsksFor pf cmd d (.ret v) d' w)
      (fun e d' w => AsksFor pf cmd d (.thrown e) d' w) True d := by
  have hready : ¬(d.gContext.reqType ≠ .confirmAddress ∨ d.state ≠ .none) := by
    rw [htype, hstate]
    decide
  unfold uiDisplayConfirmAddress
  rw [wp_bind, wp_get, if_neg hready]
  simp only [wp_bind, wp_modify, wp_emit]
  split
  · -- no address
    simp only [wp_bind, wp_bzeroAndReply, wp_pure]
    exact .closed (Or.inr rfl)
  · rename_i address haddress
    obtain ⟨⟨key, chainCode⟩, hkey, haddress⟩ := Option.bind_eq_some_iff.mp haddress
    obtain ⟨w, hw, haddress⟩ := Option.bind_eq_some_iff.mp haddress
    unfold addressFromPubkey at haddress
    split at haddress
    · cases haddress
    · rename_i hash hhash
      have hraw : key = (pf.deriveBip32 path).1 := by
        rw [hpath] at hkey
        exact derivePrivateKey_some pf hkey
      have hhash : hash = pathHash pf path := by
        rw [hash160_some pf hhash, initPublicKey_some pf hw, hraw]
        rfl
      have htext : addressText address = addressText (addressOf pf (pathHash pf path)) := by
        rw [addressFromPubkeyHash_some pf haddress, hhash]
      simp only [wp_bind, wp_modify, wp_askUser, wp_pure]
      refine .request hrequests ⟨rfl, htext⟩ ?_
      simp [Device.screen, Request.screen, htext]

theorem handlerGetAddress_asksFor (is : cmd.Is insGetAddress) (d : Device) :
    wp (handlerGetAddress pf o (Buffer.ofData cmd.data)) (fun v d' w => AsksFor pf cmd d (.ret v) d' w)
      (fun e d' w => AsksFor pf cmd d (.thrown e) d' w) True d := by
  refine readPath_request _ fun path rest hread => ?_
  unfold deriveAddress
  rw [wp_bind, wp_bind, wp_get, wp_bind, wp_emit]
  split
  · exact .closed (Or.inl rfl)
  · rw [wp_modify]
    refine wp_mono (uiDisplayConfirmAddress_asksFor rfl rfl rfl (.address is hread)) ?_ ?_ id
    · exact fun _ _ _ h => AsksFor.after (d := d) h rfl _
    · exact fun _ _ _ h => AsksFor.after (d := d) h rfl _

theorem uiDisplayXpubConfirm_asksFor {path : Bip32Path} (htype : d.gContext.reqType = .confirmXpub)
    (hstate : d.state = .none) (hkey : d.gContext.pkInfo = xpubOf pf path) (hrequests : cmd.Requests (.xpub path)) :
    wp uiDisplayXpubConfirm (fun v d' w => AsksFor pf cmd d (.ret v) d' w)
      (fun e d' w => AsksFor pf cmd d (.thrown e) d' w) True d := by
  have hready : ¬(d.gContext.reqType ≠ .confirmXpub ∨ d.state ≠ .none) := by
    rw [htype, hstate]
    decide
  unfold uiDisplayXpubConfirm
  rw [wp_bind, wp_get, if_neg hready, wp_bind, wp_askUser, wp_pure]
  exact .request hrequests ⟨rfl, hkey⟩ (by simp [Device.screen, Request.screen])

theorem handlerGetXpub_asksFor (is : cmd.Is insGetXpub) (d : Device) :
    wp (handlerGetXpub pf o (Buffer.ofData cmd.data)) (fun v d' w => AsksFor pf cmd d (.ret v) d' w)
      (fun e d' w => AsksFor pf cmd d (.thrown e) d' w) True d := by
  refine readPath_request _ fun path rest hread => ?_
  unfold deriveXpubKey deriveXpubParent
  rw [wp_bind, wp_bind, wp_get, wp_bind, wp_emit]
  cases hderive : derivePrivateKey pf o path with
  | none => exact .closed (Or.inl rfl)
  | some key =>
      have hkey := derivePrivateKey_eq hderive
      dsimp only
      cases hpair : initPublicKey pf o key.1 with
      | none => exact .closed (Or.inl rfl)
      | some w =>
          have hw := initPublicKey_some pf hpair
          dsimp only
          rw [wp_modify, wp_bind, wp_bind, wp_get, wp_ite]
          refine ⟨fun _ => trivial, fun _ => ?_⟩
          rw [wp_bind, wp_emit]
          cases hparent : pubkeyHashOf pf o path.dropLast with
          | none => exact .closed (Or.inl rfl)
          | some hash =>
              have hhash := pubkeyHashOf_some pf hparent
              have hinfo : XpubCtx.mk w key.2 (hash.take fingerprintLen) = xpubOf pf path := by
                rw [hw, hkey, hhash]
                rfl
              dsimp only
              rw [wp_modify]
              refine wp_mono (uiDisplayXpubConfirm_asksFor rfl rfl hinfo (.xpub is hread)) ?_ ?_ id
              · exact fun _ _ _ h => AsksFor.after (d := d) (AsksFor.after (d := d) h rfl _) rfl _
              · exact fun _ _ _ h => AsksFor.after (d := d) (AsksFor.after (d := d) h rfl _) rfl _

theorem handlerSignTokenData_asksFor (is : cmd.Is insSignTokenData) (d : Device) :
    wp (handlerSignTokenData (Buffer.ofData cmd.data)) (fun v d' w => AsksFor pf cmd d (.ret v) d' w)
      (fun e d' w => AsksFor pf cmd d (.thrown e) d' w) True d := by
  obtain ⟨⟨parsed, token, rest⟩, hparse⟩ : ∃ result, parseToken (Buffer.ofData cmd.data) zeroToken = result := ⟨_, rfl⟩
  cases parsed with
  | false =>
      unfold handlerSignTokenData
      rw [hparse]
      simp only [wp_bind, wp_modify, Bool.false_eq_true, if_false, wp_ioSendSw]
      exact .closed (Or.inl rfl)
  | true =>
      have hwf := parseToken_wellFormed (Nat.le_refl _) hparse
      refine wp_mono (handlerSignTokenData_shows hparse hwf d) ?_ (fun _ _ _ h => h.elim) fun _ => trivial
      rintro v d' w ⟨rfl, rfl, rfl⟩
      exact .request (.tokenSignature is hparse) ⟨rfl, rfl, rfl, rfl, rfl⟩ (List.mem_singleton_self _)

theorem apduDispatcher_asksFor (pf : Platform) (o : Outcome) (hfits : cmd.Fits) (d : Device) :
    wp (apduDispatcher pf o cmd) (fun v d' w => AsksFor pf cmd d (.ret v) d' w)
      (fun e d' w => AsksFor pf cmd d (.thrown e) d' w) True d := by
  have hlength : cmd.data.length ≤ decodeBufferLen := Nat.le_trans hfits (by decide)
  have hreset : Quiet d (d.withTx d.tx.resetCall) [] := ⟨rfl, rfl, rfl, rfl⟩
  have hanswers : ∀ {p : App Int}, Answering Flow.OfTx p →
      wp p (fun v d' w => AsksFor pf cmd d (.ret v) d' w) (fun e d' w => AsksFor pf cmd d (.thrown e) d' w) True d :=
    fun hp => hp.concluding.asksFor d
  have hdispatches := apduDispatcher_dispatches pf o cmd
  generalize apduDispatcher pf o cmd = p at hdispatches
  cases hdispatches with
  | refused => exact hanswers (answering_ioSendSw _)
  | getVersion => exact hanswers (answering_ioSendResponse _ _)
  | getAddress is => exact handlerGetAddress_asksFor is d
  | getXpub is => exact handlerGetXpub_asksFor is d
  | signTxData _ _ nonempty =>
      refine wp_mono (handlerSignTx_data_spec pf o cmd.data cmd.p2 nonempty hlength d.tx.represents_someState) ?_ ?_
        fun _ => trivial
      · exact fun _ _ _ h => (hreset.concludes h.concludes).asksFor
      · exact fun _ _ _ h => (hreset.concludes h.concludes).asksFor
  | signTxSign =>
      refine wp_mono (handlerSignTx_sign_spec pf o cmd.data cmd.p2 d) ?_ (fun _ _ _ h => h.elim) fun _ => trivial
      exact fun _ _ _ h => (hreset.concludes h.concludes).asksFor
  | signTxDone =>
      unfold handlerSignTx
      rw [wp_bind, wp_modify, wp_bind, wp_get]
      dsimp only
      rw [wp_bzeroMenuReply]
      exact .closed (Or.inr rfl)
  | signTokenData is => exact handlerSignTokenData_asksFor is d
  | sendTokenData => exact hanswers (answering_handlerSendTokenData _ _)
  | verifyTokenSignature => exact hanswers (answering_handlerVerifyTokenSignature _)
  | resetTokenSignatures is =>
      unfold handlerResetTokenSignatures uiDisplayResetTokenSignaturesConfirm
      rw [wp_bind, wp_askUser, wp_pure]
      exact .request (.resetTokenSignatures is) rfl (by simp [Device.screen, Request.screen])

end Commands

section Steps

variable (pf : Platform)

/-- The step is a command, and it has put up the screen that asks for what it requests. -/
def Raises (r : Step Device Event Obs) (request : Request) : Prop :=
  ∃ o raw cmd, r.event = .apdu o raw ∧ apduParser raw = some cmd ∧ cmd.Requests request ∧
    Obs.display (request.screen pf) ∈ r.seen

/-- A press on a screen that has no such step. -/
structure Idle (r : Step Device Event Obs) : Prop where
  press : r.event.isCommand = false
  unseen : r.seen = []
  same : r.post = r.pre

variable {pf} {d : Device}

theorem Rests.holds {d₁ d' : Device} {r : Ending} {w : List Obs} (h : Rests d₁ r d' w) {request : Request}
    (hholds : d₁.Holds pf request) (hasks : d'.flow.asks = true) : d'.Holds pf request := by
  cases h with
  | replied => exact hholds.io _ _
  | owes => exact hholds.io _ _
  | thrown => exact hholds.io _ _
  | restarts => cases hasks

theorem Rests.flow {d₁ d' : Device} {r : Ending} {w : List Obs} (h : Rests d₁ r d' w) (hasks : d'.flow.asks = true) :
    d'.flow = d₁.flow := by
  cases h with
  | replied => rfl
  | owes => rfl
  | thrown => rfl
  | restarts => cases hasks

/-- After a command that arrives when no screen asks anything, a screen that does so is one of a transaction, or asks for
what the command requests. -/
theorem handleCommand_requests (o : Outcome) (raw : Bytes) (hclosed : d.flow.asks = false) :
    wp (handleCommand pf o raw)
      (fun _ d' w => d'.flow.asks = true → ¬d'.flow.OfTx → ∃ cmd request, apduParser raw = some cmd ∧
        cmd.Requests request ∧ Obs.display (request.screen pf) ∈ w ∧ d'.Holds pf request)
      (fun _ _ _ => False) True d := by
  cases hparse : apduParser raw with
  | none =>
      unfold handleCommand
      rw [wp_bind, wp_modify, wp_catchAll, hparse]
      dsimp only
      rw [wp_bind, wp_ioSendSw]
      refine wp_mono (ioRecvCommand_rests (Int.le_refl 0) _) ?_ (fun _ _ _ h => h.elim) fun _ => trivial
      intro _ d' w hrests hasks
      rw [hrests.flow hasks, show _ = (wake d).flow from rfl, wake_flow, hclosed] at hasks
      cases hasks
  | some cmd =>
      refine wp_mono (handleCommand_ends pf hparse (apduDispatcher_asksFor pf o (apduParser_fits hparse) (wake d))) ?_
        (fun _ _ _ h => h) id
      rintro _ d' w ⟨r, d₁, w₁, w₂, hputs, hrests, rfl⟩ hasks hother
      have hflow := hrests.flow hasks
      cases hputs with
      | closed screen =>
          have hnone : d₁.flow.asks = false := by
            rcases screen with hsame | hclosed'
            · rw [hsame, wake_flow, hclosed]
            · exact hclosed'
          rw [hflow, hnone] at hasks
          cases hasks
      | transaction screen => exact absurd (hflow ▸ screen) hother
      | request requests holds shown =>
          exact ⟨cmd, _, rfl, requests, List.mem_append_left _ shown, hrests.holds holds hasks⟩
      | fails negative =>
          cases hrests with
          | replied nonneg => exact absurd nonneg (Int.not_le.mpr negative)
          | owes nonneg => exact absurd nonneg (Int.not_le.mpr negative)
          | restarts => cases hasks

/-- The device after an approval. -/
def Request.granted (o : Outcome) (d : Device) (request : Request) : Device :=
  { d with secret := request.secretAfter o d, gIoState := .ready, flow := .menuMain }

/-- The device after a rejection. That of a reset keeps the context. -/
def Request.denied (d : Device) : Request → Device
  | .resetTokenSignatures => { d with gIoState := .ready, flow := .menuMain }
  | .xpub _ | .address _ | .tokenSignature _ => d.refused

theorem wp_handlePress {o : Outcome} {choice : Bool} {callback : Callback} {R : Unit → Device → List Obs → Prop}
    (hstep : (if choice then d.flow.asks else d.flow.rejects) = true) (hset : d.gValidateCallback = some callback)
    (hrun : wp (runCallback pf o callback choice) R (fun _ _ _ => False) False d) :
    wp (handlePress pf o choice) R (fun _ _ _ => False) False d := by
  unfold handlePress
  rw [wp_bind, wp_get, if_pos hstep, hset]
  dsimp only
  rw [wp_catchAll]
  exact wp_mono hrun (fun _ _ _ h => h) (fun _ _ _ h => h.elim) id

/-- Approve gives the answer, and takes the screen down. -/
theorem handlePress_grants (o : Outcome) {request : Request} (hcallback : d.CallbackSet) (hholds : d.Holds pf request) :
    wp (handlePress pf o true)
      (fun _ d' w => d' = request.granted o d ∧
        w = [replyOf (request.answer pf (secretFor o d)) swOk, .display .menuMain])
      (fun _ _ _ => False) False d := by
  have hstatus : replyOf [] swOk = .response [] swOk := if_neg (by decide)
  cases request with
  | xpub path =>
      obtain ⟨hflow, hkey⟩ := hholds
      refine wp_handlePress (by rw [hflow]; rfl) (hcallback .uiActionConfirmXpub (by rw [hflow]; rfl)) ?_
      unfold runCallback uiActionConfirmXpub helperSendResponseXpub
      simp only [if_true, wp_bind, wp_get, wp_ioSendResponse, wp_uiMenuMain, hkey]
      exact ⟨rfl, rfl⟩
  | address path =>
      obtain ⟨hflow, _⟩ := hholds
      refine wp_handlePress (by rw [hflow]; rfl) (hcallback .uiActionConfirmAddress (by rw [hflow]; rfl)) ?_
      unfold runCallback uiActionConfirmAddress
      simp only [if_true, wp_bind, wp_ioSendSw, wp_uiMenuMain]
      exact ⟨rfl, by rw [Request.answer, hstatus]; rfl⟩
  | tokenSignature token =>
      obtain ⟨hflow, htoken, _⟩ := hholds
      refine wp_handlePress (by rw [hflow]; rfl) (hcallback .uiActionSignTokenData (by rw [hflow]; rfl)) ?_
      unfold runCallback uiActionSignTokenData helperSendTokenDataSignature
      simp only [if_true, wp_bind, wp_getSecret, wp_get, wp_ioSendResponse, wp_uiMenuMain, htoken]
      exact ⟨rfl, rfl⟩
  | resetTokenSignatures =>
      have hflow : d.flow = .resetTokenSignatures := hholds
      refine wp_handlePress (by rw [hflow]; rfl) (hcallback .uiConfirmResetTokenSignatures (by rw [hflow]; rfl)) ?_
      unfold runCallback uiConfirmResetTokenSignatures
      simp only [if_true, wp_bind, wp_generateSecret, wp_ioSendSw, wp_uiMenuMain]
      exact ⟨rfl, by rw [Request.answer, hstatus]; rfl⟩

/-- Reject says so, and takes the screen down. -/
theorem handlePress_denies (o : Outcome) {request : Request} (hcallback : d.CallbackSet) (hholds : d.Holds pf request)
    (hrejects : d.flow.rejects = true) :
    wp (handlePress pf o false)
      (fun _ d' w => d' = request.denied d ∧ w = [.response [] swDeny, .display .menuMain])
      (fun _ _ _ => False) False d := by
  cases request with
  | xpub path =>
      refine wp_handlePress hrejects (hcallback .uiActionConfirmXpub (by rw [hholds.1]; rfl)) ?_
      unfold runCallback uiActionConfirmXpub
      simp only [Bool.false_eq_true, if_false, wp_bzeroAndReply]
      exact ⟨rfl, trivial⟩
  | address path =>
      rw [hholds.1] at hrejects
      cases hrejects
  | tokenSignature token =>
      refine wp_handlePress hrejects (hcallback .uiActionSignTokenData (by rw [hholds.1]; rfl)) ?_
      unfold runCallback uiActionSignTokenData
      simp only [Bool.false_eq_true, if_false, wp_bzeroAndReply]
      exact ⟨rfl, trivial⟩
  | resetTokenSignatures =>
      have hflow : d.flow = .resetTokenSignatures := hholds
      refine wp_handlePress hrejects (hcallback .uiConfirmResetTokenSignatures (by rw [hflow]; rfl)) ?_
      unfold runCallback uiConfirmResetTokenSignatures
      simp only [Bool.false_eq_true, if_false, wp_bind, wp_ioSendSw, wp_uiMenuMain]
      exact ⟨rfl, rfl⟩

end Steps

section Runs

variable {pf : Platform} {h : History Device Event Obs} {d : Device}

/-- The history ends with a command that raised the request, and presses that nothing came of. -/
def Pending (pf : Platform) (h : History Device Event Obs) (request : Request) : Prop :=
  ∃ idle raise earlier, h = idle ++ raise :: earlier ∧ (∀ r ∈ idle, Idle r) ∧ Raises pf raise request

theorem Pending.idle {request : Request} {r : Step Device Event Obs} (hpending : Pending pf h request) (hr : Idle r) :
    Pending pf (r :: h) request := by
  obtain ⟨idle, raise, earlier, rfl, hidle, hraises⟩ := hpending
  exact ⟨r :: idle, raise, earlier, rfl, List.forall_mem_cons.mpr ⟨hr, hidle⟩, hraises⟩

/-- Under a screen that asks for something else than a transaction, a request is pending. -/
theorem run_pending (run : Run (waitingSystem pf) h d) (hasks : d.flow.asks = true) (hother : ¬d.flow.OfTx) :
    ∃ request, Pending pf h request ∧ d.Holds pf request := by
  refine Run.invariant_all (I := fun h d => d.flow.asks = true → ¬d.flow.OfTx →
    ∃ request, Pending pf h request ∧ d.Holds pf request) ?_ ?_ run hasks hother
  · rintro _ ⟨secret, rfl⟩ hasks
    cases hasks
  · intro h d e run ih admitted
    have hdisciplined := run_disciplined run
    cases e with
    | apdu o raw =>
        have hclosed : d.flow.asks = false :=
          Bool.eq_false_iff.mpr fun hasks => admitted rfl o raw rfl (hdisciplined.owed.mp hasks)
        refine wp_mono (handleCommand_requests o raw hclosed) ?_ (fun _ _ _ _ => trivial) fun _ => trivial
        intro _ d' w hrequests hasks hother
        obtain ⟨cmd, request, hparse, hcmd, hshown, hholds⟩ := hrequests hasks hother
        exact ⟨request, ⟨[], _, h, rfl, List.forall_mem_nil _, o, raw, cmd, rfl, hparse, hcmd, hshown⟩, hholds⟩
    | press o choice =>
        refine wp_mono (handlePress_ends pf o choice d) ?_ (fun _ _ _ _ => trivial) fun _ => trivial
        intro _ d' w hends hasks hother
        cases hends with
        | ignored =>
            obtain ⟨request, hpending, hholds⟩ := ih hasks hother
            exact ⟨request, hpending.idle ⟨rfl, rfl, rfl⟩, hholds⟩
        | replied _ _ _ closed =>
            rw [closed] at hasks
            cases hasks
        | asks _ _ _ screen => exact absurd screen hother
    | quit =>
        refine wp_mono (handleQuit_ends d) ?_ (fun _ _ _ _ => trivial) fun _ => trivial
        rintro _ d' w (⟨rfl, rfl⟩ | ⟨_, hmenu, _⟩) hasks hother
        · obtain ⟨request, hpending, hholds⟩ := ih hasks hother
          exact ⟨request, hpending.idle ⟨rfl, rfl, rfl⟩, hholds⟩
        · rw [hmenu] at hasks
          cases hasks

/-- In every run of a host that waits, a screen that asks for something else than a transaction is that of the last
command, and the user chooses the one reply to it: on Approve the answer to what the command requests, and on Reject,
where the screen has that step, a refusal. -/
theorem screen_answers_request (run : Run (waitingSystem pf) h d) (hasks : d.flow.asks = true) (hother : ¬d.flow.OfTx) :
    ∃ request, Pending pf h request ∧ d.screen = request.screen pf ∧ ∀ o,
      wp (handlePress pf o true)
        (fun _ d' w => d' = request.granted o d ∧
          w = [replyOf (request.answer pf (secretFor o d)) swOk, .display .menuMain])
        (fun _ _ _ => False) False d ∧
      (d.flow.rejects = true → wp (handlePress pf o false)
        (fun _ d' w => d' = request.denied d ∧ w = [.response [] swDeny, .display .menuMain])
        (fun _ _ _ => False) False d) := by
  obtain ⟨request, hpending, hholds⟩ := run_pending run hasks hother
  have hcallback := run_callbackSet (free_of_waiting run)
  refine ⟨request, hpending, hholds.screen_eq, fun o => ⟨?_, fun hrejects => ?_⟩⟩
  · exact handlePress_grants o hcallback hholds
  · exact handlePress_denies o hcallback hholds hrejects

/-- The host asks for the public key at a path of one level, after a press on the menu. -/
theorem screen_answers_request_xpub :
    ∃ h d, Run (waitingSystem countingPlatform) h d ∧ d.flow = .xpub ∧
      ∃ request, Pending countingPlatform h request ∧ d.screen = request.screen countingPlatform := by
  obtain ⟨h, r, _, run, hP⟩ := exists_step_of_play countingPlatform true [] [.press (.allOk []) true]
    (.apdu (.allOk []) [0xE0, 0x05, 0, 0, 5, 1, 0x80, 0, 0, 44]) (fun _ r => r.post.flow = .xpub) (by decide +kernel)
  have hflow : r.post.flow = .xpub := of_decide_eq_true hP
  obtain ⟨request, hpending, hscreen, _⟩ := screen_answers_request run (by rw [hflow]; rfl) (by rw [hflow]; exact id)
  exact ⟨_, _, run, hflow, request, hpending, hscreen⟩

end Runs

end HathorApp
