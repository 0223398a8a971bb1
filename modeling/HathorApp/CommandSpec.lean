import HathorApp.DecoderSpec
import HathorApp.DisplaySpec
import HathorApp.TokenSpec

/-!
What a command can do. The commands other than SIGN_TX and SEND_TOKEN_DATA stand aside of a signing
session: they leave it alone or drop it, and show nothing of it. A SEND_TOKEN_DATA command changes the
token registry in one of three ways. A SIGN_TX command is a data, a sign or a done command, each with
the states it can lead to.
-/

namespace HathorApp

open ProgramLogic

/-- An event that shows nothing of a transaction and signs nothing. -/
def Obs.Plain : Obs → Prop
  | .response .. | .derive _ => True
  | .display (.txOutput ..) | .display .confirmTx => False
  | .display _ => True
  | _ => False

def Plain (w : List Obs) : Prop := ∀ e ∈ w, e.Plain

@[simp] theorem plain_nil : Plain [] := fun _ he => nomatch he

@[simp] theorem plain_append (u v : List Obs) : Plain (u ++ v) ↔ Plain u ∧ Plain v :=
  List.forall_mem_append

@[simp] theorem plain_cons (e : Obs) (w : List Obs) : Plain (e :: w) ↔ e.Plain ∧ Plain w :=
  List.forall_mem_cons

theorem Plain.no_restart {w : List Obs} (hw : Plain w) : Obs.restart ∉ w := fun hmem => hw _ hmem

@[simp] theorem plain_replyOf (data : Bytes) (sw : Nat) : (replyOf data sw).Plain := by
  unfold replyOf
  split <;> trivial

/-- The flow on screen, its callback and the texts of an output are as they were. -/
structure ScreenKept (d d' : Device) : Prop where
  flow : d'.flow = d.flow
  callback : d'.gValidateCallback = d.gValidateCallback
  outputIndex : d'.gOutputIndex = d.gOutputIndex
  address : d'.gAddress = d.gAddress
  amount : d'.gAmount = d.gAmount

/-- A flow was put on screen that has nothing to do with a transaction. -/
structure ScreenReplaced (d' : Device) : Prop where
  flow : ¬d'.flow.OfTx
  callback : ∀ c, d'.flow.callback = some c → d'.gValidateCallback = some c

structure SessionKept (d d' : Device) : Prop where
  state : d'.state = d.state
  tx : d'.tx = d.tx
  reqType : d'.gContext.reqType = d.gContext.reqType

structure SessionDropped (d' : Device) : Prop where
  state : d'.state = .none
  tx : d'.tx = zeroSignTxCtx

/-- The effect of a command that stands aside of a signing session. -/
structure Aside (d d' : Device) (w : List Obs) : Prop where
  session : SessionKept d d' ∨ SessionDropped d'
  screen : ScreenKept d d' ∨ ScreenReplaced d'
  registry : d'.gTokenSymbols = d.gTokenSymbols
  seen : Plain w

theorem ScreenKept.trans {d d₁ d₂ : Device} (h : ScreenKept d d₁) (h' : ScreenKept d₁ d₂) :
    ScreenKept d d₂ :=
  ⟨h'.flow.trans h.flow, h'.callback.trans h.callback, h'.outputIndex.trans h.outputIndex,
    h'.address.trans h.address, h'.amount.trans h.amount⟩

theorem SessionKept.trans {d d₁ d₂ : Device} (h : SessionKept d d₁) (h' : SessionKept d₁ d₂) :
    SessionKept d d₂ :=
  ⟨h'.state.trans h.state, h'.tx.trans h.tx, h'.reqType.trans h.reqType⟩

theorem aside_composable : Composable Aside where
  refl _ := ⟨Or.inl ⟨rfl, rfl, rfl⟩, Or.inl ⟨rfl, rfl, rfl, rfl, rfl⟩, rfl, plain_nil⟩
  trans := by
    rintro d d₁ d₂ u v ⟨hsession, hscreen, hregistry, hseen⟩ ⟨hsession', hscreen', hregistry', hseen'⟩
    refine ⟨?_, ?_, hregistry'.trans hregistry, (plain_append u v).mpr ⟨hseen, hseen'⟩⟩
    · obtain hkept' | hdropped' := hsession'
      · obtain hkept | hdropped := hsession
        · exact Or.inl (hkept.trans hkept')
        · exact Or.inr ⟨hkept'.state.trans hdropped.state, hkept'.tx.trans hdropped.tx⟩
      · exact Or.inr hdropped'
    · obtain hkept' | hreplaced' := hscreen'
      · obtain hkept | hreplaced := hscreen
        · exact Or.inl (hkept.trans hkept')
        · refine Or.inr ⟨hkept'.flow ▸ hreplaced.flow, ?_⟩
          rw [hkept'.flow, hkept'.callback]
          exact hreplaced.callback
      · exact Or.inr hreplaced'

section Commands

variable (pf : Platform) (o : Outcome)

/-- What a signing session and its screens are made of. -/
def Device.signingPart (d : Device) :=
  (d.gContext.state, d.gContext.txInfo, d.gContext.reqType, d.gTokenSymbols, d.flow, d.gValidateCallback,
    d.gOutputIndex, d.gAddress, d.gAmount)

theorem Device.state_of_part {d d' : Device} (h : d'.signingPart = d.signingPart) : d'.state = d.state :=
  congrArg (·.1) h

theorem Device.tx_of_part {d d' : Device} (h : d'.signingPart = d.signingPart) : d'.tx = d.tx :=
  congrArg (·.2.1) h

theorem Device.registry_of_part {d d' : Device} (h : d'.signingPart = d.signingPart) :
    d'.gTokenSymbols = d.gTokenSymbols :=
  congrArg (·.2.2.2.1) h

theorem Device.flow_of_part {d d' : Device} (h : d'.signingPart = d.signingPart) : d'.flow = d.flow :=
  congrArg (·.2.2.2.2.1) h

/-- A step that touches nothing of a signing session. -/
theorem Aside.keep {d d' : Device} {w : List Obs} (h : d'.signingPart = d.signingPart) (hw : Plain w) :
    Aside d d' w := by
  simp only [Device.signingPart, Prod.mk.injEq] at h
  obtain ⟨hstate, htx, hreq, hregistry, hflow, hcallback, hindex, haddress, hamount⟩ := h
  exact ⟨Or.inl ⟨hstate, htx, hreq⟩, Or.inl ⟨hflow, hcallback, hindex, haddress, hamount⟩, hregistry, hw⟩

theorem aside_ioSendSw (sw : Nat) : Within Aside (ioSendSw sw) := by
  intro d
  rw [wp_ioSendSw]
  exact .keep rfl (by simp [Obs.Plain])

theorem aside_ioSendResponse (data : Bytes) (sw : Nat) : Within Aside (ioSendResponse data sw) := by
  intro d
  rw [wp_ioSendResponse]
  exact .keep rfl (by simp)

theorem aside_refused {d : Device} {w : List Obs} (hw : Plain w) : Aside d d.refused w :=
  ⟨Or.inr ⟨rfl, rfl⟩, Or.inr ⟨id, fun _ h => nomatch h⟩, rfl, hw⟩

theorem aside_bzeroAndReply (sw : Nat) : Within Aside (bzeroAndReply sw) := by
  intro d
  rw [wp_bzeroAndReply]
  exact aside_refused (by simp [Obs.Plain])

theorem aside_bzeroContext : Within Aside (Prog.modify Device.bzeroContext) :=
  .modify fun _ => ⟨Or.inr ⟨rfl, rfl⟩, Or.inl ⟨rfl, rfl, rfl, rfl, rfl⟩, rfl, plain_nil⟩

/-- A flow that has nothing to do with a transaction, with its own callback. -/
theorem aside_askUser {callback : Callback} {flow : Flow} (hflow : ¬flow.OfTx)
    (hcallback : flow.callback = some callback) : Within Aside (askUser callback flow) := by
  intro d
  rw [wp_askUser]
  refine ⟨Or.inl ⟨rfl, rfl, rfl⟩, Or.inr ⟨hflow, fun c hc => hcallback.symm.trans hc⟩, rfl, ?_⟩
  cases flow <;> first | exact absurd trivial hflow | simp [Device.screen, Obs.Plain]

/-! ### GET_ADDRESS and GET_XPUB

They start from a context of their own. The display functions test that it is still theirs. -/

/-- Aside, for a context of a request that stays one. -/
def AsideOf (reqType : RequestType) (d d' : Device) (w : List Obs) : Prop :=
  d.state = .none → d.gContext.reqType = reqType →
    Aside d d' w ∧ d'.state = .none ∧ d'.gContext.reqType = reqType

theorem asideOf_composable (reqType : RequestType) : Composable (AsideOf reqType) where
  refl d hstate hreq := ⟨aside_composable.refl d, hstate, hreq⟩
  trans h h' hstate hreq := by
    obtain ⟨haside, hstate₁, hreq₁⟩ := h hstate hreq
    obtain ⟨haside', hstate₂, hreq₂⟩ := h' hstate₁ hreq₁
    exact ⟨aside_composable.trans haside haside', hstate₂, hreq₂⟩

theorem AsideOf.keep {reqType : RequestType} {d d' : Device} {w : List Obs}
    (h : d'.signingPart = d.signingPart) (hw : Plain w) : AsideOf reqType d d' w := by
  intro hstate hreq
  have h' := h
  simp only [Device.signingPart, Prod.mk.injEq] at h'
  exact ⟨.keep h hw, h'.1.trans hstate, h'.2.2.1.trans hreq⟩

variable {reqType : RequestType}

theorem asideOf_ioSendSw (sw : Nat) : Within (AsideOf reqType) (ioSendSw sw) := by
  intro d
  rw [wp_ioSendSw]
  exact .keep rfl (by simp [Obs.Plain])

theorem asideOf_derive (path : Bip32Path) : Within (AsideOf reqType) (Prog.emit (.derive path)) :=
  .emit fun _ => .keep rfl (by simp [Obs.Plain])

theorem asideOf_readContextPath (cdata : Buffer) : Within (AsideOf reqType) (readContextPath cdata) := by
  intro d
  unfold readContextPath
  simp only [wp_bind, wp_get, wp_modify, wp_pure]
  exact .keep rfl plain_nil

theorem asideOf_askUser {callback : Callback} {flow : Flow} (hflow : ¬flow.OfTx)
    (hcallback : flow.callback = some callback) : Within (AsideOf reqType) (askUser callback flow) := by
  intro d
  have h := aside_askUser hflow hcallback d
  rw [wp_askUser] at h ⊢
  exact fun hstate hreq => ⟨h, hstate, hreq⟩

theorem asideOf_deriveAddress : Within (AsideOf reqType) (deriveAddress pf o) := by
  have hr := asideOf_composable reqType
  refine .bind hr (.get hr) fun d => .bind hr (asideOf_derive _) fun _ => ?_
  split
  · exact .throw hr _
  · exact .modify fun _ => .keep rfl plain_nil

theorem asideOf_deriveXpubKey : Within (AsideOf reqType) (deriveXpubKey pf o) := by
  have hr := asideOf_composable reqType
  refine .bind hr (.get hr) fun d => .bind hr (asideOf_derive _) fun _ => ?_
  split
  · exact .throw hr _
  · split
    · exact .throw hr _
    · exact .modify fun _ => .keep rfl plain_nil

theorem asideOf_deriveXpubParent : Within (AsideOf reqType) (deriveXpubParent pf o) := by
  have hr := asideOf_composable reqType
  refine .bind hr (.get hr) fun d => .ite (fun _ => .overrun) fun _ => .bind hr (asideOf_derive _) fun _ => ?_
  split
  · exact .throw hr _
  · exact .modify fun _ => .keep rfl plain_nil

theorem asideOf_uiDisplayConfirmAddress :
    Within (AsideOf .confirmAddress) (uiDisplayConfirmAddress pf o) := by
  intro d
  unfold uiDisplayConfirmAddress
  rw [wp_bind, wp_get, wp_ite]
  refine ⟨fun hforeign => ?_, fun _ => ?_⟩
  · simp only [wp_bind, wp_modify, wp_ioSendSw]
    intro hstate hreq
    exact absurd hforeign (not_or.mpr ⟨not_not.mpr hreq, not_not.mpr hstate⟩)
  · simp only [wp_bind, wp_modify, wp_emit]
    split
    · simp only [wp_bind, wp_bzeroAndReply, wp_pure]
      exact fun _ _ =>
        ⟨⟨Or.inr ⟨rfl, rfl⟩, Or.inr ⟨id, fun _ h => absurd h.symm (Option.some_ne_none _)⟩, rfl, by simp [Obs.Plain]⟩, rfl, rfl⟩
    · simp only [wp_bind, wp_modify, wp_askUser, wp_pure]
      exact fun hstate hreq => ⟨⟨Or.inl ⟨rfl, rfl, rfl⟩, Or.inr ⟨id, fun _ h => h⟩, rfl,
        by simp [Device.screen, Obs.Plain]⟩, hstate, hreq⟩

theorem asideOf_uiDisplayXpubConfirm : Within (AsideOf .confirmXpub) uiDisplayXpubConfirm := by
  intro d
  unfold uiDisplayXpubConfirm
  rw [wp_bind, wp_get, wp_ite]
  refine ⟨fun hforeign => ?_, fun _ => ?_⟩
  · simp only [wp_bind, wp_modify, wp_ioSendSw]
    intro hstate hreq
    exact absurd hforeign (not_or.mpr ⟨not_not.mpr hreq, not_not.mpr hstate⟩)
  · have hr := asideOf_composable .confirmXpub
    exact Within.bind hr (asideOf_askUser id rfl) (fun _ => .pure hr _) d

/-- A command that starts from the context of its own request and keeps it is aside of a session. -/
theorem aside_of_request {α : Type} {p : App α} (hp : Within (AsideOf reqType) p) :
    Within Aside (Prog.modify (initRequest reqType) >>= fun _ => p) := by
  intro d
  rw [wp_bind, wp_modify]
  have hstart : Aside d (initRequest reqType d) [] :=
    ⟨Or.inr ⟨rfl, rfl⟩, Or.inl ⟨rfl, rfl, rfl, rfl, rfl⟩, rfl, plain_nil⟩
  exact wp_mono (hp (initRequest reqType d))
    (fun _ _ _ h => aside_composable.trans hstart (h rfl rfl).1)
    (fun _ _ _ h => aside_composable.trans hstart (h rfl rfl).1) id

theorem aside_handlerGetAddress (cdata : Buffer) : Within Aside (handlerGetAddress pf o cdata) := by
  have hr := asideOf_composable .confirmAddress
  refine aside_of_request (.bind hr (asideOf_readContextPath cdata) fun read => .ite (fun _ => ?_) fun _ => ?_)
  · exact .bind hr (asideOf_deriveAddress pf o) fun _ => asideOf_uiDisplayConfirmAddress pf o
  · exact asideOf_ioSendSw _

theorem aside_handlerGetXpub (cdata : Buffer) : Within Aside (handlerGetXpub pf o cdata) := by
  have hr := asideOf_composable .confirmXpub
  refine aside_of_request (.bind hr (asideOf_readContextPath cdata) fun read => .ite (fun _ => ?_) fun _ => ?_)
  · exact .bind hr (asideOf_deriveXpubKey pf o) fun _ =>
      .bind hr (asideOf_deriveXpubParent pf o) fun _ => asideOf_uiDisplayXpubConfirm
  · exact asideOf_ioSendSw _

theorem aside_handlerGetVersion : Within Aside handlerGetVersion := aside_ioSendResponse _ _

theorem aside_uiDisplaySignTokenData : Within Aside uiDisplaySignTokenData := by
  have hr := aside_composable
  refine .bind hr (.get hr) fun d => .ite (fun _ => ?_) fun _ => ?_
  · exact .bind hr (aside_bzeroAndReply _) fun _ => .pure hr _
  · exact .bind hr (.modify fun _ => .keep rfl plain_nil) fun _ =>
      .bind hr (aside_askUser id rfl) fun _ => .pure hr _

theorem aside_handlerSignTokenData (cdata : Buffer) : Within Aside (handlerSignTokenData cdata) := by
  have hr := aside_composable
  refine .bind hr aside_bzeroContext fun _ => ?_
  split
  rename_i parsed token _ _
  exact .bind hr (.modify fun _ => .keep rfl plain_nil) fun _ =>
    .ite (fun _ => aside_uiDisplaySignTokenData) fun _ => aside_ioSendSw _

theorem aside_checkTokenSignatureFromApdu (cdata : Buffer) :
    Within Aside (checkTokenSignatureFromApdu pf o cdata) := by
  have hr := aside_composable
  unfold checkTokenSignatureFromApdu
  split
  · exact .pure hr _
  · split
    · exact .pure hr _
    · intro d
      simp only [wp_bind, wp_getSecret, wp_pure]
      exact .keep rfl plain_nil

theorem aside_replyTokenCheck (isTokenVerified : Nat) : Within Aside (replyTokenCheck isTokenVerified) :=
  .ite (fun _ => aside_ioSendSw _) fun _ => aside_ioSendSw _

theorem aside_handlerVerifyTokenSignature (cdata : Buffer) :
    Within Aside (handlerVerifyTokenSignature pf o cdata) := by
  have hr := aside_composable
  refine .bind hr aside_bzeroContext fun _ => .bind hr (aside_checkTokenSignatureFromApdu pf o cdata) fun r => ?_
  exact .ite (fun _ => aside_ioSendSw _) fun _ => aside_replyTokenCheck _

theorem aside_handlerResetTokenSignatures : Within Aside handlerResetTokenSignatures := by
  have hr := aside_composable
  exact .bind hr (aside_askUser id rfl) fun _ => .pure hr _

/-- The data of a command carry a token and a signature of it that is valid under a secret. -/
def TokenAccepted (secret : Bytes) (cdata : Buffer) (token : Token) : Prop :=
  ∃ rest signature rest', parseToken cdata zeroToken = (true, token, rest) ∧
    bufferReadBytes rest 32 32 = some (signature, rest') ∧ verifyTokenSignature pf secret token signature = 0

theorem checkTokenSignatureFromApdu_spec (cdata : Buffer) (d : Device) :
    wp (checkTokenSignatureFromApdu pf o cdata)
      (fun r d' w => (d' = d ∨ d' = { d with secret := secretFor o d }) ∧ w = [] ∧
        (r.1 = 0 ↔ ∃ token, TokenAccepted pf (secretFor o d) cdata token) ∧
        (r.1 = 0 → TokenAccepted pf (secretFor o d) cdata r.2))
      (fun _ _ _ => False) False d := by
  unfold checkTokenSignatureFromApdu
  split
  · rename_i token rest hparse
    refine ⟨Or.inl rfl, rfl, ⟨(fun h => nomatch h), ?_⟩, (fun h => nomatch h)⟩
    rintro ⟨token', rest', signature, rest'', hparse', _⟩
    rw [hparse] at hparse'
    cases hparse'
  · rename_i token rest hparse
    split
    · rename_i hread
      refine ⟨Or.inl rfl, rfl, ⟨(fun h => nomatch h), ?_⟩, (fun h => nomatch h)⟩
      rintro ⟨token', rest', signature, rest'', hparse', hread', _⟩
      rw [hparse] at hparse'
      cases hparse'
      rw [hread] at hread'
      cases hread'
    · rename_i signature rest' hread
      simp only [wp_bind, wp_getSecret, wp_pure]
      refine ⟨Or.inr trivial, rfl, ⟨fun h => ⟨token, rest, signature, rest', hparse, hread, h⟩, ?_⟩,
        fun h => ⟨rest, signature, rest', hparse, hread, h⟩⟩
      rintro ⟨token', rest₁, signature', rest₂, hparse', hread', hverify⟩
      rw [hparse] at hparse'
      cases hparse'
      rw [hread] at hread'
      cases hread'
      exact hverify

/-- The device a SEND_TOKEN_DATA command adds its token on: the first one of a series clears the
context and the registry. -/
def Device.registryBase (d : Device) (first : Bool) : Device :=
  if first then d.bzeroContext.bzeroTokenSymbols else d

/-- The three effects of SEND_TOKEN_DATA on the registry. -/
inductive Registers (first : Bool) (cdata : Buffer) (d d' : Device) : List Obs → Prop where
  /-- A full registry is cleared. -/
  | emptied (full : txMaxTokens ≤ (d.registryBase first).gTokenSymbols.len)
      (part : d'.signingPart = (d.registryBase first).bzeroTokenSymbols.signingPart) :
      Registers first cdata d d' [.response [] swWrongDataLength]
  | kept {sw : Nat} (notOk : sw ≠ swOk) (room : (d.registryBase first).gTokenSymbols.len < txMaxTokens)
      (part : d'.signingPart = (d.registryBase first).signingPart) :
      Registers first cdata d d' [.response [] sw]
  | added {token : Token} (room : (d.registryBase first).gTokenSymbols.len < txMaxTokens)
      (accepted : TokenAccepted pf (secretFor o d) cdata token)
      (part : d'.signingPart = { d.registryBase first with
        gTokenSymbols := (d.registryBase first).gTokenSymbols.add token }.signingPart) :
      Registers first cdata d d' [.response [] swOk]

/-- What the three effects leave alone. -/
theorem Registers.part {first : Bool} {cdata : Buffer} {d d' : Device} {w : List Obs}
    (h : Registers pf o first cdata d d' w) :
    { d' with gTokenSymbols := d.gTokenSymbols }.signingPart =
      { d.registryBase first with gTokenSymbols := d.gTokenSymbols }.signingPart := by
  have hpart : ∀ {d₁ : Device}, d'.signingPart = d₁.signingPart →
      { d' with gTokenSymbols := d.gTokenSymbols }.signingPart =
        { d₁ with gTokenSymbols := d.gTokenSymbols }.signingPart := by
    intro d₁ h
    simp only [Device.signingPart, Prod.mk.injEq] at h ⊢
    exact ⟨h.1, h.2.1, h.2.2.1, trivial, h.2.2.2.2⟩
  cases h with
  | emptied _ part =>
      have hemptied := hpart part
      exact hemptied
  | kept _ _ part => exact hpart part
  | added _ _ part =>
      have hadded := hpart part
      exact hadded

/-- Apart from the registry a SEND_TOKEN_DATA command stands aside of a session too. -/
theorem Registers.aside {first : Bool} {cdata : Buffer} {d d' : Device} {w : List Obs}
    (h : Registers pf o first cdata d d' w) : Aside d { d' with gTokenSymbols := d.gTokenSymbols } w := by
  have hseen : Plain w := by cases h <;> simp [Obs.Plain]
  have hbase : Aside d { d.registryBase first with gTokenSymbols := d.gTokenSymbols } [] := by
    cases first with
    | true => exact ⟨Or.inr ⟨rfl, rfl⟩, Or.inl ⟨rfl, rfl, rfl, rfl, rfl⟩, rfl, plain_nil⟩
    | false => exact aside_composable.refl d
  have htrans := aside_composable.trans hbase (.keep h.part hseen)
  exact htrans

theorem handlerSendTokenData_spec (first : Bool) (data : Bytes) (d : Device) :
    wp (handlerSendTokenData pf o first (Buffer.ofData data))
      (fun _ d' w => Registers pf o first (Buffer.ofData data) d d' w) (fun _ _ _ => False) False d := by
  have hstart : ∀ {R : Int → Device → List Obs → Prop},
      wp (registerToken pf o (Buffer.ofData data)) R (fun _ _ _ => False) False (d.registryBase first) →
        wp (handlerSendTokenData pf o first (Buffer.ofData data)) R (fun _ _ _ => False) False d := by
    intro R h
    unfold handlerSendTokenData
    cases first
    · exact h
    · rw [if_pos rfl, wp_bind]
      exact h
  have hsecret : secretFor o (d.registryBase first) = secretFor o d := by
    unfold Device.registryBase
    cases first <;> rfl
  refine hstart ?_
  unfold registerToken
  rw [wp_bind, wp_get, wp_ite]
  generalize hd₀ : d.registryBase first = d₀ at hsecret ⊢
  refine ⟨fun hfull => ?_, fun hroom => ?_⟩
  · simp only [wp_bind, wp_modify, wp_ioSendSw]
    exact .emptied (hd₀ ▸ hfull) (by rw [hd₀]; rfl)
  · rw [wp_bind]
    refine wp_mono (checkTokenSignatureFromApdu_spec pf o _ d₀) ?_ (fun _ _ _ h => h) False.elim
    rintro ⟨isTokenVerified, token⟩ d₁ w ⟨hd₁, rfl, _, haccepted⟩
    have hpart : d₁.signingPart = d₀.signingPart := by
      obtain rfl | rfl := hd₁ <;> rfl
    have hregistry : d₁.gTokenSymbols = d₀.gTokenSymbols := by
      obtain rfl | rfl := hd₁ <;> rfl
    rw [wp_ite]
    refine ⟨fun hverified => ?_, fun _ => ?_⟩
    · have hok := haccepted hverified
      rw [hsecret] at hok
      obtain ⟨rest, _, _, hparse, _⟩ := hok
      have hwf : token.WellFormed := parseToken_wellFormed (Nat.le_refl _) hparse
      have hshort : ¬token.symbolLen > maxTokenSymbolLen := Nat.not_lt.mpr hwf.symbolLen
      simp only [wp_bind, wp_modify, hshort, if_false, wp_ioSendSw]
      refine .added (hd₀ ▸ Nat.lt_of_not_le hroom) (hsecret ▸ haccepted hverified) ?_
      rw [hd₀]
      simp only [Device.signingPart, Prod.mk.injEq] at hpart ⊢
      rw [hregistry]
      exact ⟨hpart.1, hpart.2.1, hpart.2.2.1, rfl, hpart.2.2.2.2⟩
    · unfold replyTokenCheck
      rw [wp_ite]
      refine ⟨fun _ => ?_, fun _ => ?_⟩
      · rw [wp_ioSendSw]
        exact .kept (by decide) (hd₀ ▸ Nat.lt_of_not_le hroom) (hd₀ ▸ hpart)
      · rw [wp_ioSendSw]
        exact .kept (by decide) (hd₀ ▸ Nat.lt_of_not_le hroom) (hd₀ ▸ hpart)

end Commands

end HathorApp
