import HathorApp.SignTxSpec
import HathorApp.TraceRun

/-!
One step of the device. `Moves` says everything a command or a press can do to a signing session, its
screen and the token registry; how the application goes back to waiting touches none of these, unless
it is started anew. The invariants of runs are read off `Moves`, one case per constructor.
-/

namespace HathorApp

open ProgramLogic StreamDecoder TraceRun

/-- The reply of `CATCH_OTHER` to what a handler ends with. -/
def Ending.reply : Ending → List Obs
  | .ret _ => []
  | .thrown e => [.response [] e]

theorem Ending.plain_reply (r : Ending) : Plain r.reply := by
  cases r <;> simp [Ending.reply, Obs.Plain]

/-- What the command loop does after a handler: it leaves a session alone, or ends it with a new start.
A negative value of the handler makes it start anew. -/
inductive Settles (d : Device) (r : Ending) : Device → List Obs → Prop where
  | resumes {io : IoState} {exchange : Exchange} (nonneg : ∀ v, r = .ret v → 0 ≤ v) :
      Settles d r { d with gIoState := io, exchange := exchange } r.reply
  | restarts : Settles d r (startApp d) (r.reply ++ [.restart])

theorem Settles.part {d d' : Device} {r : Ending} {w : List Obs} (h : Settles d r d' w) :
    d'.signingPart = d.signingPart ∨ d'.state = .none := by
  cases h with
  | resumes => exact Or.inl rfl
  | restarts => exact Or.inr rfl

/-- Nothing but a reply and a restart is seen. -/
theorem Settles.unseen {d d' : Device} {r : Ending} {w : List Obs} (h : Settles d r d' w) {x : Obs} (hx : ¬x.Plain)
    (hrestart : x ≠ .restart) : x ∉ w := by
  have hreply : x ∉ r.reply := fun hmem => hx (r.plain_reply x hmem)
  intro hmem
  cases h with
  | resumes => exact hreply hmem
  | restarts =>
      rcases List.mem_append.mp hmem with hmem | hmem
      · exact hreply hmem
      · exact hrestart (List.mem_singleton.mp hmem)

/-- A data command that is not started anew was accepted. -/
theorem accepted_of_nonneg {accepted : Bool}
    (h : ∀ v, Ending.ret (if accepted then 0 else -1) = .ret v → 0 ≤ v) : accepted = true := by
  cases accepted with
  | true => rfl
  | false => exact absurd (h (-1) rfl) (by decide)

theorem wp_restartApp {R : Unit → Device → List Obs → Prop} {T : Nat → Device → List Obs → Prop} {F : Prop}
    {d : Device} : wp restartApp R T F d ↔ R () (startApp d) [.restart] := Iff.rfl

/-- How the command loop comes to rest after a handler. -/
inductive Rests (d : Device) : Ending → Device → List Obs → Prop where
  | replied {v : Int} (nonneg : 0 ≤ v) (ready : d.gIoState = .ready) :
      Rests d (.ret v) { d with gIoState := .received, exchange := .apdu } []
  | owes {v : Int} (nonneg : 0 ≤ v) (received : d.gIoState = .received) :
      Rests d (.ret v) { d with gIoState := .waiting, exchange := .asynchReply } []
  | thrown {e : Nat} : Rests d (.thrown e) { d with gIoState := .received, exchange := .apdu } [.response [] e]
  | restarts {v : Int} (cause : v < 0 ∨ d.gIoState = .waiting) : Rests d (.ret v) (startApp d) [.restart]

theorem ioRecvCommand_rests {v : Int} (hv : 0 ≤ v) (d : Device) :
    wp ioRecvCommand (fun _ d' w => Rests d (.ret v) d' w) (fun _ _ _ => False) False d := by
  unfold ioRecvCommand
  rw [wp_bind, wp_get]
  cases hio : d.gIoState with
  | ready => exact .replied hv hio
  | received => exact .owes hv hio
  | waiting => exact .restarts (Or.inr hio)

theorem replyException_rests (e : Nat) (d : Device) :
    wp (replyException e) (fun _ d' w => Rests d (.thrown e) d' w) (fun _ _ _ => False) False d := by
  unfold replyException ioRecvCommand
  simp only [wp_bind, wp_ioSendSw, wp_get, wp_modify]
  exact .thrown

theorem Rests.settles {d d' : Device} {r : Ending} {w : List Obs} (h : Rests d r d' w) : Settles d r d' w := by
  cases h with
  | replied nonneg =>
      refine .resumes fun v hv => ?_
      cases hv
      exact nonneg
  | owes nonneg =>
      refine .resumes fun v hv => ?_
      cases hv
      exact nonneg
  | thrown =>
      refine .resumes fun v hv => ?_
      cases hv
  | restarts => exact .restarts

theorem ioRecvCommand_settles {v : Int} (hv : 0 ≤ v) (d : Device) :
    wp ioRecvCommand (fun _ d' w => Settles d (.ret v) d' w) (fun _ _ _ => False) False d :=
  wp_mono (ioRecvCommand_rests hv d) (fun _ _ _ h => h.settles) (fun _ _ _ h => h) id

theorem replyException_settles (e : Nat) (d : Device) :
    wp (replyException e) (fun _ d' w => Settles d (.thrown e) d' w) (fun _ _ _ => False) False d :=
  wp_mono (replyException_rests e d) (fun _ _ _ h => h.settles) (fun _ _ _ h => h) id

section Commands

variable (pf : Platform) (o : Outcome)

/-- The device on which the handler of a SIGN_TX command works. -/
def Device.entered (d : Device) : Device := (wake d).withTx d.tx.resetCall

theorem wake_eq (d : Device) : ∃ io, wake d = { d with gIoState := io } := by
  unfold wake
  split
  · exact ⟨_, rfl⟩
  · exact ⟨d.gIoState, rfl⟩

@[simp] theorem signingPart_wake (d : Device) : (wake d).signingPart = d.signingPart := by
  obtain ⟨io, h⟩ := wake_eq d
  rw [h]
  rfl

@[simp] theorem wake_gContext (d : Device) : (wake d).gContext = d.gContext := by
  obtain ⟨io, h⟩ := wake_eq d
  rw [h]

@[simp] theorem wake_gTokenSymbols (d : Device) : (wake d).gTokenSymbols = d.gTokenSymbols := by
  obtain ⟨io, h⟩ := wake_eq d
  rw [h]

@[simp] theorem entered_tx (d : Device) : d.entered.tx = d.tx.resetCall := rfl

@[simp] theorem entered_flow (d : Device) : d.entered.flow = d.flow := by
  have hwake : (wake d).flow = d.flow := Device.flow_of_part (signingPart_wake d)
  exact hwake

@[simp] theorem entered_state (d : Device) : d.entered.state = d.state := by
  show (wake d).gContext.state = d.state
  rw [wake_gContext]

/-- The command is one of the application, with an instruction. -/
def Command.Is (cmd : Command) (ins : Nat) : Prop := cmd.cla = HathorApp.cla ∧ cmd.ins = ins

/-- The command is a SEND_TOKEN_DATA command with valid parameters. -/
def Command.SendsToken (cmd : Command) : Prop := cmd.Is insSendTokenData ∧ cmd.p2 = 0

/-- What a command does before the application goes back to waiting. -/
inductive Dispatched (cmd : Command) (s : TxState) (d : Device) : Ending → Device → List Obs → Prop where
  | aside {r : Ending} {d' : Device} {w : List Obs} (other : ¬cmd.SendsToken) (effect : Aside d d' w) :
      Dispatched cmd s d r d' w
  | registers {v : Int} {d' : Device} {w : List Obs} (sends : cmd.SendsToken)
      (effect : Registers pf o (decide (cmd.p1 = 0)) (Buffer.ofData cmd.data) (wake d) d' w) :
      Dispatched cmd s d (.ret v) d' w
  | data {r : Ending} {d' : Device} {w : List Obs} (ins : cmd.Is insSignTx) (stage : cmd.p1 = 0)
      (effect : DataEffect pf o cmd.data cmd.p2 s d.entered r d' w) : Dispatched cmd s d r d' w
  | sign {v : Int} {d' : Device} {w : List Obs} (ins : cmd.Is insSignTx) (stage : cmd.p1 = 1)
      (effect : SignEffect pf o cmd.data d.entered v d' w) : Dispatched cmd s d (.ret v) d' w

theorem aside_wake (d : Device) : Aside d (wake d) [] := .keep (signingPart_wake d) plain_nil

theorem Within.dispatched {p : App Int} (hp : Within Aside p) {cmd : Command} (other : ¬cmd.SendsToken)
    (s : TxState) (d : Device) :
    wp p (fun v d' w => Dispatched pf o cmd s d (.ret v) d' w)
      (fun e d' w => Dispatched pf o cmd s d (.thrown e) d' w) True
      (wake d) := by
  exact wp_mono (hp (wake d)) (fun _ _ _ h => .aside other (aside_composable.trans (aside_wake d) h))
    (fun _ _ _ h => .aside other (aside_composable.trans (aside_wake d) h)) id

/-- The data of a command fit a command of the longest kind. -/
def Command.Fits (cmd : Command) : Prop := cmd.data.length ≤ 255

theorem apduParser_fits {raw : Bytes} {cmd : Command} (h : apduParser raw = some cmd) : cmd.Fits := by
  unfold apduParser at h
  split at h
  · cases h
  · rename_i hlen
    cases h
    have := byteAt_lt raw 4
    show (raw.drop 5).length ≤ 255
    rw [List.length_drop]
    omega

/-- The handler a command is given to, or the status word it is refused with. -/
inductive Dispatches (cmd : Command) : App Int → Prop where
  | refused {sw : Nat} (notOk : sw ≠ swOk) (other : ¬cmd.SendsToken) : Dispatches cmd (ioSendSw sw)
  | getVersion (is : cmd.Is insGetVersion) : Dispatches cmd handlerGetVersion
  | getAddress (is : cmd.Is insGetAddress) : Dispatches cmd (handlerGetAddress pf o (Buffer.ofData cmd.data))
  | getXpub (is : cmd.Is insGetXpub) : Dispatches cmd (handlerGetXpub pf o (Buffer.ofData cmd.data))
  | signTxData (is : cmd.Is insSignTx) (p1 : cmd.p1 = 0) (nonempty : cmd.data ≠ []) :
      Dispatches cmd (handlerSignTx pf o (Buffer.ofData cmd.data) .data cmd.p2)
  | signTxSign (is : cmd.Is insSignTx) (p1 : cmd.p1 = 1) (nonempty : cmd.data ≠ []) :
      Dispatches cmd (handlerSignTx pf o (Buffer.ofData cmd.data) .sign cmd.p2)
  | signTxDone (is : cmd.Is insSignTx) (p1 : cmd.p1 = 2) :
      Dispatches cmd (handlerSignTx pf o (Buffer.ofData cmd.data) .done cmd.p2)
  | signTokenData (is : cmd.Is insSignTokenData) : Dispatches cmd (handlerSignTokenData (Buffer.ofData cmd.data))
  | sendTokenData (sends : cmd.SendsToken) :
      Dispatches cmd (handlerSendTokenData pf o (decide (cmd.p1 = 0)) (Buffer.ofData cmd.data))
  | verifyTokenSignature (is : cmd.Is insVerifyTokenSignature) :
      Dispatches cmd (handlerVerifyTokenSignature pf o (Buffer.ofData cmd.data))
  | resetTokenSignatures (is : cmd.Is insResetTokenSignatures) : Dispatches cmd handlerResetTokenSignatures

theorem Command.Is.not_sendsToken {cmd : Command} {ins : Nat} (is : cmd.Is ins) (hins : ins ≠ insSendTokenData) :
    ¬cmd.SendsToken := fun h => hins (is.2.symm.trans h.1.2)

theorem dispatchSignTx_dispatches {cmd : Command} (is : cmd.Is insSignTx) :
    Dispatches pf o cmd (dispatchSignTx pf o cmd) := by
  have hother : ¬cmd.SendsToken := is.not_sendsToken (by decide)
  unfold dispatchSignTx
  split
  · exact .refused (by decide) hother
  · rename_i hargs
    split
    · exact .refused (by decide) hother
    · rename_i hdata
      rw [not_or, not_or] at hargs hdata
      by_cases h0 : cmd.p1 = 0
      · rw [if_pos h0]
        exact .signTxData is h0 fun h => hdata.1 ⟨h0, h⟩
      · rw [if_neg h0]
        by_cases h1 : cmd.p1 = 1
        · rw [if_pos h1]
          exact .signTxSign is h1 fun h => hdata.2.1 ⟨h1, h⟩
        · rw [if_neg h1]
          exact .signTxDone is (by omega)

theorem apduDispatcher_dispatches (cmd : Command) : Dispatches pf o cmd (apduDispatcher pf o cmd) := by
  unfold apduDispatcher
  dsimp only
  by_cases hcla : cmd.cla = HathorApp.cla
  case neg =>
    rw [if_pos hcla]
    exact .refused (by decide) fun h => hcla h.1.1
  rw [if_neg (not_not.mpr hcla)]
  have hother : ∀ {ins}, cmd.ins = ins → ins ≠ insSendTokenData → ¬cmd.SendsToken :=
    fun h => Command.Is.not_sendsToken ⟨hcla, h⟩
  by_cases hversion : cmd.ins = insGetVersion
  · rw [if_pos hversion]
    split
    · exact .refused (by decide) (hother hversion (by decide))
    · exact .getVersion ⟨hcla, hversion⟩
  rw [if_neg hversion]
  by_cases haddress : cmd.ins = insGetAddress
  · rw [if_pos haddress]
    split
    · exact .refused (by decide) (hother haddress (by decide))
    · split
      · exact .refused (by decide) (hother haddress (by decide))
      · exact .getAddress ⟨hcla, haddress⟩
  rw [if_neg haddress]
  by_cases hxpub : cmd.ins = insGetXpub
  · rw [if_pos hxpub]
    split
    · exact .refused (by decide) (hother hxpub (by decide))
    · split
      · exact .refused (by decide) (hother hxpub (by decide))
      · exact .getXpub ⟨hcla, hxpub⟩
  rw [if_neg hxpub]
  by_cases hsign : cmd.ins = insSignTx
  · rw [if_pos hsign]
    exact dispatchSignTx_dispatches pf o ⟨hcla, hsign⟩
  rw [if_neg hsign]
  by_cases hsignToken : cmd.ins = insSignTokenData
  · rw [if_pos hsignToken]
    split
    · exact .refused (by decide) (hother hsignToken (by decide))
    · exact .signTokenData ⟨hcla, hsignToken⟩
  rw [if_neg hsignToken]
  by_cases hsendToken : cmd.ins = insSendTokenData
  · rw [if_pos hsendToken]
    split
    · rename_i hp2
      exact .refused (by decide) fun h => hp2 h.2
    · rename_i hp2
      exact .sendTokenData ⟨⟨hcla, hsendToken⟩, not_not.mp hp2⟩
  rw [if_neg hsendToken]
  by_cases hverify : cmd.ins = insVerifyTokenSignature
  · rw [if_pos hverify]
    split
    · exact .refused (by decide) (hother hverify (by decide))
    · exact .verifyTokenSignature ⟨hcla, hverify⟩
  rw [if_neg hverify]
  by_cases hreset : cmd.ins = insResetTokenSignatures
  · rw [if_pos hreset]
    split
    · exact .refused (by decide) (hother hreset (by decide))
    · exact .resetTokenSignatures ⟨hcla, hreset⟩
  rw [if_neg hreset]
  exact .refused (by decide) fun h => hsendToken h.1.2

theorem wake_resetCall (d : Device) : (wake d).withTx (wake d).tx.resetCall = d.entered := by
  unfold Device.entered Device.tx
  rw [wake_gContext]

theorem apduDispatcher_spec {cmd : Command} (hfits : cmd.Fits) {s : TxState} {d : Device}
    (hrep : d.tx.Represents s) :
    wp (apduDispatcher pf o cmd) (fun v d' w => Dispatched pf o cmd s d (.ret v) d' w)
      (fun e d' w => Dispatched pf o cmd s d (.thrown e) d' w) True (wake d) := by
  have haside : ¬cmd.SendsToken → ∀ {p : App Int}, Within Aside p →
      wp p (fun v d' w => Dispatched pf o cmd s d (.ret v) d' w)
        (fun e d' w => Dispatched pf o cmd s d (.thrown e) d' w) True (wake d) :=
    fun hother _ hp => Within.dispatched pf o hp hother s d
  have hfits : cmd.data.length ≤ 255 := hfits
  have hlimit : decodeBufferLen = 300 := rfl
  have hdispatches := apduDispatcher_dispatches pf o cmd
  generalize apduDispatcher pf o cmd = p at hdispatches
  cases hdispatches with
  | refused _ other => exact haside other (aside_ioSendSw _)
  | getVersion is => exact haside (is.not_sendsToken (by decide)) aside_handlerGetVersion
  | getAddress is => exact haside (is.not_sendsToken (by decide)) (aside_handlerGetAddress pf o _)
  | getXpub is => exact haside (is.not_sendsToken (by decide)) (aside_handlerGetXpub pf o _)
  | signTxData is p1 nonempty =>
      have hrep' : (wake d).tx.Represents s := by
        unfold Device.tx
        rwa [wake_gContext]
      have hspec := handlerSignTx_data_spec pf o cmd.data cmd.p2 nonempty (by omega) hrep'
      rw [wake_resetCall] at hspec
      exact wp_mono hspec (fun _ _ _ h => .data is p1 h) (fun _ _ _ h => .data is p1 h) fun _ => trivial
  | signTxSign is p1 =>
      have hspec := handlerSignTx_sign_spec pf o cmd.data cmd.p2 (wake d)
      rw [wake_resetCall] at hspec
      exact wp_mono hspec (fun _ _ _ h => .sign is p1 h) (fun _ _ _ h => h.elim) False.elim
  | signTxDone is =>
      have hdone : Within Aside (handlerSignTx pf o (Buffer.ofData cmd.data) .done cmd.p2) := by
        intro d
        unfold handlerSignTx
        rw [wp_bind, wp_modify, wp_bind, wp_get]
        dsimp only
        rw [wp_bzeroMenuReply]
        exact aside_refused (by simp [Obs.Plain])
      exact haside (is.not_sendsToken (by decide)) hdone
  | signTokenData is => exact haside (is.not_sendsToken (by decide)) (aside_handlerSignTokenData _)
  | sendTokenData sends =>
      exact wp_mono (handlerSendTokenData_spec pf o _ cmd.data (wake d)) (fun _ _ _ h => .registers sends h)
        (fun _ _ _ h => h.elim) False.elim
  | verifyTokenSignature is =>
      exact haside (is.not_sendsToken (by decide)) (aside_handlerVerifyTokenSignature pf o _)
  | resetTokenSignatures is => exact haside (is.not_sendsToken (by decide)) aside_handlerResetTokenSignatures

end Commands

section Step

variable (pf : Platform)

/-- The screen flow has the callback it was put up with. -/
def Device.CallbackSet (d : Device) : Prop := ∀ c, d.flow.callback = some c → d.gValidateCallback = some c

/-- The device after an approved transaction. -/
def Device.approve (d : Device) : Device :=
  { d.withState .approved with gIoState := .ready, flow := .processing }

/-- The event is a SEND_TOKEN_DATA command. -/
def Event.SendsToken (e : Event) : Prop :=
  ∃ o raw cmd, e = .apdu o raw ∧ apduParser raw = some cmd ∧ cmd.SendsToken

theorem press_not_sendsToken {o : Outcome} {choice : Bool} : ¬(Event.press o choice).SendsToken := by
  intro ⟨_, _, _, h, _⟩
  cases h

/-- What one event does. The state of the stream is that of the session under way. -/
inductive Moves (s : TxState) (d : Device) : Event → Device → List Obs → Prop where
  | aside {e : Event} {d' : Device} {w : List Obs} (other : ¬e.SendsToken) (effect : Aside d d' w) :
      Moves s d e d' w
  /-- The application is started anew after it has done nothing visible. -/
  | restarts {e : Event} {d₁ : Device} {w : List Obs} (seen : Plain w) :
      Moves s d e (startApp d₁) (w ++ [.restart])
  | registers {o : Outcome} {raw : Bytes} {cmd : Command} {v : Int} {d₁ d' : Device} {w w' : List Obs}
      (parse : apduParser raw = some cmd) (sends : cmd.SendsToken)
      (effect : Registers pf o (decide (cmd.p1 = 0)) (Buffer.ofData cmd.data) (wake d) d₁ w)
      (settles : Settles d₁ (.ret v) d' w') : Moves s d (.apdu o raw) d' (w ++ w')
  | data {o : Outcome} {raw : Bytes} {cmd : Command} {r : Ending} {d₁ d' : Device} {w w' : List Obs}
      (parse : apduParser raw = some cmd) (ins : cmd.Is insSignTx) (stage : cmd.p1 = 0)
      (effect : DataEffect pf o cmd.data cmd.p2 s d.entered r d₁ w) (settles : Settles d₁ r d' w') :
      Moves s d (.apdu o raw) d' (w ++ w')
  | sign {o : Outcome} {raw : Bytes} {cmd : Command} {v : Int} {d₁ d' : Device} {w w' : List Obs}
      (parse : apduParser raw = some cmd) (ins : cmd.Is insSignTx) (stage : cmd.p1 = 1)
      (effect : SignEffect pf o cmd.data d.entered v d₁ w) (settles : Settles d₁ (.ret v) d' w') :
      Moves s d (.apdu o raw) d' (w ++ w')
  | approved {o : Outcome} (flow : d.flow = .confirmTx) :
      Moves s d (.press o true) d.approve [.response [] swOk, .display .processing]
  | confirmed {o : Outcome} {tx : SignTxCtx} {d' : Device} {w : List Obs} (flow : d.flow = .txOutput)
      (skips : SkipsTo d.tx.advance tx) (ends : DisplayEnds pf (d.withTx tx) d' w) :
      Moves s d (.press o true) d' w

theorem Aside.settles {d d₁ d' : Device} {w w' : List Obs} {s : TxState} {e : Event} {r : Ending}
    (hother : ¬e.SendsToken) (h : Aside d d₁ w) (hsettles : Settles d₁ r d' w') : Moves pf s d e d' (w ++ w') := by
  cases hsettles with
  | resumes => exact .aside hother (aside_composable.trans h (.keep rfl r.plain_reply))
  | restarts =>
      rw [← List.append_assoc]
      exact .restarts ((plain_append w r.reply).mpr ⟨h.seen, r.plain_reply⟩)

/-- The command loop on a command: its handler, and then back to waiting. -/
theorem handleCommand_ends {o : Outcome} {raw : Bytes} {cmd : Command} {d : Device} (hparse : apduParser raw = some cmd)
    {R : Ending → Device → List Obs → Prop} {F : Prop}
    (hdispatched : wp (apduDispatcher pf o cmd) (fun v => R (.ret v)) (fun e => R (.thrown e)) F (wake d)) :
    wp (handleCommand pf o raw)
      (fun _ d' w => ∃ r d₁ w₁ w₂, R r d₁ w₁ ∧ Rests d₁ r d' w₂ ∧ w = w₁ ++ w₂) (fun _ _ _ => False) F d := by
  unfold handleCommand
  rw [wp_bind, wp_modify, wp_catchAll, hparse]
  dsimp only
  rw [wp_bind]
  refine wp_mono hdispatched ?_ ?_ id
  · intro v d₁ w₁ hR
    rw [wp_ite]
    refine ⟨fun hneg => ⟨.ret v, d₁, w₁, [.restart], hR, .restarts (Or.inl hneg), rfl⟩, fun hnonneg => ?_⟩
    refine wp_mono (ioRecvCommand_rests (Int.not_lt.mp hnonneg) d₁) ?_ (fun _ _ _ h => h.elim) False.elim
    exact fun _ d' w₂ hrests => ⟨.ret v, d₁, w₁, w₂, hR, hrests, rfl⟩
  · intro e d₁ w₁ hR
    refine wp_mono (replyException_rests e d₁) ?_ (fun _ _ _ h => h.elim) False.elim
    exact fun _ d' w₂ hrests => ⟨.thrown e, d₁, w₁, w₂, hR, hrests, rfl⟩

theorem handleCommand_settles {o : Outcome} {raw : Bytes} {cmd : Command} {d : Device} (hparse : apduParser raw = some cmd)
    {R : Ending → Device → List Obs → Prop} {F : Prop}
    (hdispatched : wp (apduDispatcher pf o cmd) (fun v => R (.ret v)) (fun e => R (.thrown e)) F (wake d)) :
    wp (handleCommand pf o raw)
      (fun _ d' w => ∃ r d₁ w₁ w₂, R r d₁ w₁ ∧ Settles d₁ r d' w₂ ∧ w = w₁ ++ w₂) (fun _ _ _ => False) F d := by
  refine wp_mono (handleCommand_ends pf hparse hdispatched) ?_ (fun _ _ _ h => h) id
  rintro _ d' w ⟨r, d₁, w₁, w₂, hR, hrests, hw⟩
  exact ⟨r, d₁, w₁, w₂, hR, hrests.settles, hw⟩

theorem handleCommand_moves (o : Outcome) (raw : Bytes) {s : TxState} {d : Device} (hrep : d.tx.Represents s) :
    wp (handleCommand pf o raw) (fun _ d' w => Moves pf s d (.apdu o raw) d' w) (fun _ _ _ => False) True d := by
  cases hparse : apduParser raw with
  | none =>
      unfold handleCommand
      rw [wp_bind, wp_modify, wp_catchAll, hparse]
      dsimp only
      rw [wp_bind, wp_ioSendSw]
      have hother : ¬(Event.apdu o raw).SendsToken := by
        rintro ⟨_, _, cmd, ⟨⟩, hcmd, _⟩
        exact nomatch hparse.symm.trans hcmd
      refine wp_mono (ioRecvCommand_settles (Int.le_refl 0) _) ?_ (fun _ _ _ h => h.elim) fun _ => trivial
      intro _ d' w hsettles
      have hreplied : Aside (wake d) { wake d with gIoState := .ready } [.response [] swWrongDataLength] :=
        .keep rfl (by simp [Obs.Plain])
      have haside := aside_composable.trans (aside_wake d) hreplied
      have hmoves : Moves pf s d (.apdu o raw) d' ([.response [] swWrongDataLength] ++ w) :=
        haside.settles pf hother hsettles
      exact hmoves
  | some cmd =>
      have hother : ¬cmd.SendsToken → ¬(Event.apdu o raw).SendsToken := by
        rintro hnot ⟨_, _, cmd', ⟨⟩, hcmd, hsends⟩
        obtain rfl : cmd = cmd' := Option.some.inj (hparse.symm.trans hcmd)
        exact hnot hsends
      have hdispatched := apduDispatcher_spec pf o (apduParser_fits hparse) hrep
      refine wp_mono (handleCommand_settles pf hparse hdispatched) ?_ (fun _ _ _ h => h) fun _ => trivial
      rintro _ d' _ ⟨r, d₁, w, w', hdispatched, hsettles, rfl⟩
      cases hdispatched with
      | aside other effect => exact Aside.settles pf (hother other) effect hsettles
      | registers sends effect => exact .registers hparse sends effect hsettles
      | data ins stage effect => exact .data hparse ins stage effect hsettles
      | sign ins stage effect => exact .sign hparse ins stage effect hsettles

theorem aside_uiMenuMain : Within Aside uiMenuMain := by
  intro d
  rw [wp_uiMenuMain]
  exact ⟨Or.inl ⟨rfl, rfl, rfl⟩, Or.inr ⟨id, fun _ h => nomatch h⟩, rfl, by simp [Obs.Plain]⟩

/-- The callbacks of the flows that have nothing to do with a transaction. -/
theorem aside_runCallback (o : Outcome) {callback : Callback} (htx : callback ≠ .uiActionTxConfirm)
    (houtput : callback ≠ .uiConfirmOutput) (choice : Bool) : Within Aside (runCallback pf o callback choice) := by
  have hr := aside_composable
  have hreply : ∀ sw, Within Aside (ioSendSw sw >>= fun _ => uiMenuMain) :=
    fun sw => .bind hr (aside_ioSendSw sw) fun _ => aside_uiMenuMain
  cases callback with
  | uiActionTxConfirm => exact absurd rfl htx
  | uiConfirmOutput => exact absurd rfl houtput
  | uiActionConfirmXpub =>
      unfold runCallback uiActionConfirmXpub
      refine .ite (fun _ => .bind hr (.bind hr (.get hr) fun d => ?_) fun _ => aside_uiMenuMain)
        fun _ => aside_bzeroAndReply _
      exact aside_ioSendResponse _ _
  | uiActionConfirmAddress =>
      unfold runCallback uiActionConfirmAddress
      exact .ite (fun _ => hreply _) fun _ => aside_bzeroAndReply _
  | uiConfirmResetTokenSignatures =>
      unfold runCallback uiConfirmResetTokenSignatures
      exact .ite (fun _ => .bind hr (.modify fun _ => .keep rfl plain_nil) fun _ => hreply _) fun _ => hreply _
  | uiActionSignTokenData =>
      unfold runCallback uiActionSignTokenData
      refine .ite (fun _ => .bind hr (.bind hr ?_ fun _ => .bind hr (.get hr) fun d => ?_) fun _ => aside_uiMenuMain)
        fun _ => aside_bzeroAndReply _
      · intro d
        rw [wp_getSecret]
        exact .keep rfl plain_nil
      · exact aside_ioSendResponse _ _

/-- A press on the approval screen asks nothing of the session. -/
theorem handlePress_confirmTx (o : Outcome) (choice : Bool) {d : Device} (hcallback : d.CallbackSet)
    (hflow : d.flow = .confirmTx) :
    wp (handlePress pf o choice)
      (fun _ d' w => if choice then d' = d.approve ∧ w = [.response [] swOk, .display .processing]
        else d' = d.refused ∧ w = [.response [] swDeny, .display .menuMain])
      (fun _ _ _ => False) False d := by
  have hset : d.gValidateCallback = some .uiActionTxConfirm := hcallback _ (by rw [hflow]; rfl)
  have hasks : (if choice then d.flow.asks else d.flow.rejects) = true := by
    rw [hflow]
    cases choice <;> rfl
  unfold handlePress
  rw [wp_bind, wp_get, if_pos hasks, hset]
  dsimp only
  rw [wp_catchAll]
  unfold runCallback uiActionTxConfirm
  cases choice with
  | true =>
      simp only [if_true, wp_bind, wp_modify, wp_ioSendSw, wp_uxFlowInit]
      exact ⟨rfl, rfl⟩
  | false =>
      simp only [Bool.false_eq_true, if_false, wp_bzeroAndReply]
      exact ⟨trivial, rfl⟩

/-- A press on the screen of an output. -/
theorem handlePress_txOutput (o : Outcome) (choice : Bool) {d : Device} (hcallback : d.CallbackSet)
    (hflow : d.flow = .txOutput) :
    wp (handlePress pf o choice)
      (fun _ d' w => if choice then ∃ tx, SkipsTo d.tx.advance tx ∧ DisplayEnds pf (d.withTx tx) d' w
        else d' = d.refused ∧ w = [.response [] swDeny, .display .menuMain])
      (fun _ _ _ => False) True d := by
  have hset : d.gValidateCallback = some .uiConfirmOutput := hcallback _ (by rw [hflow]; rfl)
  have hasks : (if choice then d.flow.asks else d.flow.rejects) = true := by
    rw [hflow]
    cases choice <;> rfl
  unfold handlePress
  rw [wp_bind, wp_get, if_pos hasks, hset]
  dsimp only
  rw [wp_catchAll]
  unfold runCallback
  cases choice with
  | true => exact wp_mono (uiConfirmOutput_spec pf o d) (fun _ _ _ h => h) (fun _ _ _ h => h.elim) fun _ => trivial
  | false =>
      unfold uiConfirmOutput
      simp only [Bool.false_eq_true, if_false, wp_bzeroAndReply]
      exact ⟨trivial, rfl⟩

theorem handlePress_moves (o : Outcome) (choice : Bool) {s : TxState} {d : Device} (hcallback : d.CallbackSet) :
    wp (handlePress pf o choice) (fun _ d' w => Moves pf s d (.press o choice) d' w) (fun _ _ _ => False) True d := by
  unfold handlePress
  rw [wp_bind, wp_get, wp_ite]
  refine ⟨fun hasks => ?_, fun _ => .aside press_not_sendsToken (aside_composable.refl d)⟩
  have hset : ∀ c, d.flow.callback = some c → d.gValidateCallback = some c := hcallback
  have hother : ∀ c, c ≠ .uiActionTxConfirm → c ≠ .uiConfirmOutput →
      wp (Prog.catchAll (runCallback pf o c choice) replyException) (fun _ d' w => Moves pf s d (.press o choice) d' w)
        (fun _ _ _ => False) True d := by
    intro c htx houtput
    rw [wp_catchAll]
    refine wp_mono (aside_runCallback pf o htx houtput choice d) (fun _ _ _ h => .aside press_not_sendsToken h) ?_ id
    intro e d₁ w haside
    exact wp_mono (replyException_settles e d₁) (fun _ _ _ h => Aside.settles pf press_not_sendsToken haside h)
      (fun _ _ _ h => h.elim) False.elim
  cases hflow : d.flow with
  | menuMain => rw [hflow] at hasks; cases choice <;> cases hasks
  | processing => rw [hflow] at hasks; cases choice <;> cases hasks
  | confirmTx =>
      have hpress := handlePress_confirmTx pf o choice hcallback hflow
      unfold handlePress at hpress
      rw [wp_bind, wp_get, wp_ite] at hpress
      refine wp_mono (hpress.1 hasks) ?_ (fun _ _ _ h => h) False.elim
      intro _ d' w hd'
      cases choice with
      | true =>
          rw [if_pos rfl] at hd'
          rw [hd'.1, hd'.2]
          exact .approved hflow
      | false =>
          rw [if_neg (by decide)] at hd'
          rw [hd'.1, hd'.2]
          exact .aside press_not_sendsToken (aside_refused (by simp [Obs.Plain]))
  | txOutput =>
      have hpress := handlePress_txOutput pf o choice hcallback hflow
      unfold handlePress at hpress
      rw [wp_bind, wp_get, wp_ite] at hpress
      refine wp_mono (hpress.1 hasks) ?_ (fun _ _ _ h => h) id
      intro _ d' w hd'
      cases choice with
      | true =>
          rw [if_pos rfl] at hd'
          obtain ⟨tx, hskips, hends⟩ := hd'
          exact .confirmed hflow hskips hends
      | false =>
          rw [if_neg (by decide)] at hd'
          rw [hd'.1, hd'.2]
          exact .aside press_not_sendsToken (aside_refused (by simp [Obs.Plain]))
  | xpub =>
      rw [hset .uiActionConfirmXpub (by rw [hflow]; rfl)]
      exact hother _ (by decide) (by decide)
  | address =>
      rw [hset .uiActionConfirmAddress (by rw [hflow]; rfl)]
      exact hother _ (by decide) (by decide)
  | resetTokenSignatures =>
      rw [hset .uiConfirmResetTokenSignatures (by rw [hflow]; rfl)]
      exact hother _ (by decide) (by decide)
  | signTokenData =>
      rw [hset .uiActionSignTokenData (by rw [hflow]; rfl)]
      exact hother _ (by decide) (by decide)

theorem handleQuit_moves {s : TxState} (d : Device) :
    wp handleQuit (fun _ d' w => Moves pf s d .quit d' w) (fun _ _ _ => False) True d := by
  unfold handleQuit
  rw [wp_bind, wp_get, wp_ite]
  have hother : ¬Event.quit.SendsToken := fun ⟨_, _, _, h, _⟩ => nomatch h
  refine ⟨fun _ => ?_, fun _ => .aside hother (aside_composable.refl d)⟩
  rw [wp_bind, wp_modify, wp_uiMenuMain]
  exact .aside hother ⟨Or.inr ⟨rfl, rfl⟩, Or.inr ⟨id, fun _ h => nomatch h⟩, rfl, by simp [Obs.Plain]⟩

/-- One step of the device. -/
theorem handle_moves (e : Event) {s : TxState} {d : Device} (hrep : d.tx.Represents s) (hcallback : d.CallbackSet) :
    wp (handle pf e) (fun _ d' w => Moves pf s d e d' w) (fun _ _ _ => False) True d := by
  cases e with
  | apdu o raw => exact handleCommand_moves pf o raw hrep
  | press o choice => exact handlePress_moves pf o choice hcallback
  | quit => exact handleQuit_moves pf d

end Step

end HathorApp
