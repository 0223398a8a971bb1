import HathorApp.ApprovedTransaction
import HathorApp.Requests

/-!
What the device gives out. A reply with data in it is the version, the answer to a request the user has approved, or a
signature by an approved session: every other reply is a status word. So nothing made of a key leaves the device without
a press on Approve between the command and the reply, or before it in the session.
-/

namespace HathorApp

open ProgramLogic StreamDecoder TraceRun

section Status

/-- What is sent is data of this kind. -/
def OnlySends (sends : Bytes → Prop) (_ _ : Device) (w : List Obs) : Prop := ∀ data sw, (data, sw) ∈ replies w → sends data

theorem onlySends_composable (sends : Bytes → Prop) : Composable (OnlySends sends) where
  refl _ := fun _ _ hmem => absurd hmem List.not_mem_nil
  trans h h' := by
    intro data sw hmem
    rw [replies_append] at hmem
    rcases List.mem_append.mp hmem with hmem | hmem
    · exact h data sw hmem
    · exact h' data sw hmem

theorem onlySends_footprint : IoFootprint (· = []) (OnlySends (· = [])) where
  composable := onlySends_composable _
  status := rfl
  still _ _ hw := by
    intro data sw hmem
    rw [Obs.Still.no_replies hw] at hmem
    cases hmem
  reply d data sw hsends _ := by
    intro data' sw' hmem
    cases List.mem_singleton.mp hmem
    exact hsends

theorem Rests.onlySends {d d' : Device} {r : Ending} {w : List Obs} (h : Rests d r d' w) : OnlySends (· = []) d d' w := by
  have hreply : ∀ sw : Nat, OnlySends (· = []) d d' [.response [] sw] := by
    intro sw data sw' hmem
    cases List.mem_singleton.mp hmem
    rfl
  cases h with
  | replied => exact fun _ _ hmem => absurd hmem List.not_mem_nil
  | owes => exact fun _ _ hmem => absurd hmem List.not_mem_nil
  | thrown => exact hreply _
  | restarts => exact fun _ _ hmem => absurd hmem List.not_mem_nil

/-- The one reply of `io_send_response`, when it carries data. -/
theorem mem_replies_replyOf {data data' : Bytes} {sw sw' : Nat} (hmem : (data', sw') ∈ replies [replyOf data sw]) :
    data' = [] ∨ data' = data := by
  unfold replyOf at hmem
  split at hmem
  · cases List.mem_singleton.mp hmem
    exact Or.inl rfl
  · cases List.mem_singleton.mp hmem
    exact Or.inr rfl

end Status

section Commands

variable (pf : Platform)

/-- The data a command gives out at once, on the device it starts from and the one it ends on. -/
inductive CommandGives (cmd : Command) (d d' : Device) : Bytes → Prop where
  | version (is : cmd.Is insGetVersion) : CommandGives cmd d d' ([72, 84, 82] ++ appVersion)
  | signature {path : Bip32Path} {rest : Buffer} (is : cmd.Is insSignTx) (stage : cmd.p1 = 1) (approved : d.state = .approved)
      (read : bufferReadBip32Path (Buffer.ofData cmd.data) d.gContext.bip32Path = (true, path, rest)) :
      CommandGives cmd d d' (pf.ecdsaSign (pf.deriveBip32 path).1 d'.tx.sighashAll)

variable {pf} {o : Outcome} {cmd : Command} {d d' : Device} {w : List Obs}

/-- A handler that has replied and does not fail: the device it leaves is the one the next command finds. -/
structure Lasts (r : Ending) (d : Device) : Prop where
  ready : d.gIoState = .ready
  nonneg : ∀ v, r = .ret v → 0 ≤ v

theorem lasts_reply (hio : d.gIoState ≠ .ready) : Lasts (.ret (replyResult d)) { d' with gIoState := .ready } := by
  refine ⟨rfl, fun v hv => ?_⟩
  cases hv
  exact replyResult_nonneg hio

theorem Lasts.tx {d₁ : Device} {r : Ending} (h : Lasts r d₁) (hrests : Rests d₁ r d' w) : d'.tx = d₁.tx := by
  cases hrests with
  | replied => rfl
  | owes => rfl
  | thrown => rfl
  | restarts cause =>
      rcases cause with hnegative | hwaiting
      · exact absurd (h.nonneg _ rfl) (Int.not_le.mpr hnegative)
      · rw [h.ready] at hwaiting
        cases hwaiting

/-- What is sent is a status word, or it is given out by a command that does not fail. -/
def Gives (pf : Platform) (cmd : Command) (d : Device) (r : Ending) (d' : Device) (w : List Obs) : Prop :=
  ∀ data sw, (data, sw) ∈ replies w → data = [] ∨ (Lasts r d' ∧ CommandGives pf cmd d d' data)

theorem OnlySends.gives {r : Ending} (h : OnlySends (· = []) d d' w) : Gives pf cmd d r d' w :=
  fun data sw hmem => Or.inl (h data sw hmem)

theorem SignEffect.gives {v : Int} (is : cmd.Is insSignTx) (stage : cmd.p1 = 1) (hio : d.gIoState ≠ .ready)
    (h : SignEffect pf o cmd.data (d.withTx d.tx.resetCall) v d' w) : Gives pf cmd d (.ret v) d' w := by
  have hstatus : ∀ {sw : Nat} {d₁ : Device}, Gives pf cmd d (.ret v) d₁ [.response [] sw] := by
    intro sw d₁ data sw' hmem
    cases List.mem_singleton.mp hmem
    exact Or.inl rfl
  cases h with
  | unapproved => exact hstatus
  | unread => exact hstatus
  | pathless => exact hstatus
  | failed _ _ _ sighash =>
      intro data sw hmem
      rw [replies_append, Obs.Still.no_replies sighash.still] at hmem
      cases List.mem_singleton.mp hmem
      exact Or.inl rfl
  | signed state read _ sighash =>
      intro data sw hmem
      rw [replies_append, Obs.Still.no_replies sighash.still, List.nil_append] at hmem
      cases sighash with
      | signed derived =>
          rcases mem_replies_replyOf hmem with rfl | rfl
          · exact Or.inl rfl
          · refine Or.inr ⟨lasts_reply hio, ?_⟩
            rw [derivePrivateKey_some pf derived]
            exact .signature is stage state read

theorem apduDispatcher_gives (pf : Platform) (o : Outcome) (hfits : cmd.Fits) (hio : d.gIoState ≠ .ready) :
    wp (apduDispatcher pf o cmd) (fun v d' w => Gives pf cmd d (.ret v) d' w) (fun e d' w => Gives pf cmd d (.thrown e) d' w)
      True d := by
  have hstatus : ∀ {p : App Int}, Within (OnlySends (· = [])) p →
      wp p (fun v d' w => Gives pf cmd d (.ret v) d' w) (fun e d' w => Gives pf cmd d (.thrown e) d' w) True d :=
    fun hp => wp_mono (hp d) (fun _ _ _ h => h.gives) (fun _ _ _ h => h.gives) id
  have hr := onlySends_footprint
  have hlength : cmd.data.length ≤ decodeBufferLen := Nat.le_trans hfits (by decide)
  have hdispatches := apduDispatcher_dispatches pf o cmd
  generalize apduDispatcher pf o cmd = p at hdispatches
  cases hdispatches with
  | refused => exact hstatus (hr.ioSendSw _)
  | getVersion is =>
      unfold handlerGetVersion
      rw [wp_ioSendResponse]
      intro data sw hmem
      rcases mem_replies_replyOf hmem with rfl | rfl
      · exact Or.inl rfl
      · exact Or.inr ⟨lasts_reply hio, .version is⟩
  | getAddress => exact hstatus (hr.handlerGetAddress _)
  | getXpub => exact hstatus (hr.handlerGetXpub _)
  | signTxData _ _ nonempty => exact hstatus (hr.handlerSignTx_data nonempty hlength _)
  | signTxSign is stage =>
      refine wp_mono (handlerSignTx_sign_spec pf o cmd.data cmd.p2 d) ?_ (fun _ _ _ h => h.elim) fun _ => trivial
      exact fun _ _ _ h => h.gives is stage hio
  | signTxDone => exact hstatus (hr.handlerSignTx_done _ _)
  | signTokenData => exact hstatus (hr.handlerSignTokenData _)
  | sendTokenData => exact hstatus (hr.handlerSendTokenData _ _)
  | verifyTokenSignature => exact hstatus (hr.handlerVerifyTokenSignature _)
  | resetTokenSignatures => exact hstatus (.bind hr.composable (hr.askUser _ _) fun _ => .pure hr.composable _)

/-- A command that arrives when a reply can be prepared. -/
theorem handleCommand_gives (pf : Platform) (o : Outcome) (raw : Bytes) (hio : (wake d).gIoState ≠ .ready) :
    wp (handleCommand pf o raw)
      (fun _ d' w => ∀ data sw, (data, sw) ∈ replies w →
        data = [] ∨ ∃ cmd, apduParser raw = some cmd ∧ CommandGives pf cmd d d' data)
      (fun _ _ _ => False) True d := by
  cases hparse : apduParser raw with
  | none =>
      unfold handleCommand
      rw [wp_bind, wp_modify, wp_catchAll, hparse]
      dsimp only
      rw [wp_bind, wp_ioSendSw]
      refine wp_mono (ioRecvCommand_rests (Int.le_refl 0) _) ?_ (fun _ _ _ h => h.elim) fun _ => trivial
      intro _ d' w hrests data sw hmem
      rcases List.mem_cons.mp hmem with hmem | hmem
      · cases hmem
        exact Or.inl rfl
      · exact Or.inl (hrests.onlySends data sw hmem)
  | some cmd =>
      refine wp_mono (handleCommand_ends pf hparse (apduDispatcher_gives pf o (apduParser_fits hparse) hio)) ?_
        (fun _ _ _ h => h) id
      rintro _ d' w ⟨r, d₁, w₁, w₂, hgives, hrests, rfl⟩ data sw hmem
      rw [replies_append] at hmem
      rcases List.mem_append.mp hmem with hmem | hmem
      · refine (hgives data sw hmem).imp id ?_
        rintro ⟨hlasts, hcommand⟩
        refine ⟨cmd, rfl, ?_⟩
        cases hcommand with
        | version is => exact .version is
        | signature is stage approved read =>
            rw [Device.state, wake_gContext] at approved
            rw [wake_gContext] at read
            rw [← hlasts.tx hrests]
            exact .signature is stage approved read
      · exact Or.inl (hrests.onlySends data sw hmem)

end Commands

section Runs

variable {pf : Platform} {h : History Device Event Obs} {d : Device}

/-- A press on Approve on the approval screen, since which the session has stayed approved. -/
def ApprovedSince (h : History Device Event Obs) : Prop :=
  ∃ between approval earlier o, h = between ++ approval :: earlier ∧ approval.event = .press o true ∧
    approval.pre.flow = .confirmTx ∧ ∀ r ∈ between, r.pre.state = .approved

/-- An approved session has been approved by the user, who waits for no reply. -/
theorem run_approvedSince (run : Run (waitingSystem pf) h d) (hstate : d.state = .approved) : ApprovedSince h := by
  induction run with
  | start init =>
      obtain ⟨secret, rfl⟩ := init
      cases hstate
  | @step h d d' e w run admitted ret ih =>
      by_cases hpre : d.state = .approved
      · obtain ⟨between, approval, earlier, o, rfl, hevent, hflow, hbetween⟩ := ih hpre
        exact ⟨_ :: between, approval, earlier, o, rfl, hevent, hflow, List.forall_mem_cons.mpr ⟨hpre, hbetween⟩⟩
      · have hfree := free_of_waiting run
        have hmoves := moves_of_ret hfree ret d.tx.represents_someState
        obtain ⟨hflow, _⟩ := hmoves.approves (run_digestAbsent hfree) hpre hstate
        have hasks : d.flow.asks = true := by
          rw [hflow]
          rfl
        cases e with
        | apdu o raw => exact absurd ((run_disciplined run).owed.mp hasks) (admitted rfl o raw rfl)
        | press o choice =>
            cases choice with
            | true => exact ⟨[], _, h, o, rfl, rfl, hflow, List.forall_mem_nil _⟩
            | false =>
                have hspec := handlePress_confirmTx pf o false (run_callbackSet hfree) hflow
                rw [wp_of_ret (show handlePress pf o false d = .ret () d' w from ret), if_neg Bool.false_ne_true] at hspec
                rw [hspec.1] at hstate
                cases hstate
        | quit =>
            have hspec := handleQuit_ends d
            rw [wp_of_ret (show handleQuit d = .ret () d' w from ret)] at hspec
            rcases hspec with ⟨rfl, _⟩ | ⟨hprocessing, _⟩
            · exact absurd hstate hpre
            · rw [hflow] at hprocessing
              cases hprocessing

/-- The data of a reply, by the step that sends it and the history before it. -/
inductive GivenOut (pf : Platform) (earlier : History Device Event Obs) (r : Step Device Event Obs) : Bytes → Prop where
  | command {o : Outcome} {raw : Bytes} {cmd : Command} {data : Bytes} (event : r.event = .apdu o raw)
      (parse : apduParser raw = some cmd) (gives : CommandGives pf cmd r.pre r.post data)
      (signs : cmd.Is insSignTx → ApprovedSince earlier) : GivenOut pf earlier r data
  | approval {o : Outcome} {request : Request} (event : r.event = .press o true) (pending : Pending pf earlier request) :
      GivenOut pf earlier r (request.answer pf (secretFor o r.pre))

/-- A press other than Approve under a request sends a status word. -/
theorem handlePress_onlySends (pf : Platform) (o : Outcome) {choice : Bool} (hcallback : d.CallbackSet)
    (hother : choice = true → d.flow.asks = true → d.flow.OfTx) :
    wp (handlePress pf o choice) (fun _ d' w => OnlySends (· = []) d d' w) (fun _ _ _ => True) True d := by
  have hr := onlySends_footprint
  unfold handlePress
  rw [wp_bind, wp_get, wp_ite]
  refine ⟨fun hstep => ?_, fun _ => hr.composable.refl d⟩
  split
  · trivial
  · rename_i callback hset
    have htx : choice = true → callback = .uiActionTxConfirm ∨ callback = .uiConfirmOutput := by
      intro hchoice
      rw [if_pos hchoice] at hstep
      have hflow := hother hchoice hstep
      cases hscreen : d.flow with
      | confirmTx =>
          rw [hcallback .uiActionTxConfirm (by rw [hscreen]; rfl)] at hset
          exact Or.inl (Option.some.inj hset).symm
      | txOutput =>
          rw [hcallback .uiConfirmOutput (by rw [hscreen]; rfl)] at hset
          exact Or.inr (Option.some.inj hset).symm
      | menuMain => rw [hscreen] at hflow; exact hflow.elim
      | processing => rw [hscreen] at hflow; exact hflow.elim
      | xpub => rw [hscreen] at hflow; exact hflow.elim
      | address => rw [hscreen] at hflow; exact hflow.elim
      | resetTokenSignatures => rw [hscreen] at hflow; exact hflow.elim
      | signTokenData => rw [hscreen] at hflow; exact hflow.elim
    have hrun : Within (OnlySends (· = [])) (runCallback pf o callback choice) := by
      apply hr.runCallback
      · rintro rfl hchoice
        rcases htx hchoice with hsame | hsame <;> cases hsame
      · rintro rfl hchoice
        rcases htx hchoice with hsame | hsame <;> cases hsame
    rw [wp_catchAll]
    refine wp_mono (hrun d) (fun _ _ _ h => h) (fun e d₁ w h => ?_) id
    refine wp_mono (replyException_rests e d₁) ?_ (fun _ _ _ h => h.elim) False.elim
    intro _ d' w' hrests
    have hboth : OnlySends (· = []) d d' (w ++ w') := (onlySends_composable _).trans h hrests.onlySends
    exact hboth

/-- In every run of a host that waits, a reply that carries data is the answer to GET_VERSION, the answer to a request
that the user approves in this step, asked for by the last command, or the answer to a sign command in a session that has
stayed approved since the user approved it: the signature, with the key at the path of the command, of the digest that the
session holds. -/
theorem data_given_out (run : Run (waitingSystem pf) h d) {later earlier : History Device Event Obs}
    {r : Step Device Event Obs} {data : Bytes} {sw : Nat} (hstep : h = later ++ r :: earlier)
    (hreply : (data, sw) ∈ replies r.seen) (hdata : data ≠ []) : GivenOut pf earlier r data := by
  subst hstep
  obtain ⟨run, admitted, ret⟩ := run.before
  have hfree := free_of_waiting run
  have hdisciplined := run_disciplined run
  obtain ⟨d, e, w, d'⟩ := r
  cases e with
  | apdu o raw =>
      have hio : (wake d).gIoState ≠ .ready := by
        rw [hdisciplined.wake_received]
        decide
      have hspec := handleCommand_gives pf o raw hio
      rw [wp_of_ret (show handleCommand pf o raw d = .ret () d' w from ret)] at hspec
      obtain ⟨cmd, hparse, hgives⟩ := (hspec data sw hreply).resolve_left hdata
      refine .command rfl hparse hgives fun his => ?_
      cases hgives with
      | version is => exact absurd (is.2.symm.trans his.2) (by decide)
      | signature _ _ approved => exact run_approvedSince run approved
  | press o choice =>
      have ret' : handlePress pf o choice d = .ret () d' w := ret
      by_cases hasked : choice = true ∧ d.flow.asks = true ∧ ¬d.flow.OfTx
      · obtain ⟨rfl, hasks, hother⟩ := hasked
        obtain ⟨request, hpending, hholds⟩ := run_pending run hasks hother
        have hspec := handlePress_grants o (run_callbackSet hfree) hholds
        rw [wp_of_ret ret'] at hspec
        have hseen : w = [replyOf (request.answer pf (secretFor o d)) swOk] ++ [.display .menuMain] := hspec.2
        have hreply : (data, sw) ∈ replies w := hreply
        rw [hseen, replies_append, replies_display, replies_nil, List.append_nil] at hreply
        rcases mem_replies_replyOf hreply with hnone | rfl
        · exact absurd hnone hdata
        · exact .approval rfl hpending
      · have hother : choice = true → d.flow.asks = true → d.flow.OfTx := by
          intro hchoice hasks
          by_contra hno
          exact hasked ⟨hchoice, hasks, hno⟩
        have hspec := handlePress_onlySends pf o (run_callbackSet hfree) hother
        rw [wp_of_ret ret'] at hspec
        exact absurd (hspec data sw hreply) hdata
  | quit =>
      have hspec := handleQuit_ends d
      rw [wp_of_ret (show handleQuit d = .ret () d' w from ret)] at hspec
      rcases hspec with ⟨_, rfl⟩ | ⟨_, _, hnone, _⟩
      · cases hreply
      · have hreply : (data, sw) ∈ replies w := hreply
        rw [hnone] at hreply
        cases hreply

/-- The public key at a path of one level is given out on approval. -/
theorem data_given_out_xpub :
    ∃ earlier r data sw, Run (waitingSystem countingPlatform) (r :: earlier) r.post ∧ (data, sw) ∈ replies r.seen ∧
      data.length = 101 ∧ GivenOut countingPlatform earlier r data := by
  obtain ⟨h, r, _, run, hP⟩ := exists_step_of_play countingPlatform true []
    [.apdu (.allOk []) [0xE0, 0x05, 0, 0, 5, 1, 0x80, 0, 0, 44]] (.press (.allOk []) true)
    (fun _ r => (replies r.seen).any fun reply => reply.1.length = 101) (by decide +kernel)
  obtain ⟨⟨data, sw⟩, hmem, hlength⟩ := List.any_eq_true.mp hP
  have hlength : data.length = 101 := of_decide_eq_true hlength
  have hdata : data ≠ [] := by
    rintro rfl
    cases hlength
  have hstep : r :: h = [] ++ r :: h := rfl
  exact ⟨h, r, data, sw, run, hmem, hlength, data_given_out run hstep hmem hdata⟩

end Runs

end HathorApp
