import HathorApp.Forgetting

/-!
The commands that the dispatcher answers itself: what is no APDU, what is addressed to no instruction or in the wrong way, and
GET_VERSION. Such a command gets one reply, which does not depend on the state, and a run goes on as if it had not been sent.
-/

namespace HathorApp

open ProgramLogic TraceRun

/-- The parameters that an instruction takes. -/
def Command.ParamsFit (cmd : Command) : Prop :=
  if cmd.ins = insSignTx then cmd.p1 ≤ 2 ∧ (cmd.p1 = 0 ∨ cmd.p2 = 0)
  else if cmd.ins = insSendTokenData then cmd.p2 = 0
  else cmd.p1 = 0 ∧ cmd.p2 = 0

/-- The data that an instruction takes, as far as the dispatcher tests it. -/
def Command.DataFits (cmd : Command) : Prop :=
  if cmd.ins = insSignTx then cmd.data = [] ↔ cmd.p1 = 2
  else (cmd.ins = insGetAddress ∨ cmd.ins = insGetXpub) → cmd.data ≠ []

instance (cmd : Command) : Decidable cmd.ParamsFit := by
  unfold Command.ParamsFit
  infer_instance

instance (cmd : Command) : Decidable cmd.DataFits := by
  unfold Command.DataFits
  infer_instance

/-- The status word with which the dispatcher refuses a command: class and instruction go first, then the parameters,
then the data. -/
def Command.refusal (cmd : Command) : Option Nat :=
  if cmd.cla ≠ HathorApp.cla then some swClaNotSupported
  else if cmd.ins < insGetVersion ∨ insResetTokenSignatures < cmd.ins then some swInsNotSupported
  else if ¬cmd.ParamsFit then some swWrongP1P2
  else if ¬cmd.DataFits then some swWrongDataLength
  else none

/-- The reply to a command that concerns neither keys nor sessions nor tokens. -/
def ownReply (raw : Bytes) : Option (Bytes × Nat) :=
  match apduParser raw with
  | none => some ([], swWrongDataLength)
  | some cmd =>
    match cmd.refusal with
    | some sw => some ([], sw)
    | none => if cmd.ins = insGetVersion then some ([72, 84, 82] ++ appVersion, swOk) else none

def Event.ownReply : Event → Option (Bytes × Nat)
  | .apdu _ raw => HathorApp.ownReply raw
  | _ => none

section Dispatcher

variable (pf : Platform) (o : Outcome)

/-- The handler of an instruction. -/
def Command.serve (cmd : Command) : App Int :=
  let buf := Buffer.ofData cmd.data
  if cmd.ins = insGetVersion then handlerGetVersion
  else if cmd.ins = insGetAddress then handlerGetAddress pf o buf
  else if cmd.ins = insGetXpub then handlerGetXpub pf o buf
  else if cmd.ins = insSignTx then
    handlerSignTx pf o buf (if cmd.p1 = 0 then .data else if cmd.p1 = 1 then .sign else .done) cmd.p2
  else if cmd.ins = insSignTokenData then handlerSignTokenData buf
  else if cmd.ins = insSendTokenData then handlerSendTokenData pf o (decide (cmd.p1 = 0)) buf
  else if cmd.ins = insVerifyTokenSignature then handlerVerifyTokenSignature pf o buf
  else handlerResetTokenSignatures

/-- A status word for what is refused, or the handler. -/
def refuseOr (refusal : Option Nat) (handler : App Int) : App Int :=
  match refusal with
  | some sw => ioSendSw sw
  | none => handler

variable {pf o} {cmd : Command} {handler : App Int} {sw : Nat} {r : Option Nat}

@[simp] theorem refuseOr_some : refuseOr (some sw) handler = ioSendSw sw := rfl

@[simp] theorem refuseOr_none : refuseOr none handler = handler := rfl

theorem refuseOr_ite {c : Prop} [Decidable c] : refuseOr (if c then some sw else r) handler =
    if c then ioSendSw sw else refuseOr r handler := by
  split <;> rfl

/-- The dispatcher's tests of a SIGN_TX command. -/
theorem dispatchSignTx_eq (cmd : Command) : dispatchSignTx pf o cmd =
    if ¬(cmd.p1 ≤ 2 ∧ (cmd.p1 = 0 ∨ cmd.p2 = 0)) then ioSendSw swWrongP1P2
    else if ¬(cmd.data = [] ↔ cmd.p1 = 2) then ioSendSw swWrongDataLength
    else
      handlerSignTx pf o (Buffer.ofData cmd.data)
        (if cmd.p1 = 0 then .data else if cmd.p1 = 1 then .sign else .done) cmd.p2 := by
  have hparams : (cmd.p1 > 2 ∨ cmd.p1 = 1 ∧ cmd.p2 ≠ 0 ∨ cmd.p1 = 2 ∧ cmd.p2 ≠ 0) ↔
      ¬(cmd.p1 ≤ 2 ∧ (cmd.p1 = 0 ∨ cmd.p2 = 0)) := by omega
  unfold dispatchSignTx
  rw [if_congr hparams rfl rfl]
  by_cases hfits : cmd.p1 ≤ 2 ∧ (cmd.p1 = 0 ∨ cmd.p2 = 0)
  · have hdata : (cmd.p1 = 0 ∧ cmd.data = [] ∨ cmd.p1 = 1 ∧ cmd.data = [] ∨ cmd.p1 = 2 ∧ cmd.data ≠ []) ↔
        ¬(cmd.data = [] ↔ cmd.p1 = 2) := by
      by_cases hempty : cmd.data = []
      · simp only [hempty, and_true, not_true_eq_false, and_false, or_false, true_iff, ne_eq]
        omega
      · simp only [hempty, and_false, not_false_eq_true, and_true, false_or, false_iff, not_not, ne_eq]
    rw [if_neg (not_not.mpr hfits), if_neg (not_not.mpr hfits), if_congr hdata rfl rfl]
  · rw [if_pos hfits, if_pos hfits]

/-- The dispatcher tests a command and calls its handler. -/
theorem apduDispatcher_eq (cmd : Command) : apduDispatcher pf o cmd = refuseOr cmd.refusal (cmd.serve pf o) := by
  unfold Command.refusal
  rw [refuseOr_ite]
  by_cases hcla : cmd.cla = HathorApp.cla
  case neg => rw [if_pos hcla, apduDispatcher, if_pos hcla]
  rw [if_neg (not_not.mpr hcla), refuseOr_ite]
  by_cases hrange : cmd.ins < insGetVersion ∨ insResetTokenSignatures < cmd.ins
  · have hother : ∀ i, insGetVersion ≤ i → i ≤ insResetTokenSignatures → cmd.ins ≠ i := by
      intro i hfrom hto
      omega
    have hversion := hother insGetVersion (by decide) (by decide)
    have haddress := hother insGetAddress (by decide) (by decide)
    have hxpub := hother insGetXpub (by decide) (by decide)
    have hsign := hother insSignTx (by decide) (by decide)
    have hsignToken := hother insSignTokenData (by decide) (by decide)
    have hsend := hother insSendTokenData (by decide) (by decide)
    have hverify := hother insVerifyTokenSignature (by decide) (by decide)
    have hreset := hother insResetTokenSignatures (by decide) (by decide)
    rw [if_pos hrange, apduDispatcher, if_neg (not_not.mpr hcla), if_neg hversion, if_neg haddress, if_neg hxpub, if_neg hsign,
      if_neg hsignToken, if_neg hsend, if_neg hverify, if_neg hreset]
  rw [if_neg hrange, refuseOr_ite, refuseOr_ite, refuseOr_none]
  have hins : cmd.ins = insGetVersion ∨ cmd.ins = insGetAddress ∨ cmd.ins = insGetXpub ∨ cmd.ins = insSignTx ∨
      cmd.ins = insSignTokenData ∨ cmd.ins = insSendTokenData ∨ cmd.ins = insVerifyTokenSignature ∨
      cmd.ins = insResetTokenSignatures := by
    simp only [insGetVersion, insGetAddress, insGetXpub, insSignTx, insSignTokenData, insSendTokenData,
      insVerifyTokenSignature, insResetTokenSignatures] at hrange ⊢
    omega
  unfold apduDispatcher Command.ParamsFit Command.DataFits Command.serve
  rw [if_neg (not_not.mpr hcla)]
  rcases hins with hins | hins | hins | hins | hins | hins | hins | hins
  all_goals
    simp only [hins, insGetVersion, insGetAddress, insGetXpub, insSignTx, insSignTokenData, insSendTokenData,
      insVerifyTokenSignature, insResetTokenSignatures, Nat.reduceEqDiff, if_true, if_false]
  case inr.inr.inr.inl => exact dispatchSignTx_eq cmd
  all_goals simp only [ne_eq, not_and_or, false_or, or_false, or_self, false_implies, true_implies, not_not, not_true, if_false]

end Dispatcher

section Runs

variable {pf : Platform} {h : History Device Event Obs} {d d' : Device} {reply : Bytes × Nat}

/-- The device replies, and waits for the next command. -/
theorem handle_ownReply {o : Outcome} {raw : Bytes} (hd : d.Disciplined) (hreply : ownReply raw = some reply) :
    handle pf (.apdu o raw) d =
      .ret () { wake d with gIoState := .received, exchange := .apdu } [.response reply.1 reply.2] := by
  have hrests : ioRecvCommand { wake d with gIoState := .ready } =
      .ret () { wake d with gIoState := .received, exchange := .apdu } [] := rfl
  have hsent : ¬replyResult (wake d) < 0 := by
    unfold replyResult
    rw [hd.wake_received]
    decide
  unfold ownReply at hreply
  apply eq_ret_of_wp
  show wp (handleCommand pf o raw) _ _ _ d
  unfold handleCommand
  rw [wp_bind, wp_modify, wp_catchAll]
  cases hparse : apduParser raw with
  | none =>
      rw [hparse] at hreply
      obtain rfl : ([], swWrongDataLength) = reply := Option.some.inj hreply
      rw [wp_bind, wp_ioSendSw, wp_of_ret hrests]
      exact ⟨rfl, rfl, rfl⟩
  | some cmd =>
      rw [hparse] at hreply
      dsimp only at hreply ⊢
      rw [wp_bind, apduDispatcher_eq]
      cases hrefusal : cmd.refusal with
      | some sw =>
          rw [hrefusal] at hreply
          obtain rfl : ([], sw) = reply := Option.some.inj hreply
          rw [refuseOr_some, wp_ioSendSw, if_neg hsent, wp_of_ret hrests]
          exact ⟨rfl, rfl, rfl⟩
      | none =>
          rw [hrefusal] at hreply
          dsimp only at hreply
          by_cases hversion : cmd.ins = insGetVersion
          · rw [if_pos hversion] at hreply
            obtain rfl : ([72, 84, 82] ++ appVersion, swOk) = reply := Option.some.inj hreply
            unfold Command.serve handlerGetVersion
            rw [refuseOr_none, if_pos hversion, wp_ioSendResponse, if_neg hsent, wp_of_ret hrests]
            exact ⟨rfl, rfl, rfl⟩
          · rw [if_neg hversion] at hreply
            cases hreply

/-- Nothing that a later step can depend on has changed. -/
theorem sameMemory_ownReply (d : Device) : SameMemory d { wake d with gIoState := .received, exchange := .apdu } := by
  obtain ⟨io, hwake⟩ := wake_eq d
  rw [hwake]
  exact ⟨rfl, rfl, rfl, rfl⟩

/-- What is seen of a run. -/
def seenOf (h : History Device Event Obs) : List (Event × List Obs) := h.map fun r => (r.event, r.seen)

/-- A step of a command that the dispatcher answers itself. -/
theorem step_ownReply {e : Event} {w : List Obs} (hd : d.Disciplined) (hreply : e.ownReply = some reply)
    (ret : handle pf e d = .ret () d' w) : w = [.response reply.1 reply.2] ∧ SameMemory d d' := by
  cases e with
  | apdu o raw =>
      rw [handle_ownReply hd hreply] at ret
      cases ret
      exact ⟨rfl, sameMemory_ownReply d⟩
  | press => cases hreply
  | quit => cases hreply

/-- A run without the commands that the dispatcher answers itself is a run, and each of them is answered by its own reply. -/
theorem ownReplies_dropped (run : Run (waitingSystem pf) h d) :
    (∀ r ∈ h, ∀ reply, r.event.ownReply = some reply → r.seen = [.response reply.1 reply.2]) ∧
      ∃ h' d', Run (waitingSystem pf) h' d' ∧ seenOf h' = seenOf (h.filter fun r => r.event.ownReply.isNone) ∧
        SameMemory d d' := by
  constructor
  · intro r hr reply hreply
    obtain ⟨later, earlier, rfl⟩ := List.append_of_mem hr
    obtain ⟨hbefore, _, ret⟩ := run.before
    exact (step_ownReply (run_disciplined hbefore) hreply ret).1
  · induction run with
    | start init => exact ⟨[], _, .start init, rfl, rfl, rfl, rfl, rfl⟩
    | @step h d d₁ e w run admitted ret ih =>
        obtain ⟨h', d', run', hseen, hmemory⟩ := ih
        have ret : handle pf e d = .ret () d₁ w := ret
        cases hreply : e.ownReply with
        | some reply =>
            obtain ⟨_, hkept⟩ := step_ownReply (run_disciplined run) hreply ret
            refine ⟨h', d', run', ?_, hkept.symm.trans hmemory⟩
            rw [hseen, List.filter_cons_of_neg (by simp [hreply])]
        | none =>
            have hindistinct : Indistinct d d' := ⟨hmemory, run_settled run, run_settled run'⟩
            have admitted' : (waitingSystem pf).admits d' e := hindistinct.admits admitted
            have hends := handle_alike e hindistinct admitted
            rw [ret] at hends
            generalize hres : handle pf e d' = res at hends
            cases hends with
            | ret related =>
                refine ⟨_, _, .step run' admitted' hres, ?_, related.1⟩
                rw [List.filter_cons_of_pos (by simp [hreply])]
                simp only [seenOf, List.map_cons, List.cons.injEq, true_and]
                exact hseen

/-- GET_VERSION, a command of another class and a broken APDU, while a transaction is sent. -/
theorem ownReplies_dropped_session : ∃ h d, Run (waitingSystem countingPlatform) h d ∧ h.length = 5 ∧
    ∃ h' d', Run (waitingSystem countingPlatform) h' d' ∧ h'.length = 2 ∧ d'.flow = .txOutput ∧ SameMemory d d' := by
  obtain ⟨h, r, _, run, hP⟩ := exists_step_of_play countingPlatform true []
    [.apdu (.allOk []) [0xE0, 3, 0, 0, 0], signTxData 0 ([0, 0, 1, 0, 0, 1] ++ (sampleOutput 7).take 20),
      .apdu (.allOk []) [0, 0, 0, 0, 0], .apdu (.allOk []) [0xE0]]
    (signTxData 1 ((sampleOutput 7).drop 20))
    (fun h r => (r :: h).length = 5 ∧ r.post.flow = .txOutput ∧
      ((r :: h).filter fun r => r.event.ownReply.isNone).length = 2) (by decide +kernel)
  obtain ⟨hlength, hflow, hkept⟩ := of_decide_eq_true hP
  obtain ⟨_, h', d', run', hseen, hmemory⟩ := ownReplies_dropped run
  have hshort := congrArg List.length hseen
  rw [seenOf, seenOf, List.length_map, List.length_map, hkept] at hshort
  exact ⟨r :: h, r.post, run, hlength, h', d', run', hshort, hmemory.flow ▸ hflow, hmemory⟩

end Runs

end HathorApp
