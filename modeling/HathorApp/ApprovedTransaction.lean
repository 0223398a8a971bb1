import HathorApp.ConfirmationRun
import HathorApp.SigningDigest

/-!
What an approval covers. A session comes to be approved from the approval screen only, which is up when every output it
declares is confirmed. Unless a press slipped on the way, everything declared was decoded by then, what was hashed is the
whole transaction, and the user has seen every output that is not a verified change output.
-/

namespace HathorApp

open ProgramLogic StreamDecoder TraceRun

section Approval

variable {pf : Platform} {h : History Device Event Obs} {d d' : Device} {e : Event} {w : List Obs} {s : TxState}

/-- Only Approve on the approval screen makes a session an approved one. -/
theorem Moves.approves (hmoves : Moves pf s d e d' w) (hd : d.DigestAbsent) (hpre : d.state ≠ .approved)
    (hpost : d'.state = .approved) : d.flow = .confirmTx ∧ d' = d.approve := by
  have hkept : ∀ {d₁ : Device} {w₁ : List Obs}, Aside d d₁ w₁ → d₁.state ≠ .approved := by
    intro d₁ w₁ haside happroved
    rcases haside.session with hkept | hdropped
    · exact hpre (hkept.state.symm.trans happroved)
    · exact nomatch hdropped.state.symm.trans happroved
  cases hmoves with
  | aside _ effect => exact absurd hpost (hkept effect)
  | restarts => cases hpost
  | registers _ _ effect settles =>
      cases settles with
      | resumes =>
          have haside := hkept (aside_composable.trans (aside_wake d) effect.aside)
          exact absurd hpost haside
      | restarts => cases hpost
  | data _ _ _ effect settles =>
      cases settles with
      | resumes nonneg => exact absurd hpost (effect.digestAbsent nonneg (digestAbsent_entered hd)).2
      | restarts => cases hpost
  | sign _ _ _ effect settles =>
      cases settles with
      | resumes =>
          obtain ⟨path, tx, rfl, _⟩ := effect.frame
          exact absurd ((entered_state d).symm.trans hpost) hpre
      | restarts => cases hpost
  | approved flow => exact ⟨flow, rfl⟩
  | confirmed _ skips ends =>
      refine absurd hpost (ends.digestAbsent hpre ?_).2
      rw [Device.tx_withTx, skips.sighashAll]
      exact hd.absent hpre

/-- What was hashed is a transaction: a header, and the UIDs, the inputs and the outputs it declares, all of them decoded
and nothing left over. -/
structure WholeTransaction (tx : SignTxCtx) (header : Bytes) (e : TxElements) : Prop where
  length : header.length = 5
  hashed : tx.sha256 = some (header ++ e.serialize)
  uids : e.uids.length = byteAt header 2 ∧ tx.tokens.length = byteAt header 2
  inputs : e.inputs.length = byteAt header 3
  outputs : e.outputs.length = byteAt header 4 ∧ tx.outputsLen = byteAt header 4
  pending : tx.remainingTokens = 0 ∧ tx.remainingInputs = 0 ∧ tx.currentOutput = tx.outputsLen
  tail : tx.buffer = []

/-- The user approved the output on screen, or it is a change output that verified. -/
def Accounted (pf : Platform) (steps : History Device Event Obs) (tx : SignTxCtx) (i : Nat) (output : TxOutput) : Prop :=
  (∃ r ∈ steps, Approves pf r output) ∨
    i ∈ tx.changeIndices ∧ ∀ info ∈ tx.changes, info.index = i → ∃ r ∈ steps, VerifiesChange pf r output info

theorem Session.whole {steps : History Device Event Obs} {outs : List TxOutput} {tx : SignTxCtx}
    (hs : Session pf steps outs tx) (hexhausted : tx.Exhausted) (hconfirmed : tx.confirmedOutputs = tx.outputsLen)
    (hpos : 0 < tx.outputsLen) :
    ∃ header e, WholeTransaction tx header e ∧ outs = e.numbered ∧
      ∀ i < tx.outputsLen, ∃ output, outs[i]? = some output ∧ Accounted pf steps tx i output := by
  have haligned := hs.cursors.aligned
  have hshown := hs.cursors.shown
  have hdeclared := hs.cursors.declared
  have hall : tx.currentOutput = tx.outputsLen := by omega
  have htail : tx.buffer = [] := hexhausted hpos hall
  obtain ⟨header, e, hheader, hsha, houtputsLen, hhas⟩ := hs.hashed hpos
  have houts : outs = e.numbered := hhas.outputs
  have hcount : outs.length = e.outputs.length := by rw [houts, e.length_numbered]
  have hdecoded := hs.decoded
  have hsome : e.outputs ≠ [] := by
    intro hnil
    rw [hnil, List.length_nil] at hcount
    omega
  have htokens : tx.remainingTokens = 0 := Nat.eq_zero_of_not_pos fun h => hsome (hhas.tokensFirst h).2
  have hinputs : tx.remainingInputs = 0 := Nat.eq_zero_of_not_pos fun h => hsome (hhas.inputsFirst h)
  have hallTokens : tx.tokens.length + tx.remainingTokens = byteAt header 2 := hhas.allTokens
  have huids : tx.tokens.length = e.uids.length := hhas.tokens
  have hallInputs : e.inputs.length + tx.remainingInputs = byteAt header 3 := hhas.allInputs
  refine ⟨header, e, ⟨hheader, ?_, ⟨by omega, by omega⟩, by omega, ⟨by omega, houtputsLen⟩,
    ⟨htokens, hinputs, hall⟩, htail⟩, houts, fun i hi => ?_⟩
  · rw [htail, List.append_nil] at hsha
    exact hsha
  · have hlen : i < outs.length := by omega
    have hget : outs[i]? = some outs[i] := List.getElem?_eq_getElem hlen
    have hindex : outs[i].index = i := hs.index hget
    refine ⟨outs[i], hget, ?_⟩
    rcases hs.passed i (by omega) with hchange | ⟨r, hr, output, houtput, happroves⟩
    · refine Or.inr ⟨hchange, fun info hinfo heq => ?_⟩
      exact hs.verified _ (List.getElem_mem hlen) info hinfo (hindex.trans heq.symm)
    · obtain rfl : outs[i] = output := Option.some.inj (hget.symm.trans houtput)
      exact Or.inl ⟨r, hr, happroves⟩

/-- In a run of a host that waits, in which no press slips, a session that comes to be approved has hashed and decoded a
whole transaction, and each of its outputs was approved on screen or is a change output that verified. -/
theorem approves_whole_transaction {r : Step Device Event Obs} (run : Run (waitingSystem pf) (r :: h) d)
    (hC : NoSlip (r :: h)) (hpre : r.pre.state ≠ .approved) (hpost : r.post.state = .approved) :
    ∃ header e, WholeTransaction r.post.tx header e ∧ sessionOutputs h = e.numbered ∧
      ∀ i < r.post.tx.outputsLen, ∃ output, e.numbered[i]? = some output ∧
        Accounted pf (sessionSteps h) r.post.tx i output := by
  have hsplit : r :: h = [] ++ r :: h := rfl
  rw [hsplit] at run
  obtain ⟨hbefore, _, ret⟩ := run.before
  have free := free_of_waiting hbefore
  have hd := run_confirming hbefore (List.forall_mem_cons.mp hC).2
  have hmoves := moves_of_ret free ret r.pre.tx.represents_someState
  obtain ⟨hflow, happroved⟩ := hmoves.approves (run_digestAbsent free) hpre hpost
  have hparsed := hd.asked hflow
  obtain ⟨_, hconfirmed, hpos⟩ := hd.parsed hparsed
  obtain ⟨hsession, hexhausted⟩ := hd.session (Or.inr hparsed)
  obtain ⟨header, e, hwhole, houts, hall⟩ := hsession.whole hexhausted hconfirmed hpos
  have hsame : r.post.tx = r.pre.tx := by
    rw [happroved]
    rfl
  rw [hsame]
  rw [houts] at hall
  exact ⟨header, e, hwhole, houts, hall⟩

/-- Three outputs, the second of which is the change, approved. -/
theorem approves_whole_transaction_three :
    ∃ h r, Run (waitingSystem countingPlatform) (r :: h) r.post ∧ r.pre.state = .parsed ∧ r.post.state = .approved ∧
      r.post.tx.outputsLen = 3 ∧ ∃ header e, WholeTransaction r.post.tx header e ∧ sessionOutputs h = e.numbered ∧
        ∀ i < r.post.tx.outputsLen, ∃ output, e.numbered[i]? = some output ∧
          Accounted countingPlatform (sessionSteps h) r.post.tx i output := by
  obtain ⟨h, r, _, run, hP⟩ := exists_step_of_play countingPlatform true []
    [signTxData 0 (sampleStart 3 ++ sampleOutput 7 ++ sampleChangeOutput ++ sampleOutput 8), press true, press true] (press true)
    (fun h r => r.pre.state = .parsed ∧ r.post.state = .approved ∧ r.post.tx.outputsLen = 3 ∧
      ∀ r' ∈ r :: h, ¬SlipsPast r'.pre r'.event) (by decide +kernel)
  obtain ⟨hpre, hpost, hlen, hkept⟩ := of_decide_eq_true hP
  have hnot : r.pre.state ≠ .approved := by
    rw [hpre]
    decide
  exact ⟨h, r, run, hpre, hpost, hlen, approves_whole_transaction run hkept hnot hpost⟩

/-- The first output is approved while the second, the change, is still to come: the session is approved without it. -/
theorem approves_half_transaction :
    ∃ h r, Run (waitingSystem countingPlatform) (r :: h) r.post ∧ r.event = press true ∧ r.pre.state ≠ .approved ∧
      r.post.state = .approved ∧ r.post.tx.outputsLen = 2 ∧ (sessionOutputs h).length = 1 ∧
      ¬∃ header e, WholeTransaction r.post.tx header e ∧ sessionOutputs h = e.numbered := by
  obtain ⟨h, r, hevent, run, hP⟩ := exists_step_of_play countingPlatform true []
    [signTxData 0 (sampleStart 2 ++ sampleOutput 7), press true] (press true)
    (fun h r => r.pre.state ≠ .approved ∧ r.post.state = .approved ∧ r.post.tx.outputsLen = 2 ∧
      (sessionOutputs h).length = 1) (by decide +kernel)
  obtain ⟨hpre, hpost, hlen, hcount⟩ := of_decide_eq_true hP
  refine ⟨h, r, run, hevent, hpre, hpost, hlen, hcount, ?_⟩
  rintro ⟨header, e, hwhole, houts⟩
  rw [houts, e.length_numbered] at hcount
  have houtputs := hwhole.outputs
  omega

end Approval

end HathorApp
