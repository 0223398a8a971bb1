import HathorApp.AppMain

/-! What the input, output and screen functions do, as weakest preconditions. A straight-line function
has one rule for all postconditions, which the simp set applies along the text of its callers. -/

namespace HathorApp

open ProgramLogic

/-- A flow that shows an output of a transaction or asks for its approval. -/
def Flow.OfTx : Flow → Prop
  | .txOutput | .confirmTx => True
  | _ => False

instance (flow : Flow) : Decidable flow.OfTx := by
  unfold Flow.OfTx
  cases flow <;> infer_instance

/-- The function the approve and reject steps of a flow call. -/
def Flow.callback : Flow → Option Callback
  | .menuMain | .processing => none
  | .confirmTx => some .uiActionTxConfirm
  | .txOutput => some .uiConfirmOutput
  | .xpub => some .uiActionConfirmXpub
  | .address => some .uiActionConfirmAddress
  | .resetTokenSignatures => some .uiConfirmResetTokenSignatures
  | .signTokenData => some .uiActionSignTokenData

section Rules

variable {d : Device} {T : Nat → Device → List Obs → Prop} {F : Prop}

/-- The value `io_send_response` returns. -/
def replyResult (d : Device) : Int := if d.gIoState = .ready then -1 else 0

@[simp] theorem wp_ioSendReply {R : Int → Device → List Obs → Prop} (data : Bytes) (sw : Nat) :
    wp (ioSendReply data sw) R T F d ↔
      R (replyResult d) { d with gIoState := .ready } [.response data sw] := by
  have hself : d.gIoState = .ready → { d with gIoState := .ready } = d := by
    intro h
    rw [← h]
  unfold ioSendReply
  rw [wp_bind, wp_emit, wp_bind, wp_get]
  cases hio : d.gIoState with
  | ready => rw [hself hio, replyResult, if_pos hio]; rfl
  | received => rw [replyResult, if_neg (by rw [hio]; decide)]; rfl
  | waiting => rw [replyResult, if_neg (by rw [hio]; decide)]; rfl

@[simp] theorem wp_ioSendSw {R : Int → Device → List Obs → Prop} (sw : Nat) :
    wp (ioSendSw sw) R T F d ↔ R (replyResult d) { d with gIoState := .ready } [.response [] sw] :=
  wp_ioSendReply [] sw

/-- The reply `io_send_response` prepares. -/
def replyOf (data : Bytes) (sw : Nat) : Obs :=
  if data.length > ioApduBufferSize - 2 then .response [] swWrongResponseLength else .response data sw

@[simp] theorem wp_ioSendResponse {R : Int → Device → List Obs → Prop} (data : Bytes) (sw : Nat) :
    wp (ioSendResponse data sw) R T F d ↔
      R (replyResult d) { d with gIoState := .ready } [replyOf data sw] := by
  unfold ioSendResponse replyOf
  by_cases h : data.length > ioApduBufferSize - 2
  · rw [if_pos h, if_pos h, wp_ioSendSw]
  · rw [if_neg h, if_neg h, wp_ioSendReply]

@[simp] theorem wp_uxFlowInit {R : Unit → Device → List Obs → Prop} (flow : Flow) :
    wp (uxFlowInit flow) R T F d ↔
      R () { d with flow := flow } [.display (Device.screen { d with flow := flow })] := Iff.rfl

@[simp] theorem wp_uiMenuMain {R : Unit → Device → List Obs → Prop} :
    wp uiMenuMain R T F d ↔ R () { d with flow := .menuMain } [.display .menuMain] := Iff.rfl

@[simp] theorem wp_askUser {R : Unit → Device → List Obs → Prop} (callback : Callback) (flow : Flow) :
    wp (askUser callback flow) R T F d ↔
      R () { d with gValidateCallback := some callback, flow := flow }
        [.display (Device.screen { d with gValidateCallback := some callback, flow := flow })] := Iff.rfl

/-- The device after the exit that clears the context and replies. -/
def Device.refused (d : Device) : Device := { d.bzeroContext with gIoState := .ready, flow := .menuMain }

@[simp] theorem wp_bzeroAndReply {R : Unit → Device → List Obs → Prop} (sw : Nat) :
    wp (bzeroAndReply sw) R T F d ↔ R () d.refused [.response [] sw, .display .menuMain] := by
  unfold bzeroAndReply
  simp only [wp_bind, wp_modify, wp_ioSendSw, wp_uiMenuMain]
  rfl

@[simp] theorem wp_bzeroMenuReply {R : Int → Device → List Obs → Prop} (sw : Nat) :
    wp (bzeroMenuReply sw) R T F d ↔ R (replyResult d) d.refused [.display .menuMain, .response [] sw] := by
  unfold bzeroMenuReply
  simp only [wp_bind, wp_modify, wp_ioSendSw, wp_uiMenuMain]
  rfl

@[simp] theorem wp_generateSecret {R : Unit → Device → List Obs → Prop} (o : Outcome) :
    wp (generateSecret o) R T F d ↔ R () { d with secret := o.rng.take secretLen } [] := Iff.rfl

/-- The secret `get_secret` returns and stores. -/
def secretFor (o : Outcome) (d : Device) : Bytes :=
  if d.secret.any (· ≠ 0) then d.secret else o.rng.take secretLen

@[simp] theorem wp_getSecret {R : Bytes → Device → List Obs → Prop} (o : Outcome) :
    wp (getSecret o) R T F d ↔ R (secretFor o d) { d with secret := secretFor o d } [] := by
  unfold getSecret secretFor
  rw [wp_bind, wp_get]
  by_cases h : d.secret.any (· ≠ 0)
  · rw [if_pos h, if_pos h]
    rfl
  · rw [if_neg h, if_neg h]
    rfl

@[simp] theorem wp_onTx {α : Type} {R : α → Device → List Obs → Prop} (p : Decoder α) :
    wp (onTx p) R T F d ↔
      wp p (fun a tx w => R a (d.withTx tx) w) (fun e tx w => T e (d.withTx tx) w) F d.tx :=
  wp_zoom _ _ _

end Rules

end HathorApp
