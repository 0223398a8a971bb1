import HathorApp.Handlers

/-!
The command loop: `apdu/parser.c`, `apdu/dispatcher.c` and `app_main` of `main.c`. A step of the device
starts where it rests inside `io_exchange`, handles one command or one button press, and ends where it
rests again.
-/

namespace HathorApp

open ProgramLogic

/-- `command_t`. The data pointer is NULL exactly when there is no data. -/
structure Command where
  cla : Nat
  ins : Nat
  p1 : Nat
  p2 : Nat
  data : Bytes
  deriving DecidableEq, Repr

/-- `apdu_parser`. -/
def apduParser (buf : Bytes) : Option Command :=
  if buf.length < 5 ∨ buf.length - 5 ≠ byteAt buf 4 then none
  else some ⟨byteAt buf 0, byteAt buf 1, byteAt buf 2, byteAt buf 3, buf.drop 5⟩

def insGetVersion : Nat := 0x03
def insGetAddress : Nat := 0x04
def insGetXpub : Nat := 0x05
def insSignTx : Nat := 0x06
def insSignTokenData : Nat := 0x07
def insSendTokenData : Nat := 0x08
def insVerifyTokenSignature : Nat := 0x09
def insResetTokenSignatures : Nat := 0x0a

section Dispatch

variable (pf : Platform) (o : Outcome)

/-- The SIGN_TX case of the dispatcher. -/
def dispatchSignTx (cmd : Command) : App Int :=
  if cmd.p1 > 2 ∨ (cmd.p1 = 1 ∧ cmd.p2 ≠ 0) ∨ (cmd.p1 = 2 ∧ cmd.p2 ≠ 0) then ioSendSw swWrongP1P2
  else if (cmd.p1 = 0 ∧ cmd.data = []) ∨ (cmd.p1 = 1 ∧ cmd.data = []) ∨ (cmd.p1 = 2 ∧ cmd.data ≠ []) then
    ioSendSw swWrongDataLength
  else
    handlerSignTx pf o (Buffer.ofData cmd.data)
      (if cmd.p1 = 0 then .data else if cmd.p1 = 1 then .sign else .done) cmd.p2

/-- `apdu_dispatcher`. -/
def apduDispatcher (cmd : Command) : App Int :=
  let buf := Buffer.ofData cmd.data
  let badP1P2 := cmd.p1 ≠ 0 ∨ cmd.p2 ≠ 0
  if cmd.cla ≠ cla then ioSendSw swClaNotSupported
  else if cmd.ins = insGetVersion then
    if badP1P2 then ioSendSw swWrongP1P2 else handlerGetVersion
  else if cmd.ins = insGetAddress then
    if badP1P2 then ioSendSw swWrongP1P2
    else if cmd.data = [] then ioSendSw swWrongDataLength
    else handlerGetAddress pf o buf
  else if cmd.ins = insGetXpub then
    if badP1P2 then ioSendSw swWrongP1P2
    else if cmd.data = [] then ioSendSw swWrongDataLength
    else handlerGetXpub pf o buf
  else if cmd.ins = insSignTx then dispatchSignTx pf o cmd
  else if cmd.ins = insSignTokenData then
    if badP1P2 then ioSendSw swWrongP1P2 else handlerSignTokenData buf
  else if cmd.ins = insSendTokenData then
    if cmd.p2 ≠ 0 then ioSendSw swWrongP1P2 else handlerSendTokenData pf o (decide (cmd.p1 = 0)) buf
  else if cmd.ins = insVerifyTokenSignature then
    if badP1P2 then ioSendSw swWrongP1P2 else handlerVerifyTokenSignature pf o buf
  else if cmd.ins = insResetTokenSignatures then
    if badP1P2 then ioSendSw swWrongP1P2 else handlerResetTokenSignatures
  else ioSendSw swInsNotSupported

end Dispatch

/-! ### `main.c` -/

/-- What `app_main` and `main` do before the first command. The stored secret is kept. -/
def startApp (d : Device) : Device :=
  { d with
    gContext := zeroGlobalCtx
    gTokenSymbols := zeroTokenDataCtx
    gIoState := .received
    exchange := .apdu
    flow := .menuMain }

/-- A return of `app_main`: `main` shows the menu and starts it anew. A reply prepared before it is not
sent. -/
def restartApp : App Unit := do
  Prog.emit .restart
  Prog.modify startApp

/-- `io_recv_command` up to its call of `io_exchange`. Its `WAITING` case makes `app_main` return. -/
def ioRecvCommand : App Unit := do
  let d ← Prog.get
  match d.gIoState with
  | .ready => Prog.modify ({ · with gIoState := .received, exchange := .apdu })
  | .received => Prog.modify ({ · with gIoState := .waiting, exchange := .asynchReply })
  | .waiting => restartApp

/-- The rest of `io_recv_command`: a command arrives. -/
def wake (d : Device) : Device :=
  if d.exchange = .asynchReply then { d with gIoState := .received } else d

/-- `CATCH_OTHER(e)` of `app_main`. -/
def replyException (e : Nat) : App Unit := do
  let _ ← ioSendSw e
  ioRecvCommand

section Step

variable (pf : Platform)

/-- One turn of the loop of `app_main` on a received command. -/
def handleCommand (o : Outcome) (raw : Bytes) : App Unit := do
  Prog.modify wake
  Prog.catchAll
    (match apduParser raw with
    | none => do
      let _ ← ioSendSw swWrongDataLength
      ioRecvCommand
    | some cmd => do
      let ret ← apduDispatcher pf o cmd
      if ret < 0 then restartApp else ioRecvCommand)
    replyException

/-- A press on the approve or reject step of the flow on screen. A flow without that step ignores
it. -/
def handlePress (o : Outcome) (choice : Bool) : App Unit := do
  let d ← Prog.get
  if (if choice then d.flow.asks else d.flow.rejects) then
    match d.gValidateCallback with
    | none => Prog.overrun
    | some callback => Prog.catchAll (runCallback pf o callback choice) replyException
  else return ()

/-- A press on the quit step of the processing flow: `action_exit_to_menu`. -/
def handleQuit : App Unit := do
  let d ← Prog.get
  if d.flow = .processing then do
    Prog.modify Device.bzeroContext
    uiMenuMain
  else return ()

/-- What can wake the application, with what the SDK does meanwhile. -/
inductive Event where
  | apdu (o : Outcome) (raw : Bytes)
  | press (o : Outcome) (choice : Bool)
  | quit

def handle : Event → App Unit
  | .apdu o raw => handleCommand pf o raw
  | .press o choice => handlePress pf o choice
  | .quit => handleQuit

end Step

/-- The device after start with a stored secret. -/
def bootDevice (secret : Bytes) : Device :=
  startApp
    { gContext := zeroGlobalCtx
      gTokenSymbols := zeroTokenDataCtx
      secret := secret
      gIoState := .ready
      exchange := .apdu
      gValidateCallback := none
      flow := .menuMain
      gOutputIndex := []
      gAddress := []
      gAmount := []
      gTokenSymbol := []
      gTokenName := []
      gTokenUid := [] }

end HathorApp
