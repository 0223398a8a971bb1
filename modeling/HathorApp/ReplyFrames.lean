import HathorApp.ByteAccess
import HathorApp.IoFootprint
import HathorApp.Replies

/-!
What goes over the line. `io.c` prepares a reply in the buffer the command came in, keeps its length, and hands both to
`io_exchange`: at once when the command is already waited for, else when the loop comes back for the next command. The
variables of `io.c` run along with the device here, on its replies. They stay within the buffer in every run, and the
frames a waiting host gets are its replies with their status words, each whole and each once.
-/

namespace HathorApp

open ProgramLogic StreamDecoder TraceRun FixedField

/-- The variables of `io.c`, and the buffer of the SDK. -/
structure Io where
  gIoState : IoState
  /-- The call of `io_exchange` the application rests in. -/
  exchange : Exchange
  gIoApduBuffer : Bytes
  gOutputLen : Nat
  deriving DecidableEq, Repr

/-- The programs of `io.c`. What the outside sees of them are the bytes `io_exchange` is asked to send. -/
abbrev IoProg := Prog Io Bytes

namespace Io

/-! ### `io.c` -/

/-- The sending half of `io_exchange`. -/
def transmit : IoProg Unit := do
  let io ← Prog.get
  if io.gOutputLen = 0 then return ()
  else if io.gOutputLen > io.gIoApduBuffer.length then Prog.overrun
  else Prog.emit (io.gIoApduBuffer.take io.gOutputLen)

/-- `io_send_response` from the status word on. -/
def appendSw (sw : Nat) : IoProg Int := do
  let io ← Prog.get
  match writeU16Be io.gIoApduBuffer io.gOutputLen sw with
  | none => Prog.overrun
  | some buffer =>
    Prog.modify fun io => { io with gIoApduBuffer := buffer, gOutputLen := io.gOutputLen + 2 }
    match io.gIoState with
    | .ready => return -1
    | .received => do
      Prog.modify ({ · with gIoState := .ready })
      return 0
    | .waiting => do
      transmit
      Prog.modify ({ · with gOutputLen := 0, gIoState := .ready })
      return 0

/-- `io_send_sw`: `io_send_response` without data. -/
def ioSendSw (sw : Nat) : IoProg Int := do
  Prog.modify ({ · with gOutputLen := 0 })
  appendSw sw

/-- `io_send_response` with data. -/
def ioSendResponse (rdata : Buffer) (sw : Nat) : IoProg Int := do
  let io ← Prog.get
  if rdata.size - rdata.offset > ioApduBufferSize - 2 then ioSendSw swWrongResponseLength
  else
    match bufferCopy rdata ioApduBufferSize with
    | none => ioSendSw swWrongResponseLength
    | some data =>
      match CellArray.writeAll io.gIoApduBuffer 0 data with
      | none => Prog.overrun
      | some buffer => do
        Prog.modify ({ · with gIoApduBuffer := buffer, gOutputLen := rdata.size - rdata.offset })
        appendSw sw

/-- `io_recv_command` up to its call of `io_exchange`, which sends nothing when it has `IO_ASYNCH_REPLY`. -/
def ioRecvCommand : IoProg Unit := do
  let io ← Prog.get
  match io.gIoState with
  | .ready => do
    Prog.modify ({ · with gIoState := .received, exchange := .apdu })
    transmit
  | .received => Prog.modify ({ · with gIoState := .waiting, exchange := .asynchReply })
  | .waiting => Prog.modify ({ · with gIoState := .ready })

/-- `app_main` up to its first command. -/
def restart : IoProg Unit := do
  Prog.modify ({ · with gOutputLen := 0, gIoState := .ready })
  ioRecvCommand

/-- A command comes into the buffer, and `io_recv_command` returns. -/
def receive (raw : Bytes) : IoProg Unit :=
  Prog.modify fun io =>
    { io with
      gIoApduBuffer := raw.take ioApduBufferSize ++ io.gIoApduBuffer.drop raw.length
      gIoState := if io.exchange = .asynchReply then .received else io.gIoState }

/-- What `io.c` does when the application replies or starts anew. -/
def perform : Obs → IoProg Unit
  | .response data sw =>
    if data = [] then do
      let _ ← ioSendSw sw
      return ()
    else do
      let _ ← ioSendResponse (Buffer.ofData data) sw
      return ()
  | .restart => restart
  | _ => return ()

def performAll : List Obs → IoProg Unit
  | [] => return ()
  | e :: w => do
    perform e
    performAll w

/-- One step of the device: after a command the loop comes back to `io_recv_command`, unless the application has come
back to it already in a new start. -/
def step (r : Step Device Event Obs) : IoProg Unit :=
  match r.event with
  | .apdu _ raw => do
    receive raw
    performAll r.seen
    if Obs.restart ∈ r.seen then return () else ioRecvCommand
  | _ => performAll r.seen

/-- A whole run. -/
def along : History Device Event Obs → IoProg Unit
  | [] => return ()
  | r :: h => do
    along h
    step r

/-- After the start. -/
def boot : Io := ⟨.received, .apdu, List.replicate ioApduBufferSize 0, 0⟩

/-- A reply as it is sent: its data and the status word, the more significant byte first. -/
def frameOf (reply : Bytes × Nat) : Bytes := reply.1 ++ bytesBe 2 reply.2

/-- What is prepared. -/
def pending (io : Io) : Bytes := io.gIoApduBuffer.take io.gOutputLen

/-- The buffer has its size. -/
def Sized (io : Io) : Prop := io.gIoApduBuffer.length = ioApduBufferSize

section Reply

variable {io : Io} {data : Bytes} {sw : Nat} {R : Int → Io → List Bytes → Prop} {T : Nat → Io → List Bytes → Prop} {F : Prop}

theorem wp_transmit {R : Unit → Io → List Bytes → Prop} (hlen : io.gOutputLen ≤ io.gIoApduBuffer.length) :
    wp transmit R T F io ↔ if io.gOutputLen = 0 then R () io [] else R () io [io.pending] := by
  unfold transmit
  rw [wp_bind, wp_get]
  by_cases hzero : io.gOutputLen = 0
  · rw [if_pos hzero, if_pos hzero]
    exact Iff.rfl
  · rw [if_neg hzero, if_neg hzero, if_neg (Nat.not_lt.mpr hlen)]
    exact Iff.rfl

/-- The state after a reply. A reply that is waited for is sent; any other is kept. -/
structure Replied (io : Io) (reply : Bytes × Nat) (v : Int) (io' : Io) (frames : List Bytes) : Prop where
  value : v = if io.gIoState = .ready then -1 else 0
  ready : io'.gIoState = .ready
  exchange : io'.exchange = io.exchange
  sized : io'.Sized
  inside : io'.gOutputLen ≤ ioApduBufferSize
  sends : frames = if io.gIoState = .waiting then [frameOf reply] else []
  keeps : io.gIoState ≠ .waiting → io'.pending = frameOf reply

/-- The status word goes behind the data. -/
theorem appendSw_spec (hsized : io.Sized) (hdata : io.gIoApduBuffer.take io.gOutputLen = data)
    (hlen : io.gOutputLen = data.length)
    (hroom : data.length ≤ ioApduBufferSize - 2) :
    wp (appendSw sw) (fun v io' frames => Replied io (data, sw) v io' frames) (fun _ _ _ => False) False io := by
  have hsize : io.gIoApduBuffer.length = 260 := hsized
  have hlimit : data.length ≤ 258 := hroom
  have hfield : data.length + (beCodec 2).width ≤ io.gIoApduBuffer.length := by
    show data.length + 2 ≤ _
    omega
  have hwrite : writeU16Be io.gIoApduBuffer io.gOutputLen sw =
      some (overwrite io.gIoApduBuffer data.length (bytesBe 2 sw)) := by
    have hstore : writeUint .be .u16 io.gIoApduBuffer io.gOutputLen sw =
        (uintCodec .be .u16).store io.gIoApduBuffer io.gOutputLen sw := writeUint_eq_store
    rw [hlen] at hstore ⊢
    exact hstore.trans (Codec.store_of_fits hfield)
  have hsegment : data.length + (bytesBe 2 sw).length ≤ io.gIoApduBuffer.length := by
    rw [length_bytesBe]
    exact hfield
  have hlength := length_overwrite hsegment
  have hframe : (overwrite io.gIoApduBuffer data.length (bytesBe 2 sw)).take (data.length + 2) = frameOf (data, sw) := by
    rw [hlen] at hdata
    unfold overwrite frameOf
    rw [hdata, List.take_left']
    rw [List.length_append, length_bytesBe]
  have hinside : data.length + 2 ≤ ioApduBufferSize := by
    rw [show ioApduBufferSize = 260 from rfl]
    omega
  unfold appendSw
  rw [wp_bind, wp_get, hwrite]
  dsimp only
  rw [wp_bind, wp_modify, hlen]
  cases hio : io.gIoState with
  | ready =>
      refine ⟨(if_pos hio).symm, rfl, rfl, hlength.trans hsized, hinside, ?_, fun _ => hframe⟩
      exact (if_neg (by rw [hio]; decide)).symm
  | received =>
      rw [wp_bind, wp_modify, wp_pure]
      refine ⟨(if_neg (by rw [hio]; decide)).symm, rfl, rfl, hlength.trans hsized, hinside, ?_, fun _ => hframe⟩
      exact (if_neg (by rw [hio]; decide)).symm
  | waiting =>
      have hbuffer : data.length + 2 ≤ (overwrite io.gIoApduBuffer data.length (bytesBe 2 sw)).length := by
        rw [hlength]
        omega
      rw [wp_bind, wp_transmit hbuffer, if_neg (by simp), wp_bind, wp_modify, wp_pure]
      refine ⟨(if_neg (by rw [hio]; decide)).symm, rfl, rfl, hlength.trans hsized, Nat.zero_le _, ?_, fun h => absurd hio h⟩
      rw [if_pos hio]
      exact congrArg (fun frame => [frame]) hframe

/-- A status word. -/
theorem ioSendSw_spec (hsized : io.Sized) :
    wp (ioSendSw sw) (fun v io' frames => Replied io ([], sw) v io' frames) (fun _ _ _ => False) False io := by
  unfold ioSendSw
  rw [wp_bind, wp_modify]
  have hempty : Sized { io with gOutputLen := 0 } := hsized
  refine wp_mono (appendSw_spec hempty rfl rfl (Nat.zero_le _)) (fun v io' frames h => ?_) (fun _ _ _ h => h) id
  exact ⟨h.value, h.ready, h.exchange, h.sized, h.inside, h.sends, h.keeps⟩

/-- The reply `io_send_response` prepares: the data, or a status word where they do not fit. -/
def replyTo (data : Bytes) (sw : Nat) : Bytes × Nat :=
  if data.length > ioApduBufferSize - 2 then ([], swWrongResponseLength) else (data, sw)

theorem ioSendResponse_spec (hsized : io.Sized) :
    wp (ioSendResponse (Buffer.ofData data) sw) (fun v io' frames => Replied io (replyTo data sw) v io' frames)
      (fun _ _ _ => False) False io := by
  have hsize : (Buffer.ofData data).size - (Buffer.ofData data).offset = data.length := rfl
  unfold ioSendResponse replyTo
  rw [wp_bind, wp_get, hsize]
  by_cases hlong : data.length > ioApduBufferSize - 2
  · rw [if_pos hlong, if_pos hlong]
    exact ioSendSw_spec hsized
  · have hlimit : data.length ≤ 258 := Nat.not_lt.mp hlong
    have hroom : 0 + data.length ≤ io.gIoApduBuffer.length := by
      rw [show io.gIoApduBuffer.length = 260 from hsized]
      omega
    have hcopy : bufferCopy (Buffer.ofData data) ioApduBufferSize = some data := by
      have hfits : ¬data.length > ioApduBufferSize := by
        rw [show ioApduBufferSize = 260 from rfl]
        omega
      unfold bufferCopy
      rw [hsize, if_neg hfits]
      exact congrArg some (List.take_length)
    rw [if_neg hlong, if_neg hlong, hcopy]
    dsimp only
    rw [writeAll_eq_overwrite hroom]
    dsimp only
    rw [wp_bind, wp_modify]
    have hwritten : Sized { io with gIoApduBuffer := overwrite io.gIoApduBuffer 0 data, gOutputLen := data.length } :=
      (length_overwrite hroom).trans hsized
    have hprefix : (overwrite io.gIoApduBuffer 0 data).take data.length = data := by
      unfold overwrite
      rw [List.take_zero, List.nil_append, List.take_left]
    refine wp_mono (appendSw_spec hwritten hprefix rfl (Nat.not_lt.mp hlong)) (fun v io' frames h => ?_) (fun _ _ _ h => h) id
    exact ⟨h.value, h.ready, h.exchange, h.sized, h.inside, h.sends, h.keeps⟩

end Reply

section Perform

variable {io : Io} {T : Nat → Io → List Bytes → Prop} {F : Prop}

/-- The state after some replies: the first one is sent if it is waited for, and the last one that is not is kept. -/
structure Performed (io : Io) (l : List (Bytes × Nat)) (io' : Io) (frames : List Bytes) : Prop where
  state : io'.gIoState = if l = [] then io.gIoState else .ready
  exchange : io'.exchange = io.exchange
  sized : io'.Sized
  inside : io'.gOutputLen ≤ ioApduBufferSize
  sends : frames = if io.gIoState = .waiting then (l.take 1).map frameOf else []
  none : l = [] → io' = io
  keeps : io.gIoState ≠ .waiting → ∀ reply, l.getLast? = some reply → io'.pending = frameOf reply

theorem performed_nil (hsized : io.Sized) (hinside : io.gOutputLen ≤ ioApduBufferSize) : Performed io [] io [] := by
  refine ⟨rfl, rfl, hsized, hinside, ?_, fun _ => rfl, ?_⟩
  · split <;> rfl
  · rintro _ reply ⟨⟩

/-- One reply and then others. -/
theorem Replied.performed {io₁ io₂ : Io} {reply : Bytes × Nat} {v : Int} {l : List (Bytes × Nat)} {frames frames' : List Bytes}
    (h : Replied io reply v io₁ frames) (h' : Performed io₁ l io₂ frames') :
    Performed io (reply :: l) io₂ (frames ++ frames') := by
  have hnot : io₁.gIoState ≠ .waiting := by
    rw [h.ready]
    decide
  refine ⟨?_, h'.exchange.trans h.exchange, h'.sized, h'.inside, ?_, (fun h => by cases h), fun hfree last hlast => ?_⟩
  · rw [h'.state, h.ready, if_neg (List.cons_ne_nil _ _)]
    split <;> rfl
  · rw [h.sends, h'.sends, if_neg hnot, List.append_nil]
    rfl
  · cases hl : l with
    | nil =>
        rw [hl] at hlast
        obtain rfl : reply = last := Option.some.inj hlast
        rw [h'.none hl, h.keeps hfree]
    | cons next rest =>
        rw [hl, List.getLast?_cons_cons, ← hl] at hlast
        exact h'.keeps hnot last hlast

theorem perform_response_spec {data : Bytes} {sw : Nat} (hsized : io.Sized) (hfits : data.length ≤ ioApduBufferSize - 2) :
    wp (perform (.response data sw)) (fun _ io' frames => ∃ v, Replied io (data, sw) v io' frames) (fun _ _ _ => False) False
      io := by
  unfold perform
  dsimp only
  rw [wp_ite, wp_bind, wp_bind]
  constructor
  · rintro rfl
    refine wp_mono (ioSendSw_spec hsized) (fun v io' frames h => ?_) (fun _ _ _ h => h) id
    rw [wp_pure, List.append_nil]
    exact ⟨v, h⟩
  · intro _
    refine wp_mono (ioSendResponse_spec hsized) (fun v io' frames h => ?_) (fun _ _ _ h => h) id
    rw [replyTo, if_neg (Nat.not_lt.mpr hfits)] at h
    rw [wp_pure, List.append_nil]
    exact ⟨v, h⟩

theorem performAll_spec {w : List Obs} (hstays : Obs.restart ∉ w)
    (hfits : ∀ data sw, .response data sw ∈ w → data.length ≤ ioApduBufferSize - 2) (hsized : io.Sized)
    (hinside : io.gOutputLen ≤ ioApduBufferSize) :
    wp (performAll w) (fun _ io' frames => Performed io (replies w) io' frames) (fun _ _ _ => False) False io := by
  induction w generalizing io with
  | nil => exact performed_nil hsized hinside
  | cons e w ih =>
      have hstays' : Obs.restart ∉ w := fun h => hstays (List.mem_cons_of_mem e h)
      have hfits' := fun data sw h => hfits data sw (List.mem_cons_of_mem e h)
      -- the events that are no reply leave `io.c` alone
      have hstill : perform e = pure () → replies (e :: w) = replies w →
          wp (performAll (e :: w)) (fun _ io' frames => Performed io (replies (e :: w)) io' frames) (fun _ _ _ => False) False
            io := by
        intro hperform hreplies
        unfold performAll
        rw [hperform, hreplies, wp_bind, wp_pure]
        exact ih hstays' hfits' hsized hinside
      cases e with
      | response data sw =>
          unfold performAll
          rw [wp_bind, replies_response]
          refine wp_mono (perform_response_spec hsized (hfits data sw List.mem_cons_self)) ?_ (fun _ _ _ h => h) id
          rintro _ io₁ frames ⟨v, hreplied⟩
          refine wp_mono (ih hstays' hfits' hreplied.sized hreplied.inside) ?_ (fun _ _ _ h => h) id
          exact fun _ io₂ frames' hperformed => hreplied.performed hperformed
      | restart => exact absurd List.mem_cons_self hstays
      | display => exact hstill rfl rfl
      | decoded => exact hstill rfl rfl
      | derive => exact hstill rfl rfl
      | ecdsa => exact hstill rfl rfl

theorem wp_performAll_append {R : Unit → Io → List Bytes → Prop} (u v : List Obs) :
    wp (performAll (u ++ v)) R T F io ↔
      wp (performAll u) (fun _ io' frames => wp (performAll v) (fun _ io'' frames' => R () io'' (frames ++ frames'))
        (fun e io'' frames' => T e io'' (frames ++ frames')) F io') T F io := by
  induction u generalizing io R T with
  | nil => exact Iff.rfl
  | cons e u ih =>
      rw [List.cons_append, performAll, performAll, wp_bind, wp_bind]
      simp only [ih, List.append_assoc]

end Perform

end Io

/-! ### What the programs say to `io.c` -/

/-- The replies of a program fit the buffer, and tell the state it leaves `io.c` in. -/
structure Speaks (d d' : Device) (w : List Obs) : Prop where
  stays : Obs.restart ∉ w
  fits : ∀ data sw, .response data sw ∈ w → data.length ≤ ioApduBufferSize - 2
  state : d'.gIoState = if replies w = [] then d.gIoState else .ready
  exchange : d'.exchange = d.exchange

theorem speaks_composable : Composable Speaks where
  refl _ := ⟨List.not_mem_nil, fun _ _ h => absurd h List.not_mem_nil, rfl, rfl⟩
  trans := by
    intro d d₁ d₂ u v h h'
    refine ⟨?_, ?_, ?_, h'.exchange.trans h.exchange⟩
    · rw [List.mem_append, not_or]
      exact ⟨h.stays, h'.stays⟩
    · intro data sw hmem
      rcases List.mem_append.mp hmem with hmem | hmem
      · exact h.fits data sw hmem
      · exact h'.fits data sw hmem
    · rw [h'.state, h.state, replies_append]
      by_cases hv : replies v = []
      · rw [if_pos hv, hv, List.append_nil]
      · rw [if_neg hv, if_neg (by simp [hv])]

theorem speaks_footprint : IoFootprint (fun _ => True) Speaks where
  composable := speaks_composable
  status := trivial
  still hio hexchange hw := by
    refine ⟨fun h => hw _ h, fun data sw h => (hw _ h).elim, ?_, hexchange⟩
    rw [Obs.Still.no_replies hw, if_pos rfl, hio]
  reply d data sw _ hlength := by
    refine ⟨by simp, ?_, rfl, rfl⟩
    intro data' sw' hmem
    cases List.mem_singleton.mp hmem
    exact hlength

section Handlers

variable (pf : Platform) (o : Outcome)

/-- What a command says before the loop comes to rest, and how it concludes. -/
theorem handleCommand_speaks (raw : Bytes) (d : Device) :
    wp (handleCommand pf o raw)
      (fun _ d' w => ∃ r d₁ w₁ w₂, (Concludes (RawRaises raw) (wake d) r d₁ w₁ ∧ Speaks (wake d) d₁ w₁) ∧ Rests d₁ r d' w₂ ∧
        w = w₁ ++ w₂) (fun _ _ _ => False) True d := by
  cases hparse : apduParser raw with
  | none =>
      unfold handleCommand
      rw [wp_bind, wp_modify, wp_catchAll, hparse]
      dsimp only
      rw [wp_bind, wp_ioSendSw]
      have hrefused : Concludes (RawRaises raw) (wake d) (.ret 0) { wake d with gIoState := .ready }
          [.response [] swWrongDataLength] := .replied rfl rfl (Or.inl rfl) fun _ => Int.le_refl 0
      have hspeaks : Speaks (wake d) { wake d with gIoState := .ready } [.response [] swWrongDataLength] :=
        speaks_footprint.reply (wake d) swWrongDataLength trivial (by decide)
      refine wp_mono (ioRecvCommand_rests (Int.le_refl 0) _) ?_ (fun _ _ _ h => h.elim) fun _ => trivial
      exact fun _ d' w₂ hrests => ⟨.ret 0, _, _, w₂, ⟨hrefused, hspeaks⟩, hrests, rfl⟩
  | some cmd =>
      have hfits := apduParser_fits hparse
      have hconcludes : Concluding (RawRaises raw) (apduDispatcher pf o cmd) :=
        (concluding_apduDispatcher hfits).mono fun _ hraised htoken => ⟨cmd, hparse, hraised htoken⟩
      have hspeaks : Within Speaks (apduDispatcher pf o cmd) :=
        speaks_footprint.apduDispatcher hfits (fun _ => trivial) fun _ _ _ _ => trivial
      exact handleCommand_ends pf hparse
        (R := fun v d₁ w₁ => Concludes (RawRaises raw) (wake d) v d₁ w₁ ∧ Speaks (wake d) d₁ w₁)
        (wp_mono (wp_and (hconcludes (wake d)) (hspeaks (wake d))) (fun _ _ _ h => h) (fun _ _ _ h => h) fun h => h.1)

theorem handlePress_speaks (choice : Bool) (d : Device) :
    wp (handlePress pf o choice) (fun _ d' w => PressEnds choice d d' w ∧ Speaks d d' w) (fun _ _ _ => False) True d := by
  have hspeaks : wp (handlePress pf o choice) (fun _ d' w => Speaks d d' w) (fun _ _ _ => True) True d := by
    unfold handlePress
    rw [wp_bind, wp_get, wp_ite]
    refine ⟨fun hstep => ?_, fun _ => speaks_composable.refl d⟩
    have hasked : d.flow.asks = true := by
      cases choice with
      | true => exact hstep
      | false => exact asks_of_rejects hstep
    split
    · trivial
    · rename_i callback _
      have hcallback : Within Speaks (runCallback pf o callback choice) :=
        speaks_footprint.runCallback (fun _ _ _ => trivial) fun _ _ _ => trivial
      rw [wp_catchAll]
      refine wp_mono (wp_and (hcallback d) (runCallback_ends pf o hasked callback)) ?_ ?_ fun h => h.1
      · exact fun _ _ _ h => h.1
      · exact fun _ _ _ h => h.2.elim
  refine wp_mono (wp_and (handlePress_ends pf o choice d) hspeaks) (fun _ _ _ h => h) ?_ fun h => h.1
  exact fun _ _ _ h => h.1

theorem handleQuit_speaks (d : Device) :
    wp handleQuit (fun _ d' w => replies w = [] ∧ Speaks d d' w) (fun _ _ _ => False) False d := by
  unfold handleQuit
  rw [wp_bind, wp_get, wp_ite]
  refine ⟨fun _ => ?_, fun _ => ⟨rfl, speaks_composable.refl d⟩⟩
  simp only [wp_bind, wp_modify, wp_uiMenuMain]
  exact ⟨rfl, speaks_footprint.still rfl rfl (by simp [Obs.Still])⟩

end Handlers

namespace Io

/-- `io.c` is in the state the device has it in. -/
structure Agrees (io : Io) (d : Device) : Prop where
  state : io.gIoState = d.gIoState
  exchange : io.exchange = d.exchange
  sized : io.Sized
  inside : io.gOutputLen ≤ ioApduBufferSize

/-- The replies of a step, but those prepared before a new start, which drops them. -/
def sentIn (w : List Obs) : List (Bytes × Nat) := if Obs.restart ∈ w then [] else replies w

section Loop

variable {io : Io} {d d₁ d' : Device} {T : Nat → Io → List Bytes → Prop} {F : Prop}

theorem wp_ioRecvCommand_ready {R : Unit → Io → List Bytes → Prop} (hready : io.gIoState = .ready) (hsized : io.Sized)
    (hinside : io.gOutputLen ≤ ioApduBufferSize) :
    wp ioRecvCommand R T F io ↔ if io.gOutputLen = 0 then R () { io with gIoState := .received, exchange := .apdu } []
      else R () { io with gIoState := .received, exchange := .apdu } [io.pending] := by
  unfold ioRecvCommand
  rw [wp_bind, wp_get, hready]
  dsimp only
  rw [wp_bind, wp_modify, wp_transmit (by rw [show io.gIoApduBuffer.length = ioApduBufferSize from hsized]; exact hinside)]
  rfl

/-- The reply that was prepared goes out as the loop comes back. -/
theorem ioRecvCommand_sends {io₀ : Io} {l : List (Bytes × Nat)} {frames : List Bytes} (h : Performed io₀ l io frames)
    (hready : io.gIoState = .ready) :
    wp ioRecvCommand (fun _ io' frames' => io'.gIoState = .received ∧ io'.exchange = .apdu ∧ io'.Sized ∧
        io'.gOutputLen ≤ ioApduBufferSize ∧
        (io₀.gIoState ≠ .waiting → ∀ reply, l = [reply] → frames ++ frames' = [frameOf reply]))
      (fun _ _ _ => False) False io := by
  rw [wp_ioRecvCommand_ready hready h.sized h.inside]
  by_cases hzero : io.gOutputLen = 0
  · rw [if_pos hzero]
    refine ⟨rfl, rfl, h.sized, h.inside, fun hfree reply hl => ?_⟩
    -- a reply has a status word, so something is pending
    have hpending := h.keeps hfree reply (by rw [hl]; rfl)
    have hnone : io.pending = [] := by
      rw [pending, hzero, List.take_zero]
    have hlength := congrArg List.length (hnone.symm.trans hpending)
    rw [frameOf, List.length_append, length_bytesBe, List.length_nil] at hlength
    omega
  · rw [if_neg hzero]
    refine ⟨rfl, rfl, h.sized, h.inside, fun hfree reply hl => ?_⟩
    rw [h.sends, if_neg hfree, List.nil_append, h.keeps hfree reply (by rw [hl]; rfl)]

/-- The variables after a command has come in. -/
def received (io : Io) (raw : Bytes) : Io :=
  { io with
    gIoApduBuffer := raw.take ioApduBufferSize ++ io.gIoApduBuffer.drop raw.length
    gIoState := if io.exchange = .asynchReply then .received else io.gIoState }

theorem Agrees.received (h : io.Agrees d) (raw : Bytes) : (io.received raw).Agrees (wake d) := by
  have hwake : (wake d).exchange = d.exchange := by
    obtain ⟨state, hwake⟩ := wake_eq d
    rw [hwake]
  refine ⟨?_, h.exchange.trans hwake.symm, ?_, h.inside⟩
  · unfold Io.received wake
    dsimp only
    rw [h.exchange, h.state]
    split <;> rfl
  · show (raw.take ioApduBufferSize ++ io.gIoApduBuffer.drop raw.length).length = ioApduBufferSize
    rw [List.length_append, List.length_take, List.length_drop, show io.gIoApduBuffer.length = ioApduBufferSize from h.sized]
    omega

/-- The replies that a program leaves to `io.c`. -/
theorem Agrees.performAll {w : List Obs} (h : io.Agrees d) (hspeaks : Speaks d d₁ w) :
    wp (performAll w) (fun _ io' frames => io'.Agrees d₁ ∧ Performed io (replies w) io' frames)
      (fun _ _ _ => False) False io := by
  refine wp_mono (performAll_spec hspeaks.stays hspeaks.fits h.sized h.inside) ?_ (fun _ _ _ h => h) id
  intro _ io' frames hperformed
  refine ⟨⟨?_, ?_, hperformed.sized, hperformed.inside⟩, hperformed⟩
  · rw [hperformed.state, hspeaks.state, h.state]
  · rw [hperformed.exchange, hspeaks.exchange, h.exchange]

theorem restart_spec (hsized : io.Sized) :
    wp restart (fun _ io' frames => io'.gIoState = .received ∧ io'.exchange = .apdu ∧ io'.Sized ∧
      io'.gOutputLen ≤ ioApduBufferSize ∧ frames = []) (fun _ _ _ => False) False io := by
  have hempty : Sized { io with gOutputLen := 0, gIoState := .ready } := hsized
  unfold restart
  rw [wp_bind, wp_modify, wp_ioRecvCommand_ready rfl hempty (Nat.zero_le _), if_pos rfl]
  exact ⟨rfl, rfl, hsized, Nat.zero_le _, rfl⟩

/-- A command without a new start: the loop comes back to `io_recv_command`. -/
theorem step_command {o : Outcome} {raw : Bytes} {w : List Obs} (h : io.Agrees d) (hspeaks : Speaks (wake d) d₁ w)
    {R : Unit → Io → List Bytes → Prop}
    (hrecv : ∀ io₁ frames, io₁.Agrees d₁ → Performed (io.received raw) (replies w) io₁ frames →
      wp ioRecvCommand (fun _ io' frames' => R () io' (frames ++ frames')) (fun _ _ _ => False) False io₁) :
    wp (step ⟨d, .apdu o raw, w, d'⟩) R (fun _ _ _ => False) False io := by
  unfold step receive
  dsimp only
  rw [wp_bind, wp_modify, wp_bind, if_neg hspeaks.stays]
  refine wp_mono ((h.received raw).performAll hspeaks) ?_ (fun _ _ _ h => h) id
  rintro _ io₁ frames ⟨hagrees, hperformed⟩
  exact hrecv io₁ frames hagrees hperformed

/-- The same when it starts anew. -/
theorem step_restarts {o : Outcome} {raw : Bytes} {w : List Obs} (h : io.Agrees d) (hspeaks : Speaks (wake d) d₁ w) :
    wp (step ⟨d, .apdu o raw, w ++ [.restart], startApp d₁⟩)
      (fun _ io' frames => io'.Agrees (startApp d₁) ∧ ((wake d).gIoState ≠ .waiting → frames = [])) (fun _ _ _ => False) False
      io := by
  unfold step receive
  dsimp only
  rw [wp_bind, wp_modify, wp_bind, wp_performAll_append, if_pos (by simp)]
  refine wp_mono ((h.received raw).performAll hspeaks) ?_ (fun _ _ _ h => h) id
  rintro _ io₁ frames ⟨_, hperformed⟩
  rw [performAll, wp_bind, performAll, perform]
  refine wp_mono (restart_spec hperformed.sized) ?_ (fun _ _ _ h => h) id
  rintro _ io₂ frames' ⟨hstate, hexchange, hsized, hinside, rfl⟩
  rw [wp_pure, wp_pure]
  refine ⟨⟨hstate, hexchange, hsized, hinside⟩, fun hfree => ?_⟩
  rw [hperformed.sends, (h.received raw).state, if_neg hfree]
  rfl

/-- What a step does to `io.c`: it stays in the state of the device, and a host that waits gets what the step answers. -/
def Follows (io : Io) (r : Step Device Event Obs) : Prop :=
  wp (step r) (fun _ io' frames => io'.Agrees r.post ∧
    (r.pre.Disciplined → (∀ o raw, r.event = .apdu o raw → r.pre.gIoState ≠ .waiting) → frames = (sentIn r.seen).map frameOf))
    (fun _ _ _ => False) False io

theorem follows_command {pf : Platform} {o : Outcome} {raw : Bytes} {w : List Obs} (h : io.Agrees d)
    (ret : handleCommand pf o raw d = .ret () d' w) : Follows io ⟨d, .apdu o raw, w, d'⟩ := by
  have hspec := handleCommand_speaks pf o raw d
  rw [wp_of_ret ret] at hspec
  obtain ⟨r, d₁, w₁, w₂, ⟨hconcludes, hspeaks⟩, hrests, rfl⟩ := hspec
  have hreceived := h.received raw
  have hsent : ∀ {u : List Obs}, Obs.restart ∉ u → sentIn u = replies u := fun hstays => if_neg hstays
  unfold Follows
  cases hrests with
  | replied hnonneg hready =>
      rw [List.append_nil]
      refine step_command h hspeaks fun io₁ frames hagrees hperformed => ?_
      refine wp_mono (ioRecvCommand_sends hperformed (hagrees.state.trans hready)) ?_ (fun _ _ _ h => h) id
      rintro _ io₂ frames' ⟨hstate, hexchange, hsized, hinside, hsends⟩
      refine ⟨⟨hstate, hexchange, hsized, hinside⟩, fun hd hfree => ?_⟩
      have hlistens := hd.wake_received
      have hone : (replies w₁).length = 1 := by
        cases hconcludes with
        | replied one => exact one
        | asks _ io =>
            rw [hready, hlistens] at io
            cases io
        | fails negative => exact absurd hnonneg (Int.not_le.mpr negative)
      obtain ⟨reply, hreply⟩ := List.length_eq_one_iff.mp hone
      rw [hsent hspeaks.stays, hsends (by rw [hreceived.state, hlistens]; decide) reply hreply, hreply]
      rfl
  | owes _ howes =>
      rw [List.append_nil]
      refine step_command h hspeaks fun io₁ frames hagrees hperformed => ?_
      unfold ioRecvCommand
      rw [wp_bind, wp_get, hagrees.state.trans howes]
      refine ⟨⟨rfl, rfl, hagrees.sized, hagrees.inside⟩, fun hd _ => ?_⟩
      have hnone : replies w₁ = [] := by
        by_contra hsome
        have hstate := hspeaks.state
        rw [if_neg hsome, howes] at hstate
        cases hstate
      rw [hsent hspeaks.stays, hnone, hperformed.sends, hreceived.state, hd.wake_received, if_neg (by decide)]
      rfl
  | thrown =>
      rename_i e
      have hreplies : Speaks d₁ { d₁ with gIoState := .ready } [.response [] e] :=
        speaks_footprint.reply d₁ e trivial (by decide)
      have hwhole := speaks_composable.trans hspeaks hreplies
      refine step_command h hwhole fun io₁ frames hagrees hperformed => ?_
      refine wp_mono (ioRecvCommand_sends hperformed hagrees.state) ?_ (fun _ _ _ h => h) id
      rintro _ io₂ frames' ⟨hstate, hexchange, hsized, hinside, hsends⟩
      refine ⟨⟨hstate, hexchange, hsized, hinside⟩, fun hd _ => ?_⟩
      have hquiet : replies w₁ = [] := by
        cases hconcludes with
        | throws quiet => exact quiet.none
      have hall : replies (w₁ ++ [.response [] e]) = [([], e)] := by
        rw [replies_append, hquiet]
        rfl
      rw [hsent hwhole.stays, hsends (by rw [hreceived.state, hd.wake_received]; decide) _ hall, hall]
      rfl
  | restarts =>
      refine wp_mono (step_restarts h hspeaks) ?_ (fun _ _ _ h => h) id
      rintro _ io₁ frames ⟨hagrees, hnone⟩
      refine ⟨hagrees, fun hd _ => ?_⟩
      rw [hnone (by rw [hd.wake_received]; decide), sentIn, if_pos (by simp)]
      rfl

theorem follows_press {pf : Platform} {o : Outcome} {choice : Bool} {w : List Obs} (h : io.Agrees d)
    (ret : handlePress pf o choice d = .ret () d' w) : Follows io ⟨d, .press o choice, w, d'⟩ := by
  have hspec := handlePress_speaks pf o choice d
  rw [wp_of_ret ret] at hspec
  obtain ⟨hends, hspeaks⟩ := hspec
  refine wp_mono (h.performAll hspeaks) ?_ (fun _ _ _ h => h) id
  rintro _ io₁ frames ⟨hagrees, hperformed⟩
  refine ⟨hagrees, fun hd _ => ?_⟩
  rw [sentIn, if_neg hspeaks.stays, hperformed.sends, h.state]
  cases hends with
  | ignored => split <;> rfl
  | replied asked one =>
      obtain ⟨reply, hreply⟩ := List.length_eq_one_iff.mp one
      rw [if_pos (hd.owed.mp asked), hreply]
      rfl
  | asks _ none =>
      rw [none]
      split <;> rfl

theorem follows_quit {w : List Obs} (h : io.Agrees d) (ret : handleQuit d = .ret () d' w) : Follows io ⟨d, .quit, w, d'⟩ := by
  have hspec := handleQuit_speaks d
  rw [wp_of_ret ret] at hspec
  obtain ⟨hnone, hspeaks⟩ := hspec
  refine wp_mono (h.performAll hspeaks) ?_ (fun _ _ _ h => h) id
  rintro _ io₁ frames ⟨hagrees, hperformed⟩
  refine ⟨hagrees, fun _ _ => ?_⟩
  rw [sentIn, if_neg hspeaks.stays, hperformed.sends, hnone]
  split <;> rfl

end Loop

/-- The replies of a run, the first one first. -/
def sentReplies (h : History Device Event Obs) : List (Bytes × Nat) := h.reverse.flatMap fun r => sentIn r.seen

section Run

variable {pf : Platform} {h : History Device Event Obs} {d : Device}

theorem follows_of_ret {io : Io} {e : Event} {d' : Device} {w : List Obs} (hagrees : io.Agrees d)
    (ret : handle pf e d = .ret () d' w) : Follows io ⟨d, e, w, d'⟩ := by
  cases e with
  | apdu o raw => exact follows_command hagrees ret
  | press o choice => exact follows_press hagrees ret
  | quit => exact follows_quit hagrees ret

/-- The replies of a step fit the buffer with their status words. -/
theorem fits_of_ret {e : Event} {d' : Device} {w : List Obs} (ret : handle pf e d = .ret () d' w) :
    ∀ reply ∈ sentIn w, (frameOf reply).length ≤ ioApduBufferSize := by
  have hfits : ∀ data sw, Obs.response data sw ∈ w → data.length ≤ ioApduBufferSize - 2 := by
    cases e with
    | apdu o raw =>
        have hspec := handleCommand_speaks pf o raw d
        rw [wp_of_ret (show handleCommand pf o raw d = .ret () d' w from ret)] at hspec
        obtain ⟨r, d₁, w₁, w₂, ⟨_, hspeaks⟩, hrests, rfl⟩ := hspec
        intro data sw hmem
        rcases List.mem_append.mp hmem with hmem | hmem
        · exact hspeaks.fits data sw hmem
        · cases hrests with
          | replied => cases hmem
          | owes => cases hmem
          | thrown =>
              cases List.mem_singleton.mp hmem
              exact Nat.zero_le _
          | restarts => cases List.mem_singleton.mp hmem
    | press o choice =>
        have hspec := handlePress_speaks pf o choice d
        rw [wp_of_ret (show handlePress pf o choice d = .ret () d' w from ret)] at hspec
        exact hspec.2.fits
    | quit =>
        have hspec := handleQuit_speaks d
        rw [wp_of_ret (show handleQuit d = .ret () d' w from ret)] at hspec
        exact hspec.2.fits
  rintro ⟨data, sw⟩ hmem
  have hreply : (data, sw) ∈ replies w := by
    unfold sentIn at hmem
    split at hmem
    · cases hmem
    · exact hmem
  obtain ⟨e, he, hsome⟩ := List.mem_filterMap.mp hreply
  have hdata : data.length ≤ 258 := by
    cases e with
    | response data' sw' =>
        cases hsome
        exact hfits data sw he
    | display | decoded | derive | ecdsa | restart => cases hsome
  rw [frameOf, List.length_append, length_bytesBe]
  show data.length + 2 ≤ 260
  omega

/-- In every run `io.c` keeps within its buffer and is in the state the device has it in. What goes over the line to a host
that waits are the replies of the run, but those a new start drops, in their order, each with its status word behind it. -/
theorem line_carries_replies {waits : Bool} (run : Run (hostSystem pf waits) h d) :
    ∃ io frames, along h boot = .ret () io frames ∧ io.Agrees d ∧
      (waits = true → frames = (sentReplies h).map frameOf ∧ ∀ frame ∈ frames, frame.length ≤ ioApduBufferSize) := by
  induction run with
  | start init =>
      obtain ⟨secret, rfl⟩ := init
      exact ⟨boot, [], rfl, ⟨rfl, rfl, List.length_replicate, Nat.zero_le _⟩, fun _ => ⟨rfl, List.forall_mem_nil _⟩⟩
  | @step h d d' e w run admitted ret ih =>
      obtain ⟨io, frames, halong, hagrees, hframes⟩ := ih
      obtain ⟨_, io', frames', hstep, hagrees', hsent⟩ := exists_ret_of_wp (follows_of_ret hagrees ret)
      refine ⟨io', frames ++ frames', ?_, hagrees', ?_⟩
      · show (along h).andThen (fun _ => step ⟨d, e, w, d'⟩) boot = _
        unfold Prog.andThen
        rw [halong]
        dsimp only
        rw [hstep]
        rfl
      · rintro rfl
        obtain ⟨hearlier, hshort⟩ := hframes rfl
        have hnew := hsent (run_disciplined run) fun o raw he => admitted rfl o raw he
        constructor
        · rw [hearlier, hnew, sentReplies, sentReplies, List.reverse_cons, List.flatMap_append, List.flatMap_singleton,
            List.map_append]
        · intro frame hmem
          rcases List.mem_append.mp hmem with hmem | hmem
          · exact hshort frame hmem
          · rw [hnew] at hmem
            obtain ⟨reply, hreply, rfl⟩ := List.mem_map.mp hmem
            exact fits_of_ret ret reply hreply

/-- The version, the public key on an approval of its screen, and the refusal of an output. -/
theorem line_carries_replies_presses :
    ∃ h d io frames, Run (hostSystem countingPlatform true) h d ∧ along h boot = .ret () io frames ∧
      (h.reverse.map fun r => r.event.isCommand) = [true, true, false, true, false] ∧
      frames = [[72, 84, 82, 1, 1, 2, 0x90, 0x00], List.replicate 101 0 ++ [0x90, 0x00], [0x69, 0x85]] := by
  obtain ⟨h, r, _, run, hP⟩ := exists_step_of_play countingPlatform true []
    [.apdu (.allOk []) [0xE0, 0x03, 0, 0, 0], .apdu (.allOk []) [0xE0, 0x05, 0, 0, 5, 1, 0x80, 0, 0, 44], press true,
      signTxData 0 ([0, 0, 1, 0, 0, 1] ++ sampleOutput 7)] (press false)
    (fun h r => ((r :: h).reverse.map fun r => r.event.isCommand) = [true, true, false, true, false] ∧
      sentReplies (r :: h) = [([72, 84, 82, 1, 1, 2], swOk), (List.replicate 101 0, swOk), ([], swDeny)])
    (by decide +kernel)
  obtain ⟨hevents, hsent⟩ := of_decide_eq_true hP
  obtain ⟨io, frames, halong, _, hframes⟩ := line_carries_replies run
  refine ⟨r :: h, r.post, io, frames, run, halong, hevents, (hframes rfl).1.trans ?_⟩
  rw [hsent]
  decide

end Run

end Io

end HathorApp
