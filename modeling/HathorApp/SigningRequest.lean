import HathorApp.ApprovedScreens
import HathorApp.ChangeAddress
import HathorApp.ChangeInfo
import HathorApp.StreamCut

/-!
A transaction as the host sends it: the change info, the header and the elements, in chunks. The first chunk opens a session
for it, every later one goes on with it, and both leave the outputs that are complete so far decoded and the new ones saved.
-/

namespace HathorApp

open ProgramLogic StreamDecoder

/-- The change info of `read_change_info`: none, an entry of the older form, or a counted list. -/
inductive EncodesChanges : List ChangeOutputInfo → Bytes → Prop where
  | none : EncodesChanges [] [0]
  | single {info : ChangeOutputInfo} (encodable : info.Encodable) : EncodesChanges [info]
      (oldProtoBytes info.path.length (UInt8.ofNat info.index) (info.path.flatMap (bytesBe 4)))
  | counted {infos : List ChangeOutputInfo} (encodable : ∀ info ∈ infos, info.Encodable) :
      EncodesChanges infos (serializeChangeInfo infos)

/-- Version, tokens, inputs and outputs. -/
def txHeader (version : Bytes) (e : TxElements) : Bytes :=
  version ++ [UInt8.ofNat e.uids.length, UInt8.ofNat e.inputs.length, UInt8.ofNat e.outputs.length]

/-- A transaction with its change entries, cut into a first chunk that holds the change info and the header, and later chunks
with an argument other than 0. -/
structure SigningRequest where
  version : Bytes
  elements : TxElements
  changes : List ChangeOutputInfo
  changeInfo : Bytes
  rest : Bytes
  later : List (UInt8 × Bytes)
  length_version : version.length = 2
  encodes : EncodesChanges changes changeInfo
  outputs_pos : 0 < elements.outputs.length
  uids_le : elements.uids.length ≤ txMaxTokens
  inputs_lt : elements.inputs.length < 2 ^ 8
  outputs_lt : elements.outputs.length < 2 ^ 8
  in_range : ∀ info ∈ changes, info.index < elements.outputs.length
  whole : rest ++ (later.map Prod.snd).flatten = elements.serialize
  first_fits : (changeInfo ++ (txHeader version elements ++ rest)).length ≤ 255
  later_fits : ∀ c ∈ later, c.1 ≠ 0 ∧ c.2 ≠ [] ∧ c.2.length ≤ 255

namespace SigningRequest

def first (q : SigningRequest) : Bytes := q.changeInfo ++ (txHeader q.version q.elements ++ q.rest)

/-- The indices of the change entries. -/
def indices (q : SigningRequest) : List Nat := q.changes.map (·.index)

/-- The outputs that are not in the change list, in their order. -/
def toConfirm (q : SigningRequest) : List TxOutput := q.elements.numbered.filter (·.index ∉ q.indices)

/-- The transaction is well-formed for a registry, and its change entries verify. -/
structure Acceptable (pf : Platform) (registry : TokenDataCtx) (q : SigningRequest) : Prop where
  known : ∀ uid ∈ q.elements.uids, findTokenRegistryIndex registry uid ≠ none
  noAuthority : ∀ o ∈ q.elements.outputs, o.output.tokenData &&& tokenDataAuthorityMask = 0
  inTable : ∀ o ∈ q.elements.outputs, o.output.tokenIndex ≤ q.elements.uids.length
  verify : ∀ info ∈ q.changes, ∀ output, q.elements.numbered[info.index]? = some output →
    pathHash pf info.path = output.pubkeyHash

/-- The state of the stream behind the header. -/
def start (q : SigningRequest) : TxState := ⟨[], q.elements.uids.length, q.elements.inputs.length, []⟩

end SigningRequest

section Works

variable {pf : Platform} {o : Outcome}

/-- Whether an output pays to the key of a change entry. -/
def paysTo (pf : Platform) (info : ChangeOutputInfo) (output : TxOutput) : Option Bool :=
  some (decide (pathHash pf info.path = output.pubkeyHash))

theorem verifyChange_works (ho : o.Works) : verifyChange pf o = paysTo pf := by
  funext info output
  unfold verifyChange pubkeyHashOf derivePrivateKey initPublicKey hash160 cxHashSha256 cxHashRipemd160
  simp only [ho _, if_true]
  rfl

theorem SigningRequest.Acceptable.accepted {registry : TokenDataCtx} {q : SigningRequest} (h : q.Acceptable pf registry) :
    q.elements.Accepted (paysTo pf) registry q.changes := by
  refine ⟨h.known, h.noAuthority, h.inTable, fun output hmem info hinfo hindex => ?_⟩
  obtain ⟨i, hi⟩ := List.mem_iff_getElem?.mp hmem
  have hplace := TxElements.index_numbered hi
  rw [paysTo, Option.some.injEq, decide_eq_true_iff]
  apply h.verify info hinfo
  rw [← hindex, hplace, hi]

end Works

/-- A decoder call comes to where its machine stops. -/
theorem decodeElements_takes {verify : ChangeOutputInfo → TxOutput → Option Bool} {registry : TokenDataCtx} {tx : SignTxCtx}
    {s s' : TxState} {tail : Bytes} (hrep : tx.Represents s)
    (hroom : 32 * tx.bufferOutputLen + tx.buffer.length ≤ decodeBufferLen)
    (htokens : tx.tokens.length + tx.remainingTokens ≤ txMaxTokens)
    (hverdict : decodeVerdict verify registry tx s = .rest s' tail) :
    ∃ w, Silent w ∧ decodeElements verify registry tx = .ret txStateReady (tx.took s' tail) w := by
  have hwp : wp (decodeElements verify registry)
      (fun result tx' w => result = txStateReady ∧ tx' = tx.took s' tail ∧ Silent w) (fun _ _ _ => False) False tx := by
    refine wp_mono (decodeElements_spec verify registry hrep hroom) ?_ (fun _ _ _ h => h) ?_
    · rintro result tx' w ⟨hsilent, hresult⟩
      obtain ⟨rfl, s₁, tail₁, hrest, rfl, _⟩ | ⟨_, hrejected⟩ | ⟨_, hrejected, _⟩ := hresult
      · rw [hverdict] at hrest
        cases hrest
        exact ⟨rfl, rfl, hsilent⟩
      · rw [hverdict] at hrejected
        cases hrejected
      · rw [hverdict] at hrejected
        cases hrejected
    · exact fun hover => absurd (hover.many hrep) (Nat.not_lt.mpr htokens)
  obtain ⟨_, _, w, hrun, rfl, rfl, hsilent⟩ := exists_ret_of_wp hwp
  exact ⟨w, hsilent, hrun⟩

/-- A chunk is on the decode buffer. The outputs before the `k`-th are decoded and reviewed, and the bytes up to the `n`-th
are received. -/
structure SignTxCtx.Loaded (pf : Platform) (registry : TokenDataCtx) (q : SigningRequest) (k n : Nat) (tx : SignTxCtx) :
    Prop where
  changes : tx.changes = q.changes
  changeLen : tx.changeLen = q.changes.length
  outputsLen : tx.outputsLen = q.elements.outputs.length
  slots : tx.outputs.length = outputSlots
  saved : tx.bufferOutputLen = 0
  shown : tx.displayIndex = 0
  current : tx.currentOutput = k
  confirmed : tx.confirmedOutputs = k
  room : tx.buffer.length ≤ decodeBufferLen
  hashing : tx.sha256 ≠ none
  decodes : ∃ s, tx.Represents s ∧ s.tokens.length + s.remainingTokens ≤ txMaxTokens ∧
    (tx.buffer ≠ [] ∨ nextElement (paysTo pf) registry q.changes q.elements.outputs.length s tx.buffer = .more) ∧
    (txMachine (paysTo pf) registry q.changes q.elements.outputs.length).run s tx.buffer =
      (txMachine (paysTo pf) registry q.changes q.elements.outputs.length).run q.start (q.elements.serialize.take n)

/-- A session that has decoded what is complete within so many bytes. The new outputs are saved. -/
structure SignTxCtx.Decoded (pf : Platform) (registry : TokenDataCtx) (q : SigningRequest) (k n : Nat) (tx : SignTxCtx) :
    Prop where
  changes : tx.changes = q.changes
  changeLen : tx.changeLen = q.changes.length
  outputsLen : tx.outputsLen = q.elements.outputs.length
  slots : tx.outputs.length = outputSlots
  saved : tx.bufferOutputLen = q.elements.complete n - k
  shown : tx.displayIndex = 0
  current : tx.currentOutput = q.elements.complete n
  confirmed : tx.confirmedOutputs = k
  grown : k ≤ q.elements.complete n
  hashing : tx.sha256 ≠ none
  tokens : 0 < q.elements.complete n → tx.tokens = q.elements.slots registry
  reviews : tx.Reviews q.elements.numbered
  represents : ∃ s, tx.Represents s ∧ s.tokens.length + s.remainingTokens ≤ txMaxTokens ∧
    (txMachine (paysTo pf) registry q.changes q.elements.outputs.length).run q.start (q.elements.serialize.take n) =
      .rest s tx.buffer

section Decode

variable {pf : Platform} {o : Outcome} {registry : TokenDataCtx} {q : SigningRequest} {k n : Nat} {tx : SignTxCtx}

theorem SignTxCtx.Loaded.takes (h : tx.Loaded pf registry q k n) (hq : q.Acceptable pf registry)
    (hcount : q.changes.length ≤ 1 + txMaxTokens) :
    ∃ w tx', Silent w ∧ decodeElements (paysTo pf) registry tx = .ret txStateReady tx' w ∧
      tx'.Decoded pf registry q k n := by
  obtain ⟨s, hrep, htokens, hask, hrun⟩ := h.decodes
  obtain ⟨s', tail, hcut, houtputs, htable⟩ := run_cut hq.accepted n
  have hrest : (txMachine (paysTo pf) registry q.changes q.elements.outputs.length).run s tx.buffer = .rest s' tail :=
    hrun.trans hcut
  have hverdict : decodeVerdict (paysTo pf) registry tx s = .rest s' tail := by
    unfold decodeVerdict
    rw [h.changes, h.outputsLen, Machine.ask_eq_run _ hask]
    exact hrest
  have hbuffer := h.room
  have hsaved := h.saved
  have hslots := h.slots
  have hten : outputSlots = 10 := rfl
  have hlimit : decodeBufferLen = 300 := rfl
  have hall := q.elements.complete_le n
  have hbyte := q.outputs_lt
  have hold : s.outputs.length = k := by
    rw [← hrep.currentOutput]
    exact h.current
  have hnew : s'.outputs.length = q.elements.complete n := by
    rw [houtputs, List.length_take, q.elements.length_numbered]
    omega
  have hgrow := (run_outputs_grow hrest).length_le
  have hroom := run_room hrest
  have hsum := run_tokens_add hrest
  obtain ⟨w, hsilent, hdecode⟩ := decodeElements_takes hrep (by omega)
    (by rw [hrep.tokens, hrep.remainingTokens]; exact htokens) hverdict
  have hlast : (s'.outputs.drop tx.currentOutput).length = q.elements.complete n - k := by
    rw [List.length_drop, hnew, h.current]
  have hbehind : tx.bufferOutputLen + (s'.outputs.drop tx.currentOutput).length = q.elements.complete n - k := by omega
  have hcurrent : (tx.took s' tail).currentOutput = q.elements.complete n := hnew
  have hsavedLen : (tx.took s' tail).bufferOutputLen = q.elements.complete n - k := hbehind
  have hshown : (tx.took s' tail).displayIndex = 0 := h.shown
  have hconfirmed : (tx.took s' tail).confirmedOutputs = k := h.confirmed
  have houtputsLen : (tx.took s' tail).outputsLen = q.elements.outputs.length := h.outputsLen
  have hchangeLen : (tx.took s' tail).changeLen = q.changes.length := h.changeLen
  have hchanges : (tx.took s' tail).changes = q.changes := h.changes
  refine ⟨w, _, hsilent, hdecode, hchanges, hchangeLen, houtputsLen, (length_fillSlots _ _ _).trans hslots, hsavedLen, hshown,
    hcurrent, hconfirmed, by omega, h.hashing, htable, ⟨⟨by omega, by omega, by omega, by omega, by omega⟩, by omega, by omega,
    ?_, ?_⟩, s', SignTxCtx.Represents.took tx s' tail, by omega, hcut⟩
  · intro i hi
    unfold SignTxCtx.changeIndices at hi
    rw [hchanges] at hi
    obtain ⟨info, hinfo, rfl⟩ := List.mem_map.mp hi
    rw [houtputsLen]
    exact q.in_range info hinfo
  · intro j hj
    have hslot := @getElem?_fillSlots tx.outputs 0 j (s'.outputs.drop tx.currentOutput) (by omega) (by omega)
    have hindex : (tx.took s' tail).currentOutput - (tx.took s' tail).bufferOutputLen + j = k + j := by omega
    have hfilled : (tx.took s' tail).outputs[j]? = (fillSlots tx.outputs 0 (s'.outputs.drop tx.currentOutput))[0 + j]? := by
      rw [Nat.zero_add, ← hsaved]
      rfl
    rw [hindex, hfilled, hslot, List.getElem?_drop, h.current, houtputs, List.getElem?_take_of_lt (by omega)]

/-- The outputs of a chunk are put up, or more data is requested. -/
theorem decodeChunk_loaded {d : Device} {m : Nat} (h : d.tx.Loaded pf d.gTokenSymbols q k n)
    (hq : q.Acceptable pf d.gTokenSymbols) (ho : o.Works) (hcount : q.changes.length ≤ 1 + txMaxTokens)
    (hreq : d.gContext.reqType = .confirmTransaction) (hstop : StopsAt q.indices k (q.elements.complete n) m) :
    ∃ w tx', Silent w ∧ tx'.Decoded pf d.gTokenSymbols q k n ∧
      decodeChunk pf o d =
        if q.elements.complete n = k then .ret true { d.withTx tx' with gIoState := .ready } (w ++ [.response [] swOk])
        else restsIn true ((presented pf q.elements.numbered (d.withTx tx') m).map fun r => (r.1, w ++ r.2)) := by
  obtain ⟨w, tx', hsilent, hdecode, hdecoded⟩ := h.takes hq hcount
  refine ⟨w, tx', hsilent, hdecoded, ?_⟩
  have hgrown := hdecoded.grown
  have hsaved := hdecoded.saved
  apply eq_of_wp
  unfold decodeChunk
  rw [verifyChange_works ho, wp_bind, wp_get, wp_bind, wp_onTx, wp_of_ret hdecode, if_neg (by decide), if_pos rfl, wp_bind,
    wp_get, Device.tx_withTx]
  by_cases hnone : q.elements.complete n = k
  · rw [if_neg (by omega), if_pos hnone, wp_bind, wp_ioSendSw, wp_pure]
    rfl
  · have hstop' : StopsAt (d.withTx tx').tx.changeIndices (d.withTx tx').tx.confirmedOutputs
        (d.withTx tx').tx.currentOutput m := by
      rw [Device.tx_withTx, SignTxCtx.changeIndices, hdecoded.changes, hdecoded.confirmed, hdecoded.current]
      exact hstop
    have hdisplay := uiDisplayTxOutputs_presents (d := d.withTx tx') pf ho hdecoded.reviews hreq hstop'
    rw [if_pos (by omega), if_neg hnone, wp_bind]
    cases hresult : presented pf q.elements.numbered (d.withTx tx') m with
    | none =>
        rw [hresult] at hdisplay
        rw [wp_of_overrun hdisplay]
        rfl
    | some result =>
        rw [hresult] at hdisplay
        rw [wp_of_ret hdisplay, wp_pure, List.append_nil, List.nil_append]
        rfl

end Decode

/-- A data command of SIGN_TX. -/
def dataCommand (chunk : UInt8) (data : Bytes) : Bytes := [0xE0, 0x06, 0, chunk, UInt8.ofNat data.length] ++ data

/-- The application waits for the next command, or for the user. -/
def Device.resting (d : Device) : Device :=
  if d.gIoState = .ready then { d with gIoState := .received, exchange := .apdu }
  else { d with gIoState := .waiting, exchange := .asynchReply }

theorem ioRecvCommand_resting {d : Device} (h : d.gIoState ≠ .waiting) : ioRecvCommand d = .ret () d.resting [] := by
  apply eq_ret_of_wp
  unfold ioRecvCommand Device.resting
  rw [wp_bind, wp_get]
  cases hio : d.gIoState with
  | ready => exact ⟨rfl, rfl, rfl⟩
  | received => exact ⟨rfl, rfl, rfl⟩
  | waiting => exact absurd hio h

section Command

variable {pf : Platform} {o : Outcome} {chunk : UInt8} {data : Bytes}

theorem apduParser_dataCommand (hlen : data.length ≤ 255) :
    apduParser (dataCommand chunk data) = some ⟨0xE0, 0x06, 0, chunk.toNat, data⟩ := by
  have hbyte : (UInt8.ofNat data.length).toNat = data.length := UInt8.toNat_ofNat_of_lt' (Nat.lt_succ_of_le hlen)
  have hlength : (dataCommand chunk data).length = data.length + 5 := by
    unfold dataCommand
    rw [List.length_append, Nat.add_comm]
    rfl
  have hcount : byteAt (dataCommand chunk data) 4 = data.length := hbyte
  unfold apduParser
  rw [hlength, hcount, if_neg (by omega)]
  rfl

variable {d d₁ d' : Device} {w : List Obs}

theorem apduDispatcher_dataCommand (hdata : data ≠ []) (n : Nat) :
    apduDispatcher pf o ⟨0xE0, 0x06, 0, n, data⟩ = handlerSignTx pf o (Buffer.ofData data) .data n := by
  have hdispatch : apduDispatcher pf o ⟨0xE0, 0x06, 0, n, data⟩ = dispatchSignTx pf o ⟨0xE0, 0x06, 0, n, data⟩ := rfl
  rw [hdispatch]
  unfold dispatchSignTx
  rw [if_neg (by simp), if_neg (by simpa using hdata)]
  rfl

theorem wp_handlerSignTx {n : Nat} (happroved : d.state ≠ .approved) (hopen : 0 < n → d.state = .recvData)
    {R : Int → Device → List Obs → Prop} {T : Nat → Device → List Obs → Prop} {F : Prop} :
    wp (handlerSignTx pf o (Buffer.ofData data) .data n) R T F (wake d) ↔
      wp (receiveData pf o (Buffer.ofData data) n) (fun b => R (if b then 0 else -1)) T F d.entered := by
  have hstate : d.entered.state = d.state := by
    unfold Device.entered
    show (wake d).gContext.state = d.state
    rw [wake_gContext]
  unfold handlerSignTx
  rw [wp_bind, wp_modify, wp_bind, wp_get, wake_resetCall]
  dsimp only
  rw [hstate, if_neg happroved, if_neg (by rintro ⟨hlater, hclosed⟩; exact hclosed (hopen hlater)), ← wp_accepted]
  simp only [List.nil_append]

section Handle

variable (hdata : data ≠ []) (hlen : data.length ≤ 255) (happroved : d.state ≠ .approved)
  (hopen : 0 < chunk.toNat → d.state = .recvData)
include hdata hlen happroved hopen

/-- A chunk that is taken and decoded. -/
theorem handle_takes (htake : takeChunk o (Buffer.ofData data) chunk.toNat d.entered = .ret () d₁ [])
    (hdecode : decodeChunk pf o d₁ = .ret true d' w) (hio : d'.gIoState ≠ .waiting) :
    handle pf (.apdu o (dataCommand chunk data)) d = .ret () d'.resting w := by
  apply eq_ret_of_wp
  show wp (handleCommand pf o (dataCommand chunk data)) _ _ _ d
  unfold handleCommand
  rw [wp_bind, wp_modify, wp_catchAll, apduParser_dataCommand hlen]
  dsimp only
  rw [wp_bind, apduDispatcher_dataCommand hdata, wp_handlerSignTx happroved hopen, receiveData, wp_bind, wp_of_ret htake,
    wp_of_ret hdecode, if_pos rfl, if_neg (by decide), wp_of_ret (ioRecvCommand_resting hio)]
  simp

/-- A chunk whose display runs out of an array. -/
theorem handle_overruns (htake : takeChunk o (Buffer.ofData data) chunk.toNat d.entered = .ret () d₁ [])
    (hdecode : decodeChunk pf o d₁ = .overrun) : handle pf (.apdu o (dataCommand chunk data)) d = .overrun := by
  apply eq_of_wp
  show wp (handleCommand pf o (dataCommand chunk data)) _ _ _ d
  unfold handleCommand
  rw [wp_bind, wp_modify, wp_catchAll, apduParser_dataCommand hlen]
  dsimp only
  rw [wp_bind, apduDispatcher_dataCommand hdata, wp_handlerSignTx happroved hopen, receiveData, wp_bind, wp_of_ret htake,
    wp_of_overrun hdecode]

/-- A chunk that is not taken. -/
theorem handle_refuses {e : Nat} (htake : takeChunk o (Buffer.ofData data) chunk.toNat d.entered = .throw e d₁ []) :
    handle pf (.apdu o (dataCommand chunk data)) d =
      .ret () { d₁ with gIoState := .received, exchange := .apdu } [.response [] e] := by
  apply eq_ret_of_wp
  show wp (handleCommand pf o (dataCommand chunk data)) _ _ _ d
  unfold handleCommand
  rw [wp_bind, wp_modify, wp_catchAll, apduParser_dataCommand hlen]
  dsimp only
  rw [wp_bind, apduDispatcher_dataCommand hdata, wp_handlerSignTx happroved hopen, receiveData, wp_bind, wp_of_throw htake]
  unfold replyException
  rw [wp_bind, wp_ioSendSw, wp_of_ret (ioRecvCommand_resting (by simp))]
  simp [Device.resting]

end Handle

end Command

section First

variable {infos : List ChangeOutputInfo} {bytes m : Bytes}

/-- Change info is read back, whatever follows it. -/
theorem EncodesChanges.read (h : EncodesChanges infos bytes) (hcount : infos.length ≤ txMaxTokens + 1) (d : Device)
    (hslots : d.tx.changeInfo.length = txMaxTokens + 1) (r : Bytes) :
    ∃ changeInfo, changeInfo.take infos.length = infos ∧ readChangeInfo (Buffer.ofData (bytes ++ r)) d =
      .ret (.at (bytes ++ r) bytes.length) (d.withChanges infos.length changeInfo) [] := by
  cases h with
  | none => exact ⟨d.tx.changeInfo, rfl, rfl⟩
  | @single info encodable =>
      have hdepth : info.path.length ≤ 5 := encodable.path.depth
      have hbytes : oldProtoBytes info.path.length (UInt8.ofNat info.index) (info.path.flatMap (bytesBe 4)) ++ r =
          oldProtoBytes info.path.length (UInt8.ofNat info.index) (info.path.flatMap (bytesBe 4) ++ r) := rfl
      have hread : bip32PathRead (UInt8.ofNat info.path.length :: (info.path.flatMap (bytesBe 4) ++ r))
          ((info.path.flatMap (bytesBe 4) ++ r).length + 1) [] = (true, info.path) := by
        apply bip32PathRead_serialize encodable.path encodable.levels
        rw [List.length_append, length_levels]
        omega
      have hpath : entryPath info.path.length (info.path.flatMap (bytesBe 4) ++ r) = some info.path := by
        unfold entryPath
        rw [hread]
      have hindex : (UInt8.ofNat info.index).toNat = info.index := UInt8.toNat_ofNat_of_lt' encodable.index
      have hlength : (oldProtoBytes info.path.length (UInt8.ofNat info.index) (info.path.flatMap (bytesBe 4))).length =
          2 + 4 * info.path.length := by
        rw [oldProtoBytes, List.length_cons, List.length_cons, length_levels]
        omega
      rw [hbytes, hlength]
      rcases (readChangeInfo_old (n := info.path.length) (by omega) d).run with ⟨path, hsome, hrun⟩ | ⟨hnone, _⟩
      · rw [hpath, Option.some.injEq] at hsome
        rw [hindex, ← hsome] at hrun
        refine ⟨_, ?_, hrun⟩
        obtain ⟨old, rest, hslot⟩ : ∃ old rest, d.tx.changeInfo = old :: rest :=
          List.exists_cons_of_length_pos (by rw [hslots]; decide)
        rw [hslot]
        rfl
      · rw [hpath] at hnone
        cases hnone
  | counted encodable =>
      exact ⟨_, List.take_left, readChangeInfo_serialize infos encodable hcount d hslots r⟩

theorem cxHashNoThrow_works {o : Outcome} (ho : o.Works) (m data : Bytes) : cxHashNoThrow o (some m) data = some (m ++ data) :=
  if_pos (ho _)

/-- A first chunk of change info and a header opens a session. -/
theorem EncodesChanges.takeChunk (h : EncodesChanges infos bytes) (hcount : infos.length ≤ txMaxTokens + 1) {o : Outcome}
    (ho : o.Works) (hheader : 5 ≤ m.length) (hfits : (bytes ++ m).length ≤ decodeBufferLen) (d : Device)
    (hstate : d.state ≠ .recvData) :
    ∃ changeInfo, changeInfo.take infos.length = infos ∧ HathorApp.takeChunk o (Buffer.ofData (bytes ++ m)) 0 d =
      .ret () ((initSignTxCtx d).withTx (startedTx infos.length changeInfo m)) [] := by
  have hlimit : decodeBufferLen = 300 := rfl
  have hlength : (bytes ++ m).length = bytes.length + m.length := List.length_append
  obtain ⟨changeInfo, htake, hread⟩ := h.read hcount (initSignTxCtx d) rfl m
  have hctx : ((initSignTxCtx d).withChanges infos.length changeInfo).tx.sha256 = some [] := rfl
  refine ⟨changeInfo, htake, ?_⟩
  apply eq_ret_of_wp
  unfold HathorApp.takeChunk
  rw [if_pos rfl, wp_bind, wp_get, if_neg hstate, wp_bind, wp_modify, wp_bind, wp_of_ret hread, wp_bind, sighashAllHash_at, hctx,
    List.drop_left, cxHashNoThrow_works ho]
  dsimp only
  rw [wp_bind]
  refine wp_mono (readTxData_spec (by omega) (by omega) _) ?_ ?_ id
  · rintro cdata d₂ w ⟨rfl, _, rfl, rfl⟩
    rw [wp_onTx, wp_copyToDecodeBuffer, if_neg]
    · refine ⟨rfl, ?_, rfl⟩
      have hbyte : ∀ i, byteAt (bytes ++ m) (bytes.length + i) = byteAt m i := by
        intro i
        simp only [byteAt, List.getD_eq_getElem?_getD, List.getElem?_append_right (Nat.le_add_right _ _), Nat.add_sub_cancel_left]
      simp only [startedTx, readU16Be, hbyte, List.drop_length_add_append]
      rfl
    · show ¬(bytes ++ m).length - (bytes.length + 5) > decodeBufferLen - 0
      omega
  · rintro e d₂ w ⟨_, _, _, _, _, hshort, _⟩
    omega

/-- A list of more entries than there are slots is refused. -/
theorem takeChunk_many {o : Outcome} (hmany : txMaxTokens + 1 < infos.length) (hbyte : infos.length < 2 ^ 8) (d : Device)
    (hstate : d.state ≠ .recvData) :
    ∃ d₁, takeChunk o (Buffer.ofData (serializeChangeInfo infos ++ m)) 0 d = .throw swWrongDataLength d₁ [] ∧
      d₁.flow = d.flow := by
  have hcount : (UInt8.ofNat infos.length).toNat = infos.length := UInt8.toNat_ofNat_of_lt' hbyte
  have hstart : (serializeChangeInfo infos ++ m).drop 0 =
      1 :: (UInt8.ofNat infos.length :: (infos.flatMap ChangeOutputInfo.serialize ++ m)) := rfl
  obtain ⟨hversion, hbehind⟩ := bufferReadU8_head hstart (by decide)
  obtain ⟨hlen, _⟩ := bufferReadU8_head hbehind (by decide)
  rw [hcount] at hlen
  have hversion' : bufferReadU8 (Buffer.ofData (serializeChangeInfo infos ++ m)) = _ := hversion
  have hwp : wp (takeChunk o (Buffer.ofData (serializeChangeInfo infos ++ m)) 0) (fun _ _ _ => False)
      (fun e d₁ w => e = swWrongDataLength ∧ d₁.flow = d.flow ∧ w = []) False d := by
    unfold takeChunk readChangeInfo readChangeInfoV1
    rw [if_pos rfl, wp_bind, wp_get, if_neg hstate, wp_bind, wp_modify, wp_bind]
    simp only [hversion', Bool.not_true, Bool.false_eq_true, if_false]
    rw [if_neg (by decide), if_neg (by decide), if_pos (by decide)]
    simp only [hlen, wp_bind, wp_modify, Bool.not_true, Bool.false_eq_true, if_false]
    rw [if_pos hmany]
    exact ⟨rfl, rfl, rfl⟩
  unfold wp at hwp
  cases hrun : takeChunk o (Buffer.ofData (serializeChangeInfo infos ++ m)) 0 d with
  | ret _ d₁ w =>
      rw [hrun] at hwp
      exact hwp.elim
  | throw e d₁ w =>
      rw [hrun] at hwp
      obtain ⟨rfl, hflow, rfl⟩ := hwp
      exact ⟨d₁, rfl, hflow⟩
  | overrun =>
      rw [hrun] at hwp
      exact hwp.elim

end First

section Session

variable {pf : Platform} {o : Outcome} {q : SigningRequest} {k n : Nat} {d : Device}

/-- A session whose chunk is on the decode buffer. -/
structure Device.HasChunk (pf : Platform) (q : SigningRequest) (k n : Nat) (d : Device) : Prop where
  state : d.state = .recvData
  request : d.gContext.reqType = .confirmTransaction
  closed : d.flow.asks = false
  io : d.gIoState = .received
  loaded : d.tx.Loaded pf d.gTokenSymbols q k n

/-- A session that has asked for more data. -/
structure Device.Awaits (pf : Platform) (q : SigningRequest) (n : Nat) (d : Device) : Prop where
  state : d.state = .recvData
  request : d.gContext.reqType = .confirmTransaction
  closed : d.flow.asks = false
  io : (wake d).gIoState = .received
  decoded : ∃ (k : Nat) (tx : SignTxCtx), tx.Decoded pf d.gTokenSymbols q k n ∧ d.tx = tx.reviewed

/-- Nothing is decoded of no bytes. -/
theorem nextElement_nil {verify : ChangeOutputInfo → TxOutput → Option Bool} {registry : TokenDataCtx}
    {changes : List ChangeOutputInfo} {outputsLen : Nat} {s : TxState} (h : s.outputs.length < outputsLen) :
    nextElement verify registry changes outputsLen s [] = .more := by
  unfold nextElement
  rw [if_pos h]
  split
  · rfl
  · split
    · rfl
    · rfl

/-- The first chunk is on the decode buffer. -/
theorem SigningRequest.hasChunk_first (q : SigningRequest) (hcount : q.changes.length ≤ txMaxTokens + 1) (ho : o.Works)
    (hstate : d.state ≠ .recvData) (hclosed : d.flow.asks = false) (hio : (wake d).gIoState = .received) :
    ∃ d₁, takeChunk o (Buffer.ofData q.first) 0 d.entered = .ret () d₁ [] ∧ d₁.HasChunk pf q 0 q.rest.length ∧
      d₁.gTokenSymbols = d.gTokenSymbols := by
  have hmax : txMaxTokens = 10 := rfl
  have huids := q.uids_le
  have hfits := q.first_fits
  have hversion := q.length_version
  have hlength : (txHeader q.version q.elements ++ q.rest).length = 5 + q.rest.length := by
    simp only [txHeader, List.length_append, List.length_cons, List.length_nil, hversion]
  obtain ⟨changeInfo, htake, hrun⟩ := q.encodes.takeChunk hcount ho (m := txHeader q.version q.elements ++ q.rest) (by omega)
    (Nat.le_trans hfits (by decide)) d.entered (by rw [entered_state]; exact hstate)
  refine ⟨_, hrun, ⟨rfl, rfl, ?_, hio, ?_⟩, wake_gTokenSymbols d⟩
  · show d.entered.flow.asks = false
    rw [entered_flow]
    exact hclosed
  · obtain ⟨a, b, hab⟩ := List.length_eq_two.mp hversion
    have hheader : ∀ r : Bytes, txHeader q.version q.elements ++ r = a :: b :: UInt8.ofNat q.elements.uids.length ::
        UInt8.ofNat q.elements.inputs.length :: UInt8.ofNat q.elements.outputs.length :: r := by
      intro r
      rw [txHeader, hab]
      rfl
    have hbytes : ∀ i < 2 ^ 8, (UInt8.ofNat i).toNat = i := fun i hi => UInt8.toNat_ofNat_of_lt' hi
    have hbuffer : (startedTx q.changes.length changeInfo (txHeader q.version q.elements ++ q.rest)).buffer = q.rest := by
      rw [hheader]
      rfl
    have hstart : (startedTx q.changes.length changeInfo (txHeader q.version q.elements ++ q.rest)).Represents q.start := by
      refine ⟨rfl, ?_, ?_, rfl⟩
      · rw [hheader]
        exact hbytes _ (by omega)
      · rw [hheader]
        exact hbytes _ q.inputs_lt
    refine ⟨htake, rfl, ?_, rfl, rfl, rfl, rfl, rfl, ?_, by rintro ⟨⟩, q.start, hstart, ?_, ?_, ?_⟩
    · show (startedTx q.changes.length changeInfo (txHeader q.version q.elements ++ q.rest)).outputsLen = _
      rw [hheader]
      exact hbytes _ q.outputs_lt
    · rw [Device.tx_withTx, hbuffer]
      have hwhole : (q.changeInfo ++ (txHeader q.version q.elements ++ q.rest)).length = q.changeInfo.length +
        (txHeader q.version q.elements ++ q.rest).length := List.length_append
      have hlimit : decodeBufferLen = 300 := rfl
      omega
    · show ([] : List Nat).length + q.elements.uids.length ≤ txMaxTokens
      rw [List.length_nil, Nat.zero_add]
      exact huids
    · rw [Device.tx_withTx, hbuffer]
      by_cases hrest : q.rest = []
      · rw [hrest]
        exact Or.inr (nextElement_nil q.outputs_pos)
      · exact Or.inl hrest
    · rw [Device.tx_withTx, hbuffer, ← q.whole, List.take_left]

/-- A later chunk is on the decode buffer behind what was left there. -/
theorem Device.Awaits.hasChunk (h : d.Awaits pf q n) {chunk : Nat} (hchunk : 0 < chunk) (ho : o.Works) {c : Bytes}
    (hc : c ≠ []) (hlen : c.length ≤ 255) (hnext : q.elements.serialize.take (n + c.length) = q.elements.serialize.take n ++ c) :
    ∃ d₁, takeChunk o (Buffer.ofData c) chunk d.entered = .ret () d₁ [] ∧
      d₁.HasChunk pf q (q.elements.complete n) (n + c.length) ∧ d₁.gTokenSymbols = d.gTokenSymbols := by
  obtain ⟨k, tx, hdecoded, htx⟩ := h.decoded
  obtain ⟨s, hrep, htokens, hrun⟩ := hdecoded.represents
  obtain ⟨m, hm⟩ := Option.ne_none_iff_exists'.mp hdecoded.hashing
  have hentered : d.entered.tx = tx.reviewed := by
    show d.tx.resetCall = _
    rw [htx]
    rfl
  have hsha : d.entered.tx.sha256 = some m := by
    rw [hentered]
    exact hm
  have hbuffer : d.entered.tx.buffer = tx.buffer := by
    rw [hentered]
    rfl
  have htail := run_tail_length hrun
  have hlimit : decodeBufferLen = 300 := rfl
  have hhash : cxHashNoThrow o d.entered.tx.sha256 c = some (m ++ c) := by
    rw [hsha]
    exact cxHashNoThrow_works ho m c
  refine ⟨_, takeChunk_later_ret o hchunk d.entered hhash (by rw [hbuffer]; omega), ⟨?_, ?_, ?_, h.io, ?_⟩, wake_gTokenSymbols d⟩
  · show d.entered.state = .recvData
    rw [entered_state]
    exact h.state
  · show (wake d).gContext.reqType = .confirmTransaction
    rw [wake_gContext]
    exact h.request
  · show d.entered.flow.asks = false
    rw [entered_flow]
    exact h.closed
  · rw [Device.tx_withTx, hentered]
    have hnew : tx.buffer ++ c ≠ [] := by simp [hc]
    refine ⟨hdecoded.changes, hdecoded.changeLen, hdecoded.outputsLen, hdecoded.slots, rfl, rfl, hdecoded.current,
      hdecoded.current, ?_, by rintro ⟨⟩, s,
      ⟨hrep.tokens, hrep.remainingTokens, hrep.remainingInputs, hrep.currentOutput⟩, htokens, Or.inl hnew, ?_⟩
    · show (tx.buffer ++ c).length ≤ decodeBufferLen
      rw [List.length_append]
      omega
    · have hregistry : (d.entered.withTx ((tx.reviewed.hashed (m ++ c)).received c)).gTokenSymbols = d.gTokenSymbols :=
        wake_gTokenSymbols d
      rw [hregistry, hnext, Machine.run_append _ q.start, hrun, Machine.feed_rest]
      rfl

end Session

end HathorApp
