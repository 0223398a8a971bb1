import HathorApp.Replies
import HathorApp.TokenTable
import HathorApp.Transcript

/-!
The confirmation of a session, output by output, for a host that waits for each reply. The two cursors stay where the
saved outputs put them, and every output they have passed was approved on screen or is a change output that verified,
unless a press moves them past the end of the saved outputs: `ui_confirm_output` skips change outputs before it looks
whether another output is saved, and the next one may be a change output that is still to come.
-/

namespace HathorApp

open ProgramLogic StreamDecoder TraceRun

/-- The cursors point into the saved outputs, which are the last ones decoded. -/
structure SignTxCtx.Aligned (tx : SignTxCtx) : Prop where
  aligned : tx.confirmedOutputs + tx.bufferOutputLen = tx.currentOutput + tx.displayIndex
  shown : tx.displayIndex ≤ tx.bufferOutputLen
  declared : tx.currentOutput ≤ tx.outputsLen
  byte : tx.outputsLen < 2 ^ 8
  slots : tx.bufferOutputLen ≤ outputSlots

theorem SignTxCtx.Aligned.advance {tx : SignTxCtx} (h : tx.Aligned) (hmore : tx.displayIndex < tx.bufferOutputLen) :
    tx.advance.Aligned ∧ tx.advance.displayIndex = tx.displayIndex + 1 ∧
      tx.advance.confirmedOutputs = tx.confirmedOutputs + 1 := by
  have haligned := h.aligned
  have hdeclared := h.declared
  have hbyte := h.byte
  have hslots := h.slots
  have hten : outputSlots = 10 := rfl
  have hshown : tx.advance.displayIndex = tx.displayIndex + 1 := u8_of_lt (by omega)
  have hconfirmed : tx.advance.confirmedOutputs = tx.confirmedOutputs + 1 := u8_of_lt (by omega)
  refine ⟨⟨?_, ?_, hdeclared, hbyte, hslots⟩, hshown, hconfirmed⟩
  · have hsame : tx.advance.bufferOutputLen = tx.bufferOutputLen := rfl
    have hsame' : tx.advance.currentOutput = tx.currentOutput := rfl
    omega
  · have hsame : tx.advance.bufferOutputLen = tx.bufferOutputLen := rfl
    omega

/-- Skipping keeps the cursors within the saved outputs, if it does not start at their end, and passes change outputs
only. -/
theorem SkipsTo.passes {start tx : SignTxCtx} (h : SkipsTo start tx) (hstart : start.Aligned)
    (hfirst : start.Open ∨ start.confirmedOutputs ∉ start.changeIndices) :
    tx.Aligned ∧ start.confirmedOutputs ≤ tx.confirmedOutputs ∧
      ∀ i, start.confirmedOutputs ≤ i → i < tx.confirmedOutputs → i ∈ start.changeIndices := by
  induction h with
  | refl => exact ⟨hstart, Nat.le_refl _, fun i hle hlt => absurd hle (Nat.not_le.mpr hlt)⟩
  | @skip tx skips inside change ih =>
      obtain ⟨haligned, hle, hpassed⟩ := ih
      have hopen : tx.Open := by
        rcases inside with rfl | hopen
        · exact hfirst.resolve_right fun h => h change
        · exact hopen
      have hmore : tx.displayIndex < tx.bufferOutputLen := Nat.lt_of_le_of_ne haligned.shown hopen.2
      obtain ⟨haligned', _, hconfirmed⟩ := haligned.advance hmore
      refine ⟨haligned', by omega, fun i hi hlt => ?_⟩
      by_cases hlast : i = tx.confirmedOutputs
      · rw [hlast, ← skips.changeIndices]
        exact change
      · exact hpassed i hi (by omega)

/-- Approve is pressed on the last of the saved outputs, and the output behind it is in the change list: the cursors are
moved past an output that is not there. -/
structure SlipsPast (d : Device) (e : Event) : Prop where
  press : ∃ o, e = .press o true
  flow : d.flow = .txOutput
  last : d.tx.displayIndex + 1 = d.tx.bufferOutputLen
  change : d.tx.confirmedOutputs + 1 ∈ d.tx.changeIndices

instance (d : Device) : ∀ e, Decidable (SlipsPast d e)
  | .press o true =>
    decidable_of_iff (d.flow = .txOutput ∧ d.tx.displayIndex + 1 = d.tx.bufferOutputLen ∧
        d.tx.confirmedOutputs + 1 ∈ d.tx.changeIndices)
      ⟨fun h => ⟨⟨o, rfl⟩, h.1, h.2.1, h.2.2⟩, fun h => ⟨h.flow, h.last, h.change⟩⟩
  | .press _ false => isFalse fun h => h.press.elim nofun
  | .apdu .. => isFalse fun h => h.press.elim nofun
  | .quit => isFalse fun h => h.press.elim nofun

/-- The session has not been approved yet. -/
def Device.Pending (d : Device) : Prop := d.state = .recvData ∨ d.state = .parsed

instance (d : Device) : Decidable d.Pending := inferInstanceAs (Decidable (d.state = .recvData ∨ d.state = .parsed))

/-- The steps of the session under way, newest first, back to the one that started it. -/
def sessionSteps : History Device Event Obs → History Device Event Obs
  | [] => []
  | r :: h => if r.pre.Pending then r :: sessionSteps h else [r]

/-- The outputs the session has decoded, in order. -/
def sessionOutputs : History Device Event Obs → List TxOutput
  | [] => []
  | r :: h => if r.pre.Pending then sessionOutputs h ++ decodedOutputs r.seen else decodedOutputs r.seen

/-- The outputs decoded by the last command. -/
def callOutputs : History Device Event Obs → List TxOutput
  | [] => []
  | r :: h => if r.event.isCommand then decodedOutputs r.seen else callOutputs h

/-- An output is on screen, with its own address and amount. -/
structure Device.Shows (pf : Platform) (d : Device) (output : TxOutput) : Prop where
  flow : d.flow = .txOutput
  slot : d.tx.outputs[d.tx.displayIndex]? = some output
  text : ∃ amount, outputAmount d.gTokenSymbols d.tx output = some amount ∧ d.screen = outputScreen pf d.tx output amount

/-- The user approves an output on screen. -/
def Approves (pf : Platform) (r : Step Device Event Obs) (output : TxOutput) : Prop :=
  (∃ o, r.event = .press o true) ∧ r.pre.Shows pf output

/-- The command decodes an output that verifies against a change entry. -/
def VerifiesChange (pf : Platform) (r : Step Device Event Obs) (output : TxOutput) (info : ChangeOutputInfo) : Prop :=
  ∃ o raw, r.event = .apdu o raw ∧ Obs.decoded output ∈ r.seen ∧ verifyChange pf o info output = some true

/-- The state of the stream at which a session is. -/
def SignTxCtx.streamState (tx : SignTxCtx) (outs : List TxOutput) : TxState :=
  ⟨tx.tokens, tx.remainingTokens, tx.remainingInputs, outs⟩

/-- What a context holds of a session that has decoded some outputs in some steps. -/
structure Session (pf : Platform) (steps : History Device Event Obs) (outs : List TxOutput) (tx : SignTxCtx) : Prop where
  cursors : tx.Aligned
  decoded : tx.currentOutput = outs.length
  /-- What was hashed are the header, the elements decoded and the undecoded tail. -/
  hashed : 0 < tx.outputsLen → ∃ (header : Bytes) (e : TxElements), header.length = 5 ∧
    tx.sha256 = some (header ++ e.serialize ++ tx.buffer) ∧ tx.outputsLen = byteAt header 4 ∧
    (tx.streamState outs).Has (byteAt header 2) (byteAt header 3) e
  verified : ∀ output ∈ outs, ∀ info ∈ tx.changes, output.index = info.index → ∃ r ∈ steps, VerifiesChange pf r output info
  passed : ∀ i < tx.confirmedOutputs, i ∈ tx.changeIndices ∨
    ∃ r ∈ steps, ∃ output, outs[i]? = some output ∧ Approves pf r output

section Session

variable {pf : Platform} {steps steps' : History Device Event Obs} {outs call : List TxOutput} {tx tx' : SignTxCtx}

theorem Session.represents (h : Session pf steps outs tx) : tx.Represents (tx.streamState outs) :=
  ⟨rfl, rfl, rfl, h.decoded⟩

theorem Session.index (h : Session pf steps outs tx) {i : Nat} {output : TxOutput} (hi : outs[i]? = some output) :
    output.index = i := by
  have hlen : i < outs.length := (List.getElem?_eq_some_iff.mp hi).1
  have hdeclared := h.cursors.declared
  have hdecoded := h.decoded
  obtain ⟨_, e, _, _, _, hhas⟩ := h.hashed (by omega)
  have houts : outs = e.numbered := hhas.outputs
  rw [houts] at hi
  exact e.index_numbered hi

theorem Session.later (h : Session pf steps outs tx) (hsteps : ∀ r ∈ steps, r ∈ steps') : Session pf steps' outs tx := by
  refine ⟨h.cursors, h.decoded, h.hashed, fun output houtput info hinfo heq => ?_, fun i hi => ?_⟩
  · obtain ⟨r, hr, hverifies⟩ := h.verified output houtput info hinfo heq
    exact ⟨r, hsteps r hr, hverifies⟩
  · rcases h.passed i hi with hchange | ⟨r, hr, happroved⟩
    · exact Or.inl hchange
    · exact Or.inr ⟨r, hsteps r hr, happroved⟩

/-- The cursors skip change outputs. -/
theorem Session.skips (h : Session pf steps outs tx) (hskips : SkipsTo tx tx')
    (hfirst : tx.Open ∨ tx.confirmedOutputs ∉ tx.changeIndices) : Session pf steps outs tx' := by
  obtain ⟨haligned, _, hpassed⟩ := hskips.passes h.cursors hfirst
  have hframe := hskips.frame
  have hindices := hskips.changeIndices
  have hcurrent : tx'.currentOutput = tx.currentOutput := by rw [hframe]; rfl
  have houtputsLen : tx'.outputsLen = tx.outputsLen := by rw [hframe]; rfl
  have hsha : tx'.sha256 = tx.sha256 := by rw [hframe]; rfl
  have hbuffer : tx'.buffer = tx.buffer := by rw [hframe]; rfl
  have hstate : tx'.streamState outs = tx.streamState outs := by rw [hframe]; rfl
  have hchanges : tx'.changes = tx.changes := by rw [hframe]; rfl
  refine ⟨haligned, hcurrent.trans h.decoded, fun hsome => ?_, fun output houtput info hinfo heq => ?_, fun i hi => ?_⟩
  · rw [hsha, hbuffer, hstate, houtputsLen]
    exact h.hashed (houtputsLen ▸ hsome)
  · exact h.verified output houtput info (hchanges ▸ hinfo) heq
  · rw [hindices]
    by_cases hbelow : i < tx.confirmedOutputs
    · exact h.passed i hbelow
    · exact Or.inl (hpassed i (Nat.le_of_not_lt hbelow) hi)

/-- The output at the cursor is approved. -/
theorem Session.approve (h : Session pf steps outs tx) {r : Step Device Event Obs} {output : TxOutput}
    (hmore : tx.displayIndex < tx.bufferOutputLen) (houtput : outs[tx.confirmedOutputs]? = some output)
    (happroves : Approves pf r output) : Session pf (r :: steps) outs tx.advance := by
  obtain ⟨haligned, _, hconfirmed⟩ := h.cursors.advance hmore
  have hlater : Session pf (r :: steps) outs tx := h.later fun _ => List.mem_cons_of_mem r
  refine ⟨haligned, hlater.decoded, hlater.hashed, hlater.verified, fun i hi => ?_⟩
  rw [hconfirmed] at hi
  rcases Nat.lt_succ_iff_lt_or_eq.mp hi with hbelow | rfl
  · exact hlater.passed i hbelow
  · exact Or.inr ⟨r, List.mem_cons_self, output, houtput, happroves⟩

/-- The slots hold the outputs of the last call. -/
structure Saved (call outs : List TxOutput) (tx : SignTxCtx) : Prop where
  slots : tx.outputs.take tx.bufferOutputLen = call
  len : call.length = tx.bufferOutputLen
  last : call <:+ outs

theorem Saved.moved (h : Saved call outs tx) (houtputs : tx'.outputs = tx.outputs)
    (hlen : tx'.bufferOutputLen = tx.bufferOutputLen) : Saved call outs tx' := by
  refine ⟨?_, h.len.trans hlen.symm, h.last⟩
  rw [houtputs, hlen]
  exact h.slots

theorem Saved.skips (h : Saved call outs tx) (hskips : SkipsTo tx tx') : Saved call outs tx' := by
  apply h.moved
  · rw [hskips.frame]
    rfl
  · rw [hskips.frame]
    rfl

/-- The slot at the display cursor holds the output at the confirmation cursor. -/
theorem Session.slot (h : Session pf steps outs tx) (hsaved : Saved call outs tx)
    (hmore : tx.displayIndex < tx.bufferOutputLen) {output : TxOutput}
    (hslot : tx.outputs[tx.displayIndex]? = some output) :
    call[tx.displayIndex]? = some output ∧ outs[tx.confirmedOutputs]? = some output := by
  have hcall : call[tx.displayIndex]? = some output := by
    rw [← hsaved.slots, List.getElem?_take_of_lt hmore]
    exact hslot
  refine ⟨hcall, ?_⟩
  obtain ⟨before, rfl⟩ := hsaved.last
  have haligned := h.cursors.aligned
  have hdecoded := h.decoded
  have hlen := hsaved.len
  rw [List.length_append] at hdecoded
  have hindex : tx.confirmedOutputs = before.length + tx.displayIndex := by omega
  rw [hindex, List.getElem?_append_right (Nat.le_add_right _ _), Nat.add_sub_cancel_left]
  exact hcall

/-- The slot at the display cursor holds an output of the last call, the one at the confirmation cursor. -/
theorem Session.reads (h : Session pf steps outs tx) (hsaved : Saved call outs tx)
    (hmore : tx.displayIndex < tx.bufferOutputLen) :
    ∃ output ∈ call, tx.outputs[tx.displayIndex]? = some output ∧ output.index = tx.confirmedOutputs := by
  have hlen : tx.displayIndex < call.length := by
    rw [hsaved.len]
    exact hmore
  have hslot : tx.outputs[tx.displayIndex]? = some call[tx.displayIndex] := by
    rw [← List.getElem?_eq_getElem hlen, ← hsaved.slots, List.getElem?_take_of_lt hmore]
  exact ⟨call[tx.displayIndex], List.getElem_mem hlen, hslot, h.index (h.slot hsaved hmore hslot).2⟩

/-- Once everything announced is decoded, nothing is left on the buffer. -/
def SignTxCtx.Exhausted (tx : SignTxCtx) : Prop := 0 < tx.outputsLen → tx.currentOutput = tx.outputsLen → tx.buffer = []

theorem mem_decodedOutputs {output : TxOutput} {w : List Obs} : output ∈ decodedOutputs w ↔ Obs.decoded output ∈ w := by
  unfold decodedOutputs
  rw [List.mem_filterMap]
  constructor
  · rintro ⟨x, hx, hsome⟩
    cases x <;> cases hsome
    exact hx
  · exact fun h => ⟨_, h, rfl⟩

/-- A chunk is decoded. -/
theorem Session.decode (h : Session pf steps outs tx) (hslots : tx.outputs.length = outputSlots)
    (hempty : tx.bufferOutputLen = 0) (hbuffer : tx.buffer.length ≤ decodeBufferLen) {o : Outcome} {raw tail : Bytes}
    {registry : TokenDataCtx} {s' : TxState} {w : List Obs} {r : Step Device Event Obs} (hevent : r.event = .apdu o raw)
    (hverdict : decodeVerdict (verifyChange pf o) registry tx (tx.streamState outs) = .rest s' tail)
    (hsaved : decodedOutputs w = s'.outputs.drop tx.currentOutput) (hseen : ∀ x ∈ w, x ∈ r.seen) :
    Session pf (r :: steps) s'.outputs (tx.took s' tail) ∧ Saved (decodedOutputs w) s'.outputs (tx.took s' tail) ∧
      (tx.took s' tail).Exhausted ∧ s'.outputs = outs ++ decodedOutputs w := by
  have hrun := Machine.run_of_ask hverdict
  have hlimit : decodeBufferLen = 300 := rfl
  have hten : outputSlots = 10 := rfl
  have haligned := h.cursors.aligned
  have hshown := h.cursors.shown
  have hdecoded := h.decoded
  have hroom := run_room hrun
  have hgrow : outs <+: s'.outputs := run_outputs_grow hrun
  obtain ⟨new, hnew⟩ := hgrow
  have hdrop : s'.outputs.drop tx.currentOutput = new := by rw [← hnew, hdecoded, List.drop_left]
  have hstart : (tx.streamState outs).outputs = outs := rfl
  rw [hstart, ← hnew, List.length_append] at hroom
  rw [hdrop] at hsaved
  have hcurrent : (tx.took s' tail).currentOutput = outs.length + new.length := by
    rw [← List.length_append, hnew]
    rfl
  have hlen : (tx.took s' tail).bufferOutputLen = new.length := by
    unfold SignTxCtx.took
    rw [hempty, hdrop, Nat.zero_add]
  have houtputs : (tx.took s' tail).outputs = fillSlots tx.outputs 0 new := by
    unfold SignTxCtx.took
    rw [hempty, hdrop]
  have hle : s'.outputs.length ≤ tx.outputsLen := by
    apply run_outputs_le _ hrun
    rw [hstart, ← hdecoded]
    exact h.cursors.declared
  have htaken : 0 < tx.outputsLen → ∃ (header : Bytes) (e : TxElements), header.length = 5 ∧
      tx.sha256 = some (header ++ e.serialize ++ tail) ∧ tx.outputsLen = byteAt header 4 ∧
      s'.Has (byteAt header 2) (byteAt header 3) e := by
    intro hsome
    obtain ⟨header, e, hheader, hsha, houtputsLen, hhas⟩ := h.hashed hsome
    obtain ⟨e', hhas', hbytes⟩ := hhas.run hrun
    refine ⟨header, e', hheader, ?_, houtputsLen, hhas'⟩
    rw [hsha, List.append_assoc, List.append_assoc, hbytes]
  refine ⟨⟨⟨?_, ?_, ?_, h.cursors.byte, ?_⟩, rfl, htaken, fun output houtput info hinfo heq => ?_, fun i hi => ?_⟩,
    ⟨?_, ?_, ?_⟩, fun hsome hall => ?_, ?_⟩
  · rw [hcurrent, hlen]
    show tx.confirmedOutputs + new.length = outs.length + new.length + tx.displayIndex
    omega
  · show tx.displayIndex ≤ (tx.took s' tail).bufferOutputLen
    omega
  · rw [hcurrent, ← List.length_append, hnew]
    exact hle
  · rw [hlen]
    omega
  · by_cases hold : output ∈ outs
    · obtain ⟨r', hr', hverifies⟩ := h.verified output hold info hinfo heq
      exact ⟨r', List.mem_cons_of_mem r hr', hverifies⟩
    · have hverifies := (run_verifies hrun output houtput).resolve_left hold
      rw [← hnew, List.mem_append, ← hsaved, mem_decodedOutputs] at houtput
      exact ⟨r, List.mem_cons_self, o, raw, hevent, hseen _ (houtput.resolve_left hold), hverifies info hinfo heq⟩
  · rcases h.passed i hi with hchange | ⟨r', hr', output, houtput, happroves⟩
    · exact Or.inl hchange
    · refine Or.inr ⟨r', List.mem_cons_of_mem r hr', output, ?_, happroves⟩
      rw [← hnew, List.getElem?_append_left (List.getElem?_eq_some_iff.mp houtput).1]
      exact houtput
  · rw [hlen, houtputs, hsaved]
    apply take_fillSlots
    omega
  · rw [hlen, hsaved]
  · rw [hsaved, ← hnew]
    exact List.suffix_append outs new
  · obtain ⟨header, e, _, _, _, hhas⟩ := htaken hsome
    have hcount : s'.outputs.length = tx.outputsLen := hall
    have hnone : e.outputs ≠ [] := by
      intro hnil
      rw [hhas.outputs, e.length_numbered, hnil, List.length_nil] at hcount
      exact absurd hcount (Nat.ne_of_lt hsome)
    refine run_tail_nil hrun ?_ ?_ hcount
    · exact Nat.eq_zero_of_not_pos fun hpending => hnone (hhas.tokensFirst hpending).2
    · exact Nat.eq_zero_of_not_pos fun hpending => hnone (hhas.inputsFirst hpending)
  · rw [hsaved, hnew]

/-- The saved outputs are used up. -/
theorem Session.reset (h : Session pf steps outs tx) (hend : tx.displayIndex = tx.bufferOutputLen) :
    Session pf steps outs tx.resetCall := by
  have haligned := h.cursors.aligned
  refine ⟨⟨?_, Nat.le_refl 0, h.cursors.declared, h.cursors.byte, Nat.zero_le _⟩, h.decoded, h.hashed, h.verified, h.passed⟩
  show tx.confirmedOutputs + 0 = tx.currentOutput + 0
  omega

theorem Saved.outputsLen_pos (h : Saved call outs tx) (hs : Session pf steps outs tx) (hsome : tx.bufferOutputLen ≠ 0) :
    0 < tx.outputsLen := by
  have hlen := h.len
  have hle := h.last.length_le
  have hdecoded := hs.decoded
  have hdeclared := hs.cursors.declared
  omega

end Session

/-- A session that is still to be approved is sound; while one of its outputs is on screen the slots are those of the last
call, and otherwise they are empty; the approval screen is up when all outputs are confirmed, and then only. -/
structure Confirms (pf : Platform) (steps : History Device Event Obs) (outs call : List TxOutput) (d : Device) : Prop where
  session : d.Pending → Session pf steps outs d.tx ∧ d.tx.Exhausted
  shown : d.flow = .txOutput → d.state = .recvData ∧ d.tx.displayIndex < d.tx.bufferOutputLen ∧ Saved call outs d.tx ∧
    ∃ output, d.Shows pf output
  idle : d.state = .recvData → d.flow ≠ .txOutput → d.tx.bufferOutputLen = 0
  asked : d.flow = .confirmTx → d.state = .parsed
  parsed : d.state = .parsed → d.flow = .confirmTx ∧ d.tx.confirmedOutputs = d.tx.outputsLen ∧ 0 < d.tx.outputsLen

section Device

variable {pf : Platform} {steps steps' : History Device Event Obs} {outs call call' : List TxOutput} {d d' : Device}
  {w : List Obs}

theorem not_ofTx {flow : Flow} (h : ¬flow.OfTx) : flow ≠ .txOutput ∧ flow ≠ .confirmTx := by
  constructor
  · rintro rfl
    exact h trivial
  · rintro rfl
    exact h trivial

/-- A device without a session to approve. -/
theorem confirms_of_not_pending (hpending : ¬d.Pending) (hflow : ¬d.flow.OfTx) : Confirms pf steps outs call d := by
  obtain ⟨houtput, hconfirm⟩ := not_ofTx hflow
  refine ⟨fun h => absurd h hpending, fun h => absurd h houtput, fun h => ?_, fun h => absurd h hconfirm, fun h => ?_⟩
  · exact absurd (Or.inl h) hpending
  · exact absurd (Or.inr h) hpending

theorem not_pending_of_none (h : d.state = .none) : ¬d.Pending := by
  rintro (hrecv | hparsed)
  · exact nomatch h.symm.trans hrecv
  · exact nomatch h.symm.trans hparsed

/-- A session without an output on screen is left alone. -/
theorem Confirms.aside (h : Confirms pf steps outs call d) (hflow : ¬d.flow.OfTx) (hstate : d'.state = d.state)
    (htx : d'.tx = d.tx) (hflow' : ¬d'.flow.OfTx) (hsteps : ∀ r ∈ steps, r ∈ steps') : Confirms pf steps' outs call' d' := by
  obtain ⟨houtput, hconfirm⟩ := not_ofTx hflow
  obtain ⟨houtput', hconfirm'⟩ := not_ofTx hflow'
  refine ⟨fun hpending => ?_, fun h => absurd h houtput', fun hrecv _ => ?_, fun h => absurd h hconfirm', fun hparsed => ?_⟩
  · rw [Device.Pending, hstate] at hpending
    obtain ⟨hsession, hexhausted⟩ := h.session hpending
    rw [htx]
    exact ⟨hsession.later hsteps, hexhausted⟩
  · rw [htx]
    exact h.idle (hstate ▸ hrecv) houtput
  · exact absurd (h.parsed (hstate ▸ hparsed)).1 hconfirm

/-- Where the application rests does not matter. -/
theorem Confirms.resumes (h : Confirms pf steps outs call d) (io : IoState) (exchange : Exchange) :
    Confirms pf steps outs call { d with gIoState := io, exchange := exchange } := by
  refine ⟨h.session, fun hflow => ?_, h.idle, h.asked, h.parsed⟩
  obtain ⟨hstate, hmore, hsaved, output, hshows⟩ := h.shown hflow
  exact ⟨hstate, hmore, hsaved, output, hshows.flow, hshows.slot, hshows.text⟩

theorem Confirms.later (h : Confirms pf steps outs call d) (hsteps : ∀ r ∈ steps, r ∈ steps') :
    Confirms pf steps' outs call d := by
  refine ⟨fun hpending => ?_, h.shown, h.idle, h.asked, h.parsed⟩
  obtain ⟨hsession, hexhausted⟩ := h.session hpending
  exact ⟨hsession.later hsteps, hexhausted⟩

theorem DisplayEnds.decodes_nothing (h : DisplayEnds pf d d' w) : decodedOutputs w = [] := by
  cases h with
  | checked check => cases check <;> rfl
  | failed => rfl
  | shown => rfl

/-- The display goes on from cursors within the saved outputs. -/
theorem DisplayEnds.confirms (h : DisplayEnds pf d d' w) (hstate : d.state = .recvData) (hsession : Session pf steps outs d.tx)
    (hsaved : Saved call outs d.tx) (hexhausted : d.tx.Exhausted) (hsome : d.tx.bufferOutputLen ≠ 0) :
    Confirms pf steps outs call d' := by
  have hpos := hsaved.outputsLen_pos hsession hsome
  cases h with
  | checked check =>
      cases check with
      | parsed confirmed =>
          exact ⟨fun _ => ⟨hsession, hexhausted⟩, nofun, nofun, fun _ => rfl, fun _ => ⟨rfl, confirmed, hpos⟩⟩
      | foreign => exact confirms_of_not_pending (not_pending_of_none rfl) id
      | more _ shown =>
          have hstate' : d.state ≠ .parsed := fun h => nomatch hstate.symm.trans h
          exact ⟨fun _ => ⟨hsession.reset shown, hexhausted⟩, nofun, fun _ _ => rfl, nofun, fun h => absurd h hstate'⟩
  | failed => exact confirms_of_not_pending (not_pending_of_none rfl) id
  | @shown output amount inside slot text =>
      have hstate' : d.state ≠ .parsed := fun h => nomatch hstate.symm.trans h
      have hmore : d.tx.displayIndex < d.tx.bufferOutputLen := Nat.lt_of_le_of_ne hsession.cursors.shown inside.2
      refine ⟨fun _ => ⟨hsession, hexhausted⟩, fun _ => ⟨hstate, hmore, hsaved, output, rfl, slot, amount, text, rfl⟩,
        fun _ h => absurd rfl h, nofun, fun h => absurd h hstate'⟩

/-- The cursors after an output is approved by a press that does not slip. -/
theorem Confirms.goesOn (h : Confirms pf steps outs call d) (hflow : d.flow = .txOutput) {r : Step Device Event Obs} {o : Outcome}
    (hpre : r.pre = d) (hevent : r.event = .press o true) (hkept : ¬SlipsPast d (.press o true)) {tx : SignTxCtx}
    (hskips : SkipsTo d.tx.advance tx) :
    Session pf (r :: steps) outs tx ∧ Saved call outs tx ∧ tx.Exhausted ∧ tx.bufferOutputLen ≠ 0 := by
  obtain ⟨hstate, hmore, hsaved, output, hshows⟩ := h.shown hflow
  obtain ⟨hsession, hexhausted⟩ := h.session (Or.inl hstate)
  have hindex := (hsession.slot hsaved hmore hshows.slot).2
  have happroves : Approves pf r output := ⟨⟨o, hevent⟩, hpre ▸ hshows⟩
  have hadvanced := hsession.approve hmore hindex happroves
  obtain ⟨_, hshown, hconfirmed⟩ := hsession.cursors.advance hmore
  have hfirst : d.tx.advance.Open ∨ d.tx.advance.confirmedOutputs ∉ d.tx.advance.changeIndices := by
    by_cases hchange : d.tx.confirmedOutputs + 1 ∈ d.tx.changeIndices
    · left
      have hlast : d.tx.displayIndex + 1 ≠ d.tx.bufferOutputLen := fun hlast => hkept ⟨⟨o, rfl⟩, hflow, hlast, hchange⟩
      have haligned := hsession.cursors.aligned
      have hdeclared := hsession.cursors.declared
      have houtputsLen : d.tx.advance.outputsLen = d.tx.outputsLen := rfl
      have hsavedLen : d.tx.advance.bufferOutputLen = d.tx.bufferOutputLen := rfl
      unfold SignTxCtx.Open
      omega
    · right
      rw [hconfirmed]
      exact hchange
  have hsaved' : Saved call outs d.tx.advance := hsaved.moved rfl rfl
  refine ⟨hadvanced.skips hskips hfirst, hsaved'.skips hskips, ?_, ?_⟩
  · rw [hskips.frame]
    exact hexhausted
  · have hsame : tx.bufferOutputLen = d.tx.bufferOutputLen := by
      rw [hskips.frame]
      rfl
    omega

/-- The user approves an output, and the press does not slip. -/
theorem Confirms.approve (h : Confirms pf steps outs call d) (hflow : d.flow = .txOutput) {o : Outcome}
    (hkept : ¬SlipsPast d (.press o true)) {tx : SignTxCtx} (hskips : SkipsTo d.tx.advance tx)
    (hends : DisplayEnds pf (d.withTx tx) d' w) :
    Confirms pf (⟨d, .press o true, w, d'⟩ :: steps) outs call d' := by
  have hpress : (⟨d, .press o true, w, d'⟩ : Step Device Event Obs).pre = d := rfl
  obtain ⟨hsession, hsaved, hexhausted, hsome⟩ := h.goesOn hflow hpress rfl hkept hskips
  exact hends.confirms (h.shown hflow).1 hsession hsaved hexhausted hsome

variable {o : Outcome}

/-- A chunk is decoded, and what it completes is displayed. -/
theorem DecodeEffect.confirms (h : DecodeEffect pf o (d.tx.streamState outs) d true d' w) (hstate : d.state = .recvData)
    (hflow : ¬d.flow.OfTx) (hsession : Session pf steps outs d.tx) (hslots : d.tx.outputs.length = outputSlots)
    (hempty : d.tx.bufferOutputLen = 0) (hbuffer : d.tx.buffer.length ≤ decodeBufferLen) {raw : Bytes}
    {r : Step Device Event Obs} (hevent : r.event = .apdu o raw) (hseen : ∀ x ∈ w, x ∈ r.seen) :
    Confirms pf (r :: steps) (outs ++ decodedOutputs w) (decodedOutputs w) d' := by
  cases h with
  | rejected => exact confirms_of_not_pending (not_pending_of_none rfl) id
  | @awaits s' tail w silent verdict saved none =>
      have hseen' : ∀ x ∈ w, x ∈ r.seen := fun x hx => hseen x (List.mem_append_left _ hx)
      obtain ⟨hdecoded, hsaved, hexhausted, houts⟩ := hsession.decode hslots hempty hbuffer hevent verdict saved hseen'
      obtain ⟨houtput, hconfirm⟩ := not_ofTx hflow
      have hnothing : decodedOutputs [Obs.response [] swOk] = [] := rfl
      have hstate' : d.state ≠ .parsed := fun h => nomatch hstate.symm.trans h
      rw [decodedOutputs_append, hnothing, List.append_nil, ← houts]
      exact ⟨fun _ => ⟨hdecoded, hexhausted⟩, fun h => absurd h houtput, fun _ _ => none, fun h => absurd h hconfirm,
        fun h => absurd h hstate'⟩
  | @displays s' tail w w' tx _ silent verdict saved some skips inside ends =>
      have hseen' : ∀ x ∈ w, x ∈ r.seen := fun x hx => hseen x (List.mem_append_left _ hx)
      obtain ⟨hdecoded, hsaved, hexhausted, houts⟩ := hsession.decode hslots hempty hbuffer hevent verdict saved hseen'
      rw [decodedOutputs_append, ends.decodes_nothing, List.append_nil, ← houts]
      have hframe := skips.frame
      have hsome : tx.bufferOutputLen ≠ 0 := by
        rw [hframe]
        exact some
      have hexhausted' : tx.Exhausted := by
        rw [hframe]
        exact hexhausted
      have hskipped : Session pf (r :: steps) s'.outputs tx := by
        rcases inside with rfl | hopen
        · exact hdecoded
        · exact hdecoded.skips skips (Or.inl hopen)
      exact ends.confirms hstate hskipped (hsaved.skips skips) hexhausted' hsome

end Device

end HathorApp
