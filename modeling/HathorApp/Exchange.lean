import HathorApp.AmountText
import HathorApp.Replies
import HathorApp.SigningRequest
import HathorApp.TokenRegistry

/-!
The exchange of a transaction. The host sends its chunks one after the other and waits for SW_OK before the next one; the
user approves every screen that is raised. Which outputs he sees depends on how the host cuts the data only by the cuts
between an output to confirm and a change output behind it.
-/

namespace HathorApp

open ProgramLogic StreamDecoder TraceRun

section Parties

variable (pf : Platform)

/-- More presses than the screens of any transaction take. -/
def pressLimit : Nat := 256

/-- A command of the host, and the user who approves what it puts on screen. -/
def exchangeStep (o : Nat → Outcome) (raw : Bytes) (d : Device) : Option (List Obs × Device) :=
  match handle pf (.apdu (o 0) raw) d with
  | .ret () d' w => (approveScreens pf (fun i => o (i + 1)) pressLimit d').map fun r => (w ++ r.1, r.2)
  | .throw .. | .overrun => none

/-- What is seen of each command, when the host goes on after SW_OK only. -/
def exchange : (Nat → Nat → Outcome) → List Bytes → Device → Option (List (List Obs))
  | _, [], _ => some []
  | o, raw :: rest, d =>
    (exchangeStep pf (o 0) raw d).bind fun r =>
      if replies r.1 = [([], swOk)] then (exchange (fun i => o (i + 1)) rest r.2).map (r.1 :: ·) else some [r.1]

variable {pf} {o : Nat → Outcome} {raw : Bytes} {d d' : Device} {w : List Obs}

theorem exchangeStep_ret (h : handle pf (.apdu (o 0) raw) d = .ret () d' w) :
    exchangeStep pf o raw d = (approveScreens pf (fun i => o (i + 1)) pressLimit d').map fun r => (w ++ r.1, r.2) := by
  unfold exchangeStep
  rw [h]

theorem exchangeStep_overrun (h : handle pf (.apdu (o 0) raw) d = .overrun) : exchangeStep pf o raw d = none := by
  unfold exchangeStep
  rw [h]

/-- A command that asks the user nothing. -/
theorem exchangeStep_rest (h : handle pf (.apdu (o 0) raw) d = .ret () d' w) (hclosed : d'.flow.asks = false) :
    exchangeStep pf o raw d = some (w, d') := by
  rw [exchangeStep_ret h, approveScreens_rest hclosed, Option.map_some, List.append_nil]

/-- The exchange goes on after a command that is answered. -/
theorem exchange_answered {o : Nat → Nat → Outcome} {rest : List Bytes} (h : exchangeStep pf (o 0) raw d = some (w, d'))
    (hanswered : replies w = [([], swOk)]) :
    exchange pf o (raw :: rest) d = (exchange pf (fun i => o (i + 1)) rest d').map (w :: ·) := by
  rw [exchange, h, Option.bind_some, if_pos hanswered]

/-- What is seen of a whole exchange begins with what is seen of its first command. -/
theorem exchange_head {o : Nat → Nat → Outcome} {rest : List Bytes} {seen : List (List Obs)}
    (h : exchange pf o (raw :: rest) d = some seen) :
    ∃ w d' last, exchangeStep pf (o 0) raw d = some (w, d') ∧ seen = w :: last := by
  rw [exchange, Option.bind_eq_some_iff] at h
  obtain ⟨⟨w, d'⟩, hstep, h⟩ := h
  split at h
  · obtain ⟨last, _, rfl⟩ := Option.map_eq_some_iff.mp h
    exact ⟨w, d', last, hstep, rfl⟩
  · cases h
    exact ⟨w, d', [], hstep, rfl⟩

end Parties

/-- The outputs put on screen: address and amount. -/
def shownOutputs (w : List Obs) : List (Bytes × Bytes) := w.filterMap fun
  | .display (.txOutput _ address amount) => some (address, amount)
  | _ => none

theorem shownOutputs_append (u w : List Obs) : shownOutputs (u ++ w) = shownOutputs u ++ shownOutputs w := List.filterMap_append

theorem Silent.shownOutputs {w : List Obs} (hw : Silent w) : shownOutputs w = [] := by
  apply List.filterMap_eq_nil_iff.mpr
  intro e he
  have hinternal := hw e he
  cases e <;> first | rfl | exact hinternal.elim

namespace SigningRequest

/-- The symbol of the token of an output: HTR, or the one registered under its UID. -/
def symbol (registry : TokenDataCtx) (q : SigningRequest) (output : TxOutput) : Bytes :=
  if output.tokenIndex = 0 then htrSymbol
  else (((q.elements.uids[output.tokenIndex - 1]?).bind (findTokenRegistryIndex registry)).bind (registry.tokens[·]?)).elim []
    fun entry => cString entry.symbol

/-- The amount of an output with the symbol of its token fits its array. -/
def Fits (registry : TokenDataCtx) (q : SigningRequest) (output : TxOutput) : Prop :=
  AmountFits (q.symbol registry output) output.value

/-- The address and the amount of an output. -/
def texts (pf : Platform) (registry : TokenDataCtx) (q : SigningRequest) (output : TxOutput) : Bytes × Bytes :=
  (addressText (addressOf pf output.pubkeyHash), q.symbol registry output ++ [32] ++ formatValue output.value)

end SigningRequest

section Texts

variable {pf : Platform} {h : History Device Event Obs} {registry : TokenDataCtx} {q : SigningRequest}

theorem TxElements.getElem?_slots {e : TxElements}
    (hknown : ∀ uid ∈ e.uids, findTokenRegistryIndex registry uid ≠ none) (j : Nat) :
    (e.slots registry)[j]? = (e.uids[j]?).bind (findTokenRegistryIndex registry) := by
  unfold slots
  generalize e.uids = uids at hknown
  induction uids generalizing j with
  | nil => rfl
  | cons uid uids ih =>
      obtain ⟨hfirst, hrest⟩ := List.forall_mem_cons.mp hknown
      obtain ⟨slot, hslot⟩ := Option.ne_none_iff_exists'.mp hfirst
      rw [List.filterMap_cons_some hslot]
      cases j with
      | zero => exact hslot.symm
      | succ j => exact ih j hrest

theorem TxElements.mem_numbered {e : TxElements} {output : TxOutput} (hmem : output ∈ e.numbered) :
    ∃ o ∈ e.outputs, output.value = o.value ∧ output.tokenIndex = o.output.tokenIndex := by
  obtain ⟨i, hi⟩ := List.mem_iff_getElem?.mp hmem
  unfold numbered at hi
  rw [List.getElem?_mapIdx, Option.map_eq_some_iff] at hi
  obtain ⟨o, ho, rfl⟩ := hi
  exact ⟨o, List.mem_of_getElem? ho, rfl, rfl⟩

/-- The amount on screen is that of the output, if it fits. -/
theorem outputAmount_decoded (hregistry : RegistryOf pf h registry) (hq : q.Acceptable pf registry) {tx : SignTxCtx}
    (htokens : tx.tokens = q.elements.slots registry) {output : TxOutput} (hmem : output ∈ q.elements.numbered) :
    (q.Fits registry output → outputAmount registry tx output = some (q.texts pf registry output).2) ∧
      (¬q.Fits registry output → outputAmount registry tx output = none) := by
  obtain ⟨o, ho, hvalue, htoken⟩ := TxElements.mem_numbered hmem
  have hlow : output.value ≤ 2 ^ 63 := by
    have hfits := o.value_fits
    rw [hvalue]
    split at hfits <;> omega
  have hsymbol : outputSymbol registry tx output = some (q.symbol registry output) ∧
      (q.symbol registry output).length ≤ maxTokenSymbolLen ∧ 0 ∉ q.symbol registry output := by
    unfold outputSymbol SigningRequest.symbol
    by_cases hcustom : output.tokenIndex = 0
    · rw [if_pos hcustom, if_pos hcustom]
      exact ⟨rfl, by decide, by decide⟩
    · have hplace := hq.inTable o ho
      rw [← htoken] at hplace
      obtain ⟨uid, huid⟩ : ∃ uid, q.elements.uids[output.tokenIndex - 1]? = some uid :=
        ⟨_, List.getElem?_eq_getElem (by omega)⟩
      obtain ⟨slot, hslot⟩ := Option.ne_none_iff_exists'.mp (hq.known uid (List.mem_of_getElem? huid))
      obtain ⟨hinUse, _⟩ := findTokenRegistryIndex_some hslot
      have hroom : slot < registry.tokens.length := by
        rw [hregistry.sound.slots]
        exact Nat.lt_of_lt_of_le hinUse hregistry.sound.len
      obtain ⟨entry, hentry⟩ : ∃ entry, registry.tokens[slot]? = some entry := ⟨_, List.getElem?_eq_getElem hroom⟩
      obtain ⟨_, _, _, _, _, _, _, hholds⟩ := hregistry.entries slot hinUse
      rw [List.getD_eq_getElem?_getD, hentry, Option.getD_some] at hholds
      rw [if_neg hcustom, if_neg hcustom, htokens, TxElements.getElem?_slots hq.known, huid, Option.bind_some, hslot,
        Option.bind_some]
      dsimp only
      rw [hentry]
      exact ⟨rfl, hholds.length, zero_not_mem_cString _⟩
  obtain ⟨hsome, hlength, htext⟩ := hsymbol
  have htexts := amountText_eq hlength htext hlow
  unfold outputAmount
  rw [hsome, Option.bind_some, htexts]
  exact ⟨fun hfits => if_pos hfits, fun hlong => if_neg hlong⟩

end Texts

namespace SigningRequest

/-- The outputs to confirm that are complete within so many bytes, from the `k`-th output on. -/
def newOutputs (q : SigningRequest) (k n : Nat) : List TxOutput :=
  ((q.elements.numbered.take (q.elements.complete n)).drop k).filter (·.index ∉ q.indices)

/-- The cut at so many bytes is not between an output to confirm and a change output behind it. -/
def EndsWell (q : SigningRequest) (n : Nat) : Prop :=
  q.elements.complete n ∈ q.indices → q.elements.complete n = 0 ∨ q.elements.complete n - 1 ∈ q.indices

end SigningRequest

/-- A chunk is answered, its new outputs are put on screen, and the approval when they are the last ones. -/
structure ChunkReviewed (pf : Platform) (registry : TokenDataCtx) (q : SigningRequest) (k n : Nat) (w : List Obs) (d : Device) :
    Prop where
  answered : replies w = [([], swOk)]
  outputs : shownOutputs w = (q.newOutputs k n).map (q.texts pf registry)
  approval : w.count (.display .confirmTx) = if q.elements.complete n = q.elements.outputs.length then 1 else 0
  awaits : q.elements.complete n ≠ q.elements.outputs.length → d.Awaits pf q n ∧ d.gTokenSymbols = registry

section Chunk

variable {pf : Platform} {o : Nat → Outcome} {q : SigningRequest} {k n m : Nat} {d : Device} {tx : SignTxCtx}

/-- The device when a reply is owed. -/
def Device.owing (d : Device) : Device := { d with gIoState := .waiting, exchange := .asynchReply }

theorem resting_of_received (h : d.gIoState = .received) : d.resting = d.owing := by
  unfold Device.resting
  rw [if_neg (by rw [h]; decide)]
  rfl

/-- A screen is put up as well when a reply is owed already. -/
theorem presented_owing (pf : Platform) (outs : List TxOutput)
    (hasks : m < d.tx.currentOutput ∨ (d.movedTo m).tx.confirmedOutputs = d.tx.outputsLen) :
    presented pf outs d.owing m = (presented pf outs d m).map (fun r => (r.1.owing, r.2)) ∧
      ∀ d' w, presented pf outs d m = some (d', w) → d'.gIoState = d.gIoState := by
  unfold presented
  have howing : d.owing.tx = d.tx := rfl
  rw [howing]
  by_cases hm : m < d.tx.currentOutput
  · rw [if_pos hm, if_pos hm]
    cases outs[m]? with
    | none => exact ⟨rfl, fun _ _ h => by cases h⟩
    | some output =>
        have hregistry : d.owing.gTokenSymbols = d.gTokenSymbols := rfl
        simp only [Option.bind_some, hregistry]
        cases outputAmount d.gTokenSymbols d.tx output with
        | none => exact ⟨rfl, fun _ _ h => by cases h⟩
        | some amount => exact ⟨rfl, fun _ _ h => by cases h; rfl⟩
  · have hconfirmed : (d.movedTo m).tx.confirmedOutputs = (d.movedTo m).tx.outputsLen := hasks.resolve_left hm
    have hconfirmed' : (d.owing.movedTo m).tx.confirmedOutputs = (d.owing.movedTo m).tx.outputsLen := hconfirmed
    unfold Device.concluded SignTxCtx.conclusion
    rw [if_neg hm, if_neg hm, if_pos hconfirmed, if_pos hconfirmed, if_pos hconfirmed', if_pos hconfirmed']
    exact ⟨rfl, fun _ _ h => by cases h; rfl⟩

theorem numbered_numbered (e : TxElements) : Numbered e.numbered := fun _ _ h => TxElements.index_numbered h

theorem SignTxCtx.Decoded.changeIndices {registry : TokenDataCtx} (h : tx.Decoded pf registry q k n) :
    tx.changeIndices = q.indices := by
  unfold SignTxCtx.changeIndices
  rw [h.changes]
  rfl

theorem SignTxCtx.Decoded.toReview {registry : TokenDataCtx} (h : tx.Decoded pf registry q k n) :
    tx.toReview q.elements.numbered k = q.newOutputs k n := by
  unfold SignTxCtx.toReview SigningRequest.newOutputs
  rw [h.current, h.changeIndices]

/-- No output is complete that was not before. -/
theorem SigningRequest.newOutputs_of_none (h : q.elements.complete n = k) : q.newOutputs k n = [] := by
  unfold newOutputs
  rw [h, List.drop_eq_nil_of_le (List.length_take_le _ _)]
  rfl

theorem SignTxCtx.reviewed_of_none (hsaved : tx.bufferOutputLen = 0) (hshown : tx.displayIndex = 0)
    (hconfirmed : tx.confirmedOutputs = tx.currentOutput) : tx = tx.reviewed := by
  cases tx
  cases hsaved
  cases hshown
  cases hconfirmed
  rfl

/-- A command of the exchange whose chunk comes to the decode buffer. -/
structure TakesData (pf : Platform) (o : Outcome) (q : SigningRequest) (k n : Nat) (chunk : UInt8) (data : Bytes)
    (d d₁ : Device) : Prop where
  nonempty : data ≠ []
  length : data.length ≤ 255
  state : d.state ≠ .approved
  opens : 0 < chunk.toNat → d.state = .recvData
  taken : takeChunk o (Buffer.ofData data) chunk.toNat d.entered = .ret () d₁ []
  loaded : d₁.HasChunk pf q k n

theorem SigningRequest.indices_lt {i : Nat} (hmem : i ∈ q.indices) : i < q.elements.outputs.length := by
  obtain ⟨info, hinfo, rfl⟩ := List.mem_map.mp hmem
  exact q.in_range info hinfo

theorem SignTxCtx.Loaded.grown {registry : TokenDataCtx} (h : tx.Loaded pf registry q k n) (hq : q.Acceptable pf registry)
    (hcount : q.changes.length ≤ 1 + txMaxTokens) : k ≤ q.elements.complete n := by
  obtain ⟨_, _, _, _, hdecoded⟩ := h.takes hq hcount
  exact hdecoded.grown

/-- The review of a chunk's outputs. -/
theorem SignTxCtx.Decoded.approveScreens_owing {d₁ : Device} (hdecoded : tx.Decoded pf d₁.gTokenSymbols q k n)
    (hreq : d₁.gContext.reqType = .confirmTransaction) (ho : ∀ i, (o i).Works) (hends : q.EndsWell n)
    (hstop : StopsAt q.indices k (q.elements.complete n) m) (hpos : 0 < q.elements.complete n) :
    match reviewScreens pf d₁.gTokenSymbols tx q.elements.numbered k with
    | none => ∀ d' w, presented pf q.elements.numbered (d₁.withTx tx).owing m = some (d', w) →
        approveScreens pf o pressLimit d' = none
    | some screens => ∃ d' w₁ d₂ w₂, presented pf q.elements.numbered (d₁.withTx tx).owing m = some (d', w₁) ∧
        approveScreens pf o pressLimit d' = some (w₂, d₂) ∧ w₁ ++ w₂ = screens ++ reviewEnding (d₁.withTx tx).owing.tx ∧
        ((d₁.withTx tx).owing.tx.currentOutput ≠ (d₁.withTx tx).owing.tx.outputsLen → Reviewed (d₁.withTx tx).owing d₂) := by
  have hcurrent := hdecoded.current
  have hindices := hdecoded.changeIndices
  have hall := q.elements.complete_le n
  have hbyte := q.outputs_lt
  have hlimit : pressLimit = 256 := rfl
  refine approveScreens_presented (d := (d₁.withTx tx).owing) (c := k) (m := m) ho (numbered_numbered _) hdecoded.reviews ?_ hreq
    ?_ ?_ ?_ ?_
  · show tx.currentOutput ≤ _
    rw [q.elements.length_numbered]
    omega
  · show tx.currentOutput ∈ tx.changeIndices → tx.currentOutput - 1 ∈ tx.changeIndices
    rw [hcurrent, hindices]
    exact fun hmem => (hends hmem).resolve_left (by omega)
  · exact Nat.le_of_eq hdecoded.confirmed
  · show StopsAt tx.changeIndices k tx.currentOutput m
    rwa [hcurrent, hindices]
  · show tx.currentOutput - m < pressLimit
    omega

variable {chunk : UInt8} {data : Bytes} {d₁ : Device}

section Step

variable (ht : TakesData pf (o 0) q k n chunk data d d₁) (hq : q.Acceptable pf d₁.gTokenSymbols) (ho : ∀ i, (o i).Works)
  (hcount : q.changes.length ≤ 1 + txMaxTokens)
include ht hq ho hcount

/-- A chunk without the end of an output is answered. -/
theorem exchangeStep_quiet (hpending : k < q.elements.outputs.length) (hnone : q.elements.complete n = k) :
    ∃ w d', exchangeStep pf o (dataCommand chunk data) d = some (w, d') ∧ ChunkReviewed pf d₁.gTokenSymbols q k n w d' := by
  obtain ⟨m, hstop⟩ := exists_stopsAt q.indices (show k ≤ q.elements.complete n by omega)
  obtain ⟨w, tx', hsilent, hdecoded, hdecode⟩ :=
    decodeChunk_loaded ht.loaded.loaded hq (ho 0) hcount ht.loaded.request hstop
  rw [if_pos hnone] at hdecode
  have hhandle := handle_takes ht.nonempty ht.length ht.state ht.opens ht.taken hdecode (by simp)
  have hclosed : (Device.resting { d₁.withTx tx' with gIoState := .ready }).flow.asks = false := ht.loaded.closed
  refine ⟨w ++ [.response [] swOk], _, exchangeStep_rest hhandle hclosed, ?_, ?_, ?_, ?_⟩
  · rw [replies_append, hsilent.replies]
    rfl
  · rw [shownOutputs_append, hsilent.shownOutputs, q.newOutputs_of_none hnone]
    rfl
  · rw [if_neg (by omega), List.count_append, List.count_eq_zero_of_not_mem (hsilent.no_display _)]
    rfl
  · refine fun _ => ⟨⟨ht.loaded.state, ht.loaded.request, hclosed, rfl, k, tx', hdecoded, ?_⟩, rfl⟩
    have hsaved := hdecoded.saved
    apply SignTxCtx.reviewed_of_none (by omega) hdecoded.shown
    rw [hdecoded.confirmed, hdecoded.current, hnone]

/-- The display of a chunk, and the presses after it. -/
theorem exchangeStep_displays (hnew : q.elements.complete n ≠ k) (hstop : StopsAt q.indices k (q.elements.complete n) m) :
    ∃ w tx', Silent w ∧ tx'.Decoded pf d₁.gTokenSymbols q k n ∧
      (presented pf q.elements.numbered (d₁.withTx tx').owing m = none → exchangeStep pf o (dataCommand chunk data) d = none) ∧
      ∀ d' w', presented pf q.elements.numbered (d₁.withTx tx').owing m = some (d', w') →
        match approveScreens pf (fun i => o (i + 1)) pressLimit d' with
        | none => exchangeStep pf o (dataCommand chunk data) d = none
        | some (w₂, d₂) => ∃ d₃, exchangeStep pf o (dataCommand chunk data) d = some (w ++ (w' ++ w₂), d₃) ∧
            (d₃ = d₂ ∨ d₃ = { d₂ with gIoState := .received, exchange := .apdu }) := by
  obtain ⟨w, tx', hsilent, hdecoded, hdecode⟩ :=
    decodeChunk_loaded ht.loaded.loaded hq (ho 0) hcount ht.loaded.request hstop
  rw [if_neg hnew] at hdecode
  refine ⟨w, tx', hsilent, hdecoded, ?_⟩
  have hcurrent := hdecoded.current
  have hconfirmed := hdecoded.confirmed
  have hle := hstop.from_le
  by_cases hasks : m < (d₁.withTx tx').tx.currentOutput ∨
      ((d₁.withTx tx').movedTo m).tx.confirmedOutputs = (d₁.withTx tx').tx.outputsLen
  · obtain ⟨howing, hio⟩ := presented_owing pf q.elements.numbered hasks
    rw [howing]
    cases hresult : presented pf q.elements.numbered (d₁.withTx tx') m with
    | none =>
        rw [hresult] at hdecode
        have hhandle := handle_overruns ht.nonempty ht.length ht.state ht.opens ht.taken hdecode
        exact ⟨fun _ => exchangeStep_overrun hhandle, fun _ _ h => by cases h⟩
    | some result =>
        obtain ⟨d', w'⟩ := result
        rw [hresult] at hdecode
        have hreceived : d'.gIoState = .received := (hio d' w' hresult).trans ht.loaded.io
        have hhandle := handle_takes ht.nonempty ht.length ht.state ht.opens ht.taken hdecode (by rw [hreceived]; decide)
        refine ⟨fun h => (by cases h), fun d₂ w₂ h => ?_⟩
        cases h
        rw [resting_of_received hreceived] at hhandle
        rw [exchangeStep_ret hhandle]
        cases happrove : approveScreens pf (fun i => o (i + 1)) pressLimit d'.owing with
        | none => rfl
        | some r => exact ⟨r.2, by rw [Option.map_some, List.append_assoc], Or.inl rfl⟩
  · rw [not_or] at hasks
    obtain ⟨hend, hmore⟩ := hasks
    have hmore' : ((d₁.withTx tx').owing.movedTo m).tx.confirmedOutputs ≠ ((d₁.withTx tx').owing.movedTo m).tx.outputsLen := hmore
    have hpresented : ∀ d₂ : Device, d₂.tx = tx' → (d₂.movedTo m).tx.confirmedOutputs ≠ (d₂.movedTo m).tx.outputsLen →
        presented pf q.elements.numbered d₂ m = some ({ (d₂.movedTo m).withTx (d₂.movedTo m).tx.resetCall with
          gIoState := .ready, flow := .menuMain }, [.response [] swOk, .display .menuMain]) := by
      intro d₂ htx hpending
      unfold presented Device.concluded SignTxCtx.conclusion
      rw [if_neg (by rw [htx]; exact hend), if_neg hpending, if_neg hpending]
    rw [hpresented _ rfl hmore, Option.map_some] at hdecode
    rw [hpresented _ rfl hmore']
    have hhandle := handle_takes ht.nonempty ht.length ht.state ht.opens ht.taken hdecode (by simp)
    refine ⟨fun h => (by cases h), fun d' w' h => ?_⟩
    cases h
    rw [approveScreens_rest rfl]
    refine ⟨_, ?_, Or.inr rfl⟩
    rw [List.append_nil]
    exact exchangeStep_rest hhandle rfl

end Step

end Chunk

section Screens

variable {α β : Type} {f : α → Option β} {l : List α}

theorem mapM_of_forall {g : α → β} (h : ∀ a ∈ l, f a = some (g a)) : l.mapM f = some (l.map g) := by
  induction l with
  | nil => rfl
  | cons a l ih =>
      obtain ⟨hfirst, hrest⟩ := List.forall_mem_cons.mp h
      rw [List.mapM_cons, hfirst, ih hrest]
      rfl

theorem mapM_of_mem {a : α} (hmem : a ∈ l) (h : f a = none) : l.mapM f = none := by
  induction hmem with
  | head l =>
      rw [List.mapM_cons, h]
      rfl
  | tail b _ ih =>
      rw [List.mapM_cons, ih]
      cases f b <;> rfl

end Screens

section Review

variable {pf : Platform} {h : History Device Event Obs} {registry : TokenDataCtx} {q : SigningRequest} {k n : Nat}
  {tx : SignTxCtx}

/-- The screen of an output to confirm. -/
def SigningRequest.screen (pf : Platform) (registry : TokenDataCtx) (q : SigningRequest) (tx : SignTxCtx)
    (output : TxOutput) : Obs :=
  .display (outputScreen pf tx output (q.texts pf registry output).2)

theorem mem_newOutputs {output : TxOutput} (hmem : output ∈ q.newOutputs k n) : output ∈ q.elements.numbered :=
  List.mem_of_mem_take (List.mem_of_mem_drop (List.mem_of_mem_filter hmem))

variable (hregistry : RegistryOf pf h registry) (hq : q.Acceptable pf registry) (hdecoded : tx.Decoded pf registry q k n)
include hregistry hq hdecoded

/-- The screens of a chunk's outputs, if their amounts fit. -/
theorem reviewScreens_decoded (hpos : 0 < q.elements.complete n) :
    ((∀ output ∈ q.newOutputs k n, q.Fits registry output) →
      reviewScreens pf registry tx q.elements.numbered k = some ((q.newOutputs k n).map (q.screen pf registry tx))) ∧
    ((¬∀ output ∈ q.newOutputs k n, q.Fits registry output) → reviewScreens pf registry tx q.elements.numbered k = none) := by
  have hamount := fun output (hmem : output ∈ q.newOutputs k n) =>
    outputAmount_decoded hregistry hq (hdecoded.tokens hpos) (mem_newOutputs hmem)
  unfold reviewScreens reviewScreen
  rw [hdecoded.toReview]
  constructor
  · intro hfits
    apply mapM_of_forall
    intro output hmem
    rw [(hamount output hmem).1 (hfits output hmem)]
    rfl
  · intro hlong
    push Not at hlong
    obtain ⟨output, hmem, hlong⟩ := hlong
    apply mapM_of_mem hmem
    rw [(hamount output hmem).2 hlong]
    rfl

end Review

section Shown

variable {pf : Platform} {registry : TokenDataCtx} {q : SigningRequest} {tx : SignTxCtx} {outputs : List TxOutput}

theorem replies_screens : replies (outputs.map (q.screen pf registry tx)) = [] := by
  induction outputs with
  | nil => rfl
  | cons output outputs ih => exact ih

theorem shownOutputs_screens : shownOutputs (outputs.map (q.screen pf registry tx)) = outputs.map (q.texts pf registry) := by
  induction outputs with
  | nil => rfl
  | cons output outputs ih => exact congrArg (List.cons (q.texts pf registry output)) ih

theorem confirmTx_screens : .display .confirmTx ∉ outputs.map (q.screen pf registry tx) := by
  simp [SigningRequest.screen, outputScreen]

end Shown

section Reviewed

variable {pf : Platform} {h : History Device Event Obs} {o : Nat → Outcome} {q : SigningRequest} {k n : Nat} {d d₁ : Device}
  {chunk : UInt8} {data : Bytes}

/-- A device that has reviewed a chunk awaits the next one. -/
theorem Reviewed.awaits {tx : SignTxCtx} {d₂ d₃ : Device} (hreviewed : Reviewed (d₁.withTx tx).owing d₂)
    (hloaded : d₁.HasChunk pf q k n) (hdecoded : tx.Decoded pf d₁.gTokenSymbols q k n)
    (hlast : d₃ = d₂ ∨ d₃ = { d₂ with gIoState := .received, exchange := .apdu }) :
    d₃.Awaits pf q n ∧ d₃.gTokenSymbols = d₁.gTokenSymbols := by
  obtain ⟨htx, hstate, hrequest, hregistry, hexchange, hio, hflow⟩ := hreviewed
  have hexchange' : d₂.exchange = .asynchReply := hexchange
  have hregistry' : d₂.gTokenSymbols = d₁.gTokenSymbols := hregistry
  have hawaits : d₂.Awaits pf q n := by
    refine ⟨hstate.trans hloaded.state, hrequest.trans hloaded.request, by rw [hflow]; rfl, ?_, k, tx, ?_, htx⟩
    · unfold wake
      rw [if_pos hexchange']
    · rw [hregistry']
      exact hdecoded
  rcases hlast with rfl | rfl
  · exact ⟨hawaits, hregistry'⟩
  · exact ⟨⟨hawaits.state, hawaits.request, hawaits.closed, rfl, hawaits.decoded⟩, hregistry'⟩

theorem replies_reviewEnding (tx : SignTxCtx) : replies (reviewEnding tx) = [([], swOk)] := by
  unfold reviewEnding
  split <;> rfl

theorem shownOutputs_reviewEnding (tx : SignTxCtx) : shownOutputs (reviewEnding tx) = [] := by
  unfold reviewEnding
  split <;> rfl

theorem count_reviewEnding (tx : SignTxCtx) :
    (reviewEnding tx).count (.display .confirmTx) = if tx.currentOutput = tx.outputsLen then 1 else 0 := by
  unfold reviewEnding
  split <;> rfl

variable (ht : TakesData pf (o 0) q k n chunk data d d₁) (hq : q.Acceptable pf d₁.gTokenSymbols) (ho : ∀ i, (o i).Works)
  (hcount : q.changes.length ≤ 1 + txMaxTokens) (hnew : q.elements.complete n ≠ k)
  (hregistry : RegistryOf pf h d₁.gTokenSymbols)
include ht hq ho hcount hnew hregistry

/-- A chunk whose outputs fit and that does not end behind an output to confirm and before a change output. -/
theorem exchangeStep_reviews (hends : q.EndsWell n) (hfits : ∀ output ∈ q.newOutputs k n, q.Fits d₁.gTokenSymbols output) :
    ∃ w d', exchangeStep pf o (dataCommand chunk data) d = some (w, d') ∧ ChunkReviewed pf d₁.gTokenSymbols q k n w d' := by
  have hgrown := ht.loaded.loaded.grown hq hcount
  obtain ⟨m, hstop⟩ := exists_stopsAt q.indices hgrown
  obtain ⟨w, tx', hsilent, hdecoded, _, hshows⟩ := exchangeStep_displays ht hq ho hcount hnew hstop
  have hreview := hdecoded.approveScreens_owing (o := fun i => o (i + 1)) ht.loaded.request (fun i => ho (i + 1)) hends
    hstop (by omega)
  rw [(reviewScreens_decoded hregistry hq hdecoded (by omega)).1 hfits] at hreview
  obtain ⟨d', w₁, d₂, w₂, hpresented, happrove, hseen, hreviewed⟩ := hreview
  have hstep := hshows d' w₁ hpresented
  rw [happrove] at hstep
  obtain ⟨d₃, hstep, hlast⟩ := hstep
  rw [hseen] at hstep
  refine ⟨_, d₃, hstep, ?_, ?_, ?_, fun hmore => ?_⟩
  · rw [replies_append, replies_append, hsilent.replies, replies_screens, replies_reviewEnding]
    rfl
  · rw [shownOutputs_append, shownOutputs_append, hsilent.shownOutputs, shownOutputs_screens, shownOutputs_reviewEnding,
      List.nil_append, List.append_nil]
  · rw [List.count_append, List.count_append, List.count_eq_zero_of_not_mem (hsilent.no_display _),
      List.count_eq_zero_of_not_mem confirmTx_screens, count_reviewEnding, Nat.zero_add, Nat.zero_add]
    show (if tx'.currentOutput = tx'.outputsLen then 1 else 0) = _
    rw [hdecoded.current, hdecoded.outputsLen]
  · apply Reviewed.awaits (hreviewed _) ht.loaded hdecoded hlast
    show tx'.currentOutput ≠ tx'.outputsLen
    rwa [hdecoded.current, hdecoded.outputsLen]

/-- Else the approval comes while outputs are to come, or an amount does not get on screen. -/
theorem exchangeStep_slips (hbad : ¬(q.EndsWell n ∧ ∀ output ∈ q.newOutputs k n, q.Fits d₁.gTokenSymbols output))
    {w : List Obs} {d' : Device} (hstep : exchangeStep pf o (dataCommand chunk data) d = some (w, d')) :
    q.elements.complete n ≠ q.elements.outputs.length ∧ .display .confirmTx ∈ w := by
  have hgrown := ht.loaded.loaded.grown hq hcount
  obtain ⟨m, hstop⟩ := exists_stopsAt q.indices hgrown
  obtain ⟨w₀, tx', hsilent, hdecoded, hnone, hshows⟩ := exchangeStep_displays ht hq ho hcount hnew hstop
  cases hresult : presented pf q.elements.numbered (d₁.withTx tx').owing m with
  | none =>
      rw [hnone hresult] at hstep
      cases hstep
  | some result =>
      obtain ⟨d₂, w₁⟩ := result
      have hseen := hshows d₂ w₁ hresult
      cases happrove : approveScreens pf (fun i => o (i + 1)) pressLimit d₂ with
      | none =>
          rw [happrove] at hseen
          rw [show exchangeStep pf o (dataCommand chunk data) d = none from hseen] at hstep
          cases hstep
      | some last =>
          rw [happrove] at hseen
          obtain ⟨d₃, hseen, _⟩ := hseen
          rw [hstep] at hseen
          cases hseen
          by_cases hends : q.EndsWell n
          · -- an amount does not fit
            have hreview := hdecoded.approveScreens_owing (o := fun i => o (i + 1)) ht.loaded.request
              (fun i => ho (i + 1)) hends hstop (by omega)
            rw [(reviewScreens_decoded hregistry hq hdecoded (by omega)).2 fun hfits => hbad ⟨hends, hfits⟩] at hreview
            rw [hreview d₂ w₁ hresult] at happrove
            cases happrove
          · -- the press on the last output goes past the change output that is to come
            unfold SigningRequest.EndsWell at hends
            push Not at hends
            obtain ⟨hchange, hpos, hlast⟩ := hends
            have hrange := q.indices_lt hchange
            have hless : m < q.elements.complete n := by
              by_contra hend
              have hbound := hstop.le_bound
              exact hlast (hstop.passed _ (by omega) (by omega))
            have hcurrent := hdecoded.current
            have hindices := hdecoded.changeIndices
            refine ⟨by omega, List.mem_append_right _ (List.mem_append_right _ ?_)⟩
            refine approveScreens_slips (d := (d₁.withTx tx').owing) (m := m) (fun i => ho (i + 1)) hdecoded.reviews
              ht.loaded.request ?_ ?_ ?_ ?_ hresult happrove
            · show tx'.currentOutput ∈ tx'.changeIndices
              rwa [hcurrent, hindices]
            · show tx'.currentOutput - 1 ∉ tx'.changeIndices
              rwa [hcurrent, hindices]
            · show tx'.confirmedOutputs ≤ m
              rw [hdecoded.confirmed]
              exact hstop.from_le
            · show m < tx'.currentOutput
              rwa [hcurrent]

end Reviewed

end HathorApp
