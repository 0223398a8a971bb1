import HathorApp.SavedOutputs

/-!
A user who approves every screen. From the first screen of a call on he sees the saved outputs that are not in the change
list, one after the other, and then the approval, or more data is asked for. When the list goes on behind the saved
outputs, the press on the last one loses the cursors, and nothing but the approval ends the review.
-/

namespace HathorApp

open ProgramLogic

section User

variable (pf : Platform)

/-- The user approves what is on screen until nothing is asked any more, in a number of presses at most. -/
def approveScreens (o : Nat → Outcome) : Nat → Device → Option (List Obs × Device)
  | 0, d => if d.flow.asks then none else some ([], d)
  | n + 1, d =>
    if d.flow.asks then
      match handle pf (.press (o n) true) d with
      | .ret () d' w => (approveScreens o n d').map fun r => (w ++ r.1, r.2)
      | .throw .. | .overrun => none
    else some ([], d)

variable {pf} {o : Nat → Outcome} {d d' : Device} {n : Nat} {w : List Obs}

theorem approveScreens_rest (h : d.flow.asks = false) : approveScreens pf o n d = some ([], d) := by
  cases n with
  | zero => exact if_neg (by rw [h]; decide)
  | succ n => exact if_neg (by rw [h]; decide)

theorem approveScreens_press (h : d.flow.asks = true) (hrun : handle pf (.press (o n) true) d = .ret () d' w) :
    approveScreens pf o (n + 1) d = (approveScreens pf o n d').map fun r => (w ++ r.1, r.2) := by
  rw [approveScreens, if_pos h, hrun]

theorem approveScreens_overrun (h : d.flow.asks = true) (hrun : handle pf (.press (o n) true) d = .overrun) :
    approveScreens pf o (n + 1) d = none := by
  rw [approveScreens, if_pos h, hrun]

/-- What a press leads to, and the presses after it. -/
theorem approveScreens_restsIn {next : Option (Device × List Obs)} (h : d.flow.asks = true)
    (hrun : handle pf (.press (o n) true) d = restsIn () next) :
    approveScreens pf o (n + 1) d =
      next.bind fun r => (approveScreens pf o n r.1).map fun last => (r.2 ++ last.1, last.2) := by
  cases next with
  | none => exact approveScreens_overrun h hrun
  | some r => exact approveScreens_press h hrun

theorem handlePress_asks {o : Outcome} {callback : Callback} {r : Res Device Obs Unit} (hasks : d.flow.asks = true)
    (hcallback : d.gValidateCallback = some callback) (hrun : runCallback pf o callback true d = r)
    (hthrow : ∀ e d' w, r ≠ .throw e d' w) : handle pf (.press o true) d = r := by
  apply eq_of_wp
  show wp (handlePress pf o true) _ _ _ d
  unfold handlePress
  rw [wp_bind, wp_get, if_pos rfl, if_pos hasks, hcallback, wp_catchAll]
  unfold wp
  rw [hrun]
  cases r with
  | ret a d' w => rfl
  | throw e d' w => exact absurd rfl (hthrow e d' w)
  | overrun => rfl

/-- The press on the approval screen. -/
theorem press_approves {o : Outcome} (hflow : d.flow = .confirmTx) (hcallback : d.gValidateCallback = some .uiActionTxConfirm) :
    handle pf (.press o true) d = .ret () d.approve [.response [] swOk, .display .processing] := by
  refine handlePress_asks (by rw [hflow]; rfl) hcallback ?_ (fun _ _ _ h => by cases h)
  apply eq_ret_of_wp
  show wp (uiActionTxConfirm true) _ _ _ d
  unfold uiActionTxConfirm
  simp only [if_true, wp_bind, wp_modify, wp_ioSendSw, wp_uxFlowInit]
  exact ⟨trivial, rfl, rfl⟩

end User

/-- The outputs are numbered by their places. -/
def Numbered (outs : List TxOutput) : Prop := ∀ (i : Nat) (output : TxOutput), outs[i]? = some output → output.index = i

section Review

variable (pf : Platform)

/-- The screen of an output, if its amount fits. -/
def reviewScreen (registry : TokenDataCtx) (tx : SignTxCtx) (output : TxOutput) : Option Obs :=
  (outputAmount registry tx output).map fun amount => .display (outputScreen pf tx output amount)

/-- The outputs from one on that are decoded and not in the change list. -/
def SignTxCtx.toReview (tx : SignTxCtx) (outs : List TxOutput) (c : Nat) : List TxOutput :=
  ((outs.take tx.currentOutput).drop c).filter (·.index ∉ tx.changeIndices)

/-- The screens of the outputs to confirm from one on, if their amounts fit. -/
def reviewScreens (registry : TokenDataCtx) (tx : SignTxCtx) (outs : List TxOutput) (c : Nat) : Option (List Obs) :=
  (tx.toReview outs c).mapM (reviewScreen pf registry tx)

/-- What comes after the last screen of a review. -/
def reviewEnding (tx : SignTxCtx) : List Obs :=
  if tx.currentOutput = tx.outputsLen then [.display .confirmTx, .response [] swOk, .display .processing]
  else [.response [] swOk, .display .menuMain]

theorem toReview_stopsAt {tx : SignTxCtx} {outs : List TxOutput} {c m : Nat} (hnum : Numbered outs)
    (hlen : tx.currentOutput ≤ outs.length) (hstop : StopsAt tx.changeIndices c tx.currentOutput m) :
    tx.toReview outs c = if m < tx.currentOutput then (outs[m]?).toList ++ tx.toReview outs (m + 1) else [] := by
  obtain ⟨hfrom, hbound, hpassed, hrests⟩ := hstop
  have hlength : (outs.take tx.currentOutput).length = tx.currentOutput := List.length_take_of_le hlen
  have hslot : ∀ i < tx.currentOutput, (outs.take tx.currentOutput)[i]? = outs[i]? := fun i hi => List.getElem?_take_of_lt hi
  have hsplit : (outs.take tx.currentOutput).drop c =
      ((outs.take tx.currentOutput).drop c).take (m - c) ++ (outs.take tx.currentOutput).drop m := by
    have hm : m = c + (m - c) := by omega
    conv_lhs => rw [← List.take_append_drop (m - c) ((outs.take tx.currentOutput).drop c)]
    rw [List.drop_drop, ← hm]
  have hnone : (((outs.take tx.currentOutput).drop c).take (m - c)).filter (·.index ∉ tx.changeIndices) = [] := by
    apply List.filter_eq_nil_iff.mpr
    intro output hmem
    obtain ⟨i, hi⟩ := List.mem_iff_getElem?.mp hmem
    have hlt : i < m - c := by
      have hlength := (List.getElem?_eq_some_iff.mp hi).1
      rw [List.length_take] at hlength
      omega
    rw [List.getElem?_take_of_lt hlt, List.getElem?_drop, hslot _ (by omega)] at hi
    have hindex := hnum _ _ hi
    have hchange := hpassed (c + i) (by omega) (by omega)
    rw [hindex]
    simpa using hchange
  unfold SignTxCtx.toReview
  rw [hsplit, List.filter_append, hnone, List.nil_append]
  by_cases hm : m < tx.currentOutput
  · obtain ⟨output, houtput⟩ : ∃ output, outs[m]? = some output := ⟨_, List.getElem?_eq_getElem (by omega)⟩
    have hhead : (outs.take tx.currentOutput).drop m = output :: (outs.take tx.currentOutput).drop (m + 1) := by
      rw [List.drop_eq_getElem_cons (by omega)]
      congr 1
      apply Option.some.inj
      rw [← List.getElem?_eq_getElem, hslot m hm, houtput]
    have hout := hrests hm
    rw [← hnum m output houtput] at hout
    rw [if_pos hm, hhead, List.filter_cons_of_pos (by simpa using hout), houtput]
    rfl
  · rw [if_neg hm, List.drop_eq_nil_of_le (by omega)]
    rfl

/-- The context when its saved outputs have been reviewed. -/
def SignTxCtx.reviewed (tx : SignTxCtx) : SignTxCtx := { tx.resetCall with confirmedOutputs := tx.currentOutput }

/-- More data is requested after a review. -/
structure Reviewed (d d' : Device) : Prop where
  tx : d'.tx = d.tx.reviewed
  state : d'.state = d.state
  request : d'.gContext.reqType = d.gContext.reqType
  registry : d'.gTokenSymbols = d.gTokenSymbols
  exchange : d'.exchange = d.exchange
  io : d'.gIoState = .ready
  flow : d'.flow = .menuMain

variable {pf}
variable {o : Nat → Outcome} {d : Device} {outs : List TxOutput} {c m n : Nat}

variable (pf) in
/-- From the end of the saved outputs on. -/
theorem approveScreens_concluded (hend : d.tx.confirmedOutputs = d.tx.currentOutput) (hn : 0 < n) :
    ∃ d' w, approveScreens pf o n d.concluded = some (w, d') ∧ d.tx.conclusion ++ w = reviewEnding d.tx ∧
      (d.tx.currentOutput ≠ d.tx.outputsLen → Reviewed d d') := by
  unfold Device.concluded SignTxCtx.conclusion reviewEnding
  rw [hend]
  by_cases hlast : d.tx.currentOutput = d.tx.outputsLen
  · obtain ⟨n, rfl⟩ : ∃ k, n = k + 1 := ⟨n - 1, by omega⟩
    rw [if_pos hlast, if_pos hlast, if_pos hlast, approveScreens_press rfl (press_approves rfl rfl), approveScreens_rest rfl]
    exact ⟨_, _, rfl, rfl, fun h => absurd hlast h⟩
  · rw [if_neg hlast, if_neg hlast, if_neg hlast, approveScreens_rest rfl]
    refine ⟨_, _, rfl, rfl, fun _ => ⟨?_, rfl, rfl, rfl, rfl, rfl, rfl⟩⟩
    show d.tx.resetCall = d.tx.reviewed
    unfold SignTxCtx.reviewed
    rw [← hend]
    rfl

theorem presented_output {output : TxOutput} (hm : m < d.tx.currentOutput) (houtput : outs[m]? = some output) :
    presented pf outs d m = (outputAmount d.gTokenSymbols d.tx output).map fun amount =>
      (d.showing pf m output amount, [.display (outputScreen pf d.tx output amount)]) := by
  unfold presented
  rw [if_pos hm, houtput, Option.bind_some]

theorem presented_showing (hm : m < d.tx.currentOutput) {d₁ : Device} {w : List Obs}
    (h : presented pf outs d m = some (d₁, w)) : ∃ output amount, d₁ = d.showing pf m output amount := by
  unfold presented at h
  rw [if_pos hm, Option.bind_eq_some_iff] at h
  obtain ⟨output, _, h⟩ := h
  obtain ⟨amount, _, h⟩ := Option.map_eq_some_iff.mp h
  cases h
  exact ⟨output, amount, rfl⟩

variable (pf) in
/-- A press on an output on screen goes on from the next one. -/
theorem press_showing {o : Outcome} (ho : o.Works) (h : d.tx.Reviews outs) (hreq : d.gContext.reqType = .confirmTransaction)
    (hle : d.tx.confirmedOutputs ≤ m) (hm : m < d.tx.currentOutput)
    (hgood : m + 1 = d.tx.currentOutput → m + 1 ∉ d.tx.changeIndices) {m' : Nat}
    (hstop : StopsAt d.tx.changeIndices (m + 1) d.tx.currentOutput m') (output : TxOutput) (amount : Bytes) :
    handle pf (.press o true) (d.showing pf m output amount) =
      restsIn () (presented pf outs (d.showing pf m output amount) m') := by
  have hmoved : (d.showing pf m output amount).tx.confirmedOutputs = m := confirmed_movedTo hle
  have hreviews : (d.showing pf m output amount).tx.Reviews outs := reviews_movedTo h hle (Nat.le_of_lt hm)
  refine handlePress_asks rfl rfl (uiConfirmOutput_presents pf ho hreviews hreq ?_ ?_ ?_) ?_
  · rw [hmoved]
    exact hm
  · rw [hmoved]
    exact hgood
  · rw [hmoved]
    exact hstop
  · intro e d' w hthrow
    cases hresult : presented pf outs (d.showing pf m output amount) m' with
    | none =>
        rw [hresult] at hthrow
        cases hthrow
    | some result =>
        rw [hresult] at hthrow
        cases hthrow

/-- A review from an output or the end of the saved ones on, when no change output is behind the last of them that is
shown. -/
theorem approveScreens_presented (ho : ∀ i, (o i).Works) (hnum : Numbered outs) (h : d.tx.Reviews outs)
    (hlen : d.tx.currentOutput ≤ outs.length) (hreq : d.gContext.reqType = .confirmTransaction)
    (hgood : d.tx.currentOutput ∈ d.tx.changeIndices → d.tx.currentOutput - 1 ∈ d.tx.changeIndices)
    (hc : d.tx.confirmedOutputs ≤ c) (hstop : StopsAt d.tx.changeIndices c d.tx.currentOutput m)
    (hn : d.tx.currentOutput - m < n) :
    match reviewScreens pf d.gTokenSymbols d.tx outs c with
    | none => ∀ d' w, presented pf outs d m = some (d', w) → approveScreens pf o n d' = none
    | some screens => ∃ d₁ w₁ d' w₂, presented pf outs d m = some (d₁, w₁) ∧ approveScreens pf o n d₁ = some (w₂, d') ∧
        w₁ ++ w₂ = screens ++ reviewEnding d.tx ∧ (d.tx.currentOutput ≠ d.tx.outputsLen → Reviewed d d') := by
  induction n generalizing d c m with
  | zero => omega
  | succ n ih =>
      have hle := hstop.from_le
      have hbound := hstop.le_bound
      unfold reviewScreens
      rw [toReview_stopsAt hnum hlen hstop]
      by_cases hm : m < d.tx.currentOutput
      · obtain ⟨output, houtput⟩ : ∃ output, outs[m]? = some output := ⟨_, List.getElem?_eq_getElem (by omega)⟩
        rw [if_pos hm, houtput, Option.toList_some, List.singleton_append, List.mapM_cons, presented_output hm houtput,
          reviewScreen]
        cases hamount : outputAmount d.gTokenSymbols d.tx output with
        | none => exact fun _ _ hnone => absurd hnone (by rintro ⟨⟩)
        | some amount =>
            -- the output is on screen, and the press on it goes on from the next one
            have hmoved : (d.showing pf m output amount).tx.confirmedOutputs = m := confirmed_movedTo (by omega)
            have hreviews : (d.showing pf m output amount).tx.Reviews outs := reviews_movedTo h (by omega) hbound
            obtain ⟨m', hstop'⟩ := exists_stopsAt d.tx.changeIndices (show m + 1 ≤ d.tx.currentOutput from hm)
            have hfrom := hstop'.from_le
            have hpress := press_showing pf (ho n) h hreq (by omega) hm ?hgood hstop' output amount
            case hgood =>
              intro hnext hchange
              rw [hnext] at hchange
              have hlast := hgood hchange
              rw [← hnext, Nat.add_sub_cancel] at hlast
              exact hstop.rests hm hlast
            have hrest := ih (d := d.showing pf m output amount) (c := m + 1) (m := m') hreviews hlen hreq hgood
              (by rw [hmoved]; omega) hstop' (by show d.tx.currentOutput - m' < n; omega)
            have hsame : reviewScreens pf (d.showing pf m output amount).gTokenSymbols (d.showing pf m output amount).tx outs
                (m + 1) = (d.tx.toReview outs (m + 1)).mapM (reviewScreen pf d.gTokenSymbols d.tx) := rfl
            rw [hsame] at hrest
            simp only [Option.map_some, Option.bind_eq_bind, Option.bind_some]
            cases hscreens : (d.tx.toReview outs (m + 1)).mapM (reviewScreen pf d.gTokenSymbols d.tx) with
            | none =>
                rw [hscreens] at hrest
                simp only [Option.bind_none]
                intro d' w hshown
                cases hshown
                rw [approveScreens_restsIn rfl hpress, Option.bind_eq_none_iff]
                intro result hnext
                rw [hrest _ _ hnext]
                rfl
            | some screens =>
                rw [hscreens] at hrest
                obtain ⟨d₁, w₁, d', w₂, hnext, happrove, hw, hreviewed⟩ := hrest
                refine ⟨_, _, d', w₁ ++ w₂, rfl, ?_, ?_, fun hmore => ?_⟩
                · rw [approveScreens_restsIn rfl hpress, hnext, Option.bind_some, happrove]
                  rfl
                · rw [hw]
                  rfl
                · obtain ⟨htx, hstate, hrequest, hregistry, hexchange, hio, hflow⟩ := hreviewed hmore
                  exact ⟨htx, hstate, hrequest, hregistry, hexchange, hio, hflow⟩
      · have hlast : m = d.tx.currentOutput := by omega
        have hpresented : presented pf outs d m = some ((d.movedTo m).concluded, (d.movedTo m).tx.conclusion) := if_neg hm
        have hmoved : (d.movedTo m).tx.confirmedOutputs = (d.movedTo m).tx.currentOutput := by
          rw [confirmed_movedTo (by omega)]
          exact hlast
        obtain ⟨d', w, happrove, hw, hreviewed⟩ :=
          approveScreens_concluded pf (o := o) (n := n + 1) hmoved (Nat.succ_pos n)
        rw [if_neg hm, hpresented]
        refine ⟨_, _, d', w, rfl, happrove, hw, fun hmore => ?_⟩
        obtain ⟨htx, hstate, hrequest, hregistry, hexchange, hio, hflow⟩ := hreviewed hmore
        exact ⟨htx, hstate, hrequest, hregistry, hexchange, hio, hflow⟩

end Review

/-- The cursors are at the end of the saved outputs or behind it. -/
structure SignTxCtx.Beyond (tx : SignTxCtx) : Prop where
  past : tx.bufferOutputLen ≤ tx.displayIndex
  within : tx.displayIndex ≤ tx.confirmedOutputs
  declared : tx.confirmedOutputs ≤ tx.outputsLen
  byte : tx.outputsLen < 2 ^ 8
  changeLen : tx.changeLen ≤ 1 + txMaxTokens
  changes : ∀ i ∈ tx.changeIndices, i < tx.outputsLen

/-- They are behind it: no more data can be requested. -/
structure SignTxCtx.Lost (tx : SignTxCtx) : Prop extends tx.Beyond where
  lost : tx.bufferOutputLen < tx.displayIndex

theorem SignTxCtx.Beyond.advance {tx : SignTxCtx} (h : tx.Beyond) (hmore : tx.confirmedOutputs < tx.outputsLen) :
    tx.advance.Lost ∧ tx.advance.confirmedOutputs = tx.confirmedOutputs + 1 := by
  obtain ⟨hpast, hwithin, hdeclared, hbyte, hlen, hchanges⟩ := h
  have hshown : tx.advance.displayIndex = tx.displayIndex + 1 := u8_of_lt (by omega)
  have hconfirmed : tx.advance.confirmedOutputs = tx.confirmedOutputs + 1 := u8_of_lt (by omega)
  have hsaved : tx.advance.bufferOutputLen = tx.bufferOutputLen := rfl
  have houtputs : tx.advance.outputsLen = tx.outputsLen := rfl
  exact ⟨⟨⟨by omega, by omega, by omega, hbyte, hlen, hchanges⟩, by omega⟩, hconfirmed⟩

/-- Past the last saved output the cursors are at their end. -/
theorem SignTxCtx.Reviews.advance_beyond {tx : SignTxCtx} {outs : List TxOutput} (h : tx.Reviews outs)
    (hlast : tx.confirmedOutputs + 1 = tx.currentOutput) :
    tx.advance.Beyond ∧ tx.advance.confirmedOutputs = tx.confirmedOutputs + 1 := by
  have haligned := h.cursors.aligned
  have hdeclared := h.cursors.declared
  have hcounted := h.counted
  rw [h.advance_eq (by omega)]
  refine ⟨⟨?_, ?_, ?_, h.cursors.byte, h.changeLen, h.changes⟩, rfl⟩
  · show tx.bufferOutputLen ≤ tx.displayIndex + 1
    omega
  · show tx.displayIndex + 1 ≤ tx.confirmedOutputs + 1
    omega
  · show tx.confirmedOutputs + 1 ≤ tx.outputsLen
    omega

section Lost

variable {pf : Platform} {d : Device}

theorem checkOutputIndexState_lost (h : d.tx.Lost) (hreq : d.gContext.reqType = .confirmTransaction) :
    wp checkOutputIndexState
      (fun b d' w => if b then .display .confirmTx ∈ w else d' = d ∧ d.tx.confirmedOutputs < d.tx.outputsLen)
      (fun _ _ _ => False) False d := by
  refine wp_mono (checkOutputIndexState_spec d) ?_ (fun _ _ _ h => h) id
  intro b d' w hcheck
  cases b with
  | true =>
      cases (show CheckEnds d d' w from hcheck) with
      | parsed => exact List.mem_singleton_self _
      | foreign _ request => exact absurd hreq request
      | more _ shown => exact absurd shown (Nat.ne_of_gt h.lost)
  | false =>
      obtain ⟨rfl, _, hopen, _⟩ := hcheck
      exact ⟨rfl, Nat.lt_of_le_of_ne h.declared hopen⟩

/-- The pass from the end of the saved outputs, over indices with the one at the cursor, or from behind it. -/
theorem skipPass_lost {indices : List Nat} (hindices : ∀ i ∈ indices, i ∈ d.tx.changeIndices) (h : d.tx.Beyond)
    (hedge : d.tx.confirmedOutputs ∈ indices ∨ d.tx.Lost) (hreq : d.gContext.reqType = .confirmTransaction) :
    wp (skipPass indices)
      (fun b d' w => if b then .display .confirmTx ∈ w
        else d'.tx.Lost ∧ d'.gContext.reqType = .confirmTransaction ∧
          (d.tx.confirmedOutputs < d.tx.outputsLen → d'.tx.confirmedOutputs < d'.tx.outputsLen))
      (fun _ _ _ => False) False d := by
  induction indices generalizing d with
  | nil => exact ⟨hedge.resolve_left List.not_mem_nil, hreq, id⟩
  | cons index rest ih =>
      obtain ⟨hindex, hrest⟩ := List.forall_mem_cons.mp hindices
      unfold skipPass
      rw [wp_bind, wp_get]
      by_cases hmatch : d.tx.confirmedOutputs = index
      · obtain ⟨hlost, _⟩ := h.advance (by rw [hmatch]; exact h.changes index hindex)
        rw [if_pos hmatch, wp_bind, wp_modify, wp_bind]
        refine wp_mono (checkOutputIndexState_lost (d := d.withTx d.tx.advance) hlost hreq) ?_ (fun _ _ _ h => h) id
        intro b d' w hcheck
        cases b with
        | true =>
            rw [if_pos rfl, wp_pure, if_pos rfl, List.nil_append, List.append_nil]
            exact hcheck
        | false =>
            obtain ⟨rfl, hmore⟩ := hcheck
            rw [if_neg (by decide)]
            refine wp_mono (ih hrest hlost.toBeyond (Or.inr hlost) hreq) ?_ (fun _ _ _ h => h) id
            intro b d' w' hpass
            cases b with
            | true =>
                have hconfirm : Obs.display .confirmTx ∈ w' := hpass
                exact List.mem_append_right _ (List.mem_append_right _ (List.mem_append_right _ hconfirm))
            | false =>
                obtain ⟨hlost', hreq', hless⟩ := hpass
                exact ⟨hlost', hreq', fun _ => hless hmore⟩
      · rw [if_neg hmatch]
        refine wp_mono (ih hrest h ?_ hreq) (fun _ _ _ h => h) (fun _ _ _ h => h) id
        rcases hedge with hmem | hlost
        · exact Or.inl (List.mem_of_ne_of_mem hmatch hmem)
        · exact Or.inr hlost

theorem skipChangeOutputs_lost (h : d.tx.Beyond) (hedge : d.tx.confirmedOutputs ∈ d.tx.changeIndices ∨ d.tx.Lost)
    (hreq : d.gContext.reqType = .confirmTransaction) :
    wp skipChangeOutputs
      (fun b d' w => if b then .display .confirmTx ∈ w
        else d'.tx.Lost ∧ d'.gContext.reqType = .confirmTransaction ∧
          (d.tx.confirmedOutputs < d.tx.outputsLen → d'.tx.confirmedOutputs < d'.tx.outputsLen))
      (fun _ _ _ => False) False d := by
  have hcount := h.changeLen
  obtain ⟨_, hsame⟩ := changeIndices_sorted d.tx
  unfold skipChangeOutputs
  rw [wp_bind, wp_get]
  by_cases hnone : d.tx.changeLen = 0
  · rw [if_pos hnone]
    refine ⟨hedge.resolve_left fun hmem => ?_, hreq, id⟩
    exact absurd (changeLen_pos_of_mem hmem) (by omega)
  · rw [if_neg hnone, if_neg (by omega)]
    refine skipPass_lost (fun i hi => (hsame i).mp hi) h ?_ hreq
    rcases hedge with hmem | hlost
    · exact Or.inl ((hsame _).mpr hmem)
    · exact Or.inr hlost

/-- An output is on screen, and the cursors are behind the saved ones. -/
structure Device.StandsLost (d : Device) : Prop where
  flow : d.flow = .txOutput
  callback : d.gValidateCallback = some .uiConfirmOutput
  request : d.gContext.reqType = .confirmTransaction
  cursors : d.tx.Lost
  more : d.tx.confirmedOutputs < d.tx.outputsLen

theorem uiDisplayTxOutputs_lost {o : Outcome} (ho : o.Works) (h : d.tx.Lost)
    (hreq : d.gContext.reqType = .confirmTransaction) :
    wp (uiDisplayTxOutputs pf o) (fun _ d' w => .display .confirmTx ∈ w ∨ d'.StandsLost) (fun _ _ _ => False) True d := by
  unfold uiDisplayTxOutputs prepareDisplayOutput
  rw [wp_bind, wp_bind]
  refine wp_mono (checkOutputIndexState_lost h hreq) ?_ (fun _ _ _ h => h) (fun h => h.elim)
  intro b d₁ w hcheck
  cases b with
  | true =>
      rw [if_pos rfl, wp_pure, if_pos rfl, wp_pure]
      refine Or.inl ?_
      rw [List.append_nil, List.append_nil]
      exact hcheck
  | false =>
      obtain ⟨rfl, hmore⟩ := hcheck
      rw [if_neg (by decide), wp_bind]
      refine wp_mono (skipChangeOutputs_lost h.toBeyond (Or.inr h) hreq) ?_ (fun _ _ _ h => h) (fun h => h.elim)
      intro b d₂ w' hskip
      cases b with
      | true =>
          rw [if_pos rfl, wp_pure, if_pos rfl, wp_pure]
          refine Or.inl ?_
          rw [List.append_nil, List.append_nil]
          exact List.mem_append_right _ hskip
      | false =>
          obtain ⟨hlost, hreq', hless⟩ := hskip
          rw [if_neg (by decide), wp_bind, wp_get]
          cases d₂.tx.outputs[d₂.tx.displayIndex]? with
          | none => trivial
          | some output =>
              simp only [wp_bind, wp_modify, addressFromPubkeyHash_works pf ho]
              cases outputSymbol d₂.gTokenSymbols d₂.tx output with
              | none => trivial
              | some symbol =>
                  dsimp only
                  cases amountText symbol output.value with
                  | none => trivial
                  | some amount =>
                      simp only [wp_bind, wp_modify, wp_pure, wp_askUser, Bool.false_eq_true, if_false]
                      exact Or.inr ⟨rfl, rfl, hreq', hlost, hless hmore⟩

/-- A press that takes the cursors behind the saved outputs, or finds them there. -/
theorem uiConfirmOutput_lost {o : Outcome} (ho : o.Works) (h : d.tx.advance.Beyond)
    (hedge : d.tx.advance.confirmedOutputs ∈ d.tx.changeIndices ∨ d.tx.advance.Lost)
    (hreq : d.gContext.reqType = .confirmTransaction) :
    wp (uiConfirmOutput pf o true) (fun _ d' w => .display .confirmTx ∈ w ∨ d'.StandsLost) (fun _ _ _ => False) True d := by
  unfold uiConfirmOutput
  rw [if_pos rfl, wp_bind, wp_modify, wp_bind]
  refine wp_mono (skipChangeOutputs_lost (d := d.withTx d.tx.advance) h hedge hreq) ?_ (fun _ _ _ h => h) (fun h => h.elim)
  intro b d₁ w hskip
  cases b with
  | true =>
      rw [if_pos rfl, wp_pure]
      refine Or.inl ?_
      rw [List.append_nil, List.nil_append]
      exact hskip
  | false =>
      obtain ⟨hlost, hreq', _⟩ := hskip
      rw [if_neg (by decide), wp_bind]
      refine wp_mono (uiDisplayTxOutputs_lost ho hlost hreq') ?_ (fun _ _ _ h => h) id
      intro _ d' w' hshown
      rw [wp_pure]
      rcases hshown with hconfirm | hstands
      · refine Or.inl (List.mem_append_right _ (List.mem_append_right _ ?_))
        rwa [List.append_nil]
      · exact Or.inr hstands

section Approve

variable {o : Nat → Outcome} {n : Nat} {d' : Device} {w : List Obs}

/-- The approval is put up by a press, or by the presses after it. -/
theorem approveScreens_confirms (hflow : d.flow = .txOutput) (hcallback : d.gValidateCallback = some .uiConfirmOutput)
    (hpress : wp (uiConfirmOutput pf (o n) true) (fun _ d₁ w₁ => .display .confirmTx ∈ w₁ ∨ d₁.StandsLost)
      (fun _ _ _ => False) True d)
    (hrest : ∀ d₁ w₁, d₁.StandsLost → approveScreens pf o n d₁ = some (w₁, d') → .display .confirmTx ∈ w₁)
    (happrove : approveScreens pf o (n + 1) d = some (w, d')) : .display .confirmTx ∈ w := by
  have hasks : d.flow.asks = true := by
    rw [hflow]
    rfl
  unfold wp at hpress
  cases hrun : uiConfirmOutput pf (o n) true d with
  | ret _ d₁ w₁ =>
      rw [hrun] at hpress
      rw [approveScreens_press hasks (handlePress_asks hasks hcallback hrun (fun _ _ _ h => by cases h)),
        Option.map_eq_some_iff] at happrove
      obtain ⟨⟨w₂, d₂⟩, happrove, heq⟩ := happrove
      cases heq
      rcases hpress with hconfirm | hstands
      · exact List.mem_append_left _ hconfirm
      · exact List.mem_append_right _ (hrest d₁ w₂ hstands happrove)
  | throw e d₁ w₁ =>
      rw [hrun] at hpress
      exact hpress.elim
  | overrun =>
      rw [approveScreens_overrun hasks (handlePress_asks hasks hcallback hrun (fun _ _ _ h => by cases h))] at happrove
      cases happrove

/-- Only the approval ends a review whose cursors are lost. -/
theorem approveScreens_lost (ho : ∀ i, (o i).Works) (h : d.StandsLost) (happrove : approveScreens pf o n d = some (w, d')) :
    .display .confirmTx ∈ w := by
  induction n generalizing d w with
  | zero =>
      rw [approveScreens, if_pos (by rw [h.flow]; rfl)] at happrove
      cases happrove
  | succ n ih =>
      obtain ⟨hlost, _⟩ := h.cursors.toBeyond.advance h.more
      exact approveScreens_confirms h.flow h.callback (uiConfirmOutput_lost (ho n) hlost.toBeyond (Or.inr hlost) h.request)
        (fun _ _ hstands => ih hstands) happrove

/-- A review of saved outputs that end behind an output to confirm and before one of the change list. -/
theorem approveScreens_slips {outs : List TxOutput} {m : Nat} (ho : ∀ i, (o i).Works) (h : d.tx.Reviews outs)
    (hreq : d.gContext.reqType = .confirmTransaction) (hchange : d.tx.currentOutput ∈ d.tx.changeIndices)
    (hlast : d.tx.currentOutput - 1 ∉ d.tx.changeIndices) (hle : d.tx.confirmedOutputs ≤ m) (hm : m < d.tx.currentOutput)
    {d₁ : Device} {w₁ : List Obs} (hshown : presented pf outs d m = some (d₁, w₁))
    (happrove : approveScreens pf o n d₁ = some (w, d')) : .display .confirmTx ∈ w := by
  induction n generalizing d m d₁ w₁ w with
  | zero =>
      obtain ⟨output, amount, rfl⟩ := presented_showing hm hshown
      rw [approveScreens, if_pos (by rfl)] at happrove
      cases happrove
  | succ n ih =>
      obtain ⟨output, amount, rfl⟩ := presented_showing hm hshown
      have hmoved : (d.showing pf m output amount).tx.confirmedOutputs = m := confirmed_movedTo hle
      have hreviews : (d.showing pf m output amount).tx.Reviews outs := reviews_movedTo h hle (Nat.le_of_lt hm)
      by_cases hnext : m + 1 = d.tx.currentOutput
      · -- the press on the last one takes the cursors past the next, which is in the list
        obtain ⟨hbeyond, hconfirmed⟩ := hreviews.advance_beyond (by rw [hmoved]; exact hnext)
        refine approveScreens_confirms rfl rfl (uiConfirmOutput_lost (ho n) hbeyond (Or.inl ?_) hreq)
          (fun _ _ hstands => approveScreens_lost ho hstands) happrove
        rw [hconfirmed, hmoved, hnext]
        exact hchange
      · obtain ⟨m', hstop⟩ := exists_stopsAt d.tx.changeIndices (show m + 1 ≤ d.tx.currentOutput from hm)
        have hfrom := hstop.from_le
        have hbound := hstop.le_bound
        have hm' : m' < d.tx.currentOutput := by
          by_contra hend
          exact hlast (hstop.passed _ (by omega) (by omega))
        have hpress := press_showing pf (ho n) h hreq hle hm (fun hend => absurd hend hnext) hstop output amount
        rw [approveScreens_restsIn rfl hpress, Option.bind_eq_some_iff] at happrove
        obtain ⟨⟨d₂, w₂⟩, hresult, hrest⟩ := happrove
        obtain ⟨⟨w₃, d₃⟩, hlater, heq⟩ := Option.map_eq_some_iff.mp hrest
        cases heq
        exact List.mem_append_right _ (ih hreviews hreq hchange hlast (by rw [hmoved]; omega) hm' hresult hlater)

end Approve

end Lost

end HathorApp
