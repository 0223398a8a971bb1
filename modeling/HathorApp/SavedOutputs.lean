import HathorApp.ChangeOutputs
import HathorApp.Confirmation

/-!
The review of the saved outputs, step by step. From a cursor within them the display comes to rest at the first output
that is not in the change list, or at their end, where the approval or more data is asked for. A press does the same
from the next output on, unless that is behind the end and in the change list.
-/

namespace HathorApp

open ProgramLogic

/-- The device where `check_output_index_state` stops the display of a session. -/
def Device.concluded (d : Device) : Device :=
  if d.tx.confirmedOutputs = d.tx.outputsLen then
    { d.withState .parsed with gValidateCallback := some .uiActionTxConfirm, flow := .confirmTx }
  else { d.withTx d.tx.resetCall with gIoState := .ready, flow := .menuMain }

def SignTxCtx.conclusion (tx : SignTxCtx) : List Obs :=
  if tx.confirmedOutputs = tx.outputsLen then [.display .confirmTx] else [.response [] swOk, .display .menuMain]

theorem checkOutputIndexState_closed {d : Device} (hclosed : ¬d.tx.Open)
    (hreq : d.gContext.reqType = .confirmTransaction) :
    checkOutputIndexState d = .ret true d.concluded d.tx.conclusion := by
  apply eq_ret_of_wp
  refine wp_mono (checkOutputIndexState_spec d) ?_ (fun _ _ _ h => h) id
  intro b d' w hcheck
  cases b with
  | false => exact absurd hcheck.2.2 hclosed
  | true =>
      unfold Device.concluded SignTxCtx.conclusion
      cases (show CheckEnds d d' w from hcheck) with
      | parsed confirmed =>
          rw [if_pos confirmed, if_pos confirmed]
          exact ⟨rfl, rfl, rfl⟩
      | foreign _ request => exact absurd hreq request
      | more pending =>
          rw [if_neg pending, if_neg pending]
          exact ⟨rfl, rfl, rfl⟩

/-- The first index from `c` on that is not in the list, or the bound. -/
structure StopsAt (indices : List Nat) (c bound m : Nat) : Prop where
  from_le : c ≤ m
  le_bound : m ≤ bound
  passed : ∀ i, c ≤ i → i < m → i ∈ indices
  rests : m < bound → m ∉ indices

theorem exists_stopsAt (indices : List Nat) {c bound : Nat} (h : c ≤ bound) : ∃ m, StopsAt indices c bound m := by
  induction hlen : bound - c generalizing c with
  | zero =>
      have hend : c = bound := by omega
      exact ⟨c, Nat.le_refl c, h, fun i hle hlt => absurd hle (Nat.not_le.mpr hlt), fun hlt => absurd hlt (by omega)⟩
  | succ n ih =>
      by_cases hmem : c ∈ indices
      · obtain ⟨m, hfrom, hbound, hpassed, hrests⟩ := ih (c := c + 1) (by omega) (by omega)
        refine ⟨m, by omega, hbound, fun i hle hlt => ?_, hrests⟩
        by_cases hfirst : i = c
        · rw [hfirst]
          exact hmem
        · exact hpassed i (by omega) hlt
      · exact ⟨c, Nat.le_refl c, h, fun i hle hlt => absurd hle (Nat.not_le.mpr hlt), fun _ => hmem⟩

theorem stopsAt_self {indices : List Nat} {c bound : Nat} (hle : c ≤ bound) (hout : c ∉ indices) :
    StopsAt indices c bound c :=
  ⟨Nat.le_refl c, hle, fun _ hle hlt => absurd hle (Nat.not_le.mpr hlt), fun _ => hout⟩

/-- The cursors are within the saved outputs, the last ones of a list, and the change entries are of declared outputs. -/
structure SignTxCtx.Reviews (tx : SignTxCtx) (outs : List TxOutput) : Prop where
  cursors : tx.Aligned
  counted : tx.bufferOutputLen ≤ tx.currentOutput
  changeLen : tx.changeLen ≤ 1 + txMaxTokens
  changes : ∀ i ∈ tx.changeIndices, i < tx.outputsLen
  saved : ∀ j < tx.bufferOutputLen, tx.outputs[j]? = outs[tx.currentOutput - tx.bufferOutputLen + j]?

section Reviews

variable {tx : SignTxCtx} {outs : List TxOutput}

theorem SignTxCtx.Reviews.le (h : tx.Reviews outs) : tx.confirmedOutputs ≤ tx.currentOutput := by
  have haligned := h.cursors.aligned
  have hshown := h.cursors.shown
  omega

theorem SignTxCtx.Reviews.advanceBy (h : tx.Reviews outs) {r : Nat} (hr : tx.confirmedOutputs + r ≤ tx.currentOutput) :
    (tx.advanceBy r).Reviews outs := by
  have haligned := h.cursors.aligned
  have hshown := h.cursors.shown
  refine ⟨⟨?_, ?_, h.cursors.declared, h.cursors.byte, h.cursors.slots⟩, h.counted, h.changeLen, h.changes, h.saved⟩
  · show tx.confirmedOutputs + r + tx.bufferOutputLen = tx.currentOutput + (tx.displayIndex + r)
    omega
  · show tx.displayIndex + r ≤ tx.bufferOutputLen
    omega

theorem SignTxCtx.Reviews.advance_eq (h : tx.Reviews outs) (hmore : tx.confirmedOutputs < tx.currentOutput) :
    tx.advance = tx.advanceBy 1 := by
  have haligned := h.cursors.aligned
  obtain ⟨_, hshown, hconfirmed⟩ := h.cursors.advance (by omega)
  unfold SignTxCtx.advanceBy
  rw [← hshown, ← hconfirmed]
  rfl

/-- The slot at the cursor holds the output with its index. -/
theorem SignTxCtx.Reviews.slot (h : tx.Reviews outs) (hmore : tx.confirmedOutputs < tx.currentOutput) :
    tx.outputs[tx.displayIndex]? = outs[tx.confirmedOutputs]? := by
  have haligned := h.cursors.aligned
  have hshown := h.cursors.shown
  have hcounted := h.counted
  have hindex : tx.currentOutput - tx.bufferOutputLen + tx.displayIndex = tx.confirmedOutputs := by omega
  rw [h.saved tx.displayIndex (by omega), hindex]

/-- The display goes on exactly before the end of the saved outputs. -/
theorem SignTxCtx.Reviews.open_iff (h : tx.Reviews outs) : tx.Open ↔ tx.confirmedOutputs < tx.currentOutput := by
  have haligned := h.cursors.aligned
  have hshown := h.cursors.shown
  have hdeclared := h.cursors.declared
  unfold SignTxCtx.Open
  omega

end Reviews

/-- The device with its cursors moved on to an output. -/
def Device.movedTo (d : Device) (m : Nat) : Device := d.withTx (d.tx.advanceBy (m - d.tx.confirmedOutputs))

theorem SignTxCtx.advanceBy_zero (tx : SignTxCtx) : tx.advanceBy 0 = tx := rfl

section Skip

variable {d : Device} {outs : List TxOutput} {m : Nat}

theorem Device.movedTo_self (d : Device) : d.movedTo d.tx.confirmedOutputs = d := by
  unfold Device.movedTo
  rw [Nat.sub_self, SignTxCtx.advanceBy_zero, Device.withTx_tx]

theorem confirmed_movedTo (hle : d.tx.confirmedOutputs ≤ m) : (d.movedTo m).tx.confirmedOutputs = m := by
  show d.tx.confirmedOutputs + (m - d.tx.confirmedOutputs) = m
  omega

theorem reviews_movedTo (h : d.tx.Reviews outs) (hle : d.tx.confirmedOutputs ≤ m) (hbound : m ≤ d.tx.currentOutput) :
    (d.movedTo m).tx.Reviews outs := h.advanceBy (by omega)

/-- A pass over a run of change outputs up to the end of the saved ones stops there. -/
theorem skipPass_all {indices : List Nat} (hsorted : indices.Pairwise (· ≤ ·)) {r : Nat} (h : d.tx.Reviews outs)
    (hreq : d.gContext.reqType = .confirmTransaction) (hrun : ∀ k ≤ r, d.tx.confirmedOutputs + k ∈ indices)
    (hend : d.tx.confirmedOutputs + (r + 1) = d.tx.currentOutput) :
    skipPass indices d = .ret true (d.withTx (d.tx.advanceBy (r + 1))).concluded (d.tx.advanceBy (r + 1)).conclusion := by
  induction indices generalizing d r with
  | nil => exact absurd (hrun 0 (Nat.zero_le r)) List.not_mem_nil
  | cons index rest ih =>
      obtain ⟨hleast, hrest⟩ := List.pairwise_cons.mp hsorted
      apply eq_ret_of_wp
      unfold skipPass
      rw [wp_bind, wp_get]
      by_cases hmatch : d.tx.confirmedOutputs = index
      · have hnext := h.advanceBy (r := 1) (by omega)
        have hconfirmed : (d.tx.advanceBy 1).confirmedOutputs = d.tx.confirmedOutputs + 1 := rfl
        have hcurrent : (d.tx.advanceBy 1).currentOutput = d.tx.currentOutput := rfl
        rw [if_pos hmatch, wp_bind, wp_modify, h.advance_eq (by omega), wp_bind]
        cases r with
        | zero =>
            have hclosed : ¬(d.withTx (d.tx.advanceBy 1)).tx.Open := by
              rw [Device.tx_withTx, hnext.open_iff]
              omega
            rw [wp_of_ret (checkOutputIndexState_closed hclosed hreq), if_pos rfl, wp_pure, List.append_nil]
            exact ⟨rfl, rfl, rfl⟩
        | succ r =>
            have hopen : (d.withTx (d.tx.advanceBy 1)).tx.Open := by
              rw [Device.tx_withTx, hnext.open_iff]
              omega
            have hmem : ∀ k ≤ r, (d.tx.advanceBy 1).confirmedOutputs + k ∈ rest := by
              intro k hk
              have hindex : d.tx.confirmedOutputs + 1 + k = d.tx.confirmedOutputs + (k + 1) := by omega
              rw [hconfirmed, hindex]
              exact List.mem_of_ne_of_mem (by omega) (hrun (k + 1) (by omega))
            have hlast : (d.tx.advanceBy 1).confirmedOutputs + (r + 1) = (d.tx.advanceBy 1).currentOutput := by omega
            have hpass := ih (d := d.withTx (d.tx.advanceBy 1)) hrest hnext hreq hmem hlast
            rw [Device.tx_withTx, SignTxCtx.advanceBy_advanceBy, Nat.add_comm 1] at hpass
            rw [wp_of_ret (checkOutputIndexState_open hopen), if_neg (by decide), wp_of_ret hpass]
            exact ⟨rfl, rfl, rfl⟩
      · have hmem : ∀ k ≤ r, d.tx.confirmedOutputs + k ∈ rest := by
          intro k hk
          have hbelow : index ≤ d.tx.confirmedOutputs := by
            rcases List.mem_cons.mp (hrun 0 (Nat.zero_le r)) with heq | hrest
            · exact absurd heq hmatch
            · exact hleast _ hrest
          exact List.mem_of_ne_of_mem (by omega) (hrun k hk)
        rw [if_neg hmatch, wp_of_ret (ih hrest h hreq hmem hend)]
        exact ⟨rfl, rfl, rfl⟩

theorem changeIndices_sorted (tx : SignTxCtx) :
    (inplaceSelectionSort tx.changeIndices).Pairwise (· ≤ ·) ∧
      ∀ i, i ∈ inplaceSelectionSort tx.changeIndices ↔ i ∈ tx.changeIndices :=
  ⟨SelectionSort.selectionSort_sorted _, fun _ => (SelectionSort.selectionSort_perm tx.changeIndices).mem_iff⟩

theorem changeLen_pos_of_mem {tx : SignTxCtx} {i : Nat} (h : i ∈ tx.changeIndices) : 1 ≤ tx.changeLen := by
  apply Nat.pos_of_ne_zero
  intro hzero
  unfold SignTxCtx.changeIndices SignTxCtx.changes at h
  rw [hzero, List.take_zero] at h
  exact absurd h List.not_mem_nil

/-- Nothing is skipped at an output that is not in the change list. -/
theorem skipChangeOutputs_outside (hlen : d.tx.changeLen ≤ 1 + txMaxTokens)
    (hout : d.tx.confirmedOutputs ∉ d.tx.changeIndices) : skipChangeOutputs d = .ret false d [] := by
  have hpass : ∀ indices : List Nat, d.tx.confirmedOutputs ∉ indices → skipPass indices d = .ret false d [] := by
    intro indices hnot
    induction indices with
    | nil => rfl
    | cons index rest ih =>
        rw [List.mem_cons, not_or] at hnot
        apply eq_ret_of_wp
        unfold skipPass
        rw [wp_bind, wp_get, if_neg hnot.1, wp_of_ret (ih hnot.2)]
        exact ⟨rfl, rfl, rfl⟩
  obtain ⟨_, hsame⟩ := changeIndices_sorted d.tx
  apply eq_ret_of_wp
  unfold skipChangeOutputs
  rw [wp_bind, wp_get]
  by_cases hnone : d.tx.changeLen = 0
  · rw [if_pos hnone]
    exact ⟨rfl, rfl, rfl⟩
  · rw [if_neg hnone, if_neg (by omega)]
    have hskip := hpass (inplaceSelectionSort d.tx.changeIndices) fun hmem => hout ((hsame _).mp hmem)
    exact (wp_of_ret hskip).mpr ⟨rfl, rfl, rfl⟩

/-- From within the saved outputs the cursors come to rest at an output to confirm. -/
theorem skipChangeOutputs_rests (h : d.tx.Reviews outs)
    (hstop : StopsAt d.tx.changeIndices d.tx.confirmedOutputs d.tx.currentOutput m)
    (hmore : m < d.tx.currentOutput) : skipChangeOutputs d = .ret false (d.movedTo m) [] := by
  have hle := hstop.from_le
  have haligned := h.cursors.aligned
  have hdeclared := h.cursors.declared
  have hbyte := h.cursors.byte
  have hslots := h.cursors.slots
  have hten : outputSlots = 10 := rfl
  have hm : d.tx.confirmedOutputs + (m - d.tx.confirmedOutputs) = m := by omega
  by_cases hfirst : d.tx.confirmedOutputs ∈ d.tx.changeIndices
  · have hrun : LongestRun d.tx.changeIndices d.tx.confirmedOutputs (m - d.tx.confirmedOutputs) := by
      refine ⟨fun k hk => hstop.passed _ (by omega) (by omega), ?_⟩
      rw [hm]
      exact hstop.rests hmore
    obtain ⟨d', hskip, rfl, _⟩ := skipChangeOutputs_run (changeLen_pos_of_mem hfirst) h.changeLen hrun (by omega) (by omega)
      (by omega) hbyte
    exact hskip
  · have hsame : m = d.tx.confirmedOutputs := by
      by_contra hne
      exact hfirst (hstop.passed _ (Nat.le_refl _) (by omega))
    rw [hsame, Device.movedTo_self]
    exact skipChangeOutputs_outside h.changeLen hfirst

/-- When all that are left are change outputs, they are skipped and the display ends. -/
theorem skipChangeOutputs_ends (h : d.tx.Reviews outs) (hreq : d.gContext.reqType = .confirmTransaction)
    (hmore : d.tx.confirmedOutputs < d.tx.currentOutput)
    (hstop : StopsAt d.tx.changeIndices d.tx.confirmedOutputs d.tx.currentOutput d.tx.currentOutput) :
    skipChangeOutputs d =
      .ret true (d.movedTo d.tx.currentOutput).concluded (d.movedTo d.tx.currentOutput).tx.conclusion := by
  obtain ⟨hsorted, hsame⟩ := changeIndices_sorted d.tx
  obtain ⟨r, hr⟩ : ∃ r, d.tx.currentOutput - d.tx.confirmedOutputs = r + 1 :=
    ⟨d.tx.currentOutput - d.tx.confirmedOutputs - 1, by omega⟩
  have hfirst := hstop.passed _ (Nat.le_refl _) hmore
  have hsome := changeLen_pos_of_mem hfirst
  have hlen := h.changeLen
  have hpass := skipPass_all hsorted (r := r) h hreq (fun k hk => (hsame _).mpr (hstop.passed _ (by omega) (by omega))) (by omega)
  apply eq_ret_of_wp
  unfold skipChangeOutputs Device.movedTo
  rw [wp_bind, wp_get, if_neg (by omega), if_neg (by omega), hr]
  exact (wp_of_ret hpass).mpr ⟨rfl, rfl, rfl⟩

theorem movedTo_movedTo {a : Nat} (ha : d.tx.confirmedOutputs ≤ a) (hm : a ≤ m) : (d.movedTo a).movedTo m = d.movedTo m := by
  have hsum : a - d.tx.confirmedOutputs + (m - a) = m - d.tx.confirmedOutputs := by omega
  rw [Device.movedTo, confirmed_movedTo ha]
  unfold Device.movedTo
  rw [Device.tx_withTx, SignTxCtx.advanceBy_advanceBy, hsum, Device.withTx_withTx]

end Skip

/-- Every call of the SDK works. -/
def Outcome.Works (o : Outcome) : Prop := ∀ call, o.ok call = true

section Present

variable (pf : Platform)

theorem addressFromPubkeyHash_works {o : Outcome} (ho : o.Works) (publicKeyHash : Bytes) :
    addressFromPubkeyHash pf o publicKeyHash = some (addressOf pf publicKeyHash) := by
  unfold addressFromPubkeyHash sha256d cxHashSha256
  simp only [ho _, if_true]
  rfl

/-- The device with an output on screen. -/
def Device.showing (d : Device) (m : Nat) (output : TxOutput) (amount : Bytes) : Device :=
  { (d.movedTo m).withTexts pf output amount with gValidateCallback := some .uiConfirmOutput, flow := .txOutput }

/-- The device at rest with the cursors moved on to an output or behind the saved ones, and what is put up there; none is
an amount that does not fit. -/
def presented (outs : List TxOutput) (d : Device) (m : Nat) : Option (Device × List Obs) :=
  if m < d.tx.currentOutput then
    (outs[m]?).bind fun output => (outputAmount d.gTokenSymbols d.tx output).map fun amount =>
      (d.showing pf m output amount, [.display (outputScreen pf d.tx output amount)])
  else some ((d.movedTo m).concluded, (d.movedTo m).tx.conclusion)

/-- A program that comes to rest so. -/
def restsIn {α : Type} (a : α) : Option (Device × List Obs) → Res Device Obs α
  | none => .overrun
  | some (d, w) => .ret a d w

variable {o : Outcome} {d : Device} {outs : List TxOutput} {m : Nat}

theorem presented_movedTo {a : Nat} (ha : d.tx.confirmedOutputs ≤ a) (hm : a ≤ m) :
    presented pf outs (d.movedTo a) m = presented pf outs d m := by
  unfold presented Device.showing
  rw [movedTo_movedTo ha hm]
  rfl

/-- The display goes on from where the skipping stops. -/
theorem uiDisplayTxOutputs_rests (ho : o.Works) (h : d.tx.Reviews outs) (hmore : d.tx.confirmedOutputs < d.tx.currentOutput)
    (hle : d.tx.confirmedOutputs ≤ m) (hm : m < d.tx.currentOutput)
    (hskip : skipChangeOutputs d = .ret false (d.movedTo m) []) :
    uiDisplayTxOutputs pf o d = restsIn 0 (presented pf outs d m) := by
  have hopen : d.tx.Open := h.open_iff.mpr hmore
  have hslot := (reviews_movedTo h hle (Nat.le_of_lt hm)).slot (by rw [confirmed_movedTo hle]; exact hm)
  rw [confirmed_movedTo hle] at hslot
  have hregistry : (d.movedTo m).gTokenSymbols = d.gTokenSymbols := rfl
  have htokens : outputSymbol d.gTokenSymbols (d.movedTo m).tx = outputSymbol d.gTokenSymbols d.tx := rfl
  apply eq_of_wp
  unfold uiDisplayTxOutputs prepareDisplayOutput presented outputAmount
  rw [if_pos hm, wp_bind, wp_bind, wp_of_ret (checkOutputIndexState_open hopen), if_neg (by decide), wp_bind, wp_of_ret hskip,
    if_neg (by decide), wp_bind, wp_get, hslot]
  cases outs[m]? with
  | none => rfl
  | some output =>
      simp only [wp_bind, wp_modify, addressFromPubkeyHash_works pf ho, hregistry, htokens, Option.bind_some]
      cases outputSymbol d.gTokenSymbols d.tx output with
      | none => rfl
      | some symbol =>
          simp only [Option.bind_some]
          cases amountText symbol output.value with
          | none => rfl
          | some amount =>
              simp only [wp_bind, wp_modify, wp_pure, wp_askUser, Bool.false_eq_true, if_false]
              rfl

/-- The display from a cursor within the saved outputs or at their end. -/
theorem uiDisplayTxOutputs_presents (ho : o.Works) (h : d.tx.Reviews outs) (hreq : d.gContext.reqType = .confirmTransaction)
    (hstop : StopsAt d.tx.changeIndices d.tx.confirmedOutputs d.tx.currentOutput m) :
    uiDisplayTxOutputs pf o d = restsIn 0 (presented pf outs d m) := by
  have hle := hstop.from_le
  have hbound := hstop.le_bound
  by_cases hm : m < d.tx.currentOutput
  · exact uiDisplayTxOutputs_rests pf ho h (by omega) hle hm (skipChangeOutputs_rests h hstop hm)
  · have hlast : m = d.tx.currentOutput := by omega
    apply eq_of_wp
    unfold uiDisplayTxOutputs prepareDisplayOutput presented
    rw [if_neg hm]
    by_cases hmore : d.tx.confirmedOutputs < d.tx.currentOutput
    · have hskip := skipChangeOutputs_ends h hreq hmore (hlast ▸ hstop)
      rw [wp_bind, wp_bind, wp_of_ret (checkOutputIndexState_open (h.open_iff.mpr hmore)), if_neg (by decide), wp_bind,
        wp_of_ret hskip, hlast]
      simp only [if_true, wp_pure, List.nil_append, List.append_nil]
      rfl
    · have hsame : m = d.tx.confirmedOutputs := by omega
      have hclosed : ¬d.tx.Open := fun hopen => hmore (h.open_iff.mp hopen)
      rw [hsame, Device.movedTo_self, wp_bind, wp_bind, wp_of_ret (checkOutputIndexState_closed hclosed hreq)]
      simp only [if_true, wp_pure, List.append_nil]
      rfl

/-- `ui_confirm_output` from where it has moved the cursors to. -/
theorem skipThenDisplay_presents (ho : o.Works) (h : d.tx.Reviews outs) (hreq : d.gContext.reqType = .confirmTransaction)
    (hgood : d.tx.confirmedOutputs = d.tx.currentOutput → d.tx.confirmedOutputs ∉ d.tx.changeIndices)
    (hstop : StopsAt d.tx.changeIndices d.tx.confirmedOutputs d.tx.currentOutput m) :
    (do
      if ← skipChangeOutputs then return ()
      else do
        let _ ← uiDisplayTxOutputs pf o
        return () : App Unit) d = restsIn () (presented pf outs d m) := by
  have hle := hstop.from_le
  have hbound := hstop.le_bound
  apply eq_of_wp
  rw [wp_bind]
  by_cases hm : m < d.tx.currentOutput
  · -- an output to confirm is left: the display stays at it
    have hmoved := confirmed_movedTo (d := d) hle
    have hthere : StopsAt (d.movedTo m).tx.changeIndices (d.movedTo m).tx.confirmedOutputs
        (d.movedTo m).tx.currentOutput m := by
      rw [hmoved]
      exact stopsAt_self hbound (hstop.rests hm)
    have hdisplay := uiDisplayTxOutputs_presents pf ho (reviews_movedTo h hle hbound) hreq hthere
    rw [presented_movedTo pf hle (Nat.le_refl m)] at hdisplay
    rw [wp_of_ret (skipChangeOutputs_rests h hstop hm), if_neg (by decide), wp_bind]
    cases hresult : presented pf outs d m with
    | none =>
        rw [hresult] at hdisplay
        exact (wp_of_overrun hdisplay).mpr rfl
    | some result =>
        rw [hresult] at hdisplay
        rw [wp_of_ret hdisplay, wp_pure, List.append_nil]
        rfl
  · have hlast : m = d.tx.currentOutput := by omega
    by_cases hmore : d.tx.confirmedOutputs < d.tx.currentOutput
    · rw [wp_of_ret (skipChangeOutputs_ends h hreq hmore (hlast ▸ hstop)), if_pos rfl, hlast]
      unfold presented
      rw [if_neg (Nat.lt_irrefl _), wp_pure, List.append_nil]
      rfl
    · have hend : d.tx.confirmedOutputs = d.tx.currentOutput := by omega
      have hdisplay := uiDisplayTxOutputs_presents pf ho h hreq hstop
      rw [wp_of_ret (skipChangeOutputs_outside h.changeLen (hgood hend)), if_neg (by decide), wp_bind]
      cases hresult : presented pf outs d m with
      | none =>
          rw [hresult] at hdisplay
          exact (wp_of_overrun hdisplay).mpr rfl
      | some result =>
          rw [hresult] at hdisplay
          rw [wp_of_ret hdisplay, wp_pure, List.append_nil]
          rfl

/-- A press goes on from the next output, unless that one is behind the saved ones and in the change list. -/
theorem uiConfirmOutput_presents (ho : o.Works) (h : d.tx.Reviews outs) (hreq : d.gContext.reqType = .confirmTransaction)
    (hmore : d.tx.confirmedOutputs < d.tx.currentOutput)
    (hgood : d.tx.confirmedOutputs + 1 = d.tx.currentOutput → d.tx.confirmedOutputs + 1 ∉ d.tx.changeIndices)
    (hstop : StopsAt d.tx.changeIndices (d.tx.confirmedOutputs + 1) d.tx.currentOutput m) :
    uiConfirmOutput pf o true d = restsIn () (presented pf outs d m) := by
  have hstep := Nat.le_add_right d.tx.confirmedOutputs 1
  have hmoved := confirmed_movedTo (d := d) hstep
  have hnext : d.withTx d.tx.advance = d.movedTo (d.tx.confirmedOutputs + 1) := by
    unfold Device.movedTo
    rw [h.advance_eq hmore, Nat.add_sub_cancel_left]
  have hrest := skipThenDisplay_presents pf (m := m) ho (reviews_movedTo h hstep hmore) hreq
    (by rw [hmoved]; exact hgood) (by rw [hmoved]; exact hstop)
  rw [presented_movedTo pf hstep hstop.from_le] at hrest
  apply eq_of_wp
  unfold uiConfirmOutput
  rw [if_pos rfl, wp_bind, wp_modify, hnext]
  cases hresult : presented pf outs d m with
  | none =>
      rw [hresult] at hrest
      exact (wp_of_overrun hrest).mpr rfl
  | some result =>
      rw [hresult] at hrest
      exact (wp_of_ret hrest).mpr rfl

end Present

end HathorApp
