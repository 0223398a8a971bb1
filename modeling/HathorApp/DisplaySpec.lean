import HathorApp.DeviceSpec

/-!
What the display code of SIGN_TX does. It moves the two cursors past change outputs, one at a time,
and stops in one of few ways: everything is confirmed and the approval is asked for, the saved outputs
are used up and more data is requested, or an output is put on screen.

`SkipsTo` is the movement. `DisplayEnds` are the ways of stopping, each with the state the application
is left in and what the outside sees. Both callers of `skip_change_outputs` have a specification in
these terms; they differ in whether the cursors have been checked before the first output is skipped.
-/

namespace HathorApp

open ProgramLogic

/-- The indices of the change list in use. -/
def SignTxCtx.changeIndices (tx : SignTxCtx) : List Nat := tx.changes.map (·.index)

/-- `check_output_index_state` lets the display go on. -/
def SignTxCtx.Open (tx : SignTxCtx) : Prop :=
  tx.confirmedOutputs ≠ tx.outputsLen ∧ tx.displayIndex ≠ tx.bufferOutputLen

/-- The context with the cursors of another. -/
def SignTxCtx.withCursors (tx cursors : SignTxCtx) : SignTxCtx :=
  { tx with displayIndex := cursors.displayIndex, confirmedOutputs := cursors.confirmedOutputs }

/-- Change outputs skipped one after the other. Before each but the first the cursors are checked. -/
inductive SkipsTo (start : SignTxCtx) : SignTxCtx → Prop where
  | refl : SkipsTo start start
  | skip {tx : SignTxCtx} (skips : SkipsTo start tx) (inside : tx = start ∨ tx.Open)
      (change : tx.confirmedOutputs ∈ tx.changeIndices) : SkipsTo start tx.advance

/-- Only the cursors move. -/
theorem SkipsTo.frame {start tx : SignTxCtx} (h : SkipsTo start tx) : tx = start.withCursors tx := by
  induction h with
  | refl => rfl
  | skip skips inside change ih =>
      rw [ih]
      rfl

theorem SkipsTo.trans {a b c : SignTxCtx} (hab : SkipsTo a b) (hbc : SkipsTo b c) (hb : b = a ∨ b.Open) :
    SkipsTo a c := by
  induction hbc with
  | refl => exact hab
  | skip skips inside change ih =>
      refine .skip ih ?_ change
      obtain rfl | hopen := inside
      · exact hb
      · exact Or.inr hopen

/-- How `check_output_index_state` stops the display. -/
inductive CheckEnds (d : Device) : Device → List Obs → Prop where
  /-- Every output is confirmed: the approval is asked for. -/
  | parsed (confirmed : d.tx.confirmedOutputs = d.tx.outputsLen)
      (request : d.gContext.reqType = .confirmTransaction) :
      CheckEnds d { d.withState .parsed with
        gValidateCallback := some .uiActionTxConfirm, flow := .confirmTx } [.display .confirmTx]
  /-- The context is of another request. -/
  | foreign (confirmed : d.tx.confirmedOutputs = d.tx.outputsLen)
      (request : d.gContext.reqType ≠ .confirmTransaction) :
      CheckEnds d d.refused [.response [] swBadState, .display .menuMain]
  /-- The saved outputs are used up: more data is requested. -/
  | more (pending : d.tx.confirmedOutputs ≠ d.tx.outputsLen)
      (shown : d.tx.displayIndex = d.tx.bufferOutputLen) :
      CheckEnds d { d.withTx d.tx.resetCall with gIoState := .ready, flow := .menuMain }
        [.response [] swOk, .display .menuMain]

theorem checkOutputIndexState_spec (d : Device) :
    wp checkOutputIndexState
      (fun b d' w => if b then CheckEnds d d' w else d' = d ∧ w = [] ∧ d.tx.Open)
      (fun _ _ _ => False) False d := by
  unfold checkOutputIndexState
  rw [wp_bind, wp_get, wp_ite]
  refine ⟨fun hconfirmed => ?_, fun hpending => ?_⟩
  · simp only [wp_bind, wp_modify, wp_pure, uiDisplayTxConfirm, wp_get, wp_ite, wp_bzeroAndReply,
      wp_askUser, List.nil_append, List.append_nil, if_true]
    refine ⟨fun hforeign => ?_, fun hown => ?_⟩
    · have hreq : d.gContext.reqType ≠ .confirmTransaction :=
        hforeign.resolve_right (fun h => h rfl)
      exact .foreign hconfirmed hreq
    · rw [not_or, not_not] at hown
      exact .parsed hconfirmed hown.1
  · rw [wp_ite]
    refine ⟨fun hshown => ?_, fun hleft => ?_⟩
    · simp only [wp_bind, wp_modify, wp_pure, wp_ioSendSw, wp_uiMenuMain, List.nil_append, List.append_nil,
        if_true]
      exact .more hpending hshown
    · exact ⟨rfl, rfl, hpending, hleft⟩

theorem SkipsTo.changeIndices {start tx : SignTxCtx} (h : SkipsTo start tx) :
    tx.changeIndices = start.changeIndices := by
  rw [h.frame]
  rfl

@[simp] theorem Device.withTx_tx (d : Device) : d.withTx d.tx = d := rfl

@[simp] theorem Device.tx_withTx (d : Device) (tx : SignTxCtx) : (d.withTx tx).tx = tx := rfl

@[simp] theorem Device.withTx_withTx (d : Device) (tx tx' : SignTxCtx) :
    (d.withTx tx).withTx tx' = d.withTx tx' := rfl

/-- Where a pass over some indices leaves the cursor. Over a sorted list it leaves it outside the list:
what comes later in the list cannot match a cursor that has passed an index or not reached it. -/
def PassedOver (indices : List Nat) (before after : SignTxCtx) : Prop :=
  (∀ i ∈ indices, i < 255) → before.confirmedOutputs ≤ after.confirmedOutputs ∧
    (indices.Pairwise (· ≤ ·) → after.confirmedOutputs ∉ indices ∧
      ((∀ i ∈ indices, before.confirmedOutputs < i) → after.confirmedOutputs = before.confirmedOutputs))

theorem skipPass_spec (indices : List Nat) (start : SignTxCtx) (d : Device)
    (hchange : ∀ i ∈ indices, i ∈ start.changeIndices) (hskips : SkipsTo start d.tx)
    (hinside : d.tx = start ∨ d.tx.Open) :
    wp (skipPass indices)
      (fun b d' w => ∃ tx, SkipsTo start tx ∧
        if b then CheckEnds (d.withTx tx) d' w
        else d' = d.withTx tx ∧ w = [] ∧ (tx = start ∨ tx.Open) ∧ PassedOver indices d.tx tx)
      (fun _ _ _ => False) False d := by
  induction indices generalizing d with
  | nil =>
      refine ⟨d.tx, hskips, rfl, rfl, hinside, fun _ => ⟨Nat.le_refl _, fun _ => ⟨?_, fun _ => rfl⟩⟩⟩
      exact List.not_mem_nil
  | cons index rest ih =>
      obtain ⟨hindex, hrest⟩ := List.forall_mem_cons.mp hchange
      unfold skipPass
      rw [wp_bind, wp_get]
      by_cases hmatch : d.tx.confirmedOutputs = index
      · -- the output at the cursor is a change output
        have hskips' : SkipsTo start d.tx.advance :=
          .skip hskips hinside (by rw [hskips.changeIndices, hmatch]; exact hindex)
        rw [if_pos hmatch, wp_bind, wp_modify, wp_bind]
        refine wp_mono (checkOutputIndexState_spec _) ?_ (fun _ _ _ h => h) id
        intro b d₁ w hcheck
        cases b with
        | true => exact ⟨d.tx.advance, hskips', by simpa using hcheck⟩
        | false =>
            obtain ⟨rfl, rfl, hopen⟩ := hcheck
            refine wp_mono (ih (d.withTx d.tx.advance) hrest hskips' (Or.inr hopen)) ?_
              (fun _ _ _ h => h) id
            rintro b d' w ⟨tx, hskips'', hend⟩
            refine ⟨tx, hskips'', ?_⟩
            cases b with
            | true => exact hend
            | false =>
                obtain ⟨hd', hw, hinside', hpassed⟩ := hend
                refine ⟨hd', hw, hinside', fun hsmall => ?_⟩
                obtain ⟨hsmallIndex, hsmallRest⟩ := List.forall_mem_cons.mp hsmall
                obtain ⟨hle, hsorted⟩ := hpassed hsmallRest
                have hnext : (d.withTx d.tx.advance).tx.confirmedOutputs = index + 1 := by
                  show u8 (d.tx.confirmedOutputs + 1) = index + 1
                  rw [hmatch, u8_of_lt (by omega)]
                rw [hnext] at hle
                refine ⟨by omega, fun hpairwise => ⟨?_, fun hall => ?_⟩⟩
                · rw [List.mem_cons, not_or]
                  exact ⟨by omega, (hsorted (List.pairwise_cons.mp hpairwise).2).1⟩
                · exact absurd (hall index List.mem_cons_self) (by omega)
      · rw [if_neg hmatch]
        refine wp_mono (ih d hrest hskips hinside) ?_ (fun _ _ _ h => h) id
        rintro b d' w ⟨tx, hskips', hend⟩
        refine ⟨tx, hskips', ?_⟩
        cases b with
        | true => exact hend
        | false =>
            obtain ⟨hd', hw, hinside', hpassed⟩ := hend
            refine ⟨hd', hw, hinside', fun hsmall => ?_⟩
            obtain ⟨_, hsmallRest⟩ := List.forall_mem_cons.mp hsmall
            obtain ⟨hle, hsorted⟩ := hpassed hsmallRest
            refine ⟨hle, fun hpairwise => ?_⟩
            obtain ⟨hhead, htail⟩ := List.pairwise_cons.mp hpairwise
            obtain ⟨hnot, hsame⟩ := hsorted htail
            refine ⟨?_, fun hall => hsame (List.forall_mem_cons.mp hall).2⟩
            rw [List.mem_cons, not_or]
            refine ⟨fun heq => ?_, hnot⟩
            -- a cursor below the first index of a sorted list stays where it is
            by_cases hbelow : d.tx.confirmedOutputs < index
            · have := hsame (fun i hi => Nat.lt_of_lt_of_le hbelow (hhead i hi))
              omega
            · omega

theorem skipChangeOutputs_spec (d : Device) :
    wp skipChangeOutputs
      (fun b d' w => ∃ tx, SkipsTo d.tx tx ∧
        if b then CheckEnds (d.withTx tx) d' w
        else d' = d.withTx tx ∧ w = [] ∧ (tx = d.tx ∨ tx.Open) ∧
          ((∀ i ∈ d.tx.changeIndices, i < 255) → tx.confirmedOutputs ∉ d.tx.changeIndices))
      (fun _ _ _ => False) (1 + txMaxTokens < d.tx.changeLen) d := by
  unfold skipChangeOutputs
  rw [wp_bind, wp_get, wp_ite]
  refine ⟨fun hnone => ?_, fun _ => ?_⟩
  · have hempty : d.tx.changeIndices = [] := by
      unfold SignTxCtx.changeIndices SignTxCtx.changes
      rw [hnone, List.take_zero, List.map_nil]
    refine ⟨d.tx, .refl, rfl, rfl, Or.inl rfl, fun _ => ?_⟩
    rw [hempty]
    exact List.not_mem_nil
  · rw [wp_ite]
    refine ⟨fun hover => hover, fun _ => ?_⟩
    have hperm : (inplaceSelectionSort d.tx.changeIndices).Perm d.tx.changeIndices :=
      SelectionSort.selectionSort_perm _
    have hsorted : (inplaceSelectionSort d.tx.changeIndices).Pairwise (· ≤ ·) :=
      SelectionSort.selectionSort_sorted _
    refine wp_mono (skipPass_spec _ d.tx d (fun i hi => hperm.mem_iff.mp hi) .refl (Or.inl rfl)) ?_
      (fun _ _ _ h => h) False.elim
    rintro b d' w ⟨tx, hskips, hend⟩
    refine ⟨tx, hskips, ?_⟩
    cases b with
    | true => exact hend
    | false =>
        obtain ⟨hd', hw, hinside, hpassed⟩ := hend
        refine ⟨hd', hw, hinside, fun hsmall hmem => ?_⟩
        obtain ⟨_, hleft⟩ := hpassed (fun i hi => hsmall i (hperm.mem_iff.mp hi))
        exact (hleft hsorted).1 (hperm.mem_iff.mpr hmem)

/-- `prepare_display_output` comes to its read of a saved output, with a context: nothing else was shown or asked for. -/
structure ComesTo (d : Device) (tx : SignTxCtx) : Prop where
  checked : checkOutputIndexState d = .ret false d []
  skipped : skipChangeOutputs d = .ret false (d.withTx tx) []

/-- Approved, the output on screen gives way to another: `ui_confirm_output` moves the cursors and skips, and the display skips
again. -/
def ApprovalComesTo (d : Device) (tx : SignTxCtx) : Prop :=
  ∃ tx₁, skipChangeOutputs (d.withTx d.tx.advance) = .ret false (d.withTx tx₁) [] ∧ ComesTo (d.withTx tx₁) tx

section Comes

variable {d : Device} {tx : SignTxCtx}

theorem ComesTo.skips (h : ComesTo d tx) : SkipsTo d.tx tx ∧ d.tx.Open ∧ tx.Open := by
  have hchecked := checkOutputIndexState_spec d
  rw [wp_of_ret h.checked] at hchecked
  have hskipped := wp_mono (skipChangeOutputs_spec d) (fun _ _ _ h => h) (fun _ _ _ h => h) fun _ => trivial
  rw [wp_of_ret h.skipped] at hskipped
  obtain ⟨tx', hskips, hd', _, hinside, _⟩ := hskipped
  obtain rfl : tx = tx' := congrArg Device.tx hd'
  refine ⟨hskips, hchecked.2.2, ?_⟩
  rcases hinside with rfl | hopen
  · exact hchecked.2.2
  · exact hopen

theorem ApprovalComesTo.skips (h : ApprovalComesTo d tx) : SkipsTo d.tx.advance tx ∧ tx.Open := by
  obtain ⟨tx₁, hfirst, hcomes⟩ := h
  obtain ⟨hskips, hopen₁, hopen⟩ := hcomes.skips
  have hskipped := wp_mono (skipChangeOutputs_spec (d.withTx d.tx.advance)) (fun _ _ _ h => h) (fun _ _ _ h => h) fun _ => trivial
  rw [wp_of_ret hfirst] at hskipped
  obtain ⟨tx', hskips', hd', _⟩ := hskipped
  obtain rfl : tx₁ = tx' := congrArg Device.tx hd'
  exact ⟨hskips'.trans hskips (Or.inr hopen₁), hopen⟩

end Comes

section Display

variable (pf : Platform)

/-- The address of a public key hash, which `address_from_pubkey_hash` gives whenever its hashes
work. -/
def addressOf (publicKeyHash : Bytes) : Bytes :=
  let out := pf.p2pkhVersionByte :: publicKeyHash.take pubkeyHashLen
  out ++ (pf.sha256 (pf.sha256 out)).take 4

theorem addressFromPubkeyHash_some {o : Outcome} {publicKeyHash address : Bytes}
    (h : addressFromPubkeyHash pf o publicKeyHash = some address) : address = addressOf pf publicKeyHash := by
  unfold addressFromPubkeyHash sha256d cxHashSha256 at h
  dsimp only at h
  split at h
  · cases h
  · rename_i buffer hbuffer
    split at hbuffer
    · cases hbuffer
    · rename_i first hfirst
      rw [Option.ite_none_right_eq_some] at hfirst hbuffer
      obtain ⟨_, hfirst⟩ := hfirst
      obtain ⟨_, hbuffer⟩ := hbuffer
      cases h
      cases hfirst
      cases hbuffer
      rfl

/-- The device with the texts of an output. -/
def Device.withTexts (d : Device) (output : TxOutput) (amount : Bytes) : Device :=
  { d with
    gOutputIndex := outputIndexText d.tx output
    gAddress := addressText (addressOf pf output.pubkeyHash)
    gAmount := amount }

/-- The screen of an output: its place among the outputs to confirm, its address and its amount. -/
def outputScreen (tx : SignTxCtx) (output : TxOutput) (amount : Bytes) : Screen :=
  .txOutput (outputIndexText tx output) (addressText (addressOf pf output.pubkeyHash)) amount

/-- The amount of an output with the symbol of its token. -/
def outputAmount (registry : TokenDataCtx) (tx : SignTxCtx) (output : TxOutput) : Option Bytes :=
  (outputSymbol registry tx output).bind fun symbol => amountText symbol output.value

/-- How `ui_display_tx_outputs` ends, once the cursors have come to rest. -/
inductive DisplayEnds (d : Device) : Device → List Obs → Prop where
  | checked {d' : Device} {w : List Obs} (check : CheckEnds d d' w) : DisplayEnds d d' w
  /-- The address cannot be computed. -/
  | failed {output : TxOutput} (inside : d.tx.Open) (slot : d.tx.outputs[d.tx.displayIndex]? = some output) :
      DisplayEnds d { d.refused with gOutputIndex := outputIndexText d.tx output, gAddress := [] }
        [.response [] swInternalError, .display .menuMain]
  | shown {output : TxOutput} {amount : Bytes} (inside : d.tx.Open)
      (slot : d.tx.outputs[d.tx.displayIndex]? = some output)
      (text : outputAmount d.gTokenSymbols d.tx output = some amount)
      (passed : (∀ i ∈ d.tx.changeIndices, i < 255) → d.tx.confirmedOutputs ∉ d.tx.changeIndices) :
      DisplayEnds d
        { d.withTexts pf output amount with gValidateCallback := some .uiConfirmOutput, flow := .txOutput }
        [.display (outputScreen pf d.tx output amount)]

/-- A read outside the slots or through a token pointer that was never set, or an amount that does not
fit. -/
def DisplayOverruns (d : Device) : Prop :=
  d.tx.Open ∧ ∀ output, d.tx.outputs[d.tx.displayIndex]? = some output →
    outputAmount d.gTokenSymbols d.tx output = none

/-- The texts are made of the output the cursors come to rest at, unless something else is shown or asked for. -/
theorem prepareDisplayOutput_spec (o : Outcome) (d : Device) :
    wp (prepareDisplayOutput pf o)
      (fun b d' w => ∃ tx, SkipsTo d.tx tx ∧ (tx = d.tx ∨ d.tx.Open) ∧
        if b then DisplayEnds pf (d.withTx tx) d' w
        else w = [] ∧ tx.Open ∧ ((∀ i ∈ tx.changeIndices, i < 255) → tx.confirmedOutputs ∉ tx.changeIndices) ∧
          ∃ output amount, tx.outputs[tx.displayIndex]? = some output ∧
            outputAmount d.gTokenSymbols tx output = some amount ∧ d' = (d.withTx tx).withTexts pf output amount)
      (fun _ _ _ => False)
      (1 + txMaxTokens < d.tx.changeLen ∨ ∃ tx, ComesTo d tx ∧ DisplayOverruns (d.withTx tx)) d := by
  unfold prepareDisplayOutput
  rw [wp_bind]
  refine wp_mono (wp_self (checkOutputIndexState_spec d)) ?_ (fun _ _ _ h => h.2) False.elim
  rintro b d₁ w₁ ⟨hchecked, hcheck⟩
  cases b with
  | true =>
      simp only [if_true, wp_pure, List.append_nil]
      exact ⟨d.tx, .refl, Or.inl rfl, .checked hcheck⟩
  | false =>
      obtain ⟨rfl, rfl, hopen⟩ := hcheck
      simp only [Bool.false_eq_true, if_false]
      rw [wp_bind]
      refine wp_mono (wp_self (skipChangeOutputs_spec d₁)) ?_ (fun _ _ _ h => h.2) Or.inl
      rintro b d₂ w₂ ⟨hskipped, tx, hskips, hend⟩
      cases b with
      | true =>
          simp only [if_true, wp_pure, List.append_nil, List.nil_append]
          exact ⟨tx, hskips, Or.inr hopen, .checked hend⟩
      | false =>
          obtain ⟨rfl, rfl, hinside, hpassed⟩ := hend
          have hopen' : tx.Open := by
            obtain rfl | h := hinside
            · exact hopen
            · exact h
          have hpassed' : (∀ i ∈ tx.changeIndices, i < 255) → tx.confirmedOutputs ∉ tx.changeIndices := by
            rw [hskips.changeIndices]
            exact hpassed
          simp only [Bool.false_eq_true, if_false, wp_bind, wp_get, Device.tx_withTx]
          cases hslot : tx.outputs[tx.displayIndex]? with
          | none =>
              refine Or.inr ⟨tx, ⟨hchecked, hskipped⟩, hopen', fun output h => ?_⟩
              rw [Device.tx_withTx, hslot] at h
              cases h
          | some output =>
              simp only [wp_bind, wp_modify]
              cases haddress : addressFromPubkeyHash pf o output.pubkeyHash with
              | none =>
                  simp only [wp_bind, wp_modify, wp_bzeroAndReply, wp_pure, if_true, List.nil_append,
                    List.append_nil]
                  exact ⟨tx, hskips, Or.inr hopen, .failed hopen' hslot⟩
              | some address =>
                  obtain rfl := addressFromPubkeyHash_some pf haddress
                  simp only [wp_bind, wp_modify]
                  have hover : outputAmount (d₁.withTx tx).gTokenSymbols tx output = none →
                      DisplayOverruns (d₁.withTx tx) := by
                    refine fun htext => ⟨hopen', fun output' h => ?_⟩
                    rw [Device.tx_withTx, hslot] at h
                    cases h
                    exact htext
                  cases hsymbol : outputSymbol (d₁.withTx tx).gTokenSymbols tx output with
                  | none =>
                      apply Or.inr
                      refine ⟨tx, ⟨hchecked, hskipped⟩, hover ?_⟩
                      rw [outputAmount, hsymbol]
                      rfl
                  | some symbol =>
                      have htext : outputAmount (d₁.withTx tx).gTokenSymbols tx output =
                          amountText symbol output.value := by
                        rw [outputAmount, hsymbol]
                        rfl
                      dsimp only
                      cases hamount : amountText symbol output.value with
                      | none => exact Or.inr ⟨tx, ⟨hchecked, hskipped⟩, hover (htext.trans hamount)⟩
                      | some amount =>
                          simp only [wp_bind, wp_modify, wp_pure, Bool.false_eq_true, if_false, List.append_nil]
                          exact ⟨tx, hskips, Or.inr hopen, trivial, hopen', hpassed', output, amount, hslot,
                            htext.trans hamount, rfl⟩

/-- The display started with the cursors of the context. -/
theorem uiDisplayTxOutputs_spec (o : Outcome) (d : Device) :
    wp (uiDisplayTxOutputs pf o)
      (fun ret d' w => ret = 0 ∧ ∃ tx, SkipsTo d.tx tx ∧ (tx = d.tx ∨ d.tx.Open) ∧
        DisplayEnds pf (d.withTx tx) d' w)
      (fun _ _ _ => False)
      (1 + txMaxTokens < d.tx.changeLen ∨ ∃ tx, ComesTo d tx ∧ DisplayOverruns (d.withTx tx)) d := by
  unfold uiDisplayTxOutputs
  rw [wp_bind]
  refine wp_mono (prepareDisplayOutput_spec pf o d) ?_ (fun _ _ _ h => h) id
  rintro b d₁ w ⟨tx, hskips, hinside, hend⟩
  cases b with
  | true =>
      simp only [if_true, wp_pure, List.append_nil]
      exact ⟨trivial, tx, hskips, hinside, hend⟩
  | false =>
      obtain ⟨rfl, hopen, hpassed, output, amount, hslot, htext, rfl⟩ := hend
      simp only [Bool.false_eq_true, if_false, wp_bind, wp_askUser, wp_pure, List.nil_append, List.append_nil]
      exact ⟨trivial, tx, hskips, hinside, .shown hopen hslot htext hpassed⟩

/-- An approved output: both cursors pass it unchecked, and the display goes on. -/
theorem uiConfirmOutput_spec (o : Outcome) (d : Device) :
    wp (uiConfirmOutput pf o true)
      (fun _ d' w => ∃ tx, SkipsTo d.tx.advance tx ∧ DisplayEnds pf (d.withTx tx) d' w)
      (fun _ _ _ => False)
      (1 + txMaxTokens < d.tx.changeLen ∨ ∃ tx, ApprovalComesTo d tx ∧ DisplayOverruns (d.withTx tx))
      d := by
  unfold uiConfirmOutput
  rw [if_pos rfl, wp_bind, wp_modify, wp_bind]
  refine wp_mono (wp_self (skipChangeOutputs_spec _)) ?_ (fun _ _ _ h => h.2) Or.inl
  rintro b d₁ w₁ ⟨hskipped, tx, hskips, hend⟩
  cases b with
  | true =>
      simp only [if_true, wp_pure, List.append_nil, List.nil_append]
      exact ⟨tx, hskips, .checked hend⟩
  | false =>
      obtain ⟨rfl, rfl, hinside, _⟩ := hend
      simp only [Bool.false_eq_true, if_false, wp_bind, wp_pure, List.append_nil, List.nil_append]
      refine wp_mono (uiDisplayTxOutputs_spec pf o _) ?_ (fun _ _ _ h => h) ?_
      · rintro _ d' w ⟨_, tx', hskips', _, hend⟩
        exact ⟨tx', hskips.trans hskips' hinside, hend⟩
      · rintro (hover | ⟨tx', hcomes, hover⟩)
        · refine Or.inl ?_
          rw [Device.tx_withTx, hskips.frame] at hover
          exact hover
        · exact Or.inr ⟨tx', ⟨tx, hskipped, hcomes⟩, hover⟩

end Display

end HathorApp
