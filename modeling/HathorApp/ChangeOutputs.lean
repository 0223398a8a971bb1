import HathorApp.DisplaySpec
import HathorApp.IntegerText
import Mathlib.Data.Finset.Card
import Mathlib.Data.List.Basic

/-!
The change outputs on the way through the confirmation. One pass over the sorted indices skips a whole run of
them. The header of an output counts them out, once for every entry of the change list: it is right exactly when the
entries are of different outputs of the transaction.
-/

namespace HathorApp

open ProgramLogic

/-- The indices from `c` on that are all in the list, and how many they are. -/
def LongestRun (indices : List Nat) (c r : Nat) : Prop := (∀ k < r, c + k ∈ indices) ∧ c + r ∉ indices

/-- Both cursors past so many outputs. -/
def SignTxCtx.advanceBy (tx : SignTxCtx) (r : Nat) : SignTxCtx :=
  { tx with displayIndex := tx.displayIndex + r, confirmedOutputs := tx.confirmedOutputs + r }

theorem SignTxCtx.advanceBy_advanceBy (tx : SignTxCtx) (m n : Nat) : (tx.advanceBy m).advanceBy n = tx.advanceBy (m + n) := by
  unfold advanceBy
  rw [Nat.add_assoc, Nat.add_assoc]

theorem checkOutputIndexState_open {d : Device} (h : d.tx.Open) : checkOutputIndexState d = .ret false d [] := by
  apply eq_ret_of_wp
  refine wp_mono (checkOutputIndexState_spec d) ?_ (fun _ _ _ h => h) id
  intro b d' w hcheck
  cases b with
  | true =>
      exfalso
      cases (show CheckEnds d d' w from hcheck) with
      | parsed confirmed => exact h.1 confirmed
      | foreign confirmed => exact h.1 confirmed
      | more _ shown => exact h.2 shown
  | false =>
      obtain ⟨hd, hw, _⟩ := hcheck
      exact ⟨rfl, hd, hw⟩

/-- An index below the cursor or above it is no part of a run. -/
theorem LongestRun.tail {index c r : Nat} {rest : List Nat} (hsorted : (index :: rest).Pairwise (· ≤ ·))
    (h : LongestRun (index :: rest) c r) (hne : c ≠ index) : LongestRun rest c r := by
  obtain ⟨hrun, hend⟩ := h
  obtain ⟨hleast, _⟩ := List.pairwise_cons.mp hsorted
  refine ⟨fun k hk => ?_, fun hmem => hend (List.mem_cons_of_mem index hmem)⟩
  have hfirst : c ∈ index :: rest := hrun 0 (Nat.zero_lt_of_lt hk)
  have hbelow : index ≤ c := by
    rcases List.mem_cons.mp hfirst with heq | hrest
    · exact Nat.le_of_eq heq.symm
    · exact hleast c hrest
  rcases List.mem_cons.mp (hrun k hk) with heq | hrest
  · omega
  · exact hrest

/-- Behind the index at the cursor the run goes on. -/
theorem LongestRun.next {c r : Nat} {rest : List Nat} (h : LongestRun (c :: rest) c r) :
    ∃ r', r = r' + 1 ∧ LongestRun rest (c + 1) r' := by
  obtain ⟨hrun, hend⟩ := h
  cases r with
  | zero => exact absurd List.mem_cons_self hend
  | succ r =>
      refine ⟨r, rfl, fun k hk => ?_, fun hmem => hend ?_⟩
      · have hmem := hrun (k + 1) (Nat.succ_lt_succ hk)
        have hne : c + (k + 1) ≠ c := by omega
        have hindex : c + 1 + k = c + (k + 1) := by omega
        rw [hindex]
        exact List.mem_of_ne_of_mem hne hmem
      · have hindex : c + (r + 1) = c + 1 + r := by omega
        rw [hindex]
        exact List.mem_cons_of_mem c hmem

theorem skipPass_run {indices : List Nat} (hsorted : indices.Pairwise (· ≤ ·)) {d : Device} {r : Nat}
    (hrun : LongestRun indices d.tx.confirmedOutputs r) (hsaved : d.tx.displayIndex + r < d.tx.bufferOutputLen)
    (hpending : d.tx.confirmedOutputs + r < d.tx.outputsLen) (hsavedByte : d.tx.bufferOutputLen < 2 ^ 8)
    (houtputsByte : d.tx.outputsLen < 2 ^ 8) :
    skipPass indices d = .ret false (d.withTx (d.tx.advanceBy r)) [] := by
  induction indices generalizing d r with
  | nil =>
      have hzero : r = 0 := by
        cases r with
        | zero => rfl
        | succ r => exact absurd (hrun.1 0 (Nat.succ_pos r)) List.not_mem_nil
      subst hzero
      rfl
  | cons index rest ih =>
      apply eq_ret_of_wp
      unfold skipPass
      rw [wp_bind, wp_get]
      by_cases hmatch : d.tx.confirmedOutputs = index
      · rw [if_pos hmatch]
        rw [← hmatch] at hrun
        rcases hrun.next with ⟨r, rfl, hrest⟩
        have hadvance : d.tx.advance = d.tx.advanceBy 1 := by
          unfold SignTxCtx.advance SignTxCtx.advanceBy
          rw [u8_of_lt (by omega), u8_of_lt (by omega)]
        have hconfirmed : (d.tx.advanceBy 1).confirmedOutputs = d.tx.confirmedOutputs + 1 := rfl
        have hshown : (d.tx.advanceBy 1).displayIndex = d.tx.displayIndex + 1 := rfl
        have hsavedLen : (d.tx.advanceBy 1).bufferOutputLen = d.tx.bufferOutputLen := rfl
        have houtputsLen : (d.tx.advanceBy 1).outputsLen = d.tx.outputsLen := rfl
        have hopen : (d.withTx (d.tx.advanceBy 1)).tx.Open := by
          unfold SignTxCtx.Open
          rw [Device.tx_withTx]
          omega
        have hnext : skipPass rest (d.withTx (d.tx.advanceBy 1)) = _ :=
          ih (List.pairwise_cons.mp hsorted).2 (by rwa [Device.tx_withTx, hconfirmed]) (by rw [Device.tx_withTx]; omega)
            (by rw [Device.tx_withTx]; omega) (by rwa [Device.tx_withTx]) (by rwa [Device.tx_withTx])
        rw [Device.tx_withTx, SignTxCtx.advanceBy_advanceBy, Nat.add_comm 1] at hnext
        rw [wp_bind, wp_modify, hadvance, wp_bind, wp_of_ret (checkOutputIndexState_open hopen), if_neg (by decide),
          wp_of_ret hnext]
        exact ⟨rfl, rfl, rfl⟩
      · rw [if_neg hmatch, wp_of_ret (ih (List.pairwise_cons.mp hsorted).2 (hrun.tail hsorted hmatch) hsaved hpending
          hsavedByte houtputsByte)]
        exact ⟨rfl, rfl, rfl⟩

/-- `skip_change_outputs` skips a whole run, silently, if an output is left behind it. -/
theorem skipChangeOutputs_run {d : Device} {r : Nat} (hsome : 1 ≤ d.tx.changeLen) (hcount : d.tx.changeLen ≤ 1 + txMaxTokens)
    (hrun : LongestRun d.tx.changeIndices d.tx.confirmedOutputs r) (hsaved : d.tx.displayIndex + r < d.tx.bufferOutputLen)
    (hpending : d.tx.confirmedOutputs + r < d.tx.outputsLen) (hsavedByte : d.tx.bufferOutputLen < 2 ^ 8)
    (houtputsByte : d.tx.outputsLen < 2 ^ 8) :
    ∃ d', skipChangeOutputs d = .ret false d' [] ∧ d' = d.withTx (d.tx.advanceBy r) ∧
      d'.tx.displayIndex = d.tx.displayIndex + r ∧ d'.tx.confirmedOutputs = d.tx.confirmedOutputs + r ∧
      d'.tx.confirmedOutputs ∉ d'.tx.changeIndices := by
  have hperm : (inplaceSelectionSort d.tx.changeIndices).Perm d.tx.changeIndices := SelectionSort.selectionSort_perm _
  have hsorted : (inplaceSelectionSort d.tx.changeIndices).Pairwise (· ≤ ·) := SelectionSort.selectionSort_sorted _
  have hrun' : LongestRun (inplaceSelectionSort d.tx.changeIndices) d.tx.confirmedOutputs r := by
    obtain ⟨hinside, hend⟩ := hrun
    exact ⟨fun k hk => hperm.mem_iff.mpr (hinside k hk), fun hmem => hend (hperm.mem_iff.mp hmem)⟩
  have hpass := skipPass_run hsorted hrun' hsaved hpending hsavedByte houtputsByte
  refine ⟨_, ?_, rfl, rfl, rfl, hrun.2⟩
  apply eq_ret_of_wp
  unfold skipChangeOutputs
  rw [wp_bind, wp_get, if_neg (by omega), if_neg (by omega)]
  exact (wp_of_ret hpass).mpr ⟨rfl, rfl, rfl⟩

/-- Two of three change outputs in a row, the list not in order and with an entry twice. -/
theorem skipChangeOutputs_run_two :
    ∃ d', skipChangeOutputs ((bootDevice []).withTx { zeroSignTxCtx with
        changeLen := 4
        changeInfo := [⟨4, []⟩, ⟨1, []⟩, ⟨0, []⟩, ⟨1, []⟩]
        outputsLen := 5
        bufferOutputLen := 5 }) = .ret false d' [] ∧
      d'.tx.displayIndex = 2 ∧ d'.tx.confirmedOutputs = 2 ∧ d'.tx.confirmedOutputs ∉ d'.tx.changeIndices := by
  rcases @skipChangeOutputs_run ((bootDevice []).withTx { zeroSignTxCtx with
      changeLen := 4
      changeInfo := [⟨4, []⟩, ⟨1, []⟩, ⟨0, []⟩, ⟨1, []⟩]
      outputsLen := 5
      bufferOutputLen := 5 }) 2 (by decide) (by decide) ⟨by decide, by decide⟩ (by decide) (by decide) (by decide)
      (by decide) with
    ⟨d', hskip, _, hshown, hconfirmed, hnot⟩
  exact ⟨d', hskip, hshown, hconfirmed, hnot⟩

section Counting

variable {l : List Nat} {n : Nat}

/-- The numbers below a bound that are in a list are at most as many as the entries of the list below it. -/
theorem card_range_mem (l : List Nat) (n : Nat) :
    ((Finset.range n).filter (· ∈ l)).card = (l.filter (· < n)).toFinset.card := by
  congr 1
  ext i
  simp [and_comm]

theorem card_range_mem_le : ((Finset.range n).filter (· ∈ l)).card ≤ l.length := by
  calc
    ((Finset.range n).filter (· ∈ l)).card = (l.filter (· < n)).toFinset.card := card_range_mem l n
    _ ≤ (l.filter (· < n)).length := List.toFinset_card_le _
    _ ≤ l.length := List.length_filter_le _ _

/-- They are as many as the entries when no entry is repeated and none is out of bounds. -/
theorem card_range_mem_eq_iff : ((Finset.range n).filter (· ∈ l)).card = l.length ↔ l.Nodup ∧ ∀ i ∈ l, i < n := by
  rw [card_range_mem]
  constructor
  · intro h
    have hle := List.toFinset_card_le (l.filter (· < n))
    have hfilter : (l.filter (· < n)).length = l.length := Nat.le_antisymm (List.length_filter_le _ _) (by omega)
    have hall := List.length_filter_eq_length_iff.mp hfilter
    have hsame : l.filter (· < n) = l := List.filter_eq_self.mpr hall
    rw [hsame] at h
    exact ⟨Multiset.toFinset_card_eq_card_iff_nodup.mp h, fun i hi => of_decide_eq_true (hall i hi)⟩
  · rintro ⟨hnodup, hall⟩
    have hsame : l.filter (· < n) = l := List.filter_eq_self.mpr fun i hi => decide_eq_true (hall i hi)
    rw [hsame]
    exact List.toFinset_card_of_nodup hnodup

theorem card_range_mem_of_nodup (h : l.Nodup) (n : Nat) :
    ((Finset.range n).filter (· ∈ l)).card = (l.filter (· < n)).length := by
  rw [card_range_mem]
  exact List.toFinset_card_of_nodup (h.filter _)

theorem card_range_not_mem (l : List Nat) (n : Nat) :
    ((Finset.range n).filter (· ∉ l)).card + ((Finset.range n).filter (· ∈ l)).card = n := by
  have h := Finset.card_filter_add_card_filter_not (s := Finset.range n) (· ∈ l)
  rw [Finset.card_range] at h
  omega

end Counting

/-- How many of the first outputs are to be confirmed. -/
def SignTxCtx.toConfirm (tx : SignTxCtx) (n : Nat) : Nat := ((Finset.range n).filter (· ∉ tx.changeIndices)).card

/-- The header of an output tells its place among the outputs to confirm, and how many they are. -/
def HeaderCounts (tx : SignTxCtx) (i : Nat) (header : Bytes) : Prop :=
  header = decimalText (tx.toConfirm i + 1) ++ [47] ++ decimalText (tx.toConfirm tx.outputsLen) ∧
    tx.toConfirm i + 1 ≤ tx.toConfirm tx.outputsLen ∧ tx.toConfirm tx.outputsLen ≤ tx.outputsLen

/-- The entries of the change list are of different outputs of the transaction. -/
def SignTxCtx.ChangesDistinct (tx : SignTxCtx) : Prop :=
  tx.changeIndices.Nodup ∧ ∀ i ∈ tx.changeIndices, i < tx.outputsLen

theorem SignTxCtx.toConfirm_le (tx : SignTxCtx) (n : Nat) : tx.toConfirm n ≤ n := by
  have h := card_range_not_mem tx.changeIndices n
  unfold toConfirm
  omega

/-- An output to confirm is counted behind those before it. -/
theorem SignTxCtx.toConfirm_lt {tx : SignTxCtx} {i n : Nat} (hi : i < n) (hout : i ∉ tx.changeIndices) :
    tx.toConfirm i < tx.toConfirm n := by
  unfold toConfirm
  apply Finset.card_lt_card
  rw [Finset.ssubset_iff_of_subset]
  · refine ⟨i, ?_, ?_⟩
    · simp [hi, hout]
    · simp
  · apply Finset.filter_subset_filter
    exact Finset.range_mono (Nat.le_of_lt hi)

theorem separator_not_mem_decimalText (n : Nat) : 47 ∉ decimalText n := by
  intro h
  have hdigit := le_of_mem_decimalText h
  revert hdigit
  decide

theorem u8_lt (n : Nat) : u8 n < 256 := Nat.mod_lt n (by decide)

section Header

variable {tx : SignTxCtx} {output : TxOutput}

/-- The header is computed from the entries of the list, all of them and those before the output. -/
theorem outputIndexText_eq (tx : SignTxCtx) (output : TxOutput) :
    outputIndexText tx output =
      decimalText (u8 (u8 (output.index + 1) + 256 - (tx.changeIndices.filter (· < output.index)).length % 256)) ++ [47] ++
        decimalText (u8 (tx.outputsLen + 256 - tx.changeLen % 256)) := by
  have hsmall : ∀ n, u8 n < 10 ^ 33 := fun n => Nat.lt_trans (u8_lt n) (by norm_num)
  have hbehind : (tx.changeIndices.filter (· < output.index)).length =
      (tx.changes.filter fun info => output.index > info.index).length := by
    rw [SignTxCtx.changeIndices, List.filter_map, List.length_map]
    rfl
  unfold outputIndexText
  dsimp only
  rw [hbehind, itoa_decimal (hsmall _), itoa_decimal (hsmall _)]
  rfl

/-- The header counts the outputs to confirm exactly when the list has an entry for each change output and no other. -/
theorem headerCounts_iff (hdeclared : output.index < tx.outputsLen) (hbyte : tx.outputsLen < 2 ^ 8)
    (hentries : tx.changeIndices.length = tx.changeLen) (hcount : tx.changeLen ≤ 1 + txMaxTokens)
    (hout : output.index ∉ tx.changeIndices) :
    HeaderCounts tx output.index (outputIndexText tx output) ↔ tx.ChangesDistinct := by
  have hmax : txMaxTokens = 10 := rfl
  have hplace := SignTxCtx.toConfirm_lt hdeclared hout
  have htotal := card_range_not_mem tx.changeIndices tx.outputsLen
  have hbefore := card_range_not_mem tx.changeIndices output.index
  have hinside := @card_range_mem_le tx.changeIndices tx.outputsLen
  have hdistinct := @card_range_mem_eq_iff tx.changeIndices tx.outputsLen
  rw [outputIndexText_eq]
  unfold HeaderCounts SignTxCtx.ChangesDistinct
  rw [← hdistinct]
  constructor
  · rintro ⟨htext, _, _⟩
    rw [List.append_assoc, List.append_assoc, List.singleton_append, List.singleton_append,
      List.append_cons_inj_of_notMem (separator_not_mem_decimalText _) (separator_not_mem_decimalText _)] at htext
    have hsame := congrArg readDecimal htext.2.2
    rw [readDecimal_decimalText, readDecimal_decimalText] at hsame
    unfold u8 SignTxCtx.toConfirm at hsame
    unfold SignTxCtx.toConfirm at hplace
    omega
  · intro hsame
    have hbehind := card_range_mem_of_nodup (hdistinct.mp hsame).1 output.index
    have hfew := List.length_filter_le (fun i => decide (i < output.index)) tx.changeIndices
    have hk : u8 (u8 (output.index + 1) + 256 - (tx.changeIndices.filter (· < output.index)).length % 256) =
        tx.toConfirm output.index + 1 := by
      unfold u8 SignTxCtx.toConfirm
      omega
    have hM : u8 (tx.outputsLen + 256 - tx.changeLen % 256) = tx.toConfirm tx.outputsLen := by
      unfold SignTxCtx.toConfirm at hplace
      unfold u8 SignTxCtx.toConfirm
      omega
    rw [hk, hM]
    exact ⟨rfl, hplace, tx.toConfirm_le tx.outputsLen⟩

end Header

section Screen

variable (pf : Platform) (o : Outcome)

/-- The output put on screen, and its header. -/
theorem prepareDisplayOutput_header (d : Device) :
    wp (prepareDisplayOutput pf o)
      (fun b d' _ => b = false → ∃ output, d.tx.outputs[d'.tx.displayIndex]? = some output ∧
        d'.gOutputIndex = outputIndexText d.tx output)
      (fun _ _ _ => True) True d := by
  refine wp_mono (prepareDisplayOutput_spec pf o d) ?_ (fun _ _ _ h => h.elim) fun _ => trivial
  rintro b d' w ⟨tx, hskips, _, hend⟩ rfl
  obtain ⟨_, _, _, output, amount, hslot, _, rfl⟩ := hend
  have houtputs : tx.outputs = d.tx.outputs := by
    rw [hskips.frame]
    rfl
  have htext : outputIndexText tx output = outputIndexText d.tx output := by
    rw [hskips.frame]
    rfl
  rw [houtputs] at hslot
  exact ⟨output, hslot, htext⟩

variable {pf o}

/-- The header of the output on screen counts the outputs to confirm exactly when the entries of the change list are
of different outputs of the transaction. -/
theorem prepareDisplayOutput_counts_iff {d d' : Device} {w : List Obs} {output : TxOutput}
    (hshown : prepareDisplayOutput pf o d = .ret false d' w) (hslot : d.tx.outputs[d'.tx.displayIndex]? = some output)
    (hdeclared : output.index < d.tx.outputsLen) (hbyte : d.tx.outputsLen < 2 ^ 8)
    (hcount : d.tx.changeLen ≤ 1 + txMaxTokens) (hslots : d.tx.changeInfo.length = 1 + txMaxTokens)
    (hout : output.index ∉ d.tx.changeIndices) :
    HeaderCounts d.tx output.index d'.gOutputIndex ↔ d.tx.ChangesDistinct := by
  have hheader := (wp_of_ret hshown).mp (prepareDisplayOutput_header pf o d) rfl
  obtain ⟨output', hslot', htext⟩ := hheader
  have hsame : output' = output := Option.some.inj (hslot'.symm.trans hslot)
  have hentries : d.tx.changeIndices.length = d.tx.changeLen := by
    rw [SignTxCtx.changeIndices, List.length_map, SignTxCtx.changes, List.length_take_of_le (by omega)]
  rw [htext, hsame]
  exact headerCounts_iff hdeclared hbyte hentries hcount hout

end Screen

/-- The third of three outputs, with a change list of these entries. -/
def thirdOutput (changes : List ChangeOutputInfo) : Device :=
  (bootDevice []).withTx { zeroSignTxCtx with
    changeLen := changes.length
    changeInfo := changes ++ List.replicate (1 + txMaxTokens - changes.length) ⟨0, []⟩
    outputsLen := 3
    displayIndex := 2
    confirmedOutputs := 2
    bufferOutputLen := 3
    outputs := [⟨0, 1, 0, List.replicate 20 0⟩, ⟨1, 1, 0, List.replicate 20 0⟩, ⟨2, 1, 0, List.replicate 20 0⟩] }

/-- With one entry for the second output the third one is the second of two. -/
theorem prepareDisplayOutput_counts_iff_third :
    ∃ d' w, prepareDisplayOutput countingPlatform (.allOk []) (thirdOutput [⟨1, []⟩]) = .ret false d' w ∧
      d'.gOutputIndex = [50, 47, 50] ∧
      (HeaderCounts (thirdOutput [⟨1, []⟩]).tx 2 d'.gOutputIndex ↔ (thirdOutput [⟨1, []⟩]).tx.ChangesDistinct) := by
  have hrun : wp (prepareDisplayOutput countingPlatform (.allOk []))
      (fun b d' _ => b = false ∧ d'.tx.displayIndex = 2 ∧ d'.gOutputIndex = [50, 47, 50])
      (fun _ _ _ => False) False (thirdOutput [⟨1, []⟩]) := by
    decide +kernel
  rcases exists_ret_of_wp hrun with ⟨b, d', w, hret, rfl, hshown, hheader⟩
  have hslot : (thirdOutput [⟨1, []⟩]).tx.outputs[d'.tx.displayIndex]? = some ⟨2, 1, 0, List.replicate 20 0⟩ := by
    rw [hshown]
    rfl
  have hcounts := prepareDisplayOutput_counts_iff hret hslot (by decide +kernel) (by decide +kernel) (by decide +kernel) rfl
    (by decide +kernel)
  exact ⟨d', w, hret, hheader, hcounts⟩

/-- With a second entry for that output it is announced as the only one. -/
theorem prepareDisplayOutput_counts_twice :
    ∃ d' w, prepareDisplayOutput countingPlatform (.allOk []) (thirdOutput [⟨1, []⟩, ⟨1, []⟩]) = .ret false d' w ∧
      d'.gOutputIndex = [49, 47, 49] ∧
      (thirdOutput [⟨1, []⟩, ⟨1, []⟩]).tx.outputs[d'.tx.displayIndex]? = some ⟨2, 1, 0, List.replicate 20 0⟩ ∧
      2 ∉ (thirdOutput [⟨1, []⟩, ⟨1, []⟩]).tx.changeIndices ∧
      ¬HeaderCounts (thirdOutput [⟨1, []⟩, ⟨1, []⟩]).tx 2 d'.gOutputIndex := by
  have hrun : wp (prepareDisplayOutput countingPlatform (.allOk []))
      (fun b d' _ => b = false ∧ d'.tx.displayIndex = 2 ∧ d'.gOutputIndex = [49, 47, 49])
      (fun _ _ _ => False) False (thirdOutput [⟨1, []⟩, ⟨1, []⟩]) := by
    decide +kernel
  rcases exists_ret_of_wp hrun with ⟨b, d', w, hret, rfl, hshown, hheader⟩
  refine ⟨d', w, hret, hheader, ?_, by decide, fun hcounts => ?_⟩
  · rw [hshown]
    rfl
  · have htwo : (thirdOutput [⟨1, []⟩, ⟨1, []⟩]).tx.toConfirm 2 = 1 := by decide
    have hall : (thirdOutput [⟨1, []⟩, ⟨1, []⟩]).tx.toConfirm 3 = 2 := by decide
    have htext := hcounts.1
    have houtputs : (thirdOutput [⟨1, []⟩, ⟨1, []⟩]).tx.outputsLen = 3 := rfl
    rw [hheader, houtputs, htwo, hall] at htext
    revert htext
    decide +kernel

end HathorApp
