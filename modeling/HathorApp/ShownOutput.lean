import HathorApp.ChangeOutputs

/-!
The output that comes on screen. The display reads a saved output where the skipping has ended and the cursors let it go on:
a change output on the way there is passed over, and never read for the screen. Behind an approved output the skipping is
done twice, so that it also goes past the place where the byte of the cursor begins anew. What it comes to is therefore told by
the cursors before the approval alone: the first output behind the approved one that is not in the change list.
-/

namespace HathorApp

open ProgramLogic

/-- Both cursors `k` outputs on, each in its byte. -/
def SignTxCtx.movedBy (tx : SignTxCtx) (k : Nat) : SignTxCtx :=
  { tx with displayIndex := u8 (tx.displayIndex + k), confirmedOutputs := u8 (tx.confirmedOutputs + k) }

/-- Behind the output at the cursors lie `k` change outputs and then one of another kind. The cursors are checked behind each
skipped output, and at the one that is not skipped. -/
structure FollowedBy (tx : SignTxCtx) (k : Nat) : Prop where
  changes : ∀ j < k, (tx.movedBy (1 + j)).confirmedOutputs ∈ tx.changeIndices ∧ (tx.movedBy (2 + j)).Open
  rests : (tx.movedBy (1 + k)).confirmedOutputs ∉ tx.changeIndices
  inside : (tx.movedBy (1 + k)).Open

instance (tx : SignTxCtx) : Decidable tx.Open := inferInstanceAs (Decidable (_ ∧ _))

instance (tx : SignTxCtx) (k : Nat) : Decidable (FollowedBy tx k) :=
  decidable_of_iff ((∀ j < k, (tx.movedBy (1 + j)).confirmedOutputs ∈ tx.changeIndices ∧ (tx.movedBy (2 + j)).Open) ∧
      (tx.movedBy (1 + k)).confirmedOutputs ∉ tx.changeIndices ∧ (tx.movedBy (1 + k)).Open)
    ⟨fun h => ⟨h.1, h.2.1, h.2.2⟩, fun h => ⟨h.changes, h.rests, h.inside⟩⟩

section Skips

variable {start tx : SignTxCtx} {indices : List Nat}

@[simp] theorem SignTxCtx.movedBy_changeIndices (tx : SignTxCtx) (k : Nat) :
    (tx.movedBy k).changeIndices = tx.changeIndices := rfl

@[simp] theorem SignTxCtx.movedBy_confirmedOutputs (tx : SignTxCtx) (k : Nat) :
    (tx.movedBy k).confirmedOutputs = u8 (tx.confirmedOutputs + k) := rfl

@[simp] theorem SignTxCtx.movedBy_displayIndex (tx : SignTxCtx) (k : Nat) :
    (tx.movedBy k).displayIndex = u8 (tx.displayIndex + k) := rfl

theorem SignTxCtx.movedBy_movedBy (tx : SignTxCtx) (j k : Nat) : (tx.movedBy j).movedBy k = tx.movedBy (j + k) := by
  have hindex : ∀ n, u8 (u8 (n + j) + k) = u8 (n + (j + k)) := by
    intro n
    simp only [u8]
    omega
  unfold movedBy
  rw [hindex, hindex]

theorem SignTxCtx.advance_eq (tx : SignTxCtx) : tx.advance = tx.movedBy 1 := rfl

theorem SignTxCtx.movedBy_zero (hdisplay : tx.displayIndex < 256) (hconfirmed : tx.confirmedOutputs < 256) :
    tx.movedBy 0 = tx := by
  unfold movedBy
  rw [Nat.add_zero, Nat.add_zero, u8_of_lt hdisplay, u8_of_lt hconfirmed]

theorem length_changeIndices_le (tx : SignTxCtx) : tx.changeIndices.length ≤ tx.changeLen := by
  unfold SignTxCtx.changeIndices SignTxCtx.changes
  rw [List.length_map, List.length_take]
  exact Nat.min_le_left _ _

/-- The indices are different ones, so there are no more skips than entries. -/
theorem skips_le {c k : Nat} (hlen : indices.length < 256) (h : ∀ j < k, u8 (c + j) ∈ indices) : k ≤ indices.length := by
  by_contra hlong
  have hdistinct : ((List.range (indices.length + 1)).map fun j => u8 (c + j)).Nodup := by
    apply List.Nodup.map_on _ List.nodup_range
    intro i hi j hj heq
    rw [List.mem_range] at hi hj
    simp only [u8] at heq
    omega
  have hsubset : ((List.range (indices.length + 1)).map fun j => u8 (c + j)) ⊆ indices := by
    intro i hi
    obtain ⟨j, hj, rfl⟩ := List.mem_map.mp hi
    rw [List.mem_range] at hj
    exact h j (by omega)
  have hcount := (List.subperm_of_subset hdistinct hsubset).length_le
  rw [List.length_map, List.length_range] at hcount
  omega

/-- How the pass over the indices ends, told by the cursors before it. It goes no further than to the place where the byte of
the cursor begins anew, since the indices are in order. -/
def PassEnds (indices : List Nat) (d : Device) (stopped : Bool) (d' : Device) (w : List Obs) : Prop :=
  if stopped then
    ∃ k, (∀ j ≤ k, d.tx.confirmedOutputs + j ∈ indices) ∧ d.tx.confirmedOutputs + k < 256 ∧ ¬(d.tx.movedBy (k + 1)).Open
  else
    ∃ k, d' = d.withTx (d.tx.movedBy k) ∧ w = [] ∧
      (∀ j < k, d.tx.confirmedOutputs + j ∈ indices ∧ (d.tx.movedBy (j + 1)).Open) ∧
      d.tx.confirmedOutputs + k ≤ 256 ∧ (d.tx.confirmedOutputs + k < 256 → d.tx.confirmedOutputs + k ∉ indices)

/-- An index that is not at the cursor is passed. -/
theorem PassEnds.pass {index : Nat} {rest : List Nat} {d d' : Device} {b : Bool} {w : List Obs}
    (hleast : ∀ i ∈ rest, index ≤ i) (hne : d.tx.confirmedOutputs ≠ index) (h : PassEnds rest d b d' w) :
    PassEnds (index :: rest) d b d' w := by
  cases b with
  | true =>
      obtain ⟨k, hchanges, hbyte, hopen⟩ := h
      exact ⟨k, fun j hj => List.mem_cons_of_mem index (hchanges j hj), hbyte, hopen⟩
  | false =>
      obtain ⟨k, hd', hw, hchanges, hbyte, hend⟩ := h
      refine ⟨k, hd', hw, fun j hj => ?_, hbyte, fun hinside => ?_⟩
      · exact ⟨List.mem_cons_of_mem index (hchanges j hj).1, (hchanges j hj).2⟩
      · rw [List.mem_cons, not_or]
        refine ⟨fun heq => ?_, hend hinside⟩
        cases k with
        | zero => exact hne heq
        | succ k =>
            have hbelow := hleast _ (hchanges 0 (Nat.succ_pos k)).1
            omega

/-- Behind an index at the cursor the pass goes on with the cursors moved. -/
theorem PassEnds.skip {rest : List Nat} {d d' : Device} {b : Bool} {w : List Obs}
    (hleast : ∀ i ∈ rest, d.tx.confirmedOutputs ≤ i) (hbyte : d.tx.confirmedOutputs < 256) (hopen : (d.tx.movedBy 1).Open)
    (h : PassEnds rest (d.withTx (d.tx.movedBy 1)) b d' w) : PassEnds (d.tx.confirmedOutputs :: rest) d b d' w := by
  have hconfirmed : (d.withTx (d.tx.movedBy 1)).tx.confirmedOutputs = u8 (d.tx.confirmedOutputs + 1) := rfl
  -- at the end of the byte nothing is left to skip
  have hnext : ∀ j, u8 (d.tx.confirmedOutputs + 1) + j ∈ rest → u8 (d.tx.confirmedOutputs + 1) = d.tx.confirmedOutputs + 1 ∨
      255 ≤ j := by
    intro j hj
    have hbelow := hleast _ hj
    simp only [u8] at hbelow ⊢
    omega
  have hmoved : ∀ k, (d.withTx (d.tx.movedBy 1)).tx.movedBy k = d.tx.movedBy (k + 1) := by
    intro k
    rw [Device.tx_withTx, SignTxCtx.movedBy_movedBy, Nat.add_comm]
  cases b with
  | true =>
      obtain ⟨k, hchanges, hinside, hclosed⟩ := h
      rw [hconfirmed] at hinside
      rw [hmoved] at hclosed
      have hfirst := hnext 0 (hchanges 0 (Nat.zero_le k))
      refine ⟨k + 1, fun j hj => ?_, by omega, hclosed⟩
      cases j with
      | zero => exact List.mem_cons_self
      | succ j =>
          have hmem := hchanges j (Nat.le_of_succ_le_succ hj)
          have hindex : d.tx.confirmedOutputs + (j + 1) = u8 (d.tx.confirmedOutputs + 1) + j := by omega
          rw [hindex]
          exact List.mem_cons_of_mem _ hmem
  | false =>
      obtain ⟨k, hd', hw, hchanges, hinside, hend⟩ := h
      rw [hconfirmed] at hinside hend
      rw [hmoved] at hd'
      have hfirst : 0 < k → u8 (d.tx.confirmedOutputs + 1) = d.tx.confirmedOutputs + 1 := by
        intro hpos
        exact (hnext 0 (hchanges 0 hpos).1).resolve_right (by decide)
      have hlast : k = 0 ∨ d.tx.confirmedOutputs + (k + 1) = u8 (d.tx.confirmedOutputs + 1) + k := by
        rcases Nat.eq_zero_or_pos k with hzero | hpos
        · exact Or.inl hzero
        · rw [hfirst hpos]
          omega
      refine ⟨k + 1, hd', hw, fun j hj => ?_, by omega, fun hbelow => ?_⟩
      · cases j with
        | zero => exact ⟨List.mem_cons_self, hopen⟩
        | succ j =>
            have hpos : j < k := Nat.lt_of_succ_lt_succ hj
            obtain ⟨hmem, hopen'⟩ := hchanges j hpos
            have hindex : d.tx.confirmedOutputs + (j + 1) = u8 (d.tx.confirmedOutputs + 1) + j := by
              rw [hfirst (by omega)]
              omega
            rw [hmoved] at hopen'
            refine ⟨?_, hopen'⟩
            rw [hindex]
            exact List.mem_cons_of_mem _ hmem
      · have hindex : d.tx.confirmedOutputs + (k + 1) = u8 (d.tx.confirmedOutputs + 1) + k := by
          rcases hlast with rfl | hsame
          · exact (u8_of_lt hbelow).symm
          · exact hsame
        rw [List.mem_cons, not_or]
        refine ⟨by omega, ?_⟩
        rw [hindex]
        exact hend (by omega)

theorem skipPass_passEnds (hsorted : indices.Pairwise (· ≤ ·)) (d : Device) (hdisplay : d.tx.displayIndex < 256)
    (hconfirmed : d.tx.confirmedOutputs < 256) :
    wp (skipPass indices) (PassEnds indices d) (fun _ _ _ => False) False d := by
  induction indices generalizing d with
  | nil =>
      refine ⟨0, ?_, rfl, fun j hj => absurd hj (Nat.not_lt_zero j), Nat.le_of_lt hconfirmed, fun _ => List.not_mem_nil⟩
      rw [SignTxCtx.movedBy_zero hdisplay hconfirmed, Device.withTx_tx]
  | cons index rest ih =>
      obtain ⟨hleast, hrest⟩ := List.pairwise_cons.mp hsorted
      unfold skipPass
      rw [wp_bind, wp_get]
      by_cases hmatch : d.tx.confirmedOutputs = index
      · subst hmatch
        rw [if_pos rfl, wp_bind, wp_modify, wp_bind, SignTxCtx.advance_eq]
        refine wp_mono (checkOutputIndexState_spec _) ?_ (fun _ _ _ h => h) id
        intro b d₁ w hcheck
        cases b with
        | true =>
            refine ⟨0, fun j hj => ?_, hconfirmed, fun hopen => ?_⟩
            · obtain rfl : j = 0 := Nat.le_zero.mp hj
              exact List.mem_cons_self
            · cases (show CheckEnds _ d₁ w from hcheck) with
              | parsed confirmed => exact hopen.1 confirmed
              | foreign confirmed => exact hopen.1 confirmed
              | more _ shown => exact hopen.2 shown
        | false =>
            obtain ⟨rfl, rfl, hopen⟩ := hcheck
            refine wp_mono (ih hrest _ (u8_lt _) (u8_lt _)) ?_ (fun _ _ _ h => h) id
            exact fun _ _ _ hends => hends.skip hleast hconfirmed hopen
      · rw [if_neg hmatch]
        refine wp_mono (ih hrest d hdisplay hconfirmed) ?_ (fun _ _ _ h => h) id
        exact fun _ _ _ hends => hends.pass hleast hmatch

theorem skipChangeOutputs_passEnds {d : Device} (hfits : d.tx.changeLen ≤ 1 + txMaxTokens) (hdisplay : d.tx.displayIndex < 256)
    (hconfirmed : d.tx.confirmedOutputs < 256) :
    wp skipChangeOutputs (PassEnds d.tx.changeIndices d) (fun _ _ _ => False) False d := by
  unfold skipChangeOutputs
  rw [wp_bind, wp_get, wp_ite]
  refine ⟨fun hnone => ?_, fun _ => ?_⟩
  · have hempty : d.tx.changeIndices = [] := by
      unfold SignTxCtx.changeIndices SignTxCtx.changes
      rw [hnone, List.take_zero, List.map_nil]
    rw [hempty]
    exact skipPass_passEnds List.Pairwise.nil d hdisplay hconfirmed
  · rw [if_neg (Nat.not_lt.mpr hfits)]
    have hperm : (inplaceSelectionSort d.tx.changeIndices).Perm d.tx.changeIndices := SelectionSort.selectionSort_perm _
    have hsorted : (inplaceSelectionSort d.tx.changeIndices).Pairwise (· ≤ ·) := SelectionSort.selectionSort_sorted _
    refine wp_mono (skipPass_passEnds hsorted d hdisplay hconfirmed) ?_ (fun _ _ _ h => h) id
    intro b d' w hends
    unfold PassEnds at hends ⊢
    simpa only [hperm.mem_iff, List.nil_append] using hends

end Skips

section Approval

variable {d : Device} {tx tx' : SignTxCtx}

theorem changeLen_of_skips {b : Bool} {d' : Device} {w : List Obs} (h : skipChangeOutputs d = .ret b d' w) :
    d.tx.changeLen ≤ 1 + txMaxTokens := by
  by_contra hlong
  have hspec : wp skipChangeOutputs (fun _ _ _ => False) (fun _ _ _ => False) True d := by
    unfold skipChangeOutputs
    rw [wp_bind, wp_get, wp_ite]
    refine ⟨fun hnone => ?_, fun _ => ?_⟩
    · rw [hnone] at hlong
      exact absurd (Nat.zero_le _) hlong
    · rw [if_pos (Nat.lt_of_not_le hlong)]
      trivial
  rwa [wp_of_ret h] at hspec

/-- Where a skipping that lets the display go on has ended. -/
theorem moved_of_skips (hdisplay : tx.displayIndex < 256) (hconfirmed : tx.confirmedOutputs < 256)
    (h : skipChangeOutputs (d.withTx tx) = .ret false (d.withTx tx') []) :
    ∃ k, tx' = tx.movedBy k ∧
      (∀ j < k, tx.confirmedOutputs + j ∈ tx.changeIndices ∧ (tx.movedBy (j + 1)).Open) ∧
      tx.confirmedOutputs + k ≤ 256 ∧ (tx.confirmedOutputs + k < 256 → tx.confirmedOutputs + k ∉ tx.changeIndices) := by
  have hends := @skipChangeOutputs_passEnds (d.withTx tx) (changeLen_of_skips h) hdisplay hconfirmed
  rw [wp_of_ret h] at hends
  obtain ⟨k, hd', _, hchanges, hbyte, hend⟩ := hends
  exact ⟨k, congrArg Device.tx hd', hchanges, hbyte, hend⟩

/-- Both skippings together go past the change outputs behind the approved one, and no further. -/
theorem ApprovalComesTo.followed (h : ApprovalComesTo d tx) :
    d.tx.changeLen ≤ 1 + txMaxTokens ∧ ∃ k ≤ d.tx.changeLen, FollowedBy d.tx k ∧ tx = d.tx.movedBy (1 + k) := by
  obtain ⟨tx₁, hfirst, hchecked, hsecond⟩ := h
  have hfits := changeLen_of_skips hfirst
  replace hfits : d.tx.changeLen ≤ 1 + txMaxTokens := hfits
  have hmax : 1 + txMaxTokens = 11 := rfl
  have hfew := length_changeIndices_le d.tx
  rw [SignTxCtx.advance_eq] at hfirst
  obtain ⟨k₁, rfl, hchanges₁, hbyte₁, hend₁⟩ := moved_of_skips (u8_lt _) (u8_lt _) hfirst
  obtain ⟨k₂, rfl, hchanges₂, hbyte₂, hend₂⟩ := moved_of_skips (u8_lt _) (u8_lt _) hsecond
  have hopen₁ : ((d.tx.movedBy 1).movedBy k₁).Open := by
    have hspec := checkOutputIndexState_spec (d.withTx ((d.tx.movedBy 1).movedBy k₁))
    rw [wp_of_ret hchecked] at hspec
    exact hspec.2.2
  simp only [SignTxCtx.movedBy_movedBy, SignTxCtx.movedBy_changeIndices, SignTxCtx.movedBy_confirmedOutputs] at *
  have hchanges : ∀ j < k₁ + k₂, u8 (d.tx.confirmedOutputs + (1 + j)) ∈ d.tx.changeIndices ∧ (d.tx.movedBy (2 + j)).Open := by
    intro j hj
    rcases Nat.lt_or_ge j k₁ with hbelow | habove
    · obtain ⟨hmem, hopen⟩ := hchanges₁ j hbelow
      have hindex : u8 (d.tx.confirmedOutputs + (1 + j)) = u8 (d.tx.confirmedOutputs + 1) + j := by
        rw [← Nat.add_assoc, u8_add_of_lt (by omega)]
      have hplace : 2 + j = 1 + (j + 1) := by omega
      rw [hindex, hplace]
      exact ⟨hmem, hopen⟩
    · obtain ⟨i, rfl⟩ := Nat.exists_eq_add_of_le habove
      obtain ⟨hmem, hopen⟩ := hchanges₂ i (by omega)
      have hindex : u8 (d.tx.confirmedOutputs + (1 + (k₁ + i))) = u8 (d.tx.confirmedOutputs + (1 + k₁)) + i := by
        rw [← Nat.add_assoc 1, ← Nat.add_assoc _ (1 + k₁), u8_add_of_lt (by omega)]
      have hplace : 2 + (k₁ + i) = 1 + k₁ + (i + 1) := by omega
      rw [hindex, hplace]
      exact ⟨hmem, hopen⟩
  have hcount : k₁ + k₂ ≤ d.tx.changeIndices.length := by
    apply skips_le (c := d.tx.confirmedOutputs + 1) (by omega)
    intro j hj
    rw [Nat.add_assoc]
    exact (hchanges j hj).1
  refine ⟨hfits, k₁ + k₂, by omega, ⟨hchanges, ?_, ?_⟩, ?_⟩
  · -- the second skipping cannot come to the end of the byte again
    show u8 (d.tx.confirmedOutputs + (1 + (k₁ + k₂))) ∉ d.tx.changeIndices
    rcases Nat.lt_or_ge (u8 (d.tx.confirmedOutputs + (1 + k₁)) + k₂) 256 with hinside | hover
    · have hindex : u8 (d.tx.confirmedOutputs + (1 + (k₁ + k₂))) = u8 (d.tx.confirmedOutputs + (1 + k₁)) + k₂ := by
        rw [← Nat.add_assoc 1, ← Nat.add_assoc _ (1 + k₁), u8_add_of_lt hinside]
      rw [hindex]
      exact hend₂ hinside
    · have hsome : 0 < k₂ := by
        simp only [u8] at hover
        omega
      have hsame : u8 (d.tx.confirmedOutputs + (1 + k₁)) = u8 (d.tx.confirmedOutputs + 1) + k₁ ∧
          u8 (d.tx.confirmedOutputs + 1) + k₁ < 256 := by
        simp only [u8] at hover hbyte₁ ⊢
        omega
      have hmem := (hchanges₂ 0 hsome).1
      rw [hsame.1] at hmem
      exact absurd hmem (hend₁ hsame.2)
  · cases k₂ with
    | zero => exact hopen₁
    | succ k₂ =>
        have hplace : 1 + (k₁ + (k₂ + 1)) = 1 + k₁ + (k₂ + 1) := by omega
        rw [hplace]
        exact (hchanges₂ k₂ (Nat.lt_succ_self k₂)).2
  · rw [Nat.add_assoc]

/-- The cursors let the display go on at each output behind a skipped one, and at the last. -/
theorem FollowedBy.opens {k i : Nat} (h : FollowedBy d.tx k) (hi : i ≤ k) (hpos : 0 < i ∨ i = k) :
    (d.tx.movedBy (1 + i)).Open := by
  rcases Nat.eq_or_lt_of_le hi with rfl | hbelow
  · exact h.inside
  · obtain ⟨j, rfl⟩ := Nat.exists_eq_add_of_le' (show 1 ≤ i by omega)
    have hplace : 1 + (j + 1) = 2 + j := by omega
    rw [hplace]
    exact (h.changes j (by omega)).2

/-- A skipping from one of these outputs is not stopped, does not go past the last of them, and comes to it unless the byte of
the cursor ends before. -/
theorem FollowedBy.skips {j k : Nat} (h : FollowedBy d.tx k) (hfits : d.tx.changeLen ≤ 1 + txMaxTokens) (hj : j ≤ k) :
    ∃ m, j + m ≤ k ∧ (j + m < k → u8 (d.tx.confirmedOutputs + (1 + j)) + m = 256) ∧
      skipChangeOutputs (d.withTx (d.tx.movedBy (1 + j))) = .ret false (d.withTx (d.tx.movedBy (1 + (j + m)))) [] := by
  have hends := @skipChangeOutputs_passEnds (d.withTx (d.tx.movedBy (1 + j))) hfits (u8_lt _) (u8_lt _)
  obtain ⟨b, d', w, hskips, hends⟩ := exists_ret_of_wp hends
  have hlast : ∀ m, j + m = k → u8 (d.tx.confirmedOutputs + (1 + j)) + m < 256 →
      u8 (d.tx.confirmedOutputs + (1 + j)) + m ∉ d.tx.changeIndices := by
    intro m hplace hbyte hmem
    have hindex : u8 (d.tx.confirmedOutputs + (1 + k)) = u8 (d.tx.confirmedOutputs + (1 + j)) + m := by
      rw [← hplace, ← Nat.add_assoc 1, ← Nat.add_assoc _ (1 + j), u8_add_of_lt hbyte]
    apply h.rests
    rw [SignTxCtx.movedBy_confirmedOutputs, hindex]
    exact hmem
  cases b with
  | true =>
      obtain ⟨m, hchanges, hbyte, hclosed⟩ := hends
      simp only [Device.tx_withTx, SignTxCtx.movedBy_movedBy, SignTxCtx.movedBy_changeIndices,
        SignTxCtx.movedBy_confirmedOutputs] at hchanges hbyte hclosed
      exfalso
      rcases Nat.lt_or_ge (j + m) k with hbelow | habove
      · have hplace : 1 + j + (m + 1) = 2 + (j + m) := by omega
        rw [hplace] at hclosed
        exact hclosed (h.changes (j + m) hbelow).2
      · exact hlast (k - j) (by omega) (by omega) (hchanges (k - j) (by omega))
  | false =>
      obtain ⟨m, rfl, rfl, hchanges, hbyte, hend⟩ := hends
      simp only [Device.tx_withTx, Device.withTx_withTx, SignTxCtx.movedBy_movedBy, SignTxCtx.movedBy_changeIndices,
        SignTxCtx.movedBy_confirmedOutputs] at hchanges hbyte hend hskips
      have hle : j + m ≤ k := by
        by_contra hpast
        exact hlast (k - j) (by omega) (by omega) (hchanges (k - j) (by omega)).1
      refine ⟨m, hle, fun hbelow => ?_, ?_⟩
      · by_contra hinside
        have hindex : u8 (d.tx.confirmedOutputs + (1 + (j + m))) = u8 (d.tx.confirmedOutputs + (1 + j)) + m := by
          rw [← Nat.add_assoc 1, ← Nat.add_assoc _ (1 + j), u8_add_of_lt (by omega)]
        apply hend (by omega)
        rw [← hindex]
        exact (h.changes (j + m) hbelow).1
      · rw [← Nat.add_assoc]
        exact hskips

/-- The display comes to the first output behind the approved one that is not in the change list. -/
theorem FollowedBy.comesTo {k : Nat} (h : FollowedBy d.tx k) (hfits : d.tx.changeLen ≤ 1 + txMaxTokens)
    (hk : k ≤ d.tx.changeLen) : ApprovalComesTo d (d.tx.movedBy (1 + k)) := by
  have hmax : 1 + txMaxTokens = 11 := rfl
  obtain ⟨i, hi, hfirst, hskips⟩ := h.skips hfits (Nat.zero_le k)
  rw [Nat.zero_add] at hi hfirst hskips
  have hpos : 0 < i ∨ i = k := by
    by_contra hnone
    have hbyte := hfirst (by omega)
    simp only [u8] at hbyte
    omega
  obtain ⟨m, hm, hsecond, hskips'⟩ := h.skips hfits hi
  have hplace : i + m = k := by
    by_contra hshort
    have hbyte := hfirst (by omega)
    have hbyte' := hsecond (by omega)
    simp only [u8] at hbyte hbyte'
    omega
  rw [hplace] at hskips'
  exact ⟨_, hskips, checkOutputIndexState_open (h.opens hi hpos), hskips'⟩

/-- What comes on screen behind an approved output is told by the cursors before the approval. -/
theorem approvalComesTo_iff :
    ApprovalComesTo d tx ↔
      d.tx.changeLen ≤ 1 + txMaxTokens ∧ ∃ k ≤ d.tx.changeLen, FollowedBy d.tx k ∧ tx = d.tx.movedBy (1 + k) := by
  constructor
  · exact ApprovalComesTo.followed
  · rintro ⟨hfits, k, hk, hfollowed, rfl⟩
    exact hfollowed.comesTo hfits hk

end Approval

section Saved

variable {d : Device} {tx : SignTxCtx}

/-- Where the cursors were checked from the start the display stays among the saved outputs. -/
theorem ComesTo.among (h : ComesTo d tx) (hshown : d.tx.displayIndex < d.tx.bufferOutputLen)
    (hbyte : d.tx.bufferOutputLen < 256) : tx.displayIndex < d.tx.bufferOutputLen := by
  obtain ⟨hskips, _, hopen⟩ := h.skips
  have hle : ∀ tx', SkipsTo d.tx tx' → tx'.displayIndex ≤ d.tx.bufferOutputLen ∧ tx'.bufferOutputLen = d.tx.bufferOutputLen := by
    intro tx' hskips
    induction hskips with
    | refl => exact ⟨Nat.le_of_lt hshown, rfl⟩
    | @skip tx' _ inside _ ih =>
        obtain ⟨hle, hsame⟩ := ih
        have hlt : tx'.displayIndex < d.tx.bufferOutputLen := by
          rcases inside with rfl | hopen
          · exact hshown
          · exact Nat.lt_of_le_of_ne hle (hsame ▸ hopen.2)
        refine ⟨?_, hsame⟩
        show u8 (tx'.displayIndex + 1) ≤ _
        rw [u8_of_lt (by omega)]
        exact hlt
  obtain ⟨hdisplay, hsame⟩ := hle tx hskips
  exact Nat.lt_of_le_of_ne hdisplay (hsame ▸ hopen.2)

end Saved

end HathorApp
