import HathorApp.BufferBounds
import HathorApp.Footprint
import HathorApp.ShownOutput
import HathorApp.TokenBinding

/-!
The token table. Nothing compares the number of tokens with the size of the table where a token is written
to it; the number of tokens comes from the header, and the registry bounds the number of different UIDs
only. A header of more than ten tokens with the UID of a registered token again and again takes the
decoder past the table. Short of that the table is never left, neither when it is written nor when an
output of a slot is shown.
-/

namespace HathorApp

open ProgramLogic StreamDecoder TraceRun

/-- The token table keeps within its array, and the slots hold outputs of HTR or of a token of the
table. -/
structure SignTxCtx.TableInside (tx : SignTxCtx) : Prop where
  len : tx.tokens.length ≤ txMaxTokens
  slots : tx.outputs.length = outputSlots
  outputs : ∀ output ∈ tx.outputs, output.tokenIndex ≤ tx.tokens.length

theorem tableInside_zero : zeroSignTxCtx.TableInside := by
  refine ⟨Nat.zero_le _, List.length_replicate, fun output houtput => ?_⟩
  rw [List.eq_of_mem_replicate houtput]
  exact Nat.zero_le _

theorem SignTxCtx.TableInside.of_decodedFrom {tx tx' : SignTxCtx} (h : tx.TableInside) (hfrom : tx'.DecodedFrom tx) :
    tx'.TableInside := by
  rcases hfrom with ⟨htokens, houtputs⟩ | ⟨htokens, houtputs⟩
  · refine ⟨?_, ?_, ?_⟩
    · rw [htokens]
      exact h.len
    · rw [houtputs]
      exact h.slots
    · rw [htokens, houtputs]
      exact h.outputs
  · refine ⟨?_, ?_, ?_⟩
    · rw [htokens]
      exact tableInside_zero.len
    · rw [houtputs]
      exact tableInside_zero.slots
    · rw [htokens, houtputs]
      exact tableInside_zero.outputs

/-- The table stays within its array. -/
def TableKept (d d' : Device) (_ : List Obs) : Prop := d.tx.TableInside → d'.tx.TableInside

theorem tableKept_composable : Composable TableKept where
  refl _ := id
  trans h h' := fun hd => h' (h hd)

section Decoder

variable (verify : ChangeOutputInfo → TxOutput → Option Bool) (registry : TokenDataCtx)

/-- The change checks change nothing of the context. -/
theorem verifyChangeEntries_within (output : TxOutput) (changes : List ChangeOutputInfo) :
    Within (fun tx tx' _ => tx' = tx) (verifyChangeEntries verify output changes) := by
  have hc : Composable (fun (tx tx' : SignTxCtx) (_ : List Obs) => tx' = tx) :=
    ⟨fun _ => rfl, fun h h' => h'.trans h⟩
  induction changes with
  | nil => exact .pure hc _
  | cons info rest ih =>
      refine .ite (fun _ => .bind hc (.emit fun _ => rfl) fun _ => ?_) fun _ => ih
      split
      · exact .throw hc _
      · exact .throw hc _
      · exact ih

theorem decodeTokenUid_table {tx : SignTxCtx} (h : tx.TableInside) :
    wp (decodeTokenUid registry tx) (fun _ tx' _ => tx'.TableInside) (fun _ tx' _ => tx'.TableInside) True tx := by
  unfold decodeTokenUid
  rw [wp_ite]
  refine ⟨fun _ => h, fun _ => ?_⟩
  split
  · exact h
  · rw [wp_ite]
    refine ⟨fun hroom => ⟨?_, h.slots, fun output houtput => ?_⟩, fun _ => trivial⟩
    · rw [List.length_append]
      exact hroom
    · rw [List.length_append]
      exact Nat.le_succ_of_le (h.outputs output houtput)

theorem decodeOutput_table {tx : SignTxCtx} (h : tx.TableInside) :
    wp (decodeOutput verify tx) (fun _ tx' _ => tx'.TableInside) (fun _ tx' _ => tx'.TableInside) True tx := by
  unfold decodeOutput
  split
  · exact h
  · rename_i parsed outputLen hparse
    rw [wp_ite]
    refine ⟨fun _ => h, fun _ => ?_⟩
    rw [wp_ite]
    refine ⟨fun _ => h, fun hinTable => ?_⟩
    rw [wp_bind, wp_modify, wp_bind]
    have hcounted : { tx with currentOutput := tx.currentOutput + 1 }.TableInside := ⟨h.len, h.slots, h.outputs⟩
    refine wp_mono (verifyChangeEntries_within verify _ _ _) ?_ ?_ id
    · rintro _ tx' w rfl
      rw [wp_bind, wp_modify, wp_ite]
      refine ⟨fun _ => ⟨h.len, h.slots, h.outputs⟩, fun _ => ?_⟩
      rw [wp_bind, wp_modify, wp_emit]
      refine ⟨h.len, ?_, fun output houtput => ?_⟩
      · rw [List.length_set]
        exact h.slots
      · rcases List.mem_or_eq_of_mem_set houtput with hold | rfl
        · exact h.outputs output hold
        · exact Nat.le_of_not_lt hinTable
    · rintro e tx' w rfl
      exact hcounted

theorem decodeInput_table {tx : SignTxCtx} (h : tx.TableInside) :
    wp (decodeInput tx) (fun _ tx' _ => tx'.TableInside) (fun _ tx' _ => tx'.TableInside) True tx := by
  unfold decodeInput
  rw [wp_ite]
  refine ⟨fun _ => h, fun _ => ?_⟩
  rw [wp_ite]
  exact ⟨fun _ => h, fun _ => ⟨h.len, h.slots, h.outputs⟩⟩

theorem _decodeElements_table {tx : SignTxCtx} (h : tx.TableInside) :
    wp (_decodeElements verify registry) (fun _ tx' _ => tx'.TableInside) (fun _ tx' _ => tx'.TableInside) True tx := by
  unfold _decodeElements
  simp only [wp_bind, wp_get, wp_ite, wp_pure, wp_throw]
  refine ⟨fun _ => ?_, fun _ => ⟨fun _ => ?_, fun _ => ⟨fun _ => ?_, fun _ => h⟩⟩⟩
  · exact decodeTokenUid_table registry h
  · exact decodeInput_table h
  · exact decodeOutput_table verify h

end Decoder

theorem tableKept_footprint (pf : Platform) (o : Outcome) : Footprint pf o TableKept where
  composable := tableKept_composable
  outside := by
    intro d d' _ hcontext _ _ hd
    have htx : d'.tx = d.tx := congrArg GlobalCtx.txInfo hcontext
    rwa [htx]
  context := by
    intro d ctx hfrom hd
    exact hd.of_decodedFrom hfrom
  registry _ _ := id
  secret _ := id
  decode := by
    intro registry tx
    by_cases h : tx.TableInside
    · refine wp_mono (_decodeElements_table _ registry h) ?_ ?_ id
      · exact fun _ _ _ h' _ _ => h'
      · exact fun _ _ _ h' _ _ => h'
    · have hnone : ∀ tx' w, OnTx TableKept tx tx' w := fun _ _ _ h' => absurd h' h
      unfold wp
      split
      · exact hnone _ _
      · exact hnone _ _
      · trivial

theorem run_tableInside {pf : Platform} {h : History Device Event Obs} {d : Device} (run : Run (freeSystem pf) h d) :
    d.tx.TableInside := by
  apply run_of_footprint (I := fun d => d.tx.TableInside) _ (tableKept_footprint pf) _ run
  · exact fun _ => tableInside_zero
  · intro d d' hcontext _ hd
    have htx : d'.tx = d.tx := congrArg GlobalCtx.txInfo hcontext
    rwa [htx]

section Writes

variable {verify : ChangeOutputInfo → TxOutput → Option Bool} {registry : TokenDataCtx}

/-- The next iteration of the decoder writes to the token table. -/
structure WritesToken (registry : TokenDataCtx) (tx : SignTxCtx) : Prop where
  pending : 0 < tx.remainingTokens
  complete : tokenUidLen ≤ tx.buffer.length
  known : findTokenRegistryIndex registry (tx.buffer.take tokenUidLen) ≠ none

/-- The buffer begins with one UID more than the table has places left, each of a registered token, and the
header has announced them. -/
structure OverfillsTable (registry : TokenDataCtx) (tx : SignTxCtx) : Prop where
  announced : txMaxTokens - tx.tokens.length < tx.remainingTokens
  complete : tokenUidLen * (txMaxTokens - tx.tokens.length + 1) ≤ tx.buffer.length
  known : ∀ i ≤ txMaxTokens - tx.tokens.length,
    findTokenRegistryIndex registry ((tx.buffer.drop (tokenUidLen * i)).take tokenUidLen) ≠ none

instance (registry : TokenDataCtx) (tx : SignTxCtx) : Decidable (OverfillsTable registry tx) :=
  decidable_of_iff (txMaxTokens - tx.tokens.length < tx.remainingTokens ∧
      tokenUidLen * (txMaxTokens - tx.tokens.length + 1) ≤ tx.buffer.length ∧
      ∀ i ≤ txMaxTokens - tx.tokens.length,
        findTokenRegistryIndex registry ((tx.buffer.drop (tokenUidLen * i)).take tokenUidLen) ≠ none)
    ⟨fun h => ⟨h.1, h.2.1, h.2.2⟩, fun h => ⟨h.announced, h.complete, h.known⟩⟩

/-- The context after some tokens have been taken off the buffer. -/
structure TokensTaken (registry : TokenDataCtx) (tx : SignTxCtx) (k : Nat) (tx' : SignTxCtx) : Prop where
  tokens : tx'.tokens.length = tx.tokens.length + k
  remaining : tx'.remainingTokens + k = tx.remainingTokens
  buffer : tx'.buffer = tx.buffer.drop (tokenUidLen * k)
  known : ∀ i < k, findTokenRegistryIndex registry ((tx.buffer.drop (tokenUidLen * i)).take tokenUidLen) ≠ none

theorem tokensTaken_zero (tx : SignTxCtx) : TokensTaken registry tx 0 tx :=
  ⟨rfl, rfl, rfl, fun _ h => absurd h (Nat.not_lt_zero _)⟩

theorem TokensTaken.next {tx tx₁ tx₂ : SignTxCtx} {k : Nat} (h : TokensTaken registry tx k tx₁)
    (hwrites : WritesToken registry tx₁) (h' : TokensTaken registry tx₁ 1 tx₂) : TokensTaken registry tx (k + 1) tx₂ := by
  have hpending := hwrites.pending
  have htokens := h.tokens
  have hremaining := h.remaining
  have htokens' := h'.tokens
  have hremaining' := h'.remaining
  refine ⟨by omega, by omega, ?_, fun i hi => ?_⟩
  · rw [h'.buffer, h.buffer, List.drop_drop, Nat.mul_one, Nat.mul_succ]
  · rcases Nat.lt_succ_iff_lt_or_eq.mp hi with hbelow | rfl
    · exact h.known i hbelow
    · have hknown := hwrites.known
      rwa [h.buffer] at hknown

theorem decodeOutput_remaining (tx : SignTxCtx) :
    Within (fun tx tx' _ => tx'.remainingTokens = tx.remainingTokens) (decodeOutput verify tx) := by
  have hc : Composable (fun (tx tx' : SignTxCtx) (_ : List Obs) => tx'.remainingTokens = tx.remainingTokens) :=
    ⟨fun _ => rfl, fun h h' => h'.trans h⟩
  have hcheck : ∀ output, Within (fun (tx tx' : SignTxCtx) (_ : List Obs) => tx'.remainingTokens = tx.remainingTokens)
      (verifyChangeEntries verify output tx.changes) := by
    intro output tx₁
    refine wp_mono (verifyChangeEntries_within verify output tx.changes tx₁) ?_ ?_ id
    · exact fun _ _ _ h => congrArg SignTxCtx.remainingTokens h
    · exact fun _ _ _ h => congrArg SignTxCtx.remainingTokens h
  unfold decodeOutput
  split
  · exact .throw hc _
  · refine .ite (fun _ => .throw hc _) fun _ => .ite (fun _ => .throw hc _) fun _ => ?_
    refine .bind hc (.modify fun _ => rfl) fun _ => .bind hc (hcheck _) fun _ => ?_
    refine .bind hc (.modify fun _ => rfl) fun _ => .ite (fun _ => .throw hc _) fun _ => ?_
    exact .bind hc (.modify fun _ => rfl) fun _ => .emit fun _ => rfl

/-- An iteration after which a token is still to come has taken one off the buffer. -/
theorem _decodeElements_token {tx tx' : SignTxCtx} {again : Bool} {w : List Obs}
    (ret : _decodeElements verify registry tx = .ret again tx' w) (hpending : 0 < tx'.remainingTokens) :
    WritesToken registry tx ∧ TokensTaken registry tx 1 tx' := by
  have hspec : wp (_decodeElements verify registry)
      (fun _ tx' _ => 0 < tx'.remainingTokens → WritesToken registry tx ∧ TokensTaken registry tx 1 tx')
      (fun _ _ _ => True) True tx := by
    unfold _decodeElements
    simp only [wp_bind, wp_get, wp_ite, wp_pure, wp_throw]
    refine ⟨fun htokens => ?_, fun htokens => ⟨fun hinputs => ?_, fun _ => ⟨fun _ => ?_, fun _ => trivial⟩⟩⟩
    · unfold decodeTokenUid
      rw [wp_ite]
      refine ⟨fun _ => trivial, fun hcomplete => ?_⟩
      cases hfind : findTokenRegistryIndex registry (tx.buffer.take tokenUidLen) with
      | none => trivial
      | some slot =>
          have hknown : findTokenRegistryIndex registry (tx.buffer.take tokenUidLen) ≠ none := by
            rw [hfind]
            exact Option.some_ne_none slot
          dsimp only
          rw [wp_ite]
          refine ⟨fun _ _ => ⟨⟨htokens, Nat.le_of_not_lt hcomplete, hknown⟩, ?_, ?_, ?_, ?_⟩, fun _ => trivial⟩
          · rw [List.length_append, List.length_singleton]
          · exact Nat.sub_add_cancel htokens
          · rw [Nat.mul_one]
          · intro i hi
            obtain rfl : i = 0 := Nat.lt_one_iff.mp hi
            exact hknown
    · unfold decodeInput
      rw [wp_ite]
      refine ⟨fun _ => trivial, fun _ => ?_⟩
      rw [wp_ite]
      exact ⟨fun _ => trivial, fun _ h => absurd h htokens⟩
    · refine wp_mono (decodeOutput_remaining tx tx) ?_ (fun _ _ _ _ => trivial) id
      intro _ tx' _ hsame h
      exact absurd (hsame ▸ h) htokens
  rw [wp_of_ret ret] at hspec
  exact hspec hpending

/-- An iteration that finds a place in the table for a token. -/
theorem _decodeElements_writes (verify : ChangeOutputInfo → TxOutput → Option Bool) {tx : SignTxCtx}
    (hwrites : WritesToken registry tx) (hroom : tx.tokens.length < txMaxTokens) (hmore : tokenUidLen < tx.buffer.length) :
    ∃ tx', _decodeElements verify registry tx = .ret true tx' [] ∧ TokensTaken registry tx 1 tx' := by
  obtain ⟨slot, hslot⟩ := Option.ne_none_iff_exists'.mp hwrites.known
  have hwp : wp (_decodeElements verify registry)
      (fun again tx' w => again = true ∧ w = [] ∧ TokensTaken registry tx 1 tx') (fun _ _ _ => False) False tx := by
    unfold _decodeElements decodeTokenUid
    have hcomplete : ¬tx.buffer.length < tokenUidLen := Nat.not_lt.mpr hwrites.complete
    simp only [wp_bind, wp_get, hwrites.pending, hcomplete, hslot, hroom, if_true, if_false, wp_modify, wp_pure]
    refine ⟨decide_eq_true ?_, rfl, ?_, ?_, ?_, ?_⟩
    · rw [List.length_drop]
      omega
    · rw [List.length_append, List.length_singleton]
    · exact Nat.sub_add_cancel hwrites.pending
    · rw [Nat.mul_one]
    · intro i hi
      obtain rfl : i = 0 := Nat.lt_one_iff.mp hi
      exact hwrites.known
  obtain ⟨_, tx', _, ret, rfl, rfl, htaken⟩ := exists_ret_of_wp hwp
  exact ⟨tx', ret, htaken⟩

/-- The loop comes to a context with tokens to come by taking tokens alone. -/
theorem LoopReaches.tokensTaken {tx tx₁ : SignTxCtx} (h : LoopReaches verify registry tx tx₁)
    (hpending : 0 < tx₁.remainingTokens) : ∃ k, TokensTaken registry tx k tx₁ := by
  induction h with
  | start => exact ⟨0, tokensTaken_zero tx⟩
  | iterate _ again ih =>
      obtain ⟨hwrites, htaken⟩ := _decodeElements_token again hpending
      obtain ⟨k, hk⟩ := ih hwrites.pending
      exact ⟨k + 1, hk.next hwrites htaken⟩

theorem OverfillsTable.writes {tx tx₁ : SignTxCtx} (h : OverfillsTable registry tx) {k : Nat}
    (hk : k ≤ txMaxTokens - tx.tokens.length) (htaken : TokensTaken registry tx k tx₁) :
    WritesToken registry tx₁ := by
  have hannounced := h.announced
  have hcomplete := h.complete
  have hremaining := htaken.remaining
  have hknown := h.known k hk
  rw [← htaken.buffer] at hknown
  have huid : tokenUidLen = 32 := rfl
  refine ⟨by omega, ?_, hknown⟩
  rw [htaken.buffer, List.length_drop, huid]
  rw [huid] at hcomplete
  omega

/-- As long as the table has places left, the loop takes the tokens that overfill it. -/
theorem OverfillsTable.loopReaches (verify : ChangeOutputInfo → TxOutput → Option Bool) {tx : SignTxCtx}
    (h : OverfillsTable registry tx) {k : Nat}
    (hk : k ≤ txMaxTokens - tx.tokens.length) :
    ∃ tx₁, LoopReaches verify registry tx tx₁ ∧ TokensTaken registry tx k tx₁ := by
  induction k with
  | zero => exact ⟨tx, .start, tokensTaken_zero tx⟩
  | succ k ih =>
      obtain ⟨tx₁, hreaches, htaken⟩ := ih (by omega)
      have hwrites := h.writes (by omega) htaken
      have hcomplete := h.complete
      have huid : tokenUidLen = 32 := rfl
      have hroom : tx₁.tokens.length < txMaxTokens := by
        rw [htaken.tokens]
        omega
      have hmore : tokenUidLen < tx₁.buffer.length := by
        rw [htaken.buffer, List.length_drop, huid]
        rw [huid] at hcomplete
        omega
      obtain ⟨tx₂, ret, hnext⟩ := _decodeElements_writes verify hwrites hroom hmore
      exact ⟨tx₂, .iterate hreaches ret, htaken.next hwrites hnext⟩

/-- The decoder comes to a token for which the table has no place left exactly when the buffer overfills
it. -/
theorem exists_write_past_iff (verify : ChangeOutputInfo → TxOutput → Option Bool) {tx : SignTxCtx}
    (hlen : tx.tokens.length ≤ txMaxTokens) :
    (∃ tx₁, LoopReaches verify registry tx tx₁ ∧ WritesToken registry tx₁ ∧ txMaxTokens ≤ tx₁.tokens.length) ↔
      OverfillsTable registry tx := by
  constructor
  · rintro ⟨tx₁, hreaches, hwrites, hfull⟩
    obtain ⟨k, htaken⟩ := hreaches.tokensTaken hwrites.pending
    have htokens := htaken.tokens
    have hremaining := htaken.remaining
    have hpending := hwrites.pending
    have hcomplete := hwrites.complete
    have huid : tokenUidLen = 32 := rfl
    rw [htaken.buffer, List.length_drop, huid] at hcomplete
    refine ⟨by omega, ?_, fun i hi => ?_⟩
    · rw [huid]
      omega
    · by_cases hbelow : i < k
      · exact htaken.known i hbelow
      · obtain rfl : i = k := by omega
        have hknown := hwrites.known
        rwa [htaken.buffer] at hknown
  · intro h
    obtain ⟨tx₁, hreaches, htaken⟩ := h.loopReaches verify (Nat.le_refl _)
    refine ⟨tx₁, hreaches, h.writes (Nat.le_refl _) htaken, ?_⟩
    rw [htaken.tokens]
    omega

end Writes

section Step

variable (pf : Platform)

/-- Every write to the token table that decoding makes is inside the array. -/
def WritesInside (d : Device) (e : Event) : Prop :=
  ∀ o d₁ tx, TakesChunk d e o d₁ → LoopReaches (verifyChange pf o) d₁.gTokenSymbols d₁.tx tx →
    WritesToken d₁.gTokenSymbols tx → tx.tokens.length < txMaxTokens

/-- The contexts of which an output is read for the screen: behind an approved output, or among the outputs of a chunk. -/
inductive Displayed (d : Device) : Event → SignTxCtx → Prop where
  | press {o : Outcome} {tx : SignTxCtx} (flow : d.flow = .txOutput) (comes : ApprovalComesTo d tx) :
      Displayed d (.press o true) tx
  | chunk {e : Event} {o : Outcome} {d₁ : Device} {tx₁ tx : SignTxCtx} {w : List Obs} (taken : TakesChunk d e o d₁)
      (decoded : decodeElements (verifyChange pf o) d₁.gTokenSymbols d₁.tx = .ret txStateReady tx₁ w)
      (saved : tx₁.bufferOutputLen ≠ 0) (comes : ComesTo (d₁.withTx tx₁) tx) : Displayed d e tx

/-- Every read of the token table for an output on screen is inside the array. -/
def ReadsInside (d : Device) (e : Event) : Prop :=
  ∀ tx, Displayed pf d e tx → ∃ output, tx.outputs[tx.displayIndex]? = some output ∧
    (output.tokenIndex ≠ 0 → output.tokenIndex - 1 < tx.tokens.length ∧ tx.tokens.length ≤ txMaxTokens)

/-- An output on screen is approved, and the change outputs behind it carry the display past the slots. -/
def ApprovesPastSlots (d : Device) : Event → Prop
  | .press _ true => d.flow = .txOutput ∧ d.tx.changeLen ≤ 1 + txMaxTokens ∧
      ∃ k ≤ d.tx.changeLen, FollowedBy d.tx k ∧ outputSlots ≤ u8 (d.tx.displayIndex + (1 + k))
  | _ => False

instance (d : Device) : ∀ e, Decidable (ApprovesPastSlots d e)
  | .press _ true => inferInstanceAs (Decidable (_ ∧ _ ∧ _))
  | .press _ false => isFalse id
  | .apdu .. => isFalse id
  | .quit => isFalse id

/-- A data command overfills the token table. -/
def Overfills (d : Device) (e : Event) : Prop := ∃ o d₁, TakesChunk d e o d₁ ∧ OverfillsTable d₁.gTokenSymbols d₁.tx

instance (d : Device) (e : Event) : Decidable (Overfills d e) :=
  decidableTakesChunk d e fun d₁ => OverfillsTable d₁.gTokenSymbols d₁.tx

variable {pf} {d : Device} {e : Event}

theorem TakesChunk.tableInside (pf : Platform) {o : Outcome} {d₁ : Device} (htaken : TakesChunk d e o d₁)
    (hd : d.tx.TableInside) : d₁.tx.TableInside := by
  obtain ⟨raw, cmd, _, hparse, _, _, _, _, _, ret⟩ := htaken
  have hlimit : decodeBufferLen = 300 := rfl
  have hlen : cmd.data.length ≤ 255 := apduParser_fits hparse
  have hkept := (tableKept_footprint pf o).takeChunk (show cmd.data.length ≤ decodeBufferLen by omega) cmd.p2 d.entered
  rw [wp_of_ret ret] at hkept
  exact hkept (hd.of_decodedFrom (Or.inl ⟨rfl, rfl⟩))

theorem writesInside_iff (hd : d.tx.TableInside) : WritesInside pf d e ↔ ¬Overfills d e := by
  constructor
  · rintro hinside ⟨o, d₁, htaken, hoverfills⟩
    have hd₁ : d₁.tx.TableInside := htaken.tableInside pf hd
    obtain ⟨tx, hreaches, hwrites, hfull⟩ := (exists_write_past_iff (verifyChange pf o) hd₁.len).mpr hoverfills
    exact Nat.not_lt.mpr hfull (hinside o d₁ tx htaken hreaches hwrites)
  · intro hnot o d₁ tx htaken hreaches hwrites
    have hd₁ : d₁.tx.TableInside := htaken.tableInside pf hd
    refine Nat.lt_of_not_le fun hfull => hnot ⟨o, d₁, htaken, ?_⟩
    exact (exists_write_past_iff (verifyChange pf o) hd₁.len).mp ⟨tx, hreaches, hwrites, hfull⟩

/-- The decoder leaves the display where it is, and saves no more outputs than there are slots. -/
def SavesWithin (tx tx' : SignTxCtx) (_ : List Obs) : Prop :=
  tx'.displayIndex = tx.displayIndex ∧ (tx.bufferOutputLen ≤ outputSlots → tx'.bufferOutputLen ≤ outputSlots)

theorem savesWithin_composable : Composable SavesWithin where
  refl _ := ⟨rfl, id⟩
  trans h h' := ⟨h'.1.trans h.1, fun hd => h'.2 (h.2 hd)⟩

section Saves

variable (verify : ChangeOutputInfo → TxOutput → Option Bool) (registry : TokenDataCtx)

theorem decodeOutput_saves (tx : SignTxCtx) :
    wp (decodeOutput verify tx) (fun _ tx' w => SavesWithin tx tx' w) (fun _ tx' w => SavesWithin tx tx' w) True tx := by
  have hc := savesWithin_composable
  unfold decodeOutput
  split
  · exact hc.refl tx
  · rw [wp_ite]
    refine ⟨fun _ => hc.refl tx, fun _ => ?_⟩
    rw [wp_ite]
    refine ⟨fun _ => hc.refl tx, fun _ => ?_⟩
    rw [wp_bind, wp_modify, wp_bind]
    refine wp_mono (verifyChangeEntries_within verify _ _ _) ?_ ?_ id
    · rintro _ tx' w rfl
      rw [wp_bind, wp_modify, wp_ite]
      refine ⟨fun _ => ⟨rfl, id⟩, fun hfree => ?_⟩
      rw [wp_bind, wp_modify, wp_emit]
      exact ⟨rfl, fun _ => Nat.lt_of_not_le hfree⟩
    · rintro e tx' w rfl
      exact ⟨rfl, id⟩

theorem _decodeElements_saves : Within SavesWithin (_decodeElements verify registry) := by
  intro tx
  unfold _decodeElements
  simp only [wp_bind, wp_get, wp_ite, wp_pure, wp_throw]
  refine ⟨fun _ => ?_, fun _ => ⟨fun _ => ?_, fun _ => ⟨fun _ => decodeOutput_saves verify tx, fun _ => ⟨rfl, id⟩⟩⟩⟩
  · unfold decodeTokenUid
    rw [wp_ite]
    refine ⟨fun _ => ⟨rfl, id⟩, fun _ => ?_⟩
    split
    · exact ⟨rfl, id⟩
    · rw [wp_ite]
      exact ⟨fun _ => ⟨rfl, id⟩, fun _ => trivial⟩
  · unfold decodeInput
    rw [wp_ite]
    refine ⟨fun _ => ⟨rfl, id⟩, fun _ => ?_⟩
    rw [wp_ite]
    exact ⟨fun _ => ⟨rfl, id⟩, fun _ => ⟨rfl, id⟩⟩

theorem decodeElements_saves : Within SavesWithin (decodeElements verify registry) := by
  have hc := savesWithin_composable
  have hloop : ∀ fuel, Within SavesWithin (decodeLoop verify registry fuel) := by
    intro fuel
    induction fuel with
    | zero => exact .pure hc _
    | succ fuel ih => exact .bind hc (_decodeElements_saves verify registry) fun _ => .ite (fun _ => ih) fun _ => .pure hc _
  refine .bind hc (.get hc) fun tx => .catchAll hc ?_ fun _ => .pure hc _
  exact .bind hc (hloop _) fun _ => .ite (fun _ => .pure hc _) fun _ => .overrun

end Saves

/-- A chunk finds the cursor of the display at the first slot, and no output saved. -/
theorem TakesChunk.unsaved {o : Outcome} {d₁ : Device} (htaken : TakesChunk d e o d₁) :
    d₁.tx.displayIndex = 0 ∧ d₁.tx.bufferOutputLen = 0 := by
  obtain ⟨raw, cmd, _, hparse, _, _, _, _, hlater, ret⟩ := htaken
  have hlimit : decodeBufferLen = 300 := rfl
  have hlen : cmd.data.length ≤ 255 := apduParser_fits hparse
  have hspec : wp (takeChunk o (Buffer.ofData cmd.data) cmd.p2)
      (fun _ d₁ _ => d₁.tx.displayIndex = 0 ∧ d₁.tx.bufferOutputLen = 0) (fun _ _ _ => True) True d.entered := by
    rcases Nat.eq_zero_or_pos cmd.p2 with hfirst | hpos
    · rw [hfirst]
      by_cases hstate : d.entered.state = .recvData
      · unfold takeChunk
        rw [if_pos rfl, wp_bind, wp_get, if_pos hstate]
        trivial
      · refine wp_mono (takeChunk_first_spec o (by omega) d.entered hstate) ?_ (fun _ _ _ _ => trivial) fun _ => trivial
        rintro _ d₁ _ ⟨_, changeLen, changeInfo, offset, _, _, _, _, rfl⟩
        exact ⟨rfl, rfl⟩
    · rw [takeChunk_later o hpos]
      split
      · trivial
      · split
        · trivial
        · exact ⟨rfl, rfl⟩
  rwa [wp_of_ret ret] at hspec

/-- The outputs of a chunk are shown from their slots, and so are those behind an approval that is not carried past them. -/
theorem Displayed.within {tx : SignTxCtx} (h : Displayed pf d e tx) (hnot : ¬ApprovesPastSlots d e) :
    tx.displayIndex < outputSlots := by
  cases h with
  | press flow comes =>
      obtain ⟨hfits, k, hk, hfollowed, rfl⟩ := approvalComesTo_iff.mp comes
      exact Nat.lt_of_not_le fun hpast => hnot ⟨flow, hfits, k, hk, hfollowed, hpast⟩
  | @chunk _ o d₁ tx₁ _ _ taken decoded saved comes =>
      obtain ⟨hshown, hnone⟩ := taken.unsaved
      have hsaves := decodeElements_saves (verifyChange pf o) d₁.gTokenSymbols d₁.tx
      rw [wp_of_ret decoded] at hsaves
      have hslots : tx₁.bufferOutputLen ≤ outputSlots := hsaves.2 (hnone ▸ Nat.zero_le _)
      have hten : outputSlots = 10 := rfl
      have hfirst : tx₁.displayIndex < tx₁.bufferOutputLen := by
        rw [hsaves.1, hshown]
        exact Nat.pos_of_ne_zero saved
      have hbyte : tx₁.bufferOutputLen < 256 := by omega
      exact Nat.lt_of_lt_of_le (comes.among hfirst hbyte) hslots

theorem Displayed.tableInside {tx : SignTxCtx} (h : Displayed pf d e tx) (hd : d.tx.TableInside) : tx.TableInside := by
  cases h with
  | press _ comes =>
      have hadvance : d.tx.advance.TableInside := hd.of_decodedFrom (Or.inl ⟨rfl, rfl⟩)
      exact hadvance.of_decodedFrom comes.skips.1.decodedFrom
  | @chunk _ o d₁ tx₁ _ _ taken decoded _ comes =>
      have hd₁ : d₁.tx.TableInside := taken.tableInside pf hd
      have hkept := (tableKept_footprint pf o).decodeElements d₁.gTokenSymbols d₁.tx
      rw [wp_of_ret decoded] at hkept
      have htx₁ : tx₁.TableInside := hkept d₁ hd₁
      exact htx₁.of_decodedFrom comes.skips.1.decodedFrom

/-- In every run the table keeps within its array, and in its next step every write and every read is inside
the array, exactly when the step neither overfills the table nor approves an output behind which the display comes past the
slots. -/
theorem table_within_iff {h : History Device Event Obs} (run : Run (freeSystem pf) h d) (e : Event) :
    (d.tx.tokens.length ≤ txMaxTokens ∧ WritesInside pf d e ∧ ReadsInside pf d e) ↔
      ¬Overfills d e ∧ ¬ApprovesPastSlots d e := by
  have hd := run_tableInside run
  rw [writesInside_iff hd]
  constructor
  · rintro ⟨_, hnot, hreads⟩
    refine ⟨hnot, fun hpast => ?_⟩
    cases e with
    | press o choice =>
        cases choice with
        | false => exact hpast
        | true =>
            obtain ⟨hflow, hfits, k, hk, hfollowed, hpast⟩ := hpast
            have hshown : Displayed pf d (.press o true) (d.tx.movedBy (1 + k)) := .press hflow (hfollowed.comesTo hfits hk)
            obtain ⟨output, hslot, _⟩ := hreads _ hshown
            have hinside := (List.getElem?_eq_some_iff.mp hslot).1
            rw [(hshown.tableInside hd).slots] at hinside
            exact absurd hinside (Nat.not_lt.mpr hpast)
    | apdu o raw => exact hpast
    | quit => exact hpast
  · rintro ⟨hnot, hslots⟩
    refine ⟨hd.len, hnot, fun tx hshown => ?_⟩
    have htx := hshown.tableInside hd
    have hindex : tx.displayIndex < tx.outputs.length := by
      rw [htx.slots]
      exact hshown.within hslots
    refine ⟨tx.outputs[tx.displayIndex], List.getElem?_eq_getElem hindex, fun hcustom => ⟨?_, htx.len⟩⟩
    have hinTable := htx.outputs _ (List.getElem_mem hindex)
    omega

/-- The first of four outputs is on screen, and Approve is pressed: the second is the change, and the third comes on screen. -/
theorem table_within_iff_press :
    ∃ h d, Run (freeSystem countingPlatform) h d ∧ d.flow = .txOutput ∧ FollowedBy d.tx 1 ∧ d.tx.tokens.length ≤ txMaxTokens ∧
      WritesInside countingPlatform d (press true) ∧ ReadsInside countingPlatform d (press true) := by
  obtain ⟨h, r, _, run, hP⟩ := exists_step_of_play countingPlatform true [] []
    (signTxData 0 (sampleStart 4 ++ sampleOutput 7 ++ sampleChangeOutput ++ sampleOutput 8))
    (fun _ r => r.post.flow = .txOutput ∧ FollowedBy r.post.tx 1 ∧ ¬Overfills r.post (press true) ∧
      ¬ApprovesPastSlots r.post (press true)) (by decide +kernel)
  obtain ⟨hflow, hfollowed, hnot, hslots⟩ := of_decide_eq_true hP
  have free := free_of_waiting run
  exact ⟨r :: h, r.post, free, hflow, hfollowed, (table_within_iff free (press true)).mpr ⟨hnot, hslots⟩⟩

/-- A header of eleven tokens and the UID of the one registered token eleven times: the last one is written
past the table. -/
theorem repeated_uid_past_table :
    ∃ h d e, Run (waitingSystem countingPlatform) h d ∧ handle countingPlatform e d = .overrun ∧
      ¬(d.tx.tokens.length ≤ txMaxTokens ∧ WritesInside countingPlatform d e ∧ ReadsInside countingPlatform d e) := by
  obtain ⟨h, r, _, run, hP⟩ := exists_step_of_play countingPlatform true (List.replicate 32 1)
    [sendTokenData 0 (tokenData [65] [66] ++ List.replicate 31 0 ++ [2])]
    (signTxData 0 ([0, 0, 1, 11, 0, 1] ++ List.replicate 224 0))
    (fun _ r => decide (Overfills r.post (signTxData 1 (List.replicate 128 0))) &&
      match handle countingPlatform (signTxData 1 (List.replicate 128 0)) r.post with
      | .overrun => true
      | _ => false) (by decide +kernel)
  obtain ⟨hoverfills, hoverrun⟩ := Bool.and_eq_true_iff.mp hP
  refine ⟨r :: h, r.post, signTxData 1 (List.replicate 128 0), run, ?_, fun ⟨_, hwrites, _⟩ => ?_⟩
  · cases hresult : handle countingPlatform (signTxData 1 (List.replicate 128 0)) r.post with
    | ret => rw [hresult] at hoverrun; cases hoverrun
    | throw => rw [hresult] at hoverrun; cases hoverrun
    | overrun => rfl
  · have hd := run_tableInside (free_of_waiting run)
    exact (writesInside_iff hd).mp hwrites (of_decide_eq_true hoverfills)

end Step

end HathorApp
