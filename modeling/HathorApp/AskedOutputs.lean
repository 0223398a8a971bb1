import HathorApp.Exchange

/-!
What the user is asked in the exchange of a whole transaction. Chunk after chunk, the outputs to confirm come on screen in their
order, and the approval after the last chunk, unless a chunk ends behind an output to confirm and before a change output.
-/

namespace HathorApp

open ProgramLogic StreamDecoder TraceRun

/-- Every command is answered, the outputs are put on screen in this order, and the approval once, after the last one. -/
structure Asks (later : Nat) (outputs : List (Bytes × Bytes)) (seen : List (List Obs)) : Prop where
  answered : ∀ w ∈ seen, replies w = [([], swOk)]
  shown : seen.flatMap shownOutputs = outputs
  approval : seen.map (·.count (.display .confirmTx)) = List.replicate later 0 ++ [1]

section Asks

variable {later : Nat} {outputs more : List (Bytes × Bytes)} {w : List Obs} {seen : List (List Obs)}

theorem asks_singleton (hanswered : replies w = [([], swOk)]) (hcount : w.count (.display .confirmTx) = 1) :
    Asks 0 (shownOutputs w) [w] := by
  refine ⟨?_, List.append_nil _, ?_⟩
  · simpa using hanswered
  · rw [List.map_singleton, hcount]
    rfl

/-- A command before the last one. -/
theorem asks_cons (hanswered : replies w = [([], swOk)]) (hcount : w.count (.display .confirmTx) = 0) :
    Asks (later + 1) (shownOutputs w ++ more) (w :: seen) ↔ Asks later more seen := by
  constructor
  · rintro ⟨hall, hshown, happroval⟩
    rw [List.map_cons, List.replicate_succ, List.cons_append, List.cons.injEq] at happroval
    exact ⟨fun u hu => hall u (List.mem_cons_of_mem _ hu), List.append_cancel_left hshown, happroval.2⟩
  · rintro ⟨hall, hshown, happroval⟩
    refine ⟨List.forall_mem_cons.mpr ⟨hanswered, hall⟩, ?_, ?_⟩
    · rw [List.flatMap_cons, hshown]
    · rw [List.map_cons, hcount, happroval]
      rfl

/-- The approval before the last command is too early. -/
theorem not_asks_early (hconfirm : .display .confirmTx ∈ w) : ¬Asks (later + 1) outputs (w :: seen) := by
  rintro ⟨_, _, happroval⟩
  rw [List.map_cons, List.replicate_succ, List.cons_append, List.cons.injEq] at happroval
  exact List.count_eq_zero.mp happroval.1 hconfirm

end Asks

section Chunks

variable {q : SigningRequest} {k n : Nat}

theorem SigningRequest.complete_lt (h : n < q.elements.serialize.length) : q.elements.complete n < q.elements.outputs.length := by
  refine Nat.lt_of_le_of_ne (q.elements.complete_le n) fun hall => ?_
  have hpos := q.outputs_pos
  have hle := Nat.findGreatest_of_ne_zero (P := fun k => (q.elements.upTo k).length ≤ n) (n := q.elements.outputs.length) hall
    (by omega)
  rw [q.elements.upTo_length] at hle
  omega

theorem SigningRequest.newOutputs_whole (q : SigningRequest) : q.newOutputs 0 q.elements.serialize.length = q.toConfirm := by
  unfold newOutputs toConfirm
  rw [List.drop_zero, q.elements.complete_length, ← q.elements.length_numbered, List.take_length]

theorem SigningRequest.newOutputs_append (hgrown : k ≤ q.elements.complete n) :
    q.newOutputs k q.elements.serialize.length =
      q.newOutputs k n ++ q.newOutputs (q.elements.complete n) q.elements.serialize.length := by
  have hsplit : q.elements.numbered.drop k =
      (q.elements.numbered.take (q.elements.complete n)).drop k ++ q.elements.numbered.drop (q.elements.complete n) := by
    rw [List.drop_take]
    conv_lhs => rw [← List.take_append_drop (q.elements.complete n - k) (q.elements.numbered.drop k)]
    rw [List.drop_drop, Nat.add_sub_cancel' hgrown]
  unfold newOutputs
  rw [q.elements.complete_length, ← q.elements.length_numbered, List.take_length, hsplit, List.filter_append]

/-- No chunk ends behind an output to confirm and before a change output. -/
def SigningRequest.CutWell (q : SigningRequest) (n : Nat) (later : List (UInt8 × Bytes)) : Prop :=
  ∀ earlier rest, later = earlier ++ rest → q.EndsWell (n + (earlier.map Prod.snd).flatten.length)

variable {c : UInt8 × Bytes} {later : List (UInt8 × Bytes)}

theorem cutWell_nil : q.CutWell n [] ↔ q.EndsWell n := by
  constructor
  · exact fun h => h [] [] rfl
  · intro h earlier rest hsplit
    obtain ⟨rfl, rfl⟩ := List.append_eq_nil_iff.mp hsplit.symm
    exact h

theorem cutWell_cons : q.CutWell n (c :: later) ↔ q.EndsWell n ∧ q.CutWell (n + c.2.length) later := by
  constructor
  · intro h
    refine ⟨h [] (c :: later) rfl, fun earlier rest hsplit => ?_⟩
    have hends := h (c :: earlier) rest (by rw [hsplit]; rfl)
    rwa [List.map_cons, List.flatten_cons, List.length_append, ← Nat.add_assoc] at hends
  · rintro ⟨hfirst, hrest⟩ earlier rest hsplit
    cases earlier with
    | nil => exact hfirst
    | cons first earlier =>
        rw [List.cons_append, List.cons.injEq] at hsplit
        obtain ⟨rfl, hsplit⟩ := hsplit
        rw [List.map_cons, List.flatten_cons, List.length_append, ← Nat.add_assoc]
        exact hrest earlier rest hsplit

end Chunks

section Exchange

variable {pf : Platform} {h : History Device Event Obs} {registry : TokenDataCtx} {q : SigningRequest} {k n : Nat}
  {d d₁ : Device} {chunk : UInt8} {data : Bytes}

theorem Device.Awaits.takesData {o : Outcome} (h : d.Awaits pf q n) (hchunk : chunk ≠ 0) (ho : o.Works) (hdata : data ≠ [])
    (hlen : data.length ≤ 255)
    (hnext : q.elements.serialize.take (n + data.length) = q.elements.serialize.take n ++ data) :
    ∃ d₁, TakesData pf o q (q.elements.complete n) (n + data.length) chunk data d d₁ ∧ d₁.gTokenSymbols = d.gTokenSymbols := by
  have hpos : 0 < chunk.toNat := Nat.pos_of_ne_zero fun hzero => hchunk (UInt8.toNat_inj.mp hzero)
  obtain ⟨d₁, htaken, hloaded, hregistry⟩ := h.hasChunk hpos ho hdata hlen hnext
  refine ⟨d₁, ⟨hdata, hlen, ?_, fun _ => h.state, htaken, hloaded⟩, hregistry⟩
  rw [h.state]
  decide

variable (hregistry : RegistryOf pf h registry) (hq : q.Acceptable pf registry) (hcount : q.changes.length ≤ 1 + txMaxTokens)
include hregistry hq hcount

/-- One command of the exchange, and what it takes for it to ask what it should. -/
theorem exchangeStep_iff {o : Nat → Outcome} (ho : ∀ i, (o i).Works) (ht : TakesData pf (o 0) q k n chunk data d d₁)
    (hsame : d₁.gTokenSymbols = registry) (hpending : k < q.elements.outputs.length)
    (hstays : q.elements.complete n = k → q.EndsWell n) :
    (q.EndsWell n ∧ ∀ output ∈ q.newOutputs k n, q.Fits registry output) ∧
        (∃ w d', exchangeStep pf o (dataCommand chunk data) d = some (w, d') ∧ ChunkReviewed pf registry q k n w d') ∨
      ¬(q.EndsWell n ∧ ∀ output ∈ q.newOutputs k n, q.Fits registry output) ∧
        ∀ w d', exchangeStep pf o (dataCommand chunk data) d = some (w, d') →
          q.elements.complete n ≠ q.elements.outputs.length ∧ .display .confirmTx ∈ w := by
  subst hsame
  by_cases hnone : q.elements.complete n = k
  · refine Or.inl ⟨⟨hstays hnone, ?_⟩, exchangeStep_quiet ht hq ho hcount hpending hnone⟩
    rw [q.newOutputs_of_none hnone]
    exact List.forall_mem_nil _
  · by_cases hgood : q.EndsWell n ∧ ∀ output ∈ q.newOutputs k n, q.Fits d₁.gTokenSymbols output
    · exact Or.inl ⟨hgood, exchangeStep_reviews ht hq ho hcount hnone hregistry hgood.1 hgood.2⟩
    · exact Or.inr ⟨hgood, fun w d' hstep => exchangeStep_slips ht hq ho hcount hnone hregistry hgood hstep⟩

/-- From one chunk to the last. -/
theorem exchange_iff {later : List (UInt8 × Bytes)} {o : Nat → Nat → Outcome} (ho : ∀ i j, (o i j).Works)
    (ht : TakesData pf (o 0 0) q k n chunk data d d₁) (hsame : d₁.gTokenSymbols = registry)
    (hpending : k < q.elements.outputs.length) (hstays : q.elements.complete n = k → q.EndsWell n)
    (hfits : ∀ c ∈ later, c.1 ≠ 0 ∧ c.2 ≠ [] ∧ c.2.length ≤ 255) (hn : n ≤ q.elements.serialize.length)
    (hrest : q.elements.serialize.drop n = (later.map Prod.snd).flatten) :
    (∃ seen, exchange pf o (dataCommand chunk data :: later.map fun c => dataCommand c.1 c.2) d = some seen ∧
        Asks later.length ((q.newOutputs k q.elements.serialize.length).map (q.texts pf registry)) seen) ↔
      q.CutWell n later ∧ ∀ output ∈ q.newOutputs k q.elements.serialize.length, q.Fits registry output := by
  induction later generalizing o k n d d₁ chunk data with
  | nil =>
      -- the last chunk
      have hall : n = q.elements.serialize.length := by
        have hlength := congrArg List.length hrest
        rw [List.length_drop, List.map_nil, List.flatten_nil, List.length_nil] at hlength
        omega
      rw [cutWell_nil, List.map_nil, ← hall]
      rcases exchangeStep_iff hregistry hq hcount (ho 0) ht hsame hpending hstays with
        ⟨hgood, w, d', hstep, hreviewed⟩ | ⟨hbad, hslips⟩
      · refine ⟨fun _ => hgood, fun _ => ⟨[w], ?_, ?_⟩⟩
        · rw [exchange_answered hstep hreviewed.answered, exchange]
          rfl
        · rw [← hreviewed.outputs]
          apply asks_singleton hreviewed.answered
          rw [hreviewed.approval, hall, q.elements.complete_length, if_pos rfl]
      · refine ⟨?_, fun hgood => absurd hgood hbad⟩
        rintro ⟨seen, hseen, _⟩
        obtain ⟨w, d', _, hstep, _⟩ := exchange_head hseen
        have hless := (hslips w d' hstep).1
        rw [hall, q.elements.complete_length] at hless
        exact absurd rfl hless
  | cons c later ih =>
      obtain ⟨⟨hchunk, hdata, hlen⟩, hlater⟩ := List.forall_mem_cons.mp hfits
      have hgrown := ht.loaded.loaded.grown (hsame ▸ hq) hcount
      rw [List.map_cons, List.flatten_cons] at hrest
      have hlength := congrArg List.length hrest
      rw [List.length_drop, List.length_append] at hlength
      have hposition : 0 < c.2.length := List.length_pos_of_ne_nil hdata
      have hpending' := q.complete_lt (n := n) (by omega)
      have hnext : q.elements.serialize.take (n + c.2.length) = q.elements.serialize.take n ++ c.2 := by
        rw [List.take_add, hrest, List.take_left]
      rw [cutWell_cons, q.newOutputs_append hgrown, List.map_append, List.map_cons, List.length_cons]
      rcases exchangeStep_iff hregistry hq hcount (ho 0) ht hsame hpending hstays with
        ⟨⟨hends, hfirst⟩, w, d', hstep, hreviewed⟩ | ⟨hbad, hslips⟩
      · obtain ⟨hawaits, hsame'⟩ := hreviewed.awaits (by omega)
        obtain ⟨d₂, ht', hsame₂⟩ := hawaits.takesData hchunk (ho 1 0) hdata hlen hnext
        have hih := ih (o := fun i => o (i + 1)) (fun i => ho (i + 1)) ht' (hsame₂.trans hsame') hpending' ?stays hlater
          (by omega) (by rw [← List.drop_drop, hrest, List.drop_left])
        case stays =>
          intro hnone hmem
          rw [hnone] at hmem ⊢
          exact hends hmem
        have hcount₀ : w.count (.display .confirmTx) = 0 := by
          rw [hreviewed.approval, if_neg (by omega)]
        rw [exchange_answered hstep hreviewed.answered, ← hreviewed.outputs]
        simp only [List.forall_mem_append, Option.map_eq_some_iff]
        constructor
        · rintro ⟨_, ⟨seen, hseen, rfl⟩, hasks⟩
          obtain ⟨hcuts, hfits'⟩ := hih.mp ⟨seen, hseen, (asks_cons hreviewed.answered hcount₀).mp hasks⟩
          exact ⟨⟨hends, hcuts⟩, hfirst, hfits'⟩
        · rintro ⟨⟨_, hcuts⟩, _, hfits'⟩
          obtain ⟨seen, hseen, hasks⟩ := hih.mpr ⟨hcuts, hfits'⟩
          exact ⟨_, ⟨seen, hseen, rfl⟩, (asks_cons hreviewed.answered hcount₀).mpr hasks⟩
      · constructor
        · rintro ⟨seen, hseen, hasks⟩
          obtain ⟨w, d', last, hstep, rfl⟩ := exchange_head hseen
          exact absurd hasks (not_asks_early (hslips w d' hstep).2)
        · rintro ⟨⟨hends, _⟩, hfits'⟩
          exact absurd ⟨hends, (List.forall_mem_append.mp hfits').1⟩ hbad

end Exchange

namespace SigningRequest

/-- The commands of the exchange. -/
def chunks (q : SigningRequest) : List Bytes := dataCommand 0 q.first :: q.later.map fun c => dataCommand c.1 c.2

/-- No chunk of the request ends behind an output to confirm and before a change output. -/
def CutsWell (q : SigningRequest) : Prop := q.CutWell q.rest.length q.later

end SigningRequest

section Start

variable {pf : Platform} {infos : List ChangeOutputInfo} {bytes : Bytes}

theorem length_le_serialize (infos : List ChangeOutputInfo) :
    infos.length ≤ (infos.flatMap ChangeOutputInfo.serialize).length := by
  induction infos with
  | nil => exact Nat.le_refl 0
  | cons info infos ih =>
      rw [List.flatMap_cons, List.length_append, List.length_cons, ChangeOutputInfo.serialize, List.length_cons]
      omega

/-- More entries than slots are in the counted form. -/
theorem EncodesChanges.counted_of_many (h : EncodesChanges infos bytes) (hmany : 1 < infos.length) (hlen : bytes.length < 2 ^ 8) :
    bytes = serializeChangeInfo infos ∧ infos.length < 2 ^ 8 := by
  cases h with
  | none => exact absurd hmany (Nat.not_lt_zero 1)
  | single => exact absurd hmany (Nat.lt_irrefl 1)
  | counted =>
      have hentries := length_le_serialize infos
      refine ⟨rfl, ?_⟩
      rw [serializeChangeInfo, List.length_cons, List.length_cons] at hlen
      omega

end Start

instance (q : SigningRequest) (n : Nat) : Decidable (q.EndsWell n) := inferInstanceAs (Decidable (_ → _ ∨ _))

instance (registry : TokenDataCtx) (q : SigningRequest) (output : TxOutput) : Decidable (q.Fits registry output) :=
  inferInstanceAs (Decidable (AmountFits _ _))

/-- An output to a key, and the output to the key of every path under the counting hashes. -/
def sampleElements : TxElements := { TxElements.empty with
  outputs := [⟨false, 1, 0, List.replicate 20 9, by decide, rfl⟩, ⟨false, 1, 0, List.replicate 19 0 ++ [2], by decide, rfl⟩] }

/-- The second output is in the change list, and the elements are cut in two. -/
def sampleRequest (cut : Fin 64) : SigningRequest where
  version := [0, 0]
  elements := sampleElements
  changes := [⟨1, [0]⟩]
  changeInfo := serializeChangeInfo [⟨1, [0]⟩]
  rest := sampleElements.serialize.take cut
  later := [(1, sampleElements.serialize.drop cut)]
  length_version := rfl
  encodes := .counted (List.forall_mem_singleton.mpr ⟨by decide, ⟨by decide, by decide, by decide⟩, by decide⟩)
  outputs_pos := by decide
  uids_le := by decide
  inputs_lt := by decide
  outputs_lt := by decide
  in_range := by decide
  whole := by simp
  first_fits := by revert cut; decide +kernel
  later_fits := by revert cut; decide +kernel

theorem sampleRequest_acceptable (cut : Fin 64) :
    (sampleRequest cut).Acceptable countingPlatform (bootDevice []).gTokenSymbols := by
  refine ⟨List.forall_mem_nil _, ?_, ?_, ?_⟩
  · show ∀ o ∈ sampleElements.outputs, o.output.tokenData &&& tokenDataAuthorityMask = 0
    decide
  · show ∀ o ∈ sampleElements.outputs, o.output.tokenIndex ≤ sampleElements.uids.length
    decide
  · refine List.forall_mem_singleton.mpr fun output houtput => ?_
    cases houtput
    decide +kernel

section Whole

variable {pf : Platform} {h : History Device Event Obs} {d : Device}

/-- In every run of a host that waits the user is asked what he should be exactly when the change entries have slots, no
chunk ends behind an output to confirm and before a change output, and the amounts fit. -/
theorem asks_iff {o : Nat → Nat → Outcome} (ho : ∀ i j, (o i j).Works) (run : Run (waitingSystem pf) h d)
    (howes : d.gIoState ≠ .waiting) (hclosed : d.state ≠ .recvData) (happroved : d.state ≠ .approved) (q : SigningRequest)
    (hq : q.Acceptable pf d.gTokenSymbols) :
    (∃ seen, exchange pf o q.chunks d = some seen ∧
        Asks q.later.length (q.toConfirm.map (q.texts pf d.gTokenSymbols)) seen) ↔
      q.changes.length ≤ txMaxTokens + 1 ∧ q.CutsWell ∧ ∀ output ∈ q.toConfirm, q.Fits d.gTokenSymbols output := by
  have hdisciplined := run_disciplined run
  have hflow : d.flow.asks = false := by
    rw [← Bool.not_eq_true, hdisciplined.owed]
    exact howes
  have hfits : q.first.length ≤ 255 := q.first_fits
  have hnonempty : q.first ≠ [] := by
    unfold SigningRequest.first txHeader
    simp
  by_cases hcount : q.changes.length ≤ txMaxTokens + 1
  · obtain ⟨d₁, htaken, hloaded, hregistry⟩ := q.hasChunk_first hcount (ho 0 0) hclosed hflow hdisciplined.wake_received
    have htakes : TakesData pf (o 0 0) q 0 q.rest.length 0 q.first d d₁ :=
      ⟨hnonempty, hfits, happroved, fun hlater => absurd hlater (by decide), htaken, hloaded⟩
    have hwhole := congrArg List.length q.whole
    rw [List.length_append] at hwhole
    have hexchange := exchange_iff (run_registryOf (free_of_waiting run)) hq (by omega) ho htakes hregistry q.outputs_pos
      (fun hnone _ => Or.inl hnone) q.later_fits (by omega) (by rw [← q.whole, List.drop_left])
    rw [q.newOutputs_whole] at hexchange
    rw [and_iff_right hcount]
    exact hexchange
  · refine iff_of_false ?_ fun hgood => hcount hgood.1
    have hmax : txMaxTokens = 10 := rfl
    have hlength : q.first.length = q.changeInfo.length + (txHeader q.version q.elements ++ q.rest).length := List.length_append
    obtain ⟨hbytes, hbyte⟩ := q.encodes.counted_of_many (by omega) (by omega)
    obtain ⟨d₁, htaken, hflow₁⟩ := takeChunk_many (o := o 0 0) (m := txHeader q.version q.elements ++ q.rest)
      (Nat.not_le.mp hcount) hbyte d.entered (by rwa [entered_state])
    rw [← hbytes] at htaken
    have hhandle : handle pf (.apdu (o 0 0) (dataCommand 0 q.first)) d = _ :=
      handle_refuses hnonempty hfits happroved (fun hlater => absurd hlater (by decide)) htaken
    have hstep := exchangeStep_rest hhandle (by rw [← hflow, ← entered_flow d]; exact congrArg Flow.asks hflow₁)
    have hrefused : replies [Obs.response [] swWrongDataLength] ≠ [([], swOk)] := by decide
    rintro ⟨seen, hseen, hasks⟩
    obtain ⟨w, d', last, hfirst, rfl⟩ := exchange_head hseen
    rw [hstep] at hfirst
    cases hfirst
    exact hrefused (hasks.answered _ List.mem_cons_self)

/-- The first chunk ends inside the first output. -/
theorem asks_iff_sample :
    ∃ seen, exchange countingPlatform (fun _ _ => .allOk []) (sampleRequest 10).chunks (bootDevice []) = some seen ∧
      Asks 1 ((sampleRequest 10).toConfirm.map ((sampleRequest 10).texts countingPlatform (bootDevice []).gTokenSymbols))
        seen := by
  refine (asks_iff (fun _ _ _ => rfl) (.start ⟨[], rfl⟩) (by decide) (by decide) (by decide) (sampleRequest 10)
    (sampleRequest_acceptable 10)).mpr ⟨by decide, ?_, by decide +kernel⟩
  exact cutWell_cons.mpr ⟨by decide +kernel, cutWell_nil.mpr (by decide +kernel)⟩

/-- The first chunk ends with the first output: the approval comes before the second chunk. -/
theorem asks_early :
    (sampleRequest 32).Acceptable countingPlatform (bootDevice []).gTokenSymbols ∧
    ¬∃ seen, exchange countingPlatform (fun _ _ => .allOk []) (sampleRequest 32).chunks (bootDevice []) = some seen ∧
      Asks 1 ((sampleRequest 32).toConfirm.map ((sampleRequest 32).texts countingPlatform (bootDevice []).gTokenSymbols))
        seen := by
  have hearly : (exchange countingPlatform (fun _ _ => .allOk []) (sampleRequest 32).chunks (bootDevice [])).map
      (·.map (·.count (.display .confirmTx))) = some [1, 0] := by
    decide +kernel
  refine ⟨sampleRequest_acceptable 32, ?_⟩
  rintro ⟨seen, hseen, hasks⟩
  rw [hseen, Option.map_some, hasks.approval] at hearly
  exact absurd hearly (by decide)

end Whole

end HathorApp
