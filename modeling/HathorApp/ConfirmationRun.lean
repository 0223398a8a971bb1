import HathorApp.Confirmation

/-!
The confirmation over a run. Every step keeps it, but for a press that slips: a command finds no screen of a transaction
up, since no reply is owed when it arrives, and starts a session, goes on with it or leaves it alone; a press goes on
with the outputs saved or ends the session.
-/

namespace HathorApp

open ProgramLogic StreamDecoder TraceRun

/-- The confirmation at the end of a history. -/
abbrev Confirming (pf : Platform) (h : History Device Event Obs) (d : Device) : Prop :=
  Confirms pf (sessionSteps h) (sessionOutputs h) (callOutputs h) d

section Step

variable {pf : Platform} {h : History Device Event Obs} {d d' : Device} {e : Event} {w : List Obs}

theorem Plain.decodes_nothing (hw : Plain w) : decodedOutputs w = [] := by
  apply List.filterMap_eq_nil_iff.mpr
  intro x hx
  have hplain := hw x hx
  cases x <;> first | rfl | exact hplain.elim

theorem Ending.decodes_nothing (r : Ending) : decodedOutputs r.reply = [] := r.plain_reply.decodes_nothing

theorem SignEffect.decodes_nothing {o : Outcome} {data : Bytes} {v : Int} (heffect : SignEffect pf o data d v d' w) :
    decodedOutputs w = [] := by
  cases heffect with
  | unapproved => rfl
  | unread => rfl
  | pathless => rfl
  | failed _ _ _ sighash => cases sighash <;> rfl
  | @signed _ _ signature _ _ _ _ _ sighash =>
      have hreply : decodedOutputs [replyOf signature swOk] = [] := by
        apply Plain.decodes_nothing
        simp
      rw [decodedOutputs_append, hreply]
      cases sighash
      rfl

theorem sessionSteps_of_pending (hpending : d.Pending) :
    sessionSteps (⟨d, e, w, d'⟩ :: h) = ⟨d, e, w, d'⟩ :: sessionSteps h := by
  rw [sessionSteps, if_pos hpending]

theorem sessionSteps_of_not_pending (hpending : ¬d.Pending) :
    sessionSteps (⟨d, e, w, d'⟩ :: h) = [⟨d, e, w, d'⟩] := by
  rw [sessionSteps, if_neg hpending]

theorem sessionOutputs_of_pending (hpending : d.Pending) :
    sessionOutputs (⟨d, e, w, d'⟩ :: h) = sessionOutputs h ++ decodedOutputs w := by
  rw [sessionOutputs, if_pos hpending]

theorem sessionOutputs_of_not_pending (hpending : ¬d.Pending) :
    sessionOutputs (⟨d, e, w, d'⟩ :: h) = decodedOutputs w := by
  rw [sessionOutputs, if_neg hpending]

/-- Where no output is on screen and the session is to be approved, it is still receiving data. -/
theorem Confirms.recvData {steps : History Device Event Obs} {outs call : List TxOutput} (hd : Confirms pf steps outs call d)
    (hflow : ¬d.flow.OfTx) (hpending : d.Pending) : d.state = .recvData :=
  hpending.resolve_right fun hparsed => (not_ofTx hflow).2 (hd.parsed hparsed).1

/-- A command that arrives in a session finds the cursors reset. -/
theorem Confirms.resetCall {steps : History Device Event Obs} {outs call : List TxOutput} (hd : Confirms pf steps outs call d)
    (hflow : ¬d.flow.OfTx) (hpending : d.Pending) : d.tx.resetCall = d.tx := by
  have hempty : d.tx.bufferOutputLen = 0 := hd.idle (hd.recvData hflow hpending) (not_ofTx hflow).1
  have hshown : d.tx.displayIndex = 0 := by
    have hle := (hd.session hpending).1.cursors.shown
    omega
  calc
    d.tx.resetCall = { d.tx with displayIndex := d.tx.displayIndex, bufferOutputLen := d.tx.bufferOutputLen } := by
      rw [hshown, hempty]
      rfl
    _ = d.tx := rfl

/-- A step outside a session that is to be approved, or one that ends it. -/
theorem confirming_of_not_pending (hpending : ¬d'.Pending) (hflow : ¬d'.flow.OfTx) :
    Confirming pf (⟨d, e, w, d'⟩ :: h) d' := confirms_of_not_pending hpending hflow

/-- A step that leaves a session alone, or ends it, while nothing of it is on screen. -/
theorem Confirms.beside (hd : Confirming pf h d) (hflow : ¬d.flow.OfTx) (hflow' : ¬d'.flow.OfTx)
    (hseen : decodedOutputs w = []) (hkept : d'.state = d.state ∧ (d.Pending → d'.tx = d.tx) ∨ d'.state = .none) :
    Confirming pf (⟨d, e, w, d'⟩ :: h) d' := by
  rcases hkept with ⟨hstate, htx⟩ | hnone
  · by_cases hpending : d.Pending
    · unfold Confirming
      rw [sessionSteps_of_pending hpending, sessionOutputs_of_pending hpending, hseen, List.append_nil]
      exact hd.aside hflow hstate (htx hpending) hflow' fun _ => List.mem_cons_of_mem _
    · apply confirming_of_not_pending _ hflow'
      rw [Device.Pending, hstate]
      exact hpending
  · exact confirming_of_not_pending (not_pending_of_none hnone) hflow'

/-- A press that does nothing. -/
theorem Confirms.ignores (hd : Confirming pf h d) (hcommand : e.isCommand = false) :
    Confirming pf (⟨d, e, [], d⟩ :: h) d := by
  by_cases hpending : d.Pending
  · have hcall : callOutputs (⟨d, e, [], d⟩ :: h) = callOutputs h := by
      rw [callOutputs, hcommand, if_neg (by decide)]
    unfold Confirming
    rw [sessionSteps_of_pending hpending, sessionOutputs_of_pending hpending, hcall, decodedOutputs_nil, List.append_nil]
    exact hd.later fun _ => List.mem_cons_of_mem _
  · apply confirming_of_not_pending hpending
    cases hflow : d.flow <;> first
      | exact id
      | exact absurd (Or.inl (hd.shown hflow).1) hpending
      | exact absurd (Or.inr (hd.asked hflow)) hpending

/-- A session whose header was read has confirmed nothing and decoded nothing. -/
theorem session_started (pf : Platform) (changeLen : Nat) (changeInfo : List ChangeOutputInfo) {m : Bytes}
    (hheader : 5 ≤ m.length) : Session pf [] [] (startedTx changeLen changeInfo m) := by
  have hbyte : ∀ {i}, i < 5 → byteAt (m.take 5) i = byteAt m i := by
    intro i hi
    unfold byteAt
    rw [List.getD_eq_getElem?_getD, List.getElem?_take_of_lt hi, ← List.getD_eq_getElem?_getD]
  refine ⟨⟨rfl, Nat.le_refl 0, Nat.zero_le _, byteAt_lt m 4, Nat.zero_le _⟩, rfl, fun _ => ?_, fun _ h => ?_, fun _ h => ?_⟩
  · refine ⟨m.take 5, .empty, List.length_take_of_le hheader, ?_, (hbyte (by decide)).symm, ?_⟩
    · show some m = some (m.take 5 ++ [] ++ m.drop 5)
      rw [List.append_nil, List.take_append_drop]
    · rw [hbyte (by decide), hbyte (by decide)]
      exact has_start _ _
  · exact absurd h List.not_mem_nil
  · exact absurd h (Nat.not_lt_zero _)

/-- A session without a header has nothing to confirm. -/
theorem session_unread (pf : Platform) (steps : History Device Event Obs) {tx : SignTxCtx} (hunread : tx.HeaderUnread) :
    (Session pf steps [] tx ∧ tx.Exhausted) ∧ tx.bufferOutputLen = 0 := by
  obtain ⟨_, _, _, _, _, _, _, _, rfl⟩ := hunread
  refine ⟨⟨⟨⟨rfl, Nat.le_refl 0, Nat.le_refl 0, Nat.two_pow_pos 8, Nat.zero_le _⟩, rfl, fun h => ?_, fun _ h => ?_,
    fun _ h => ?_⟩, fun h => ?_⟩, rfl⟩
  · exact absurd h (Nat.lt_irrefl 0)
  · exact absurd h List.not_mem_nil
  · exact absurd h (Nat.not_lt_zero _)
  · exact absurd h (Nat.lt_irrefl 0)

/-- A chunk is hashed and put behind the tail. -/
theorem Session.receives {steps : History Device Event Obs} {outs : List TxOutput} {tx : SignTxCtx} {m : Bytes}
    (hs : Session pf steps outs tx) (hctx : tx.sha256 = some m) (data : Bytes) :
    Session pf steps outs ((tx.hashed (m ++ data)).received data) := by
  have hc := hs.cursors
  refine ⟨⟨hc.aligned, hc.shown, hc.declared, hc.byte, hc.slots⟩, hs.decoded, fun hsome => ?_, hs.verified, hs.passed⟩
  obtain ⟨header, e, hheader, hsha, houtputsLen, hhas⟩ := hs.hashed hsome
  refine ⟨header, e, hheader, ?_, houtputsLen, hhas⟩
  obtain rfl := Option.some.inj (hctx.symm.trans hsha)
  show some (header ++ e.serialize ++ tx.buffer ++ data) = some (header ++ e.serialize ++ (tx.buffer ++ data))
  rw [List.append_assoc _ tx.buffer data]

/-- A session that goes on from a command, when it was to be approved before. -/
theorem confirming_of_pending (hcommand : e.isCommand = true) (hpending : d.Pending)
    (hd' : Confirms pf (⟨d, e, w, d'⟩ :: sessionSteps h) (sessionOutputs h ++ decodedOutputs w) (decodedOutputs w) d') :
    Confirming pf (⟨d, e, w, d'⟩ :: h) d' := by
  unfold Confirming
  rw [sessionSteps_of_pending hpending, sessionOutputs_of_pending hpending, callOutputs, if_pos hcommand]
  exact hd'

/-- A session that a command starts. -/
theorem confirming_of_started (hcommand : e.isCommand = true) (hpending : ¬d.Pending)
    (hd' : Confirms pf [⟨d, e, w, d'⟩] (decodedOutputs w) (decodedOutputs w) d') :
    Confirming pf (⟨d, e, w, d'⟩ :: h) d' := by
  unfold Confirming
  rw [sessionSteps_of_not_pending hpending, sessionOutputs_of_not_pending hpending, callOutputs, if_pos hcommand]
  exact hd'

variable {o : Outcome} {s : TxState} {d₁ : Device} {w₁ w₂ : List Obs}

/-- A data command starts a session, goes on with it or drops it. -/
theorem DataEffect.confirming {raw data : Bytes} {chunk : Nat} {r : Ending}
    (heffect : DataEffect pf o data chunk s d.entered r d₁ w₁) (settles : Settles d₁ r d' w₂) (hd : Confirming pf h d)
    (hflow : ¬d.flow.OfTx) (hs : d.Pending → s = d.tx.streamState (sessionOutputs h)) (hdata : data.length ≤ 255)
    (hbuffer : d.tx.buffer.length ≤ 35) (hslots : d.tx.outputs.length = outputSlots) :
    Confirming pf (⟨d, .apdu o raw, w₁ ++ w₂, d'⟩ :: h) d' := by
  have hlimit : decodeBufferLen = 300 := rfl
  have hentered : ¬d.entered.flow.OfTx := by
    rw [entered_flow]
    exact hflow
  have hidle : d.entered.state ≠ .recvData → ¬d.Pending :=
    fun hstate hpending => hstate ((entered_state d).trans (hd.recvData hflow hpending))
  cases settles with
  | restarts => exact confirming_of_not_pending (not_pending_of_none rfl) id
  | @resumes io exchange nonneg =>
      cases heffect with
      | dropped => exact confirming_of_not_pending (not_pending_of_none rfl) id
      | busy => exact confirming_of_not_pending (not_pending_of_none rfl) hentered
      | headerUnread _ state unread =>
          apply confirming_of_started rfl (hidle state)
          obtain ⟨houtput, hconfirm⟩ := not_ofTx hentered
          rw [List.nil_append, Ending.decodes_nothing]
          exact ⟨fun _ => (session_unread pf _ unread).1, fun h => absurd h houtput, fun _ _ => (session_unread pf [] unread).2,
            fun h => absurd h hconfirm, fun h => absurd h nofun⟩
      | @started changeLen offset changeInfo accepted _ _ _ state _ _ _ header _ effect =>
          apply confirming_of_started rfl (hidle state)
          rw [accepted_of_nonneg nonneg] at effect
          have hheader : 5 ≤ (data.drop offset).length := by
            rw [List.length_drop]
            omega
          have hshort : (startedTx changeLen changeInfo (data.drop offset)).buffer.length ≤ decodeBufferLen := by
            show ((data.drop offset).drop 5).length ≤ decodeBufferLen
            simp only [List.length_drop]
            omega
          have heffect : DecodeEffect pf o ((startedTx changeLen changeInfo (data.drop offset)).streamState [])
              ((initSignTxCtx d.entered).withTx (startedTx changeLen changeInfo (data.drop offset))) true d₁ w₁ := effect
          have hscreen : ¬((initSignTxCtx d.entered).withTx (startedTx changeLen changeInfo (data.drop offset))).flow.OfTx :=
            hentered
          have hseen : ∀ x ∈ w₁, x ∈ w₁ ++ (Ending.ret (if accepted = true then 0 else -1)).reply :=
            fun x hx => List.mem_append_left _ hx
          rw [decodedOutputs_append, Ending.decodes_nothing, List.append_nil]
          have hsession := session_started pf changeLen changeInfo hheader
          exact (heffect.confirms rfl hscreen hsession List.length_replicate rfl hshort rfl hseen).resumes io exchange
      | notHashed _ state =>
          refine hd.beside hflow hentered ?_ (Or.inl ⟨entered_state d, fun hpending => ?_⟩)
          · rw [List.nil_append]
            exact Ending.decodes_nothing _
          · exact hd.resetCall hflow hpending
      | notCopied _ _ long =>
          have hlong : data.length > decodeBufferLen - d.tx.buffer.length := long
          omega
      | @continued m accepted _ _ _ state ctx _ effect =>
          have hpending : d.Pending := Or.inl ((entered_state d).symm.trans state)
          have hreset : d.entered.tx = d.tx := hd.resetCall hflow hpending
          apply confirming_of_pending rfl hpending
          obtain ⟨hsession, _⟩ := hd.session hpending
          rw [accepted_of_nonneg nonneg, hs hpending] at effect
          rw [hreset] at ctx effect
          have hreceived := hsession.receives ctx data
          have hempty : d.tx.bufferOutputLen = 0 := hd.idle (hd.recvData hflow hpending) (not_ofTx hflow).1
          have hshort : ((d.tx.hashed (m ++ data)).received data).buffer.length ≤ decodeBufferLen := by
            show (d.tx.buffer ++ data).length ≤ decodeBufferLen
            rw [List.length_append]
            omega
          have heffect : DecodeEffect pf o (((d.tx.hashed (m ++ data)).received data).streamState (sessionOutputs h))
              (d.entered.withTx ((d.tx.hashed (m ++ data)).received data)) true d₁ w₁ := effect
          have hstate : (d.entered.withTx ((d.tx.hashed (m ++ data)).received data)).state = .recvData := state
          have hseen : ∀ x ∈ w₁, x ∈ w₁ ++ (Ending.ret (if accepted = true then 0 else -1)).reply :=
            fun x hx => List.mem_append_left _ hx
          rw [decodedOutputs_append, Ending.decodes_nothing, List.append_nil]
          exact (heffect.confirms hstate hentered hreceived hslots hempty hshort rfl hseen).resumes io exchange

/-- A command, a press or a quit while no screen of a transaction is up. -/
theorem Moves.confirming (hmoves : Moves pf s d e d' w) (hd : Confirming pf h d) (hflow : ¬d.flow.OfTx)
    (hs : d.Pending → s = d.tx.streamState (sessionOutputs h)) (hbuffer : d.tx.buffer.length ≤ 35)
    (hslots : d.tx.outputs.length = outputSlots) : Confirming pf (⟨d, e, w, d'⟩ :: h) d' := by
  have hwake : (wake d).flow = d.flow := wake_flow d
  cases hmoves with
  | aside _ effect =>
      refine hd.beside hflow ?_ effect.seen.decodes_nothing ?_
      · rcases effect.screen with hkept | hreplaced
        · rw [hkept.flow]
          exact hflow
        · exact hreplaced.flow
      · rcases effect.session with hkept | hdropped
        · exact Or.inl ⟨hkept.state, fun _ => hkept.tx⟩
        · exact Or.inr hdropped.state
  | restarts => exact confirming_of_not_pending (not_pending_of_none rfl) id
  | @registers _ _ _ _ d₁ _ _ _ _ _ effect settles =>
      cases settles with
      | restarts => exact confirming_of_not_pending (not_pending_of_none rfl) id
      | resumes =>
          have haside := aside_composable.trans (aside_wake d) effect.aside
          refine hd.beside hflow ?_ ?_ ?_
          · rcases haside.screen with hkept | hreplaced
            · have hsame : d₁.flow = d.flow := hkept.flow
              show ¬d₁.flow.OfTx
              rw [hsame]
              exact hflow
            · exact hreplaced.flow
          · rw [decodedOutputs_append, effect.aside.seen.decodes_nothing, Ending.decodes_nothing]
            rfl
          · rcases haside.session with hkept | hdropped
            · exact Or.inl ⟨hkept.state, fun _ => hkept.tx⟩
            · exact Or.inr hdropped.state
  | data parse _ _ effect settles =>
      exact effect.confirming settles hd hflow hs (apduParser_fits parse) hbuffer hslots
  | sign _ _ _ effect settles =>
      obtain ⟨path, tx, rfl, htx⟩ := effect.frame
      cases settles with
      | restarts => exact confirming_of_not_pending (not_pending_of_none rfl) id
      | resumes =>
          have hentered : ¬d.entered.flow.OfTx := by
            rw [entered_flow]
            exact hflow
          refine hd.beside hflow hentered ?_ (Or.inl ⟨entered_state d, fun hpending => ?_⟩)
          · rw [decodedOutputs_append, effect.decodes_nothing, Ending.decodes_nothing]
            rfl
          · have hstate : d.entered.state ≠ .approved := by
              rw [entered_state, hd.recvData hflow hpending]
              nofun
            exact (htx hstate).trans (hd.resetCall hflow hpending)
  | approved flow => exact absurd (by rw [flow]; trivial) hflow
  | confirmed flow => exact absurd (by rw [flow]; trivial) hflow

/-- A press that ends the session. -/
theorem confirming_refused : Confirming pf (⟨d, e, w, d.refused⟩ :: h) d.refused :=
  confirming_of_not_pending (not_pending_of_none rfl) id

/-- A press on a screen of a transaction that does not slip. -/
theorem handlePress_confirming (o : Outcome) (choice : Bool) (hcallback : d.CallbackSet) (hd : Confirming pf h d)
    (hflow : d.flow.OfTx) :
    wp (handlePress pf o choice)
      (fun _ d' w => ¬SlipsPast d (.press o choice) → Confirming pf (⟨d, .press o choice, w, d'⟩ :: h) d')
      (fun _ _ _ => False) True d := by
  cases hscreen : d.flow with
  | txOutput =>
      refine wp_mono (handlePress_txOutput pf o choice hcallback hscreen) ?_ (fun _ _ _ h => h) id
      intro _ d' w hends hkept
      cases choice with
      | true =>
          rw [if_pos rfl] at hends
          obtain ⟨tx, hskips, hends⟩ := hends
          have hpending : d.Pending := Or.inl (hd.shown hscreen).1
          have hcall : callOutputs (⟨d, .press o true, w, d'⟩ :: h) = callOutputs h := rfl
          unfold Confirming
          rw [sessionSteps_of_pending hpending, sessionOutputs_of_pending hpending, hcall, hends.decodes_nothing,
            List.append_nil]
          exact hd.approve hscreen hkept hskips hends
      | false =>
          rw [if_neg (by decide)] at hends
          rw [hends.1]
          exact confirming_refused
  | confirmTx =>
      refine wp_mono (handlePress_confirmTx pf o choice hcallback hscreen) ?_ (fun _ _ _ h => h) False.elim
      intro _ d' w hends _
      cases choice with
      | true =>
          rw [if_pos rfl] at hends
          rw [hends.1]
          refine confirming_of_not_pending ?_ id
          rintro (hrecv | hparsed)
          · exact nomatch hrecv
          · exact nomatch hparsed
      | false =>
          rw [if_neg (by decide)] at hends
          rw [hends.1]
          exact confirming_refused
  | menuMain => rw [hscreen] at hflow; exact hflow.elim
  | processing => rw [hscreen] at hflow; exact hflow.elim
  | xpub => rw [hscreen] at hflow; exact hflow.elim
  | address => rw [hscreen] at hflow; exact hflow.elim
  | resetTokenSignatures => rw [hscreen] at hflow; exact hflow.elim
  | signTokenData => rw [hscreen] at hflow; exact hflow.elim

/-- A press on a quit step that is not there. -/
theorem handleQuit_confirming (hd : Confirming pf h d) (hflow : d.flow.OfTx) :
    wp handleQuit (fun _ d' w => Confirming pf (⟨d, .quit, w, d'⟩ :: h) d') (fun _ _ _ => False) True d := by
  refine wp_mono (handleQuit_ends d) ?_ (fun _ _ _ h => h) False.elim
  rintro _ d' w (⟨rfl, rfl⟩ | ⟨hprocessing, _⟩)
  · exact hd.ignores rfl
  · rw [hprocessing] at hflow
    exact hflow.elim

theorem slots_invariant : DecodedInvariant pf fun tx => tx.outputs.length = outputSlots where
  zero := List.length_replicate
  same := by
    intro tx tx' hslots hsame
    exact (congrArg (fun tx => tx.outputs.length) hsame).trans hslots
  unread := by
    rintro tx ⟨_, _, _, _, _, _, _, _, rfl⟩
    exact List.length_replicate
  started _ _ := (length_fillSlots _ _ _).trans List.length_replicate
  continued hslots _ := (length_fillSlots _ _ _).trans hslots

theorem confirming_boot (secret : Bytes) : Confirming pf [] (bootDevice secret) :=
  confirms_of_not_pending (not_pending_of_none rfl) id

/-- No press of the run slips. -/
abbrev NoSlip (h : History Device Event Obs) : Prop := ∀ r ∈ h, ¬SlipsPast r.pre r.event

/-- In a run of a host that waits, in which no press slips, every state confirms. -/
theorem run_confirming (run : Run (waitingSystem pf) h d) (hC : NoSlip h) : Confirming pf h d := by
  refine Run.invariant (C := fun r => ¬SlipsPast r.pre r.event) ?_ ?_ run hC
  · rintro _ ⟨secret, rfl⟩
    exact confirming_boot secret
  · intro h d e run _ hd admitted
    have free := free_of_waiting run
    have hcallback := run_callbackSet free
    have hbuffer : d.tx.buffer.length ≤ 35 := tail_invariant.run free
    have hslots : d.tx.outputs.length = outputSlots := slots_invariant.run free
    by_cases hflow : d.flow.OfTx
    · cases e with
      | apdu o raw =>
          have hwaiting := (run_disciplined run).owed.mp (asks_of_ofTx hflow)
          exact absurd hwaiting (admitted rfl o raw rfl)
      | press o choice =>
          exact wp_mono (handlePress_confirming o choice hcallback hd hflow) (fun _ _ _ h => h) (fun _ _ _ _ => trivial) id
      | quit => exact wp_mono (handleQuit_confirming hd hflow) (fun _ _ _ h _ => h) (fun _ _ _ _ => trivial) id
    · by_cases hpending : d.Pending
      · have hrep := (hd.session hpending).1.represents
        refine wp_mono (handle_moves pf e hrep hcallback) ?_ (fun _ _ _ _ => trivial) id
        exact fun _ _ _ hmoves _ => hmoves.confirming hd hflow (fun _ => rfl) hbuffer hslots
      · refine wp_mono (handle_moves pf e d.tx.represents_someState hcallback) ?_ (fun _ _ _ _ => trivial) id
        exact fun _ _ _ hmoves _ => hmoves.confirming hd hflow (fun h => absurd h hpending) hbuffer hslots

/-- The cursors of a session that receives data, and the slot of an output on screen. -/
structure CursorsInside (h : History Device Event Obs) (d : Device) : Prop where
  confirmed : d.tx.confirmedOutputs ≤ d.tx.currentOutput
  declared : d.tx.currentOutput ≤ d.tx.outputsLen
  shown : d.tx.displayIndex ≤ d.tx.bufferOutputLen
  slots : d.tx.bufferOutputLen ≤ outputSlots
  screen : d.flow = .txOutput → d.tx.displayIndex < d.tx.bufferOutputLen ∧
    ∃ output ∈ callOutputs h, d.tx.outputs[d.tx.displayIndex]? = some output ∧ output.index = d.tx.confirmedOutputs

/-- The contexts in which the next step reads a slot for the screen, with the outputs the call has decoded by then. -/
inductive ReadsSlot (pf : Platform) (h : History Device Event Obs) (d : Device) : Event → SignTxCtx → List TxOutput → Prop where
  | press {o : Outcome} {tx : SignTxCtx} (flow : d.flow = .txOutput) (skips : SkipsTo d.tx.advance tx)
      (inside : tx.Open) : ReadsSlot pf h d (.press o true) tx (callOutputs h)
  | chunk {e : Event} {o : Outcome} {d₁ : Device} {tx₁ tx : SignTxCtx} {w : List Obs} (taken : TakesChunk d e o d₁)
      (decoded : decodeElements (verifyChange pf o) d₁.gTokenSymbols d₁.tx = .ret txStateReady tx₁ w)
      (checked : tx₁.Open) (skips : SkipsTo tx₁ tx) (inside : tx.Open) : ReadsSlot pf h d e tx (decodedOutputs w)

/-- The slot read for the screen is one of those filled by the call, and holds the output at the confirmation cursor. -/
def ReadsSaved (tx : SignTxCtx) (call : List TxOutput) : Prop :=
  tx.displayIndex < tx.bufferOutputLen ∧ tx.bufferOutputLen ≤ outputSlots ∧
    ∃ output ∈ call, tx.outputs[tx.displayIndex]? = some output ∧ output.index = tx.confirmedOutputs

theorem Session.readsSaved {steps : History Device Event Obs} {outs call : List TxOutput} {tx : SignTxCtx}
    (hs : Session pf steps outs tx) (hsaved : Saved call outs tx) (hinside : tx.Open) : ReadsSaved tx call := by
  have hmore : tx.displayIndex < tx.bufferOutputLen := Nat.lt_of_le_of_ne hs.cursors.shown hinside.2
  exact ⟨hmore, hs.cursors.slots, hs.reads hsaved hmore⟩

/-- The chunk of a data command is taken into a session whose slots are empty. -/
theorem TakesChunk.session {d₁ : Device} (taken : TakesChunk d e o d₁) (hd : Confirming pf h d) (hflow : ¬d.flow.OfTx)
    (hbuffer : d.tx.buffer.length ≤ 35) (hslots : d.tx.outputs.length = outputSlots) :
    ∃ steps outs, Session pf steps outs d₁.tx ∧ d₁.tx.outputs.length = outputSlots ∧ d₁.tx.bufferOutputLen = 0 ∧
      d₁.tx.buffer.length ≤ decodeBufferLen := by
  have hlimit : decodeBufferLen = 300 := rfl
  obtain ⟨raw, cmd, _, hparse, _, _, _, _, hlater, ret⟩ := taken
  have hdata : cmd.data.length ≤ 255 := apduParser_fits hparse
  obtain hfirst | hpos := Nat.eq_zero_or_pos cmd.p2
  · have hstate : d.entered.state ≠ .recvData := by
      intro hstate
      have hwp : wp (takeChunk o (Buffer.ofData cmd.data) 0) (fun _ _ _ => False) (fun _ _ _ => True) False d.entered := by
        unfold takeChunk
        rw [if_pos rfl, wp_bind, wp_get, if_pos hstate]
        trivial
      rw [hfirst] at ret
      rw [wp_of_ret ret] at hwp
      exact hwp
    have hspec := takeChunk_first_spec o (show cmd.data.length ≤ decodeBufferLen by omega) d.entered hstate
    rw [hfirst] at ret
    rw [wp_of_ret ret] at hspec
    obtain ⟨_, changeLen, changeInfo, offset, _, _, _, hheader, rfl⟩ := hspec
    have hlen : 5 ≤ (cmd.data.drop offset).length := by
      rw [List.length_drop]
      omega
    refine ⟨[], [], session_started pf changeLen changeInfo hlen, List.length_replicate, rfl, ?_⟩
    show ((cmd.data.drop offset).drop 5).length ≤ decodeBufferLen
    simp only [List.length_drop]
    omega
  · have hpending : d.Pending := Or.inl (hlater hpos)
    have hreset : d.entered.tx = d.tx := hd.resetCall hflow hpending
    have hwp : wp (takeChunk o (Buffer.ofData cmd.data) cmd.p2)
        (fun _ d₁ _ => ∃ m, d.tx.sha256 = some m ∧ d₁.tx = (d.tx.hashed (m ++ cmd.data)).received cmd.data)
        (fun _ _ _ => True) True d.entered := by
      rw [takeChunk_later o hpos, hreset]
      cases hhash : cxHashNoThrow o d.tx.sha256 cmd.data with
      | none => trivial
      | some m =>
          obtain ⟨m₀, hctx, rfl⟩ := cxHashNoThrow_some hhash
          dsimp only
          split
          · trivial
          · exact ⟨m₀, hctx, rfl⟩
    rw [wp_of_ret ret] at hwp
    obtain ⟨m, hctx, htx⟩ := hwp
    rw [htx]
    refine ⟨_, _, (hd.session hpending).1.receives hctx cmd.data, hslots, hd.idle (hlater hpos) (not_ofTx hflow).1, ?_⟩
    show (d.tx.buffer ++ cmd.data).length ≤ decodeBufferLen
    rw [List.length_append]
    omega

theorem ReadsSlot.readsSaved {tx : SignTxCtx} {call : List TxOutput} (hreads : ReadsSlot pf h d e tx call)
    (hd : Confirming pf h d) (hadmits : e.isCommand = true → ¬d.flow.OfTx) (hkept : ¬SlipsPast d e)
    (hbuffer : d.tx.buffer.length ≤ 35) (hslots : d.tx.outputs.length = outputSlots) : ReadsSaved tx call := by
  cases hreads with
  | @press o _ flow skips inside =>
      have hpress : (⟨d, .press o true, [], d⟩ : Step Device Event Obs).pre = d := rfl
      obtain ⟨hsession, hsaved, _⟩ := hd.goesOn flow hpress rfl hkept skips
      exact hsession.readsSaved hsaved inside
  | @chunk _ o d₁ tx₁ _ w taken decoded checked skips inside =>
      have htaken := taken
      obtain ⟨raw, _, rfl, _⟩ := taken
      obtain ⟨steps, outs, hsession, hslots₁, hempty₁, hbuffer₁⟩ := htaken.session hd (hadmits rfl) hbuffer hslots
      have hroom : 32 * d₁.tx.bufferOutputLen + d₁.tx.buffer.length ≤ decodeBufferLen := by omega
      have hspec := decodeElements_spec (verifyChange pf o) d₁.gTokenSymbols hsession.represents hroom
      rw [wp_of_ret decoded] at hspec
      obtain ⟨_, hleaves | ⟨herr, _⟩ | ⟨herr, _⟩⟩ := hspec
      · obtain ⟨_, s', tail, hverdict, rfl, hsaved⟩ := hleaves
        have hevent : (⟨d, .apdu o raw, w, d⟩ : Step Device Event Obs).event = .apdu o raw := rfl
        obtain ⟨hdecoded, hsaved', _, _⟩ :=
          hsession.decode hslots₁ hempty₁ hbuffer₁ hevent hverdict hsaved fun _ hx => hx
        exact (hdecoded.skips skips (Or.inl checked)).readsSaved (hsaved'.skips skips) inside
      · exact absurd herr (by decide)
      · exact absurd herr (by decide)

/-- In a run of a host that waits, in which no press slips, the cursors of a session that receives data are within the
saved outputs, an output on screen is the next one to confirm, and the next step reads no other slot for the screen than
that of the next output to confirm, unless it slips. -/
theorem cursors_inside (run : Run (waitingSystem pf) h d) (hC : NoSlip h) :
    (d.state = .recvData → CursorsInside h d) ∧
      ∀ e tx call, (waitingSystem pf).admits d e → ¬SlipsPast d e → ReadsSlot pf h d e tx call → ReadsSaved tx call := by
  have free := free_of_waiting run
  have hd := run_confirming run hC
  refine ⟨fun hstate => ?_, fun e tx call hadmits hkept hreads => ?_⟩
  · have hsession := (hd.session (Or.inl hstate)).1
    have haligned := hsession.cursors.aligned
    have hshown := hsession.cursors.shown
    refine ⟨by omega, hsession.cursors.declared, hshown, hsession.cursors.slots, fun hflow => ?_⟩
    obtain ⟨_, hmore, hsaved, _⟩ := hd.shown hflow
    exact ⟨hmore, hsession.reads hsaved hmore⟩
  · refine hreads.readsSaved hd (fun hcommand hflow => ?_) hkept (tail_invariant.run free) (slots_invariant.run free)
    have hwaiting := (run_disciplined run).owed.mp (asks_of_ofTx hflow)
    cases e with
    | apdu o raw => exact hadmits rfl o raw rfl hwaiting
    | press => cases hcommand
    | quit => cases hcommand

/-- Three outputs in one chunk, the second of which is the change. The first is approved. -/
theorem cursors_inside_three :
    ∃ h d, Run (waitingSystem countingPlatform) h d ∧ d.flow = .txOutput ∧ d.tx.displayIndex = 2 ∧ CursorsInside h d := by
  obtain ⟨h, r, _, run, hP⟩ := exists_step_of_play countingPlatform true []
    [signTxData 0 (sampleStart 3 ++ sampleOutput 7 ++ sampleChangeOutput ++ sampleOutput 8)] (press true)
    (fun h r => r.post.state = .recvData ∧ r.post.flow = .txOutput ∧ r.post.tx.displayIndex = 2 ∧
      ∀ r' ∈ r :: h, ¬SlipsPast r'.pre r'.event) (by decide +kernel)
  obtain ⟨hstate, hflow, hindex, hkept⟩ := of_decide_eq_true hP
  exact ⟨r :: h, r.post, run, hflow, hindex, (cursors_inside run hkept).1 hstate⟩

/-- The first output is approved while the second, the change, is still to come: the third is asked for, from a slot that
was never filled. -/
theorem cursors_outside :
    ∃ h d, Run (waitingSystem countingPlatform) h d ∧ d.state = .recvData ∧ d.flow = .txOutput ∧
      d.tx.bufferOutputLen = 1 ∧ d.tx.displayIndex = 2 ∧ d.tx.currentOutput = 1 ∧ d.tx.confirmedOutputs = 2 ∧
      ¬CursorsInside h d := by
  obtain ⟨h, r, _, run, hP⟩ := exists_step_of_play countingPlatform true []
    [signTxData 0 (sampleStart 3 ++ sampleOutput 7)] (press true)
    (fun _ r => r.post.state = .recvData ∧ r.post.flow = .txOutput ∧ r.post.tx.bufferOutputLen = 1 ∧
      r.post.tx.displayIndex = 2 ∧ r.post.tx.currentOutput = 1 ∧ r.post.tx.confirmedOutputs = 2) (by decide +kernel)
  obtain ⟨hstate, hflow, hlen, hindex, hcurrent, hconfirmed⟩ := of_decide_eq_true hP
  refine ⟨r :: h, r.post, run, hstate, hflow, hlen, hindex, hcurrent, hconfirmed, fun hinside => ?_⟩
  have hle := hinside.confirmed
  omega

end Step

end HathorApp
