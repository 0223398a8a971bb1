import HathorApp.AskedOutputs
import HathorApp.BufferLaw
import HathorApp.GivenOut

/-!
A whole signing session. The host clears the device, sends the transaction in chunks, asks for a signature for every key and
clears the device again, while the user approves every screen. Every command is answered, and every signature is that of the
double hash of the transaction with the key at the path it was asked for.
-/

namespace HathorApp

open ProgramLogic StreamDecoder TraceRun

section Commands

variable (pf : Platform)

/-- What is seen of each command, and the device after the last one. -/
def converse : (Nat → Nat → Outcome) → List Bytes → Device → Option (List (List Obs) × Device)
  | _, [], d => some ([], d)
  | o, raw :: rest, d =>
    (exchangeStep pf (o 0) raw d).bind fun r => (converse (fun i => o (i + 1)) rest r.2).map fun last => (r.1 :: last.1, last.2)

/-- The sign command of SIGN_TX. -/
def signCommand (path : Bip32Path) : Bytes := [0xE0, 0x06, 1, 0, UInt8.ofNat (pathBytes path).length] ++ pathBytes path

/-- The command of SIGN_TX that clears the device. -/
def doneCommand : Bytes := [0xE0, 0x06, 2, 0, 0]

variable {pf} {o : Nat → Nat → Outcome} {raw : Bytes} {rest : List Bytes} {d d' : Device} {w : List Obs}

theorem converse_cons (h : exchangeStep pf (o 0) raw d = some (w, d')) :
    converse pf o (raw :: rest) d = (converse pf (fun i => o (i + 1)) rest d').map fun last => (w :: last.1, last.2) := by
  rw [converse, h, Option.bind_some]

theorem converse_append (first last : List Bytes) (o : Nat → Nat → Outcome) (d : Device) :
    converse pf o (first ++ last) d = (converse pf o first d).bind fun r =>
      (converse pf (fun i => o (i + first.length)) last r.2).map fun r' => (r.1 ++ r'.1, r'.2) := by
  induction first generalizing o d with
  | nil =>
      rw [List.nil_append, converse, Option.bind_some]
      exact Option.map_id'.symm
  | cons raw first ih =>
      rw [List.cons_append, converse, converse]
      cases exchangeStep pf (o 0) raw d with
      | none => rfl
      | some r =>
          rw [Option.bind_some, Option.bind_some, ih, Option.map_bind, Option.bind_map]
          apply congrArg
          funext r'
          have hshift : ∀ i, i + first.length + 1 = i + (first.length + 1) := fun i => Nat.add_assoc i _ 1
          simp only [Function.comp_def, Option.map_map, hshift, List.length_cons, List.cons_append]

end Commands

section Review

variable {pf : Platform} {d d' d₁ : Device} {w : List Obs}

/-- The hash context, the digest and the registry are the same. -/
structure Device.SameHash (d d' : Device) : Prop where
  sha256 : d'.tx.sha256 = d.tx.sha256
  sighashAll : d'.tx.sighashAll = d.tx.sighashAll
  registry : d'.gTokenSymbols = d.gTokenSymbols

theorem Device.SameHash.trans (h : d.SameHash d₁) (h' : d₁.SameHash d') : d.SameHash d' :=
  ⟨h'.sha256.trans h.sha256, h'.sighashAll.trans h.sighashAll, h'.registry.trans h.registry⟩

/-- A step of a review: it stops, or it goes on with the same hash under a screen of the transaction. -/
structure Continues (d d' : Device) (w : List Obs) : Prop where
  kept : d'.state = .none ∨ d.SameHash d'
  screen : d'.flow.asks = true → d'.flow.OfTx ∧ d.SameHash d'
  asked : .display .confirmTx ∈ w → d'.flow = .confirmTx

theorem continues_refused {u : List Obs} (hu : .display .confirmTx ∉ u) : Continues d d₁.refused u :=
  ⟨Or.inl rfl, fun h => (by cases h), fun h => absurd h hu⟩

theorem DisplayEnds.continues (h : DisplayEnds pf d d' w) : Continues d d' w := by
  have hsame : ∀ {d₁ : Device}, d₁.tx.sha256 = d.tx.sha256 → d₁.tx.sighashAll = d.tx.sighashAll →
      d₁.gTokenSymbols = d.gTokenSymbols → d.SameHash d₁ := fun h₁ h₂ h₃ => ⟨h₁, h₂, h₃⟩
  cases h with
  | checked check =>
      cases check with
      | parsed => exact ⟨Or.inr (hsame rfl rfl rfl), fun _ => ⟨trivial, hsame rfl rfl rfl⟩, fun _ => rfl⟩
      | foreign => exact continues_refused (by simp)
      | more => exact ⟨Or.inr (hsame rfl rfl rfl), fun h => (by cases h), fun h => (by simp at h)⟩
  | failed => exact ⟨Or.inl rfl, fun h => (by cases h), fun h => (by simp at h)⟩
  | shown =>
      refine ⟨Or.inr (hsame rfl rfl rfl), fun _ => ⟨trivial, hsame rfl rfl rfl⟩, fun h => ?_⟩
      simp [outputScreen] at h

/-- Moving on among the saved outputs before a step changes nothing. -/
theorem Continues.skips {tx : SignTxCtx} (h : Continues (d.withTx tx) d' w) (hsha : tx.sha256 = d.tx.sha256)
    (hdigest : tx.sighashAll = d.tx.sighashAll) : Continues d d' w := by
  have hmoved : d.SameHash (d.withTx tx) := ⟨hsha, hdigest, rfl⟩
  exact ⟨h.kept.imp id hmoved.trans, fun hasks => (h.screen hasks).imp id hmoved.trans, h.asked⟩

theorem Continues.rests (h : Continues d d' w) (io : IoState) (exchange : Exchange) :
    Continues d { d' with gIoState := io, exchange := exchange } w :=
  ⟨h.kept.imp id fun same => ⟨same.sha256, same.sighashAll, same.registry⟩,
    fun hasks => (h.screen hasks).imp id fun same => ⟨same.sha256, same.sighashAll, same.registry⟩, h.asked⟩

theorem SkipsTo.sha256 {start tx : SignTxCtx} (h : SkipsTo start tx) : tx.sha256 = start.sha256 := by
  rw [h.frame]
  rfl

theorem DecodeEffect.continues {o : Outcome} {s : TxState} {accepted : Bool} (h : DecodeEffect pf o s d accepted d' w)
    (haccepted : accepted = true) (hclosed : d.flow.asks = false) : Continues d d' w := by
  cases h with
  | rejected silent => exact continues_refused (by simp [silent.no_display])
  | broken => cases haccepted
  | awaits silent =>
      refine ⟨Or.inr ⟨rfl, rfl, rfl⟩, fun h => absurd (hclosed.symm.trans h) (by decide), fun h => ?_⟩
      simp [silent.no_display] at h
  | @displays s' tail w₁ w₂ tx d' silent _ _ _ skips _ ends =>
      have hends : Continues d d' w₂ := ends.continues.skips skips.sha256 skips.sighashAll
      refine ⟨hends.kept, hends.screen, fun h => hends.asked ?_⟩
      exact (List.mem_append.mp h).resolve_left (silent.no_display _)

/-- A chunk that is taken leaves the reply owed or given. -/
theorem DecodeEffect.awake {o : Outcome} {s : TxState} {accepted : Bool} (h : DecodeEffect pf o s d accepted d' w)
    (haccepted : accepted = true) (hio : d.gIoState = .received) : d'.gIoState ≠ .waiting := by
  have hready : IoState.ready ≠ .waiting := by decide
  have hreceived : d.gIoState ≠ .waiting := by
    rw [hio]
    decide
  cases h with
  | rejected => exact hready
  | broken => cases haccepted
  | awaits => exact hready
  | displays _ _ _ _ _ _ ends =>
      cases ends with
      | checked check => cases check <;> assumption
      | failed => exact hready
      | shown => exact hreceived

end Review

section Screens

variable {pf : Platform} {h : History Device Event Obs} {d d' d₁ : Device} {w : List Obs}

/-- How the presses on the screens of a session end: nothing is asked any more, and after the approval the session is
approved. -/
structure Presses (pf : Platform) (d d' : Device) (confirms : Prop) : Prop where
  run : ∃ h, Run (waitingSystem pf) h d'
  closed : d'.flow.asks = false
  kept : d'.state = .none ∨ d.SameHash d'
  approved : confirms → d'.state = .approved ∧ d.SameHash d'

/-- The press on Approve under a screen of the transaction. -/
theorem press_continues {o : Outcome} (hcallback : d.CallbackSet) (hflow : d.flow.OfTx)
    (hpress : handle pf (.press o true) d = .ret () d' w) :
    (d.flow = .confirmTx ∧ d' = d.approve ∧ .display .confirmTx ∉ w) ∨ (d.flow ≠ .confirmTx ∧ Continues d d' w) := by
  have ret : handlePress pf o true d = .ret () d' w := hpress
  by_cases hconfirm : d.flow = .confirmTx
  · have hspec := handlePress_confirmTx pf o true hcallback hconfirm
    rw [wp_of_ret ret, if_pos rfl] at hspec
    obtain ⟨rfl, rfl⟩ := hspec
    exact Or.inl ⟨hconfirm, rfl, by simp⟩
  · have houtput : d.flow = .txOutput := by
      revert hflow hconfirm
      cases d.flow <;> simp [Flow.OfTx]
    have hspec := handlePress_txOutput pf o true hcallback houtput
    rw [wp_of_ret ret, if_pos rfl] at hspec
    obtain ⟨tx, hskips, hends⟩ := hspec
    exact Or.inr ⟨hconfirm, hends.continues.skips hskips.sha256 hskips.sighashAll⟩

/-- A step of a review and the presses after it. -/
theorem Continues.presses {n : Nat} {o : Nat → Outcome} {d₂ : Device} {w₁ w₂ : List Obs} (h : Continues d d₁ w₁)
    (hpresses : Presses pf d₁ d₂ (d₁.flow = .confirmTx ∨ .display .confirmTx ∈ w₂))
    (happrove : approveScreens pf o n d₁ = some (w₂, d₂)) : Presses pf d d₂ (.display .confirmTx ∈ w₁ ++ w₂) := by
  by_cases hasks : d₁.flow.asks = true
  · obtain ⟨_, hsame⟩ := h.screen hasks
    refine ⟨hpresses.run, hpresses.closed, hpresses.kept.imp id hsame.trans, fun hconfirms => ?_⟩
    obtain ⟨hstate, hsame'⟩ := hpresses.approved ((List.mem_append.mp hconfirms).imp h.asked id)
    exact ⟨hstate, hsame.trans hsame'⟩
  · rw [approveScreens_rest (by simpa using hasks), Option.some.injEq, Prod.mk.injEq] at happrove
    obtain ⟨rfl, rfl⟩ := happrove
    refine ⟨hpresses.run, hpresses.closed, h.kept, fun hconfirms => ?_⟩
    rw [List.append_nil] at hconfirms
    rw [h.asked hconfirms] at hasks
    exact absurd rfl hasks

theorem approveScreens_presses {n : Nat} {o : Nat → Outcome} (run : Run (waitingSystem pf) h d)
    (hscreen : d.flow.asks = true → d.flow.OfTx) (happrove : approveScreens pf o n d = some (w, d')) :
    Presses pf d d' (d.flow = .confirmTx ∨ .display .confirmTx ∈ w) := by
  induction n generalizing h d w with
  | zero =>
      rw [approveScreens, ite_eq_iff] at happrove
      obtain ⟨_, hnone⟩ | ⟨hclosed, hsame⟩ := happrove
      · cases hnone
      cases hsame
      refine ⟨⟨h, run⟩, by simpa using hclosed, Or.inr ⟨rfl, rfl, rfl⟩, ?_⟩
      rintro (hflow | hmem)
      · rw [hflow] at hclosed
        exact absurd rfl hclosed
      · cases hmem
  | succ n ih =>
      by_cases hasks : d.flow.asks = true
      · cases hpress : handle pf (.press (o n) true) d with
        | throw e d₁ w₁ =>
            rw [approveScreens, if_pos hasks, hpress] at happrove
            cases happrove
        | overrun =>
            rw [approveScreens, if_pos hasks, hpress] at happrove
            cases happrove
        | ret _ d₁ w₁ =>
            rw [approveScreens_press hasks hpress, Option.map_eq_some_iff] at happrove
            obtain ⟨⟨w₂, d₂⟩, hrest, hlast⟩ := happrove
            rw [Prod.mk.injEq] at hlast
            obtain ⟨rfl, rfl⟩ := hlast
            have run₁ : Run (waitingSystem pf) (⟨d, .press (o n) true, w₁, d₁⟩ :: h) d₁ := .step run (by rintro _ _ _ ⟨⟩) hpress
            rcases press_continues (run_callbackSet (free_of_waiting run)) (hscreen hasks) hpress with
              ⟨hflow, rfl, _⟩ | ⟨hother, hcontinues⟩
            · -- the approval
              rw [approveScreens_rest rfl, Option.some.injEq, Prod.mk.injEq] at hrest
              obtain ⟨rfl, rfl⟩ := hrest
              exact ⟨⟨_, run₁⟩, rfl, Or.inr ⟨rfl, rfl, rfl⟩, fun _ => ⟨rfl, rfl, rfl, rfl⟩⟩
            · -- an output
              have hpresses := hcontinues.presses (ih run₁ (fun h => (hcontinues.screen h).1) hrest) hrest
              exact ⟨hpresses.run, hpresses.closed, hpresses.kept, fun hconfirms =>
                hpresses.approved (hconfirms.resolve_left hother)⟩
      · have hclosed : d.flow.asks = false := by simpa using hasks
        rw [approveScreens_rest hclosed] at happrove
        cases happrove
        refine ⟨⟨h, run⟩, hclosed, Or.inr ⟨rfl, rfl, rfl⟩, ?_⟩
        rintro (hflow | hmem)
        · rw [hflow] at hclosed
          cases hclosed
        · cases hmem

variable {o : Nat → Outcome} {q : SigningRequest} {k n : Nat} {chunk : UInt8} {data : Bytes}

/-- What decoding a chunk makes of its command. -/
def Decodes (pf : Platform) (o : Outcome) (s : TxState) (d : Device) (r : Ending) (d' : Device) (w : List Obs) : Prop :=
  ∃ accepted, r = .ret (if accepted then 0 else -1) ∧ DecodeEffect pf o s d accepted d' w

/-- A chunk on the decode buffer, from the command to where its display stops. -/
theorem TakesData.continues (ht : TakesData pf (o 0) q k n chunk data d d₁)
    (hhandle : handle pf (.apdu (o 0) (dataCommand chunk data)) d = .ret () d' w) : Continues d₁ d' w := by
  obtain ⟨s, hrep, _⟩ := ht.loaded.loaded.decodes
  have hsaved := ht.loaded.loaded.saved
  have hroom := ht.loaded.loaded.room
  have hdispatched : wp (apduDispatcher pf (o 0) ⟨0xE0, 0x06, 0, chunk.toNat, data⟩)
      (fun v => Decodes pf (o 0) s d₁ (.ret v)) (fun e => Decodes pf (o 0) s d₁ (.thrown e)) True (wake d) := by
    rw [apduDispatcher_dataCommand ht.nonempty, wp_handlerSignTx ht.state ht.opens, receiveData, wp_bind, wp_of_ret ht.taken]
    refine wp_mono (decodeChunk_spec pf (o 0) hrep (by omega)) ?_ (fun _ _ _ hno => hno.elim) fun _ => trivial
    exact fun accepted _ _ heffect => ⟨accepted, rfl, heffect⟩
  have hloop := handleCommand_ends pf (apduParser_dataCommand ht.length) hdispatched
  rw [wp_of_ret (show handleCommand pf (o 0) (dataCommand chunk data) d = .ret () d' w from hhandle)] at hloop
  obtain ⟨_, d₂, w₁, w₂, ⟨accepted, rfl, heffect⟩, hrests, rfl⟩ := hloop
  cases accepted with
  | false =>
      -- a change key cannot be derived, and the application is started anew
      cases hrests with
      | replied nonneg => exact absurd nonneg (by decide)
      | owes nonneg => exact absurd nonneg (by decide)
      | restarts =>
          cases heffect with
          | broken silent =>
              refine ⟨Or.inl rfl, fun h => (by cases h), fun h => ?_⟩
              simp [silent.no_display] at h
  | true =>
      have hcontinues := heffect.continues rfl ht.loaded.closed
      cases hrests with
      | replied =>
          rw [List.append_nil]
          exact hcontinues.rests _ _
      | owes =>
          rw [List.append_nil]
          exact hcontinues.rests _ _
      | restarts cause =>
          rcases cause with hneg | hwaits
          · exact absurd hneg (by decide)
          · exact absurd hwaits (heffect.awake rfl ht.loaded.io)

/-- A chunk and the presses under its screens. -/
theorem TakesData.presses (run : Run (waitingSystem pf) h d) (howes : d.gIoState ≠ .waiting)
    (ht : TakesData pf (o 0) q k n chunk data d d₁) (hstep : exchangeStep pf o (dataCommand chunk data) d = some (w, d')) :
    Presses pf d₁ d' (.display .confirmTx ∈ w) := by
  cases hhandle : handle pf (.apdu (o 0) (dataCommand chunk data)) d with
  | throw e d₂ w₁ =>
      rw [exchangeStep, hhandle] at hstep
      cases hstep
  | overrun =>
      rw [exchangeStep_overrun hhandle] at hstep
      cases hstep
  | ret _ d₂ w₁ =>
      have hcontinues := ht.continues hhandle
      have run₂ : Run (waitingSystem pf) (⟨d, .apdu (o 0) (dataCommand chunk data), w₁, d₂⟩ :: h) d₂ :=
        .step run (fun _ _ _ _ => howes) hhandle
      rw [exchangeStep_ret hhandle, Option.map_eq_some_iff] at hstep
      obtain ⟨⟨w₂, d₃⟩, happrove, hlast⟩ := hstep
      rw [Prod.mk.injEq] at hlast
      obtain ⟨rfl, rfl⟩ := hlast
      exact hcontinues.presses (approveScreens_presses run₂ (fun hasks => (hcontinues.screen hasks).1) happrove) happrove

end Screens

/-- What is hashed of a transaction up to so many bytes of its elements. -/
def SigningRequest.hashedTo (q : SigningRequest) (n : Nat) : Bytes :=
  txHeader q.version q.elements ++ q.elements.serialize.take n

/-- What is hashed of a whole transaction. -/
def SigningRequest.message (q : SigningRequest) : Bytes := txHeader q.version q.elements ++ q.elements.serialize

/-- A device in a run that asks nothing. -/
structure Device.AtRest (pf : Platform) (registry : TokenDataCtx) (d : Device) : Prop where
  run : ∃ h, Run (waitingSystem pf) h d
  closed : d.flow.asks = false
  registry : d.gTokenSymbols = registry

/-- A session that is approved to sign the double hash of a message. -/
structure Device.ApprovedFor (pf : Platform) (m : Bytes) (registry : TokenDataCtx) (d : Device) : Prop
    extends d.AtRest pf registry where
  state : d.state = .approved
  signs : d.tx.Signs pf (pf.sha256 (pf.sha256 m))

section Chunks

variable {pf : Platform} {h : History Device Event Obs} {registry : TokenDataCtx} {q : SigningRequest} {k n : Nat}
  {d d₁ : Device} {chunk : UInt8} {data m : Bytes}

theorem SigningRequest.hashedTo_length (q : SigningRequest) : q.hashedTo q.elements.serialize.length = q.message := by
  unfold hashedTo message
  rw [List.take_length]

/-- A host that waits may send a command when nothing is asked. -/
theorem listens_of_closed (run : Run (waitingSystem pf) h d) (hclosed : d.flow.asks = false) : d.gIoState ≠ .waiting := by
  intro hwaits
  rw [(run_disciplined run).owed.mpr hwaits] at hclosed
  cases hclosed

/-- The run goes on with a command. -/
theorem run_command {o : Outcome} {raw : Bytes} {d' : Device} {w : List Obs} (run : Run (waitingSystem pf) h d)
    (hclosed : d.flow.asks = false) (hret : handle pf (.apdu o raw) d = .ret () d' w) : ∃ h', Run (waitingSystem pf) h' d' := by
  have run' : Run (waitingSystem pf) (⟨d, .apdu o raw, w, d'⟩ :: h) d' :=
    .step run (fun _ _ _ _ => listens_of_closed run hclosed) hret
  exact ⟨_, run'⟩

/-- A later chunk is hashed behind the earlier ones. -/
theorem TakesData.hashes {o : Outcome} (ht : TakesData pf o q k n chunk data d d₁) (hchunk : chunk ≠ 0)
    (hctx : d.tx.sha256 = some m) : d₁.tx.sha256 = some (m ++ data) ∧ d₁.tx.sighashAll = d.tx.sighashAll := by
  have hpos : 0 < chunk.toNat := Nat.pos_of_ne_zero fun hzero => hchunk (UInt8.toNat_inj.mp hzero)
  have hentered : d.entered.tx.sha256 = some m := hctx
  have hwp : wp (takeChunk o (Buffer.ofData data) chunk.toNat)
      (fun _ d' _ => d'.tx.sha256 = some (m ++ data) ∧ d'.tx.sighashAll = d.tx.sighashAll) (fun _ _ _ => True) True
      d.entered := by
    rw [takeChunk_later o hpos]
    cases hhash : cxHashNoThrow o d.entered.tx.sha256 data with
    | none => trivial
    | some x =>
        obtain ⟨m₀, hm₀, rfl⟩ := cxHashNoThrow_some hhash
        rw [hentered, Option.some.injEq] at hm₀
        dsimp only
        split
        · trivial
        · rw [hm₀]
          exact ⟨rfl, rfl⟩
  rwa [wp_of_ret ht.taken] at hwp

/-- From one chunk to the last, with the user at hand. -/
theorem converse_chunks {h₀ : History Device Event Obs} {later : List (UInt8 × Bytes)} {o : Nat → Nat → Outcome}
    (hregistry : RegistryOf pf h₀ registry) (hq : q.Acceptable pf registry) (hcount : q.changes.length ≤ 1 + txMaxTokens)
    (ho : ∀ i j, (o i j).Works) (run : Run (waitingSystem pf) h d) (howes : d.gIoState ≠ .waiting)
    (ht : TakesData pf (o 0 0) q k n chunk data d d₁) (hsame : d₁.gTokenSymbols = registry)
    (hpending : k < q.elements.outputs.length) (hstays : q.elements.complete n = k → q.EndsWell n)
    (hfits : ∀ c ∈ later, c.1 ≠ 0 ∧ c.2 ≠ [] ∧ c.2.length ≤ 255) (hn : n ≤ q.elements.serialize.length)
    (hrest : q.elements.serialize.drop n = (later.map Prod.snd).flatten) (hhash : d₁.tx.sha256 = some (q.hashedTo n))
    (habsent : d₁.tx.sighashAll.getD 0 0 = 0) (hcuts : q.CutWell n later)
    (hamounts : ∀ output ∈ q.newOutputs k q.elements.serialize.length, q.Fits registry output) :
    ∃ seen d', converse pf o (dataCommand chunk data :: later.map fun c => dataCommand c.1 c.2) d = some (seen, d') ∧
      Asks later.length ((q.newOutputs k q.elements.serialize.length).map (q.texts pf registry)) seen ∧
      d'.ApprovedFor pf q.message registry := by
  induction later generalizing o h k n d d₁ chunk data with
  | nil =>
      -- the last chunk
      have hall : n = q.elements.serialize.length := by
        have hlength := congrArg List.length hrest
        rw [List.length_drop, List.map_nil, List.flatten_nil, List.length_nil] at hlength
        omega
      rw [← hall] at hamounts ⊢
      rcases exchangeStep_iff hregistry hq hcount (ho 0) ht hsame hpending hstays with
        ⟨_, w, d', hstep, hreviewed⟩ | ⟨hbad, _⟩
      · have hpresses := ht.presses run howes hstep
        have hcount₁ : w.count (.display .confirmTx) = 1 := by
          rw [hreviewed.approval, hall, q.elements.complete_length, if_pos rfl]
        obtain ⟨hstate, hkept⟩ := hpresses.approved (List.count_pos_iff.mp (by omega))
        have hasks : Asks 0 ((q.newOutputs k n).map (q.texts pf registry)) [w] := by
          rw [← hreviewed.outputs]
          exact asks_singleton hreviewed.answered hcount₁
        refine ⟨[w], d', ?_, hasks, ⟨hpresses.run, hpresses.closed, hkept.registry.trans hsame⟩, hstate, ?_, ?_⟩
        · rw [List.map_nil, converse_cons hstep]
          rfl
        · rw [hkept.sighashAll]
          exact fun hpresent => absurd habsent hpresent
        · refine fun _ => ⟨q.message, ?_, rfl⟩
          rw [hkept.sha256, hhash, hall, q.hashedTo_length]
      · exact absurd ⟨cutWell_nil.mp hcuts, hamounts⟩ hbad
  | cons c later ih =>
      obtain ⟨⟨hchunk, hdata, hlen⟩, hlater⟩ := List.forall_mem_cons.mp hfits
      have hgrown := ht.loaded.loaded.grown (hsame ▸ hq) hcount
      rw [List.map_cons, List.flatten_cons] at hrest
      have hlength := congrArg List.length hrest
      rw [List.length_drop, List.length_append] at hlength
      have hposition : 0 < c.2.length := List.length_pos_of_ne_nil hdata
      have hnext : q.elements.serialize.take (n + c.2.length) = q.elements.serialize.take n ++ c.2 := by
        rw [List.take_add, hrest, List.take_left]
      obtain ⟨hends, hcuts'⟩ := cutWell_cons.mp hcuts
      rw [q.newOutputs_append hgrown, List.forall_mem_append] at hamounts
      rw [q.newOutputs_append hgrown, List.map_append, List.map_cons, List.length_cons]
      rcases exchangeStep_iff hregistry hq hcount (ho 0) ht hsame hpending hstays with
        ⟨_, w, d', hstep, hreviewed⟩ | ⟨hbad, _⟩
      · obtain ⟨hawaits, hsame'⟩ := hreviewed.awaits (by have := q.complete_lt (n := n) (by omega); omega)
        have hpresses := ht.presses run howes hstep
        have hkept : d₁.SameHash d' := by
          refine hpresses.kept.resolve_left fun hnone => ?_
          rw [hawaits.state] at hnone
          cases hnone
        obtain ⟨h', run'⟩ := hpresses.run
        obtain ⟨d₂, ht', hsame₂⟩ := hawaits.takesData hchunk (ho 1 0) hdata hlen hnext
        obtain ⟨hhash₂, habsent₂⟩ := ht'.hashes hchunk (hkept.sha256.trans hhash)
        have hcount₀ : w.count (.display .confirmTx) = 0 := by
          rw [hreviewed.approval, if_neg (Nat.ne_of_lt (q.complete_lt (by omega)))]
        have hih := ih (o := fun i => o (i + 1)) (fun i => ho (i + 1)) run'
          (listens_of_closed run' hpresses.closed) ht' (hsame₂.trans hsame') (q.complete_lt (by omega)) ?stays hlater (by omega)
          (by rw [← List.drop_drop, hrest, List.drop_left])
          (by rw [hhash₂, SigningRequest.hashedTo, List.append_assoc, ← hnext]; rfl)
          (by rw [habsent₂, hkept.sighashAll]; exact habsent) hcuts' hamounts.2
        case stays =>
          intro hnone hmem
          rw [hnone] at hmem ⊢
          exact hends hmem
        obtain ⟨seen, d₃, hlast, hasks, happroved⟩ := hih
        refine ⟨w :: seen, d₃, ?_, ?_, happroved⟩
        · rw [converse_cons hstep, hlast]
          rfl
        · rw [← hreviewed.outputs]
          exact (asks_cons hreviewed.answered hcount₀).mpr hasks
      · exact absurd ⟨hends, hamounts.1⟩ hbad

end Chunks

section Sign

variable {pf : Platform} {registry : TokenDataCtx} {d : Device} {m : Bytes} {path : Bip32Path}

/-- A path that a sign command may ask a signature for. -/
structure Bip32Path.Signs (path : Bip32Path) : Prop where
  nonempty : path ≠ []
  wellFormed : path.WellFormed
  levels : ∀ level ∈ path, level < 2 ^ 32

theorem length_pathBytes (path : Bip32Path) : (pathBytes path).length = 1 + 4 * path.length := by
  rw [pathBytes, List.length_cons, length_levels]
  omega

theorem apduParser_signCommand (hpath : path.Signs) :
    apduParser (signCommand path) = some ⟨cla, insSignTx, 1, 0, pathBytes path⟩ := by
  have hdepth := hpath.wellFormed.depth
  have hlevels := length_pathBytes path
  have hbyte : (UInt8.ofNat (pathBytes path).length).toNat = (pathBytes path).length := UInt8.toNat_ofNat_of_lt' (by
    have hmax : maxBip32Path = 5 := rfl
    have hsize : UInt8.size = 256 := rfl
    omega)
  have hlength : (signCommand path).length = (pathBytes path).length + 5 := by
    unfold signCommand
    rw [List.length_append, Nat.add_comm]
    rfl
  have hcount : byteAt (signCommand path) 4 = (pathBytes path).length := hbyte
  unfold apduParser
  rw [hlength, hcount, if_neg (by omega)]
  rfl

theorem Bip32Path.Signs.read (hpath : path.Signs) (out : Bip32Path) :
    ∃ rest, bufferReadBip32Path (Buffer.ofData (pathBytes path)) out = (true, path, rest) := by
  have hstart : (pathBytes path).drop 0 = UInt8.ofNat path.length :: (path.flatMap (bytesBe 4) ++ []) := by
    rw [List.append_nil]
    rfl
  exact ⟨_, (bufferReadBip32Path_serialize hpath.wellFormed hpath.levels (by decide) hstart out).1⟩

/-- When the calls work, the digest is computed, or it is in place. -/
theorem DigestStep.works {o : Outcome} (ho : o.Works) {tx tx' : SignTxCtx} {done : Bool} (h : DigestStep pf o tx tx' done)
    {digest : Bytes} (hsigns : tx.Signs pf digest) : done = true ∧ tx'.sighashAll = digest := by
  cases h with
  | kept inPlace => exact ⟨rfl, hsigns.1 inPlace⟩
  | unhashed absent fails =>
      obtain ⟨x, hctx, _⟩ := hsigns.2 absent
      rw [hctx, cxHashNoThrow_works ho] at fails
      cases fails
  | half _ _ fails =>
      rw [ho] at fails
      cases fails
  | full absent ctx =>
      obtain ⟨x, hctx, hdigest⟩ := hsigns.2 absent
      rw [ctx, Option.some.injEq] at hctx
      rw [hctx]
      exact ⟨rfl, hdigest⟩

theorem Sighash.works {o : Outcome} (ho : o.Works) {d' : Device} {signature : Option Bytes} {w : List Obs}
    (h : Sighash pf o d signature d' w) {digest : Bytes} (hsigns : d.tx.Signs pf digest) :
    signature = some (pf.ecdsaSign (pf.deriveBip32 d.gContext.bip32Path).1 digest) ∧ replies w = [] := by
  cases h with
  | keyless key =>
      unfold derivePrivateKey at key
      rw [if_pos (ho _)] at key
      dsimp only at key
      rw [if_pos (ho _)] at key
      cases key
  | undigested _ step => exact absurd (step.works ho hsigns).1 (by decide)
  | unsigned _ _ fails =>
      rw [ho] at fails
      cases fails
  | signed derived step =>
      rw [(step.works ho hsigns).2, derivePrivateKey_some pf derived]
      exact ⟨rfl, rfl⟩

/-- A sign command of an approved session. -/
theorem Device.ApprovedFor.sign {o : Nat → Outcome} (ho : (o 0).Works) (h : d.ApprovedFor pf m registry) (hpath : path.Signs) :
    ∃ w d', exchangeStep pf o (signCommand path) d = some (w, d') ∧
      replies w = replies [replyOf (pf.ecdsaSign (pf.deriveBip32 path).1 (pf.sha256 (pf.sha256 m))) swOk] ∧
      d'.AtRest pf registry ∧ (Stable pf m → d'.ApprovedFor pf m registry) := by
  obtain ⟨⟨⟨history, run⟩, hclosed, hregistry⟩, hstate, hsigns⟩ := h
  have hawake := (run_disciplined run).wake_received
  have hwp : wp (handle pf (.apdu (o 0) (signCommand path))) _ _ _ d :=
    handleCommand_sign (apduParser_signCommand hpath) rfl rfl rfl rfl (List.cons_ne_nil _ _) d
  obtain ⟨_, d', w, hret, v, d₁, w₁, heffect, hloop⟩ := exists_ret_of_wp hwp
  have heffect : SignEffect pf (o 0) (pathBytes path) d.entered v d₁ w₁ := heffect
  have hstate₀ : d.entered.state = .approved := (entered_state d).trans hstate
  have hsigns₀ : (d.entered.withPath path).tx.Signs pf (pf.sha256 (pf.sha256 m)) := hsigns
  obtain ⟨rest, hread⟩ := hpath.read d.entered.gContext.bip32Path
  cases heffect with
  | unapproved hno => exact absurd hstate₀ hno
  | unread _ read =>
      rw [hread] at read
      cases read
  | pathless _ read =>
      rw [hread] at read
      cases read
      exact absurd rfl hpath.nonempty
  | failed _ read _ sighash =>
      rw [hread] at read
      cases read
      cases (sighash.works ho hsigns₀).1
  | @signed _ _ signature d₂ w₂ _ read _ sighash =>
      rw [hread] at read
      cases read
      obtain ⟨hsignature, hsilent⟩ := sighash.works ho hsigns₀
      cases hsignature
      obtain ⟨tx, hframe⟩ := sighash.frame
      have hreply : replyResult d₂ = 0 := by
        have hio : d₂.gIoState = .received := by
          rw [hframe]
          exact hawake
        unfold replyResult
        rw [hio, if_neg (by decide)]
      rw [hreply, if_neg (by decide)] at hloop
      obtain ⟨rfl, rfl⟩ := hloop
      have hflow : d₂.flow = d.flow := by
        rw [hframe]
        exact entered_flow d
      have hrest : Device.AtRest pf registry { d₂ with gIoState := .received, exchange := .apdu } := by
        refine ⟨run_command run hclosed hret, by rw [← hclosed, ← hflow], ?_⟩
        show d₂.gTokenSymbols = registry
        rw [hframe, ← hregistry]
        exact wake_gTokenSymbols d
      refine ⟨_, _, exchangeStep_rest hret hrest.closed, ?_, hrest, fun hstable => ⟨hrest, ?_, ?_⟩⟩
      · rw [replies_append, hsilent]
        rfl
      · show d₂.state = .approved
        rw [hframe]
        exact hstate₀
      · exact (sighash.signs hstable (fun _ => ho _) hsigns₀).1

/-- DONE clears the device. -/
theorem Device.AtRest.done {o : Nat → Outcome} (h : d.AtRest pf registry) :
    ∃ w d', exchangeStep pf o doneCommand d = some (w, d') ∧ replies w = [([], swOk)] ∧ d'.AtRest pf registry ∧
      d'.gContext = zeroGlobalCtx := by
  obtain ⟨⟨history, run⟩, hclosed, hregistry⟩ := h
  have hawake := (run_disciplined run).wake_received
  have hret : handle pf (.apdu (o 0) doneCommand) d = .ret ()
      { (wake d).refused with gIoState := .received, exchange := .apdu } [.display .menuMain, .response [] swOk] := by
    have hio : (wake d).refused.gIoState ≠ .waiting := nofun
    apply eq_ret_of_wp
    show wp (handleCommand pf (o 0) doneCommand) _ _ _ d
    unfold handleCommand
    rw [wp_bind, wp_modify, wp_catchAll, show apduParser doneCommand = some ⟨cla, insSignTx, 2, 0, []⟩ from rfl]
    dsimp only
    rw [wp_bind, show apduDispatcher pf (o 0) ⟨cla, insSignTx, 2, 0, []⟩ =
      handlerSignTx pf (o 0) (Buffer.ofData []) .done 0 from rfl]
    unfold handlerSignTx
    rw [wp_bind, wp_modify, wp_bind, wp_get]
    dsimp only
    have hreply : ¬replyResult ((wake d).withTx (wake d).tx.resetCall) < 0 := by
      have hreceived : ((wake d).withTx (wake d).tx.resetCall).gIoState = .received := hawake
      unfold replyResult
      rw [hreceived]
      decide
    have hcleared : ((wake d).withTx (wake d).tx.resetCall).refused = (wake d).refused := rfl
    rw [wp_bzeroMenuReply, if_neg hreply, hcleared, wp_of_ret (ioRecvCommand_resting hio)]
    exact ⟨rfl, rfl, rfl⟩
  have hrest : Device.AtRest pf registry { (wake d).refused with gIoState := .received, exchange := .apdu } :=
    ⟨run_command run hclosed hret, rfl, (wake_gTokenSymbols d).trans hregistry⟩
  exact ⟨_, _, exchangeStep_rest hret rfl, rfl, hrest, rfl⟩

/-- The sign commands, one for each path. The digest is computed anew by every command when it begins with a zero byte. -/
theorem converse_signs {paths : List Bip32Path} {o : Nat → Nat → Outcome} (ho : ∀ i j, (o i j).Works)
    (hrest : d.AtRest pf registry) (happroved : paths ≠ [] → d.ApprovedFor pf m registry) (hpaths : ∀ p ∈ paths, p.Signs)
    (hstable : paths.length ≤ 1 ∨ Stable pf m) :
    ∃ seen d', converse pf o (paths.map signCommand) d = some (seen, d') ∧
      seen.map replies = paths.map (fun path =>
        replies [replyOf (pf.ecdsaSign (pf.deriveBip32 path).1 (pf.sha256 (pf.sha256 m))) swOk]) ∧
      d'.AtRest pf registry := by
  induction paths generalizing o d with
  | nil => exact ⟨[], d, rfl, rfl, hrest⟩
  | cons path paths ih =>
      obtain ⟨hpath, hpaths'⟩ := List.forall_mem_cons.mp hpaths
      obtain ⟨w, d₁, hstep, hreplied, hrest₁, hagain⟩ := (happroved (List.cons_ne_nil _ _)).sign (ho 0 0) hpath
      have hnext : paths ≠ [] → d₁.ApprovedFor pf m registry := by
        intro hmore
        have hpos := List.length_pos_of_ne_nil hmore
        refine hagain (hstable.resolve_left fun hone => ?_)
        rw [List.length_cons] at hone
        omega
      obtain ⟨seen, d', hlast, hreplies, hend⟩ := ih (o := fun i => o (i + 1)) (fun i => ho (i + 1)) hrest₁ hnext hpaths'
        (hstable.imp (fun hone => Nat.le_trans (Nat.le_succ _) hone) id)
      refine ⟨w :: seen, d', ?_, ?_, hend⟩
      · rw [List.map_cons, converse_cons hstep, hlast]
        rfl
      · rw [List.map_cons, List.map_cons, hreplied, hreplies]

end Sign

section Session

variable {pf : Platform} {h : History Device Event Obs} {d d₁ : Device} {q : SigningRequest}

/-- The first chunk is hashed from the header on. -/
theorem SigningRequest.hashes_first {o : Outcome} (ho : o.Works) (hcount : q.changes.length ≤ txMaxTokens + 1)
    (hstate : d.state ≠ .recvData) (htaken : takeChunk o (Buffer.ofData q.first) 0 d = .ret () d₁ []) :
    d₁.tx.sha256 = some (q.hashedTo q.rest.length) ∧ d₁.tx.sighashAll.getD 0 0 = 0 := by
  have hlength : (txHeader q.version q.elements ++ q.rest).length = 5 + q.rest.length := by
    simp only [txHeader, List.length_append, List.length_cons, List.length_nil, q.length_version]
  obtain ⟨changeInfo, _, hrun⟩ := q.encodes.takeChunk hcount ho (m := txHeader q.version q.elements ++ q.rest) (by omega)
    (Nat.le_trans q.first_fits (by decide)) d hstate
  rw [SigningRequest.first, hrun, Res.ret.injEq] at htaken
  obtain ⟨_, rfl, _⟩ := htaken
  refine ⟨?_, rfl⟩
  rw [SigningRequest.hashedTo, ← q.whole, List.take_left]
  rfl

/-- In every run of a host that waits, a well-formed request is signed: the device is cleared, the user is asked for the
outputs and the approval, and every path gets the signature of the double hash of the transaction with its key. -/
theorem signs_request {o : Nat → Nat → Outcome} (ho : ∀ i j, (o i j).Works) (run : Run (waitingSystem pf) h d)
    (howes : d.gIoState ≠ .waiting) (hq : q.Acceptable pf d.gTokenSymbols) (hcount : q.changes.length ≤ txMaxTokens + 1)
    (hcuts : q.CutsWell) (hamounts : ∀ output ∈ q.toConfirm, q.Fits d.gTokenSymbols output) {paths : List Bip32Path}
    (hpaths : ∀ p ∈ paths, p.Signs) (hstable : paths.length ≤ 1 ∨ Stable pf q.message) :
    ∃ first seen signed last d',
      converse pf o (doneCommand :: (q.chunks ++ (paths.map signCommand ++ [doneCommand]))) d =
        some (first :: (seen ++ (signed ++ [last])), d') ∧
      replies first = [([], swOk)] ∧ Asks q.later.length (q.toConfirm.map (q.texts pf d.gTokenSymbols)) seen ∧
      signed.map replies = paths.map (fun path =>
        replies [replyOf (pf.ecdsaSign (pf.deriveBip32 path).1 (pf.sha256 (pf.sha256 q.message))) swOk]) ∧
      replies last = [([], swOk)] ∧ d'.AtRest pf d.gTokenSymbols ∧ d'.gContext = zeroGlobalCtx := by
  have hflow : d.flow.asks = false := by
    rw [← Bool.not_eq_true, (run_disciplined run).owed]
    exact howes
  -- the first DONE
  obtain ⟨first, d₀, hdone, hfirst, ⟨⟨h₀, run₀⟩, hclosed₀, hregistry₀⟩, hcleared⟩ :=
    Device.AtRest.done (o := o 0) ⟨⟨h, run⟩, hflow, rfl⟩
  have hregistered := run_registryOf (free_of_waiting run₀)
  rw [hregistry₀] at hregistered
  have hstate₀ : d₀.state = .none := by
    unfold Device.state
    rw [hcleared]
    rfl
  -- the chunks
  obtain ⟨d₁, htaken, hloaded, hregistry₁⟩ := q.hasChunk_first hcount (ho 1 0) (by rw [hstate₀]; decide) hclosed₀
    (run_disciplined run₀).wake_received
  have htakes : TakesData pf (o 1 0) q 0 q.rest.length 0 q.first d₀ d₁ := by
    refine ⟨?_, q.first_fits, by rw [hstate₀]; decide, fun hlater => absurd hlater (by decide), htaken, hloaded⟩
    unfold SigningRequest.first txHeader
    simp
  obtain ⟨hhash, habsent⟩ := q.hashes_first (ho 1 0) hcount (by rw [entered_state, hstate₀]; decide) htaken
  have hwhole := congrArg List.length q.whole
  rw [List.length_append] at hwhole
  have hchunks := converse_chunks (o := fun i => o (i + 1)) hregistered hq (by omega) (fun i => ho (i + 1)) run₀
    (listens_of_closed run₀ hclosed₀) htakes (hregistry₁.trans hregistry₀) q.outputs_pos (fun hnone _ => Or.inl hnone)
    q.later_fits (by omega) (by rw [← q.whole, List.drop_left]) hhash habsent hcuts (by rw [q.newOutputs_whole]; exact hamounts)
  rw [q.newOutputs_whole] at hchunks
  obtain ⟨seen, d₂, hexchange, hasks, happroved⟩ := hchunks
  -- the signatures and the last DONE
  obtain ⟨signed, d₃, hsign, hsigned, hrest⟩ := converse_signs (o := fun i => o (i + q.chunks.length + 1))
    (fun i => ho (i + q.chunks.length + 1)) happroved.toAtRest (fun _ => happroved) hpaths hstable
  obtain ⟨last, d', hdone', hlast, hrest', hcleared'⟩ :=
    hrest.done (o := o (0 + (paths.map signCommand).length + q.chunks.length + 1))
  refine ⟨first, seen, signed, last, d', ?_, hfirst, hasks, hsigned, hlast, hrest', hcleared'⟩
  have hlasts : converse pf (fun i => o (i + (paths.map signCommand).length + q.chunks.length + 1)) [doneCommand] d₃ =
      some ([last], d') := by
    rw [converse_cons hdone', converse]
    rfl
  rw [converse_cons hdone, converse_append, show converse pf (fun i => o (i + 1)) q.chunks d₀ = some (seen, d₂) from hexchange,
    Option.bind_some, converse_append, hsign, Option.bind_some, hlasts]
  rfl

/-- A request in two chunks and one key, on a device that has just started. -/
theorem signs_request_sample :
    ∃ first seen signed last d',
      converse countingPlatform (fun _ _ => .allOk [])
          (doneCommand :: ((sampleRequest 10).chunks ++ ([[0]].map signCommand ++ [doneCommand]))) (bootDevice []) =
        some (first :: (seen ++ (signed ++ [last])), d') ∧ signed.length = 1 := by
  have hpaths : ∀ p ∈ [[0]], Bip32Path.Signs p :=
    List.forall_mem_singleton.mpr ⟨by decide, ⟨by decide, by decide, by decide⟩, by decide⟩
  have hcuts : (sampleRequest 10).CutsWell := cutWell_cons.mpr ⟨by decide +kernel, cutWell_nil.mpr (by decide +kernel)⟩
  obtain ⟨first, seen, signed, last, d', hconverse, _, _, hsigned, _⟩ := signs_request (o := fun _ _ => .allOk [])
    (fun _ _ _ => rfl) (.start ⟨[], rfl⟩) (by decide) (sampleRequest_acceptable 10) (by decide) hcuts (by decide +kernel) hpaths
    (Or.inl (by decide))
  refine ⟨first, seen, signed, last, d', hconverse, ?_⟩
  have hlength := congrArg List.length hsigned
  rwa [List.length_map] at hlength

end Session

end HathorApp
