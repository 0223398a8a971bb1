import HathorApp.StepSpec

/-!
Runs of the device. Two hosts are told apart: a free one, whose commands may arrive at any time, and one
that waits for each reply. The user presses what and when he likes in both.
-/

namespace HathorApp

open ProgramLogic StreamDecoder TraceRun

section Systems

variable (pf : Platform)

/-- The application with commands and presses in any order, but for a host that waits: then no command
arrives while a reply is owed. -/
def hostSystem (waits : Bool) : System Device Event Obs where
  init d := ∃ secret, d = bootDevice secret
  admits d e := waits = true → ∀ o raw, e = .apdu o raw → d.gIoState ≠ .waiting
  handle := handle pf

abbrev freeSystem : System Device Event Obs := hostSystem pf false

abbrev waitingSystem : System Device Event Obs := hostSystem pf true

variable {pf}

/-- Whether the host waits or not, what it sends may arrive at any time. -/
theorem free_of_host {waits : Bool} {h : History Device Event Obs} {d : Device} (run : Run (hostSystem pf waits) h d) :
    Run (freeSystem pf) h d := by
  refine Run.mono ?_ ?_ ?_ run
  · exact fun _ hinit => hinit
  · exact fun _ _ _ hfree => nomatch hfree
  · rfl

/-- A run with a host that waits is a run. -/
theorem free_of_waiting {h : History Device Event Obs} {d : Device} (run : Run (waitingSystem pf) h d) :
    Run (freeSystem pf) h d := free_of_host run

end Systems

/-- A stream state a context represents. -/
def SignTxCtx.someState (tx : SignTxCtx) : TxState :=
  ⟨tx.tokens, tx.remainingTokens, tx.remainingInputs, List.replicate tx.currentOutput zeroOutput⟩

theorem SignTxCtx.represents_someState (tx : SignTxCtx) : tx.Represents tx.someState :=
  ⟨rfl, rfl, rfl, List.length_replicate.symm⟩

section Keeps

variable {pf : Platform} {d d' : Device}

theorem callbackSet_of_none (h : d.flow.callback = none) : d.CallbackSet := by
  intro c hc
  rw [h] at hc
  cases hc

theorem callbackSet_of_same (hflow : d'.flow = d.flow) (hcallback : d'.gValidateCallback = d.gValidateCallback)
    (h : d.CallbackSet) : d'.CallbackSet := by
  intro c hc
  rw [hflow] at hc
  rw [hcallback]
  exact h c hc

theorem CheckEnds.callbackSet {w : List Obs} (h : CheckEnds d d' w) : d'.CallbackSet := by
  cases h with
  | parsed => exact fun c hc => hc
  | foreign => exact callbackSet_of_none rfl
  | more => exact callbackSet_of_none rfl

theorem DisplayEnds.callbackSet {w : List Obs} (h : DisplayEnds pf d d' w) : d'.CallbackSet := by
  cases h with
  | checked check => exact check.callbackSet
  | failed => exact callbackSet_of_none rfl
  | shown => exact fun c hc => hc

theorem callbackSet_of_part (h : d'.signingPart = d.signingPart) (hd : d.CallbackSet) : d'.CallbackSet := by
  simp only [Device.signingPart, Prod.mk.injEq] at h
  exact callbackSet_of_same h.2.2.2.2.1 h.2.2.2.2.2.1 hd

variable {o : Outcome} {s : TxState} {e : Event} {w : List Obs}

theorem Aside.callbackSet (h : Aside d d' w) (hd : d.CallbackSet) : d'.CallbackSet := by
  rcases h.screen with hkept | hreplaced
  · exact callbackSet_of_same hkept.flow hkept.callback hd
  · exact hreplaced.callback

theorem Registers.callbackSet {first : Bool} {cdata : Buffer} (h : Registers pf o first cdata d d' w)
    (hd : d.CallbackSet) : d'.CallbackSet := by
  have hbase : (d.registryBase first).CallbackSet := by
    cases first <;> exact hd
  cases h with
  | emptied _ part => exact callbackSet_of_part part hbase
  | kept _ _ part => exact callbackSet_of_part part hbase
  | added _ _ part => exact callbackSet_of_part part hbase

theorem DecodeEffect.callbackSet {accepted : Bool} (h : DecodeEffect pf o s d accepted d' w) (hd : d.CallbackSet) :
    d'.CallbackSet := by
  cases h with
  | rejected => exact callbackSet_of_none rfl
  | broken => exact hd
  | awaits => exact hd
  | displays _ _ _ _ _ _ ends => exact ends.callbackSet

theorem DataEffect.callbackSet {data : Bytes} {chunk : Nat} {r : Ending} (h : DataEffect pf o data chunk s d r d' w)
    (hd : d.CallbackSet) : d'.CallbackSet := by
  cases h with
  | dropped => exact callbackSet_of_none rfl
  | busy => exact hd
  | headerUnread => exact hd
  | started _ _ _ _ _ _ _ effect => exact effect.callbackSet hd
  | notHashed => exact hd
  | notCopied => exact hd
  | continued _ _ _ _ effect => exact effect.callbackSet hd

theorem SignEffect.callbackSet {data : Bytes} {v : Int} (h : SignEffect pf o data d v d' w) (hd : d.CallbackSet) :
    d'.CallbackSet := by
  obtain ⟨path, tx, rfl, _⟩ := h.frame
  exact hd

theorem Settles.callbackSet {r : Ending} (h : Settles d r d' w) (hd : d.CallbackSet) : d'.CallbackSet := by
  cases h with
  | resumes => exact hd
  | restarts => exact callbackSet_of_none rfl

theorem Moves.callbackSet (h : Moves pf s d e d' w) (hd : d.CallbackSet) : d'.CallbackSet := by
  have hwake : (wake d).CallbackSet := callbackSet_of_part (signingPart_wake d) hd
  cases h with
  | aside _ effect => exact effect.callbackSet hd
  | restarts => exact callbackSet_of_none rfl
  | registers _ _ effect settles => exact settles.callbackSet (effect.callbackSet hwake)
  | data _ _ _ effect settles => exact settles.callbackSet (effect.callbackSet hwake)
  | sign _ _ _ effect settles => exact settles.callbackSet (effect.callbackSet hwake)
  | approved => exact callbackSet_of_none rfl
  | confirmed _ _ ends => exact ends.callbackSet

end Keeps

section Invariant

variable {pf : Platform} {h : History Device Event Obs} {d : Device}

theorem run_callbackSet (run : Run (freeSystem pf) h d) : d.CallbackSet := by
  refine Run.invariant_all (I := fun _ d => d.CallbackSet) ?_ (fun h d e _ hd _ => ?_) run
  · rintro _ ⟨secret, rfl⟩
    exact callbackSet_of_none rfl
  · exact wp_mono (handle_moves pf e d.tx.represents_someState hd) (fun _ _ _ h => h.callbackSet hd)
      (fun _ _ _ h => h.elim) fun _ => trivial

/-- A step of a run, as a move from every state of the stream its context represents. -/
theorem moves_of_ret (run : Run (freeSystem pf) h d) {e : Event} {d' : Device} {w : List Obs}
    (ret : handle pf e d = .ret () d' w) {s : TxState} (hrep : d.tx.Represents s) : Moves pf s d e d' w := by
  have hmoves := handle_moves pf e hrep (run_callbackSet run)
  rwa [wp_of_ret ret] at hmoves

/-- The invariant rule over moves, for runs whose steps all meet a condition. -/
theorem free_invariant {C : Step Device Event Obs → Prop} {I : History Device Event Obs → Device → Prop}
    (hboot : ∀ secret, I [] (bootDevice secret))
    (hstep : ∀ h d e d' w, Run (freeSystem pf) h d → (∀ r ∈ h, C r) → I h d →
      (∀ s, d.tx.Represents s → Moves pf s d e d' w) → C ⟨d, e, w, d'⟩ → I (⟨d, e, w, d'⟩ :: h) d')
    (run : Run (freeSystem pf) h d) (hC : ∀ r ∈ h, C r) : I h d := by
  induction run with
  | start init =>
      obtain ⟨secret, rfl⟩ := init
      exact hboot secret
  | @step h d d' e w run _ ret ih =>
      obtain ⟨hlast, hrest⟩ := List.forall_mem_cons.mp hC
      exact hstep h d e d' w run hrest (ih hrest) (fun s hrep => moves_of_ret run ret hrep) hlast

theorem free_invariant_all {I : History Device Event Obs → Device → Prop}
    (hboot : ∀ secret, I [] (bootDevice secret))
    (hstep : ∀ h d e d' w, Run (freeSystem pf) h d → I h d →
      (∀ s, d.tx.Represents s → Moves pf s d e d' w) → I (⟨d, e, w, d'⟩ :: h) d')
    (run : Run (freeSystem pf) h d) : I h d :=
  free_invariant (C := fun _ => True) hboot (fun h d e d' w run _ hI hmoves _ => hstep h d e d' w run hI hmoves) run
    (fun _ _ => trivial)

end Invariant

/-- The context less its digest and its cursors into the saved outputs. -/
def SignTxCtx.decodedPart (tx : SignTxCtx) : SignTxCtx :=
  { tx with sha256 := none, sighashAll := [], displayIndex := 0, confirmedOutputs := 0, bufferOutputLen := 0 }

/-- A property of the context that only the decoder can break: it holds of an empty context and of one
whose header was not read, it does not depend on the digest and the cursors, and it holds again once a
chunk is decoded. -/
structure DecodedInvariant (pf : Platform) (P : SignTxCtx → Prop) : Prop where
  zero : P zeroSignTxCtx
  same : ∀ {tx tx' : SignTxCtx}, P tx → tx'.decodedPart = tx.decodedPart → P tx'
  unread : ∀ {tx : SignTxCtx}, tx.HeaderUnread → P tx
  started : ∀ {o : Outcome} {registry : TokenDataCtx} {changeLen : Nat} {changeInfo : List ChangeOutputInfo}
    {m tail : Bytes} {s' : TxState}, (∀ info ∈ changeInfo.take changeLen, info.path.WellFormed) →
    decodeVerdict (verifyChange pf o) registry (startedTx changeLen changeInfo m)
      (startedTx changeLen changeInfo m).startState = .rest s' tail →
    P ((startedTx changeLen changeInfo m).took s' tail)
  continued : ∀ {o : Outcome} {registry : TokenDataCtx} {tx : SignTxCtx} {s s' : TxState} {data m tail : Bytes},
    P tx → decodeVerdict (verifyChange pf o) registry ((tx.hashed m).received data) s = .rest s' tail →
    P (((tx.hashed m).received data).took s' tail)

section DecodedInvariant

variable {pf : Platform} {P : SignTxCtx → Prop} (hP : DecodedInvariant pf P)
include hP

theorem DecodedInvariant.cursors {start tx : SignTxCtx} (h : SkipsTo start tx) (hstart : P start) : P tx := by
  rw [h.frame]
  exact hP.same hstart rfl

theorem DecodedInvariant.displayEnds {d d' : Device} {w : List Obs} (h : DisplayEnds pf d d' w) (hd : P d.tx) :
    P d'.tx := by
  cases h with
  | checked check =>
      cases check with
      | parsed => exact hd
      | foreign => exact hP.zero
      | more => exact hP.same hd rfl
  | failed => exact hP.zero
  | shown => exact hd

theorem DecodedInvariant.decodeEffect {o : Outcome} {s : TxState} {d d' : Device} {accepted : Bool} {w : List Obs}
    (h : DecodeEffect pf o s d accepted d' w) (haccepted : accepted = true)
    (htook : ∀ s' tail, d.verdict pf o s = .rest s' tail → P (d.tx.took s' tail)) : P d'.tx := by
  cases h with
  | rejected => exact hP.zero
  | broken => cases haccepted
  | awaits _ verdict => exact htook _ _ verdict
  | displays _ verdict _ _ skips _ ends => exact hP.displayEnds ends (hP.cursors skips (htook _ _ verdict))

theorem DecodedInvariant.dataEffect {o : Outcome} {data : Bytes} {chunk : Nat} {s : TxState} {d d' : Device}
    {r : Ending} {w : List Obs} (h : DataEffect pf o data chunk s d r d' w) (hnonneg : ∀ v, r = .ret v → 0 ≤ v)
    (hd : P d.tx) : P d'.tx := by
  cases h with
  | dropped => exact hP.zero
  | busy => exact hP.zero
  | headerUnread _ _ unread => exact hP.unread unread
  | started _ _ _ paths _ _ _ effect =>
      exact hP.decodeEffect effect (accepted_of_nonneg hnonneg) fun _ _ verdict => hP.started paths verdict
  | notHashed => exact hd
  | notCopied => exact hP.same hd rfl
  | continued _ _ _ _ effect =>
      exact hP.decodeEffect effect (accepted_of_nonneg hnonneg) fun _ _ verdict => hP.continued hd verdict

theorem DecodedInvariant.settles {d d' : Device} {r : Ending} {w : List Obs} (h : Settles d r d' w)
    (hd : (∀ v, r = .ret v → 0 ≤ v) → P d.tx) : P d'.tx := by
  cases h with
  | resumes nonneg => exact hd nonneg
  | restarts => exact hP.zero

theorem DecodedInvariant.aside {d d' : Device} {w : List Obs} (h : Aside d d' w) (hd : P d.tx) : P d'.tx := by
  rcases h.session with hkept | hdropped
  · rw [hkept.tx]
    exact hd
  · rw [hdropped.tx]
    exact hP.zero

theorem DecodedInvariant.signEffect {o : Outcome} {data : Bytes} {d d' : Device} {v : Int} {w : List Obs}
    (h : SignEffect pf o data d v d' w) (hd : P d.tx) : P d'.tx := by
  have hdigest : ∀ {tx tx' done}, DigestStep pf o tx tx' done → P tx → P tx' := by
    intro tx tx' done hstep htx
    cases hstep with
    | kept => exact htx
    | unhashed => exact htx
    | half => exact hP.same htx rfl
    | full => exact hP.same htx rfl
  have hsighash : ∀ {d d' signature w}, Sighash pf o d signature d' w → P d.tx → P d'.tx := by
    intro d d' signature w hsighash hd
    cases hsighash with
    | keyless => exact hd
    | undigested _ step => exact hdigest step hd
    | unsigned _ step => exact hdigest step hd
    | signed _ step => exact hdigest step hd
  cases h with
  | unapproved => exact hd
  | unread => exact hd
  | pathless => exact hd
  | failed _ _ _ sighash =>
      have hfailed := hsighash sighash hd
      exact hfailed
  | signed _ _ _ sighash =>
      have hsigned := hsighash sighash hd
      exact hsigned

theorem DecodedInvariant.moves {s : TxState} {d d' : Device} {e : Event} {w : List Obs} (h : Moves pf s d e d' w)
    (hd : P d.tx) : P d'.tx := by
  have hentered : P d.entered.tx := by
    rw [entered_tx]
    exact hP.same hd rfl
  cases h with
  | aside _ effect => exact hP.aside effect hd
  | restarts => exact hP.zero
  | registers _ _ effect settles =>
      have hwake : P (wake d).tx := hP.aside (aside_wake d) hd
      have hdone := hP.aside effect.aside hwake
      exact hP.settles settles fun _ => hdone
  | data _ _ _ effect settles => exact hP.settles settles fun hnonneg => hP.dataEffect effect hnonneg hentered
  | sign _ _ _ effect settles => exact hP.settles settles fun _ => hP.signEffect effect hentered
  | approved => exact hd
  | confirmed _ skips ends => exact hP.displayEnds ends (hP.cursors skips (hP.same hd rfl))

theorem DecodedInvariant.run {h : History Device Event Obs} {d : Device} (run : Run (freeSystem pf) h d) : P d.tx := by
  apply free_invariant_all (I := fun _ d => P d.tx) _ _ run
  · exact fun _ => hP.zero
  · intro h d e d' w _ hd hmoves
    exact hP.moves (hmoves _ d.tx.represents_someState) hd

end DecodedInvariant

/-- The command is answered with a status word. A reply prepared before a new start of the application is
not sent. -/
def Answered (w : List Obs) (sw : Nat) : Prop := (∃ data, Obs.response data sw ∈ w) ∧ Obs.restart ∉ w

/-- The only thing seen is one reply. -/
theorem answered_reply_iff {data : Bytes} {sw sw' : Nat} : Answered [.response data sw] sw' ↔ sw = sw' := by
  constructor
  · rintro ⟨⟨data', hmem⟩, _⟩
    cases List.mem_singleton.mp hmem
    rfl
  · rintro rfl
    exact ⟨⟨data, List.mem_singleton_self _⟩, by simp⟩

section Play

variable (pf : Platform) (waits : Bool)

def Event.isCommand : Event → Bool
  | .apdu .. => true
  | _ => false

/-- The run some events lead to, when the host may send them and every step comes to its end. -/
def play : History Device Event Obs → Device → List Event → Option (History Device Event Obs × Device)
  | h, d, [] => some (h, d)
  | h, d, e :: rest =>
    if waits ∧ e.isCommand ∧ d.gIoState = .waiting then none
    else
      match handle pf e d with
      | .ret () d' w => play (⟨d, e, w, d'⟩ :: h) d' rest
      | .throw .. | .overrun => none

variable {pf waits}

theorem run_of_play (events : List Event) {h h' : History Device Event Obs} {d d' : Device}
    (run : Run (hostSystem pf waits) h d) (hplay : play pf waits h d events = some (h', d')) :
    Run (hostSystem pf waits) h' d' := by
  induction events generalizing h d with
  | nil =>
      cases hplay
      exact run
  | cons e rest ih =>
      unfold play at hplay
      split at hplay
      · cases hplay
      · rename_i hadmits
        split at hplay
        · rename_i d₁ w ret
          refine ih (.step run ?_ ret) hplay
          rintro hwaits o raw rfl hwaiting
          exact hadmits ⟨hwaits, rfl, hwaiting⟩
        · cases hplay
        · cases hplay

/-- The newest step of a run played to its last event. -/
theorem play_last (events : List Event) (last : Event) {h h' : History Device Event Obs} {d d' : Device}
    (hplay : play pf waits h d (events ++ [last]) = some (h', d')) :
    ∃ h₁ r, h' = r :: h₁ ∧ r.event = last ∧ r.post = d' := by
  induction events generalizing h d with
  | nil =>
      rw [List.nil_append] at hplay
      unfold play at hplay
      split at hplay
      · cases hplay
      · split at hplay
        · cases hplay
          exact ⟨h, _, rfl, rfl, rfl⟩
        · cases hplay
        · cases hplay
  | cons e rest ih =>
      rw [List.cons_append] at hplay
      unfold play at hplay
      split at hplay
      · cases hplay
      · split at hplay
        · exact ih hplay
        · cases hplay
        · cases hplay

/-- A run whose last step has a property that its events are seen to lead to. -/
theorem exists_step_of_play (pf : Platform) (waits : Bool) (secret : Bytes) (events : List Event) (last : Event)
    (P : History Device Event Obs → Step Device Event Obs → Bool)
    (hplay : (play pf waits [] (bootDevice secret) (events ++ [last])).any (fun
      | (r :: h, _) => P h r
      | ([], _) => false) = true) :
    ∃ h r, r.event = last ∧ Run (hostSystem pf waits) (r :: h) r.post ∧ P h r = true := by
  cases hrun : play pf waits [] (bootDevice secret) (events ++ [last]) with
  | none =>
      rw [hrun] at hplay
      cases hplay
  | some result =>
      obtain ⟨h', d'⟩ := result
      obtain ⟨h, r, rfl, hevent, rfl⟩ := play_last events last hrun
      rw [hrun] at hplay
      exact ⟨h, r, hevent, run_of_play _ (.start ⟨secret, rfl⟩) hrun, hplay⟩

end Play

/-- A SIGN_TX data command of a host with the SDK at work. -/
def signTxData (chunk : UInt8) (data : Bytes) : Event :=
  .apdu (.allOk []) ([0xE0, 0x06, 0, chunk, UInt8.ofNat data.length] ++ data)

/-- A SEND_TOKEN_DATA command, the first of a series when its argument is 0. -/
def sendTokenData (p1 : UInt8) (data : Bytes) : Event :=
  .apdu (.allOk []) ([0xE0, 0x08, p1, 0, UInt8.ofNat data.length] ++ data)

def press (choice : Bool) : Event := .press (.allOk []) choice

/-- The bytes of an output of value 1 in HTR to a public key hash of one byte repeated. -/
def sampleOutput (byte : UInt8) : Bytes :=
  [0, 0, 0, 1, 0, 0, 25, 0x76, 0xA9, 20] ++ List.replicate 20 byte ++ [0x88, 0xAC]

/-- The bytes of an output of value 1 in HTR to the key of every path, under the counting hashes. -/
def sampleChangeOutput : Bytes :=
  [0, 0, 0, 1, 0, 0, 25, 0x76, 0xA9, 20] ++ List.replicate 19 0 ++ [2, 0x88, 0xAC]

/-- The first bytes of a transaction without tokens and inputs, behind a change list of the output of index 1. -/
def sampleStart (outputsLen : UInt8) : Bytes := [1, 1, 1, 1, 0, 0, 0, 0, 0, 0, 0, 0, outputsLen]

end HathorApp
