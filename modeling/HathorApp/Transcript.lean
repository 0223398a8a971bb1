import HathorApp.OutputCodec

/-!
The elements of a transaction, as the decoder takes them: the UIDs, the inputs and the outputs, in this order. What a
state of the stream has taken are the elements it has counted, and their bytes are those taken off the stream.
-/

namespace HathorApp

open StreamDecoder

/-- UIDs, inputs without data and outputs. -/
structure TxElements where
  uids : List Bytes
  inputs : List Bytes
  outputs : List SerializedOutput
  length_uid : ∀ uid ∈ uids, uid.length = tokenUidLen
  input_empty : ∀ input ∈ inputs, input.length = txInputLen ∧ readU16Be input 33 = 0

namespace TxElements

def serialize (e : TxElements) : Bytes :=
  e.uids.flatten ++ e.inputs.flatten ++ (e.outputs.map SerializedOutput.serialize).flatten

/-- The outputs, numbered in their order. -/
def numbered (e : TxElements) : List TxOutput := e.outputs.mapIdx fun i o => { o.output with index := i }

def empty : TxElements := ⟨[], [], [], fun _ h => absurd h List.not_mem_nil, fun _ h => absurd h List.not_mem_nil⟩

theorem length_numbered (e : TxElements) : e.numbered.length = e.outputs.length := List.length_mapIdx

theorem index_numbered {e : TxElements} {i : Nat} {output : TxOutput} (h : e.numbered[i]? = some output) :
    output.index = i := by
  unfold numbered at h
  rw [List.getElem?_mapIdx, Option.map_eq_some_iff] at h
  obtain ⟨o, _, rfl⟩ := h
  rfl

end TxElements

/-- The state has taken the elements, of a transaction with so many tokens and inputs. -/
structure TxState.Has (s : TxState) (tokensLen inputsLen : Nat) (e : TxElements) : Prop where
  tokens : s.tokens.length = e.uids.length
  allTokens : s.tokens.length + s.remainingTokens = tokensLen
  allInputs : e.inputs.length + s.remainingInputs = inputsLen
  outputs : s.outputs = e.numbered
  tokensFirst : 0 < s.remainingTokens → e.inputs = [] ∧ e.outputs = []
  inputsFirst : 0 < s.remainingInputs → e.outputs = []

theorem has_start (tokensLen inputsLen : Nat) :
    TxState.Has ⟨[], tokensLen, inputsLen, []⟩ tokensLen inputsLen .empty :=
  ⟨rfl, Nat.zero_add _, Nat.zero_add _, rfl, fun _ => ⟨rfl, rfl⟩, fun _ => rfl⟩

section Machine

variable {verify : ChangeOutputInfo → TxOutput → Option Bool} {registry : TokenDataCtx}
  {changes : List ChangeOutputInfo} {outputsLen tokensLen inputsLen : Nat} {s s' : TxState} {e : TxElements}

theorem TxState.Has.element {l : Bytes} {n : Nat} (h : s.Has tokensLen inputsLen e)
    (helement : Element verify registry changes outputsLen s l s' n) :
    ∃ e' : TxElements, s'.Has tokensLen inputsLen e' ∧ e'.serialize = e.serialize ++ l.take n := by
  have hle := helement.le
  have htokens := h.tokens
  have hallTokens := h.allTokens
  have hallInputs := h.allInputs
  cases helement with
  | token pending complete =>
      obtain ⟨hinputs, houtputs⟩ := h.tokensFirst pending
      have huid : (l.take tokenUidLen).length = tokenUidLen := List.length_take_of_le complete
      refine ⟨⟨e.uids ++ [l.take tokenUidLen], e.inputs, e.outputs, ?_, e.input_empty⟩, ⟨?_, ?_, hallInputs, h.outputs,
        fun _ => ⟨hinputs, houtputs⟩, fun _ => houtputs⟩, ?_⟩
      · intro uid hmem
        rcases List.mem_append.mp hmem with hold | hnew
        · exact e.length_uid uid hold
        · rw [List.mem_singleton.mp hnew, huid]
      · simp only [List.length_append, List.length_singleton, htokens]
      · simp only [List.length_append, List.length_singleton]
        omega
      · simp [TxElements.serialize, hinputs, houtputs]
  | input tokens pending complete noData =>
      have houtputs := h.inputsFirst pending
      have hinput : (l.take txInputLen).length = txInputLen := List.length_take_of_le complete
      have hdata : readU16Be (l.take txInputLen) 33 = 0 := by
        have hlen : 33 + 1 < (l.take txInputLen).length := by
          rw [hinput]
          decide
        have happend := readU16Be_append (l.drop txInputLen) hlen
        rw [List.take_append_drop, noData] at happend
        exact happend.symm
      refine ⟨⟨e.uids, e.inputs ++ [l.take txInputLen], e.outputs, e.length_uid, ?_⟩, ⟨htokens, hallTokens, ?_, h.outputs,
        fun hpending => ?_, fun _ => houtputs⟩, ?_⟩
      · intro input hmem
        rcases List.mem_append.mp hmem with hold | hnew
        · exact e.input_empty input hold
        · rw [List.mem_singleton.mp hnew]
          exact ⟨hinput, hdata⟩
      · simp only [List.length_append, List.length_singleton]
        omega
      · exact absurd tokens (Nat.ne_of_gt hpending)
      · simp [TxElements.serialize, houtputs]
  | @output parsed output _ tokens inputs _ complete index =>
      obtain ⟨o, r, rfl, rfl, rfl⟩ := exists_serialize complete
      refine ⟨⟨e.uids, e.inputs, e.outputs ++ [o], e.length_uid, e.input_empty⟩, ⟨htokens, hallTokens, hallInputs, ?_,
        fun hpending => absurd tokens (Nat.ne_of_gt hpending), fun hpending => absurd inputs (Nat.ne_of_gt hpending)⟩, ?_⟩
      · have hcount : s.outputs.length = e.outputs.length := by rw [h.outputs, e.length_numbered]
        rw [index, hcount, h.outputs]
        simp [TxElements.numbered, List.mapIdx_append]
      · simp [TxElements.serialize]

/-- A run takes the elements whose bytes it takes off the stream. -/
theorem TxState.Has.run {l tail : Bytes} (h : s.Has tokensLen inputsLen e)
    (hrun : (txMachine verify registry changes outputsLen).run s l = .rest s' tail) :
    ∃ e' : TxElements, s'.Has tokensLen inputsLen e' ∧ e'.serialize ++ tail = e.serialize ++ l := by
  refine Machine.run_invariant
    (P := fun s₁ l₁ => ∃ e₁ : TxElements, s₁.Has tokensLen inputsLen e₁ ∧ e₁.serialize ++ l₁ = e.serialize ++ l) ?_
    ⟨e, h, rfl⟩ hrun
  rintro s₁ l₁ s₂ n ⟨e₁, h₁, hbytes⟩ hnext
  obtain ⟨e₂, h₂, htaken⟩ := h₁.element (element_of_nextElement hnext)
  refine ⟨e₂, h₂, ?_⟩
  rw [htaken, List.append_assoc, List.take_append_drop]
  exact hbytes

/-- No more outputs are taken than are announced. -/
theorem run_outputs_le {l tail : Bytes} (h : s.outputs.length ≤ outputsLen)
    (hrun : (txMachine verify registry changes outputsLen).run s l = .rest s' tail) : s'.outputs.length ≤ outputsLen := by
  refine Machine.run_invariant (P := fun s₁ _ => s₁.outputs.length ≤ outputsLen) ?_ h hrun
  intro s₁ l₁ s₂ n hle hnext
  cases element_of_nextElement hnext with
  | token => exact hle
  | input => exact hle
  | output _ _ pending =>
      rw [List.length_append, List.length_singleton]
      exact pending

/-- Every output that is taken was checked against the change list. -/
theorem run_verifies {l tail : Bytes}
    (hrun : (txMachine verify registry changes outputsLen).run s l = .rest s' tail) :
    ∀ output ∈ s'.outputs, output ∈ s.outputs ∨ ChangeVerifies verify changes output := by
  refine Machine.run_invariant (P := fun s₁ _ => ∀ output ∈ s₁.outputs, output ∈ s.outputs ∨
    ChangeVerifies verify changes output) ?_ (fun output h => Or.inl h) hrun
  intro s₁ l₁ s₂ n hall hnext
  cases element_of_nextElement hnext with
  | token => exact hall
  | input => exact hall
  | output _ _ _ _ _ _ _ verifies =>
      intro output hmem
      rcases List.mem_append.mp hmem with hold | hnew
      · exact hall output hold
      · rw [List.mem_singleton.mp hnew]
        exact Or.inr verifies

/-- When everything announced has been taken, nothing is left. -/
theorem run_tail_nil {l tail : Bytes}
    (hrun : (txMachine verify registry changes outputsLen).run s l = .rest s' tail) (htokens : s'.remainingTokens = 0)
    (hinputs : s'.remainingInputs = 0) (houtputs : s'.outputs.length = outputsLen) : tail = [] := by
  rcases Machine.run_stops hrun with hnil | hmore
  · exact hnil
  · rw [txMachine_next] at hmore
    unfold nextElement at hmore
    rw [if_neg (by omega), if_neg (by omega), if_neg (by omega)] at hmore
    cases hmore

end Machine

end HathorApp
