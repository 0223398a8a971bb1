import HathorApp.Transcript

/-!
A cut through the stream of a transaction. What has been decoded of the bytes before it are the outputs that are
complete there, with the whole token table if there is one. An element that is cut is asked to be completed.
-/

namespace HathorApp

open StreamDecoder

namespace TxElements

/-- The bytes up to the end of the first outputs. -/
def upTo (e : TxElements) (k : Nat) : Bytes :=
  e.uids.flatten ++ e.inputs.flatten ++ ((e.outputs.take k).map SerializedOutput.serialize).flatten

theorem upTo_length (e : TxElements) : e.upTo e.outputs.length = e.serialize := by
  unfold upTo
  rw [List.take_length]
  rfl

theorem upTo_succ (e : TxElements) {k : Nat} {o : SerializedOutput} (h : e.outputs[k]? = some o) :
    e.upTo (k + 1) = e.upTo k ++ o.serialize := by
  unfold upTo
  rw [List.take_add_one, h, Option.toList_some, List.map_append, List.flatten_append, List.append_assoc]
  simp

theorem upTo_append (e : TxElements) (k : Nat) :
    e.upTo k ++ ((e.outputs.drop k).map SerializedOutput.serialize).flatten = e.serialize := by
  unfold upTo serialize
  rw [List.append_assoc]
  congr 1
  rw [← List.flatten_append, ← List.map_append, List.take_append_drop]

/-- The number of outputs that are complete within so many bytes. -/
def complete (e : TxElements) (n : Nat) : Nat := Nat.findGreatest (fun k => (e.upTo k).length ≤ n) e.outputs.length

theorem complete_le (e : TxElements) (n : Nat) : e.complete n ≤ e.outputs.length := Nat.findGreatest_le _

theorem length_upTo_complete {e : TxElements} {n : Nat} (h : (e.upTo 0).length ≤ n) : (e.upTo (e.complete n)).length ≤ n :=
  Nat.findGreatest_spec (P := fun k => (e.upTo k).length ≤ n) (Nat.zero_le _) h

theorem lt_length_upTo {e : TxElements} {n : Nat} (h : e.complete n < e.outputs.length) :
    n < (e.upTo (e.complete n + 1)).length :=
  Nat.not_le.mp (Nat.findGreatest_is_greatest (P := fun k => (e.upTo k).length ≤ n) (Nat.lt_succ_self _) h)

theorem complete_of_short {e : TxElements} {n : Nat} (h : n < (e.upTo 0).length) : e.complete n = 0 := by
  apply Nat.findGreatest_eq_zero_iff.mpr
  intro k _ _ hle
  have hfirst : (e.upTo 0).length ≤ (e.upTo k).length := by
    simp [upTo]
  omega

/-- All of them are in all of its bytes. -/
theorem complete_length (e : TxElements) : e.complete e.serialize.length = e.outputs.length := by
  apply Nat.le_antisymm (e.complete_le _)
  apply Nat.le_findGreatest (Nat.le_refl _)
  rw [e.upTo_length]

/-- The registry slots of the tokens. -/
def slots (e : TxElements) (registry : TokenDataCtx) : List Nat := e.uids.filterMap (findTokenRegistryIndex registry)

theorem length_slots {e : TxElements} {registry : TokenDataCtx}
    (hknown : ∀ uid ∈ e.uids, findTokenRegistryIndex registry uid ≠ none) : (e.slots registry).length = e.uids.length := by
  unfold slots
  generalize e.uids = uids at hknown
  induction uids with
  | nil => rfl
  | cons uid uids ih =>
      obtain ⟨hfirst, hrest⟩ := List.forall_mem_cons.mp hknown
      obtain ⟨slot, hslot⟩ := Option.ne_none_iff_exists'.mp hfirst
      rw [List.filterMap_cons_some hslot, List.length_cons, List.length_cons, ih hrest]

/-- The decoder accepts the elements. -/
structure Accepted (e : TxElements) (verify : ChangeOutputInfo → TxOutput → Option Bool) (registry : TokenDataCtx)
    (changes : List ChangeOutputInfo) : Prop where
  known : ∀ uid ∈ e.uids, findTokenRegistryIndex registry uid ≠ none
  noAuthority : ∀ o ∈ e.outputs, o.output.tokenData &&& tokenDataAuthorityMask = 0
  inTable : ∀ o ∈ e.outputs, o.output.tokenIndex ≤ e.uids.length
  verifies : ∀ output ∈ e.numbered, ChangeVerifies verify changes output

end TxElements

section Cut

variable {verify : ChangeOutputInfo → TxOutput → Option Bool} {registry : TokenDataCtx}
  {changes : List ChangeOutputInfo} {outputsLen : Nat}

theorem run_uids (uids : List Bytes) (hlength : ∀ uid ∈ uids, uid.length = tokenUidLen)
    (hknown : ∀ uid ∈ uids, findTokenRegistryIndex registry uid ≠ none) (tokens : List Nat) (inputsLen : Nat) (r : Bytes) :
    (txMachine verify registry changes outputsLen).run ⟨tokens, uids.length, inputsLen, []⟩ (uids.flatten ++ r) =
      (txMachine verify registry changes outputsLen).run
        ⟨tokens ++ uids.filterMap (findTokenRegistryIndex registry), 0, inputsLen, []⟩ r := by
  induction uids generalizing tokens with
  | nil => rw [List.filterMap_nil, List.append_nil]; rfl
  | cons uid uids ih =>
      obtain ⟨huid, hrest⟩ := List.forall_mem_cons.mp hlength
      obtain ⟨hfirst, hothers⟩ := List.forall_mem_cons.mp hknown
      obtain ⟨slot, hslot⟩ := Option.ne_none_iff_exists'.mp hfirst
      have helement : Element verify registry changes outputsLen ⟨tokens, uids.length + 1, inputsLen, []⟩
          (uid ++ (uids.flatten ++ r)) ⟨tokens ++ [slot], uids.length, inputsLen, []⟩ tokenUidLen := by
        refine .token (Nat.succ_pos _) ?_ ?_
        · rw [List.length_append, huid]
          exact Nat.le_add_right _ _
        · rw [List.take_left' huid]
          exact hslot
      rw [List.flatten_cons, List.append_assoc, List.length_cons, Machine.run_of_element (nextElement_of_element helement),
        List.drop_left' huid, ih hrest hothers, List.filterMap_cons_some hslot, List.append_assoc, List.singleton_append]

theorem run_inputs (inputs : List Bytes) (hinputs : ∀ input ∈ inputs, input.length = txInputLen ∧ readU16Be input 33 = 0)
    (tokens : List Nat) (r : Bytes) :
    (txMachine verify registry changes outputsLen).run ⟨tokens, 0, inputs.length, []⟩ (inputs.flatten ++ r) =
      (txMachine verify registry changes outputsLen).run ⟨tokens, 0, 0, []⟩ r := by
  induction inputs with
  | nil => rfl
  | cons input inputs ih =>
      obtain ⟨⟨hlength, hdata⟩, hrest⟩ := List.forall_mem_cons.mp hinputs
      have helement : Element verify registry changes outputsLen ⟨tokens, 0, inputs.length + 1, []⟩
          (input ++ (inputs.flatten ++ r)) ⟨tokens, 0, inputs.length, []⟩ txInputLen := by
        refine .input rfl (Nat.succ_pos _) ?_ ?_
        · rw [List.length_append, hlength]
          exact Nat.le_add_right _ _
        · rw [readU16Be_append _ (by rw [hlength]; decide)]
          exact hdata
      rw [List.flatten_cons, List.append_assoc, List.length_cons, Machine.run_of_element (nextElement_of_element helement),
        List.drop_left' hlength, ih hrest]

variable {e : TxElements} (h : e.Accepted verify registry changes)
include h

/-- An output that is complete. -/
theorem element_output {k : Nat} {o : SerializedOutput} (hk : e.outputs[k]? = some o) (r : Bytes) :
    Element verify registry changes e.outputs.length ⟨e.slots registry, 0, 0, e.numbered.take k⟩ (o.serialize ++ r)
      ⟨e.slots registry, 0, 0, e.numbered.take (k + 1)⟩ o.serialize.length := by
  have hless : k < e.outputs.length := (List.getElem?_eq_some_iff.mp hk).1
  have hmem := List.mem_of_getElem? hk
  have hnumbered : e.numbered[k]? = some { o.output with index := k } := by
    unfold TxElements.numbered
    rw [List.getElem?_mapIdx, hk]
    rfl
  have hcount : (e.numbered.take k).length = k := List.length_take_of_le (by rw [e.length_numbered]; omega)
  have htaken : e.numbered.take (k + 1) = e.numbered.take k ++ [{ o.output with index := k }] := by
    rw [List.take_add_one, hnumbered]
    rfl
  have hslots := TxElements.length_slots h.known
  rw [htaken]
  refine .output rfl rfl ?_ (parseOutput_serialize o r) ?_ (h.noAuthority o hmem) ?_
    (h.verifies _ (List.mem_of_getElem? hnumbered))
  · rw [hcount]
    exact hless
  · rw [hcount]
  · rw [hslots]
    exact h.inTable o hmem

theorem run_upTo {k : Nat} (hk : k ≤ e.outputs.length) (r : Bytes) :
    (txMachine verify registry changes e.outputs.length).run ⟨[], e.uids.length, e.inputs.length, []⟩ (e.upTo k ++ r) =
      (txMachine verify registry changes e.outputs.length).run ⟨e.slots registry, 0, 0, e.numbered.take k⟩ r := by
  induction k generalizing r with
  | zero =>
      have hbytes : e.upTo 0 ++ r = e.uids.flatten ++ (e.inputs.flatten ++ r) := by
        unfold TxElements.upTo
        simp
      rw [hbytes, run_uids e.uids e.length_uid h.known, run_inputs e.inputs e.input_empty]
      rfl
  | succ k ih =>
      obtain ⟨o, ho⟩ : ∃ o, e.outputs[k]? = some o := ⟨_, List.getElem?_eq_getElem hk⟩
      rw [e.upTo_succ ho, List.append_assoc, ih (by omega),
        Machine.run_of_element (nextElement_of_element (element_output h ho r)), List.drop_left]

/-- The outputs decoded before a cut are those that are complete there, with the whole token table if there is one. -/
theorem run_cut (n : Nat) :
    ∃ s tail, (txMachine verify registry changes e.outputs.length).run ⟨[], e.uids.length, e.inputs.length, []⟩
        (e.serialize.take n) = .rest s tail ∧
      s.outputs = e.numbered.take (e.complete n) ∧ (0 < e.complete n → s.tokens = e.slots registry) := by
  have hsplit := e.upTo_append (e.complete n)
  by_cases hshort : n < (e.upTo 0).length
  · -- the cut is before the outputs
    have hnone := TxElements.complete_of_short hshort
    have htake : e.serialize.take n = (e.upTo 0).take n := by
      rw [← e.upTo_append 0, List.take_append_of_le_length (Nat.le_of_lt hshort)]
    have hwhole := run_upTo h (Nat.zero_le _) []
    rw [List.append_nil, Machine.run_nil, ← List.take_append_drop n (e.upTo 0), Machine.run_append] at hwhole
    rw [htake, hnone]
    cases hrun : (txMachine verify registry changes e.outputs.length).run ⟨[], e.uids.length, e.inputs.length, []⟩
        ((e.upTo 0).take n) with
    | rejected =>
        rw [hrun] at hwhole
        cases hwhole
    | rest s tail =>
        rw [hrun, Machine.feed_rest] at hwhole
        have hgrow := run_outputs_grow hwhole
        rw [List.take_zero, List.prefix_nil] at hgrow
        exact ⟨s, tail, rfl, by rw [hgrow, List.take_zero], fun hpos => absurd hpos (Nat.lt_irrefl 0)⟩
  · have hle := e.length_upTo_complete (Nat.not_lt.mp hshort)
    have htake : e.serialize.take n = e.upTo (e.complete n) ++
        (((e.outputs.drop (e.complete n)).map SerializedOutput.serialize).flatten).take (n - (e.upTo (e.complete n)).length) := by
      rw [← hsplit, List.take_append, List.take_of_length_le hle]
    rw [htake, run_upTo h (e.complete_le n)]
    by_cases hpending : e.complete n < e.outputs.length
    · -- the next output is cut
      obtain ⟨o, ho⟩ : ∃ o, e.outputs[e.complete n]? = some o := ⟨_, List.getElem?_eq_getElem hpending⟩
      have hbehind := e.lt_length_upTo hpending
      rw [e.upTo_succ ho, List.length_append] at hbehind
      have hdrop : e.outputs.drop (e.complete n) = o :: e.outputs.drop (e.complete n + 1) := by
        rw [List.drop_eq_getElem_cons hpending]
        congr 1
        exact Option.some.inj ((List.getElem?_eq_getElem hpending).symm.trans ho)
      have hcut : (((e.outputs.drop (e.complete n)).map SerializedOutput.serialize).flatten).take
          (n - (e.upTo (e.complete n)).length) = o.serialize.take (n - (e.upTo (e.complete n)).length) := by
        rw [hdrop, List.map_cons, List.flatten_cons, List.take_append_of_le_length (by omega)]
      have helement := nextElement_of_element (element_output h ho [])
      rw [List.append_nil, ← List.take_append_drop (n - (e.upTo (e.complete n)).length) o.serialize] at helement
      rw [hcut]
      refine ⟨_, _, Machine.run_of_more
        (Machine.next_of_cut (r := o.serialize.drop (n - (e.upTo (e.complete n)).length)) helement ?_),
        rfl, fun _ => rfl⟩
      rw [List.length_take, List.take_append_drop]
      omega
    · have hall : e.complete n = e.outputs.length := Nat.le_antisymm (e.complete_le n) (Nat.not_lt.mp hpending)
      rw [hall, List.drop_length, List.map_nil, List.flatten_nil, List.take_nil, Machine.run_nil]
      exact ⟨_, _, rfl, rfl, fun _ => rfl⟩

end Cut

end HathorApp
