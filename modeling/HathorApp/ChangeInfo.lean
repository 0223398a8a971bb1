import HathorApp.ByteNumeral
import HathorApp.FirstChunk

/-!
The change list in front of the first chunk, in the two forms of `read_change_info`. A list of the counted form
is read back, whatever follows it. A single entry of the older form is read as the counted one
is: the path copied behind its length is the one that stands there.
-/

namespace HathorApp

open ProgramLogic PositionalNumeral

/-- The bytes of an entry: an index, the number of levels and the levels. -/
def ChangeOutputInfo.serialize (info : ChangeOutputInfo) : Bytes :=
  UInt8.ofNat info.index :: UInt8.ofNat info.path.length :: info.path.flatMap (bytesBe 4)

/-- The counted form. -/
def serializeChangeInfo (infos : List ChangeOutputInfo) : Bytes :=
  1 :: UInt8.ofNat infos.length :: infos.flatMap ChangeOutputInfo.serialize

/-- The older form of one entry: the number of levels in the version byte, the index, and what stands behind them. -/
def oldProtoBytes (n : Nat) (index : UInt8) (rest : Bytes) : Bytes := UInt8.ofNat (0x80 ||| n) :: index :: rest

/-- The counted form of one entry. -/
def v1ProtoBytes (n : Nat) (index : UInt8) (rest : Bytes) : Bytes := 1 :: 1 :: index :: UInt8.ofNat n :: rest

/-- An entry of an index byte and a path that is accepted. -/
structure ChangeOutputInfo.Encodable (info : ChangeOutputInfo) : Prop where
  index : info.index < 2 ^ 8
  path : info.path.WellFormed
  levels : ∀ level ∈ info.path, level < 2 ^ 32

/-- What is left behind the cursor, which `sighash_all_hash` hashes. -/
def Buffer.unread (cdata : Buffer) : Bytes := (cdata.ptr.drop cdata.offset).take (cdata.size - cdata.offset)

theorem unread_at (data : Bytes) (offset : Nat) : (Buffer.at data offset).unread = data.drop offset := by
  apply List.take_of_length_le
  rw [List.length_drop]
  exact Nat.le_refl _

/-- The levels of a path from one on. -/
theorem drop_levels (path : Bip32Path) (r : Bytes) {i : Nat} (hi : i ≤ path.length) :
    (path.flatMap (bytesBe 4) ++ r).drop (4 * i) = (path.drop i).flatMap (bytesBe 4) ++ r := by
  induction path generalizing i with
  | nil =>
      have hzero : i = 0 := Nat.le_zero.mp hi
      rw [hzero]
      rfl
  | cons level path ih =>
      cases i with
      | zero => rfl
      | succ i =>
          have hlength : 4 * (i + 1) = (bytesBe 4 level).length + 4 * i := by
            rw [length_bytesBe]
            ring
          rw [List.flatMap_cons, List.append_assoc, hlength, List.drop_length_add_append, List.drop_succ_cons]
          exact ih (Nat.le_of_succ_le_succ hi)

/-- The levels of a serialized path are read back. -/
theorem bip32LevelsRead_serialize (c : UInt8) {path : Bip32Path} (hlevels : ∀ level ∈ path, level < 2 ^ 32) (r : Bytes) :
    bip32LevelsRead (c :: (path.flatMap (bytesBe 4) ++ r)) path.length = path := by
  unfold bip32LevelsRead
  apply List.ext_getElem
  · rw [List.length_map, List.length_range]
  · intro i hi hi'
    have hlevel := hlevels _ (List.getElem_mem hi')
    have hdrop : (c :: (path.flatMap (bytesBe 4) ++ r)).drop (1 + 4 * i) =
        bytesBe 4 path[i] ++ ((path.drop (i + 1)).flatMap (bytesBe 4) ++ r) := by
      rw [Nat.add_comm, List.drop_succ_cons, drop_levels path r (Nat.le_of_lt hi'), List.drop_eq_getElem_cons hi',
        List.flatMap_cons, List.append_assoc]
    have hroom : 1 + 4 * i + 4 ≤ (c :: (path.flatMap (bytesBe 4) ++ r)).length := by
      rw [List.length_cons, List.length_append, length_levels]
      omega
    rw [List.getElem_map, List.getElem_range, readU32Be_eq hroom, hdrop, List.take_left' (length_bytesBe 4 _)]
    exact byteValue_bytesBe (by simpa using hlevel)

/-- A serialized path is accepted. -/
theorem bip32PathRead_serialize {path : Bip32Path} (hpath : path.WellFormed) (hlevels : ∀ level ∈ path, level < 2 ^ 32)
    (r : Bytes) {inLen : Nat} (hroom : 4 * path.length + 1 ≤ inLen) (out : Bip32Path) :
    bip32PathRead (UInt8.ofNat path.length :: (path.flatMap (bytesBe 4) ++ r)) inLen out = (true, path) := by
  have hdepth : path.length ≤ 5 := hpath.depth
  have hbyte : byteAt (UInt8.ofNat path.length :: (path.flatMap (bytesBe 4) ++ r)) 0 = path.length :=
    UInt8.toNat_ofNat_of_lt' (Nat.lt_of_le_of_lt hdepth (by decide))
  have hmax : maxBip32Path = 5 := rfl
  have hindex : ¬(path.length > 4 ∧ path.getD 4 0 > maxDerivationIndex) := fun h =>
    absurd h.2 (Nat.not_lt.mpr (hpath.index h.1))
  have hchange : ¬(path.length > 3 ∧ path.getD 3 0 > 1) := fun h => absurd h.2 (Nat.not_lt.mpr (hpath.change h.1))
  unfold bip32PathRead
  rw [hbyte, bip32LevelsRead_serialize _ hlevels, if_neg (by omega)]
  dsimp only
  rw [if_neg hindex, if_neg hchange]

/-- A path is read from its own bytes only. -/
theorem bip32PathRead_congr {input input' : Bytes} {inLen inLen' : Nat} (hfirst : byteAt input 0 = byteAt input' 0)
    (hbytes : ∀ i < 4 * byteAt input 0, byteAt input (1 + i) = byteAt input' (1 + i))
    (hroom : byteAt input 0 * 4 + 1 ≤ inLen) (hroom' : byteAt input 0 * 4 + 1 ≤ inLen') (out : Bip32Path) :
    bip32PathRead input inLen out = bip32PathRead input' inLen' out := by
  have hlevels : bip32LevelsRead input (byteAt input 0) = bip32LevelsRead input' (byteAt input 0) := by
    apply List.map_congr_left
    intro i hi
    have hlevel : ∀ j < 4, byteAt input (1 + 4 * i + j) = byteAt input' (1 + 4 * i + j) := by
      intro j hj
      rw [List.mem_range] at hi
      rw [Nat.add_assoc]
      exact hbytes (4 * i + j) (by omega)
    unfold readU32Be
    rw [hlevel 0 (by decide), hlevel 1 (by decide), hlevel 2 (by decide), hlevel 3 (by decide)]
  have hguard : (inLen < 1 ∨ byteAt input 0 > maxBip32Path ∨ byteAt input 0 * 4 + 1 > inLen) =
      (inLen' < 1 ∨ byteAt input 0 > maxBip32Path ∨ byteAt input 0 * 4 + 1 > inLen') := propext (by omega)
  unfold bip32PathRead
  rw [← hfirst, hlevels]
  simp only [hguard]

section Read

variable {data r : Bytes} {offset : Nat}

theorem bufferReadU8_head {c : UInt8} (h : data.drop offset = c :: r) (hn : offset + 1 < 2 ^ 32) :
    bufferReadU8 (.at data offset) = (true, c.toNat, .at data (offset + 1)) ∧ data.drop (offset + 1) = r := by
  have hlength := congrArg List.length h
  have hfirst : data[offset]? = some c := by
    rw [← List.head?_drop, h]
    rfl
  rw [List.length_drop, List.length_cons] at hlength
  constructor
  · rw [bufferReadU8_at hn, if_neg (by omega), byteAt, List.getD_eq_getElem?_getD, hfirst]
    rfl
  · rw [← List.drop_drop, h]
    rfl

theorem bufferReadBip32Path_serialize {path : Bip32Path} (hpath : path.WellFormed)
    (hlevels : ∀ level ∈ path, level < 2 ^ 32) (hn : offset + 21 < 2 ^ 32)
    (h : data.drop offset = UInt8.ofNat path.length :: (path.flatMap (bytesBe 4) ++ r)) (out : Bip32Path) :
    bufferReadBip32Path (.at data offset) out = (true, path, .at data (offset + (1 + 4 * path.length))) ∧
      data.drop (offset + (1 + 4 * path.length)) = r := by
  have hdepth : path.length ≤ 5 := hpath.depth
  have hlength := congrArg List.length h
  rw [List.length_drop, List.length_cons, List.length_append, length_levels] at hlength
  have hroom : 4 * path.length + 1 ≤ data.length - offset := by omega
  have hread := bip32PathRead_serialize hpath hlevels r hroom out
  have hseek : bufferSeekCur (.at data offset) (1 + 4 * path.length) = _ := bufferSeekCur_at (by omega) (by omega)
  constructor
  · unfold bufferReadBip32Path
    simp only [Buffer.at, h, hread]
    exact congrArg (fun x => (true, path, x.2)) hseek
  · rw [← List.drop_drop, h, Nat.add_comm 1, List.drop_succ_cons, List.drop_left' (length_levels path)]

/-- Storing an entry before the others. -/
theorem take_set_append {α : Type} {l : List α} {i n : Nat} {a : α} (as : List α) (hi : i < l.length) :
    (l.set i a).take (i + 1) ++ as ++ (l.set i a).drop (i + 1 + n) = l.take i ++ (a :: as) ++ l.drop (i + (n + 1)) := by
  have hlength : i < (l.set i a).length := by rwa [List.length_set]
  have hbehind : i + 1 + n = i + (n + 1) := by omega
  rw [List.take_succ_eq_append_getElem hlength, List.take_set_of_le (Nat.le_refl i), List.getElem_set_self,
    List.drop_set_of_lt (by omega), hbehind, List.append_assoc (l.take i), List.singleton_append]

/-- The entries of a list, stored one after the other. -/
theorem readChangeEntries_serialize (infos : List ChangeOutputInfo) (hinfos : ∀ info ∈ infos, info.Encodable) {i : Nat}
    (d : Device) (hslots : i + infos.length ≤ d.tx.changeInfo.length) (hn : offset + 22 * infos.length < 2 ^ 32)
    (h : data.drop offset = infos.flatMap ChangeOutputInfo.serialize ++ r) :
    wp (readChangeEntries infos.length i (.at data offset))
      (fun cdata d' w => cdata = .at data (offset + (infos.flatMap ChangeOutputInfo.serialize).length) ∧
        d' = d.withTx { d.tx with
          changeInfo := d.tx.changeInfo.take i ++ infos ++ d.tx.changeInfo.drop (i + infos.length) } ∧ w = [])
      (fun _ _ _ => False) False d := by
  induction infos generalizing i offset d with
  | nil =>
      refine ⟨rfl, ?_, rfl⟩
      rw [List.append_nil, List.length_nil, Nat.add_zero, List.take_append_drop]
      rfl
  | cons info infos ih =>
      obtain ⟨hinfo, hrest⟩ := List.forall_mem_cons.mp hinfos
      have hdepth : info.path.length ≤ 5 := hinfo.path.depth
      rw [List.length_cons] at hn hslots ⊢
      have hslot : i < d.tx.changeInfo.length := by omega
      have hhead : data.drop offset = UInt8.ofNat info.index :: (UInt8.ofNat info.path.length ::
          (info.path.flatMap (bytesBe 4) ++ (infos.flatMap ChangeOutputInfo.serialize ++ r))) := by
        rw [h, List.flatMap_cons, List.append_assoc]
        rfl
      obtain ⟨hindex, hpath⟩ := bufferReadU8_head hhead (by omega)
      have hbyte : (UInt8.ofNat info.index).toNat = info.index := UInt8.toNat_ofNat_of_lt' hinfo.index
      rw [hbyte] at hindex
      obtain ⟨hread, hbehind⟩ := bufferReadBip32Path_serialize hinfo.path hinfo.levels (by omega) hpath
        (d.tx.changeInfo.getD i ⟨0, []⟩).path
      unfold readChangeEntries
      simp only [hindex, hread, wp_bind, wp_get, wp_modify, Bool.not_true, Bool.false_eq_true, if_false]
      refine wp_mono (ih hrest _ ?_ ?_ hbehind) ?_ (fun _ _ _ h => h) id
      · simp only [Device.tx_withTx, List.length_set]
        omega
      · omega
      · rintro cdata d' w ⟨rfl, rfl, rfl⟩
        refine ⟨?_, ?_, rfl⟩
        · congr 1
          rw [List.flatMap_cons, List.length_append, ChangeOutputInfo.serialize, List.length_cons, List.length_cons,
            length_levels]
          omega
        · simp only [Device.tx_withTx]
          rw [List.set_set, take_set_append infos hslot]
          rfl

theorem readChangeInfo_serialize (infos : List ChangeOutputInfo) (hinfos : ∀ info ∈ infos, info.Encodable)
    (hcount : infos.length ≤ txMaxTokens + 1) (d : Device) (hslots : d.tx.changeInfo.length = txMaxTokens + 1) (r : Bytes) :
    readChangeInfo (Buffer.ofData (serializeChangeInfo infos ++ r)) d =
      .ret (.at (serializeChangeInfo infos ++ r) (serializeChangeInfo infos).length)
        (d.withChanges infos.length (infos ++ d.tx.changeInfo.drop infos.length)) [] := by
  have hmax : txMaxTokens = 10 := rfl
  have hbyte : (UInt8.ofNat infos.length).toNat = infos.length :=
    UInt8.toNat_ofNat_of_lt' (Nat.lt_of_le_of_lt hcount (by decide))
  have hstart : (serializeChangeInfo infos ++ r).drop 0 =
      1 :: (UInt8.ofNat infos.length :: (infos.flatMap ChangeOutputInfo.serialize ++ r)) := rfl
  have hlength : (serializeChangeInfo infos).length = 2 + (infos.flatMap ChangeOutputInfo.serialize).length := by
    rw [serializeChangeInfo, List.length_cons, List.length_cons]
    omega
  obtain ⟨hversion, hbehind⟩ := bufferReadU8_head hstart (by decide)
  obtain ⟨hlen, hentries⟩ := bufferReadU8_head hbehind (by decide)
  rw [hbyte] at hlen
  have hversion' : bufferReadU8 (Buffer.ofData (serializeChangeInfo infos ++ r)) = _ := hversion
  apply eq_ret_of_wp
  unfold readChangeInfo readChangeInfoV1
  simp only [hversion', Bool.not_true, Bool.false_eq_true, if_false]
  rw [if_neg (by decide), if_neg (by decide), if_pos (by decide)]
  simp only [hlen, wp_bind, wp_modify, Bool.not_true, Bool.false_eq_true, if_false]
  rw [if_neg (by omega)]
  refine wp_mono (readChangeEntries_serialize infos hinfos _ ?_ ?_ hentries) ?_ (fun _ _ _ h => h) id
  · simp only [Device.tx_withTx]
    omega
  · omega
  · rintro cdata d' w ⟨rfl, rfl, rfl⟩
    refine ⟨?_, ?_, rfl⟩
    · rw [hlength]
    · simp only [Device.tx_withTx, List.take_zero, List.nil_append, Nat.zero_add]
      rfl

/-- A path at the cursor. -/
theorem bufferReadBip32Path_drop (hn : offset + 21 < 2 ^ 32) (out : Bip32Path) :
    bufferReadBip32Path (.at data offset) out =
      match bip32PathRead (data.drop offset) (data.length - offset) out with
      | (false, path) => (false, path, .at data offset)
      | (true, path) => (true, path, .at data (offset + (1 + 4 * path.length))) := by
  unfold bufferReadBip32Path
  simp only [Buffer.at]
  cases hread : bip32PathRead (data.drop offset) (data.length - offset) out with
  | mk read path =>
      cases read with
      | false => rfl
      | true =>
          obtain ⟨hcount, hdepth, hroom⟩ := bip32PathRead_length hread
          have hmax : maxBip32Path = 5 := rfl
          have hseek : bufferSeekCur (.at data offset) (1 + 4 * path.length) = _ := bufferSeekCur_at (by omega) (by omega)
          exact congrArg (fun x => (true, path, x.2)) hseek

end Read

section Entry

variable {n : Nat} {index : UInt8} {rest : Bytes}

/-- The path of an entry whose number of levels is given. -/
def entryPath (n : Nat) (rest : Bytes) : Option Bip32Path :=
  match bip32PathRead (UInt8.ofNat n :: rest) (rest.length + 1) [] with
  | (true, path) => some path
  | (false, _) => none

theorem byteAt_ofNat {n : Nat} (hn : n < 16) (rest : Bytes) : byteAt (UInt8.ofNat n :: rest) 0 = n :=
  UInt8.toNat_ofNat_of_lt' (Nat.lt_trans hn (by decide))

/-- The path reader accepts the path of an entry, and no other. -/
theorem bip32PathRead_entry (out : Bip32Path) :
    match bip32PathRead (UInt8.ofNat n :: rest) (rest.length + 1) out with
    | (true, path) => entryPath n rest = some path
    | (false, _) => entryPath n rest = none := by
  obtain ⟨hsame, hpath⟩ := bip32PathRead_out (UInt8.ofNat n :: rest) (rest.length + 1) out
  unfold entryPath
  cases hread : bip32PathRead (UInt8.ofNat n :: rest) (rest.length + 1) out with
  | mk read path =>
      cases hread' : bip32PathRead (UInt8.ofNat n :: rest) (rest.length + 1) [] with
      | mk read' path' =>
          rw [hread, hread'] at hsame hpath
          dsimp only at hsame hpath
          subst hsame
          cases read with
          | false => rfl
          | true => rw [hpath rfl]

theorem length_of_entryPath (hn : n < 16) {path : Bip32Path} (h : entryPath n rest = some path) :
    path.length = n ∧ n ≤ maxBip32Path ∧ 4 * n ≤ rest.length := by
  unfold entryPath at h
  split at h
  · rename_i hread
    obtain ⟨hcount, hdepth, hroom⟩ := bip32PathRead_length hread
    rw [byteAt_ofNat hn] at hcount hdepth hroom
    rw [← Option.some.inj h]
    exact ⟨hcount, hdepth, by omega⟩
  · cases h

theorem entryPath_eq_none (hn : n < 16) (h : ¬(n ≤ maxBip32Path ∧ 4 * n ≤ rest.length)) : entryPath n rest = none := by
  cases hentry : entryPath n rest with
  | none => rfl
  | some path => exact absurd (length_of_entryPath hn hentry).2 h

/-- A path copied behind its length, with zeros behind it, is read as in its place. -/
theorem bip32PathRead_scratch (hn : n < 16) (hdepth : n ≤ maxBip32Path) (hroom : 4 * n ≤ rest.length) (zeros : Bytes)
    (out : Bip32Path) :
    bip32PathRead (UInt8.ofNat n :: (rest.take (4 * n) ++ zeros)) (1 + 4 * maxBip32Path) out =
      bip32PathRead (UInt8.ofNat n :: rest) (rest.length + 1) out := by
  have hfirst := byteAt_ofNat hn (rest.take (4 * n) ++ zeros)
  have htail : ∀ (c : UInt8) (l : Bytes) (i : Nat), byteAt (c :: l) (1 + i) = byteAt l i := by
    intro c l i
    rw [Nat.add_comm]
    rfl
  apply bip32PathRead_congr
  · rw [hfirst, byteAt_ofNat hn]
  · intro i hi
    rw [hfirst] at hi
    have hinside : i < (rest.take (4 * n)).length := by rwa [List.length_take_of_le hroom]
    rw [htail, htail, byteAt_append_left hinside]
    conv_rhs => rw [← List.take_append_drop (4 * n) rest]
    exact (byteAt_append_left hinside).symm
  · rw [hfirst]
    omega
  · rw [hfirst]
    omega

/-- The result of reading one entry. -/
def EntryRead (d : Device) (n : Nat) (index : UInt8) (rest data : Bytes) (offset : Nat) (p : App Buffer) : Prop :=
  wp p
    (fun cdata d' w => ∃ path, entryPath n rest = some path ∧ cdata = .at data offset ∧
      d' = d.withChanges 1 (d.tx.changeInfo.set 0 ⟨index.toNat, path⟩) ∧ w = [])
    (fun e _ w => entryPath n rest = none ∧ e = swWrongDataLength ∧ w = []) False d

theorem EntryRead.run {d : Device} {data : Bytes} {offset : Nat} {p : App Buffer} (h : EntryRead d n index rest data offset p) :
    (∃ path, entryPath n rest = some path ∧
      p d = .ret (.at data offset) (d.withChanges 1 (d.tx.changeInfo.set 0 ⟨index.toNat, path⟩)) []) ∨
    entryPath n rest = none ∧ ∃ d', p d = .throw swWrongDataLength d' [] := by
  unfold EntryRead wp at h
  cases hrun : p d with
  | ret cdata d' w =>
      rw [hrun] at h
      obtain ⟨path, hpath, rfl, rfl, rfl⟩ := h
      exact Or.inl ⟨path, hpath, rfl⟩
  | throw e d' w =>
      rw [hrun] at h
      obtain ⟨hnone, rfl, rfl⟩ := h
      exact Or.inr ⟨hnone, d', rfl⟩
  | overrun =>
      rw [hrun] at h
      exact h.elim

/-- The counted form of one entry. -/
theorem readChangeInfo_v1 (hn : n < 16) (d : Device) :
    EntryRead d n index rest (v1ProtoBytes n index rest) (4 + 4 * n)
      (readChangeInfo (Buffer.ofData (v1ProtoBytes n index rest))) := by
  have hstart : (v1ProtoBytes n index rest).drop 0 = 1 :: (1 :: index :: UInt8.ofNat n :: rest) := rfl
  obtain ⟨hversion, hbehind⟩ := bufferReadU8_head hstart (by decide)
  obtain ⟨hcount, hentry⟩ := bufferReadU8_head hbehind (by decide)
  obtain ⟨hindex, hpath⟩ := bufferReadU8_head hentry (by decide)
  have hone : (1 : UInt8).toNat = 1 := rfl
  have hversion' : bufferReadU8 (Buffer.ofData (v1ProtoBytes n index rest)) = _ := hversion
  have hlength : (v1ProtoBytes n index rest).length - 3 = rest.length + 1 := rfl
  have hread := @bufferReadBip32Path_drop (v1ProtoBytes n index rest) 3 (by decide)
    (d.tx.changeInfo.getD 0 ⟨0, []⟩).path
  have haccepts := @bip32PathRead_entry n rest (d.tx.changeInfo.getD 0 ⟨0, []⟩).path
  rw [hpath, hlength] at hread
  rw [hone] at hcount
  obtain ⟨⟨read, path⟩, hpathRead⟩ : ∃ result, bip32PathRead (UInt8.ofNat n :: rest) (rest.length + 1)
      (d.tx.changeInfo.getD 0 ⟨0, []⟩).path = result := ⟨_, rfl⟩
  rw [hpathRead] at hread haccepts
  unfold EntryRead readChangeInfo readChangeInfoV1
  simp only [hversion', Bool.not_true, Bool.false_eq_true, if_false]
  rw [if_neg (by decide), if_neg (by decide), if_pos (by decide)]
  simp only [hcount, wp_bind, wp_modify, Bool.not_true, Bool.false_eq_true, if_false]
  rw [if_neg (by decide)]
  unfold readChangeEntries readChangeEntries
  simp only [hindex, wp_bind, wp_get, wp_modify, Bool.not_true, Bool.false_eq_true, if_false, Device.tx_withTx, hread]
  cases read with
  | false => exact ⟨haccepts, rfl, rfl⟩
  | true =>
      obtain ⟨hdepth, _⟩ := length_of_entryPath hn haccepts
      refine ⟨path, haccepts, ?_, ?_, rfl⟩
      · dsimp only
        rw [hdepth]
        congr 1
        omega
      · rw [List.set_set]
        rfl

/-- The older form of one entry: the scratch buffer holds the path that stands behind the index. -/
theorem readChangeInfo_old (hn : n < 16) (d : Device) :
    EntryRead d n index rest (oldProtoBytes n index rest) (2 + 4 * n)
      (readChangeInfo (Buffer.ofData (oldProtoBytes n index rest))) := by
  have hstart : (oldProtoBytes n index rest).drop 0 = UInt8.ofNat (0x80 ||| n) :: (index :: rest) := rfl
  obtain ⟨hversion, hbehind⟩ := bufferReadU8_head hstart (by decide)
  obtain ⟨hindex, hrest⟩ := bufferReadU8_head hbehind (by decide)
  have hversion' : bufferReadU8 (Buffer.ofData (oldProtoBytes n index rest)) = _ := hversion
  have hbyte : ∀ n < 16, (UInt8.ofNat (0x80 ||| n)).toNat ≠ 0 ∧ (UInt8.ofNat (0x80 ||| n)).toNat &&& 0x80 ≠ 0 ∧
      (UInt8.ofNat (0x80 ||| n)).toNat &&& 0x0F = n := by decide
  obtain ⟨hnonzero, hflag, hdepth⟩ := hbyte n hn
  have hlength : (oldProtoBytes n index rest).length = rest.length + 2 := rfl
  unfold EntryRead readChangeInfo readChangeInfoOldProtocol
  simp only [hversion', Bool.not_true, Bool.false_eq_true, if_false]
  rw [if_neg hnonzero, if_pos hflag]
  simp only [hindex, hdepth, wp_bind, wp_get, wp_modify, Bool.not_true, Bool.false_eq_true, if_false, Device.tx_withTx]
  rw [wp_ite]
  refine ⟨fun hdeep => ⟨entryPath_eq_none hn fun h => absurd h.1 (Nat.not_le.mpr hdeep), rfl, rfl⟩, fun hshallow => ?_⟩
  rw [wp_ite]
  refine ⟨fun hcut => ⟨entryPath_eq_none hn fun h => absurd h.2 (Nat.not_le.mpr hcut), rfl, rfl⟩, fun hwhole => ?_⟩
  have hroom : 4 * n ≤ rest.length := Nat.not_lt.mp hwhole
  have hscratch := fun zeros => @bip32PathRead_scratch n rest hn (Nat.not_lt.mp hshallow) hroom zeros
    (d.tx.changeInfo.getD 0 ⟨0, []⟩).path
  have haccepts := @bip32PathRead_entry n rest (d.tx.changeInfo.getD 0 ⟨0, []⟩).path
  obtain ⟨⟨read, path⟩, hpathRead⟩ : ∃ result, bip32PathRead (UInt8.ofNat n :: rest) (rest.length + 1)
      (d.tx.changeInfo.getD 0 ⟨0, []⟩).path = result := ⟨_, rfl⟩
  rw [hpathRead] at haccepts
  have hdata : (Buffer.at (oldProtoBytes n index rest) (0 + 1 + 1)).ptr.drop
      (Buffer.at (oldProtoBytes n index rest) (0 + 1 + 1)).offset = rest := hrest
  unfold bufferReadBip32Path
  simp only [hdata, List.drop_zero, Nat.sub_zero, hscratch, hpathRead]
  have hseek : bufferSeekCur (.at (oldProtoBytes n index rest) (0 + 1 + 1)) (4 * n) = _ :=
    bufferSeekCur_at (by omega) (by omega)
  cases read with
  | false => exact ⟨haccepts, rfl, rfl⟩
  | true =>
      refine ⟨path, haccepts, ?_, ?_, rfl⟩
      · rw [hseek]
      · simp only [Device.tx_withTx, List.set_set]
        rfl

end Entry

theorem sighashAllHash_unread (o : Outcome) {cdata cdata' : Buffer} (h : cdata.unread = cdata'.unread) :
    sighashAllHash o cdata = sighashAllHash o cdata' := by
  unfold Buffer.unread at h
  unfold sighashAllHash
  rw [h]

/-- A counted list is read back and what follows it is hashed. An entry of the older form and the same entry in
a list of one are both read, to the same effect, or both refused. -/
theorem readChangeInfo_forms (o : Outcome) (d : Device) (hslots : d.tx.changeInfo.length = txMaxTokens + 1) :
    (∀ (infos : List ChangeOutputInfo) (r : Bytes), (∀ info ∈ infos, info.Encodable) → infos.length ≤ txMaxTokens + 1 →
      ∃ cdata d', readChangeInfo (Buffer.ofData (serializeChangeInfo infos ++ r)) d = .ret cdata d' [] ∧
        d'.tx.changes = infos ∧ cdata = .at (serializeChangeInfo infos ++ r) (serializeChangeInfo infos).length ∧
        cdata.unread = r ∧ sighashAllHash o cdata = sighashAllHash o (Buffer.ofData r)) ∧
    ∀ n < 16, ∀ (index : UInt8) (rest : Bytes),
      (∃ cdata cdata' d', readChangeInfo (Buffer.ofData (oldProtoBytes n index rest)) d = .ret cdata d' [] ∧
        readChangeInfo (Buffer.ofData (v1ProtoBytes n index rest)) d = .ret cdata' d' [] ∧
        cdata.unread = rest.drop (4 * n) ∧ cdata'.unread = rest.drop (4 * n) ∧
        sighashAllHash o cdata = sighashAllHash o cdata') ∨
      ∃ d₁ d₂, readChangeInfo (Buffer.ofData (oldProtoBytes n index rest)) d = .throw swWrongDataLength d₁ [] ∧
        readChangeInfo (Buffer.ofData (v1ProtoBytes n index rest)) d = .throw swWrongDataLength d₂ [] := by
  constructor
  · intro infos r hinfos hcount
    have hunread : (Buffer.at (serializeChangeInfo infos ++ r) (serializeChangeInfo infos).length).unread = r := by
      rw [unread_at, List.drop_left]
    refine ⟨_, _, readChangeInfo_serialize infos hinfos hcount d hslots r, ?_, rfl, hunread, ?_⟩
    · exact List.take_left
    · apply sighashAllHash_unread
      rw [hunread, Buffer.ofData_eq, unread_at, List.drop_zero]
  · intro n hn index rest
    have hnew := (@readChangeInfo_v1 n index rest hn d).run
    obtain ⟨path, hpath, hold⟩ | ⟨hnone, d₁, hold⟩ := (@readChangeInfo_old n index rest hn d).run
    · obtain ⟨path', hpath', hnew⟩ | ⟨hnone, _⟩ := hnew
      · have hsame : path' = path := Option.some.inj (hpath'.symm.trans hpath)
        have hunread : (Buffer.at (oldProtoBytes n index rest) (2 + 4 * n)).unread = rest.drop (4 * n) := by
          rw [unread_at, ← List.drop_drop]
          rfl
        have hunread' : (Buffer.at (v1ProtoBytes n index rest) (4 + 4 * n)).unread = rest.drop (4 * n) := by
          rw [unread_at, ← List.drop_drop]
          rfl
        subst hsame
        left
        exact ⟨_, _, _, hold, hnew, hunread, hunread', sighashAllHash_unread o (hunread.trans hunread'.symm)⟩
      · rw [hnone] at hpath
        cases hpath
    · obtain ⟨path', hpath', _⟩ | ⟨_, d₂, hnew⟩ := hnew
      · rw [hnone] at hpath'
        cases hpath'
      · right
        exact ⟨d₁, d₂, hold, hnew⟩

/-- Two entries and three bytes behind them, and an entry of one level in both forms. -/
theorem readChangeInfo_forms_two :
    let infos : List ChangeOutputInfo := [⟨1, [0x8000002C]⟩, ⟨0, []⟩]
    (∃ cdata d', readChangeInfo (Buffer.ofData (serializeChangeInfo infos ++ [0, 1, 2])) (bootDevice []) = .ret cdata d' [] ∧
      d'.tx.changes = infos ∧ cdata.unread = [0, 1, 2]) ∧
    ∃ cdata cdata' d', readChangeInfo (Buffer.ofData (oldProtoBytes 1 7 [0, 0, 0, 3, 9])) (bootDevice []) = .ret cdata d' [] ∧
      readChangeInfo (Buffer.ofData (v1ProtoBytes 1 7 [0, 0, 0, 3, 9])) (bootDevice []) = .ret cdata' d' [] ∧
      cdata.unread = [9] ∧ cdata'.unread = [9] := by
  intro infos
  have hslots : (bootDevice []).tx.changeInfo.length = txMaxTokens + 1 := rfl
  have hinfos : ∀ info ∈ infos, info.Encodable := by
    intro info hinfo
    rcases List.mem_cons.mp hinfo with rfl | hinfo
    · exact ⟨by decide, ⟨by decide, by decide, by decide⟩, by decide⟩
    · rw [List.mem_singleton.mp hinfo]
      exact ⟨by decide, ⟨by decide, by decide, by decide⟩, by decide⟩
  obtain ⟨hcounted, hforms⟩ := readChangeInfo_forms (Outcome.allOk []) (bootDevice []) hslots
  rcases hcounted infos [0, 1, 2] hinfos (by decide) with ⟨cdata, d', hrun, hchanges, _, hunread, _⟩
  refine ⟨⟨cdata, d', hrun, hchanges, hunread⟩, ?_⟩
  rcases hforms 1 (by decide) 7 [0, 0, 0, 3, 9] with ⟨cold, cnew, dread, hold, hnew, hleft, hleft', _⟩ | ⟨dold, _, hold, _⟩
  · exact ⟨cold, cnew, dread, hold, hnew, hleft, hleft'⟩
  · exfalso
    have haccepted : wp (readChangeInfo (Buffer.ofData (oldProtoBytes 1 7 [0, 0, 0, 3, 9])))
        (fun _ _ _ => True) (fun _ _ _ => False) False (bootDevice []) := by decide +kernel
    rw [wp_of_throw hold] at haccepted
    exact haccepted

end HathorApp
