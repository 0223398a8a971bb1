import HathorApp.ByteNumeral

/-!
The law of the buffer reader. Every call of `common/buffer.c` keeps the offset within the buffer, a refused call leaves it
where it is, and a call that delivers bytes takes them from the offset on and moves it behind them. A `buffer_move` with
more room than there are bytes is the exception: it seeks by the room, that seek is refused, and the bytes it delivered
are delivered again by the next call.
-/

namespace HathorApp

/-- A call on a buffer. An out parameter of `none` is a null pointer; of the others the length of the array matters, and
what a path is stored over. -/
inductive BufferCall where
  | seekSet (offset : Nat)
  | seekCur (offset : Nat)
  | seekEnd (offset : Nat)
  | readU8
  | readU16 (endianness : Endianness)
  | readU32 (endianness : Endianness)
  | readU64 (endianness : Endianness)
  | readBip32Path (out : Option Bip32Path)
  | readBytes (out : Option Nat) (len : Nat)
  | copy (out : Option Nat)
  | move (out : Option Nat)
  deriving DecidableEq, Repr

/-- What a call returns, the bytes the caller gets and the buffer after it. -/
structure CallResult where
  returned : Bool
  delivered : Bytes
  buffer : Buffer
  deriving DecidableEq, Repr

/-- The bytes of a number, in the order in which it is read. -/
def Endianness.bytes (endianness : Endianness) (k value : Nat) : Bytes :=
  if endianness = .be then bytesBe k value else (bytesBe k value).reverse

/-- The bytes of a path: their number and the levels. -/
def pathBytes (path : Bip32Path) : Bytes := UInt8.ofNat path.length :: path.flatMap (bytesBe 4)

namespace CallResult

def refused (buffer : Buffer) : CallResult := ⟨false, [], buffer⟩

def ofSeek (result : Bool × Buffer) : CallResult := ⟨result.1, [], result.2⟩

/-- A value is delivered as its bytes. What a refused read stores is none of the buffer's. -/
def ofRead {α : Type} (bytes : α → Bytes) (result : Bool × α × Buffer) : CallResult :=
  ⟨result.1, if result.1 then bytes result.2.1 else [], result.2.2⟩

def ofTake (buffer : Buffer) : Option (Bytes × Buffer) → CallResult
  | none => refused buffer
  | some (out, after) => ⟨true, out, after⟩

end CallResult

def BufferCall.run (buffer : Buffer) : BufferCall → CallResult
  | seekSet offset => .ofSeek (bufferSeekSet buffer offset)
  | seekCur offset => .ofSeek (bufferSeekCur buffer offset)
  | seekEnd offset => .ofSeek (bufferSeekEnd buffer offset)
  | readU8 => .ofRead (bytesBe 1) (bufferReadU8 buffer)
  | readU16 endianness => .ofRead (endianness.bytes 2) (bufferReadU16 buffer endianness)
  | readU32 endianness => .ofRead (endianness.bytes 4) (bufferReadU32 buffer endianness)
  | readU64 endianness => .ofRead (endianness.bytes 8) (bufferReadU64 buffer endianness)
  | readBip32Path none => .refused buffer
  | readBip32Path (some out) => .ofRead pathBytes (bufferReadBip32Path buffer out)
  | readBytes none _ => .refused buffer
  | readBytes (some outLen) len => .ofTake buffer (bufferReadBytes buffer outLen len)
  | copy none => .refused buffer
  | copy (some outLen) => .ofTake buffer ((bufferCopy buffer outLen).map fun out => (out, buffer))
  | move none => .refused buffer
  | move (some outLen) => .ofTake buffer (bufferMove buffer outLen)

/-- The reads and the move. -/
def BufferCall.Consumes : BufferCall → Prop
  | seekSet _ | seekCur _ | seekEnd _ | copy _ => False
  | _ => True

instance (call : BufferCall) : Decidable call.Consumes := by
  cases call <;> unfold BufferCall.Consumes <;> infer_instance

/-- The buffer lies within its array, whose length is a 32-bit `size_t`. -/
structure Buffer.WellFormed (buffer : Buffer) : Prop where
  inside : buffer.offset ≤ buffer.size
  array : buffer.size ≤ buffer.ptr.length
  word : buffer.size < 2 ^ 32

/-- The bytes at the offset. -/
def Buffer.next (buffer : Buffer) (n : Nat) : Bytes := (buffer.ptr.drop buffer.offset).take n

def Buffer.advance (buffer : Buffer) (n : Nat) : Buffer := { buffer with offset := buffer.offset + n }

/-- The bytes are those at the offset of the one buffer, and the other has its offset behind them. -/
structure Delivers (before : Buffer) (bytes : Bytes) (after : Buffer) : Prop where
  offset : after.offset = before.offset + bytes.length
  bytes : bytes = before.next bytes.length

/-- What a call keeps to. -/
structure BufferCall.Lawful (call : BufferCall) (buffer : Buffer) : Prop where
  inside : (call.run buffer).buffer.offset ≤ (call.run buffer).buffer.size
  same : (call.run buffer).buffer.ptr = buffer.ptr ∧ (call.run buffer).buffer.size = buffer.size
  refused : (call.run buffer).returned = false → (call.run buffer).buffer.offset = buffer.offset
  consumes : call.Consumes → (call.run buffer).returned = true →
    Delivers buffer (call.run buffer).delivered (call.run buffer).buffer
  copies : ∀ out, call = .copy out → (call.run buffer).buffer.offset = buffer.offset

/-- A move has more room than there are bytes, and there are some. -/
structure BufferCall.Overreaches (call : BufferCall) (buffer : Buffer) : Prop where
  room : ∃ outLen, call = .move (some outLen) ∧ buffer.size - buffer.offset < outLen
  some : buffer.offset < buffer.size

section Calls

variable {buffer : Buffer}

theorem Buffer.WellFormed.length_next (hb : buffer.WellFormed) {n : Nat} (hn : n ≤ buffer.size - buffer.offset) :
    (buffer.next n).length = n := by
  have hinside := hb.inside
  have harray := hb.array
  unfold Buffer.next
  rw [List.length_take, List.length_drop]
  omega

theorem bufferSeekCur_eq (hb : buffer.WellFormed) (n : Nat) :
    bufferSeekCur buffer n = if n ≤ buffer.size - buffer.offset then (true, buffer.advance n) else (false, buffer) := by
  have hinside := hb.inside
  have hword := hb.word
  unfold bufferSeekCur
  by_cases hn : n ≤ buffer.size - buffer.offset
  · rw [if_pos hn, if_neg (by omega), Buffer.advance]
  · rw [if_neg hn, if_pos (by omega)]

/-- A result that takes the next bytes, if there are so many. -/
def Takes (buffer : Buffer) (n : Nat) (result : CallResult) : Prop :=
  n ≤ buffer.size - buffer.offset ∧ result = ⟨true, buffer.next n, buffer.advance n⟩

/-- A read of an integer of some bytes. -/
theorem ofRead_takes (hb : buffer.WellFormed) {k value : Nat} {bytes : Nat → Bytes}
    (hvalue : k ≤ buffer.size - buffer.offset → bytes value = buffer.next k) {result : Bool × Nat × Buffer}
    (hresult : result = if !bufferCanRead buffer k then (false, 0, buffer) else (true, value, (bufferSeekCur buffer k).2)) :
    CallResult.ofRead bytes result = .refused buffer ∨ Takes buffer k (CallResult.ofRead bytes result) := by
  subst hresult
  by_cases hk : k ≤ buffer.size - buffer.offset
  · right
    have hread : bufferCanRead buffer k = true := decide_eq_true hk
    refine ⟨hk, ?_⟩
    rw [hread, bufferSeekCur_eq hb, if_pos hk, ← hvalue hk]
    rfl
  · left
    have hread : bufferCanRead buffer k = false := decide_eq_false hk
    rw [hread]
    rfl

theorem room_of_le (hb : buffer.WellFormed) {k : Nat} (hk : k ≤ buffer.size - buffer.offset) (hpos : 0 < k) :
    buffer.offset + k ≤ buffer.ptr.length := by
  have harray := hb.array
  omega

/-- A number read from bytes is written back as them. -/
theorem bytesBe_next (hb : buffer.WellFormed) {k : Nat} (hk : k ≤ buffer.size - buffer.offset) :
    bytesBe k (byteValue (buffer.next k)) = buffer.next k := by
  have hback := bytesBe_byteValue (buffer.next k)
  rw [hb.length_next hk] at hback
  exact hback

theorem bytesLe_next (hb : buffer.WellFormed) {k : Nat} (hk : k ≤ buffer.size - buffer.offset) :
    (bytesBe k (byteValue (buffer.next k).reverse)).reverse = buffer.next k := by
  have hback := bytesBe_byteValue (buffer.next k).reverse
  rw [List.length_reverse, hb.length_next hk] at hback
  rw [hback, List.reverse_reverse]

/-- The readers of both orders. -/
theorem endianness_bytes_next (hb : buffer.WellFormed) {k be le : Nat} (hk : k ≤ buffer.size - buffer.offset)
    (hbe : be = byteValue (buffer.next k)) (hle : le = byteValue (buffer.next k).reverse) (endianness : Endianness) :
    endianness.bytes k (if endianness = .be then be else le) = buffer.next k := by
  unfold Endianness.bytes
  by_cases horder : endianness = .be
  · rw [if_pos horder, if_pos horder, hbe, bytesBe_next hb hk]
  · rw [if_neg horder, if_neg horder, hle, bytesLe_next hb hk]

/-- The levels read from a path are written back as the bytes behind its length byte. -/
theorem levels_bytes (input : Bytes) {n : Nat} (hn : 1 + 4 * n ≤ input.length) :
    (bip32LevelsRead input n).flatMap (bytesBe 4) = (input.drop 1).take (4 * n) := by
  induction n with
  | zero => rfl
  | succ n ih =>
      have hlevel : bytesBe 4 (readU32Be input (1 + 4 * n)) = (input.drop (1 + 4 * n)).take 4 := by
        have hback := bytesBe_byteValue ((input.drop (1 + 4 * n)).take 4)
        rw [List.length_take_of_le (by rw [List.length_drop]; omega)] at hback
        rw [readU32Be_eq (by omega), hback]
      have hlast : bip32LevelsRead input (n + 1) = bip32LevelsRead input n ++ [readU32Be input (1 + 4 * n)] := by
        unfold bip32LevelsRead
        rw [List.range_succ, List.map_append, List.map_singleton]
      rw [hlast, List.flatMap_append, ih (by omega), List.flatMap_singleton, hlevel, Nat.mul_succ, List.take_add,
        List.drop_drop]

/-- The bytes of a path that is read are those it was read from. -/
theorem bufferReadBip32Path_takes (hb : buffer.WellFormed) (out : Bip32Path) :
    CallResult.ofRead pathBytes (bufferReadBip32Path buffer out) = .refused buffer ∨
      ∃ n, Takes buffer n (CallResult.ofRead pathBytes (bufferReadBip32Path buffer out)) := by
  unfold bufferReadBip32Path
  split
  · exact Or.inl rfl
  · rename_i path hread
    right
    obtain ⟨hpath, hdepth, hroom⟩ := bip32PathRead_levels hread
    have hlength := (bip32PathRead_length hread).1
    have harray := hb.array
    have hfive : maxBip32Path = 5 := rfl
    have hinput : 1 + 4 * path.length ≤ (buffer.ptr.drop buffer.offset).length := by
      rw [List.length_drop]
      omega
    refine ⟨1 + 4 * path.length, by omega, ?_⟩
    have hbytes : pathBytes path = buffer.next (1 + 4 * path.length) := by
      unfold pathBytes Buffer.next
      generalize buffer.ptr.drop buffer.offset = input at hpath hlength hinput
      have hlevels : path.flatMap (bytesBe 4) = (input.drop 1).take (4 * path.length) := calc
        path.flatMap (bytesBe 4) = (bip32LevelsRead input path.length).flatMap (bytesBe 4) := by rw [hlength, ← hpath]
        _ = (input.drop 1).take (4 * path.length) := levels_bytes input hinput
      rw [hlevels]
      cases input with
      | nil => exact absurd hinput (by simp)
      | cons c rest =>
          have hfirst : UInt8.ofNat path.length = c := by
            rw [hlength]
            exact UInt8.ofNat_toNat
          rw [hfirst, Nat.add_comm, List.take_succ_cons, List.drop_succ_cons, List.drop_zero]
    rw [bufferSeekCur_eq hb, if_pos (by omega), ← hbytes]
    rfl

theorem bufferReadBytes_takes (hb : buffer.WellFormed) (outLen len : Nat) :
    CallResult.ofTake buffer (bufferReadBytes buffer outLen len) = .refused buffer ∨
      Takes buffer len (CallResult.ofTake buffer (bufferReadBytes buffer outLen len)) := by
  unfold bufferReadBytes
  by_cases hshort : len > buffer.size - buffer.offset ∨ len > outLen
  · rw [if_pos hshort]
    exact Or.inl rfl
  · have hfits : len ≤ buffer.size - buffer.offset := by omega
    rw [if_neg hshort, bufferSeekCur_eq hb, if_pos hfits]
    exact Or.inr ⟨hfits, rfl⟩

theorem bufferCopy_eq (buffer : Buffer) (outLen : Nat) :
    bufferCopy buffer outLen =
      if buffer.size - buffer.offset > outLen then none else some (buffer.next (buffer.size - buffer.offset)) := rfl

/-- A move that copies seeks behind the bytes only if they fill the room. -/
theorem bufferMove_eq (hb : buffer.WellFormed) (outLen : Nat) :
    bufferMove buffer outLen =
      if buffer.size - buffer.offset > outLen then none
      else some (buffer.next (buffer.size - buffer.offset),
        if outLen = buffer.size - buffer.offset then buffer.advance outLen else buffer) := by
  unfold bufferMove
  rw [bufferCopy_eq]
  by_cases hshort : buffer.size - buffer.offset > outLen
  · rw [if_pos hshort, if_pos hshort]
  · rw [if_neg hshort, if_neg hshort, bufferSeekCur_eq hb]
    dsimp only
    by_cases hfull : outLen = buffer.size - buffer.offset
    · rw [if_pos hfull, if_pos (Nat.le_of_eq hfull)]
    · rw [if_neg hfull, if_neg (by omega)]

/-- A seek is refused, or moves the offset to another one within the buffer. -/
def Seeks (buffer : Buffer) (result : Bool × Buffer) : Prop :=
  result = (false, buffer) ∨ ∃ offset ≤ buffer.size, result = (true, { buffer with offset := offset })

theorem bufferSeekSet_seeks (buffer : Buffer) (offset : Nat) : Seeks buffer (bufferSeekSet buffer offset) := by
  unfold bufferSeekSet
  by_cases hover : offset > buffer.size
  · rw [if_pos hover]
    exact Or.inl rfl
  · rw [if_neg hover]
    exact Or.inr ⟨offset, Nat.not_lt.mp hover, rfl⟩

theorem bufferSeekCur_seeks (buffer : Buffer) (offset : Nat) : Seeks buffer (bufferSeekCur buffer offset) := by
  unfold bufferSeekCur
  by_cases hover : 2 ^ 32 ≤ buffer.offset + offset ∨ buffer.offset + offset > buffer.size
  · rw [if_pos hover]
    exact Or.inl rfl
  · rw [if_neg hover]
    exact Or.inr ⟨buffer.offset + offset, by omega, rfl⟩

theorem bufferSeekEnd_seeks (buffer : Buffer) (offset : Nat) : Seeks buffer (bufferSeekEnd buffer offset) := by
  unfold bufferSeekEnd
  by_cases hover : offset > buffer.size
  · rw [if_pos hover]
    exact Or.inl rfl
  · rw [if_neg hover]
    exact Or.inr ⟨buffer.size - offset, Nat.sub_le _ _, rfl⟩

end Calls

section Law

variable {buffer : Buffer} {call : BufferCall}

theorem lawful_of_refused (hb : buffer.WellFormed) (hrun : call.run buffer = .refused buffer) : call.Lawful buffer := by
  constructor
  · rw [hrun]
    exact hb.inside
  · rw [hrun]
    exact ⟨rfl, rfl⟩
  · intro _
    rw [hrun]
    rfl
  · intro _ hreturned
    rw [hrun] at hreturned
    cases hreturned
  · intro out _
    rw [hrun]
    rfl

theorem lawful_of_takes (hb : buffer.WellFormed) (hcopy : ∀ out, call ≠ .copy out) {n : Nat}
    (htakes : Takes buffer n (call.run buffer)) : call.Lawful buffer := by
  obtain ⟨hn, hrun⟩ := htakes
  have hinside := hb.inside
  have hlength := hb.length_next hn
  constructor
  · rw [hrun]
    show buffer.offset + n ≤ buffer.size
    omega
  · rw [hrun]
    exact ⟨rfl, rfl⟩
  · intro hreturned
    rw [hrun] at hreturned
    cases hreturned
  · intro _ _
    rw [hrun]
    refine ⟨?_, ?_⟩
    · rw [hlength]
      rfl
    · rw [hlength]
  · exact fun out hcall => absurd hcall (hcopy out)

theorem lawful_of_read (hb : buffer.WellFormed) (hcopy : ∀ out, call ≠ .copy out) {n : Nat}
    (hread : call.run buffer = .refused buffer ∨ Takes buffer n (call.run buffer)) : call.Lawful buffer :=
  hread.elim (lawful_of_refused hb) (lawful_of_takes hb hcopy)

theorem lawful_of_seeks (hb : buffer.WellFormed) (hseek : ¬call.Consumes) (hcopy : ∀ out, call ≠ .copy out)
    {result : Bool × Buffer} (hrun : call.run buffer = .ofSeek result) (hseeks : Seeks buffer result) :
    call.Lawful buffer := by
  rcases hseeks with rfl | ⟨offset, hinside, rfl⟩
  · exact lawful_of_refused hb hrun
  · constructor
    · rw [hrun]
      exact hinside
    · rw [hrun]
      exact ⟨rfl, rfl⟩
    · intro hreturned
      rw [hrun] at hreturned
      cases hreturned
    · exact fun hconsumes => absurd hconsumes hseek
    · exact fun out hcall => absurd hcall (hcopy out)

theorem lawful_copy (hb : buffer.WellFormed) (out : Option Nat) : (BufferCall.copy out).Lawful buffer := by
  have hrun : ∃ returned delivered, (BufferCall.copy out).run buffer = ⟨returned, delivered, buffer⟩ := by
    cases out with
    | none => exact ⟨false, [], rfl⟩
    | some outLen =>
        show ∃ returned delivered,
          CallResult.ofTake buffer ((bufferCopy buffer outLen).map fun out => (out, buffer)) = ⟨returned, delivered, buffer⟩
        cases bufferCopy buffer outLen with
        | none => exact ⟨false, [], rfl⟩
        | some bytes => exact ⟨true, bytes, rfl⟩
  obtain ⟨returned, delivered, hrun⟩ := hrun
  constructor
  · rw [hrun]
    exact hb.inside
  · rw [hrun]
    exact ⟨rfl, rfl⟩
  · intro _
    rw [hrun]
  · exact fun hconsumes => hconsumes.elim
  · intro _ _
    rw [hrun]

/-- A move keeps the law exactly when it is refused, has no more room than there are bytes, or finds none. -/
theorem lawful_move_iff (hb : buffer.WellFormed) (outLen : Nat) :
    (BufferCall.move (some outLen)).Lawful buffer ↔ ¬(BufferCall.move (some outLen)).Overreaches buffer := by
  have hinside := hb.inside
  have hrun : (BufferCall.move (some outLen)).run buffer = .ofTake buffer (bufferMove buffer outLen) := rfl
  rw [bufferMove_eq hb] at hrun
  have hover : (BufferCall.move (some outLen)).Overreaches buffer ↔
      buffer.size - buffer.offset < outLen ∧ buffer.offset < buffer.size := by
    constructor
    · rintro ⟨⟨_, hcall, hroom⟩, hsome⟩
      cases hcall
      exact ⟨hroom, hsome⟩
    · exact fun h => ⟨⟨outLen, rfl, h.1⟩, h.2⟩
  rw [hover]
  by_cases hshort : buffer.size - buffer.offset > outLen
  · rw [if_pos hshort] at hrun
    exact iff_of_true (lawful_of_refused hb hrun) (by omega)
  · rw [if_neg hshort] at hrun
    by_cases hfull : outLen = buffer.size - buffer.offset
    · rw [if_pos hfull] at hrun
      have htakes : Takes buffer outLen ((BufferCall.move (some outLen)).run buffer) := by
        refine ⟨Nat.le_of_eq hfull, ?_⟩
        rw [hrun, ← hfull]
        rfl
      exact iff_of_true (lawful_of_takes hb nofun htakes) (by omega)
    · rw [if_neg hfull] at hrun
      by_cases hnone : buffer.size - buffer.offset = 0
      · -- nothing is delivered and nothing sought
        have htakes : Takes buffer 0 ((BufferCall.move (some outLen)).run buffer) := by
          refine ⟨Nat.zero_le _, ?_⟩
          rw [hrun, hnone]
          rfl
        exact iff_of_true (lawful_of_takes hb nofun htakes) (by omega)
      · refine iff_of_false (fun hlawful => ?_) fun h => h ⟨by omega, by omega⟩
        have hreturned : ((BufferCall.move (some outLen)).run buffer).returned = true := by
          rw [hrun]
          rfl
        have hoffset := (hlawful.consumes trivial hreturned).offset
        rw [hrun] at hoffset
        have hbytes : buffer.offset = buffer.offset + (buffer.next (buffer.size - buffer.offset)).length := hoffset
        rw [hb.length_next (Nat.le_refl _)] at hbytes
        omega

theorem lawful_iff (hb : buffer.WellFormed) (call : BufferCall) : call.Lawful buffer ↔ ¬call.Overreaches buffer := by
  have hother : (∀ outLen, call ≠ .move (some outLen)) → ¬call.Overreaches buffer := by
    rintro hcall ⟨⟨outLen, hmove, _⟩, _⟩
    exact hcall outLen hmove
  cases call with
  | seekSet offset => exact iff_of_true (lawful_of_seeks hb id nofun rfl (bufferSeekSet_seeks buffer offset)) (hother nofun)
  | seekCur offset => exact iff_of_true (lawful_of_seeks hb id nofun rfl (bufferSeekCur_seeks buffer offset)) (hother nofun)
  | seekEnd offset => exact iff_of_true (lawful_of_seeks hb id nofun rfl (bufferSeekEnd_seeks buffer offset)) (hother nofun)
  | readU8 =>
      refine iff_of_true (lawful_of_read hb nofun (ofRead_takes hb (fun hk => ?_) rfl)) (hother nofun)
      rw [byteAt_eq (room_of_le hb hk (by decide))]
      exact bytesBe_next hb hk
  | readU16 endianness =>
      refine iff_of_true (lawful_of_read hb nofun (ofRead_takes hb (fun hk => ?_) rfl)) (hother nofun)
      have hroom := room_of_le hb hk (by decide)
      exact endianness_bytes_next hb hk (readU16Be_eq hroom) (readU16Le_eq hroom) endianness
  | readU32 endianness =>
      refine iff_of_true (lawful_of_read hb nofun (ofRead_takes hb (fun hk => ?_) rfl)) (hother nofun)
      have hroom := room_of_le hb hk (by decide)
      exact endianness_bytes_next hb hk (readU32Be_eq hroom) (readU32Le_eq hroom) endianness
  | readU64 endianness =>
      refine iff_of_true (lawful_of_read hb nofun (ofRead_takes hb (fun hk => ?_) rfl)) (hother nofun)
      have hroom := room_of_le hb hk (by decide)
      exact endianness_bytes_next hb hk (readU64Be_eq hroom) (readU64Le_eq hroom) endianness
  | readBip32Path out =>
      cases out with
      | none => exact iff_of_true (lawful_of_refused hb rfl) (hother nofun)
      | some out =>
          refine iff_of_true ?_ (hother nofun)
          rcases bufferReadBip32Path_takes hb out with hrefused | ⟨n, htakes⟩
          · exact lawful_of_refused hb hrefused
          · exact lawful_of_takes hb nofun htakes
  | readBytes out len =>
      cases out with
      | none => exact iff_of_true (lawful_of_refused hb rfl) (hother nofun)
      | some outLen => exact iff_of_true (lawful_of_read hb nofun (bufferReadBytes_takes hb outLen len)) (hother nofun)
  | copy out => exact iff_of_true (lawful_copy hb out) (hother nofun)
  | move out =>
      cases out with
      | none => exact iff_of_true (lawful_of_refused hb rfl) (hother nofun)
      | some outLen => exact lawful_move_iff hb outLen

end Law

section Sequence

/-- The bytes delivered by some calls, one after the other, and the buffer after them. -/
def runCalls : List BufferCall → Buffer → Bytes × Buffer
  | [], buffer => ([], buffer)
  | call :: calls, buffer =>
    ((call.run buffer).delivered ++ (runCalls calls (call.run buffer).buffer).1, (runCalls calls (call.run buffer).buffer).2)

/-- The calls are reads and moves, and none of them is refused. -/
def Succeeds : List BufferCall → Buffer → Prop
  | [], _ => True
  | call :: calls, buffer => call.Consumes ∧ (call.run buffer).returned = true ∧ Succeeds calls (call.run buffer).buffer

/-- The law for a sequence: every call of it keeps to it where it is made, and reads and moves in a row that succeed
deliver what they consume. -/
structure BufferLaw (buffer : Buffer) (calls : List BufferCall) : Prop where
  each : ∀ before call after, calls = before ++ call :: after → call.Lawful (runCalls before buffer).2
  prefixes : ∀ before part after, calls = before ++ part ++ after → Succeeds part (runCalls before buffer).2 →
    Delivers (runCalls before buffer).2 (runCalls part (runCalls before buffer).2).1
      (runCalls part (runCalls before buffer).2).2

variable {buffer : Buffer}

theorem BufferCall.Lawful.wellFormed {call : BufferCall} (hb : buffer.WellFormed) (h : call.Lawful buffer) :
    (call.run buffer).buffer.WellFormed := by
  obtain ⟨hptr, hsize⟩ := h.same
  refine ⟨h.inside, ?_, ?_⟩
  · rw [hptr, hsize]
    exact hb.array
  · rw [hsize]
    exact hb.word

/-- What one call delivers and what the others do after it. -/
theorem Delivers.append {b b₁ b₂ : Buffer} {u w : Bytes} (hptr : b₁.ptr = b.ptr) (h₁ : Delivers b u b₁) (h₂ : Delivers b₁ w b₂) :
    Delivers b (u ++ w) b₂ := by
  constructor
  · rw [h₂.offset, h₁.offset, List.length_append, Nat.add_assoc]
  · have hrest : b₁.next w.length = ((b.ptr.drop b.offset).drop u.length).take w.length := by
      rw [Buffer.next, hptr, h₁.offset, List.drop_drop]
    rw [List.length_append, Buffer.next, List.take_add, ← hrest, ← h₂.bytes]
    exact congrArg (· ++ w) h₁.bytes

/-- Reads and moves in a row that succeed deliver what they consume, if each keeps to the law. -/
theorem delivers_of_succeeds {calls : List BufferCall} (hb : buffer.WellFormed)
    (hlawful : ∀ before call after, calls = before ++ call :: after → call.Lawful (runCalls before buffer).2)
    (hsucceeds : Succeeds calls buffer) : Delivers buffer (runCalls calls buffer).1 (runCalls calls buffer).2 := by
  induction calls generalizing buffer with
  | nil => exact ⟨rfl, rfl⟩
  | cons call calls ih =>
      obtain ⟨hconsumes, hreturned, hrest⟩ := hsucceeds
      have hcall : call.Lawful buffer := hlawful [] call calls rfl
      have hothers := ih (hcall.wellFormed hb) (fun before call' after hsplit => ?_) hrest
      · exact (hcall.consumes hconsumes hreturned).append hcall.same.1 hothers
      · exact hlawful (call :: before) call' after (congrArg (call :: ·) hsplit)

/-- Every call keeps the buffer well formed, one that overreaches too: it leaves the offset where it is. -/
theorem run_wellFormed (hb : buffer.WellFormed) (call : BufferCall) : (call.run buffer).buffer.WellFormed := by
  by_cases hover : call.Overreaches buffer
  · obtain ⟨⟨outLen, rfl, hroom⟩, _⟩ := hover
    have hrun : (BufferCall.move (some outLen)).run buffer = .ofTake buffer (bufferMove buffer outLen) := rfl
    rw [bufferMove_eq hb, if_neg (by omega), if_neg (by omega)] at hrun
    rw [hrun]
    exact hb
  · exact ((lawful_iff hb call).mpr hover).wellFormed hb

theorem runCalls_wellFormed (hb : buffer.WellFormed) (calls : List BufferCall) : (runCalls calls buffer).2.WellFormed := by
  induction calls generalizing buffer with
  | nil => exact hb
  | cons call calls ih => exact ih (run_wellFormed hb call)

theorem runCalls_append (calls calls' : List BufferCall) (buffer : Buffer) :
    (runCalls (calls ++ calls') buffer).2 = (runCalls calls' (runCalls calls buffer).2).2 := by
  induction calls generalizing buffer with
  | nil => rfl
  | cons call calls ih => exact ih (call.run buffer).buffer

/-- A sequence of calls on a buffer keeps to the law exactly when none of them is a move with more room than there are
bytes left, while there are some. -/
theorem bufferLaw_iff (hb : buffer.WellFormed) (calls : List BufferCall) :
    BufferLaw buffer calls ↔
      ∀ before call after, calls = before ++ call :: after → ¬call.Overreaches (runCalls before buffer).2 := by
  constructor
  · intro hlaw before call after hsplit
    exact (lawful_iff (runCalls_wellFormed hb before) call).mp (hlaw.each before call after hsplit)
  · intro hkept
    have heach : ∀ before call after, calls = before ++ call :: after → call.Lawful (runCalls before buffer).2 := by
      intro before call after hsplit
      exact (lawful_iff (runCalls_wellFormed hb before) call).mpr (hkept before call after hsplit)
    refine ⟨heach, fun before part after hsplit hsucceeds => ?_⟩
    refine delivers_of_succeeds (runCalls_wellFormed hb before) (fun before' call after' hpart => ?_) hsucceeds
    rw [← runCalls_append]
    apply heach (before ++ before') call (after' ++ after)
    rw [hsplit, hpart, List.append_assoc, List.append_assoc, List.append_assoc, List.cons_append]

/-- Five bytes, read as an integer of two and a move of the others. -/
theorem bufferLaw_iff_five :
    (BufferLaw ⟨[1, 2, 3, 4, 5], 5, 0⟩ [.readU16 .le, .copy (some 7), .move (some 3)] ↔
      ∀ (before : List BufferCall) (call : BufferCall) (after : List BufferCall),
        [.readU16 .le, .copy (some 7), .move (some 3)] = before ++ call :: after →
          ¬call.Overreaches (runCalls before ⟨[1, 2, 3, 4, 5], 5, 0⟩).2) :=
  @bufferLaw_iff ⟨[1, 2, 3, 4, 5], 5, 0⟩ ⟨by decide, by decide, by decide⟩ _

/-- Two moves with room for five deliver the three bytes twice. -/
theorem move_delivers_twice :
    runCalls [.move (some 5), .move (some 5)] ⟨[1, 2, 3], 3, 0⟩ = ([1, 2, 3, 1, 2, 3], ⟨[1, 2, 3], 3, 0⟩) ∧
      ¬BufferLaw ⟨[1, 2, 3], 3, 0⟩ [.move (some 5), .move (some 5)] := by
  refine ⟨by decide, fun hlaw => ?_⟩
  have hdelivers := hlaw.prefixes [] [.move (some 5), .move (some 5)] [] rfl ⟨trivial, by decide, trivial, by decide, trivial⟩
  exact absurd hdelivers.offset (by decide)

end Sequence

end HathorApp
