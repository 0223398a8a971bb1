import HathorApp.IntegerText
import Mathlib.Data.Nat.Bitwise

/-!
A derivation path as text. `bip32_path_format` appends one text after the other with `snprintf`, and looks for a
cut in the length of what was written. That length is below the size given also when the text is cut, so a cut
is noticed only by the next append, which finds no room at all; the last append has none after it.
-/

namespace HathorApp

open CellArray PositionalNumeral

/-- A level without its top bit, and an apostrophe if it is hardened. -/
def levelText (level : Nat) : Bytes := decimalText (level % 2 ^ 31) ++ if level ≥ 2 ^ 31 then [39] else []

/-- The levels with a `/` between them. -/
def pathText (path : Bip32Path) : Bytes := [47].intercalate (path.map levelText)

def readLevel (text : Bytes) : Nat :=
  if text.getLast? = some 39 then readDecimal text.dropLast + 2 ^ 31 else readDecimal text

def readPathText (text : Bytes) : Bip32Path := (text.splitOn 47).map readLevel

theorem readLevel_levelText {level : Nat} (h : level < 2 ^ 32) : readLevel (levelText level) = level := by
  unfold readLevel levelText
  by_cases hhard : level ≥ 2 ^ 31
  · rw [if_pos hhard, List.getLast?_append, List.dropLast_concat, readDecimal_decimalText]
    rw [if_pos (by rfl)]
    omega
  · rw [if_neg hhard, List.append_nil, readDecimal_decimalText, if_neg]
    · omega
    · intro hlast
      have hdigit := le_of_mem_decimalText (List.mem_of_getLast? hlast)
      revert hdigit
      decide

theorem separator_not_mem_levelText (level : Nat) : 47 ∉ levelText level := by
  unfold levelText
  rw [List.mem_append, not_or]
  constructor
  · intro h
    have hdigit := le_of_mem_decimalText h
    revert hdigit
    decide
  · split <;> decide

/-- The path can be read back from its text. -/
theorem readPathText_pathText {path : Bip32Path} (hpath : path ≠ []) (hlevels : ∀ level ∈ path, level < 2 ^ 32) :
    readPathText (pathText path) = path := by
  have hsplit : (pathText path).splitOn 47 = path.map levelText := by
    apply List.splitOn_intercalate
    · intro text htext
      rcases List.mem_map.mp htext with ⟨level, _, rfl⟩
      exact separator_not_mem_levelText level
    · rwa [Ne, List.map_eq_nil_iff]
  rw [readPathText, hsplit, List.map_map]
  conv_rhs => rw [← List.map_id path]
  apply List.map_congr_left
  intro level hlevel
  exact readLevel_levelText (hlevels level hlevel)

section Append

variable {done rest text : Bytes}

/-- An append keeps what fits before the last cell. It is refused only where no character fits. -/
theorem bip32Append_eq (htext : text ≠ []) (hnul : 0 ∉ text) (hrest : 1 ≤ rest.length) :
    bip32Append (done ++ rest) (done.length + rest.length) done.length text =
      if rest.length = 1 then some (List.replicate (done.length + rest.length) 0, none)
      else some (done ++ text.take (rest.length - 1) ++ 0 :: rest.drop (text.length + 1),
        some (done.length + min text.length (rest.length - 1))) := by
  have hpos := List.length_pos_iff.mpr htext
  have hsize : done.length + rest.length - done.length = rest.length := Nat.add_sub_cancel_left ..
  have hkept : (text.take (rest.length - 1)).length = min (rest.length - 1) text.length := List.length_take
  have hwritten : (text.take (rest.length - 1) ++ [0]).length = min (rest.length - 1) text.length + 1 := by
    rw [List.length_append, hkept, List.length_singleton]
  have hprint : snprintf (done ++ rest) done.length rest.length text =
      some (done ++ text.take (rest.length - 1) ++ 0 :: rest.drop (min (rest.length - 1) text.length + 1)) := by
    rw [snprintf, if_neg (by omega), writeAll_behind, hwritten, if_pos (by omega)]
    simp
  have hstring : cString ((done ++ text.take (rest.length - 1) ++
      0 :: rest.drop (min (rest.length - 1) text.length + 1)).drop done.length) = text.take (rest.length - 1) := by
    rw [List.append_assoc, List.drop_left, cString_append_nul, cString_eq_self]
    exact fun h => hnul (List.mem_of_mem_take h)
  have hdrop : rest.drop (min (rest.length - 1) text.length + 1) = rest.drop (text.length + 1) := by
    rcases Nat.le_total text.length (rest.length - 1) with hle | hle
    · rw [Nat.min_eq_right hle]
    · rw [List.drop_of_length_le (by omega), List.drop_of_length_le (by omega)]
  unfold bip32Append
  rw [hsize, hprint]
  dsimp only [Option.bind_eq_bind, Option.bind_some]
  rw [hstring, hkept, hdrop]
  by_cases hone : rest.length = 1
  · rw [if_pos (by omega), if_pos hone]
    rfl
  · rw [if_neg (by omega), if_neg hone, Nat.min_comm]
    rfl

end Append

/-- Several appends are refused unless a character of the last text fits, and otherwise leave as much of all texts as
fits before the last cell. -/
theorem bip32AppendAll_eq {done rest : Bytes} (texts : List Bytes) (hne : texts ≠ [])
    (htexts : ∀ text ∈ texts, text ≠ [] ∧ 0 ∉ text) (hrest : 1 ≤ rest.length) :
    bip32AppendAll (done.length + rest.length) texts (done ++ rest) done.length =
      if texts.dropLast.flatten.length + 1 < rest.length then
        some (done ++ texts.flatten.take (rest.length - 1) ++ 0 :: rest.drop (texts.flatten.length + 1),
          some (done.length + min texts.flatten.length (rest.length - 1)))
      else some (List.replicate (done.length + rest.length) 0, none) := by
  induction texts generalizing done rest with
  | nil => exact absurd rfl hne
  | cons text texts ih =>
      obtain ⟨⟨htext, hnul⟩, htexts'⟩ := List.forall_mem_cons.mp htexts
      have hpos := List.length_pos_iff.mpr htext
      rw [bip32AppendAll, bip32Append_eq htext hnul hrest]
      by_cases hone : rest.length = 1
      · rw [if_pos hone, if_neg (by omega)]
      · rw [if_neg hone]
        dsimp only
        cases texts with
        | nil =>
            rw [bip32AppendAll, if_pos (by show 0 + 1 < _; omega), List.flatten_singleton]
        | cons next texts =>
            have hinit : (text :: next :: texts).dropLast.flatten.length =
                text.length + (next :: texts).dropLast.flatten.length := by
              rw [← List.length_append]
              rfl
            have hall : (text :: next :: texts).flatten = text ++ (next :: texts).flatten := List.flatten_cons
            have hdone : (done ++ text.take (rest.length - 1)).length = done.length + min text.length (rest.length - 1) := by
              rw [List.length_append, List.length_take, Nat.min_comm]
            have hbehind : (0 :: rest.drop (text.length + 1)).length = rest.length - (text.length + 1) + 1 := by
              rw [List.length_cons, List.length_drop]
            have hsize : (done ++ text.take (rest.length - 1)).length + (0 :: rest.drop (text.length + 1)).length =
                done.length + rest.length := by omega
            have hnext := @ih (done ++ text.take (rest.length - 1)) (0 :: rest.drop (text.length + 1))
              (List.cons_ne_nil next texts) htexts' (by omega)
            rw [hsize, hdone, hbehind, Nat.add_sub_cancel, List.drop_succ_cons, List.drop_drop] at hnext
            rw [hnext, hinit, hall, List.length_append]
            generalize (next :: texts).dropLast.flatten.length = before
            generalize (next :: texts).flatten = later
            by_cases hroom : text.length + before + 1 < rest.length
            · have htake : text.take (rest.length - 1) = text := List.take_of_length_le (by omega)
              have hlater : rest.length - (text.length + 1) = rest.length - 1 - text.length := by omega
              have hmin : done.length + min text.length (rest.length - 1) +
                  min later.length (rest.length - 1 - text.length) =
                    done.length + min (text.length + later.length) (rest.length - 1) := by omega
              have hindex : text.length + 1 + later.length = text.length + later.length + 1 := by omega
              rw [if_pos (by omega), if_pos hroom, htake, hlater, hmin, hindex, List.take_append, htake]
              simp only [List.append_assoc]
            · rw [if_neg (by omega), if_neg hroom]

/-! ### `bip32_path_format` -/

/-- All texts appended for a path. -/
def pathTexts : Bip32Path → List Bytes
  | [] => []
  | level :: rest => bip32LevelTexts level rest.isEmpty ++ pathTexts rest

/-- Appends that are refused end the whole run. -/
theorem bip32AppendAll_append (outLen : Nat) (a b : List Bytes) (out : Bytes) (offset : Nat) :
    bip32AppendAll outLen (a ++ b) out offset = (bip32AppendAll outLen a out offset).bind fun r =>
      match r.2 with
      | none => some (r.1, none)
      | some offset => bip32AppendAll outLen b r.1 offset := by
  induction a generalizing out offset with
  | nil => rfl
  | cons text a ih =>
      rw [List.cons_append, bip32AppendAll, bip32AppendAll]
      cases bip32Append out outLen offset text with
      | none => rfl
      | some r =>
          rcases r with ⟨out, _ | offset⟩
          · rfl
          · exact ih out offset

theorem bip32FormatLoop_eq (outLen : Nat) (path : Bip32Path) (out : Bytes) (offset : Nat) :
    bip32FormatLoop outLen path out offset =
      (bip32AppendAll outLen (pathTexts path) out offset).map fun r => (r.2.isSome, r.1) := by
  induction path generalizing out offset with
  | nil => rfl
  | cons level rest ih =>
      rw [bip32FormatLoop, pathTexts, bip32AppendAll_append]
      cases bip32AppendAll outLen (bip32LevelTexts level rest.isEmpty) out offset with
      | none => rfl
      | some r =>
          rcases r with ⟨out, _ | offset⟩
          · rfl
          · exact ih out offset

/-- The top bit marks a hardened level. -/
theorem and_topBit {level : Nat} (h : level < 2 ^ 32) : level &&& 0x80000000 ≠ 0 ↔ level ≥ 2 ^ 31 := by
  have hbit : level &&& 0x80000000 = 2 ^ 31 * (level.testBit 31).toNat := by
    rw [Nat.and_comm]
    exact Nat.two_pow_and level 31
  rw [hbit]
  by_cases hhard : level ≥ 2 ^ 31
  · have htop : level.testBit 31 = true := by
      rw [Nat.testBit_eq_decide_div_mod_eq, decide_eq_true_eq]
      omega
    rw [htop]
    exact ⟨fun _ => hhard, fun _ => by decide⟩
  · rw [Nat.testBit_lt_two_pow (by omega)]
    exact ⟨fun h => absurd rfl h, fun h => absurd h hhard⟩

section Levels

variable {level : Nat} (hlevel : level < 2 ^ 32) (last : Bool)

include hlevel

theorem levelTexts_eq : bip32LevelTexts level last =
    decimalText (level % 2 ^ 31) :: ((if level ≥ 2 ^ 31 then [[39]] else []) ++ if last then [] else [[47]]) := by
  have hlow : level &&& 0x7FFFFFFF = level % 2 ^ 31 := Nat.and_two_pow_sub_one_eq_mod level 31
  unfold bip32LevelTexts
  rw [hlow]
  by_cases hhard : level ≥ 2 ^ 31
  · rw [if_pos ((and_topBit hlevel).mpr hhard), if_pos hhard]
  · rw [if_neg (fun h => hhard ((and_topBit hlevel).mp h)), if_neg hhard]

theorem levelTexts_flatten : (bip32LevelTexts level last).flatten = levelText level ++ if last then [] else [47] := by
  rw [levelTexts_eq hlevel, levelText]
  split <;> cases last <;> simp

theorem levelTexts_nonempty : ∀ text ∈ bip32LevelTexts level last, text ≠ [] ∧ 0 ∉ text := by
  have hnumber : decimalText (level % 2 ^ 31) ≠ [] ∧ 0 ∉ decimalText (level % 2 ^ 31) :=
    ⟨decimalText_ne_nil _, zero_not_mem_decimalText _⟩
  have hmark : ([39] : Bytes) ≠ [] ∧ 0 ∉ ([39] : Bytes) := by decide
  have hslash : ([47] : Bytes) ≠ [] ∧ 0 ∉ ([47] : Bytes) := by decide
  rw [levelTexts_eq hlevel]
  refine List.forall_mem_cons.mpr ⟨hnumber, ?_⟩
  split <;> cases last <;> simp [hmark, hslash]

end Levels

section Path

variable {path : Bip32Path} (hlevels : ∀ level ∈ path, level < 2 ^ 32)

include hlevels

theorem pathTexts_flatten : (pathTexts path).flatten = pathText path := by
  induction path with
  | nil => rfl
  | cons level rest ih =>
      obtain ⟨hlevel, hrest⟩ := List.forall_mem_cons.mp hlevels
      rw [pathTexts, List.flatten_append, levelTexts_flatten hlevel, ih hrest]
      cases rest with
      | nil => simp [pathText]
      | cons next rest => simp [pathText]

theorem pathTexts_nonempty : ∀ text ∈ pathTexts path, text ≠ [] ∧ 0 ∉ text := by
  induction path with
  | nil => simp [pathTexts]
  | cons level rest ih =>
      obtain ⟨hlevel, hrest⟩ := List.forall_mem_cons.mp hlevels
      rw [pathTexts]
      exact List.forall_mem_append.mpr ⟨levelTexts_nonempty hlevel _, ih hrest⟩

/-- The last text is the apostrophe of the last level, or its number if it is not hardened. -/
theorem pathTexts_eq_concat (hpath : path ≠ []) : ∃ level before, path.getLast? = some level ∧
    pathTexts path = before ++ [if level ≥ 2 ^ 31 then [39] else decimalText level] := by
  induction path with
  | nil => exact absurd rfl hpath
  | cons level rest ih =>
      obtain ⟨hlevel, hrest⟩ := List.forall_mem_cons.mp hlevels
      cases rest with
      | nil =>
          rw [pathTexts, levelTexts_eq hlevel]
          by_cases hhard : level ≥ 2 ^ 31
          · refine ⟨level, [decimalText (level % 2 ^ 31)], rfl, ?_⟩
            rw [if_pos hhard, if_pos hhard]
            rfl
          · refine ⟨level, [], rfl, ?_⟩
            rw [if_neg hhard, if_neg hhard, Nat.mod_eq_of_lt (by omega)]
            rfl
      | cons next rest =>
          rcases ih hrest (List.cons_ne_nil _ _) with ⟨last, before, hlast, htexts⟩
          refine ⟨last, bip32LevelTexts level false ++ before, ?_, ?_⟩
          · rw [List.getLast?_cons_cons, hlast]
          · rw [pathTexts, htexts, List.append_assoc]
            rfl

end Path

/-- The array ends inside the number of the last level, which is not hardened: at least one of its digits fits, but
not the whole with its NUL. -/
def CutInLastNumber (path : Bip32Path) (outLen : Nat) : Prop :=
  ∃ level, path.getLast? = some level ∧ level < 2 ^ 31 ∧
    (pathText path).length - (decimalText level).length + 1 < outLen ∧ outLen ≤ (pathText path).length

/-- `bip32_path_format` returns true where the text and its NUL fit, and then the array holds them and the path can be
read back; otherwise it returns false and the array is all zero. -/
def FormatsPath (path : Bip32Path) (out : Bytes) : Prop :=
  ∃ returned out', bip32PathFormat path out out.length = some (returned, out') ∧
    (returned = true ↔ (pathText path).length + 1 ≤ out.length) ∧
    (returned = true → out' = pathText path ++ 0 :: out.drop ((pathText path).length + 1) ∧
      readPathText (pathText path) = path) ∧
    (returned = false → out' = List.replicate out.length 0)

/-- It does so unless the array ends inside the number of the last level. -/
theorem bip32PathFormat_exact_iff {path : Bip32Path} {out : Bytes} (hpath : 1 ≤ path.length ∧ path.length ≤ maxBip32Path)
    (hlevels : ∀ level ∈ path, level < 2 ^ 32) (hout : 1 ≤ out.length) :
    FormatsPath path out ↔ ¬CutInLastNumber path out.length := by
  have hne : path ≠ [] := List.length_pos_iff.mp hpath.1
  rcases pathTexts_eq_concat hlevels hne with ⟨level, before, hlast, htexts⟩
  have hflatten := pathTexts_flatten hlevels
  have hinit : (pathTexts path).dropLast = before := by rw [htexts, List.dropLast_concat]
  have htotal : (pathText path).length =
      before.flatten.length + (if level ≥ 2 ^ 31 then [39] else decimalText level).length := by
    rw [← hflatten, htexts, List.flatten_append, List.flatten_singleton, List.length_append]
  have hrun : bip32PathFormat path out out.length =
      if before.flatten.length + 1 < out.length then
        some (true, (pathText path).take (out.length - 1) ++ 0 :: out.drop ((pathText path).length + 1))
      else some (false, List.replicate out.length 0) := by
    have hall := @bip32AppendAll_eq [] out (pathTexts path) (by simp [htexts]) (pathTexts_nonempty hlevels) hout
    rw [List.length_nil, Nat.zero_add, List.nil_append, hinit, hflatten] at hall
    rw [bip32PathFormat, if_neg (by omega), bip32FormatLoop_eq, hall]
    split <;> rfl
  have hcut : CutInLastNumber path out.length ↔
      before.flatten.length + 1 < out.length ∧ out.length ≤ (pathText path).length := by
    unfold CutInLastNumber
    constructor
    · rintro ⟨level', hlevel', hplain, hroom, hshort⟩
      rw [hlast, Option.some.injEq] at hlevel'
      subst hlevel'
      rw [if_neg (by omega)] at htotal
      exact ⟨by omega, hshort⟩
    · rintro ⟨hroom, hshort⟩
      by_cases hhard : level ≥ 2 ^ 31
      · rw [if_pos hhard, List.length_singleton] at htotal
        omega
      · rw [if_neg hhard] at htotal
        exact ⟨level, hlast, by omega, by omega, hshort⟩
  have hlength : 0 < (if level ≥ 2 ^ 31 then [39] else decimalText level).length := by
    split
    · decide
    · exact length_decimalText_pos level
  rw [hcut, FormatsPath, hrun]
  by_cases hroom : before.flatten.length + 1 < out.length
  · rw [if_pos hroom]
    constructor
    · rintro ⟨returned, out', hout', hreturned, _⟩ ⟨_, hshort⟩
      obtain ⟨rfl, rfl⟩ := Prod.mk.injEq .. ▸ Option.some.inj hout'
      have := hreturned.mp rfl
      omega
    · intro hwhole
      have hfits : (pathText path).length + 1 ≤ out.length := by omega
      rw [List.take_of_length_le (by omega)]
      refine ⟨true, _, rfl, ⟨fun _ => hfits, fun _ => rfl⟩, fun _ => ⟨rfl, readPathText_pathText hne hlevels⟩, fun h => ?_⟩
      cases h
  · rw [if_neg hroom]
    refine ⟨fun _ h => hroom h.1, fun _ => ⟨false, _, rfl, ⟨fun h => ?_, fun h => by omega⟩, fun h => ?_, fun _ => rfl⟩⟩
    · cases h
    · cases h

/-- The path of an address in an array of thirty cells. -/
theorem bip32PathFormat_exact_iff_address :
    FormatsPath [2 ^ 31 + 44, 2 ^ 31 + 280, 2 ^ 31, 0, 12345] (List.replicate 30 1) ↔
      ¬CutInLastNumber [2 ^ 31 + 44, 2 ^ 31 + 280, 2 ^ 31, 0, 12345] (List.replicate 30 (1 : UInt8)).length :=
  bip32PathFormat_exact_iff (by decide) (by decide) (by decide)

/-- In an array of three cells the path 12345 is shown as 12. -/
theorem bip32PathFormat_cuts :
    bip32PathFormat [12345] [1, 1, 1] 3 = some (true, [49, 50, 0]) ∧ ¬FormatsPath [12345] [1, 1, 1] := by
  have hrun : bip32PathFormat [12345] [1, 1, 1] 3 = some (true, [49, 50, 0]) := by decide +kernel
  refine ⟨hrun, ?_⟩
  rintro ⟨returned, out', hrun', hreturned, _⟩
  have hlength : ([1, 1, 1] : Bytes).length = 3 := rfl
  rw [hlength, hrun] at hrun'
  cases hrun'
  have hfits := hreturned.mp rfl
  have htext : (pathText [12345]).length = 5 := by decide +kernel
  omega

end HathorApp
