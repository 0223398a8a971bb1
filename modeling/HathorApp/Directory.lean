import Mathlib.Data.List.Basic

/-!
Directories of bounded size. Entries are filed one behind the other and stay as they are until all of them are dropped. A
key is looked up to the first entry that has it, so an entry hides what is filed under its key later.
-/

/-- At most `capacity` values, each filed under a key. -/
structure Directory (κ ν : Type) (capacity : Nat) where
  entries : List (κ × ν)
  bounded : entries.length ≤ capacity

namespace Directory

variable {κ ν : Type} {capacity : Nat}

def empty : Directory κ ν capacity := ⟨[], Nat.zero_le capacity⟩

/-- There is no room for another entry. -/
def Full (dir : Directory κ ν capacity) : Prop := capacity ≤ dir.entries.length

instance (dir : Directory κ ν capacity) : Decidable dir.Full := inferInstanceAs (Decidable (capacity ≤ _))

def file (dir : Directory κ ν capacity) (key : κ) (value : ν) (room : ¬dir.Full) : Directory κ ν capacity where
  entries := dir.entries ++ [(key, value)]
  bounded := by
    rw [List.length_append]
    exact Nat.lt_of_not_le room

def lookup [DecidableEq κ] (dir : Directory κ ν capacity) (key : κ) : Option ν :=
  (dir.entries.find? (·.1 = key)).map (·.2)

/-- The first slots of an array hold the entries. -/
def Filed (dir : Directory κ ν capacity) (len : Nat) (slot : Nat → κ × ν) : Prop :=
  dir.entries = (List.range len).map slot

section Filed

variable {dir : Directory κ ν capacity} {len : Nat} {slot slot' : Nat → κ × ν}

theorem filed_empty : (empty : Directory κ ν capacity).Filed 0 slot := rfl

theorem Filed.length (h : dir.Filed len slot) : dir.entries.length = len := by
  rw [h, List.length_map, List.length_range]

theorem Filed.full_iff (h : dir.Filed len slot) : dir.Full ↔ capacity ≤ len := by rw [Full, h.length]

/-- One slot more, the others as they were. -/
theorem Filed.file (h : dir.Filed len slot) (hkept : ∀ k < len, slot' k = slot k) (room : ¬dir.Full) :
    (dir.file (slot' len).1 (slot' len).2 room).Filed (len + 1) slot' := by
  have hslots : (List.range len).map slot' = (List.range len).map slot := by
    apply List.map_congr_left
    intro k hk
    exact hkept k (List.mem_range.mp hk)
  calc
    dir.entries ++ [((slot' len).1, (slot' len).2)] = (List.range len).map slot' ++ [slot' len] := by rw [h, hslots]
    _ = (List.range (len + 1)).map slot' := by rw [List.range_succ, List.map_append, List.map_singleton]

/-- A search through the slots is a lookup. -/
theorem Filed.lookup_eq [DecidableEq κ] (h : dir.Filed len slot) (key : κ) :
    dir.lookup key = ((List.range len).find? fun k => (slot k).1 = key).map fun k => (slot k).2 := by
  unfold lookup
  rw [h, List.find?_map, Option.map_map]
  rfl

end Filed

section Lookup

variable [DecidableEq κ] {dir : Directory κ ν capacity} {key : κ} {value : ν} {room : ¬dir.Full}

@[simp] theorem lookup_empty (key : κ) : (empty : Directory κ ν capacity).lookup key = none := rfl

/-- The new entry is found where nothing was found before. -/
theorem lookup_file (key' : κ) :
    (dir.file key value room).lookup key' = (dir.lookup key').or (if key = key' then some value else none) := by
  have hlast : [(key, value)].find? (fun entry => entry.1 = key') = if key = key' then some (key, value) else none := by
    by_cases h : key = key' <;> simp [h]
  unfold lookup file
  rw [List.find?_append, Option.map_or, hlast]
  congr 1
  split <;> rfl

/-- An entry stays in sight. -/
theorem lookup_file_of_some {key' : κ} {value' : ν} (h : dir.lookup key' = some value') :
    (dir.file key value room).lookup key' = some value' := by
  rw [lookup_file, h, Option.some_or]

end Lookup

end Directory
