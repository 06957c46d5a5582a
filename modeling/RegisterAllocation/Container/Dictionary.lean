/-!
# Dictionaries

A finite map. A key has one entry at most: setting it again replaces the old one.
-/

namespace RegisterAllocation

/-- A finite map from keys to values. -/
structure Dictionary (κ α : Type) where
  /-- The entries, the latest first. -/
  entries : List (κ × α) := []
deriving Repr

namespace Dictionary

variable {κ α : Type}

def size (dictionary : Dictionary κ α) : Nat := dictionary.entries.length

variable [DecidableEq κ]

def get? (dictionary : Dictionary κ α) (key : κ) : Option α :=
  (dictionary.entries.find? (·.1 = key)).map (·.2)

def set (dictionary : Dictionary κ α) (key : κ) (x : α) : Dictionary κ α :=
  ⟨(key, x) :: dictionary.entries.filter (·.1 ≠ key)⟩

@[simp] theorem get?_empty (key : κ) : ({} : Dictionary κ α).get? key = none := rfl

/-- Setting a key changes nothing for other keys. -/
@[simp] theorem get?_set (dictionary : Dictionary κ α) (key other : κ) (x : α) :
    (dictionary.set key x).get? other = if key = other then some x else dictionary.get? other := by
  by_cases h : key = other
  · simp [get?, set, h]
  · have hkept : (dictionary.entries.filter (·.1 ≠ key)).find? (·.1 = other) =
        dictionary.entries.find? (·.1 = other) := by
      rw [List.find?_filter]
      congr 1
      funext entry
      by_cases hentry : entry.1 = other <;> simp [hentry, Ne.symm h]
    simp only [get?, set, List.find?_cons, h, decide_false, if_false, hkept]

end Dictionary
end RegisterAllocation
