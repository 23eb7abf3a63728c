/-!
# Counters

A counter holds a natural number of 64 bits. Addition stops at the greatest such number instead of
wrapping, so a counter never decreases and never overflows. The view of a counter is the number it
holds, and `toNat_add` says what addition does to it.
-/

set_option autoImplicit false

namespace SourceSurvey

/-- A counter: a number that fits into 64 bits. -/
structure Count where
  /-- The number counted so far. -/
  toNat : Nat
  /-- The number fits. -/
  toNat_lt : toNat < UInt64.size := by decide
  deriving DecidableEq, Repr

namespace Count

/-- The greatest counter. -/
def limit : Nat := UInt64.size - 1

/-- The counter closest to a number: the number itself, or the greatest counter. -/
def ofNat (n : Nat) : Count :=
  ⟨min n limit, by unfold limit UInt64.size; omega⟩

instance : OfNat Count 0 := ⟨⟨0, by decide⟩⟩

instance : OfNat Count 1 := ⟨⟨1, by decide⟩⟩

instance : Inhabited Count := ⟨0⟩

/-- Addition that stops at the greatest counter. -/
def add (m n : Count) : Count := ofNat (m.toNat + n.toNat)

instance : Add Count := ⟨add⟩

instance : ToString Count := ⟨fun n => toString n.toNat⟩

@[ext]
theorem ext {m n : Count} (h : m.toNat = n.toNat) : m = n := by
  cases m; cases n; cases h; rfl

/-- No counter is beyond the greatest one. -/
theorem le_limit (n : Count) : n.toNat ≤ limit := by
  have := n.toNat_lt; unfold limit; omega

@[simp]
theorem toNat_ofNat (n : Nat) : (ofNat n).toNat = min n limit := rfl

@[simp]
theorem toNat_zero : (0 : Count).toNat = 0 := rfl

@[simp]
theorem toNat_one : (1 : Count).toNat = 1 := rfl

/-- The sum of two counters is that of their numbers, or the greatest counter. -/
@[simp]
theorem toNat_add (m n : Count) : (m + n).toNat = min (m.toNat + n.toNat) limit := rfl

@[simp]
protected theorem zero_add (n : Count) : 0 + n = n := by
  ext; have := n.le_limit; simp only [toNat_add, toNat_zero]; omega

end Count

end SourceSurvey
