/-!
Steps of one on 32-bit numbers that stop at the ends of the range instead of wrapping around. On
natural numbers both are plain: `toNat_increment` caps the sum, `toNat_decrement` is the truncated
difference.
-/

namespace TileWalk

/-- One more than `n`, or `n` if it is the greatest 32-bit number. -/
def increment (n : UInt32) : UInt32 :=
  if n = 4294967295 then n else n + 1

/-- One less than `n`, or `n` if it is zero. -/
def decrement (n : UInt32) : UInt32 :=
  if n = 0 then n else n - 1

@[simp] theorem toNat_increment (n : UInt32) :
    (increment n).toNat = min (n.toNat + 1) 4294967295 := by
  have hn := n.toNat_lt
  unfold increment
  split
  · next h => subst h; decide
  · next h =>
    have : n.toNat ≠ 4294967295 := fun e => h (UInt32.toNat_inj.mp e)
    rw [UInt32.toNat_add, show (1 : UInt32).toNat = 1 from rfl]
    omega

theorem toNat_increment_of_lt {n : UInt32} (h : n.toNat < 4294967295) :
    (increment n).toNat = n.toNat + 1 := by
  rw [toNat_increment]
  omega

@[simp] theorem toNat_decrement (n : UInt32) : (decrement n).toNat = n.toNat - 1 := by
  unfold decrement
  split
  · next h => subst h; decide
  · next h =>
    have : n.toNat ≠ 0 := fun e => h (UInt32.toNat_inj.mp e)
    rw [UInt32.toNat_sub_of_le _ _ (UInt32.le_iff_toNat_le.mpr (by
      rw [show (1 : UInt32).toNat = 1 from rfl]; omega))]
    rfl

/-- A step down makes a number one less, unless it stays at zero. -/
theorem decrement_cases (n : UInt32) :
    (decrement n).toNat + 1 = n.toNat ∨ n = 0 ∧ decrement n = 0 := by
  by_cases hzero : n = 0
  · subst hzero
    exact .inr ⟨rfl, rfl⟩
  · have hpos : n.toNat ≠ 0 := fun h => hzero (UInt32.toNat_inj.mp h)
    rw [toNat_decrement]
    omega

/-- Away from the upper end a step up is undone by a step down. -/
theorem decrement_increment {n : UInt32} (h : n ≠ 4294967295) : decrement (increment n) = n := by
  have hn := n.toNat_lt
  have hne : n.toNat ≠ 4294967295 := fun e => h (UInt32.toNat_inj.mp e)
  apply UInt32.toNat_inj.mp
  simp only [toNat_decrement, toNat_increment]
  omega

/-- Away from zero a step down is undone by a step up. -/
theorem increment_decrement {n : UInt32} (h : n ≠ 0) : increment (decrement n) = n := by
  have hn := n.toNat_lt
  have hne : n.toNat ≠ 0 := fun e => h (UInt32.toNat_inj.mp e)
  apply UInt32.toNat_inj.mp
  simp only [toNat_decrement, toNat_increment]
  omega

end TileWalk
