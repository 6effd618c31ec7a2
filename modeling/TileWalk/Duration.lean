import TileWalk.Refusal

/-!
Spans of time in whole nanoseconds, and the pacing of a run. A span is at most 2^64 - 1 seconds and
999999999 nanoseconds; sums saturate there and differences at zero. A pacing interval is positive by
its type, so dividing a span by it counts commands: `due` of them, with `leftover` time to spare.
-/

namespace TileWalk

/-- The number of nanoseconds in the longest span. -/
def maxNanos : Nat := 18446744073709551615999999999

/-- A span of time that fits into 64 bits of seconds. -/
structure Duration where
  nanos : Nat
  nanos_le : nanos ≤ maxNanos
deriving DecidableEq

namespace Duration

@[ext] theorem ext_nanos {a b : Duration} (h : a.nanos = b.nanos) : a = b := by
  cases a; cases b; simp_all

def zero : Duration := ⟨0, Nat.zero_le _⟩

instance : Inhabited Duration := ⟨zero⟩

/-- The span of this many nanoseconds, if there is one. -/
def ofNanos? (nanos : Nat) : Option Duration :=
  if h : nanos ≤ maxNanos then some ⟨nanos, h⟩ else none

def ofMillis (millis : UInt64) : Duration :=
  ⟨millis.toNat * 1000000, by have := millis.toNat_lt; unfold maxNanos; omega⟩

def millis (d : Duration) : Nat := d.nanos / 1000000

/-- The sum, or the longest span if the sum is longer. -/
def add (a b : Duration) : Duration :=
  ⟨min (a.nanos + b.nanos) maxNanos, Nat.min_le_right _ _⟩

/-- What is left of `a` after `b`, no time if `b` is longer. -/
def sub (a b : Duration) : Duration :=
  ⟨a.nanos - b.nanos, by have := a.nanos_le; omega⟩

instance : Add Duration := ⟨add⟩

instance : Sub Duration := ⟨sub⟩

@[simp] theorem nanos_zero : zero.nanos = 0 := rfl

@[simp] theorem nanos_add (a b : Duration) : (a + b).nanos = min (a.nanos + b.nanos) maxNanos := rfl

@[simp] theorem nanos_sub (a b : Duration) : (a - b).nanos = a.nanos - b.nanos := rfl

/-- Short of saturation a sum of spans is the sum of their nanoseconds. -/
theorem nanos_add_of_le {a b : Duration} (h : a.nanos + b.nanos ≤ maxNanos) :
    (a + b).nanos = a.nanos + b.nanos := by
  rw [nanos_add]; omega

end Duration

/-- The delay before each executed command. -/
structure Pacing where
  interval : Duration
  positive : 0 < interval.nanos
deriving DecidableEq

namespace Pacing

/-- The pacing of 300 milliseconds, used unless another is configured. -/
def standard : Pacing := ⟨Duration.ofMillis 300, by decide⟩

instance : Inhabited Pacing := ⟨standard⟩

/-- The pacing with this interval. A zero interval is refused: an endless program would never
yield. -/
def ofInterval (interval : Duration) : Except Refusal Pacing :=
  if h : 0 < interval.nanos then .ok ⟨interval, h⟩ else .error .zeroPacing

/-- How many commands fall due in `elapsed`. -/
def due (p : Pacing) (elapsed : Duration) : Nat :=
  elapsed.nanos / p.interval.nanos

/-- The part of `elapsed` that makes up no whole interval. -/
def leftover (p : Pacing) (elapsed : Duration) : Duration :=
  ⟨elapsed.nanos % p.interval.nanos,
    Nat.le_trans (Nat.mod_le _ _) elapsed.nanos_le⟩

/-- Elapsed time is the intervals that fell due and what is left over. -/
theorem due_mul_add_leftover (p : Pacing) (elapsed : Duration) :
    p.due elapsed * p.interval.nanos + (p.leftover elapsed).nanos = elapsed.nanos := by
  rw [Nat.mul_comm]
  exact Nat.div_add_mod _ _

theorem leftover_lt (p : Pacing) (elapsed : Duration) :
    (p.leftover elapsed).nanos < p.interval.nanos :=
  Nat.mod_lt _ p.positive

theorem due_eq_zero_iff (p : Pacing) (elapsed : Duration) :
    p.due elapsed = 0 ↔ elapsed.nanos < p.interval.nanos := by
  rw [due, Nat.div_eq_zero_iff]
  have := p.positive
  omega

end Pacing

end TileWalk
