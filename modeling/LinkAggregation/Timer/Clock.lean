/-!
# Sums of times

Times are counted in milliseconds and kept in 64 bits. The end of a period is computed without a
check, so what a sum is that does not fit depends on how the engine was built: it may wrap. The
engine is written for every such addition; where none is named, it computes exactly.
-/
namespace LinkAggregation

/-- The last time that 64 bits hold. -/
def lastTime : Nat := UInt64.size - 1

/-- The last time to which the clock may be set so that no sum is beyond the last time. -/
def lastClock : Nat := lastTime - 900000

/-- An addition of periods to times that is exact as long as the sum fits. -/
class Clock where
  /-- The end of a period that begins at `time`. -/
  after (time period : Nat) : Nat
  after_of_le {time period : Nat} (h : time + period ≤ lastTime) : after time period = time + period

namespace Clock

instance exact : Clock where
  after time period := time + period
  after_of_le _ := rfl

@[simp] theorem after_exact (time period : Nat) : after time period = time + period := rfl

/-- The addition of 64-bit words without a check. -/
abbrev wrapping : Clock where
  after time period := (time + period) % UInt64.size
  after_of_le h := Nat.mod_eq_of_lt (Nat.lt_of_le_of_lt h (by decide))

/-- One period beyond the last time is shortly after the first one. -/
example : @after wrapping lastTime 1000 = 999 := by decide

end Clock
end LinkAggregation
