import LinkAggregation.Config.LagSettings

/-!
# Bounds of settings

However fields are applied to the settings of a LAG, the fallback timeout keeps to its limit.
-/
namespace LinkAggregation

/-- What succeeds has succeeded step by step. -/
theorem ok_of_bind {ε α β : Type} {x : Except ε α} {f : α → Except ε β} {b : β}
    (h : x >>= f = .ok b) : ∃ a, x = .ok a ∧ f a = .ok b := by
  cases x with
  | error error => simp [bind, Except.bind] at h
  | ok a => exact ⟨a, rfl, h⟩

namespace LagSettings
open Config
variable {s s' : LagSettings}

theorem readTimeout_le {field value : String} {seconds : Nat}
    (h : readTimeout field value = .ok seconds) : seconds ≤ maxFallbackTimeout := by
  obtain ⟨n, -, h⟩ := ok_of_bind h
  by_cases hn : maxFallbackTimeout < n.toNat
  · simp [hn, throw, throwThe, MonadExceptOf.throw, bind, Except.bind] at h
  · simp only [hn, if_false] at h
    obtain rfl : n.toNat = seconds := Except.ok.inj h
    omega

theorem timeout_le_of_withField {field : Field} (hs : s.fallbackTimeout ≤ maxFallbackTimeout)
    (h : s.withField field = .ok s') : s'.fallbackTimeout ≤ maxFallbackTimeout := by
  obtain ⟨name, value⟩ := field
  unfold withField at h
  -- Only one field sets the timeout, and its value has been checked.
  by_cases htimeout : name = "fallback_timeout"
  · subst htimeout
    simp only [String.reduceEq, if_false, if_true] at h
    obtain ⟨seconds, hread, h⟩ := ok_of_bind h
    obtain rfl := Except.ok.inj h
    exact readTimeout_le hread
  · have hkeep : s'.fallbackTimeout = s.fallbackTimeout := by
      simp only [if_neg htimeout] at h
      repeat' split at h
      all_goals
        first
        | (obtain ⟨_, -, h⟩ := ok_of_bind h; obtain rfl := Except.ok.inj h; rfl)
        | (obtain rfl := Except.ok.inj h; rfl)
    rw [hkeep]
    exact hs

theorem timeout_le_of_withFields {fields : List Field}
    (hs : s.fallbackTimeout ≤ maxFallbackTimeout) (h : s.withFields fields = .ok s') :
    s'.fallbackTimeout ≤ maxFallbackTimeout := by
  unfold withFields at h
  induction fields generalizing s with
  | nil =>
    obtain rfl : s = s' := Except.ok.inj h
    exact hs
  | cons field rest ih =>
    rw [List.foldlM_cons] at h
    obtain ⟨s₁, hfield, h⟩ := ok_of_bind h
    exact ih (timeout_le_of_withField hs hfield) h

end LagSettings
end LinkAggregation
