import LinkAggregation.Proofs.Protocol.Timing

/-!
# Bringing the receive machine in line

What the receive machine does when the port of a member or the mode of its LAG may have changed,
and when a running member learns of new settings of its LAG. Afterwards the receive state fits the
port and the mode, the flags fit the settings, and the timers fit both.
-/
namespace LinkAggregation

namespace Receive

/-- Brings the receive machine in line with the port and the mode. -/
def sync (slot : Nat) (enabled : Bool) (s : LagSettings) (p : Protocol) (t : Timers) (now : Nat) :
    Protocol × Timers :=
  if enabled = false then if p.receive = .portDisabled then (p, t) else portDisabled slot p t
  else if s.mode.isDynamic = false then
    if p.receive = .lacpDisabled then (p, t) else lacpDisabled slot p t
  else if p.receive.isRunning then (p, t)
  else enable slot p s.mode s.rate t now

/-- Tells a running machine of new settings of its dynamic LAG. -/
def retell (slot : Nat) (old new : LagSettings) (p : Protocol) (t : Timers) (now : Nat) :
    Protocol × Timers :=
  let flagsChanged := old.mode ≠ new.mode || old.rate ≠ new.rate
  let identityChanged := old.systemMac ≠ new.systemMac || old.systemPriority ≠ new.systemPriority
  if p.receive.isRunning = false then (p, t)
  else
    let told :=
      if flagsChanged then { p with actor := withSettings p.actor new.mode new.rate } else p
    ({ told with needToTransmit := told.needToTransmit || flagsChanged || identityChanged },
      if flagsChanged then rateChanged slot told t now else t)

variable {slot now : Nat} {enabled : Bool} {s old new : LagSettings} {p : Protocol} {t : Timers}
  {excused : Prop}

/-! ## After a change of the port or the mode -/

theorem follows_sync : Protocol.Follows s enabled (sync slot enabled s p t now).1 := by
  unfold Protocol.Follows sync
  split
  · split
    · next h => exact h
    · rfl
  · split
    · split
      · next h => exact h
      · rfl
    · split
      · next h => exact h
      · rfl

theorem truthful_sync (h : p.Truthful s) : (sync slot enabled s p t now).1.Truthful s := by
  unfold sync
  split
  · split
    · exact h
    · exact Protocol.truthful_portDisabled
  · split
    · split
      · exact h
      · exact Protocol.truthful_lacpDisabled
    · split
      · exact h
      · exact Protocol.truthful_enable

theorem timed_sync (h : p.Timed s excused now slot t.deadline?)
    (hexcused : enabled = false → excused) :
    (sync slot enabled s p t now).1.Timed s excused now slot
      (sync slot enabled s p t now).2.deadline? := by
  have hwaiting : s.mode.isDynamic = false → p.mux ≠ .waiting := by
    intro hstatic
    exact h.waits.dynamic (by simp [hstatic])
  unfold sync
  split
  · next hoff =>
    split
    · exact h
    · exact Protocol.timed_portDisabled hwaiting (hexcused hoff)
  · split
    · next hstatic =>
      split
      · exact h
      · exact Protocol.timed_lacpDisabled (hwaiting hstatic)
    · split
      · exact h
      · exact h.enable

/-- Only the timers of the slot are touched. -/
theorem deadline?_sync_of_ne {key : TimerKey} (hkey : key.interface? ≠ some slot) :
    (sync slot enabled s p t now).2.deadline? key = t.deadline? key := by
  have hcurrent : key ≠ .currentWhile slot := fun h => hkey (h ▸ rfl)
  unfold sync
  split
  · split
    · rfl
    · simp [portDisabled, hkey]
  · split
    · split
      · rfl
      · simp [lacpDisabled, hkey]
    · split
      · rfl
      · simp [enable, enterExpired, hcurrent]

theorem wellFormed_sync (h : t.WellFormed) : (sync slot enabled s p t now).2.WellFormed := by
  unfold sync
  split
  · split
    · exact h
    · exact h.cancelInterface _
  · split
    · split
      · exact h
      · exact h.cancelInterface _
    · split
      · exact h
      · exact h.arm _ _

/-! ## After a change of the settings -/

section
variable (hdynamic : new.mode.isDynamic = old.mode.isDynamic)

theorem retell_of_not_running (h : p.receive.isRunning = false) :
    retell slot old new p t now = (p, t) := by
  simp [retell, h]

theorem truthful_retell (h : p.Truthful old) (hrunning : p.receive.isRunning = true) :
    (retell slot old new p t now).1.Truthful new := by
  simp only [retell, hrunning, Bool.true_eq_false, if_false]
  split
  · exact (h.withSettings hrunning).congr rfl rfl rfl rfl rfl rfl
  · next hsame =>
    simp only [Bool.or_eq_true, decide_eq_true_eq, not_or, Decidable.not_not] at hsame
    exact (h.of_settings hsame.1.symm hsame.2.symm).congr rfl rfl rfl rfl rfl rfl

include hdynamic in
theorem timed_retell (h : p.Timed old excused now slot t.deadline?)
    (hrunning : p.receive.isRunning = true) :
    (retell slot old new p t now).1.Timed new excused now slot
      (retell slot old new p t now).2.deadline? := by
  simp only [retell, hrunning, Bool.true_eq_false, if_false]
  split
  · exact (h.rateChanged hdynamic hrunning).congr rfl rfl rfl rfl
      (fun side => by cases side <;> rfl) fun _ _ => rfl
  · next hsame =>
    simp only [Bool.or_eq_true, decide_eq_true_eq, not_or, Decidable.not_not] at hsame
    exact (h.of_settings hdynamic hsame.2.symm).congr rfl rfl rfl rfl
      (fun side => by cases side <;> rfl) fun _ _ => rfl

theorem receive_retell : (retell slot old new p t now).1.receive = p.receive := by
  unfold retell
  simp only
  split
  · rfl
  · split <;> rfl

theorem deadline?_rateChanged_of_ne {key : TimerKey} (hkey : key.interface? ≠ some slot) :
    (rateChanged slot p t now).deadline? key = t.deadline? key := by
  have hcurrent : key ≠ .currentWhile slot := fun h => hkey (h ▸ rfl)
  unfold rateChanged
  split <;> simp [hcurrent]

theorem wellFormed_rateChanged (h : t.WellFormed) : (rateChanged slot p t now).WellFormed := by
  unfold rateChanged
  split
  · exact h.arm _ _
  · exact h.arm _ _
  · exact h

theorem deadline?_retell_of_ne {key : TimerKey} (hkey : key.interface? ≠ some slot) :
    (retell slot old new p t now).2.deadline? key = t.deadline? key := by
  unfold retell
  simp only
  split
  · rfl
  · split
    · exact deadline?_rateChanged_of_ne hkey
    · rfl

theorem wellFormed_retell (h : t.WellFormed) :
    (retell slot old new p t now).2.WellFormed := by
  unfold retell
  simp only
  split
  · exact h
  · split
    · exact wellFormed_rateChanged h
    · exact h

end
end Receive
end LinkAggregation
