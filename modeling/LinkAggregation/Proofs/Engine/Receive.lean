import LinkAggregation.Engine.Receive
import LinkAggregation.Proofs.Engine.Configure

/-!
# Received frames keep the engine stable

Counters are part of no decision, so counting changes nothing that matters. Apart from that a
received frame is either the record of a partner, which is evaluated, or an answer to a marker.
-/
namespace LinkAggregation

/-- A recorded partner keeps the member in line with its LAG. -/
theorem Interface.Sound.record {s : LagSettings} {now slot : Nat} {i : Interface} {t : Timers}
    {own : Endpoint} {pdu : Lacpdu} {ntt : Bool} (h : i.Sound s False now slot t.deadline?)
    (hrunning : i.protocol.receive.isRunning = true) :
    Interface.Sound s True now slot
      { i with protocol :=
        { (Receive.record slot i.protocol own pdu t now).1 with needToTransmit := ntt } }
      (Receive.record slot i.protocol own pdu t now).2.1.deadline? := by
  obtain ⟨henabled, hdynamic⟩ := h.follows.of_running hrunning
  have hsettings := h.truthful.settings hrunning
  have htimed : i.protocol.Timed s (True ∧ i.isEnabled = false) now slot t.deadline? :=
    h.timed.mono fun hexcused => hexcused.1.elim
  refine ⟨?_, ?_, ?_⟩
  · have hkeep : Interface.isEnabled { i with protocol :=
        { (Receive.record slot i.protocol own pdu t now).1 with needToTransmit := ntt } } = true :=
      henabled
    rw [hkeep, Protocol.follows_iff_of_enabled hdynamic]
    rfl
  · have htruthful : Protocol.Truthful s (Receive.record slot i.protocol own pdu t now).1 :=
      h.truthful.record hrunning
    exact htruthful.congr rfl rfl rfl rfl rfl rfl
  · exact (htimed.record hsettings).congr rfl rfl rfl rfl (fun side => by cases side <;> rfl)
      fun _ _ => rfl

namespace Engine
variable {e : Engine} {l slot : Nat} {lag : Lag} {i : Interface} {changed : Nat → Prop}

/-! ## Counting -/

/-- What counting in a slot makes of the interface in a slot. -/
def recount (slot : Nat) (f : Counters → Counters) (s : Nat) (i : Interface) : Interface :=
  { i with counters := if slot = s then f i.counters else i.counters }

section
variable (slot : Nat) (f : Counters → Counters)

theorem get?_count (s : Nat) :
    (e.count slot f).interfaces.get? s = (e.interfaces.get? s).map (recount slot f s) := by
  rw [count, modifyInterface, Arena.get?_modify]
  cases e.interfaces.get? s with
  | none => simp
  | some i =>
    by_cases hslot : slot = s
    · simp [recount, hslot]
    · simp [recount, hslot]

theorem isMember_count (k s : Nat) : (e.count slot f).IsMember k s ↔ e.IsMember k s := by
  simp only [IsMember, get?_count, Option.map_eq_some_iff]
  constructor
  · rintro ⟨_, ⟨i, hi, rfl⟩, hlag⟩
    exact ⟨i, hi, hlag⟩
  · rintro ⟨i, hi, hlag⟩
    exact ⟨recount slot f s i, ⟨i, hi, rfl⟩, hlag⟩

theorem owns_count (k : Nat) (key : TimerKey) : (e.count slot f).Owns k key ↔ e.Owns k key := by
  simp only [Owns, isMember_count]

/-- Counting does not unsettle a LAG. -/
theorem Settled.count (h : e.Settled l lag) : (e.count slot f).Settled l lag := by
  have hmembers : (e.count slot f).members lag =
      (e.members lag).map fun m => (m.1, recount slot f m.1 m.2) :=
    members_map rfl fun s _ => get?_count slot f s
  have hfallback : (e.count slot f).fallbackMembers lag = e.fallbackMembers lag := by
    rw [fallbackMembers, hmembers, List.map_map]
    rfl
  have hchoose : (e.count slot f).choose lag ((e.count slot f).members lag) =
      e.choose lag (e.members lag) := by
    rw [choose, hmembers, List.map_map]
    rfl
  refine ⟨?_, ?_, ?_, ?_, ?_⟩
  · rw [hfallback]
    exact h.fallback
  · rw [hfallback, hmembers]
    intro m hm
    obtain ⟨m, hold, rfl⟩ := List.mem_map.mp hm
    exact h.granted m hold
  · rw [hchoose, hmembers]
    intro m hm
    obtain ⟨m, hold, rfl⟩ := List.mem_map.mp hm
    exact h.selection m hold
  · rw [hmembers]
    intro m hm
    obtain ⟨m, hold, rfl⟩ := List.mem_map.mp hm
    exact (h.member m hold).counted _
  · rw [hmembers, List.filterMap_map]
    exact h.published

/-- Counting keeps the engine coherent, whoever the interface belongs to. -/
theorem Coherent.count (h : e.Coherent changed []) : (e.count slot f).Coherent changed [] where
  interfaces := h.interfaces.modify fun _ _ => rfl
  lags := h.lags
  timers := h.timers
  ascending := h.ascending
  members := fun l lag hl s => (h.members l lag hl s).trans (isMember_count slot f l s).symm
  live := fun l s hs => h.live l s ((isMember_count slot f l s).mp hs)
  owned := by
    intro key hkey
    obtain ⟨l, hl, howns⟩ := h.owned key hkey
    exact ⟨l, hl, (owns_count slot f l key).mpr howns⟩
  sound := by
    intro l lag hl
    have hold := h.sound l lag hl
    refine ⟨hold.timeout, hold.fallback, fun s hs i hi => ?_⟩
    rw [get?_count] at hi
    obtain ⟨j, hj, rfl⟩ := Option.map_eq_some_iff.mp hi
    have hsound := hold.member s hs j hj
    exact ⟨hsound.follows, hsound.truthful, hsound.timed⟩
  settled := fun l lag hl hnot => (h.settled l lag hl hnot).count slot f

end

/-! ## Link reports and frames -/

theorem Coherent.setLink (h : e.Stable) (name : String) (up : Bool) :
    (e.setLink name up).1.Stable := by
  unfold Engine.setLink
  have hknown := h.ensureInterface name
  simp only
  split
  · exact hknown
  · exact hknown.updatePort _ _

theorem Coherent.receiveLacp (h : e.Stable) (hi : e.interfaces.get? slot = some i)
    (hlag : i.lag = some l) (pdu : Lacpdu) : (e.receiveLacp slot l i pdu).1.Stable := by
  unfold Engine.receiveLacp
  split
  · dsimp only
    exact h.count slot _
  · next hrunning =>
    simp only [Bool.not_eq_true', Bool.not_eq_false, Bool.and_eq_true] at hrunning
    obtain ⟨lag, hl, -⟩ := h.lag_of_member hi hlag
    have hcounted := h.count slot fun c => { c with received := c.received + 1 }
    have hi' : (e.count slot fun c => { c with received := c.received + 1 }).interfaces.get? slot =
        some (recount slot (fun c => { c with received := c.received + 1 }) slot i) := by
      rw [get?_count, hi]
      rfl
    simp only
    split
    · exact hcounted
    · next own _ =>
      refine Coherent.evaluate_stable ?_
      rw [modifyInterface_eq_put hi']
      refine hcounted.put hi' hlag hl rfl rfl ?_ (hcounted.timers.arm _ _) ?_
      · intro key hkey
        have hne : key ≠ .currentWhile slot := fun heq => hkey (heq ▸ rfl)
        simp [Receive.record, hne]
      · exact (hcounted.sound_member hi' hlag hl).record hrunning.2

theorem Coherent.receiveMarker (h : e.Stable) (marker : Marker) :
    (e.receiveMarker slot l i marker).1.Stable := by
  unfold Engine.receiveMarker
  simp only
  split
  · dsimp only
    exact (h.count slot _).count slot _
  · dsimp only
    exact h.count slot _

/-- A received frame keeps the engine stable, whatever it holds. -/
theorem Coherent.receiveFrame (h : e.Stable) (name : String) (frame : Frame) :
    (e.receiveFrame name frame).engine.Stable := by
  unfold Engine.receiveFrame
  split
  · exact h
  · split
    · exact h
    · next i hi =>
      split
      · dsimp only [Outcome.ok]
        exact h.count _ _
      · dsimp only [Outcome.ok]
        exact h.count _ _
      · next hlag => exact h.receiveLacp hi hlag _
      · exact h.receiveMarker _

end Engine
end LinkAggregation
