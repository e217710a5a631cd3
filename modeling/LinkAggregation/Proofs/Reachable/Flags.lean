import LinkAggregation.Proofs.Engine.Course
import LinkAggregation.Proofs.Reachable.Safety

/-!
# Receive states and flags of reachable engines

The flags that a member shows its partner are set in many places: by the receive machine, by the mux
machine, by new settings and by resets. In every reachable engine they say exactly what the
settings of the LAG and the states of the machines say, and so does the receive state.
-/
namespace LinkAggregation

namespace Protocol

/-- The flags of an enabled member of a dynamic LAG, from the settings of the LAG and the states of
its machines. -/
def flags (s : LagSettings) (p : Protocol) : Flags where
  activity := s.mode == .active
  timeout := s.rate.isFast
  aggregation := true
  sync := p.mux == .collectingDistributing ||
    p.mux == .attached && (!p.partnerKnown || p.viewMatches)
  collecting := p.mux == .collectingDistributing
  distributing := p.mux == .collectingDistributing
  defaulted := p.receive == .defaulted
  expired := p.receive == .expired

/-- The protocol state of a member whose port is down. -/
structure Down (p : Protocol) : Prop where
  receive : p.receive = .portDisabled
  mux : p.mux = .detached
  /-- All flags but the expired one are clear. -/
  actor : p.actor = { expired := p.actor.expired }
  partner : p.partner = Receive.defaultPartner false
  partnerKnown : p.partnerKnown = false

/-- The protocol state of an enabled member of a static LAG. -/
structure Static (p : Protocol) : Prop where
  receive : p.receive = .lacpDisabled
  actor : p.actor = {}
  periodic : p.periodic = .never

/-- The protocol state of an enabled member of a dynamic LAG. -/
structure Running (s : LagSettings) (p : Protocol) : Prop where
  receive : p.receive = .expired ∨ p.receive = .defaulted ∨ p.receive = .current
  actor : p.actor = p.flags s

end Protocol

namespace Engine

/-- The receive state and the flags of every interface are as its port and its LAG have them. -/
structure Candid (e : Engine) : Prop where
  outside : ∀ slot i, e.interfaces.get? slot = some i → i.lag = none →
    i.protocol.receive = .initial ∧ i.protocol.actor = {}
  /-- Every other interface has a LAG, and is in one of three cases. -/
  member : ∀ slot i l, e.interfaces.get? slot = some i → i.lag = some l →
    ∃ lag, e.lags.get? l = some lag ∧
      (i.port.admin.isUp = false ∨ i.port.link.isUp = false → i.protocol.Down) ∧
      (i.port.admin.isUp = true → i.port.link.isUp = true →
        lag.settings.mode.isDynamic = false → i.protocol.Static) ∧
      (i.port.admin.isUp = true → i.port.link.isUp = true →
        lag.settings.mode.isDynamic = true → i.protocol.Running lag.settings)
  /-- Without a grant, a default partner is not forwarded to. -/
  ungranted : ∀ slot i, e.interfaces.get? slot = some i → i.protocol.actor.defaulted = true →
    i.protocol.fallbackGranted = false →
    i.protocol.actor.collecting = false ∧ i.protocol.actor.distributing = false

variable {e : Engine} {l slot : Nat} {lag : Lag} {i : Interface}

section
variable (h : e.Stable) (hi : e.interfaces.get? slot = some i) (hlag : i.lag = some l)
  (hl : e.lags.get? l = some lag)
include h hi hlag hl

/-- Selection leaves out a member whose port is down, so its mux machine detaches it. -/
theorem Coherent.detached_of_disabled (hdisabled : i.isEnabled = false) :
    i.protocol.mux = .detached := by
  refine Mux.detached_of_settled (h.settled_member hi hlag hl).mux ?_
  rw [h.selection_eq_decision hi hlag hl]
  exact not_eligible_of_disabled hi hdisabled

theorem Coherent.down_of_disabled (hdisabled : i.isEnabled = false) : i.protocol.Down := by
  have hsound := h.sound_member hi hlag hl
  have hreceive : i.protocol.receive = .portDisabled := by
    simpa [Protocol.Follows, hdisabled] using hsound.follows
  obtain ⟨hactor, hpartner, hknown, -⟩ :=
    hsound.truthful.silent (by simp [hreceive, ReceiveState.isRunning])
  exact ⟨hreceive, h.detached_of_disabled hi hlag hl hdisabled, hactor, hpartner, hknown⟩

theorem Coherent.static_of_enabled (henabled : i.isEnabled = true)
    (hstatic : lag.settings.mode.isDynamic = false) : i.protocol.Static := by
  have hsound := h.sound_member hi hlag hl
  have hreceive : i.protocol.receive = .lacpDisabled := by
    simpa [Protocol.Follows, henabled, hstatic] using hsound.follows
  refine ⟨hreceive, hsound.truthful.lacpDisabled hreceive, ?_⟩
  exact h.periodic_of_silent hi hlag (by simp [hreceive, ReceiveState.isRunning])

/-- The sync flag follows the mux state. An attached member is selected. -/
theorem Coherent.sync_eq (hdynamic : lag.settings.mode.isDynamic = true) :
    i.protocol.actor.sync = (i.protocol.flags lag.settings).sync := by
  have hsettled := h.settled_member hi hlag hl
  have hflags : (Mux.withFlags i.protocol).actor.sync = i.protocol.actor.sync := by
    rw [hsettled.flags hdynamic]
  rw [← hflags]
  cases hmux : i.protocol.mux with
  | detached => simp [Mux.withFlags, Protocol.flags, hmux]
  | waiting => simp [Mux.withFlags, Protocol.flags, hmux]
  | attached =>
    have hselected := Mux.selected_of_settled hsettled.mux (.inl hmux)
    simp [Mux.withFlags, Protocol.flags, hmux, hselected]
  | collectingDistributing => simp [Mux.withFlags, Protocol.flags, hmux]

/-- The collecting and distributing flags follow the mux state. -/
theorem Coherent.forwarding_eq (hdynamic : lag.settings.mode.isDynamic = true) :
    i.protocol.actor.collecting = (i.protocol.mux == .collectingDistributing) ∧
      i.protocol.actor.distributing = (i.protocol.mux == .collectingDistributing) := by
  have hflags := (h.settled_member hi hlag hl).flags hdynamic
  have hactor := congrArg Protocol.actor hflags
  constructor
  · rw [← hactor]
    rfl
  · rw [← hactor]
    rfl

/-- The flags of a running member come from three sources: the settings, the receive state and the
mux state. -/
theorem Coherent.running_of_enabled (henabled : i.isEnabled = true)
    (hdynamic : lag.settings.mode.isDynamic = true) : i.protocol.Running lag.settings := by
  have hsound := h.sound_member hi hlag hl
  have hrunning : i.protocol.receive.isRunning = true :=
    hsound.follows.running henabled hdynamic
  have hsettings := hsound.truthful.settings hrunning
  obtain ⟨hexpired, hdefaulted⟩ := hsound.truthful.aging hrunning
  obtain ⟨hcollecting, hdistributing⟩ := h.forwarding_eq hi hlag hl hdynamic
  refine ⟨?_, ?_⟩
  · revert hrunning
    cases i.protocol.receive <;> simp [ReceiveState.isRunning]
  · calc i.protocol.actor
        = { Receive.withSettings i.protocol.actor lag.settings.mode lag.settings.rate with
            sync := i.protocol.actor.sync
            collecting := i.protocol.actor.collecting
            distributing := i.protocol.actor.distributing
            defaulted := i.protocol.actor.defaulted
            expired := i.protocol.actor.expired } := hsettings
      _ = i.protocol.flags lag.settings := by
          rw [h.sync_eq hi hlag hl hdynamic, hcollecting, hdistributing, hexpired, hdefaulted]
          rfl

theorem Coherent.ungranted_of_member (hdefaulted : i.protocol.actor.defaulted = true)
    (hungranted : i.protocol.fallbackGranted = false) :
    i.protocol.actor.collecting = false ∧ i.protocol.actor.distributing = false := by
  have hsound := h.sound_member hi hlag hl
  have hrunning : i.protocol.receive.isRunning = true := by
    refine eq_true_of_ne_false fun hsilent => ?_
    rw [(hsound.truthful.silent hsilent).1] at hdefaulted
    simp at hdefaulted
  have hdynamic := (hsound.follows.of_running hrunning).2
  have hreceive : i.protocol.receive = .defaulted := by
    simpa [hdefaulted] using (hsound.truthful.aging hrunning).2
  have hmux : (i.protocol.mux == .collectingDistributing) = false := by
    refine beq_eq_false_iff_ne.mpr fun hmux => ?_
    obtain hconfirmed | ⟨-, hgranted⟩ := h.confirmed_of_forwarding hi hlag hl hdynamic hmux
    · have hcurrent := hconfirmed.receive
      simp [hreceive] at hcurrent
    · simp [hungranted] at hgranted
  rw [← hmux]
  exact h.forwarding_eq hi hlag hl hdynamic

end

/-- Whatever has been asked of an engine, receive states and flags tell the truth. -/
theorem candid_reached (system : SystemIdentity) (maxMembers : Nat) (connected : Bool)
    (requests : List Request) : (reached system maxMembers connected requests).Candid := by
  have hstable := stable_reached system maxMembers connected requests
  refine ⟨fun slot i hi hlag => ?_, fun slot i l hi hlag => ?_,
    fun slot i hi hdefaulted hungranted => ?_⟩
  · have hblank := tidy_reached slot i hi hlag
    rw [hblank.protocol]
    exact ⟨rfl, rfl⟩
  · obtain ⟨lag, hl, -⟩ := hstable.lag_of_member hi hlag
    refine ⟨lag, hl, fun hdown => ?_, fun hadmin hlink => ?_, fun hadmin hlink => ?_⟩
    · refine hstable.down_of_disabled hi hlag hl ?_
      obtain hdown | hdown := hdown <;> simp [Interface.isEnabled, PortStatus.isEnabled, hdown]
    · have henabled : i.isEnabled = true := by
        simp [Interface.isEnabled, PortStatus.isEnabled, hadmin, hlink]
      exact hstable.static_of_enabled hi hlag hl henabled
    · have henabled : i.isEnabled = true := by
        simp [Interface.isEnabled, PortStatus.isEnabled, hadmin, hlink]
      exact hstable.running_of_enabled hi hlag hl henabled
  · cases hlag : i.lag with
    | none =>
      rw [(tidy_reached slot i hi hlag).protocol] at hdefaulted
      simp at hdefaulted
    | some l =>
      obtain ⟨lag, hl, -⟩ := hstable.lag_of_member hi hlag
      exact hstable.ungranted_of_member hi hlag hl hdefaulted hungranted

end Engine
end LinkAggregation
