import LinkAggregation.Engine.Clock
import LinkAggregation.Proofs.Evaluation.Member

/-!
# What the protocol state says is true

The receive state of a member follows its port and the mode of its LAG. The actor flags and the
partner record follow the receive state: a machine that does not run says nothing, a partner that
is no longer heard is not in sync, and one that was never heard is the default partner.
-/
namespace LinkAggregation
namespace Protocol

/-- The receive state fits the port and the mode of the LAG. -/
def Follows (s : LagSettings) (enabled : Bool) (p : Protocol) : Prop :=
  if enabled = false then p.receive = .portDisabled
  else if s.mode.isDynamic = false then p.receive = .lacpDisabled
  else p.receive.isRunning = true

/-- Flags and partner record fit the receive state. -/
structure Truthful (s : LagSettings) (p : Protocol) : Prop where
  silent : p.receive.isRunning = false →
    p.actor = { expired := p.actor.expired } ∧ p.partner = Receive.defaultPartner false ∧
      p.partnerKnown = false ∧ p.viewMatches = false
  lacpDisabled : p.receive = .lacpDisabled → p.actor = {}
  settings : p.receive.isRunning = true → p.actor = Receive.withSettings p.actor s.mode s.rate
  aging : p.receive.isRunning = true →
    p.actor.expired = (p.receive == .expired) ∧ p.actor.defaulted = (p.receive == .defaulted)
  expired : p.receive = .expired → p.partner.state.sync = false
  defaulted : p.receive = .defaulted →
    p.partner = Receive.defaultPartner p.fallbackGranted ∧ p.partnerKnown = false ∧
      p.viewMatches = false
  current : p.receive = .current →
    p.partnerKnown = true ∧ (p.partner.state.sync = true → p.viewMatches = true)

variable {s : LagSettings} {p : Protocol}

theorem follows_iff_of_enabled (hdynamic : s.mode.isDynamic = true) :
    Follows s true p ↔ p.receive.isRunning = true := by
  simp [Follows, hdynamic]

/-- The receive machine runs only for an enabled member of a dynamic LAG. -/
theorem Follows.of_running {enabled : Bool} (h : Follows s enabled p)
    (hrunning : p.receive.isRunning = true) : enabled = true ∧ s.mode.isDynamic = true := by
  unfold Follows at h
  split at h
  · simp [h, ReceiveState.isRunning] at hrunning
  · next henabled =>
    split at h
    · simp [h, ReceiveState.isRunning] at hrunning
    · next hdynamic => exact ⟨by simpa using henabled, by simpa using hdynamic⟩

theorem Follows.running {enabled : Bool} (h : Follows s enabled p) (henabled : enabled = true)
    (hdynamic : s.mode.isDynamic = true) : p.receive.isRunning = true := by
  simpa [Follows, henabled, hdynamic] using h

/-- A fresh protocol state claims nothing. -/
theorem truthful_fresh : Truthful s {} where
  silent := fun _ => ⟨rfl, rfl, rfl, rfl⟩
  lacpDisabled := fun h => by simp at h
  settings := fun h => by simp [ReceiveState.isRunning] at h
  aging := fun h => by simp [ReceiveState.isRunning] at h
  expired := fun h => by simp at h
  defaulted := fun h => by simp at h
  current := fun h => by simp at h

namespace Truthful

/-- The actor flags matter, the partner record and the receive state, and nothing else. -/
theorem congr {p' : Protocol} (h : Truthful s p) (hactor : p'.actor = p.actor)
    (hpartner : p'.partner = p.partner) (hknown : p'.partnerKnown = p.partnerKnown)
    (hview : p'.viewMatches = p.viewMatches) (hreceive : p'.receive = p.receive)
    (hgranted : p'.fallbackGranted = p.fallbackGranted) : Truthful s p' := by
  obtain ⟨hsilent, hlacp, hsettings, haging, hexpired, hdefaulted, hcurrent⟩ := h
  rw [← hactor, ← hpartner, ← hknown, ← hview, ← hreceive] at hsilent
  rw [← hactor, ← hreceive] at hlacp hsettings haging
  rw [← hpartner, ← hreceive] at hexpired
  rw [← hpartner, ← hknown, ← hview, ← hreceive, ← hgranted] at hdefaulted
  rw [← hpartner, ← hknown, ← hview, ← hreceive] at hcurrent
  exact ⟨hsilent, hlacp, hsettings, haging, hexpired, hdefaulted, hcurrent⟩

/-- A partner in sync was heard in the current state, or is the default partner of a grant. -/
theorem of_partner_sync (h : Truthful s p) (hsync : p.partner.state.sync = true) :
    (p.receive = .current ∧ p.partnerKnown = true ∧ p.viewMatches = true) ∨
      (p.receive = .defaulted ∧ p.fallbackGranted = true) := by
  have hsilent : p.receive.isRunning = true := by
    refine eq_true_of_ne_false fun hnot => ?_
    simp [(h.silent hnot).2.1, Receive.defaultPartner] at hsync
  cases hr : p.receive with
  | current =>
    obtain ⟨hknown, hview⟩ := h.current hr
    exact .inl ⟨rfl, hknown, hview hsync⟩
  | defaulted =>
    obtain ⟨hpartner, -⟩ := h.defaulted hr
    rw [hpartner] at hsync
    exact .inr ⟨rfl, hsync⟩
  | expired => simp [h.expired hr] at hsync
  | initial => simp [hr, ReceiveState.isRunning] at hsilent
  | portDisabled => simp [hr, ReceiveState.isRunning] at hsilent
  | lacpDisabled => simp [hr, ReceiveState.isRunning] at hsilent

end Truthful

/-! ## The receive machine -/

section
variable {slot now : Nat} {t : Timers}

theorem truthful_portDisabled : Truthful s (Receive.portDisabled slot p t).1 where
  silent := fun _ => ⟨rfl, rfl, rfl, rfl⟩
  lacpDisabled := fun h => by simp [Receive.portDisabled] at h
  settings := fun h => by simp [Receive.portDisabled, ReceiveState.isRunning] at h
  aging := fun h => by simp [Receive.portDisabled, ReceiveState.isRunning] at h
  expired := fun h => by simp [Receive.portDisabled] at h
  defaulted := fun h => by simp [Receive.portDisabled] at h
  current := fun h => by simp [Receive.portDisabled] at h

theorem truthful_lacpDisabled : Truthful s (Receive.lacpDisabled slot p t).1 where
  silent := fun _ => ⟨rfl, rfl, rfl, rfl⟩
  lacpDisabled := fun _ => rfl
  settings := fun h => by simp [Receive.lacpDisabled, ReceiveState.isRunning] at h
  aging := fun h => by simp [Receive.lacpDisabled, ReceiveState.isRunning] at h
  expired := fun h => by simp [Receive.lacpDisabled] at h
  defaulted := fun h => by simp [Receive.lacpDisabled] at h
  current := fun h => by simp [Receive.lacpDisabled] at h

/-- Whoever expires has to have the actor flags of the settings. -/
theorem truthful_enterExpired (h : p.actor = Receive.withSettings p.actor s.mode s.rate) :
    Truthful s (Receive.enterExpired slot p t now).1 where
  silent := fun h => by simp [Receive.enterExpired, ReceiveState.isRunning] at h
  lacpDisabled := fun h => by simp [Receive.enterExpired] at h
  settings := by
    intro _
    simp only [Receive.enterExpired]
    rw [h]
    rfl
  aging := fun _ => ⟨rfl, rfl⟩
  expired := fun _ => rfl
  defaulted := fun h => by simp [Receive.enterExpired] at h
  current := fun h => by simp [Receive.enterExpired] at h

theorem truthful_enable : Truthful s (Receive.enable slot p s.mode s.rate t now).1 :=
  truthful_enterExpired rfl

theorem truthful_enterDefaulted (h : p.actor = Receive.withSettings p.actor s.mode s.rate) :
    Truthful s (Receive.enterDefaulted p) where
  silent := fun h => by simp [Receive.enterDefaulted, ReceiveState.isRunning] at h
  lacpDisabled := fun h => by simp [Receive.enterDefaulted] at h
  settings := by
    intro _
    simp only [Receive.enterDefaulted]
    rw [h]
    rfl
  aging := fun _ => ⟨rfl, rfl⟩
  expired := fun h => by simp [Receive.enterDefaulted] at h
  defaulted := fun _ => ⟨rfl, rfl, rfl⟩
  current := fun h => by simp [Receive.enterDefaulted] at h

namespace Truthful

theorem currentWhileExpired (h : Truthful s p) :
    Truthful s (Receive.currentWhileExpired slot p t now).1 := by
  unfold Receive.currentWhileExpired
  split
  · next hr =>
    show Truthful s (Receive.enterExpired slot p t now).1
    exact truthful_enterExpired (h.settings (by simp [hr, ReceiveState.isRunning]))
  · next hr => exact truthful_enterDefaulted (h.settings (by simp [hr, ReceiveState.isRunning]))
  · exact h

theorem record {own : Endpoint} {pdu : Lacpdu} (h : Truthful s p)
    (hrunning : p.receive.isRunning = true) :
    Truthful s (Receive.record slot p own pdu t now).1 where
  silent := fun h => by simp [Receive.record, ReceiveState.isRunning] at h
  lacpDisabled := fun h => by simp [Receive.record] at h
  settings := by
    intro _
    simp only [Receive.record]
    rw [h.settings hrunning]
    rfl
  aging := fun _ => ⟨rfl, rfl⟩
  expired := fun h => by simp [Receive.record] at h
  defaulted := fun h => by simp [Receive.record] at h
  current := by
    intro _
    refine ⟨rfl, fun hsync => ?_⟩
    simp only [Receive.record, Bool.and_eq_true] at hsync
    exact hsync.2

/-- The actor flags of a running machine follow new settings. -/
theorem withSettings {new : LagSettings} (h : Truthful s p)
    (hrunning : p.receive.isRunning = true) :
    Truthful new { p with actor := Receive.withSettings p.actor new.mode new.rate } :=
  { h with
    silent := fun hnot => by simp [hrunning] at hnot
    lacpDisabled := fun hr => by
      simp only at hr
      simp [hr, ReceiveState.isRunning] at hrunning
    settings := fun _ => rfl }

/-- Only mode and rate matter. -/
theorem of_settings {new : LagSettings} (h : Truthful s p) (hmode : new.mode = s.mode)
    (hrate : new.rate = s.rate) : Truthful new p :=
  { h with settings := by rw [hmode, hrate]; exact h.settings }

end Truthful
end
end Protocol

/-! ## Grants and evaluation -/

namespace Protocol
variable {s : LagSettings}

theorem Truthful.withGrant {i : Interface} (h : Truthful s i.protocol) (granted : Bool) :
    Truthful s (i.withGrant granted).protocol := by
  unfold Interface.withGrant
  split
  · exact h
  · by_cases hr : i.protocol.receive = .defaulted
    · have hrunning : i.protocol.receive.isRunning = true := by simp [hr, ReceiveState.isRunning]
      obtain ⟨-, hknown, hview⟩ := h.defaulted hr
      simp only [if_pos hr]
      exact { h with
        silent := fun hnot => by simp [hrunning] at hnot
        expired := fun he => by simp [hr] at he
        defaulted := fun _ => ⟨rfl, hknown, hview⟩
        current := fun hc => by simp [hr] at hc }
    · simp only [if_neg hr]
      exact { h with defaulted := fun hd => absurd hd hr }

section
variable {ev : Evaluation} {selection : Selection} {i : Interface}

/-- A machine that does not run belongs to a disabled member, which evaluation detaches. -/
theorem Follows.detached_of_silent (hfollows : Follows s i.isEnabled i.protocol)
    (hdynamic : s.mode.isDynamic = true)
    (hdisabled : i.isEnabled = false → selection.isEligible = false)
    (hsilent : i.protocol.receive.isRunning = false) :
    (ev.muxed selection i.protocol).mux = .detached := by
  have heligible : selection.isEligible = false := by
    refine hdisabled (Bool.eq_false_iff.mpr fun henabled => ?_)
    have hrunning := hfollows.running henabled hdynamic
    simp [hrunning] at hsilent
  refine Mux.detached_of_settled (Evaluation.next_muxed i.protocol) ?_
  rw [Evaluation.muxed_keeps Protocol.selection (fun _ _ _ _ => rfl)]
  exact heligible

/-- Whoever is detached is not in sync. -/
theorem sync_of_detached (hd : ev.dynamic = true)
    (hdetached : (ev.muxed selection i.protocol).mux = .detached) :
    (ev.result selection i).protocol.actor.sync = false := by
  refine Bool.eq_false_iff.mpr fun hsync => ?_
  rw [Evaluation.result_actor] at hsync
  obtain hmux | hmux := Mux.attached_of_sync (Evaluation.withFlags_muxed hd _) hsync
  · simp [hdetached] at hmux
  · simp [hdetached] at hmux

/-- Evaluation keeps what is true in a dynamic LAG, as long as a disabled member may not
attach. -/
theorem Truthful.result_of_dynamic (h : Truthful s i.protocol)
    (hfollows : Follows s i.isEnabled i.protocol) (hdynamic : s.mode.isDynamic = true)
    (hd : ev.dynamic = true) (hdisabled : i.isEnabled = false → selection.isEligible = false) :
    Truthful s (ev.result selection i).protocol := by
  have hactor : (ev.result selection i).protocol.actor = { i.protocol.actor with
      sync := (ev.result selection i).protocol.actor.sync
      collecting := (ev.muxed selection i.protocol).mux.isForwarding
      distributing := (ev.muxed selection i.protocol).mux.isForwarding } := by
    rw [Evaluation.result_actor]
    exact Evaluation.muxed_actor_of_dynamic hd i.protocol
  refine ⟨?_, ?_, ?_, ?_, ?_, ?_, ?_⟩
  · simp only [Evaluation.result_receive, Evaluation.result_partner,
      Evaluation.result_partnerKnown, Evaluation.result_viewMatches]
    intro hsilent
    obtain ⟨hself, hrest⟩ := h.silent hsilent
    have hdetached : (ev.muxed selection i.protocol).mux = .detached :=
      hfollows.detached_of_silent hdynamic hdisabled hsilent
    refine ⟨?_, hrest⟩
    rw [sync_of_detached hd hdetached, hdetached, hself] at hactor
    rw [hactor]
    rfl
  · rw [Evaluation.result_receive]
    intro hlacp
    unfold Follows at hfollows
    rw [hlacp, hdynamic] at hfollows
    simp [ReceiveState.isRunning] at hfollows
  · rw [Evaluation.result_receive]
    intro hrunning
    rw [hactor, h.settings hrunning]
    rfl
  · rw [Evaluation.result_receive, hactor]
    exact h.aging
  · rw [Evaluation.result_receive, Evaluation.result_partner]
    exact h.expired
  · simp only [Evaluation.result_receive, Evaluation.result_partner,
      Evaluation.result_partnerKnown, Evaluation.result_viewMatches,
      Evaluation.result_fallbackGranted]
    exact h.defaulted
  · simp only [Evaluation.result_receive, Evaluation.result_partner,
      Evaluation.result_partnerKnown, Evaluation.result_viewMatches]
    exact h.current

/-- Evaluation keeps what is true, as long as a disabled member may not attach. -/
theorem Truthful.result (h : Truthful s i.protocol) (hfollows : Follows s i.isEnabled i.protocol)
    (hdynamic : ev.dynamic = s.mode.isDynamic)
    (hdisabled : i.isEnabled = false → selection.isEligible = false) :
    Truthful s (ev.result selection i).protocol := by
  cases hd : ev.dynamic with
  | false =>
    refine h.congr ?_ (by simp) (by simp) (by simp) (by simp) (by simp)
    rw [Evaluation.result_actor, Evaluation.muxed_actor_of_static hd]
  | true => exact h.result_of_dynamic hfollows (hdynamic.symm.trans hd) hd hdisabled

end

theorem Follows.result {ev : Evaluation} {selection : Selection} {i : Interface} {enabled : Bool}
    (h : Follows s enabled i.protocol) : Follows s enabled (ev.result selection i).protocol := by
  unfold Follows at *
  rw [Evaluation.result_receive]
  exact h

theorem Follows.withGrant {i : Interface} {enabled : Bool} (h : Follows s enabled i.protocol)
    (granted : Bool) : Follows s enabled (i.withGrant granted).protocol := by
  unfold Follows at *
  rw [Interface.withGrant_receive]
  exact h

end Protocol
end LinkAggregation
