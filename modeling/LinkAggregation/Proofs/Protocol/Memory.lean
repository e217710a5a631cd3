import LinkAggregation.Proofs.Protocol.Sync

/-!
# What a member remembers of its partner

Apart from a received message no step of the receive machine adds to what a member remembers: the
partner is forgotten, or it stays the same end of the link and at most falls out of sync. A partner
that was not heard is not taken for active.
-/
namespace LinkAggregation

/-- The same end of the link, perhaps no longer in sync. -/
structure Endpoint.FadesTo (partner later : Endpoint) : Prop where
  system : later.system = partner.system
  key : later.key = partner.key
  port : later.port = partner.port
  activity : later.state.activity = partner.state.activity
  sync : later.state.sync = true → partner.state.sync = true

namespace Endpoint.FadesTo
variable {a b c : Endpoint}

theorem refl (a : Endpoint) : a.FadesTo a where
  system := rfl
  key := rfl
  port := rfl
  activity := rfl
  sync := id

theorem trans (h : a.FadesTo b) (h' : b.FadesTo c) : a.FadesTo c where
  system := h'.system.trans h.system
  key := h'.key.trans h.key
  port := h'.port.trans h.port
  activity := h'.activity.trans h.activity
  sync := h.sync ∘ h'.sync

end Endpoint.FadesTo

namespace Protocol

/-- The partner that was heard. The default partner of a member that hears nothing is not one. -/
def heard? (p : Protocol) : Option Endpoint :=
  if p.partnerKnown && p.receive != .defaulted then some p.partner else none

/-- Whatever is remembered later was remembered before. -/
def Fades (p later : Protocol) : Prop :=
  ∀ partner', later.heard? = some partner' → ∃ partner, p.heard? = some partner ∧
    partner.FadesTo partner'

variable {p p' p'' : Protocol} {slot now : Nat} {t : Timers}

namespace Fades

theorem of_eq (h : p'.heard? = p.heard?) : p.Fades p' := by
  intro partner hpartner
  exact ⟨partner, h ▸ hpartner, Endpoint.FadesTo.refl partner⟩

theorem refl (p : Protocol) : p.Fades p := of_eq rfl

theorem trans (h : p.Fades p') (h' : p'.Fades p'') : p.Fades p'' := by
  intro partner'' hpartner''
  obtain ⟨partner', hpartner', hfade'⟩ := h' partner'' hpartner''
  obtain ⟨partner, hpartner, hfade⟩ := h partner' hpartner'
  exact ⟨partner, hpartner, hfade.trans hfade'⟩

/-- A member that knows no partner remembers none. -/
theorem of_unknown (h : p'.partnerKnown = false) : p.Fades p' := by
  intro partner' hpartner'
  simp [heard?, h] at hpartner'

/-- The partner stays the same end of the link while the machine leaves its state. -/
theorem of_partner (hreceive : p.receive ≠ .defaulted) (hknown : p'.partnerKnown = p.partnerKnown)
    (hfade : p.partner.FadesTo p'.partner) : p.Fades p' := by
  intro partner' hpartner'
  unfold heard? at hpartner'
  split at hpartner'
  · next hboth =>
    obtain rfl := Option.some.inj hpartner'
    simp only [Bool.and_eq_true, hknown] at hboth
    exact ⟨p.partner, by simp [heard?, hboth.1, hreceive], hfade⟩
  · simp at hpartner'

end Fades

/-! ## The receive machine -/

theorem fades_enterExpired (h : p.receive ≠ .defaulted) :
    p.Fades (Receive.enterExpired slot p t now).1 := by
  refine Fades.of_partner h rfl ?_
  exact ⟨rfl, rfl, rfl, rfl, fun hsync => by simp [Receive.enterExpired] at hsync⟩

theorem fades_currentWhileExpired : p.Fades (Receive.currentWhileExpired slot p t now).1 := by
  unfold Receive.currentWhileExpired
  split
  · next hcurrent =>
    show p.Fades (Receive.enterExpired slot p t now).1
    exact fades_enterExpired (by simp [hcurrent])
  · exact Fades.of_unknown rfl
  · exact Fades.refl p

theorem fades_sync {enabled : Bool} {s : LagSettings} :
    p.Fades (Receive.sync slot enabled s p t now).1 := by
  unfold Receive.sync
  split
  · split
    · exact Fades.refl p
    · exact Fades.of_unknown rfl
  · split
    · split
      · exact Fades.refl p
      · exact Fades.of_unknown rfl
    · split
      · exact Fades.refl p
      · next hnot =>
        have hdefaulted : p.receive ≠ .defaulted := by
          intro hdefaulted
          simp [hdefaulted, ReceiveState.isRunning] at hnot
        exact fades_enterExpired hdefaulted

theorem fades_retell {old new : LagSettings} :
    p.Fades (Receive.retell slot old new p t now).1 := by
  refine Fades.of_eq ?_
  unfold Receive.retell
  dsimp only
  split
  · rfl
  · split <;> rfl

end Protocol

namespace Interface
variable {i : Interface}

/-- A grant is about the default partner only. -/
theorem fades_withGrant (granted : Bool) : i.protocol.Fades (i.withGrant granted).protocol := by
  unfold withGrant
  split
  · exact Protocol.Fades.refl _
  · by_cases hreceive : i.protocol.receive = .defaulted
    · refine Protocol.Fades.of_eq ?_
      simp [Protocol.heard?, hreceive]
    · refine Protocol.Fades.of_eq ?_
      simp [Protocol.heard?, hreceive]

/-- Evaluation leaves the memory of a member as it is. -/
theorem fades_result (ev : Evaluation) (selection : Selection) :
    i.protocol.Fades (ev.result selection i).protocol := by
  refine Protocol.Fades.of_eq ?_
  simp [Protocol.heard?]

theorem fades_timerFired (key : TimerKey) (t : Timers) (now : Nat) :
    i.protocol.Fades (i.timerFired key t now).1.protocol := by
  cases key with
  | periodic slot =>
    refine Protocol.Fades.of_eq ?_
    simp only [timerFired]
    split <;> rfl
  | currentWhile slot =>
    have hfired : i.protocol.Fades (Receive.currentWhileExpired slot i.protocol t now).1 :=
      Protocol.fades_currentWhileExpired
    exact hfired.trans (Protocol.Fades.of_eq rfl)
  | waitWhile slot => exact Protocol.Fades.of_eq rfl
  | actorChurn slot => exact Protocol.Fades.of_eq rfl
  | partnerChurn slot => exact Protocol.Fades.of_eq rfl
  | fallback lag => exact Protocol.Fades.of_eq rfl

end Interface

/-! ## The activity of the partner -/

namespace Protocol
variable {p p' : Protocol} {slot now : Nat} {t : Timers}

/-- Only a partner that was heard is taken for active. -/
def Modest (p : Protocol) : Prop :=
  p.partner.state.activity = true → p.heard? = some p.partner

theorem partnerKnown_of_heard {partner : Endpoint} (h : p.heard? = some partner) :
    p.partnerKnown = true := by
  unfold heard? at h
  split at h
  · next hboth =>
    simp only [Bool.and_eq_true] at hboth
    exact hboth.1
  · simp at h

theorem eq_partner_of_heard {partner : Endpoint} (h : p.heard? = some partner) :
    partner = p.partner := by
  unfold heard? at h
  split at h
  · exact (Option.some.inj h).symm
  · simp at h

theorem modest_of_default {granted : Bool} (h : p.partner = Receive.defaultPartner granted) :
    p.Modest := by
  intro hactive
  simp [h, Receive.defaultPartner] at hactive

namespace Modest

theorem congr (h : p.Modest) (hpartner : p'.partner = p.partner) (hheard : p'.heard? = p.heard?) :
    p'.Modest := by
  rw [Modest, hpartner, hheard]
  exact h

theorem enterExpired (h : p.Modest) : Modest (Receive.enterExpired slot p t now).1 := by
  intro hactive
  have hknown := partnerKnown_of_heard (h hactive)
  simp [heard?, Receive.enterExpired, hknown]

theorem currentWhileExpired (h : p.Modest) :
    Modest (Receive.currentWhileExpired slot p t now).1 := by
  unfold Receive.currentWhileExpired
  split
  · show Modest (Receive.enterExpired slot p t now).1
    exact h.enterExpired
  · exact modest_of_default rfl
  · exact h

theorem sync {enabled : Bool} {s : LagSettings} (h : p.Modest) :
    Modest (Receive.sync slot enabled s p t now).1 := by
  unfold Receive.sync
  split
  · split
    · exact h
    · exact modest_of_default rfl
  · split
    · split
      · exact h
      · exact modest_of_default rfl
    · split
      · exact h
      · have htold : Modest { p with actor := Receive.withSettings p.actor s.mode s.rate } :=
          h.congr rfl rfl
        exact htold.enterExpired

theorem retell {old new : LagSettings} (h : p.Modest) :
    Modest (Receive.retell slot old new p t now).1 := by
  unfold Receive.retell
  dsimp only
  split
  · exact h
  · split <;> exact h.congr rfl rfl

end Modest

theorem modest_record {own : Endpoint} {pdu : Lacpdu} :
    Modest (Receive.record slot p own pdu t now).1 := by
  intro _
  simp [heard?, Receive.record]

end Protocol

namespace Interface
variable {i : Interface}

theorem modest_withGrant (h : i.protocol.Modest) (granted : Bool) :
    (i.withGrant granted).protocol.Modest := by
  unfold withGrant
  split
  · exact h
  · by_cases hreceive : i.protocol.receive = .defaulted
    · exact Protocol.modest_of_default (if_pos hreceive)
    · exact h.congr (if_neg hreceive) (by simp [Protocol.heard?, hreceive])

theorem modest_result (h : i.protocol.Modest) (ev : Evaluation) (selection : Selection) :
    (ev.result selection i).protocol.Modest :=
  h.congr (by simp) (by simp [Protocol.heard?])

theorem modest_timerFired (h : i.protocol.Modest) (key : TimerKey) (t : Timers) (now : Nat) :
    (i.timerFired key t now).1.protocol.Modest := by
  cases key with
  | periodic slot =>
    simp only [timerFired]
    split <;> exact h.congr rfl rfl
  | currentWhile slot =>
    have hfired : (Receive.currentWhileExpired slot i.protocol t now).1.Modest :=
      h.currentWhileExpired
    exact hfired.congr rfl rfl
  | waitWhile slot => exact h.congr rfl rfl
  | actorChurn slot => exact h.congr rfl rfl
  | partnerChurn slot => exact h.congr rfl rfl
  | fallback lag => exact h.congr rfl rfl

end Interface

/-! ## Received messages -/

/-- The partner described itself in the message, and counts as in sync only if the message says so
and describes this end as it is. -/
structure Endpoint.HeardIn (partner : Endpoint) (pdu : Lacpdu) (own : Endpoint) : Prop where
  system : partner.system = pdu.actor.system
  key : partner.key = pdu.actor.key
  port : partner.port = pdu.actor.port
  sync : partner.state.sync = true → pdu.actor.state.sync = true ∧ pdu.partner.sameEnd own = true

theorem Endpoint.HeardIn.fade {partner later own : Endpoint} {pdu : Lacpdu}
    (h : partner.HeardIn pdu own) (hfade : partner.FadesTo later) : later.HeardIn pdu own where
  system := hfade.system.trans h.system
  key := hfade.key.trans h.key
  port := hfade.port.trans h.port
  sync := h.sync ∘ hfade.sync

/-- A member takes the partner for what it says it is, perhaps out of sync. -/
theorem Receive.fadesTo_record (slot : Nat) (p : Protocol) (own : Endpoint) (pdu : Lacpdu)
    (t : Timers) (now : Nat) : pdu.actor.FadesTo (record slot p own pdu t now).1.partner where
  system := rfl
  key := rfl
  port := rfl
  activity := rfl
  sync := by
    intro hsync
    simp only [record, Bool.and_eq_true] at hsync
    exact hsync.1

/-- What a member remembers after a message is what the message says. -/
theorem Protocol.heardIn_record {p : Protocol} {slot now : Nat} {t : Timers} {own : Endpoint}
    {pdu : Lacpdu} :
    (Receive.record slot p own pdu t now).1.partner.HeardIn pdu own where
  system := rfl
  key := rfl
  port := rfl
  sync := by
    intro hsync
    simpa [Receive.record] using hsync

end LinkAggregation
