import LinkAggregation.Proofs.Evaluation.Machines

/-!
# Evaluation of one member

A member is settled if no machine has anything left to do: evaluating it again changes nothing and
has no effect. One evaluation settles a member, whatever state it is in. What an evaluation makes
of the interface does not depend on its slot or on any timer.
-/
namespace LinkAggregation

namespace TransmitWindow
variable {w : TransmitWindow} {now interval limit : Nat}

/-- A full window that has not ended has no place. -/
theorem take?_of_full (hnow : now < w.start + interval) (hsent : limit ≤ w.sent) :
    w.take? now interval limit = (false, w) := by
  simp [take?, Nat.not_le.mpr hnow, hsent]

/-- A place is refused only in a full window that has not ended. -/
theorem full_of_take? (hlimit : 0 < limit) (h : (w.take? now interval limit).1 = false) :
    now < w.start + interval ∧ limit ≤ w.sent := by
  by_cases hnow : w.start + interval ≤ now
  · simp [take?, hnow, Nat.not_le.mpr hlimit] at h
  · by_cases hsent : limit ≤ w.sent
    · exact ⟨Nat.lt_of_not_le hnow, hsent⟩
    · simp [take?, hnow, hsent] at h

/-- No more places are taken than there are. -/
theorem sent_take?_le (h : w.sent ≤ limit) : (w.take? now interval limit).2.sent ≤ limit := by
  unfold take?
  dsimp only
  generalize hw : (if w.start + interval ≤ now then ⟨now, 0⟩ else w) = w'
  have hsent : w'.sent ≤ limit := by
    rw [← hw]
    split
    · exact Nat.zero_le limit
    · exact h
  split
  · exact hsent
  · next hplace => exact Nat.lt_of_not_le hplace

end TransmitWindow

namespace Evaluation
variable (ev : Evaluation)

/-- The limit holds a message back, and the periodic timer comes for it when the window ends. -/
def Held (slot : Nat) (i : Interface) (t : Timers) : Prop :=
  i.protocol.periodic.isRunning = true ∧ transmitLimit ≤ i.window.sent ∧
    ev.now < i.window.start + Periodic.fastInterval ∧
      ∃ d, t.deadline? (.periodic slot) = some d ∧ d ≤ i.window.start + Periodic.fastInterval

/-- No machine of the member has anything left to do. -/
structure Settled (slot : Nat) (i : Interface) (t : Timers) : Prop where
  mux : Mux.next i.protocol.mux (Mux.input i.protocol (!ev.dynamic)) = i.protocol.mux
  flags : ev.dynamic = true → Mux.withFlags i.protocol = i.protocol
  periodic : periodicGoal i.isEnabled (ev.dynamic && i.protocol.receive.isRunning) i.protocol =
    i.protocol.periodic
  churn : ev.dynamic = true → ∀ side, Churn.SideSettled slot i.isEnabled i.protocol t side
  held : i.protocol.needToTransmit = true → ev.Held slot i t
  bond : i.protocol.bond =
    some (memberBond i.port.admin.isUp i.port.link.isUp i.protocol.selection i.protocol.mux)
  published : i.published =
    some (Record.of (i.endpoint ev.system ev.lagKey) i.protocol.partner i.protocol.bond)

variable {ev}

/-! ## A settled member -/

namespace Settled
variable {slot : Nat} {i : Interface} {t : Timers}

theorem runMachines_eq (h : ev.Settled slot i t) :
    ev.runMachines slot i.protocol.selection i t = (i, t) := by
  have hmux : Mux.run slot (!ev.dynamic) i.protocol t ev.now = (i.protocol, t) := by
    unfold Mux.run
    rw [Mux.settle_of_next_eq h.mux]
    cases hd : ev.dynamic
    · simp
    · simp [h.flags hd]
  have hchurn : (if ev.dynamic then Churn.update slot i.isEnabled i.protocol t ev.now
      else (i.protocol, t)) = (i.protocol, t) := by
    split
    · next hd => exact Churn.update_of_settled (h.churn hd)
    · rfl
  simp only [runMachines, hmux, runPeriodic_of_goal_eq h.periodic, hchurn]
  simp

theorem transmitIfDue_eq (h : ev.Settled slot i t) : ev.transmitIfDue slot i t = (i, t, []) := by
  unfold transmitIfDue
  cases hntt : i.protocol.needToTransmit
  · simp
  · obtain ⟨hrunning, hsent, hnow, d, hd, hle⟩ := h.held hntt
    have htake := TransmitWindow.take?_of_full hnow hsent
    have hpostpone : postpone slot i.window t = t := by
      simp only [postpone, Clock.after_exact, hd, Option.all_some, decide_eq_true_eq]
      rw [if_neg (by omega)]
    simp [hrunning, transmit, htake, hpostpone]

theorem publish_eq (h : ev.Settled slot i t) : ev.publish i = (i, []) := by
  simp only [publish, ← h.bond]
  exact if_pos h.published

/-- Evaluating a settled member changes nothing and has no effect. -/
theorem member_eq (h : ev.Settled slot i t) :
    ev.member slot i.protocol.selection i t = (i, t, []) := by
  simp [member, h.runMachines_eq, h.transmitIfDue_eq, h.publish_eq]

/-- Only the deadlines of the member's own timers matter. -/
theorem congr {t' : Timers} (h : ev.Settled slot i t)
    (ht : ∀ key, key.interface? = some slot → t'.deadline? key = t.deadline? key) :
    ev.Settled slot i t' := by
  refine { h with churn := ?_, held := ?_ }
  · intro hd side
    have hside : t'.isArmed (side.timer slot) = t.isArmed (side.timer slot) := by
      unfold Timers.isArmed
      rw [ht _ (by cases side <;> rfl)]
    simpa only [Churn.SideSettled, hside] using h.churn hd side
  · intro hntt
    simpa only [Held, ht (.periodic slot) rfl] using h.held hntt

/-- Time alone does not unsettle a member as long as none of its timers is due. -/
theorem later (h : ev.Settled slot i t) {now : Nat}
    (hdue : ∀ d, t.deadline? (.periodic slot) = some d → now < d) :
    Settled { ev with now } slot i t := by
  refine { h with held := ?_ }
  intro hntt
  obtain ⟨hrunning, hsent, -, d, hd, hle⟩ := h.held hntt
  have hlt : now < i.window.start + Periodic.fastInterval := Nat.lt_of_lt_of_le (hdue d hd) hle
  exact ⟨hrunning, hsent, hlt, d, hd, hle⟩

/-- Counters do not matter. -/
theorem counted (h : ev.Settled slot i t) (c : Counters) :
    ev.Settled slot { i with counters := c } t :=
  { h with }

end Settled
/-! ## The stages of an evaluation -/

/-- After the mux machine. -/
def afterMux (ev : Evaluation) (slot : Nat) (selection : Selection) (i : Interface) (t : Timers) :
    Protocol × Timers :=
  Mux.run slot (!ev.dynamic) { i.protocol with selection } t ev.now

/-- After the periodic machine. -/
def afterPeriodic (ev : Evaluation) (slot : Nat) (selection : Selection) (i : Interface)
    (t : Timers) : Protocol × Timers :=
  let m := ev.afterMux slot selection i t
  runPeriodic ev.now slot i.isEnabled (ev.dynamic && m.1.receive.isRunning) m.1 m.2

/-- After churn detection. -/
def afterChurn (ev : Evaluation) (slot : Nat) (selection : Selection) (i : Interface)
    (t : Timers) : Protocol × Timers :=
  let r := ev.afterPeriodic slot selection i t
  if ev.dynamic then Churn.update slot i.isEnabled r.1 r.2 ev.now else r

/-- The protocol state after the mux machine. -/
def muxed (ev : Evaluation) (selection : Selection) (p : Protocol) : Protocol :=
  (Mux.run 0 (!ev.dynamic) { p with selection } {} 0).1

/-- The protocol state after all machines. -/
def machined (ev : Evaluation) (selection : Selection) (i : Interface) : Protocol :=
  let p := ev.muxed selection i.protocol
  let running := ev.dynamic && p.receive.isRunning
  let goal := periodicGoal i.isEnabled running p
  { p with
    periodic := goal
    actorChurn := p.actorChurn && (!ev.dynamic || Churn.isSuspect i.isEnabled .actor p)
    partnerChurn := p.partnerChurn && (!ev.dynamic || Churn.isSuspect i.isEnabled .partner p)
    needToTransmit := (p.needToTransmit || !p.periodic.isRunning && goal.isRunning) ||
      p.actor != i.protocol.actor && running }

section
variable {slot : Nat} {selection : Selection} {i : Interface} {t : Timers}

theorem runMachines_eq :
    ev.runMachines slot selection i t =
      let c := ev.afterChurn slot selection i t
      let running := ev.dynamic && (ev.afterMux slot selection i t).1.receive.isRunning
      let changed := c.1.actor != i.protocol.actor && running
      ({ i with protocol := { c.1 with needToTransmit := c.1.needToTransmit || changed } }, c.2) :=
  rfl

theorem afterMux_fst : (ev.afterMux slot selection i t).1 = ev.muxed selection i.protocol := by
  simp only [afterMux, muxed, Mux.run, Mux.settle_fst_eq 0 0 4 _ t {}]

theorem afterPeriodic_fst :
    (ev.afterPeriodic slot selection i t).1 =
      let p := ev.muxed selection i.protocol
      let goal := periodicGoal i.isEnabled (ev.dynamic && p.receive.isRunning) p
      { p with
        periodic := goal
        needToTransmit := p.needToTransmit || !p.periodic.isRunning && goal.isRunning } := by
  simp only [afterPeriodic, runPeriodic_fst, afterMux_fst]

theorem runMachines_fst :
    (ev.runMachines slot selection i t).1 = { i with protocol := ev.machined selection i } := by
  simp only [runMachines_eq, afterChurn, afterMux_fst]
  cases hd : ev.dynamic
  · simp [afterPeriodic_fst, machined, hd]
  · simp only [if_true, Churn.update_fst, afterPeriodic_fst]
    simp only [machined, hd, Bool.not_true, Bool.false_or, Bool.true_and]
    rfl

/-- Only the mux state, the end of the wait and the actor flags change. -/
theorem muxed_keeps {α : Type} (f : Protocol → α)
    (hf : ∀ p s r a, f { p with mux := s, ready := r, actor := a } = f p) (p : Protocol) :
    f (ev.muxed selection p) = f { p with selection } := by
  have hsettle : f (Mux.settle 0 (!ev.dynamic) 0 4 { p with selection } {}).1 =
      f { p with selection } := Mux.settle_keeps f (fun p s r => hf p s r p.actor) 4 _ _
  simp only [muxed, Mux.run]
  split
  · exact hsettle
  · rw [← hsettle]
    exact hf _ _ _ _

/-- The actor of a static LAG says nothing of the mux state. -/
theorem muxed_actor_of_static (hd : ev.dynamic = false) (p : Protocol) :
    (ev.muxed selection p).actor = p.actor := by
  simp only [muxed, Mux.run, hd, Bool.not_false, if_true]
  exact Mux.settle_keeps Protocol.actor (fun _ _ _ => rfl) 4 _ _

/-- Of the actor flags of a dynamic LAG three follow the mux state. -/
theorem muxed_actor_of_dynamic (hd : ev.dynamic = true) (p : Protocol) :
    (ev.muxed selection p).actor = { p.actor with
      sync := (ev.muxed selection p).actor.sync
      collecting := (ev.muxed selection p).mux.isForwarding
      distributing := (ev.muxed selection p).mux.isForwarding } := by
  have hactor : (Mux.settle 0 (!ev.dynamic) 0 4 { p with selection } {}).1.actor = p.actor :=
    Mux.settle_keeps Protocol.actor (fun _ _ _ => rfl) 4 _ _
  rw [← hactor]
  simp [muxed, Mux.run, hd, Mux.withFlags]

theorem withFlags_muxed (hd : ev.dynamic = true) (p : Protocol) :
    Mux.withFlags (ev.muxed selection p) = ev.muxed selection p := by
  simp [muxed, Mux.run, hd]

theorem transmitIfDue_fst_eq (slot' : Nat) (t' : Timers) :
    (ev.transmitIfDue slot i t).1 = (ev.transmitIfDue slot' i t').1 := by
  unfold transmitIfDue transmit
  split
  · rfl
  · split
    · simp only
      split
      · split <;> rfl
      · rfl
    · rfl

theorem transmitIfDue_effects_eq (slot' : Nat) (t' : Timers) :
    (ev.transmitIfDue slot i t).2.2 = (ev.transmitIfDue slot' i t').2.2 := by
  unfold transmitIfDue transmit
  split
  · rfl
  · split
    · simp only
      split
      · split <;> rfl
      · rfl
    · rfl

/-- Sending concerns the need to send, the window and the counters only. -/
theorem transmitIfDue_keeps {α : Type} (f : Interface → α)
    (hf : ∀ i ntt window counters, f { i with
      protocol := { i.protocol with needToTransmit := ntt }, window, counters } = f i) :
    f (ev.transmitIfDue slot i t).1 = f i := by
  unfold transmitIfDue transmit
  split
  · rfl
  · split
    · simp only
      split
      · split
        · exact hf i false _ _
        · exact hf i false _ i.counters
      · exact hf i i.protocol.needToTransmit _ i.counters
    · exact hf i false i.window i.counters

/-! ## What an evaluation makes of a member -/

/-- The interface after an evaluation. -/
def result (ev : Evaluation) (selection : Selection) (i : Interface) : Interface :=
  (ev.member 0 selection i {}).1

/-- What an evaluation of the member does to the outside. -/
def effects (ev : Evaluation) (selection : Selection) (i : Interface) : List Effect :=
  (ev.member 0 selection i {}).2.2

theorem member_fst : (ev.member slot selection i t).1 = ev.result selection i := by
  simp only [result, member, runMachines_fst, transmitIfDue_fst_eq 0 {}]

theorem member_effects : (ev.member slot selection i t).2.2 = ev.effects selection i := by
  simp only [effects, member, runMachines_fst, transmitIfDue_fst_eq 0 {},
    transmitIfDue_effects_eq 0 {}]

theorem Settled.result_eq (h : ev.Settled slot i t) : ev.result i.protocol.selection i = i := by
  have hfst : (ev.member slot i.protocol.selection i t).1 = ev.result i.protocol.selection i :=
    member_fst
  rw [← hfst, h.member_eq]

theorem Settled.effects_eq (h : ev.Settled slot i t) :
    ev.effects i.protocol.selection i = [] := by
  have hsnd : (ev.member slot i.protocol.selection i t).2.2 = ev.effects i.protocol.selection i :=
    member_effects
  rw [← hsnd, h.member_eq]

/-- Publishing sets the bond status and brings the published record up to date. -/
theorem publish_fst (ev : Evaluation) (i : Interface) :
    (ev.publish i).1 =
      let bond := some (memberBond i.port.admin.isUp i.port.link.isUp i.protocol.selection
        i.protocol.mux)
      { i with
        protocol := { i.protocol with bond }
        published :=
          some (Record.of (i.endpoint ev.system ev.lagKey) i.protocol.partner bond) } := by
  simp only [publish]
  split
  · next h =>
    simp only [Interface.endpoint, Interface.key, Interface.portId] at h
    simp only [← h, Interface.endpoint, Interface.key, Interface.portId]
  · rfl

theorem result_eq (slot : Nat) (t : Timers) :
    ev.result selection i =
      (ev.publish
        (ev.transmitIfDue slot { i with protocol := ev.machined selection i } t).1).1 := by
  simp only [result, member, runMachines_fst, transmitIfDue_fst_eq slot t]

/-- What neither a machine nor sending nor publishing changes is kept. -/
theorem result_keeps {α : Type} (f : Interface → α)
    (hmachined : f { i with protocol := ev.machined selection i } = f i)
    (hsent : ∀ i ntt window counters, f { i with
      protocol := { i.protocol with needToTransmit := ntt }, window, counters } = f i)
    (hpublished : ∀ i bond published,
      f { i with protocol := { i.protocol with bond }, published } = f i) :
    f (ev.result selection i) = f i := by
  rw [result_eq 0 {}, publish_fst]
  refine Eq.trans (hpublished _ _ _) ?_
  rw [transmitIfDue_keeps f hsent, hmachined]

end

section
variable (ev) (selection : Selection) (i : Interface)

@[simp] theorem result_name : (ev.result selection i).name = i.name :=
  result_keeps Interface.name rfl (fun _ _ _ _ => rfl) fun _ _ _ => rfl

@[simp] theorem result_port : (ev.result selection i).port = i.port :=
  result_keeps Interface.port rfl (fun _ _ _ _ => rfl) fun _ _ _ => rfl

@[simp] theorem result_lag : (ev.result selection i).lag = i.lag :=
  result_keeps Interface.lag rfl (fun _ _ _ _ => rfl) fun _ _ _ => rfl

@[simp] theorem result_settings : (ev.result selection i).settings = i.settings :=
  result_keeps Interface.settings rfl (fun _ _ _ _ => rfl) fun _ _ _ => rfl

@[simp] theorem result_defaultNumber :
    (ev.result selection i).defaultNumber = i.defaultNumber :=
  result_keeps Interface.defaultNumber rfl (fun _ _ _ _ => rfl) fun _ _ _ => rfl

@[simp] theorem result_isEnabled : (ev.result selection i).isEnabled = i.isEnabled := by
  simp [Interface.isEnabled]

@[simp] theorem result_portId : (ev.result selection i).portId = i.portId := by
  simp [Interface.portId]

@[simp] theorem result_key (lagKey : UInt16) :
    (ev.result selection i).key lagKey = i.key lagKey := by
  simp [Interface.key]

/-- Sending and publishing leave the machines alone. -/
theorem result_machined {α : Type} (f : Protocol → α)
    (hf : ∀ p ntt bond, f { p with needToTransmit := ntt, bond } = f p) :
    f (ev.result selection i).protocol = f (ev.machined selection i) := by
  rw [result_eq 0 {}, publish_fst]
  refine Eq.trans (hf _ _ _) ?_
  exact transmitIfDue_keeps (fun i => f i.protocol) fun i ntt _ _ => hf i.protocol ntt _

@[simp] theorem result_selection : (ev.result selection i).protocol.selection = selection := by
  rw [result_machined ev selection i Protocol.selection fun _ _ _ => rfl]
  exact muxed_keeps Protocol.selection (fun _ _ _ _ => rfl) i.protocol

theorem result_actor :
    (ev.result selection i).protocol.actor = (ev.muxed selection i.protocol).actor :=
  result_machined ev selection i Protocol.actor fun _ _ _ => rfl

theorem result_mux :
    (ev.result selection i).protocol.mux = (ev.muxed selection i.protocol).mux :=
  result_machined ev selection i Protocol.mux fun _ _ _ => rfl

@[simp] theorem result_receive :
    (ev.result selection i).protocol.receive = i.protocol.receive := by
  rw [result_machined ev selection i Protocol.receive fun _ _ _ => rfl]
  exact muxed_keeps Protocol.receive (fun _ _ _ _ => rfl) i.protocol

@[simp] theorem result_partner :
    (ev.result selection i).protocol.partner = i.protocol.partner := by
  rw [result_machined ev selection i Protocol.partner fun _ _ _ => rfl]
  exact muxed_keeps Protocol.partner (fun _ _ _ _ => rfl) i.protocol

@[simp] theorem result_partnerKnown :
    (ev.result selection i).protocol.partnerKnown = i.protocol.partnerKnown := by
  rw [result_machined ev selection i Protocol.partnerKnown fun _ _ _ => rfl]
  exact muxed_keeps Protocol.partnerKnown (fun _ _ _ _ => rfl) i.protocol

@[simp] theorem result_viewMatches :
    (ev.result selection i).protocol.viewMatches = i.protocol.viewMatches := by
  rw [result_machined ev selection i Protocol.viewMatches fun _ _ _ => rfl]
  exact muxed_keeps Protocol.viewMatches (fun _ _ _ _ => rfl) i.protocol

@[simp] theorem result_fallbackGranted :
    (ev.result selection i).protocol.fallbackGranted = i.protocol.fallbackGranted := by
  rw [result_machined ev selection i Protocol.fallbackGranted fun _ _ _ => rfl]
  exact muxed_keeps Protocol.fallbackGranted (fun _ _ _ _ => rfl) i.protocol

/-- What selection sees of a member does not change. -/
@[simp] theorem result_candidate (slot : Nat) (lagKey : UInt16) :
    (ev.result selection i).candidate slot lagKey = i.candidate slot lagKey := by
  simp [Interface.candidate]

/-- What fallback sees of a member does not change. -/
@[simp] theorem result_fallbackMember (slot : Nat) :
    (ev.result selection i).fallbackMember slot = i.fallbackMember slot := by
  simp [Interface.fallbackMember]

end

/-! ## Deadlines after an evaluation -/

section
variable {slot : Nat} {selection : Selection} {i : Interface} {t : Timers}

theorem transmit_of_full (hnow : ev.now < i.window.start + Periodic.fastInterval)
    (hsent : transmitLimit ≤ i.window.sent) :
    ev.transmit slot i t = (i, postpone slot i.window t, []) := by
  simp [transmit, TransmitWindow.take?_of_full hnow hsent]

/-- A message that is held back is due when the window ends, or earlier. -/
theorem deadline?_postpone (w : TransmitWindow) :
    (postpone slot w t).deadline? (.periodic slot) =
      some (min (w.start + Periodic.fastInterval)
        ((t.deadline? (.periodic slot)).getD (w.start + Periodic.fastInterval))) := by
  cases hd : t.deadline? (.periodic slot) with
  | none => simp [postpone, hd]
  | some d =>
    simp only [postpone, Clock.after_exact, hd, Option.all_some, decide_eq_true_eq,
      Option.getD_some]
    split
    · next hlt => simp [Nat.min_eq_left (Nat.le_of_lt hlt)]
    · next hge => rw [hd, Nat.min_eq_right (Nat.le_of_not_lt hge)]

theorem deadline?_postpone_of_ne {key : TimerKey} (hkey : key ≠ .periodic slot)
    (w : TransmitWindow) : (postpone slot w t).deadline? key = t.deadline? key := by
  simp only [postpone]
  split <;> simp [hkey]

theorem wellFormed_postpone (w : TransmitWindow) (h : t.WellFormed) :
    (postpone slot w t).WellFormed := by
  simp only [postpone]
  split
  · exact h.arm _ _
  · exact h

/-- What sending leaves behind: either nothing has to be sent any more and no timer has moved, or
the window is full and the message is held back. -/
theorem transmitIfDue_cases (slot : Nat) (i : Interface) (t : Timers) :
    (ev.transmitIfDue slot i t).1.protocol.needToTransmit = false ∧
        (ev.transmitIfDue slot i t).2.1 = t ∨
      i.protocol.periodic.isRunning = true ∧
        ev.now < i.window.start + Periodic.fastInterval ∧ transmitLimit ≤ i.window.sent ∧
          ev.transmitIfDue slot i t = (i, postpone slot i.window t, []) := by
  unfold transmitIfDue
  split
  · next hntt => exact .inl ⟨by simpa using hntt, rfl⟩
  · split
    · next hrunning =>
      cases hgranted : (i.window.take? ev.now Periodic.fastInterval transmitLimit).1
      · obtain ⟨hnow, hsent⟩ := TransmitWindow.full_of_take? (by decide) hgranted
        exact .inr ⟨hrunning, hnow, hsent, transmit_of_full hnow hsent⟩
      · refine .inl ?_
        simp only [transmit, hgranted, if_true]
        split <;> exact ⟨rfl, rfl⟩
    · exact .inl ⟨rfl, rfl⟩

/-- Sending keeps to the limit. -/
theorem sent_transmitIfDue_le (h : i.window.sent ≤ transmitLimit) :
    (ev.transmitIfDue slot i t).1.window.sent ≤ transmitLimit := by
  unfold transmitIfDue transmit
  split
  · exact h
  · split
    · simp only
      split
      · split <;> exact TransmitWindow.sent_take?_le h
      · exact TransmitWindow.sent_take?_le h
    · exact h

/-- So does an evaluation. -/
theorem sent_result_le (h : i.window.sent ≤ transmitLimit) :
    (ev.result selection i).window.sent ≤ transmitLimit := by
  rw [result_eq 0 {}, publish_fst]
  exact sent_transmitIfDue_le h

theorem deadline?_transmitIfDue_of_ne {key : TimerKey} (hkey : key ≠ .periodic slot) :
    (ev.transmitIfDue slot i t).2.1.deadline? key = t.deadline? key := by
  obtain ⟨-, h⟩ | ⟨-, -, -, h⟩ := ev.transmitIfDue_cases slot i t
  · rw [h]
  · rw [h]
    exact deadline?_postpone_of_ne hkey _

theorem wellFormed_transmitIfDue (h : t.WellFormed) :
    (ev.transmitIfDue slot i t).2.1.WellFormed := by
  obtain ⟨-, heq⟩ | ⟨-, -, -, heq⟩ := ev.transmitIfDue_cases slot i t
  · rw [heq]
    exact h
  · rw [heq]
    exact wellFormed_postpone _ h

/-- After an evaluation a message that still has to be sent is held back by the limit. -/
theorem transmitIfDue_held
    (h : (ev.transmitIfDue slot i t).1.protocol.needToTransmit = true) :
    ev.Held slot (ev.transmitIfDue slot i t).1 (ev.transmitIfDue slot i t).2.1 := by
  obtain ⟨hsent, -⟩ | ⟨hrunning, hnow, hfull, heq⟩ := ev.transmitIfDue_cases slot i t
  · simp [hsent] at h
  · rw [heq]
    exact ⟨hrunning, hfull, hnow, _, deadline?_postpone _, Nat.min_le_left _ _⟩

/-- The timers after an evaluation. -/
theorem member_timers :
    (ev.member slot selection i t).2.1 =
      (ev.transmitIfDue slot { i with protocol := ev.machined selection i }
        (ev.afterChurn slot selection i t).2).2.1 := by
  have h : (ev.runMachines slot selection i t).1 = { i with protocol := ev.machined selection i } :=
    runMachines_fst
  rw [← h]
  rfl

theorem afterMux_snd :
    (ev.afterMux slot selection i t).2 =
      (Mux.settle slot (!ev.dynamic) ev.now 4 { i.protocol with selection } t).2 := rfl

theorem wellFormed_member (h : t.WellFormed) :
    (ev.member slot selection i t).2.1.WellFormed := by
  rw [member_timers]
  refine wellFormed_transmitIfDue ?_
  have hperiodic : (ev.afterPeriodic slot selection i t).2.WellFormed :=
    wellFormed_runPeriodic (afterMux_snd ▸ Mux.wellFormed_settle _ _ h)
  simp only [afterChurn]
  split
  · exact Churn.wellFormed_update hperiodic
  · exact hperiodic

theorem deadline?_afterMux_of_ne {key : TimerKey} (hkey : key ≠ .waitWhile slot) :
    (ev.afterMux slot selection i t).2.deadline? key = t.deadline? key := by
  rw [afterMux_snd, Mux.deadline?_settle_of_ne hkey]

theorem deadline?_afterPeriodic_of_ne {key : TimerKey} (hkey : key ≠ .periodic slot) :
    (ev.afterPeriodic slot selection i t).2.deadline? key =
      (ev.afterMux slot selection i t).2.deadline? key := by
  simp [afterPeriodic, deadline?_runPeriodic, hkey]

theorem deadline?_afterChurn_of_ne {key : TimerKey}
    (hkey : ∀ side : Churn.Side, key ≠ side.timer slot) :
    (ev.afterChurn slot selection i t).2.deadline? key =
      (ev.afterPeriodic slot selection i t).2.deadline? key := by
  simp only [afterChurn]
  split
  · exact Churn.deadline?_update_of_ne hkey
  · rfl

/-- The timers of other slots are left alone. -/
theorem deadline?_member_of_ne {key : TimerKey} (hkey : key.interface? ≠ some slot) :
    (ev.member slot selection i t).2.1.deadline? key = t.deadline? key := by
  have hperiodic : key ≠ .periodic slot := fun h => hkey (h ▸ rfl)
  have hwait : key ≠ .waitWhile slot := fun h => hkey (h ▸ rfl)
  have hchurn : ∀ side : Churn.Side, key ≠ side.timer slot := by
    rintro (_ | _) h <;> exact hkey (h ▸ rfl)
  rw [member_timers, deadline?_transmitIfDue_of_ne hperiodic, deadline?_afterChurn_of_ne hchurn,
    deadline?_afterPeriodic_of_ne hperiodic, deadline?_afterMux_of_ne hwait]

theorem deadline?_member_currentWhile :
    (ev.member slot selection i t).2.1.deadline? (.currentWhile slot) =
      t.deadline? (.currentWhile slot) := by
  have hchurn : ∀ side : Churn.Side, .currentWhile slot ≠ side.timer slot := by
    rintro (_ | _) <;> simp [Churn.Side.timer]
  rw [member_timers, deadline?_transmitIfDue_of_ne (by simp), deadline?_afterChurn_of_ne hchurn,
    deadline?_afterPeriodic_of_ne (by simp), deadline?_afterMux_of_ne (by simp)]

theorem deadline?_member_waitWhile :
    (ev.member slot selection i t).2.1.deadline? (.waitWhile slot) =
      (ev.afterMux slot selection i t).2.deadline? (.waitWhile slot) := by
  have hchurn : ∀ side : Churn.Side, .waitWhile slot ≠ side.timer slot := by
    rintro (_ | _) <;> simp [Churn.Side.timer]
  rw [member_timers, deadline?_transmitIfDue_of_ne (by simp), deadline?_afterChurn_of_ne hchurn,
    deadline?_afterPeriodic_of_ne (by simp)]

theorem deadline?_member_churn (side : Churn.Side) :
    (ev.member slot selection i t).2.1.deadline? (side.timer slot) =
      (ev.afterChurn slot selection i t).2.deadline? (side.timer slot) := by
  rw [member_timers, deadline?_transmitIfDue_of_ne (by cases side <;> simp [Churn.Side.timer])]

/-- The periodic timer runs exactly while the machine does, and is due within its interval. -/
structure Paced (now : Nat) (state : PeriodicState) (due : Option Nat) : Prop where
  armed : due.isSome = state.isRunning
  due : ∀ d, due = some d → now < d ∧ d ≤ now + (Periodic.interval? state).getD 0

theorem paced_runPeriodic {now : Nat} {enabled running : Bool} {p : Protocol}
    (h : Paced now p.periodic (t.deadline? (.periodic slot))) :
    Paced now (periodicGoal enabled running p)
      ((runPeriodic now slot enabled running p t).2.deadline? (.periodic slot)) := by
  by_cases hgoal : periodicGoal enabled running p = p.periodic
  · rw [runPeriodic_of_goal_eq hgoal, hgoal]
    exact h
  · rw [deadline?_runPeriodic, if_pos ⟨rfl, hgoal⟩]
    refine ⟨by simp, ?_⟩
    cases periodicGoal enabled running p <;>
      simp [Periodic.interval?, Periodic.fastInterval, Periodic.slowInterval]

/-- Holding a message back does not put off the next one. -/
theorem paced_transmitIfDue {state : PeriodicState}
    (h : Paced ev.now state (t.deadline? (.periodic slot))) (hstate : i.protocol.periodic = state) :
    Paced ev.now state ((ev.transmitIfDue slot i t).2.1.deadline? (.periodic slot)) := by
  obtain ⟨-, heq⟩ | ⟨hrunning, hnow, -, heq⟩ := ev.transmitIfDue_cases slot i t
  · rw [heq]
    exact h
  · rw [heq, deadline?_postpone]
    rw [hstate] at hrunning
    obtain ⟨d, hd⟩ := Option.isSome_iff_exists.mp (h.armed.trans hrunning)
    have hdue := h.due d hd
    refine ⟨by simp [hrunning], ?_⟩
    rw [hd]
    intro d' hd'
    simp only [Option.getD_some, Option.some.injEq] at hd'
    omega

/-- The periodic timer after an evaluation. -/
theorem paced_member (h : Paced ev.now i.protocol.periodic (t.deadline? (.periodic slot))) :
    Paced ev.now (ev.result selection i).protocol.periodic
      ((ev.member slot selection i t).2.1.deadline? (.periodic slot)) := by
  rw [result_machined ev selection i Protocol.periodic fun _ _ _ => rfl, member_timers]
  refine paced_transmitIfDue ?_ rfl
  have hold : (ev.afterMux slot selection i t).1.periodic = i.protocol.periodic := by
    rw [afterMux_fst]
    exact muxed_keeps Protocol.periodic (fun _ _ _ _ => rfl) i.protocol
  have hmux : Paced ev.now (ev.afterMux slot selection i t).1.periodic
      ((ev.afterMux slot selection i t).2.deadline? (.periodic slot)) := by
    rw [hold, deadline?_afterMux_of_ne (by simp)]
    exact h
  have hgoal : (ev.machined selection i).periodic =
      periodicGoal i.isEnabled
        (ev.dynamic && (ev.afterMux slot selection i t).1.receive.isRunning)
        (ev.afterMux slot selection i t).1 := by
    rw [afterMux_fst]
    rfl
  rw [deadline?_afterChurn_of_ne (by rintro (_ | _) <;> simp [Churn.Side.timer]), hgoal]
  exact paced_runPeriodic hmux

/-! ## One evaluation settles a member -/

theorem next_muxed (p : Protocol) :
    Mux.next (ev.muxed selection p).mux (Mux.input (ev.muxed selection p) (!ev.dynamic)) =
      (ev.muxed selection p).mux := by
  have h := Mux.next_settle 0 (!ev.dynamic) 0 { p with selection } {}
  cases hd : ev.dynamic <;> simpa [muxed, Mux.run, hd] using h

theorem machined_eq (slot : Nat) (t : Timers) :
    ev.machined selection i =
      { (ev.afterChurn slot selection i t).1 with
        needToTransmit := (ev.machined selection i).needToTransmit } := by
  have h : (ev.runMachines slot selection i t).1.protocol = ev.machined selection i := by
    rw [runMachines_fst]
  rw [← h]
  rfl

theorem sideSettled_member (hd : ev.dynamic = true) (side : Churn.Side) :
    Churn.SideSettled slot i.isEnabled (ev.machined selection i)
      (ev.member slot selection i t).2.1 side := by
  have hupdate : Churn.SideSettled slot i.isEnabled (ev.afterChurn slot selection i t).1
      (ev.afterChurn slot selection i t).2 side := by
    rw [afterChurn, if_pos hd]
    exact Churn.sideSettled_update side
  rw [machined_eq slot t]
  simp only [Churn.SideSettled, Timers.isArmed, deadline?_member_churn] at hupdate ⊢
  cases side <;> exact hupdate

/-- One evaluation settles a member, whatever state it is in. -/
theorem settled_member :
    ev.Settled slot (ev.result selection i) (ev.member slot selection i t).2.1 where
  mux := by
    refine (result_machined ev selection i
      (fun p => Mux.next p.mux (Mux.input p (!ev.dynamic)) = p.mux) fun _ _ _ => rfl).mpr ?_
    exact next_muxed i.protocol
  flags := by
    intro hd
    refine Mux.withFlags_eq_self_iff.mpr ?_
    refine (result_machined ev selection i
      (fun p => (Mux.withFlags p).actor = p.actor) fun _ _ _ => rfl).mpr ?_
    simp only [machined, muxed, Mux.run, hd]
    rfl
  periodic := by
    rw [result_isEnabled]
    refine (result_machined ev selection i
      (fun p => periodicGoal i.isEnabled (ev.dynamic && p.receive.isRunning) p = p.periodic)
      fun _ _ _ => rfl).mpr ?_
    rfl
  churn := by
    intro hd side
    rw [result_isEnabled]
    refine (result_machined ev selection i
      (fun p => Churn.SideSettled slot i.isEnabled p _ side) fun _ _ _ => ?_).mpr ?_
    · cases side <;> rfl
    · exact sideSettled_member hd side
  held := by
    intro hntt
    rw [member_timers]
    rw [result_eq slot (ev.afterChurn slot selection i t).2, publish_fst] at hntt ⊢
    exact transmitIfDue_held hntt
  bond := by
    rw [result_eq slot t, publish_fst]
  published := by
    rw [result_eq slot t, publish_fst]
    rfl

end
end Evaluation

/-! ## Grants -/

theorem Interface.withGrant_keeps {α : Type} (f : Interface → α)
    (hf : ∀ i granted partner, f { i with
      protocol := { i.protocol with fallbackGranted := granted, partner } } = f i) (i : Interface)
    (granted : Bool) : f (i.withGrant granted) = f i := by
  unfold withGrant
  split
  · rfl
  · exact hf _ _ _

namespace Interface
variable (i : Interface) (granted : Bool)

@[simp] theorem withGrant_name : (i.withGrant granted).name = i.name :=
  withGrant_keeps name (fun _ _ _ => rfl) i granted

@[simp] theorem withGrant_lag : (i.withGrant granted).lag = i.lag :=
  withGrant_keeps lag (fun _ _ _ => rfl) i granted

@[simp] theorem withGrant_receive :
    (i.withGrant granted).protocol.receive = i.protocol.receive :=
  withGrant_keeps (·.protocol.receive) (fun _ _ _ => rfl) i granted

@[simp] theorem withGrant_portId : (i.withGrant granted).portId = i.portId :=
  withGrant_keeps portId (fun _ _ _ => rfl) i granted

@[simp] theorem withGrant_isEnabled : (i.withGrant granted).isEnabled = i.isEnabled :=
  withGrant_keeps isEnabled (fun _ _ _ => rfl) i granted

@[simp] theorem withGrant_fallbackGranted :
    (i.withGrant granted).protocol.fallbackGranted = granted := by
  unfold withGrant
  split
  · next h => exact h
  · rfl

end Interface

end LinkAggregation
