import LinkAggregation.Proofs.Engine.Speech
import Mathlib.Data.Prod.Lex

/-!
# Who holds a fallback grant

A grant lets a member forward without a partner. Nobody holds one unless fallback is in force: the
LAG is dynamic and has fallback, its enabled members all hear nothing, and the wait is over. Then
the best enabled member holds the only grant, or every enabled member holds one. A member that
hears something again, and new settings without fallback, end all grants at once.
-/
namespace LinkAggregation

/-- The place of a member in the order of grants: port priority, port number, slot. -/
def Interface.precedence (slot : Nat) (i : Interface) : Nat ×ₗ Nat ×ₗ Nat :=
  toLex (i.portId.priority.toNat, toLex (i.portId.number.toNat, slot))

namespace Fallback
variable {settings : Settings} {members : List Member} {s : State} {m : Member}

/-! ## The order of grants -/

theorem notAfter_iff (a b : Member) :
    a.notAfter b = true ↔
      (toLex (a.port.priority.toNat, toLex (a.port.number.toNat, a.slot)) : Nat ×ₗ Nat ×ₗ Nat) ≤
        toLex (b.port.priority.toNat, toLex (b.port.number.toNat, b.slot)) := by
  have ha : a.port.number.toNat < 0x10000 := a.port.number.toNat_lt
  have hb : b.port.number.toNat < 0x10000 := b.port.number.toNat_lt
  simp only [Member.notAfter, Bool.or_eq_true, Bool.and_eq_true, decide_eq_true_eq, beq_iff_eq,
    Prod.Lex.toLex_le_toLex]
  simp only [PortId.rank]
  omega

/-- The enabled silent members, best first. -/
def ranked (members : List Member) : List Member :=
  (members.filter fun m => m.enabled && m.defaulted).mergeSort Member.notAfter

theorem mem_ranked : m ∈ ranked members ↔ m ∈ members ∧ m.enabled = true ∧ m.defaulted = true := by
  simp [ranked, List.mem_mergeSort]

theorem pairwise_ranked (members : List Member) :
    (ranked members).Pairwise fun a b => a.notAfter b = true := by
  refine List.pairwise_mergeSort (fun a b c hab hbc => ?_) (fun a b => ?_) _
  · rw [notAfter_iff] at hab hbc ⊢
    exact le_trans hab hbc
  · rw [Bool.or_eq_true, notAfter_iff, notAfter_iff]
    exact le_total _ _

/-- If fallback is called for, some member is enabled and all that are hear nothing. -/
theorem isIdle_eq_false_iff :
    isIdle settings members = false ↔ settings.enabled = true ∧
      (∃ m ∈ members, m.enabled = true) ∧ ∀ m ∈ members, m.enabled = true → m.defaulted = true := by
  simp only [isIdle, allDefaulted, Bool.or_eq_false_iff, Bool.not_eq_false', Bool.and_eq_true,
    List.any_eq_true, List.all_eq_true, Bool.or_eq_true, Bool.not_eq_true', imp_iff_not_or,
    Bool.not_eq_true]

theorem holders_of_idle (h : isIdle settings members = true) : holders settings members s = [] :=
  if_pos h

/-- Whoever holds a grant is enabled and hears nothing. -/
theorem of_mem_holders {slot : Nat} (h : slot ∈ holders settings members s) :
    ∃ m ∈ members, m.slot = slot ∧ m.enabled = true ∧ m.defaulted = true := by
  have hranked : slot ∈ (ranked members).map (·.slot) := by
    unfold holders at h
    split at h
    · simp at h
    · split at h
      · cases hmode : settings.mode with
        | priority =>
          rw [hmode] at h
          exact List.mem_of_mem_take h
        | allActive =>
          rw [hmode] at h
          exact h
      · simp at h
  obtain ⟨m, hm, rfl⟩ := List.mem_map.mp hranked
  obtain ⟨hmem, hon, hsilent⟩ := mem_ranked.mp hm
  exact ⟨m, hmem, rfl, hon, hsilent⟩

/-- The first in the order holds the only grant. -/
theorem holders_priority (h : isIdle settings members = false) (hactive : s.active = true)
    (hmode : settings.mode = .priority) :
    ∃ best ∈ members, best.enabled = true ∧
      (∀ m ∈ members, m.enabled = true → best.notAfter m = true) ∧
        holders settings members s = [best.slot] := by
  obtain ⟨-, ⟨m, hm, henabled⟩, hsilent⟩ := isIdle_eq_false_iff.mp h
  cases hranked : ranked members with
  | nil =>
    have hmem : m ∈ ranked members := mem_ranked.mpr ⟨hm, henabled, hsilent m hm henabled⟩
    simp [hranked] at hmem
  | cons best rest =>
    have hbest : best ∈ ranked members := by simp [hranked]
    obtain ⟨hmem, henabled, -⟩ := mem_ranked.mp hbest
    refine ⟨best, hmem, henabled, fun m hm hon => ?_, ?_⟩
    · have hmem : m ∈ ranked members := mem_ranked.mpr ⟨hm, hon, hsilent m hm hon⟩
      have hsorted := pairwise_ranked members
      rw [hranked] at hmem hsorted
      obtain rfl | hrest := List.mem_cons.mp hmem
      · exact (notAfter_iff _ _).mpr le_rfl
      · exact (List.pairwise_cons.mp hsorted).1 m hrest
    · have hgrants : grants .priority members = ((ranked members).map (·.slot)).take 1 := rfl
      simp [holders, h, hactive, hmode, hgrants, hranked]

/-- Every enabled member holds a grant. -/
theorem mem_holders_allActive (h : isIdle settings members = false) (hactive : s.active = true)
    (hmode : settings.mode = .allActive) (slot : Nat) :
    slot ∈ holders settings members s ↔ ∃ m ∈ members, m.slot = slot ∧ m.enabled = true := by
  obtain ⟨-, -, hsilent⟩ := isIdle_eq_false_iff.mp h
  have hgrants : grants .allActive members = (ranked members).map (·.slot) := rfl
  simp only [holders, h, hactive, hmode, hgrants, Bool.false_eq_true, if_false, if_true,
    List.mem_map, mem_ranked]
  constructor
  · rintro ⟨m, ⟨hm, hon, -⟩, rfl⟩
    exact ⟨m, hm, rfl, hon⟩
  · rintro ⟨m, hm, rfl, hon⟩
    exact ⟨m, ⟨hm, hon, hsilent m hm hon⟩, rfl⟩

end Fallback

namespace Engine
variable {e : Engine} {l slot : Nat} {lag : Lag} {i : Interface}

/-- Fallback of a LAG is in force. -/
structure InForce (e : Engine) (l : Nat) (lag : Lag) : Prop where
  dynamic : lag.isDynamic = true
  wanted : lag.settings.fallback = true
  /-- Some member is enabled. -/
  enabled : ∃ slot i, e.interfaces.get? slot = some i ∧ i.lag = some l ∧ i.isEnabled = true
  /-- Every enabled member hears nothing. -/
  silent : ∀ slot i, e.interfaces.get? slot = some i → i.lag = some l → i.isEnabled = true →
    i.protocol.receive = .defaulted
  /-- The wait is over. -/
  active : lag.fallback.active = true

/-- Nobody in the LAG holds a grant, and fallback neither waits nor is in force. -/
structure Withdrawn (e : Engine) (l : Nat) : Prop where
  grants : ∀ slot i, e.interfaces.get? slot = some i → i.lag = some l →
    i.protocol.fallbackGranted = false
  fallback : ∀ lag, e.lags.get? l = some lag → lag.fallback = {}
  timer : e.timers.deadline? (.fallback l) = none

/-- The right members of a LAG hold a grant. -/
structure Grants (e : Engine) (l : Nat) (lag : Lag) : Prop where
  /-- Nobody does unless fallback is in force. -/
  idle : ¬ e.InForce l lag → ∀ slot i, e.interfaces.get? slot = some i → i.lag = some l →
    i.protocol.fallbackGranted = false
  /-- In priority mode one member does, the best of the enabled ones. -/
  priority : e.InForce l lag → lag.settings.fallbackMode = .priority →
    ∃ best i, e.interfaces.get? best = some i ∧ i.lag = some l ∧ i.isEnabled = true ∧
      (∀ slot j, e.interfaces.get? slot = some j → j.lag = some l → j.isEnabled = true →
        i.precedence best ≤ j.precedence slot) ∧
      ∀ slot j, e.interfaces.get? slot = some j → j.lag = some l →
        (j.protocol.fallbackGranted = true ↔ slot = best)
  /-- In the other mode every enabled member does. -/
  allActive : e.InForce l lag → lag.settings.fallbackMode = .allActive →
    ∀ slot i, e.interfaces.get? slot = some i → i.lag = some l →
      i.protocol.fallbackGranted = i.isEnabled
  /-- Whoever hears nothing has the default partner of its grant. -/
  partner : ∀ slot i, e.interfaces.get? slot = some i → i.lag = some l →
    i.protocol.receive = .defaulted →
      i.protocol.partner = Receive.defaultPartner i.protocol.fallbackGranted
  /-- Nobody else holds a grant. -/
  heard : ∀ slot i, e.interfaces.get? slot = some i → i.lag = some l →
    i.protocol.receive ≠ .defaulted → i.protocol.fallbackGranted = false
  /-- A LAG without fallback has forgotten all about it. -/
  withdrawn : (lag.isDynamic && lag.settings.fallback) = false → e.Withdrawn l

section
variable (h : e.Stable) (hl : e.lags.get? l = some lag)
include h hl

theorem Coherent.mem_members_iff :
    (slot, i) ∈ e.members lag ↔ e.interfaces.get? slot = some i ∧ i.lag = some l := by
  rw [mem_members, h.members l lag hl]
  constructor
  · rintro ⟨⟨j, hj, hlag⟩, hi⟩
    obtain rfl : j = i := Option.some.inj (hj.symm.trans hi)
    exact ⟨hi, hlag⟩
  · rintro ⟨hi, hlag⟩
    exact ⟨⟨i, hi, hlag⟩, hi⟩

theorem Coherent.mem_fallbackMembers {m : Fallback.Member} :
    m ∈ e.fallbackMembers lag ↔ ∃ slot i, e.interfaces.get? slot = some i ∧ i.lag = some l ∧
      i.fallbackMember slot = m := by
  simp only [fallbackMembers, List.mem_map, Prod.exists, h.mem_members_iff hl, and_assoc]

/-- A member holds a grant exactly if fallback says so. -/
theorem Coherent.granted_eq (hi : e.interfaces.get? slot = some i) (hlag : i.lag = some l) :
    i.protocol.fallbackGranted =
      (Fallback.holders lag.settings.fallbackSettings (e.fallbackMembers lag)
        lag.fallback).contains slot :=
  (h.settled l lag hl id).granted (slot, i) ((h.mem_members_iff hl).mpr ⟨hi, hlag⟩)

theorem Coherent.isIdle_eq_false_iff :
    Fallback.isIdle lag.settings.fallbackSettings (e.fallbackMembers lag) = false ↔
      (lag.isDynamic = true ∧ lag.settings.fallback = true) ∧
      (∃ slot i, e.interfaces.get? slot = some i ∧ i.lag = some l ∧ i.isEnabled = true) ∧
      ∀ slot i, e.interfaces.get? slot = some i → i.lag = some l → i.isEnabled = true →
        i.protocol.receive = .defaulted := by
  rw [Fallback.isIdle_eq_false_iff]
  refine and_congr ?_ (and_congr ?_ ?_)
  · simp only [LagSettings.fallbackSettings, Bool.and_eq_true, Lag.isDynamic]
  · constructor
    · rintro ⟨m, hm, hon⟩
      obtain ⟨slot, i, hi, hlag, rfl⟩ := (h.mem_fallbackMembers hl).mp hm
      exact ⟨slot, i, hi, hlag, hon⟩
    · rintro ⟨slot, i, hi, hlag, hon⟩
      exact ⟨_, (h.mem_fallbackMembers hl).mpr ⟨slot, i, hi, hlag, rfl⟩, hon⟩
  · constructor
    · intro hsilent slot i hi hlag hon
      have hm := (h.mem_fallbackMembers hl).mpr ⟨slot, i, hi, hlag, rfl⟩
      simpa [Interface.fallbackMember] using hsilent _ hm hon
    · intro hsilent m hm hon
      obtain ⟨slot, i, hi, hlag, rfl⟩ := (h.mem_fallbackMembers hl).mp hm
      simpa [Interface.fallbackMember] using hsilent slot i hi hlag hon

/-- Where fallback is not called for, nothing of it is left. -/
theorem Coherent.withdrawn_of_idle
    (hidle : Fallback.isIdle lag.settings.fallbackSettings (e.fallbackMembers lag) = true) :
    e.Withdrawn l := by
  have hsettled := (h.settled l lag hl id).fallback
  simp only [Fallback.Settled, hidle, if_true] at hsettled
  refine ⟨fun slot i hi hlag => ?_, fun lag' hl' => ?_, hsettled.2⟩
  · rw [h.granted_eq hl hi hlag, Fallback.holders_of_idle hidle]
    rfl
  · obtain rfl : lag = lag' := Option.some.inj (hl.symm.trans hl')
    exact hsettled.1

/-- Where fallback is called for, it is in force once the wait is over. -/
theorem Coherent.inForce_iff :
    e.InForce l lag ↔
      Fallback.isIdle lag.settings.fallbackSettings (e.fallbackMembers lag) = false ∧
        lag.fallback.active = true := by
  rw [h.isIdle_eq_false_iff hl]
  constructor
  · rintro ⟨hdynamic, hwanted, henabled, hsilent, hactive⟩
    exact ⟨⟨⟨hdynamic, hwanted⟩, henabled, hsilent⟩, hactive⟩
  · rintro ⟨⟨⟨hdynamic, hwanted⟩, henabled, hsilent⟩, hactive⟩
    exact ⟨hdynamic, hwanted, henabled, hsilent, hactive⟩

theorem Coherent.not_granted_of_not_inForce (hnot : ¬ e.InForce l lag)
    (hi : e.interfaces.get? slot = some i) (hlag : i.lag = some l) :
    i.protocol.fallbackGranted = false := by
  rw [h.granted_eq hl hi hlag]
  rw [h.inForce_iff hl, not_and, Bool.not_eq_true] at hnot
  cases hidle : Fallback.isIdle lag.settings.fallbackSettings (e.fallbackMembers lag) with
  | true => simp [Fallback.holders_of_idle hidle]
  | false => simp [Fallback.holders, hidle, hnot hidle]

theorem Coherent.silent_of_granted (hi : e.interfaces.get? slot = some i) (hlag : i.lag = some l)
    (hgranted : i.protocol.fallbackGranted = true) : i.protocol.receive = .defaulted := by
  rw [h.granted_eq hl hi hlag, List.contains_iff_mem] at hgranted
  obtain ⟨m, hm, hslot, -, hsilent⟩ := Fallback.of_mem_holders hgranted
  obtain ⟨slot', j, hj, -, rfl⟩ := (h.mem_fallbackMembers hl).mp hm
  obtain rfl : slot' = slot := hslot
  obtain rfl : j = i := Option.some.inj (hj.symm.trans hi)
  simpa [Interface.fallbackMember] using hsilent

theorem Coherent.grants : e.Grants l lag where
  idle := fun hnot slot i hi hlag => h.not_granted_of_not_inForce hl hnot hi hlag
  priority := by
    intro hforce hmode
    obtain ⟨hcalled, hactive⟩ := (h.inForce_iff hl).mp hforce
    obtain ⟨m, hm, hon, hbest, hholders⟩ := Fallback.holders_priority hcalled hactive hmode
    obtain ⟨best, i, hi, hlag, rfl⟩ := (h.mem_fallbackMembers hl).mp hm
    refine ⟨best, i, hi, hlag, hon, fun slot j hj hlag' hon' => ?_, fun slot j hj hlag' => ?_⟩
    · have hm' := (h.mem_fallbackMembers hl).mpr ⟨slot, j, hj, hlag', rfl⟩
      exact (Fallback.notAfter_iff _ _).mp (hbest _ hm' hon')
    · rw [h.granted_eq hl hj hlag', hholders]
      simp [Interface.fallbackMember]
  allActive := by
    intro hforce hmode slot i hi hlag
    obtain ⟨hcalled, hactive⟩ := (h.inForce_iff hl).mp hforce
    rw [h.granted_eq hl hi hlag, Bool.eq_iff_iff, List.contains_iff_mem,
      Fallback.mem_holders_allActive hcalled hactive hmode]
    constructor
    · rintro ⟨m, hm, hslot, hon⟩
      obtain ⟨slot', j, hj, -, rfl⟩ := (h.mem_fallbackMembers hl).mp hm
      obtain rfl : slot' = slot := hslot
      obtain rfl : j = i := Option.some.inj (hj.symm.trans hi)
      exact hon
    · exact fun hon => ⟨_, (h.mem_fallbackMembers hl).mpr ⟨slot, i, hi, hlag, rfl⟩, rfl, hon⟩
  partner := fun slot i hi hlag hsilent =>
    ((h.sound_member hi hlag hl).truthful.defaulted hsilent).1
  heard := by
    intro slot i hi hlag hheard
    refine Bool.eq_false_iff.mpr fun hgranted => hheard ?_
    exact h.silent_of_granted hl hi hlag hgranted
  withdrawn := by
    intro hoff
    refine h.withdrawn_of_idle hl (eq_true_of_ne_false fun hcalled => ?_)
    obtain ⟨⟨hdynamic, hwanted⟩, -⟩ := (h.isIdle_eq_false_iff hl).mp hcalled
    simp [hdynamic, hwanted] at hoff

end

/-! ## Calls that end all grants -/

/-- A LAG with an enabled member that hears something holds no grants. -/
theorem Coherent.withdrawn_of_heard (h : e.Stable) (hi : e.interfaces.get? slot = some i)
    (hlag : i.lag = some l) (henabled : i.isEnabled = true)
    (hheard : i.protocol.receive ≠ .defaulted) : e.Withdrawn l := by
  obtain ⟨lag, hl, -⟩ := h.lag_of_member hi hlag
  refine h.withdrawn_of_idle hl (eq_true_of_ne_false fun hcalled => ?_)
  obtain ⟨-, -, hsilent⟩ := (h.isIdle_eq_false_iff hl).mp hcalled
  exact hheard (hsilent slot i hi hlag henabled)

/-- A member that accepts a message hears its partner when the call returns. -/
theorem Coherent.get?_receiveLacp (h : e.Stable) (hi : e.interfaces.get? slot = some i)
    (hlag : i.lag = some l) (henabled : i.isEnabled = true)
    (hrunning : i.protocol.receive.isRunning = true) (pdu : Lacpdu) :
    ∃ i', (e.receiveLacp slot l i pdu).1.interfaces.get? slot = some i' ∧ i'.lag = some l ∧
      i'.isEnabled = true ∧ i'.protocol.receive = .current := by
  obtain ⟨lag, hl, hslot⟩ := h.lag_of_member hi hlag
  have hi' : (e.count slot fun c => { c with received := c.received + 1 }).interfaces.get? slot =
      some (recount slot (fun c => { c with received := c.received + 1 }) slot i) := by
    rw [get?_count, hi]
    rfl
  have hlive : ∀ r, ((e.count slot fun c => { c with received := c.received + 1 }).put slot
      r).lags.get? l = some lag := fun _ => hl
  simp only [Engine.receiveLacp, henabled, hrunning, Bool.and_self, Bool.not_true,
    Bool.false_eq_true, if_false, endpoint?_count, endpoint?_eq hi hlag hl]
  rw [modifyInterface_eq_put hi', get?_evaluate (hlive _) (h.nodup hl) hslot, get?_put_self hi']
  refine ⟨_, rfl, ?_, ?_, ?_⟩
  · exact (after_keeps Interface.lag (fun _ _ _ _ _ => rfl) _).trans hlag
  · exact (after_keeps Interface.isEnabled (fun _ _ _ _ _ => rfl) _).trans henabled
  · simp [after, regrant, Receive.record]

/-- A message that is accepted ends all grants of the LAG. -/
theorem Coherent.withdrawn_receiveFrame (h : e.Stable) {name : String} {frame : Frame}
    {pdu : Lacpdu} (hname : e.interfaces.find? name = some slot)
    (hi : e.interfaces.get? slot = some i) (hlag : i.lag = some l) (henabled : i.isEnabled = true)
    (hrunning : i.protocol.receive.isRunning = true)
    (hframe : Frame.decode frame = .ok (.lacp pdu)) :
    (e.receiveFrame name frame).engine.Withdrawn l := by
  have hreceive : e.receiveFrame name frame = .ok (e.receiveLacp slot l i pdu) := by
    simp only [Engine.receiveFrame, hname, hi, hframe, hlag]
  obtain ⟨i', hi', hlag', henabled', hcurrent⟩ :=
    h.get?_receiveLacp hi hlag henabled hrunning pdu
  rw [hreceive]
  refine (h.receiveLacp hi hlag pdu).withdrawn_of_heard hi' hlag' henabled' ?_
  simp [hcurrent]

/-- Fallback grants are right, whatever the state, and end with the call that ends fallback. -/
structure GrantsRightly (e : Engine) : Prop where
  grants : ∀ l lag, e.lags.get? l = some lag → e.Grants l lag
  /-- A member accepts a message. -/
  heard : ∀ name slot i l frame pdu, e.interfaces.find? name = some slot →
    e.interfaces.get? slot = some i → i.lag = some l → i.isEnabled = true →
      i.protocol.receive.isRunning = true → Frame.decode frame = .ok (.lacp pdu) →
        (e.receiveFrame name frame).engine.Withdrawn l
  /-- New settings switch fallback off or make the LAG static. -/
  switched : ∀ name fields l lag, (e.lagSet name fields).engine.lags.find? name = some l →
    (e.lagSet name fields).engine.lags.get? l = some lag →
      (lag.isDynamic && lag.settings.fallback) = false →
        (e.lagSet name fields).engine.Withdrawn l

/-- Whatever has been asked of an engine, the right members hold a fallback grant. -/
theorem grantsRightly_reached (system : SystemIdentity) (maxMembers : Nat) (connected : Bool)
    (requests : List Request) : (reached system maxMembers connected requests).GrantsRightly where
  grants := fun _ _ hl => (stable_reached system maxMembers connected requests).grants hl
  heard := fun _ _ _ _ _ _ hname hi hlag henabled hrunning hframe =>
    (stable_reached system maxMembers connected requests).withdrawn_receiveFrame hname hi hlag
      henabled hrunning hframe
  switched := fun name fields _ _ _ hl hoff =>
    (((stable_reached system maxMembers connected requests).lagSet name fields).grants
      hl).withdrawn hoff

/-- A member that has heard nothing for longer than the fallback timeout. -/
def silent : Engine :=
  reached {} 8 true
    [.apply .lag ⟨"PortChannel1", .set, [("fallback", "true"), ("fallback_timeout", "5")]⟩,
      .apply .member ⟨"PortChannel1|Ethernet0", .set, []⟩,
      .apply .port ⟨"Ethernet0", .set, [("admin_status", "up"), ("oper_status", "up")]⟩,
      .advanceTo 3000, .advanceTo 8000]

/-- It holds a grant. -/
example : silent.interfaces.slots.map (·.map (·.protocol.fallbackGranted)) = [some true] := by
  decide +kernel

end Engine
end LinkAggregation
