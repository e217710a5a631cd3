import LinkAggregation.Proofs.Engine.Action

/-!
# Safety of aggregation

In every reachable engine the members of a LAG that attach are selected and enabled, no more are
selected than the limit allows, and those that are selected go together. A member of a dynamic LAG
forwards only to a partner that it hears and that knows of it, or under a fallback grant.
-/
namespace LinkAggregation

namespace Interface

/-- The member has attached, or tells its partner so. -/
def Attaches (i : Interface) : Prop :=
  i.protocol.mux = .attached ∨ i.protocol.mux = .collectingDistributing ∨
    i.protocol.actor.sync = true

/-- Both may be in one aggregate of the LAG. -/
structure Compatible (lag : Lag) (i j : Interface) : Prop where
  key : i.key lag.key = j.key lag.key
  speed : ∀ s t, i.port.speed = some s → j.port.speed = some t → s = t
  known : lag.isDynamic = true → i.protocol.partnerKnown = j.protocol.partnerKnown
  partner : lag.isDynamic = true → i.protocol.partnerKnown = true →
    i.protocol.partner.system = j.protocol.partner.system ∧
      i.protocol.partner.key = j.protocol.partner.key

/-- The partner is heard, describes this end as it is, and is in sync. -/
structure Confirmed (i : Interface) : Prop where
  receive : i.protocol.receive = .current
  known : i.protocol.partnerKnown = true
  view : i.protocol.viewMatches = true
  sync : i.protocol.partner.state.sync = true

end Interface

namespace Engine

/-- The slots of the selected members of a LAG. -/
def selectedSlots (e : Engine) (l : Nat) : List Nat :=
  e.interfaces.occupied.filter fun slot => (e.interfaces.get? slot).any fun i =>
    i.lag == some l && i.protocol.selection.isSelected

/-- What selection is asked for a LAG. -/
def selectionInput (e : Engine) (lag : Lag) : SelectionInput where
  lagKey := lag.key
  dynamic := lag.isDynamic
  maxMembers := e.maxMembers
  candidates := (e.members lag).map fun m => m.2.candidate m.1 lag.key

/-- The members of the LAG in a slot are safe. -/
structure Safe (e : Engine) (limit l : Nat) (lag : Lag) : Prop where
  attached : ∀ slot i, e.interfaces.get? slot = some i → i.lag = some l → i.Attaches →
    i.protocol.selection = .selected ∧ i.port.admin.isUp = true ∧ i.port.link.isUp = true
  few : (e.selectedSlots l).length ≤ limit
  compatible : ∀ slot i slot' j, e.interfaces.get? slot = some i → i.lag = some l →
    e.interfaces.get? slot' = some j → j.lag = some l →
    i.protocol.selection = .selected → j.protocol.selection = .selected → i.Compatible lag j
  confirmed : lag.isDynamic = true → ∀ slot i, e.interfaces.get? slot = some i → i.lag = some l →
    i.protocol.mux = .collectingDistributing →
    i.Confirmed ∨ (i.protocol.receive = .defaulted ∧ i.protocol.fallbackGranted = true)

variable {e : Engine} {l slot slot' : Nat} {lag : Lag} {i j : Interface}

section
variable (h : e.Stable) (hi : e.interfaces.get? slot = some i) (hlag : i.lag = some l)
  (hl : e.lags.get? l = some lag)
include h hi hlag hl

/-- A member has the selection that was decided for it. -/
theorem Coherent.selection_eq_decision : i.protocol.selection = e.decision l lag slot := by
  have hslot : slot ∈ lag.members := (h.members l lag hl slot).mpr ⟨i, hi, hlag⟩
  have hm : (slot, i) ∈ e.members lag := mem_members.mpr ⟨hslot, hi⟩
  exact ((h.settled l lag hl id).decision_eq hm).symm

theorem Coherent.enabled_of_selected (hselected : i.protocol.selection = .selected) :
    i.isEnabled = true := by
  refine eq_true_of_ne_false fun hdisabled => ?_
  have hnot : (e.decision l lag slot).isEligible = false := not_eligible_of_disabled hi hdisabled
  rw [← h.selection_eq_decision hi hlag hl, hselected] at hnot
  simp [Selection.isEligible] at hnot

/-- A member of a static LAG does not speak of sync. -/
theorem Coherent.dynamic_of_sync (hsync : i.protocol.actor.sync = true) :
    lag.isDynamic = true := by
  have hsound := h.sound_member hi hlag hl
  have hrunning : i.protocol.receive.isRunning = true := by
    refine eq_true_of_ne_false fun hnot => ?_
    obtain ⟨hactor, -⟩ := hsound.truthful.silent hnot
    rw [hactor] at hsync
    simp at hsync
  exact (hsound.follows.of_running hrunning).2

theorem Coherent.attached_of_sync (hsync : i.protocol.actor.sync = true) :
    i.protocol.mux = .attached ∨ i.protocol.mux = .collectingDistributing := by
  have hdynamic := h.dynamic_of_sync hi hlag hl hsync
  exact Mux.attached_of_sync ((h.settled_member hi hlag hl).flags hdynamic) hsync

theorem Coherent.selected_of_attaches (hattaches : i.Attaches) :
    i.protocol.selection = .selected := by
  have hsettled := h.settled_member hi hlag hl
  have hmux : i.protocol.mux = .attached ∨ i.protocol.mux = .collectingDistributing := by
    obtain hattached | hforwarding | hsync := hattaches
    · exact .inl hattached
    · exact .inr hforwarding
    · exact h.attached_of_sync hi hlag hl hsync
  simpa [Selection.isSelected] using Mux.selected_of_settled hsettled.mux hmux

theorem Coherent.up_of_selected (hselected : i.protocol.selection = .selected) :
    i.port.admin.isUp = true ∧ i.port.link.isUp = true := by
  have henabled := h.enabled_of_selected hi hlag hl hselected
  simpa [Interface.isEnabled, PortStatus.isEnabled] using henabled

theorem Coherent.decision_of_selected (hselected : i.protocol.selection = .selected) :
    (select (e.selectionInput lag)).decision slot = .selected := by
  have hslot : slot ∈ lag.members := (h.members l lag hl slot).mpr ⟨i, hi, hlag⟩
  have hm : (slot, i) ∈ e.members lag := mem_members.mpr ⟨hslot, hi⟩
  have hchosen := (h.settled l lag hl id).selection (slot, i) hm
  exact hchosen.symm.trans hselected

/-- A selected member has passed all tests. -/
theorem Coherent.pool_of_selected (hselected : i.protocol.selection = .selected) :
    i.candidate slot lag.key ∈ (Ballot.run id (e.selectionInput lag)).pool := by
  have hdecision := h.decision_of_selected hi hlag hl hselected
  obtain ⟨c, hc, hslot⟩ := pool_of_mem_active (mem_active_of_selected hdecision)
  obtain ⟨hcandidate, -⟩ := Ballot.of_mem_run_pool .refl hc
  obtain ⟨⟨s, j⟩, hm, rfl⟩ := List.mem_map.mp hcandidate
  obtain ⟨-, hj⟩ := mem_members.mp hm
  obtain rfl : s = slot := hslot
  obtain rfl : i = j := Option.some.inj (hi.symm.trans hj)
  exact hc

/-- Two selected members go together. -/
theorem Coherent.compatible_of_selected (hi' : e.interfaces.get? slot' = some j)
    (hlag' : j.lag = some l) (hselected : i.protocol.selection = .selected)
    (hselected' : j.protocol.selection = .selected) : i.Compatible lag j := by
  have hpool := h.pool_of_selected hi hlag hl hselected
  have hpool' := h.pool_of_selected hi' hlag' hl hselected'
  have hpartner : lag.isDynamic = true →
      (i.candidate slot lag.key).partner = (j.candidate slot' lag.key).partner :=
    fun hdynamic => Ballot.partner_eq_of_mem_run_pool .refl hdynamic hpool hpool'
  refine ⟨?_, ?_, fun hdynamic => ?_, fun hdynamic hknown => ?_⟩
  · exact Ballot.key_eq_of_mem_run_pool .refl hpool hpool'
  · intro s t hs ht
    exact Ballot.speed_eq_of_mem_run_pool hpool hpool' hs ht
  · have hsame := hpartner hdynamic
    simp only [Interface.candidate] at hsame
    cases hi : i.protocol.partnerKnown <;> cases hj : j.protocol.partnerKnown <;>
      simp [hi, hj] at hsame <;> rfl
  · have hsame := hpartner hdynamic
    simp only [Interface.candidate, hknown, if_true] at hsame
    split at hsame
    · simpa using hsame
    · simp at hsame

/-- A member of a dynamic LAG forwards to a partner that confirms it, or by fallback. -/
theorem Coherent.confirmed_of_forwarding (hdynamic : lag.isDynamic = true)
    (hmux : i.protocol.mux = .collectingDistributing) :
    i.Confirmed ∨ (i.protocol.receive = .defaulted ∧ i.protocol.fallbackGranted = true) := by
  have hsettled := h.settled_member hi hlag hl
  have hstatic : (!(e.evaluation lag).dynamic) = false := by
    simpa [evaluation] using hdynamic
  have hnext := hsettled.mux
  rw [hstatic] at hnext
  have hsync := Mux.partner_sync_of_settled hnext hmux
  have htruthful := (h.sound_member hi hlag hl).truthful
  obtain ⟨hreceive, hknown, hview⟩ | hgranted := htruthful.of_partner_sync hsync
  · exact .inl ⟨hreceive, hknown, hview, hsync⟩
  · exact .inr hgranted

end

/-- The limit holds for all members of a LAG together. -/
theorem Coherent.length_selectedSlots_le (h : e.Stable) (hl : e.lags.get? l = some lag) :
    (e.selectedSlots l).length ≤ e.maxMembers := by
  have hnodup : (e.selectedSlots l).Nodup := by
    refine List.Pairwise.filter _ ?_
    exact List.Pairwise.filter _ List.nodup_range
  have hactive : e.selectedSlots l ⊆ (select (e.selectionInput lag)).active := by
    intro slot hslot
    obtain ⟨-, hselected⟩ := List.mem_filter.mp hslot
    obtain ⟨i, hi, hboth⟩ := (Option.any_eq_true _ _).mp hselected
    simp only [Bool.and_eq_true, beq_iff_eq, Selection.isSelected] at hboth
    obtain ⟨hlag, hselected⟩ := hboth
    exact mem_active_of_selected (h.decision_of_selected hi hlag hl hselected)
  calc (e.selectedSlots l).length
      ≤ (select (e.selectionInput lag)).active.length := hnodup.length_le_of_subset hactive
    _ ≤ e.maxMembers := length_active_le

theorem Coherent.safe (h : e.Stable) (hl : e.lags.get? l = some lag) :
    e.Safe e.maxMembers l lag where
  attached := by
    intro slot i hi hlag hattaches
    have hselected := h.selected_of_attaches hi hlag hl hattaches
    exact ⟨hselected, h.up_of_selected hi hlag hl hselected⟩
  few := h.length_selectedSlots_le hl
  compatible := fun _ _ _ _ hi hlag hi' hlag' => h.compatible_of_selected hi hlag hl hi' hlag'
  confirmed := fun hdynamic _ _ hi hlag => h.confirmed_of_forwarding hi hlag hl hdynamic

/-- Whatever has been asked of an engine, each of its LAGs is safe. -/
theorem safe_reached (system : SystemIdentity) (maxMembers : Nat) (connected : Bool)
    (requests : List Request)
    (hl : (reached system maxMembers connected requests).lags.get? l = some lag) :
    (reached system maxMembers connected requests).Safe maxMembers l lag := by
  have hsafe := (stable_reached system maxMembers connected requests).safe hl
  rw [maxMembers_reached] at hsafe
  exact hsafe

/-- An engine with a member that hears its partner and waits until it attaches. -/
def bundled : Engine :=
  let hello : Frame := Frame.encodeLacp
    { actor := ⟨⟨1, .zero⟩, 7, ⟨1, 1⟩, { aggregation := true, sync := true }⟩
      partner := ⟨⟨65534, .zero⟩, 1, ⟨1, 1⟩, { aggregation := true }⟩ } .zero
  reached {} 8 true
    [.apply .lag ⟨"PortChannel1", .set, []⟩, .apply .member ⟨"PortChannel1|Ethernet0", .set, []⟩,
      .apply .port ⟨"Ethernet0", .set, [("admin_status", "up"), ("oper_status", "up")]⟩,
      .receiveFrame "Ethernet0" hello, .advanceTo 2000]

/-- Its member forwards, and its LAG is safe. -/
theorem safe_bundled : ∃ lag, bundled.lags.get? 0 = some lag ∧ bundled.selectedSlots 0 = [0] ∧
    (bundled.interfaces.get? 0).map (·.protocol.mux) = some .collectingDistributing ∧
      bundled.Safe 8 0 lag := by
  have hlive : (bundled.lags.get? 0).isSome = true := by decide +kernel
  have hselected : bundled.selectedSlots 0 = [0] := by decide +kernel
  have hforwards : (bundled.interfaces.get? 0).map (·.protocol.mux) =
      some .collectingDistributing := by decide +kernel
  obtain ⟨lag, hl⟩ := Option.isSome_iff_exists.mp hlive
  exact ⟨lag, hl, hselected, hforwards, safe_reached _ _ _ _ hl⟩

end Engine
end LinkAggregation
