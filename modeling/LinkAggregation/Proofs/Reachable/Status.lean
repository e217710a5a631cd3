import LinkAggregation.Proofs.Reachable.Flags
import LinkAggregation.Proofs.Reachable.Publication

/-!
# Bond status of reachable engines

The bond status of a member is computed from its port, its selection and its mux state, and kept in
its protocol state; the status of a LAG is computed from those of its members, and kept as
published. In every reachable engine a member is up exactly if its mux collects and distributes:
the machines never let a disabled, excluded or standing-by member come so far.
-/
namespace LinkAggregation

/-- The port of the member is up, but the member may not take part: it stands by, or its key, its
partner or its speed conflicts with the aggregate. -/
structure Interface.Blocked (i : Interface) : Prop where
  admin : i.port.admin.isUp = true
  link : i.port.link.isUp = true
  selection : i.protocol.selection = .standby ∨ i.protocol.selection = .unselected .keyMismatch ∨
    i.protocol.selection = .unselected .partnerMismatch ∨
      i.protocol.selection = .unselected .speedMismatch

section
variable {admin link : Bool} {selection : Selection} {mux : MuxState} {members : List BondStatus}

theorem Selection.isConflict_iff : selection.isConflict = true ↔ selection = .unselected .keyMismatch ∨
    selection = .unselected .partnerMismatch ∨ selection = .unselected .speedMismatch := by
  unfold Selection.isConflict
  split <;> simp_all

theorem memberBond_eq_blocked_iff : memberBond admin link selection mux = .blocked ↔
    admin = true ∧ link = true ∧ (selection.isConflict = true ∨ selection = .standby) := by
  unfold memberBond
  split
  · next hdown =>
    simp only [reduceCtorEq, false_iff]
    rintro ⟨rfl, rfl, -⟩
    simp at hdown
  · next hport =>
    have hup : admin = true ∧ link = true := by simpa using hport
    split
    · next hout => simpa [hup] using hout
    · next hin =>
      have hfit : ¬ (selection.isConflict = true ∨ selection = .standby) := by simpa using hin
      split <;> simp [hfit]

/-- Whoever is selected and enabled is up as soon as its mux collects and distributes. -/
theorem memberBond_eq_up_iff (hselected : mux = .collectingDistributing →
      admin = true ∧ link = true ∧ selection = .selected) :
    memberBond admin link selection mux = .up ↔ mux = .collectingDistributing := by
  constructor
  · intro hup
    unfold memberBond at hup
    split at hup
    · simp at hup
    · split at hup
      · simp at hup
      · split at hup
        · next hforwarding => simpa [MuxState.isForwarding] using hforwarding
        · simp at hup
  · intro hforwarding
    obtain ⟨rfl, rfl, rfl⟩ := hselected hforwarding
    rw [hforwarding]
    rfl

theorem lagBond_eq_blocked_iff :
    lagBond members = .blocked ↔ .up ∉ members ∧ .blocked ∈ members := by
  unfold lagBond
  split
  · simp [*]
  · split <;> simp [*]

end

namespace Engine

/-- The names are those of the LAG's members: those that are up take part, whoever takes part is
eligible, and whoever is eligible is configured. -/
structure Names (e : Engine) (l : Nat) (names : MemberNames) : Prop where
  configured : ∀ name, name ∈ names.configured ↔
    ∃ slot i, e.interfaces.get? slot = some i ∧ i.lag = some l ∧ i.name = name
  participant : ∀ name, name ∈ names.participant ↔
    ∃ slot i, e.interfaces.get? slot = some i ∧ i.lag = some l ∧ i.name = name ∧
      i.protocol.bond = some .up
  participates : names.participant.Sublist names.eligible
  eligible : names.eligible.Sublist names.configured

/-- The bond status that the engine keeps and tells is that of the mux machines. -/
structure Forthright (e : Engine) : Prop where
  outside : ∀ slot i, e.interfaces.get? slot = some i → i.lag = none → i.protocol.bond = none
  up : ∀ slot i l, e.interfaces.get? slot = some i → i.lag = some l →
    (i.protocol.bond = some .up ↔ i.protocol.mux = .collectingDistributing)
  blocked : ∀ slot i l, e.interfaces.get? slot = some i → i.lag = some l →
    (i.protocol.bond = some .blocked ↔ i.Blocked)
  /-- There is no other case, and the first two exclude each other. -/
  down : ∀ slot i l, e.interfaces.get? slot = some i → i.lag = some l →
    (i.protocol.bond = some .down ↔ i.protocol.mux ≠ .collectingDistributing ∧ ¬ i.Blocked)
  lagUp : ∀ l lag, e.lags.get? l = some lag →
    (lag.published = some .up ↔ ∃ slot i, e.interfaces.get? slot = some i ∧ i.lag = some l ∧
      i.protocol.mux = .collectingDistributing)
  lagBlocked : ∀ l lag, e.lags.get? l = some lag →
    (lag.published = some .blocked ↔
      (∀ slot i, e.interfaces.get? slot = some i → i.lag = some l →
        i.protocol.mux ≠ .collectingDistributing) ∧
      ∃ slot i, e.interfaces.get? slot = some i ∧ i.lag = some l ∧ i.Blocked)
  /-- A LAG that is neither is down, one without members too. -/
  lagDown : ∀ l lag, e.lags.get? l = some lag →
    (lag.published = some .down ↔ ∀ slot i, e.interfaces.get? slot = some i → i.lag = some l →
      i.protocol.mux ≠ .collectingDistributing ∧ ¬ i.Blocked)
  /-- The names of a LAG's members can be asked for. -/
  names : ∀ l lag, e.lags.get? l = some lag →
    ∃ names, e.memberNames lag.name = .ok names ∧ e.Names l names

variable {e : Engine} {l slot : Nat} {lag : Lag} {i : Interface}

/-! ## Members -/

section
variable (h : e.Stable) (hi : e.interfaces.get? slot = some i) (hlag : i.lag = some l)
include h hi hlag

theorem Coherent.bond_eq : i.protocol.bond = some (memberBond i.port.admin.isUp i.port.link.isUp
    i.protocol.selection i.protocol.mux) := by
  obtain ⟨lag, hl, -⟩ := h.lag_of_member hi hlag
  exact (h.settled_member hi hlag hl).bond

theorem Coherent.bond_eq_up_iff :
    i.protocol.bond = some .up ↔ i.protocol.mux = .collectingDistributing := by
  rw [h.bond_eq hi hlag, Option.some.injEq]
  refine memberBond_eq_up_iff fun hforwarding => ?_
  obtain ⟨lag, hl, -⟩ := h.lag_of_member hi hlag
  have hselected := h.selected_of_attaches hi hlag hl (.inr (.inl hforwarding))
  obtain ⟨hadmin, hlink⟩ := h.up_of_selected hi hlag hl hselected
  exact ⟨hadmin, hlink, hselected⟩

theorem Coherent.bond_eq_blocked_iff : i.protocol.bond = some .blocked ↔ i.Blocked := by
  rw [h.bond_eq hi hlag, Option.some.injEq, memberBond_eq_blocked_iff,
    Selection.isConflict_iff]
  constructor
  · rintro ⟨hadmin, hlink, hconflict | hstandby⟩
    · exact ⟨hadmin, hlink, .inr hconflict⟩
    · exact ⟨hadmin, hlink, .inl hstandby⟩
  · rintro ⟨hadmin, hlink, hstandby | hconflict⟩
    · exact ⟨hadmin, hlink, .inr hstandby⟩
    · exact ⟨hadmin, hlink, .inl hconflict⟩

theorem Coherent.bond_eq_down_iff : i.protocol.bond = some .down ↔
    i.protocol.mux ≠ .collectingDistributing ∧ ¬ i.Blocked := by
  rw [ne_eq, ← h.bond_eq_up_iff hi hlag, ← h.bond_eq_blocked_iff hi hlag, h.bond_eq hi hlag]
  cases memberBond i.port.admin.isUp i.port.link.isUp i.protocol.selection i.protocol.mux <;> simp

end

/-! ## LAGs -/

section
variable (h : e.Stable) (hl : e.lags.get? l = some lag)
include h hl

/-- The statuses of the members of a LAG. -/
theorem Coherent.mem_bonds_iff {status : BondStatus} :
    status ∈ (e.members lag).filterMap (fun m => m.2.protocol.bond) ↔
      ∃ slot i, e.interfaces.get? slot = some i ∧ i.lag = some l ∧
        i.protocol.bond = some status := by
  simp only [List.mem_filterMap, Prod.exists, mem_members, h.members l lag hl]
  constructor
  · rintro ⟨slot, i, ⟨⟨j, hj, hlag⟩, hi⟩, hbond⟩
    obtain rfl : j = i := Option.some.inj (hj.symm.trans hi)
    exact ⟨slot, j, hi, hlag, hbond⟩
  · rintro ⟨slot, i, hi, hlag, hbond⟩
    exact ⟨slot, i, ⟨⟨i, hi, hlag⟩, hi⟩, hbond⟩

theorem Coherent.published_eq_up_iff : lag.published = some .up ↔
    ∃ slot i, e.interfaces.get? slot = some i ∧ i.lag = some l ∧
      i.protocol.mux = .collectingDistributing := by
  rw [(h.settled l lag hl id).published, Option.some.injEq, lagBond_eq_up_iff, h.mem_bonds_iff hl]
  constructor
  · rintro ⟨slot, i, hi, hlag, hbond⟩
    exact ⟨slot, i, hi, hlag, (h.bond_eq_up_iff hi hlag).mp hbond⟩
  · rintro ⟨slot, i, hi, hlag, hmux⟩
    exact ⟨slot, i, hi, hlag, (h.bond_eq_up_iff hi hlag).mpr hmux⟩

theorem Coherent.published_eq_blocked_iff : lag.published = some .blocked ↔
    (∀ slot i, e.interfaces.get? slot = some i → i.lag = some l →
      i.protocol.mux ≠ .collectingDistributing) ∧
    ∃ slot i, e.interfaces.get? slot = some i ∧ i.lag = some l ∧ i.Blocked := by
  rw [(h.settled l lag hl id).published, Option.some.injEq, lagBond_eq_blocked_iff,
    h.mem_bonds_iff hl, h.mem_bonds_iff hl]
  refine and_congr ?_ ?_
  · constructor
    · rintro hnone slot i hi hlag hmux
      exact hnone ⟨slot, i, hi, hlag, (h.bond_eq_up_iff hi hlag).mpr hmux⟩
    · rintro hnone ⟨slot, i, hi, hlag, hbond⟩
      exact hnone slot i hi hlag ((h.bond_eq_up_iff hi hlag).mp hbond)
  · constructor
    · rintro ⟨slot, i, hi, hlag, hbond⟩
      exact ⟨slot, i, hi, hlag, (h.bond_eq_blocked_iff hi hlag).mp hbond⟩
    · rintro ⟨slot, i, hi, hlag, hblocked⟩
      exact ⟨slot, i, hi, hlag, (h.bond_eq_blocked_iff hi hlag).mpr hblocked⟩

theorem Coherent.published_eq_down_iff : lag.published = some .down ↔
    ∀ slot i, e.interfaces.get? slot = some i → i.lag = some l →
      i.protocol.mux ≠ .collectingDistributing ∧ ¬ i.Blocked := by
  have hcases : lag.published = some .down ↔
      lag.published ≠ some .up ∧ lag.published ≠ some .blocked := by
    rw [(h.settled l lag hl id).published]
    cases lagBond ((e.members lag).filterMap fun m => m.2.protocol.bond) <;> simp
  rw [hcases, ne_eq, ne_eq, h.published_eq_up_iff hl, h.published_eq_blocked_iff hl]
  constructor
  · rintro ⟨hup, hblocked⟩ slot i hi hlag
    refine ⟨fun hmux => hup ⟨slot, i, hi, hlag, hmux⟩, fun hstuck => hblocked ⟨?_, ?_⟩⟩
    · exact fun slot' j hj hlag' hmux => hup ⟨slot', j, hj, hlag', hmux⟩
    · exact ⟨slot, i, hi, hlag, hstuck⟩
  · intro hdown
    refine ⟨?_, ?_⟩
    · rintro ⟨slot, i, hi, hlag, hmux⟩
      exact (hdown slot i hi hlag).1 hmux
    · rintro ⟨-, slot, i, hi, hlag, hstuck⟩
      exact (hdown slot i hi hlag).2 hstuck

/-! ## Names -/

/-- The names that the engine tells of a LAG. -/
theorem Coherent.memberNames_eq :
    e.memberNames lag.name = .ok
      { configured := ((e.members lag).map Prod.snd).map (·.name)
        eligible := (((e.members lag).map Prod.snd).filter
          (·.protocol.selection.isEligible)).map (·.name)
        participant := (((e.members lag).map Prod.snd).filter
          (·.protocol.mux.isForwarding)).map (·.name) } := by
  have hknown : e.requireLag lag.name = .ok lag := by
    simp [requireLag, lag?, Arena.lookup?, h.lags.find?_of_get? hl, hl]
  simp only [memberNames, hknown]
  rfl

theorem Coherent.mem_memberInterfaces_iff : i ∈ (e.members lag).map Prod.snd ↔
    ∃ slot, e.interfaces.get? slot = some i ∧ i.lag = some l := by
  simp only [List.mem_map, Prod.exists, exists_eq_right, mem_members, h.members l lag hl]
  constructor
  · rintro ⟨slot, ⟨j, hj, hlag⟩, hi⟩
    obtain rfl : j = i := Option.some.inj (hj.symm.trans hi)
    exact ⟨slot, hi, hlag⟩
  · rintro ⟨slot, hi, hlag⟩
    exact ⟨slot, ⟨i, hi, hlag⟩, hi⟩

/-- Whoever forwards is selected, and so eligible. -/
theorem Coherent.participants_sublist :
    (((e.members lag).map Prod.snd).filter (·.protocol.mux.isForwarding)).Sublist
      (((e.members lag).map Prod.snd).filter (·.protocol.selection.isEligible)) := by
  have hboth : ((e.members lag).map Prod.snd).filter (·.protocol.mux.isForwarding) =
      (((e.members lag).map Prod.snd).filter (·.protocol.selection.isEligible)).filter
        (·.protocol.mux.isForwarding) := by
    rw [List.filter_filter]
    refine List.filter_congr fun i hmem => ?_
    obtain ⟨slot, hi, hlag⟩ := (h.mem_memberInterfaces_iff hl).mp hmem
    cases hforwarding : i.protocol.mux.isForwarding with
    | false => rfl
    | true =>
      have hmux : i.protocol.mux = .collectingDistributing := by
        simpa [MuxState.isForwarding] using hforwarding
      have hselected := h.selected_of_attaches hi hlag hl (.inr (.inl hmux))
      simp [Selection.isEligible, hselected]
  rw [hboth]
  exact List.filter_sublist

theorem Coherent.names : ∃ names, e.memberNames lag.name = .ok names ∧ e.Names l names := by
  refine ⟨_, h.memberNames_eq hl, fun name => ?_, fun name => ?_, ?_, ?_⟩
  · rw [List.mem_map]
    constructor
    · rintro ⟨i, hmem, hname⟩
      obtain ⟨slot, hi, hlag⟩ := (h.mem_memberInterfaces_iff hl).mp hmem
      exact ⟨slot, i, hi, hlag, hname⟩
    · rintro ⟨slot, i, hi, hlag, hname⟩
      exact ⟨i, (h.mem_memberInterfaces_iff hl).mpr ⟨slot, hi, hlag⟩, hname⟩
  · rw [List.mem_map]
    constructor
    · rintro ⟨i, hmem, hname⟩
      obtain ⟨hmem, hforwarding⟩ := List.mem_filter.mp hmem
      obtain ⟨slot, hi, hlag⟩ := (h.mem_memberInterfaces_iff hl).mp hmem
      refine ⟨slot, i, hi, hlag, hname, (h.bond_eq_up_iff hi hlag).mpr ?_⟩
      simpa [MuxState.isForwarding] using hforwarding
    · rintro ⟨slot, i, hi, hlag, hname, hbond⟩
      have hmux := (h.bond_eq_up_iff hi hlag).mp hbond
      refine ⟨i, List.mem_filter.mpr ⟨(h.mem_memberInterfaces_iff hl).mpr ⟨slot, hi, hlag⟩, ?_⟩,
        hname⟩
      simp [MuxState.isForwarding, hmux]
  · exact (h.participants_sublist hl).map _
  · exact List.filter_sublist.map _

end

/-- Whatever has been asked of an engine, its bond statuses are those of the mux machines. -/
theorem forthright_reached (system : SystemIdentity) (maxMembers : Nat) (connected : Bool)
    (requests : List Request) : (reached system maxMembers connected requests).Forthright := by
  have h := stable_reached system maxMembers connected requests
  exact {
    outside := by
      intro slot i hi hlag
      rw [(tidy_reached slot i hi hlag).protocol]
    up := fun _ _ _ hi hlag => h.bond_eq_up_iff hi hlag
    blocked := fun _ _ _ hi hlag => h.bond_eq_blocked_iff hi hlag
    down := fun _ _ _ hi hlag => h.bond_eq_down_iff hi hlag
    lagUp := fun _ _ hl => h.published_eq_up_iff hl
    lagBlocked := fun _ _ hl => h.published_eq_blocked_iff hl
    lagDown := fun _ _ hl => h.published_eq_down_iff hl
    names := fun _ _ hl => h.names hl }

end Engine
end LinkAggregation
