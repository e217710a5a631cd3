import LinkAggregation.Proofs.Engine.Course

/-!
# Arenas of reachable engines

Slots are used again and again, and the engine keeps by hand which name is in which slot and who is
a member of what. In every reachable engine both indexes are exact, an interface and its LAG know
of each other, and keys and default port numbers are those of the names.
-/
namespace LinkAggregation.Engine

/-- Names, slots and memberships fit together. -/
structure Consistent (e : Engine) : Prop where
  /-- The index of the interfaces leads from a name exactly to the slot of its interface. -/
  interfaces : ∀ name slot, e.interfaces.find? name = some slot ↔
    ∃ i, e.interfaces.get? slot = some i ∧ i.name = name
  /-- The index of the LAGs does so as well. -/
  lags : ∀ name l, e.lags.find? name = some l ↔ ∃ lag, e.lags.get? l = some lag ∧ lag.name = name
  /-- An interface names the LAG that counts it among its members, and no other. -/
  membership : ∀ slot i l, e.interfaces.get? slot = some i →
    (i.lag = some l ↔ ∃ lag, e.lags.get? l = some lag ∧ slot ∈ lag.members)
  /-- No member is missing. -/
  known : ∀ l lag slot, e.lags.get? l = some lag → slot ∈ lag.members →
    ∃ i, e.interfaces.get? slot = some i
  /-- No slot is a member twice. -/
  ascending : ∀ l lag, e.lags.get? l = some lag → lag.members.Pairwise (· < ·)
  disjoint : ∀ k l lag lag' slot, e.lags.get? k = some lag → e.lags.get? l = some lag' →
    slot ∈ lag.members → slot ∈ lag'.members → k = l
  /-- The key of a LAG is the number in its name. -/
  key : ∀ l lag, e.lags.get? l = some lag → lagKey lag.name = .ok lag.key
  defaultNumber : ∀ slot i, e.interfaces.get? slot = some i →
    i.defaultNumber = defaultPortNumber i.name slot

variable {e : Engine} {l slot : Nat} {lag lag' : Lag} {i i' : Interface}

section
variable (h : e.Linked)
include h

/-- An interface is a member exactly of the LAG that it names. -/
theorem Linked.lag_iff (hi : e.interfaces.get? slot = some i) :
    i.lag = some l ↔ ∃ lag, e.lags.get? l = some lag ∧ slot ∈ lag.members := by
  constructor
  · exact fun hlag => h.lag_of_member hi hlag
  · rintro ⟨lag, hl, hslot⟩
    obtain ⟨j, hj, hlag⟩ := (h.members l lag hl slot).mp hslot
    obtain rfl : i = j := Option.some.inj (hi.symm.trans hj)
    exact hlag

/-- The members of different LAGs are different. -/
theorem Linked.disjoint {k : Nat} (hk : e.lags.get? k = some lag) (hl : e.lags.get? l = some lag')
    (hslot : slot ∈ lag.members) (hslot' : slot ∈ lag'.members) : k = l :=
  ((h.members l lag' hl slot).mp hslot').unique ((h.members k lag hk slot).mp hslot)

end

section
variable (system : SystemIdentity) (maxMembers : Nat) (connected : Bool) (requests : List Request)

/-- The key of a LAG is that of its name from the start, and neither changes. -/
theorem key_reached (hl : (reached system maxMembers connected requests).lags.get? l = some lag) :
    lagKey lag.name = .ok lag.key := by
  refine reached_lags (Q := fun _ lag => lagKey lag.name = .ok lag.key)
    (fun name key settings l hkey => hkey) ?_ hl
  intro e l lag lag' hc hkey
  rw [hc.keeps Lag.name fun _ _ _ _ _ => rfl, hc.keeps Lag.key fun _ _ _ _ _ => rfl]
  exact hkey

/-- The default port number of an interface is that of its name and slot from the start. -/
theorem defaultNumber_reached
    (hi : (reached system maxMembers connected requests).interfaces.get? slot = some i) :
    i.defaultNumber = defaultPortNumber i.name slot := by
  refine reached_interfaces
    (P := fun slot i => i.defaultNumber = defaultPortNumber i.name slot)
    (fun name slot => rfl) ?_ hi
  intro e _ slot i i' hc hnumber
  rw [hc.keeps Interface.name fun _ _ _ _ _ _ _ _ => rfl,
    hc.keeps Interface.defaultNumber fun _ _ _ _ _ _ _ _ => rfl]
  exact hnumber

/-- Whatever has been asked of an engine, and whether it was granted or failed, names, slots and
memberships fit together. -/
theorem consistent_reached : (reached system maxMembers connected requests).Consistent := by
  have hstable := stable_reached system maxMembers connected requests
  have hlinked := hstable.linked
  exact
    { interfaces := hlinked.interfaces
      lags := hlinked.lags
      membership := fun _ _ _ hi => hlinked.lag_iff hi
      known := by
        intro l lag slot hl hslot
        obtain ⟨i, hi, -⟩ := (hlinked.members l lag hl slot).mp hslot
        exact ⟨i, hi⟩
      ascending := hstable.ascending
      disjoint := fun _ _ _ _ _ hk hl => hlinked.disjoint hk hl
      key := fun _ _ hl => key_reached system maxMembers connected requests hl
      defaultNumber := fun _ _ hi => defaultNumber_reached system maxMembers connected requests hi }

end

end LinkAggregation.Engine
