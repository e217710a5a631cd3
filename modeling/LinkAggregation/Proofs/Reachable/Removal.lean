import LinkAggregation.Proofs.Reachable.Arenas
import LinkAggregation.Proofs.Reachable.Publication

/-!
# Removal leaves nothing behind

A member that leaves its LAG, on its own or with the whole LAG, is as if its interface had just
become known: of its past only the port status, the transmit window and the counters remain. A LAG
that is deleted is gone with its name, its slot and its timer. Whoever uses the names or the slots
again begins with default settings.
-/
namespace LinkAggregation

/-- The interface after it has left its LAG. -/
def Interface.released (i : Interface) : Interface :=
  { i.reset with lag := none, settings := {}, published := none }

/-- What is left of an interface is a new one with the old port, window and counters. -/
theorem Interface.released_eq {i : Interface} {slot : Nat}
    (h : i.defaultNumber = defaultPortNumber i.name slot) :
    i.released = { Interface.new i.name slot with
      port := i.port, window := i.window, counters := i.counters } := by
  simp only [Interface.released, Interface.reset, Interface.new, h]

namespace Engine

/-- Nothing remains of the membership that the interface in the slot had. -/
structure Erased (e : Engine) (k : Ledger) (slot : Nat) (i : Interface) : Prop where
  /-- The interface is a new one but for its port, its window and its counters. -/
  interface : e.interfaces.get? slot = some { Interface.new i.name slot with
    port := i.port, window := i.window, counters := i.counters }
  timers : ∀ key : TimerKey, key.interface? = some slot → e.timers.deadline? key = none
  record : e.record? i.name = none
  /-- Whoever receives the effects has no record of it. -/
  withdrawn : e.connected = true → Assoc.get? i.name k.members = none

/-- Nothing remains of the LAG that was in the slot. -/
structure Dissolved (e : Engine) (k : Ledger) (l : Nat) (name : String) : Prop where
  unknown : e.lags.find? name = none
  free : e.lags.get? l = none
  timer : e.timers.deadline? (.fallback l) = none
  outside : ∀ slot i, e.interfaces.get? slot = some i → i.lag ≠ some l
  withdrawn : e.connected = true → Assoc.get? name k.lags = none

/-- Whatever is removed is forgotten, and whatever comes begins with defaults. The ledger has the
effects so far. -/
structure Forgetful (e : Engine) (k : Ledger) : Prop where
  /-- A member that is deleted is erased. -/
  member : ∀ key lagName name l slot i, memberKey? key = some (lagName, name) →
    e.lags.find? lagName = some l → e.interfaces.find? name = some slot →
    e.interfaces.get? slot = some i → i.lag = some l →
      (e.memberDel key).error = none ∧
        (e.memberDel key).engine.Erased (k.replay (e.memberDel key).effects) slot i
  /-- A LAG that is deleted is dissolved, and all its members are erased. Its name remains one that
  a LAG can have. -/
  lag : ∀ name l lag, e.lags.find? name = some l → e.lags.get? l = some lag →
    (e.lagDel name).error = none ∧ lagKey name = .ok lag.key ∧
      (e.lagDel name).engine.Dissolved (k.replay (e.lagDel name).effects) l name ∧
        ∀ slot ∈ lag.members, ∀ i, e.interfaces.get? slot = some i →
          (e.lagDel name).engine.Erased (k.replay (e.lagDel name).effects) slot i
  /-- A LAG that is not there is created with default settings, the given fields and no members. -/
  found : ∀ name key fields, lagKey name = .ok key → e.lags.find? name = none →
    match ({} : LagSettings).withFields fields with
    | .error error => e.lagSet name fields = .fail e error
    | .ok settings => (e.lagSet name fields).error = none ∧
        ∃ lag, (e.lagSet name fields).engine.lag? name = some lag ∧
          lag.settings = settings ∧ lag.members = []
  /-- An interface that is in no LAG joins one with default settings and the given fields. -/
  join : ∀ key lagName name l fields, memberKey? key = some (lagName, name) →
    e.lags.find? lagName = some l → (∀ i, e.interface? name = some i → i.lag = none) →
    match ({} : MemberSettings).withFields fields with
    | .error error => (e.memberSet key fields).error = some error
    | .ok settings => (e.memberSet key fields).error = none ∧
        ∃ i, (e.memberSet key fields).engine.interface? name = some i ∧
          i.settings = settings ∧ i.lag = some l

variable {e e' : Engine} {k : Ledger} {l slot : Nat} {lag : Lag} {i : Interface}
  {name lagName key : String} {fields : List Field}

/-! ## Members that leave -/

/-- An interface outside all LAGs that was released is erased, whoever did it. -/
theorem Coherent.erased (h : e.Stable) (hi : e.interfaces.get? slot = some i.released)
    (hnumber : i.defaultNumber = defaultPortNumber i.name slot)
    (hledger : e.connected = true → e.Published k) : e.Erased k slot i := by
  have hname : e.interfaces.find? i.released.name = some slot := h.interfaces.find?_of_get? hi
  change e.interfaces.find? i.name = some slot at hname
  have hlag : i.released.lag = none := rfl
  refine ⟨?_, ?_, ?_, ?_⟩
  · rw [hi, Interface.released_eq hnumber]
  · intro key hkey
    have hnone := h.due_outside (not_isMember_of_lag_eq_none hi hlag) hkey
    rwa [due_nil] at hnone
  · simp [record?, interface?, Arena.lookup?, hname, hi, Interface.released]
  · intro hconnected
    rw [(hledger hconnected).members]
    simp [memberRecord?, endpoint?, hname, hi, hlag]

/-- Of the interfaces, exactly the one that leaves is released. -/
theorem get?_detachMember (e : Engine) (l m slot : Nat) :
    (e.detachMember l m).1.interfaces.get? slot =
      if m = slot then (e.interfaces.get? slot).map Interface.released
      else e.interfaces.get? slot := by
  cases hm : e.interfaces.get? m with
  | none =>
    have hsame : (e.detachMember l m).1.interfaces = e.interfaces := by
      unfold detachMember
      dsimp only
      split
      · rfl
      · next i hi =>
        change e.interfaces.get? m = some i at hi
        simp [hm] at hi
    rw [hsame]
    split
    · next heq => rw [← heq, hm]; rfl
    · rfl
  | some i =>
    rw [detachMember_eq hm, get?_exchange]
    split
    · next heq => rw [← heq, hm]; rfl
    · rfl

/-- Released again, an interface stays as it is. -/
theorem get?_detachMembers (l slot : Nat) (slots : List Nat) (e : Engine) :
    (slots.foldl (fun e m => (e.detachMember l m).1) e).interfaces.get? slot =
      if slot ∈ slots then (e.interfaces.get? slot).map Interface.released
      else e.interfaces.get? slot := by
  induction slots generalizing e with
  | nil => rfl
  | cons m rest ih =>
    rw [List.foldl_cons, ih, get?_detachMember]
    by_cases hslot : m = slot
    · subst hslot
      have htwice : (Interface.released ∘ Interface.released) = Interface.released := rfl
      simp [htwice]
    · simp [hslot, Ne.symm hslot]

/-- A member that has left is released, and the evaluation of its LAG leaves it alone. -/
theorem Coherent.get?_release (h : e.Stable) (hi : e.interfaces.get? slot = some i)
    (hlag : i.lag = some l) :
    ((e.detachMember l slot).next (·.evaluate l)).1.interfaces.get? slot = some i.released := by
  obtain ⟨lag, hl, -⟩ := h.lag_of_member hi hlag
  have hmarked : e.Coherent (· = l) [] := h.mark fun _ => False.elim
  have hdetached := hmarked.detach hi hlag hl
  have hget : (e.detachMember l slot).1.interfaces.get? slot = some i.released := by
    rw [get?_detachMember, if_pos rfl, hi]
    rfl
  have houtside := not_isMember_of_lag_eq_none hget rfl l
  rw [next_fst, (hdetached.linked.within_evaluate l).outside slot houtside]
  exact hget

/-- Deleting a LAG releases its members and clears its slot. -/
theorem engine_lagDel (hname : e.lags.find? name = some l) (hl : e.lags.get? l = some lag) :
    (e.lagDel name).engine =
      let released := lag.members.foldl (fun e m => (e.detachMember l m).1) e
      { released with
        timers := released.timers.cancel (.fallback l)
        lags := released.lags.remove name l } := by
  simp only [lagDel, hname, hl, Option.map_some, Option.getD_some, Outcome.ok]
  rw [foldl_next_fst (fun e m => e.detachMember l m)]

/-! ## The removals -/

section
variable (h : e.Stable) (htidy : e.Tidy) (hk : e.connected = true → e.Mirrors k)
include h htidy hk

/-- The ledger follows every entry that is applied. -/
theorem Coherent.published_applyEntry (table : Table) (entry : Entry) :
    (e.applyEntry table entry).engine.connected = true →
      (e.applyEntry table entry).engine.Published
        (k.replay (e.applyEntry table entry).effects) := by
  intro hconnected
  have hcourse := h.course_applyEntry table entry
  have hbefore : e.connected = true := hcourse.connected.symm.trans hconnected
  obtain ⟨-, hmirrors⟩ := hcourse.mirrors hbefore htidy (hk hbefore)
  exact hmirrors.published (h.applyEntry table entry) (hcourse.tidy htidy)

theorem Coherent.erased_memberDel (hkey : memberKey? key = some (lagName, name))
    (hl : e.lags.find? lagName = some l) (hname : e.interfaces.find? name = some slot)
    (hi : e.interfaces.get? slot = some i) (hlag : i.lag = some l)
    (hnumber : i.defaultNumber = defaultPortNumber i.name slot) :
    (e.memberDel key).error = none ∧
      (e.memberDel key).engine.Erased (k.replay (e.memberDel key).effects) slot i := by
  have hdel : e.memberDel key =
      .ok ((e.detachMember l slot).next (·.evaluate l)) := by
    simp only [Engine.memberDel, parseMemberKey, hkey, hl, hname, hi, Option.bind_some, hlag,
      if_true]
  have hstable := h.memberDel key
  have hledger := h.published_applyEntry htidy hk .member ⟨key, .del, []⟩
  have hget : (e.memberDel key).engine.interfaces.get? slot = some i.released := by
    rw [hdel]
    exact h.get?_release hi hlag
  refine ⟨by rw [hdel]; rfl, hstable.erased hget hnumber hledger⟩

theorem Coherent.dissolved_lagDel (hname : e.lags.find? name = some l)
    (hl : e.lags.get? l = some lag) :
    (e.lagDel name).error = none ∧
      (e.lagDel name).engine.Dissolved (k.replay (e.lagDel name).effects) l name ∧
        ∀ slot ∈ lag.members, ∀ i, e.interfaces.get? slot = some i →
          i.defaultNumber = defaultPortNumber i.name slot →
            (e.lagDel name).engine.Erased (k.replay (e.lagDel name).effects) slot i := by
  have hstable := h.lagDel name
  have hledger := h.published_applyEntry htidy hk .lag ⟨name, .del, []⟩
  dsimp only [Engine.applyEntry] at hledger
  have hengine := engine_lagDel hname hl
  have herror : (e.lagDel name).error = none := by
    simp only [Engine.lagDel, hname]
    rfl
  have htimer : (e.lagDel name).engine.timers.deadline? (.fallback l) = none := by
    rw [hengine]
    simp
  have hgone : (e.lagDel name).engine.lags.get? l = none := by
    rw [hengine]
    simp
  have hunnamed : (e.lagDel name).engine.lags.find? name = none := by
    rw [hengine]
    simp
  refine ⟨herror, ⟨hunnamed, hgone, htimer, ?_, ?_⟩, ?_⟩
  · intro slot i hi hlag
    have hlive := hstable.live l slot ⟨i, hi, hlag⟩
    simp [hgone] at hlive
  · intro hconnected
    rw [(hledger hconnected).lags]
    simp [bond?, lag?, Arena.lookup?, hunnamed]
  · intro slot hslot i hi hnumber
    have hget : (e.lagDel name).engine.interfaces.get? slot = some i.released := by
      rw [hengine]
      dsimp only
      rw [get?_detachMembers, if_pos hslot, hi]
      rfl
    exact hstable.erased hget hnumber hledger

end

/-! ## The newcomers -/

theorem found_lagSet {key : UInt16} (hkey : lagKey name = .ok key)
    (hname : e.lags.find? name = none) :
    match ({} : LagSettings).withFields fields with
    | .error error => e.lagSet name fields = .fail e error
    | .ok settings => (e.lagSet name fields).error = none ∧
        ∃ lag, (e.lagSet name fields).engine.lag? name = some lag ∧
          lag.settings = settings ∧ lag.members = [] := by
  cases hfields : ({} : LagSettings).withFields fields with
  | error error =>
    dsimp only
    simp only [lagSet, hkey, hname, hfields]
  | ok settings =>
    dsimp only
    have hset : e.lagSet name fields = .ok (e.createLag name key settings) := by
      simp only [lagSet, hkey, hname, hfields]
    let founded : Engine := { e with lags := e.lags.insert name { name, key, settings } }
    have hl : founded.lags.get? e.lags.freeSlot = some { name, key, settings } :=
      Arena.get?_insert_freeSlot _ _ _
    have hafter := get?_lags_evaluate hl
    have hfind : (founded.evaluate e.lags.freeSlot).1.lags.find? name = some e.lags.freeSlot := by
      rw [evaluate_lags hl, Arena.find?_modify]
      simp [founded]
    refine ⟨by rw [hset]; rfl, founded.lagAfter e.lags.freeSlot { name, key, settings }, ?_, rfl,
      rfl⟩
    rw [hset]
    show (founded.evaluate e.lags.freeSlot).1.lag? name = _
    simp [lag?, Arena.lookup?, hfind, hafter]

section
variable (h : e.Stable)
include h

/-- An interface outside all LAGs is a member with these settings once it has joined. -/
theorem Coherent.interface?_attachMember (hi : e.interfaces.get? slot = some i)
    (hlag : i.lag = none) (hl : e.lags.get? l = some lag) (settings : MemberSettings) :
    ∃ i', (e.attachMember l slot settings).1.interface? i.name = some i' ∧
      i'.settings = settings ∧ i'.lag = some l := by
  have hname := h.interfaces.find?_of_get? hi
  have hattached := h.attach hi hlag hl settings
  have heq := attach_eq (e := e) hi hl settings
  rw [heq] at hattached
  have hl' : (e.exchange l slot (·.addMember slot) (e.joined l slot lag i settings)).lags.get? l =
      some (lag.addMember slot) := by
    rw [get?_lags_exchange, if_pos rfl, hl]
    rfl
  have hi' : (e.exchange l slot (·.addMember slot)
      (e.joined l slot lag i settings)).interfaces.get? slot =
        some (e.joined l slot lag i settings).1 := by
    rw [get?_exchange, if_pos rfl, hi]
    rfl
  have hslot : slot ∈ (lag.addMember slot).members := by simp [Lag.addMember]
  have hget := get?_evaluate hl' (hattached.nodup hl') hslot
  rw [hi', Option.map_some] at hget
  have hevaluated : e.attachMember l slot settings =
      (e.exchange l slot (·.addMember slot) (e.joined l slot lag i settings)).evaluate l := by
    unfold Engine.attachMember
    dsimp only
    rw [heq]
  refine ⟨(e.exchange l slot (·.addMember slot) (e.joined l slot lag i settings)).after l
    (lag.addMember slot) slot (e.joined l slot lag i settings).1, ?_, ?_, ?_⟩
  · rw [hevaluated]
    unfold interface? Arena.lookup?
    rw [find?_evaluate hl']
    show (e.interfaces.find? i.name).bind _ = _
    rw [hname]
    exact hget
  · rw [after_keeps Interface.settings fun _ _ _ _ _ => rfl]
    rfl
  · rw [after_keeps Interface.lag fun _ _ _ _ _ => rfl]
    rfl

theorem Coherent.join_memberSet (hkey : memberKey? key = some (lagName, name))
    (hl : e.lags.find? lagName = some l)
    (hfree : ∀ i, e.interface? name = some i → i.lag = none) :
    match ({} : MemberSettings).withFields fields with
    | .error error => (e.memberSet key fields).error = some error
    | .ok settings => (e.memberSet key fields).error = none ∧
        ∃ i, (e.memberSet key fields).engine.interface? name = some i ∧
          i.settings = settings ∧ i.lag = some l := by
  have hknown := h.ensureInterface name
  obtain ⟨lag, hlag, -⟩ := h.lags.get?_of_find? hl
  rw [← ensureInterface_lags name] at hlag
  -- Known or not, the interface is in no LAG.
  obtain ⟨i, hi, rfl, hnone⟩ : ∃ i, (e.ensureInterface name).1.interfaces.get?
      (e.ensureInterface name).2 = some i ∧ i.name = name ∧ i.lag = none := by
    cases hname : e.interfaces.find? name with
    | none =>
      refine ⟨Interface.new name e.interfaces.freeSlot, ?_, rfl, rfl⟩
      simp [Engine.ensureInterface, hname]
    | some slot =>
      obtain ⟨i, hi, hnamed⟩ := h.interfaces.get?_of_find? hname
      refine ⟨i, ?_, hnamed, hfree i ?_⟩
      · simpa [Engine.ensureInterface, hname] using hi
      · simp [interface?, Arena.lookup?, hname, hi]
  cases hfields : ({} : MemberSettings).withFields fields with
  | error error =>
    have hset : e.memberSet key fields = .fail (e.ensureInterface i.name).1 error := by
      simp [Engine.memberSet, parseMemberKey, hkey, hl, hi, hnone, hfields]
    rw [hset]
    rfl
  | ok settings =>
    have hset : e.memberSet key fields = .ok ((e.ensureInterface i.name).1.attachMember l
        (e.ensureInterface i.name).2 settings) := by
      simp [Engine.memberSet, parseMemberKey, hkey, hl, hi, hnone, hfields]
    rw [hset]
    exact ⟨rfl, hknown.interface?_attachMember hi hnone hlag settings⟩

end

/-- Whatever has been asked of an engine before, what it removes is forgotten. That holds after the
removal as well, so that what comes later begins with defaults. -/
theorem forgetful_reached (system : SystemIdentity) (maxMembers : Nat) (connected : Bool)
    (requests : List Request) :
    let s := (Engine.new system maxMembers connected).run requests
    s.1.Forgetful (({} : Ledger).replay s.2) := by
  have hnew := stable_new system maxMembers connected
  have hstable := stable_reached system maxMembers connected requests
  have htidy : (reached system maxMembers connected requests).Tidy := tidy_reached
  have hcourse := hnew.course_run requests
  have hempty : (Engine.new system maxMembers connected).Mirrors {} :=
    { record := fun slot i hi => by simp at hi
      known := fun name record hget => by simp at hget
      status := fun l lag hl => by simp at hl
      live := fun name status hget => by simp at hget }
  have hmirrors : (reached system maxMembers connected requests).connected = true →
      (reached system maxMembers connected requests).Mirrors
        (({} : Ledger).replay ((Engine.new system maxMembers connected).run requests).2) := by
    intro hconnected
    have hbefore := hcourse.connected.symm.trans hconnected
    exact (hcourse.mirrors hbefore tidy_new hempty).2
  exact
    { member := by
        intro key lagName name l slot i hkey hl hname hi hlag
        have hnumber := defaultNumber_reached system maxMembers connected requests hi
        exact hstable.erased_memberDel htidy hmirrors hkey hl hname hi hlag hnumber
      lag := by
        intro name l lag hname hl
        obtain ⟨lag', hl', hnamed⟩ := hstable.lags.get?_of_find? hname
        obtain rfl : lag = lag' := Option.some.inj (hl.symm.trans hl')
        have hkey := key_reached system maxMembers connected requests hl
        rw [hnamed] at hkey
        obtain ⟨herror, hdissolved, herased⟩ :=
          hstable.dissolved_lagDel htidy hmirrors hname hl
        refine ⟨herror, hkey, hdissolved, ?_⟩
        intro slot hslot i hi
        exact herased slot hslot i hi
          (defaultNumber_reached system maxMembers connected requests hi)
      found := fun _ _ _ hkey hname => found_lagSet hkey hname
      join := fun _ _ _ _ _ hkey hl hfree => hstable.join_memberSet hkey hl hfree }

end Engine
end LinkAggregation
