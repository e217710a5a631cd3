import LinkAggregation.Engine.Query
import LinkAggregation.Proofs.Engine.Course

/-!
# Published state mirrors the engine

Records of members and bond statuses of LAGs are published only when they change, and withdrawn when
a member leaves or a LAG is deleted. Whoever applies all this in order to two empty maps has in
them, after every request, exactly the members and the LAGs of the engine as they are, and is never
told anything twice.
-/
namespace LinkAggregation

/-! ## Ledgers -/

/-- The published state as it is kept outside. -/
structure Ledger where
  members : List (String × Record) := []
  lags : List (String × BondStatus) := []

namespace Ledger

/-- Enters an effect: what is written is inserted, what is removed is deleted, and frames are not
recorded. -/
def enter (k : Ledger) : Effect → Ledger
  | .transmit _ _ => k
  | .writeRecord name record => { k with members := Assoc.put name record k.members }
  | .removeRecord name => { k with members := Assoc.erase name k.members }
  | .writeLag name status => { k with lags := Assoc.put name status k.lags }
  | .removeLag name => { k with lags := Assoc.erase name k.lags }

/-- Enters effects in order. -/
def replay (k : Ledger) (effects : List Effect) : Ledger := effects.foldl enter k

/-- The effect is news: a write is of another value than the one there is, and a removal is of an
entry that there is. -/
def Admits (k : Ledger) : Effect → Prop
  | .transmit _ _ => True
  | .writeRecord name record => Assoc.get? name k.members ≠ some record
  | .removeRecord name => (Assoc.get? name k.members).isSome = true
  | .writeLag name status => Assoc.get? name k.lags ≠ some status
  | .removeLag name => (Assoc.get? name k.lags).isSome = true

/-- Every effect is news when its turn comes. -/
def AdmitsAll : Ledger → List Effect → Prop
  | _, [] => True
  | k, effect :: rest => k.Admits effect ∧ (k.enter effect).AdmitsAll rest

variable {k : Ledger} {effects more : List Effect}

theorem replay_append : k.replay (effects ++ more) = (k.replay effects).replay more :=
  List.foldl_append

theorem admitsAll_append :
    k.AdmitsAll (effects ++ more) ↔ k.AdmitsAll effects ∧ (k.replay effects).AdmitsAll more := by
  induction effects generalizing k with
  | nil => simp [AdmitsAll, replay]
  | cons effect rest ih => simp [AdmitsAll, replay, ih, and_assoc]

/-- Frames are always news, and leave the ledger as it is. -/
theorem replay_of_transmit (h : ∀ effect ∈ effects, ∃ name frame, effect = .transmit name frame) :
    k.AdmitsAll effects ∧ k.replay effects = k := by
  induction effects with
  | nil => exact ⟨trivial, rfl⟩
  | cons effect rest ih =>
    obtain ⟨name, frame, rfl⟩ := h effect List.mem_cons_self
    obtain ⟨hadmits, hreplay⟩ := ih fun effect hmem => h effect (List.mem_cons_of_mem _ hmem)
    exact ⟨⟨trivial, hadmits⟩, hreplay⟩

/-- Where the record of the name is the old one, the effects are news and make it the new one.
Nothing else is touched. -/
def Publishes (effects : List Effect) (name : String) (old new : Option Record) : Prop :=
  ∀ k : Ledger, Assoc.get? name k.members = old →
    k.AdmitsAll effects ∧ (k.replay effects).lags = k.lags ∧
      ∀ n, Assoc.get? n (k.replay effects).members =
        if n = name then new else Assoc.get? n k.members

/-- The same of the status of a LAG. -/
def PublishesLag (effects : List Effect) (name : String) (old new : Option BondStatus) : Prop :=
  ∀ k : Ledger, Assoc.get? name k.lags = old →
    k.AdmitsAll effects ∧ (k.replay effects).members = k.members ∧
      ∀ n, Assoc.get? n (k.replay effects).lags = if n = name then new else Assoc.get? n k.lags

/-- A look-up that finds the entry of the name as it is. -/
theorem get?_eq_ite {α : Type} {m : List (String × α)} {name : String} {o : Option α}
    (h : Assoc.get? name m = o) (n : String) :
    Assoc.get? n m = if n = name then o else Assoc.get? n m := by
  split
  · next hn => rw [hn, h]
  · rfl

/-- A record is written if it has changed. -/
theorem publishes_write (name : String) (old : Option Record) (record : Record) :
    Publishes (if old = some record then [] else [.writeRecord name record]) name old
      (some record) := by
  intro k hk
  split
  · next hsame => exact ⟨trivial, rfl, get?_eq_ite (hk.trans hsame)⟩
  · next hchanged =>
    refine ⟨⟨fun hsame => hchanged (hk.symm.trans hsame), trivial⟩, rfl, fun n => ?_⟩
    exact Assoc.get?_put _ _ _ _

/-- A record is withdrawn if there is one. -/
theorem publishes_remove (name : String) (old : Option Record) :
    Publishes (if old.isSome then [.removeRecord name] else []) name old none := by
  intro k hk
  split
  · next hsome =>
    rw [← hk] at hsome
    exact ⟨⟨hsome, trivial⟩, rfl, fun n => Assoc.get?_erase _ _ _⟩
  · next hnone => exact ⟨trivial, rfl, get?_eq_ite (hk.trans (by simpa using hnone))⟩

/-- The status of a LAG is written if it has changed. -/
theorem publishesLag_write (name : String) (old : Option BondStatus) (status : BondStatus) :
    PublishesLag (if old = some status then [] else [.writeLag name status]) name old
      (some status) := by
  intro k hk
  split
  · next hsame => exact ⟨trivial, rfl, get?_eq_ite (hk.trans hsame)⟩
  · next hchanged =>
    refine ⟨⟨fun hsame => hchanged (hk.symm.trans hsame), trivial⟩, rfl, fun n => ?_⟩
    exact Assoc.get?_put _ _ _ _

/-- The status of a LAG that has one is withdrawn. -/
theorem publishesLag_remove (name : String) {old : Option BondStatus} (hold : old.isSome = true) :
    PublishesLag [.removeLag name] name old none := by
  intro k hk
  rw [← hk] at hold
  exact ⟨⟨hold, trivial⟩, rfl, fun n => Assoc.get?_erase _ _ _⟩

/-- Frames may be sent first. -/
theorem Publishes.after {sent : List Effect} {name : String} {old new : Option Record}
    (h : Publishes effects name old new)
    (hsent : ∀ effect ∈ sent, ∃ name frame, effect = .transmit name frame) :
    Publishes (sent ++ effects) name old new := by
  intro k hk
  obtain ⟨hadmits, hreplay⟩ := replay_of_transmit (k := k) hsent
  rw [admitsAll_append, replay_append, hreplay]
  obtain ⟨hall, hrest⟩ := h k hk
  exact ⟨⟨hadmits, hall⟩, hrest⟩

/-- Records of different names are published one after the other. -/
theorem replay_flatMap {α : Type} {xs : List α} {f : α → List Effect} (name : α → String)
    (old new : α → Option Record) (h : ∀ x ∈ xs, Publishes (f x) (name x) (old x) (new x))
    (hnodup : (xs.map name).Nodup) (hk : ∀ x ∈ xs, Assoc.get? (name x) k.members = old x) :
    k.AdmitsAll (xs.flatMap f) ∧ (k.replay (xs.flatMap f)).lags = k.lags ∧
      (∀ x ∈ xs, Assoc.get? (name x) (k.replay (xs.flatMap f)).members = new x) ∧
      ∀ n, n ∉ xs.map name →
        Assoc.get? n (k.replay (xs.flatMap f)).members = Assoc.get? n k.members := by
  induction xs generalizing k with
  | nil => exact ⟨trivial, rfl, fun _ hx => absurd hx List.not_mem_nil, fun _ _ => rfl⟩
  | cons x rest ih =>
    obtain ⟨hnot, hnodup⟩ := List.nodup_cons.mp hnodup
    obtain ⟨hadmits, hlags, hget⟩ := h x List.mem_cons_self k (hk x List.mem_cons_self)
    have hother : ∀ y ∈ rest, name y ≠ name x := fun y hy heq =>
      hnot (List.mem_map.mpr ⟨y, hy, heq⟩)
    have hk' : ∀ y ∈ rest, Assoc.get? (name y) (k.replay (f x)).members = old y := by
      intro y hy
      rw [hget, if_neg (hother y hy)]
      exact hk y (List.mem_cons_of_mem x hy)
    obtain ⟨hrest, hlags', hnew, hsame⟩ :=
      ih (fun y hy => h y (List.mem_cons_of_mem x hy)) hnodup hk'
    rw [List.flatMap_cons, admitsAll_append, replay_append]
    refine ⟨⟨hadmits, hrest⟩, hlags'.trans hlags, fun y hy => ?_, fun n hn => ?_⟩
    · obtain rfl | hy := List.mem_cons.mp hy
      · rw [hsame _ hnot, hget, if_pos rfl]
      · exact hnew y hy
    · rw [List.map_cons, List.mem_cons, not_or] at hn
      rw [hsame n hn.2, hget, if_neg hn.1]

end Ledger

/-! ## What a member publishes -/

namespace Evaluation
variable {ev : Evaluation} {selection : Selection} {i : Interface} {slot : Nat} {t : Timers}

theorem transmit_of_mem {effect : Effect} (h : effect ∈ (ev.transmitIfDue slot i t).2.2) :
    ∃ name frame, effect = .transmit name frame := by
  unfold transmitIfDue transmit at h
  split at h
  · simp at h
  · split at h
    · dsimp only at h
      split at h
      · split at h
        · exact ⟨_, _, List.mem_singleton.mp h⟩
        · simp at h
      · simp at h
    · simp at h

/-- A record is published exactly if it has changed. -/
theorem publish_snd (hconnected : ev.connected = true) :
    ∃ record, (ev.publish i).1.published = some record ∧
      (ev.publish i).2 =
        if i.published = some record then [] else [.writeRecord i.name record] := by
  refine ⟨_, by rw [publish_fst], ?_⟩
  simp only [publish, hconnected, if_true, apply_ite Prod.snd]
  rfl

theorem publishes_publish (hconnected : ev.connected = true) :
    Ledger.Publishes (ev.publish i).2 i.name i.published (ev.publish i).1.published := by
  obtain ⟨record, hrecord, heffects⟩ := @publish_snd ev i hconnected
  rw [heffects, hrecord]
  exact Ledger.publishes_write _ _ _

/-- The effects of a member publish its new record. -/
theorem publishes_effects (hconnected : ev.connected = true) :
    Ledger.Publishes (ev.effects selection i) i.name i.published
      (ev.result selection i).published := by
  have hmachines : (ev.runMachines 0 selection i {}).1 =
      { i with protocol := ev.machined selection i } := runMachines_fst
  let sent := ev.transmitIfDue 0 (ev.runMachines 0 selection i {}).1
    (ev.runMachines 0 selection i {}).2
  have hname : sent.1.name = i.name := by
    rw [show sent.1.name = _ from transmitIfDue_keeps Interface.name fun _ _ _ _ => rfl, hmachines]
  have hpublished : sent.1.published = i.published := by
    rw [show sent.1.published = _ from
      transmitIfDue_keeps Interface.published fun _ _ _ _ => rfl, hmachines]
  have hpublish := publishes_publish (i := sent.1) hconnected
  rw [hname, hpublished] at hpublish
  exact hpublish.after fun _ => transmit_of_mem

end Evaluation

namespace Engine
variable {e e' : Engine} {c : Kind} {allowed : Kind → Prop} {s : Step} {k : Ledger}
  {l slot : Nat} {lag : Lag} {i : Interface} {name : String}

/-! ## The ledger along a course -/

/-- The ledger has exactly the last published records and statuses that the engine remembers. -/
structure Mirrors (e : Engine) (k : Ledger) : Prop where
  record : ∀ slot i, e.interfaces.get? slot = some i → Assoc.get? i.name k.members = i.published
  known : ∀ name record, Assoc.get? name k.members = some record →
    ∃ slot i, e.interfaces.get? slot = some i ∧ i.name = name
  status : ∀ l lag, e.lags.get? l = some lag → Assoc.get? lag.name k.lags = lag.published
  live : ∀ name status, Assoc.get? name k.lags = some status →
    ∃ l lag, e.lags.get? l = some lag ∧ lag.name = name

section
variable (h : e.Linked) (hk : e.Mirrors k)
include h hk

/-- A new interface finds no entry under its name. -/
theorem Mirrors.record_of_unknown (hname : e.interfaces.find? name = none) :
    Assoc.get? name k.members = none := by
  refine Option.eq_none_iff_forall_ne_some.mpr fun record hget => ?_
  obtain ⟨slot, i, hi, rfl⟩ := hk.known name record hget
  rw [h.interfaces.find?_of_get? hi] at hname
  simp at hname

/-- A new LAG finds no entry under its name. -/
theorem Mirrors.status_of_unknown (hname : e.lags.find? name = none) :
    Assoc.get? name k.lags = none := by
  refine Option.eq_none_iff_forall_ne_some.mpr fun status hget => ?_
  obtain ⟨l, lag, hl, rfl⟩ := hk.live name status hget
  rw [h.lags.find?_of_get? hl] at hname
  simp at hname

/-- Nobody is forgotten as long as there is an entry for him. -/
theorem Mirrors.known_move (hm : Move e c s) (htidy : e.Tidy)
    {record : Record} (hget : Assoc.get? name k.members = some record) :
    ∃ slot i, s.1.interfaces.get? slot = some i ∧ i.name = name := by
  obtain ⟨slot, i, hi, rfl⟩ := hk.known name record hget
  have hfate := hm.interfaces h slot
  rw [hi] at hfate
  obtain hlag | ⟨i', hi', hc⟩ := hfate.outcome
  · rw [hk.record slot i hi, (htidy slot i hi hlag).published] at hget
    simp at hget
  · exact ⟨slot, i', hi', hc.keeps Interface.name fun _ _ _ _ _ _ _ _ => rfl⟩

/-- A shift touches no record and no status. -/
theorem Mirrors.shift (hs : Shift e c e') (htidy : e.Tidy) :
    e'.Mirrors k where
  record := by
    intro slot i' hi'
    have hfate := hs.interfaces h slot
    rw [hi'] at hfate
    obtain ⟨name, hname, rfl⟩ | ⟨i, hi, ha⟩ := hfate.origin
    · exact hk.record_of_unknown h hname
    · rw [ha.keeps Interface.name fun _ _ _ _ _ _ => rfl,
        ha.keeps Interface.published fun _ _ _ _ _ _ => rfl]
      exact hk.record slot i hi
  known := fun _ _ hget => hk.known_move h (.shift hs) htidy hget
  status := by
    intro l lag' hl'
    have hfate := hs.lags h l
    rw [hl'] at hfate
    obtain ⟨name, key, settings, -, hname, rfl⟩ | ⟨lag, hl, ha⟩ := hfate.origin
    · exact hk.status_of_unknown h hname
    · rw [ha.keeps Lag.name fun _ _ _ _ => rfl, ha.keeps Lag.published fun _ _ _ _ => rfl]
      exact hk.status l lag hl
  live := by
    intro name status hget
    obtain ⟨l, lag, hl, rfl⟩ := hk.live name status hget
    have hfate := hs.lags h l
    rw [hl] at hfate
    obtain hgone | ⟨lag', hl', ha⟩ := hfate.outcome
    · exact hgone.elim
    · exact ⟨l, lag', hl', ha.keeps Lag.name fun _ _ _ _ => rfl⟩

/-- The LAGs of the engine and the statuses in the ledger after a change of one LAG. -/
theorem Mirrors.lags_of_publishes (e' : Engine) (k' : Ledger) (hl : e.lags.get? l = some lag)
    {new : Option BondStatus}
    (hk' : ∀ n, Assoc.get? n k'.lags = if n = lag.name then new else Assoc.get? n k.lags)
    (hget : ∀ m, m ≠ l → e'.lags.get? m = e.lags.get? m)
    (hnew : ∀ lag', e'.lags.get? l = some lag' → lag'.name = lag.name ∧ lag'.published = new)
    (hgone : e'.lags.get? l = none → new = none) :
    (∀ m lag, e'.lags.get? m = some lag → Assoc.get? lag.name k'.lags = lag.published) ∧
      ∀ name status, Assoc.get? name k'.lags = some status →
        ∃ m lag, e'.lags.get? m = some lag ∧ lag.name = name := by
  refine ⟨fun m lag' hm => ?_, fun name status hstatus => ?_⟩
  · rw [hk']
    by_cases hml : m = l
    · subst hml
      obtain ⟨hname, hpublished⟩ := hnew lag' hm
      rw [if_pos hname, hpublished]
    · rw [hget m hml] at hm
      rw [if_neg fun heq => hml (h.lags.slot_unique hm hl heq)]
      exact hk.status m lag' hm
  · rw [hk'] at hstatus
    split at hstatus
    · next hname =>
      cases hl' : e'.lags.get? l with
      | none => simp [hgone hl'] at hstatus
      | some lag' => exact ⟨l, lag', hl', (hnew lag' hl').1.trans hname.symm⟩
    · next hname =>
      obtain ⟨m, lag', hm, rfl⟩ := hk.live name status hstatus
      refine ⟨m, lag', ?_, rfl⟩
      rw [hget m]
      · exact hm
      · rintro rfl
        exact hname (congrArg Lag.name (Option.some.inj (hm.symm.trans hl)))

/-- The status of a LAG that is deleted is withdrawn. -/
theorem Mirrors.dissolve (hname : e.lags.find? name = some l) (hl : e.lags.get? l = some lag)
    (hpublished : lag.published.isSome = true) :
    k.AdmitsAll [.removeLag name] ∧
      Mirrors { e with timers := e.timers.cancel (.fallback l), lags := e.lags.remove name l }
        (k.replay [.removeLag name]) := by
  obtain rfl : lag.name = name := h.lags.name_of_find? hname hl
  obtain ⟨hadmits, -, hget⟩ := Ledger.publishesLag_remove lag.name hpublished k (hk.status l lag hl)
  have hgone : (e.lags.remove lag.name l).get? l = none := by simp
  obtain ⟨hstatus, hlive⟩ := hk.lags_of_publishes h
    { e with timers := e.timers.cancel (.fallback l), lags := e.lags.remove lag.name l } _
    hl hget (fun m hm => by simp [Ne.symm hm])
    (fun lag' hl' => by simp [hgone] at hl') fun _ => rfl
  exact ⟨hadmits, hk.record, hk.known, hstatus, hlive⟩

/-- The record of a member that leaves is withdrawn, if there is one. -/
theorem Mirrors.leave (hi : e.interfaces.get? slot = some i) (hlag : i.lag = some l)
    (htidy : e.Tidy) :
    k.AdmitsAll (if i.published.isSome then [.removeRecord i.name] else []) ∧
      (e.exchange l slot (·.removeMember slot) (e.freed slot i)).Mirrors
        (k.replay (if i.published.isSome then [.removeRecord i.name] else [])) := by
  obtain ⟨lag, hl, -⟩ := h.lag_of_member hi hlag
  obtain ⟨hadmits, hlags, hget⟩ :=
    Ledger.publishes_remove i.name i.published k (hk.record slot i hi)
  have hleft : (e.exchange l slot (·.removeMember slot) (e.freed slot i)).lags.get? l =
      some (lag.removeMember slot) := by
    rw [get?_lags_exchange, if_pos rfl, hl]
    rfl
  obtain ⟨hstatus, hlive⟩ := hk.lags_of_publishes h _ k hl
    (Ledger.get?_eq_ite (hk.status l lag hl))
    (fun m hm => get?_lags_exchange_of_ne (f := (·.removeMember slot)) (r := e.freed slot i) hm)
    (fun lag' hl' => by
      obtain rfl := Option.some.inj (hleft.symm.trans hl')
      exact ⟨rfl, rfl⟩)
    fun hnone => by simp [hleft] at hnone
  refine ⟨hadmits, fun slot' i' hi' => ?_, fun name record hname => ?_, ?_, ?_⟩
  · rw [hget]
    rw [get?_exchange] at hi'
    split at hi'
    · next heq =>
      rw [← heq, hi] at hi'
      obtain rfl := Option.some.inj hi'
      exact if_pos rfl
    · next hne =>
      rw [if_neg fun heq => hne (h.interfaces.slot_unique hi hi' heq.symm)]
      exact hk.record slot' i' hi'
  · rw [hget] at hname
    split at hname
    · simp at hname
    · exact hk.known_move h (.leave (l := l) hi hlag) htidy hname
  · rw [hlags]
    exact hstatus
  · rw [hlags]
    exact hlive

/-- The members of a LAG publish their records in an evaluation. -/
theorem Mirrors.replay_members (hl : e.lags.get? l = some lag) (hconnected : e.connected = true) :
    let effects := (e.members lag).flatMap fun m =>
      (e.evaluation lag).effects (e.decision l lag m.1) (e.regrant l lag m.1 m.2)
    k.AdmitsAll effects ∧ (k.replay effects).lags = k.lags ∧
      (∀ m ∈ e.members lag, Assoc.get? m.2.name (k.replay effects).members =
        (e.after l lag m.1 m.2).published) ∧
      ∀ n, n ∉ (e.members lag).map (fun m => m.2.name) →
        Assoc.get? n (k.replay effects).members = Assoc.get? n k.members := by
  refine Ledger.replay_flatMap (fun m : Nat × Interface => m.2.name)
    (fun m => m.2.published) (fun m => (e.after l lag m.1 m.2).published)
    (fun m hm => ?_) ?_ fun m hm => ?_
  · have hpublishes := @Evaluation.publishes_effects (e.evaluation lag) (e.decision l lag m.1)
      (e.regrant l lag m.1 m.2) hconnected
    have hname : (e.regrant l lag m.1 m.2).name = m.2.name := Interface.withGrant_name _ _
    have hpublished : (e.regrant l lag m.1 m.2).published = m.2.published :=
      Interface.withGrant_keeps Interface.published (fun _ _ _ => rfl) _ _
    rw [hname, hpublished] at hpublishes
    exact hpublishes
  · have hslots := nodup_members (e := e) (h.nodup l lag hl)
    refine List.pairwise_map.mpr ((List.pairwise_map.mp hslots).imp_of_mem ?_)
    intro m n hm hn hne heq
    exact hne (h.interfaces.slot_unique (mem_members.mp hm).2 (mem_members.mp hn).2 heq)
  · exact hk.record m.1 m.2 (mem_members.mp hm).2

/-- An evaluation publishes what has changed. -/
theorem Mirrors.evaluate (hconnected : e.connected = true) (htidy : e.Tidy) (l : Nat) :
    k.AdmitsAll (e.evaluate l).2 ∧ (e.evaluate l).1.Mirrors (k.replay (e.evaluate l).2) := by
  cases hl : e.lags.get? l with
  | none =>
    rw [evaluate_of_not_live hl]
    exact ⟨trivial, hk⟩
  | some lag =>
    obtain ⟨hadmits, hlags, hnew, hsame⟩ := hk.replay_members h hl hconnected
    have heffects : (e.evaluate l).2 = _ := congrArg Prod.snd (evaluate_eq hl)
    simp only [emit, hconnected, if_true] at heffects
    rw [heffects, Ledger.admitsAll_append, Ledger.replay_append]
    generalize k.replay ((e.members lag).flatMap fun m => (e.evaluation lag).effects
      (e.decision l lag m.1) (e.regrant l lag m.1 m.2)) = k' at hlags hnew hsame ⊢
    have hentry : Assoc.get? lag.name k'.lags = lag.published := by
      rw [hlags]
      exact hk.status l lag hl
    obtain ⟨hwritten, hmembers, hget⟩ :=
      Ledger.publishesLag_write lag.name lag.published (e.statusAfter l lag) k' hentry
    rw [hlags] at hget
    have hafter := get?_lags_evaluate hl
    obtain ⟨hstatus, hlive⟩ := hk.lags_of_publishes h (e.evaluate l).1 _ hl hget
      (fun m hm => by rw [evaluate_lags hl, Arena.get?_modify, if_neg (Ne.symm hm)])
      (fun lag' hl' => by
        obtain rfl := Option.some.inj (hafter.symm.trans hl')
        exact ⟨rfl, rfl⟩)
      fun hnone => by simp [hafter] at hnone
    -- Members have their new records; everybody else has another name and is as before.
    refine ⟨⟨hadmits, hwritten⟩, fun slot i' hi' => ?_, fun n record hrecord => ?_, hstatus, hlive⟩
    · rw [hmembers]
      by_cases hslot : slot ∈ lag.members
      · rw [get?_evaluate hl (h.nodup l lag hl) hslot] at hi'
        obtain ⟨i, hi, rfl⟩ := Option.map_eq_some_iff.mp hi'
        rw [after_keeps Interface.name fun _ _ _ _ _ => rfl]
        exact hnew (slot, i) (mem_members.mpr ⟨hslot, hi⟩)
      · rw [get?_evaluate_of_not_mem hl hslot] at hi'
        rw [hsame]
        · exact hk.record slot i' hi'
        · intro hmem
          obtain ⟨m, hm, hname⟩ := List.mem_map.mp hmem
          obtain ⟨hm, hi⟩ := mem_members.mp hm
          exact hslot (h.interfaces.slot_unique hi hi' hname ▸ hm)
    · rw [hmembers] at hrecord
      by_cases hn : n ∈ (e.members lag).map fun m => m.2.name
      · obtain ⟨m, hm, rfl⟩ := List.mem_map.mp hn
        obtain ⟨hslot, hi⟩ := mem_members.mp hm
        refine ⟨m.1, e.after l lag m.1 m.2, ?_, after_keeps Interface.name (fun _ _ _ _ _ => rfl) _⟩
        rw [get?_evaluate hl (h.nodup l lag hl) hslot, hi]
        rfl
      · rw [hsame n hn] at hrecord
        exact hk.known_move h (.evaluate l) htidy hrecord

/-- Every effect of a move is news, and the ledger follows the engine. -/
theorem Mirrors.move (hm : Move e c s) (hconnected : e.connected = true) (htidy : e.Tidy) :
    k.AdmitsAll s.2 ∧ s.1.Mirrors (k.replay s.2) := by
  have hemit : ∀ effects, e.emit effects = effects := by simp [emit, hconnected]
  cases hm with
  | shift hs => exact ⟨trivial, hk.shift h hs htidy⟩
  | answer => exact ⟨⟨trivial, trivial⟩, hk⟩
  | dissolve hname hl hempty hpublished =>
    rw [hemit]
    exact hk.dissolve h hname hl hpublished
  | leave hi hlag =>
    simp only [hemit]
    exact hk.leave h hi hlag htidy
  | evaluate l => exact hk.evaluate h hconnected htidy l

end

/-- The ledger follows the engine along a course. -/
theorem Course.mirrors (hc : e.Course allowed s) (hconnected : e.connected = true) (htidy : e.Tidy)
    (hk : e.Mirrors k) : k.AdmitsAll s.2 ∧ s.1.Mirrors (k.replay s.2) := by
  induction hc generalizing k with
  | refl => exact ⟨trivial, hk⟩
  | step hl hc hm _ ih =>
    obtain ⟨hadmits, hmirrors⟩ := hk.move hl hm hconnected htidy
    obtain ⟨hrest, hend⟩ := ih ((hm.connected hl).trans hconnected)
      ((Course.of_move hl hc hm).tidy htidy) hmirrors
    rw [Ledger.admitsAll_append, Ledger.replay_append]
    exact ⟨⟨hadmits, hrest⟩, hend⟩

/-! ## Members and LAGs as they are -/

/-- The record of a member as it is now, if the interface is a member. -/
def memberRecord? (e : Engine) (name : String) : Option Record := do
  let slot ← e.interfaces.find? name
  let i ← e.interfaces.get? slot
  let own ← e.endpoint? slot
  return Record.of own i.protocol.partner i.protocol.bond

/-- The ledger has exactly one entry for each member and each LAG, as they are now. -/
structure Published (e : Engine) (k : Ledger) : Prop where
  members : ∀ name, Assoc.get? name k.members = e.memberRecord? name
  lags : ∀ name, Assoc.get? name k.lags = e.bond? name

section
variable (h : e.Stable)
include h

/-- A member has last published its record as it is now. -/
theorem Coherent.published_eq (htidy : e.Tidy)
    (hi : e.interfaces.get? slot = some i) : i.published = e.memberRecord? i.name := by
  have hname := h.interfaces.find?_of_get? hi
  cases hlag : i.lag with
  | none =>
    rw [(htidy slot i hi hlag).published]
    simp [memberRecord?, endpoint?, hname, hi, hlag]
  | some l =>
    obtain ⟨lag, hl, -⟩ := h.lag_of_member hi hlag
    rw [(h.settled_member hi hlag hl).published]
    simp [memberRecord?, endpoint?, hname, hi, hlag, hl]
    rfl

/-- A LAG has last published its status as it is now. -/
theorem Coherent.status_eq (hl : e.lags.get? l = some lag) : lag.published = e.bond? lag.name := by
  rw [(h.settled l lag hl id).published]
  simp [bond?, lag?, Arena.lookup?, h.lags.find?_of_get? hl, hl]
  rfl

theorem Mirrors.published (hk : e.Mirrors k) (htidy : e.Tidy) :
    e.Published k where
  members := by
    intro name
    cases hname : e.interfaces.find? name with
    | none =>
      rw [hk.record_of_unknown h.linked hname]
      simp [memberRecord?, hname]
    | some slot =>
      obtain ⟨i, hi, rfl⟩ := h.interfaces.get?_of_find? hname
      rw [hk.record slot i hi, h.published_eq htidy hi]
  lags := by
    intro name
    cases hname : e.lags.find? name with
    | none =>
      rw [hk.status_of_unknown h.linked hname]
      simp [bond?, lag?, Arena.lookup?, hname]
    | some l =>
      obtain ⟨lag, hl, rfl⟩ := h.lags.get?_of_find? hname
      rw [hk.status l lag hl, h.status_eq hl]

end

/-- After any requests to an engine with somebody to receive the effects, the effects in order are
news one by one, and entered into an empty ledger they give the members and the LAGs as they are. -/
theorem published_reached (system : SystemIdentity) (maxMembers : Nat) (requests : List Request) :
    let s := (Engine.new system maxMembers true).run requests
    ({} : Ledger).AdmitsAll s.2 ∧ s.1.Published (({} : Ledger).replay s.2) := by
  have hnew := stable_new system maxMembers true
  have hempty : (Engine.new system maxMembers true).Mirrors {} :=
    { record := fun slot i hi => by simp at hi
      known := fun name record hget => by simp at hget
      status := fun l lag hl => by simp at hl
      live := fun name status hget => by simp at hget }
  obtain ⟨hadmits, hmirrors⟩ := (hnew.course_run requests).mirrors rfl tidy_new hempty
  exact ⟨hadmits, hmirrors.published (hnew.run requests) tidy_reached⟩

end Engine
end LinkAggregation
