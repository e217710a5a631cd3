import LinkAggregation.Proofs.Engine.Action

/-!
# The moves of an engine

Every operation of the engine is a sequence of moves. Most of them are shifts, which nobody outside
notices: a member takes a turn, a LAG gets new settings, an interface or a LAG comes, a member
joins. The others have effects: a member leaves, a LAG goes or is evaluated. Here are the moves with
their kinds, and what each of them makes of every interface and of every LAG.
-/
namespace LinkAggregation

/-- The interface carries nothing of a membership. -/
structure Interface.Blank (i : Interface) : Prop where
  protocol : i.protocol = {}
  settings : i.settings = {}
  published : i.published = none

/-- What becomes of the value in a slot: it may come, go, or stay and change. -/
inductive Fate {α : Type} (new gone : α → Prop) (change : α → α → Prop) :
    Option α → Option α → Prop
  | free : Fate new gone change none none
  | came {v : α} (h : new v) : Fate new gone change none (some v)
  | went {v : α} (h : gone v) : Fate new gone change (some v) none
  | stayed {v w : α} (h : change v w) : Fate new gone change (some v) (some w)

namespace Fate
variable {α : Type} {new gone : α → Prop} {change : α → α → Prop} {o o' : Option α}

/-- A slot that is not touched. -/
theorem idle (h : ∀ v, change v v) : Fate new gone change o o := by
  cases o with
  | none => exact .free
  | some v => exact .stayed (h v)

theorem of_eq (h : ∀ v, change v v) (heq : o' = o) : Fate new gone change o o' := by
  rw [heq]
  exact idle h

/-- What is there after is new, or it was there before. -/
theorem origin {w : α} (hf : Fate new gone change o (some w)) :
    new w ∨ ∃ v, o = some v ∧ change v w := by
  cases hf with
  | came h => exact .inl h
  | stayed h => exact .inr ⟨_, rfl, h⟩

/-- What was there before is gone, or it is there after. -/
theorem outcome {v : α} (hf : Fate new gone change (some v) o') :
    gone v ∨ ∃ w, o' = some w ∧ change v w := by
  cases hf with
  | went h => exact .inl h
  | stayed h => exact .inr ⟨_, rfl, h⟩

theorem mono {gone' : α → Prop} {change' : α → α → Prop} (hf : Fate new gone change o o')
    (hgone : ∀ v, gone v → gone' v) (hchange : ∀ v w, change v w → change' v w) :
    Fate new gone' change' o o' := by
  cases hf with
  | free => exact .free
  | came h => exact .came h
  | went h => exact .went (hgone _ h)
  | stayed h => exact .stayed (hchange _ _ h)

theorem of_map {f : α → α} (h : ∀ v, o = some v → change v (f v)) :
    Fate new gone change o (o.map f) := by
  cases o with
  | none => exact .free
  | some v => exact .stayed (h v rfl)

/-- What new values have in common with none at all, values that go with none, and values that
change with what becomes of them, all fates have. -/
theorem related {β : Type} {r : β → β → Prop} {f : α → β} {b : β} (hf : Fate new gone change o o')
    (hfree : r b b) (hnew : ∀ v, new v → r b (f v)) (hgone : ∀ v, gone v → r (f v) b)
    (hchange : ∀ v w, change v w → r (f v) (f w)) : r ((o.map f).getD b) ((o'.map f).getD b) := by
  cases hf with
  | free => exact hfree
  | came h => exact hnew _ h
  | went h => exact hgone _ h
  | stayed h => exact hchange _ _ h

end Fate

namespace Engine

/-! ## Moves -/

/-- The kinds of moves. -/
inductive Kind where
  /-- LAGs stay as they are configured, nobody is heard, no time passes, nothing is evaluated. -/
  | calm
  /-- An interface is forgotten. -/
  | oblivion
  /-- A LAG comes. -/
  | founding
  /-- A LAG goes. -/
  | dissolution
  /-- A LAG gets new settings. -/
  | revision
  /-- A frame is counted, or answered. -/
  | receipt
  /-- A message is recorded. -/
  | message
  /-- A timer fires. -/
  | timer
  /-- Time passes. -/
  | time
  /-- A LAG is evaluated. -/
  | evaluation
  deriving DecidableEq

/-- What a member makes of its machines and timers while its LAG stays as it is. -/
inductive Turn (s : LagSettings) (now slot : Nat) (i : Interface) (t : Timers) :
    Kind → Interface × Timers → Prop
  /-- The port has another status, and the receive machine is brought in line. -/
  | port (status : PortStatus)
      (hidle : i.protocol.receive.isRunning = false → i.protocol.periodic = .never) :
      Turn s now slot i t .calm
        ({ i with
            port := status
            protocol := (Receive.sync slot status.isEnabled s i.protocol t now).1 },
          (Receive.sync slot status.isEnabled s i.protocol t now).2)
  /-- The partner has to be told of other settings. -/
  | settings (settings : MemberSettings) :
      Turn s now slot i t .calm
        ({ i with settings, protocol := { i.protocol with needToTransmit := true } }, t)
  /-- A message is recorded. -/
  | record (own : Endpoint) (pdu : Lacpdu) (hrunning : i.protocol.receive.isRunning = true) :
      Turn s now slot i t .message
        ({ i with protocol :=
            { (Receive.record slot i.protocol own pdu t now).1 with
              needToTransmit := i.protocol.needToTransmit ||
                (Receive.record slot i.protocol own pdu t now).2.2.transmit } },
          (Receive.record slot i.protocol own pdu t now).2.1)
  /-- A timer fires. -/
  | timer (key : TimerKey) (hkey : key.interface? = some slot) :
      Turn s now slot i t .timer (i.timerFired key t now)

/-- How new settings reach the members of a LAG. -/
inductive Revision (old new : LagSettings) (now : Nat) :
    (Engine → Nat → Engine) → MemberStep → Prop
  | restart (h : old.mode.isDynamic ≠ new.mode.isDynamic) :
      Revision old new now restartMember (restartStep new now)
  | retell (h : old.mode.isDynamic = true) (h' : new.mode.isDynamic = true) :
      Revision old new now (updateMember old new) (retellStep old new now)
  | idle (h : old.mode.isDynamic = false) (h' : new.mode.isDynamic = false) :
      Revision old new now (fun e _ => e) idleStep

/-- A move without effects. -/
inductive Shift (e : Engine) : Kind → Engine → Prop
  /-- Other work is queued. -/
  | requeue {e' : Engine} (h : e' = { e with
      systemQueue := e'.systemQueue
      lagQueue := e'.lagQueue
      memberQueue := e'.memberQueue
      portQueue := e'.portQueue
      eventQueue := e'.eventQueue }) : Shift e .calm e'
  /-- The time moves on, and the timers that are due are taken off the schedule. -/
  | later {now : Nat} (h : e.now ≤ now) (ht : e.timers.WellFormed) : Shift e .time (e.later now)
  /-- The timer of a LAG fires. -/
  | activate {l : Nat} {lag : Lag} (hl : e.lags.get? l = some lag) :
      Shift e .timer
        (e.modifyLag l fun lag => { lag with fallback := Fallback.activate lag.fallback })
  /-- A member takes a turn. -/
  | turn {l slot : Nat} {lag : Lag} {i : Interface} {c : Kind} {r : Interface × Timers}
      (hi : e.interfaces.get? slot = some i) (hlag : i.lag = some l)
      (hl : e.lags.get? l = some lag) (ht : Turn lag.settings e.now slot i e.timers c r) :
      Shift e c (e.put slot r)
  | count (slot : Nat) (f : Counters → Counters) : Shift e .receipt (e.count slot f)
  /-- The system takes on another identity. -/
  | identify (system : SystemIdentity) : Shift e .calm (e.told system)
  /-- A LAG gets new settings, and its members are told of them. -/
  | revise {l : Nat} {lag : Lag} {new : LagSettings} {f : Engine → Nat → Engine}
      {step : MemberStep} (hl : e.lags.get? l = some lag)
      (hr : Revision lag.settings new e.now f step)
      (hidle : ∀ slot i, e.interfaces.get? slot = some i → i.lag = some l →
        (lag.isDynamic && i.protocol.receive.isRunning) = false → i.protocol.periodic = .never) :
      Shift e .revision
        (lag.members.foldl f (e.modifyLag l fun lag => { lag with settings := new }))
  /-- A LAG is created. -/
  | found {name : String} {key : UInt16} (settings : LagSettings) (hkey : lagKey name = .ok key)
      (hname : e.lags.find? name = none) :
      Shift e .founding { e with lags := e.lags.insert name { name, key, settings } }
  /-- An interface becomes known. -/
  | meet {name : String} (hname : e.interfaces.find? name = none) :
      Shift e .calm { e with
        interfaces := e.interfaces.insert name (Interface.new name e.interfaces.freeSlot) }
  /-- The port of an interface outside all LAGs has another status. -/
  | report {slot : Nat} {i : Interface} (status : PortStatus)
      (hi : e.interfaces.get? slot = some i) (hlag : i.lag = none) :
      Shift e .calm (e.modifyInterface slot fun i => { i with port := status })
  /-- An interface outside all LAGs is forgotten. -/
  | forget {slot : Nat} {i : Interface} {name : String}
      (hname : e.interfaces.find? name = some slot) (hi : e.interfaces.get? slot = some i)
      (hlag : i.lag = none) :
      Shift e .oblivion { e with
        timers := e.timers.cancelInterface slot
        interfaces := e.interfaces.remove name slot }
  /-- An interface outside all LAGs joins one. -/
  | join {l slot : Nat} {lag : Lag} {i : Interface} (settings : MemberSettings)
      (hi : e.interfaces.get? slot = some i) (hlag : i.lag = none)
      (hl : e.lags.get? l = some lag) :
      Shift e .calm (e.exchange l slot (·.addMember slot) (e.joined l slot lag i settings))

/-- What an operation is made of, with its effects. -/
inductive Move (e : Engine) : Kind → Step → Prop
  | shift {c : Kind} {e' : Engine} (h : Shift e c e') : Move e c (e', [])
  /-- A marker is answered. -/
  | answer (name : String) (marker : Marker) (source : MacAddress) :
      Move e .receipt (e, [.transmit name (Frame.encodeMarker marker source)])
  /-- A LAG without members is deleted. -/
  | dissolve {l : Nat} {lag : Lag} {name : String} (hname : e.lags.find? name = some l)
      (hl : e.lags.get? l = some lag) (hempty : lag.members = [])
      (hpublished : lag.published.isSome = true) :
      Move e .dissolution ({ e with
        timers := e.timers.cancel (.fallback l)
        lags := e.lags.remove name l }, e.emit [.removeLag name])
  /-- A member leaves its LAG, and its record is withdrawn. -/
  | leave {l slot : Nat} {i : Interface} (hi : e.interfaces.get? slot = some i)
      (hlag : i.lag = some l) :
      Move e .calm (e.exchange l slot (·.removeMember slot) (e.freed slot i),
        if i.published.isSome then e.emit [.removeRecord i.name] else [])
  | evaluate (l : Nat) : Move e .evaluation (e.evaluate l)

/-- No interface outside all LAGs carries anything of a membership. -/
def Tidy (e : Engine) : Prop :=
  ∀ slot i, e.interfaces.get? slot = some i → i.lag = none → i.Blank

/-! ## Links between interfaces and LAGs -/

/-- Interfaces and LAGs are under their names, and LAGs and their members know of each other. -/
structure Linked (e : Engine) : Prop where
  interfaces : e.interfaces.Indexed Interface.name
  lags : e.lags.Indexed Lag.name
  nodup : ∀ l lag, e.lags.get? l = some lag → lag.members.Nodup
  members : ∀ l lag, e.lags.get? l = some lag → ∀ slot, slot ∈ lag.members ↔ e.IsMember l slot
  live : ∀ l slot, e.IsMember l slot → (e.lags.get? l).isSome = true

variable {e e' : Engine} {c : Kind} {s : Step} {l slot : Nat} {lag : Lag} {i : Interface}

theorem Coherent.linked {changed : Nat → Prop} {pending : List TimerKey}
    (h : e.Coherent changed pending) : e.Linked where
  interfaces := h.interfaces
  lags := h.lags
  nodup := fun _ _ hl => h.nodup hl
  members := h.members
  live := h.live

theorem Linked.interface?_name (h : e.Linked) (hi : e.interfaces.get? slot = some i) :
    e.interface? i.name = some i := by
  simp [interface?, Arena.lookup?, h.interfaces.find?_of_get? hi, hi]

theorem Linked.lag_of_member (h : e.Linked) (hi : e.interfaces.get? slot = some i)
    (hlag : i.lag = some l) : ∃ lag, e.lags.get? l = some lag ∧ slot ∈ lag.members := by
  obtain ⟨lag, hl⟩ := Option.isSome_iff_exists.mp (h.live l slot ⟨i, hi, hlag⟩)
  exact ⟨lag, hl, (h.members l lag hl slot).mpr ⟨i, hi, hlag⟩⟩

/-- An evaluation leaves names and memberships alone. -/
theorem get?_evaluate_view (hnodup : ∀ lag, e.lags.get? l = some lag → lag.members.Nodup)
    (slot : Nat) :
    ((e.evaluate l).1.interfaces.get? slot).map (fun i => (i.name, i.lag)) =
      (e.interfaces.get? slot).map fun i => (i.name, i.lag) := by
  cases hl : e.lags.get? l with
  | none => rw [evaluate_of_not_live hl]
  | some lag =>
    by_cases hslot : slot ∈ lag.members
    · rw [get?_evaluate hl (hnodup lag hl) hslot]
      cases e.interfaces.get? slot with
      | none => rfl
      | some i => simp [after, regrant]
    · rw [get?_evaluate_of_not_mem hl hslot]

theorem get?_lags_evaluate_view (k : Nat) :
    ((e.evaluate l).1.lags.get? k).map (fun lag => (lag.name, lag.members)) =
      (e.lags.get? k).map fun lag => (lag.name, lag.members) := by
  cases hl : e.lags.get? l with
  | none => rw [evaluate_of_not_live hl]
  | some lag =>
    rw [evaluate_lags hl, Arena.get?_modify]
    split
    · cases e.lags.get? k <;> rfl
    · rfl

/-- The engines have the same interfaces and LAGs under the same names, with the same members. -/
structure SameLinks (e e' : Engine) : Prop where
  findInterface : ∀ name, e'.interfaces.find? name = e.interfaces.find? name
  findLag : ∀ name, e'.lags.find? name = e.lags.find? name
  interfaces : ∀ slot, (e'.interfaces.get? slot).map (fun i => (i.name, i.lag)) =
    (e.interfaces.get? slot).map fun i => (i.name, i.lag)
  lags : ∀ k, (e'.lags.get? k).map (fun lag => (lag.name, lag.members)) =
    (e.lags.get? k).map fun lag => (lag.name, lag.members)

namespace SameLinks

theorem symm (h : e.SameLinks e') : e'.SameLinks e :=
  ⟨fun name => (h.findInterface name).symm, fun name => (h.findLag name).symm,
    fun slot => (h.interfaces slot).symm, fun k => (h.lags k).symm⟩

theorem isMember_iff (h : e.SameLinks e') (k slot : Nat) :
    e'.IsMember k slot ↔ e.IsMember k slot := by
  have hiff : ∀ o : Option Interface, (∃ i, o = some i ∧ i.lag = some k) ↔
      ∃ p, o.map (fun i => (i.name, i.lag)) = some p ∧ p.2 = some k := by
    intro o
    cases o <;> simp
  rw [IsMember, IsMember, hiff, hiff, h.interfaces]

theorem get?_lag (h : e.SameLinks e') {k : Nat} {lag' : Lag} (hk : e'.lags.get? k = some lag') :
    ∃ lag, e.lags.get? k = some lag ∧ lag.members = lag'.members := by
  have hview := h.lags k
  rw [hk] at hview
  obtain ⟨lag, hl, heq⟩ := Option.map_eq_some_iff.mp hview.symm
  exact ⟨lag, hl, (Prod.mk.inj heq).2⟩

/-- Links are right in both or in neither. -/
theorem linked (hsame : e.SameLinks e') (h : e.Linked) : e'.Linked where
  interfaces := by
    intro name slot
    have hiff : ∀ o : Option Interface, (∃ i, o = some i ∧ i.name = name) ↔
        ∃ p, o.map (fun i => (i.name, i.lag)) = some p ∧ p.1 = name := by
      intro o
      cases o <;> simp
    rw [hsame.findInterface, h.interfaces name slot, hiff, hiff, hsame.interfaces]
  lags := by
    intro name k
    have hiff : ∀ o : Option Lag, (∃ lag, o = some lag ∧ lag.name = name) ↔
        ∃ p, o.map (fun lag => (lag.name, lag.members)) = some p ∧ p.1 = name := by
      intro o
      cases o <;> simp
    rw [hsame.findLag, h.lags name k, hiff, hiff, hsame.lags]
  nodup := by
    intro k lag' hk
    obtain ⟨lag, hl, hmembers⟩ := hsame.get?_lag hk
    rw [← hmembers]
    exact h.nodup k lag hl
  members := by
    intro k lag' hk slot
    obtain ⟨lag, hl, hmembers⟩ := hsame.get?_lag hk
    rw [← hmembers, h.members k lag hl, hsame.isMember_iff]
  live := by
    intro k slot hslot
    have hlive := h.live k slot ((hsame.isMember_iff k slot).mp hslot)
    have hview := congrArg Option.isSome (hsame.lags k)
    simpa using hview.trans (by simpa using hlive)

end SameLinks

theorem sameLinks_evaluate (hnodup : ∀ lag, e.lags.get? l = some lag → lag.members.Nodup) :
    e.SameLinks (e.evaluate l).1 where
  findInterface := by
    intro name
    cases hl : e.lags.get? l with
    | none => rw [evaluate_of_not_live hl]
    | some lag => exact find?_evaluate hl name
  findLag := by
    intro name
    cases hl : e.lags.get? l with
    | none => rw [evaluate_of_not_live hl]
    | some lag =>
      rw [evaluate_lags hl]
      rfl
  interfaces := get?_evaluate_view hnodup
  lags := get?_lags_evaluate_view

theorem Linked.evaluate (h : e.Linked) (l : Nat) : (e.evaluate l).1.Linked :=
  (sameLinks_evaluate (h.nodup l)).linked h

theorem Linked.within_evaluate (h : e.Linked) (l : Nat) : Within l e (e.evaluate l).1 :=
  Engine.within_evaluate (h.nodup l) (h.members l)

/-- Whatever is linked after an evaluation was so before. -/
theorem Linked.of_evaluate (h : (e.evaluate l).1.Linked) : e.Linked := by
  refine (sameLinks_evaluate fun lag hl => ?_).symm.linked h
  have hview := @get?_lags_evaluate_view e l l
  rw [hl] at hview
  obtain ⟨lag', hl', heq⟩ := Option.map_eq_some_iff.mp hview
  rw [← (Prod.mk.inj heq).2]
  exact h.nodup l lag' hl'

/-! ## What a move makes of an interface -/

/-- What a shift of a kind makes of an interface that stays known. -/
inductive Adjust (e : Engine) (c : Kind) (slot : Nat) (i : Interface) : Interface → Prop
  | idle : Adjust e c slot i i
  | count (counters : Counters) (hc : c = .receipt) : Adjust e c slot i { i with counters }
  | report (status : PortStatus) (hlag : i.lag = none) :
      Adjust e c slot i { i with port := status }
  | tell : Adjust e c slot i (tell i)
  | turn {l : Nat} {lag : Lag} {r : Interface × Timers} (hlag : i.lag = some l)
      (hl : e.lags.get? l = some lag) (ht : Turn lag.settings e.now slot i e.timers c r) :
      Adjust e c slot i r.1
  | revise {l : Nat} {lag : Lag} {new : LagSettings} {f : Engine → Nat → Engine}
      {step : MemberStep} (t : Timers) (hlag : i.lag = some l) (hl : e.lags.get? l = some lag)
      (hr : Revision lag.settings new e.now f step) : Adjust e c slot i (step i slot t).1
  | join {l : Nat} {lag : Lag} (settings : MemberSettings) (hlag : i.lag = none)
      (hl : e.lags.get? l = some lag) : Adjust e c slot i (e.joined l slot lag i settings).1

/-- What a move of a kind makes of an interface that stays known. -/
inductive Change (e : Engine) (c : Kind) (slot : Nat) (i : Interface) : Interface → Prop
  | adjust {i' : Interface} (h : Adjust e c slot i i') : Change e c slot i i'
  | leave {l : Nat} (hlag : i.lag = some l) : Change e c slot i (e.freed slot i).1
  | evaluate {l : Nat} {lag : Lag} (hlag : i.lag = some l) (hl : e.lags.get? l = some lag) :
      Change e c slot i (e.after l lag slot i)

/-- The interface in a slot before and after. -/
abbrev InterfaceFate (e : Engine) (change : Interface → Interface → Prop) (slot : Nat) :
    Option Interface → Option Interface → Prop :=
  Fate (fun i => ∃ name, e.interfaces.find? name = none ∧ i = Interface.new name slot)
    (fun i => i.lag = none) change

theorem Revision.performs {old new : LagSettings} {now : Nat} {f : Engine → Nat → Engine}
    {step : MemberStep} (hr : Revision old new now f step) (hnew : lag.settings = new) :
    Performs f step l lag now := by
  subst hnew
  cases hr with
  | restart => exact performs_restartStep
  | retell => exact performs_retellStep _ _
  | idle => exact performs_idleStep

theorem Revision.isLocal {old new : LagSettings} {now : Nat} {f : Engine → Nat → Engine}
    {step : MemberStep} (hr : Revision old new now f step) : step.Local := by
  cases hr with
  | restart => exact local_restartStep _ _
  | retell => exact local_retellStep _ _ _
  | idle => exact local_idleStep

/-- Every member of a LAG has taken its step after the LAG got new settings, and nobody else. -/
structure Revised (e : Engine) (l : Nat) (lag : Lag) (new : LagSettings) (step : MemberStep)
    (e' : Engine) : Prop where
  within : Within l e e'
  lags : e'.lags = e.lags.modify l fun lag => { lag with settings := new }
  others : ∀ slot, slot ∉ lag.members → e'.interfaces.get? slot = e.interfaces.get? slot
  timers : ∀ key : TimerKey, (∀ slot ∈ lag.members, key.interface? ≠ some slot) →
    e'.timers.deadline? key = e.timers.deadline? key
  members : ∀ slot i, slot ∈ lag.members → e.interfaces.get? slot = some i → ∃ t : Timers,
    (∀ key : TimerKey, key.interface? = some slot → t.deadline? key = e.timers.deadline? key) ∧
    e'.interfaces.get? slot = some (step i slot t).1 ∧
    ∀ key : TimerKey, key.interface? = some slot →
      e'.timers.deadline? key = (step i slot t).2.deadline? key

/-- New settings of a LAG reach its members, and nobody else. -/
theorem Revision.revised {new : LagSettings} {f : Engine → Nat → Engine} {step : MemberStep}
    (hr : Revision lag.settings new e.now f step) (h : e.Linked) (hl : e.lags.get? l = some lag) :
    e.Revised l lag new step
      (lag.members.foldl f (e.modifyLag l fun lag => { lag with settings := new })) := by
  have hmodify : Within l e (e.modifyLag l fun lag => { lag with settings := new }) :=
    within_modifyLag (fun _ => rfl) fun _ => rfl
  have hget : (e.modifyLag l fun lag => { lag with settings := new }).lags.get? l =
      some { lag with settings := new } := by
    simp [modifyLag, hl]
  have hperforms : Performs f step l { lag with settings := new } e.now := hr.performs rfl
  have hslots : ∀ s ∈ lag.members,
      (e.modifyLag l fun lag => { lag with settings := new }).IsMember l s := fun s hs =>
    (hmodify.isMember_iff l s).mpr ((h.members l lag hl s).mp hs)
  obtain ⟨hwithin, hlags, htimers, hothers⟩ := foldl_within hperforms hr.isLocal hget rfl hslots
  exact ⟨hmodify.trans hwithin, hlags, hothers, htimers, fun slot i hslot hi =>
    foldl_step hperforms hr.isLocal hget rfl hslots (h.nodup l lag hl) hslot hi⟩

/-- What new settings of a LAG make of the interfaces. -/
theorem get?_revised (h : e.Linked) {new : LagSettings} {f : Engine → Nat → Engine}
    {step : MemberStep} (hl : e.lags.get? l = some lag)
    (hr : Revision lag.settings new e.now f step) :
    let e' := lag.members.foldl f (e.modifyLag l fun lag => { lag with settings := new })
    Within l e e' ∧ e'.lags = e.lags.modify l (fun lag => { lag with settings := new }) ∧
      (∀ slot, slot ∉ lag.members → e'.interfaces.get? slot = e.interfaces.get? slot) ∧
      ∀ slot i, slot ∈ lag.members → e.interfaces.get? slot = some i →
        ∃ t, e'.interfaces.get? slot = some (step i slot t).1 := by
  have hrevised := hr.revised h hl
  refine ⟨hrevised.within, hrevised.lags, hrevised.others, fun slot i hslot hi => ?_⟩
  obtain ⟨t, -, hstep, -⟩ := hrevised.members slot i hslot hi
  exact ⟨t, hstep⟩

theorem get?_exchange {f : Lag → Lag} {r : Interface × Timers} (slot' : Nat) :
    (e.exchange l slot f r).interfaces.get? slot' =
      if slot = slot' then (e.interfaces.get? slot').map fun _ => r.1
      else e.interfaces.get? slot' := get?_put

/-- A new value of one interface is a fate of all. -/
theorem fate_of_put {change : Interface → Interface → Prop} {o : Option Interface} {r : Interface}
    (hi : e.interfaces.get? slot = some i) {slot' : Nat} (hidle : ∀ i, change i i)
    (hchange : slot = slot' → change i r)
    (ho : o = if slot = slot' then (e.interfaces.get? slot').map fun _ => r
      else e.interfaces.get? slot') :
    e.InterfaceFate change slot' (e.interfaces.get? slot') o := by
  rw [ho]
  split
  · next heq =>
    have hstayed := hchange heq
    subst heq
    rw [hi]
    exact .stayed hstayed
  · exact .idle hidle

/-- What a shift makes of the interfaces. -/
theorem Shift.interfaces (hs : Shift e c e') (h : e.Linked) (slot : Nat) :
    e.InterfaceFate (e.Adjust c slot) slot (e.interfaces.get? slot) (e'.interfaces.get? slot) := by
  have hidle : ∀ i, e.Adjust c slot i i := fun _ => .idle
  cases hs with
  | requeue hsame =>
    rw [hsame]
    exact .idle hidle
  | later => exact .idle hidle
  | activate => exact .idle hidle
  | turn hi hlag hl ht =>
    refine fate_of_put hi hidle (fun heq => ?_) get?_put
    subst heq
    exact .turn hlag hl ht
  | count slot' f =>
    rw [get?_count]
    exact .of_map fun i _ => .count _ rfl
  | identify =>
    have hget : ∀ system, (e.told system).interfaces.get? slot =
        (e.interfaces.get? slot).map tell := fun system => Arena.get?_map _ _ _
    rw [hget]
    exact .of_map fun i _ => .tell
  | @revise l lag new f step hl hr _ =>
    obtain ⟨-, -, hothers, hmembers⟩ := get?_revised h hl hr
    by_cases hslot : slot ∈ lag.members
    · obtain ⟨i, hi, hlag⟩ := (h.members l lag hl slot).mp hslot
      obtain ⟨t, hstep⟩ := hmembers slot i hslot hi
      rw [hi, hstep]
      exact .stayed (.revise t hlag hl hr)
    · exact .of_eq hidle (hothers slot hslot)
  | found => exact .idle hidle
  | @meet name hname =>
    dsimp only
    by_cases hslot : slot = e.interfaces.freeSlot
    · rw [hslot, Arena.get?_insert_freeSlot, Arena.get?_freeSlot]
      exact .came ⟨name, hname, rfl⟩
    · rw [Arena.get?_insert_of_ne _ _ hslot]
      exact .idle hidle
  | report status hi hlag =>
    have hput := modifyInterface_eq_put hi (fun i => { i with port := status }) e.timers
    exact fate_of_put hi hidle (fun _ => .report status hlag)
      ((congrArg (fun e' : Engine => e'.interfaces.get? slot) hput).trans get?_put)
  | forget hname hi hlag =>
    dsimp only
    rw [Arena.get?_remove]
    split
    · next heq =>
      rw [← heq, hi]
      exact .went hlag
    · exact .idle hidle
  | join settings hi hlag hl =>
    refine fate_of_put hi hidle (fun heq => ?_) (get?_exchange _)
    subst heq
    exact .join settings hlag hl

/-- What a move makes of the interfaces. -/
theorem Move.interfaces (hm : Move e c s) (h : e.Linked) (slot : Nat) :
    e.InterfaceFate (e.Change c slot) slot (e.interfaces.get? slot) (s.1.interfaces.get? slot) := by
  have hidle : ∀ i, e.Change c slot i i := fun _ => .adjust .idle
  cases hm with
  | shift hs => exact (hs.interfaces h slot).mono (fun _ => id) fun _ _ ha => .adjust ha
  | answer => exact .idle hidle
  | dissolve => exact .idle hidle
  | leave hi hlag =>
    refine fate_of_put hi hidle (fun heq => ?_) (get?_exchange _)
    subst heq
    exact .leave hlag
  | evaluate l =>
    cases hl : e.lags.get? l with
    | none =>
      rw [evaluate_of_not_live hl]
      exact .idle hidle
    | some lag =>
      by_cases hslot : slot ∈ lag.members
      · obtain ⟨i, hi, hlag⟩ := (h.members l lag hl slot).mp hslot
        rw [get?_evaluate hl (h.nodup l lag hl) hslot, hi]
        exact .stayed (.evaluate hlag hl)
      · exact .of_eq hidle (get?_evaluate_of_not_mem hl hslot)

/-! ## What a shift makes of the interface of a name -/

/-- The interface of a name before and after a shift. It goes only if it is forgotten. -/
abbrev NamedFate (e : Engine) (c : Kind) (name : String) (e' : Engine) : Prop :=
  Fate (fun i => ∃ slot, i = Interface.new name slot)
    (fun _ => c = .oblivion ∧ e'.interfaces.find? name = none)
    (fun i i' => ∃ slot, e.Adjust c slot i i') (e.interface? name) (e'.interface? name)

/-- A name stays where it is, and the interface there changes. -/
theorem Linked.fate_of_find (h : e.Linked) {new gone : Interface → Prop}
    {change : Interface → Interface → Prop} {name : String}
    (hfind : e'.interfaces.find? name = e.interfaces.find? name)
    (hget : ∀ slot i, e.interfaces.find? name = some slot → e.interfaces.get? slot = some i →
      ∃ i', e'.interfaces.get? slot = some i' ∧ change i i') :
    Fate new gone change (e.interface? name) (e'.interface? name) := by
  unfold interface? Arena.lookup?
  rw [hfind]
  cases hname : e.interfaces.find? name with
  | none => exact .free
  | some slot =>
    obtain ⟨i, hi, -⟩ := h.interfaces.get?_of_find? hname
    obtain ⟨i', hi', hchange⟩ := hget slot i hname hi
    simp only [Option.bind_some, hi, hi']
    exact .stayed hchange

/-- One interface has a new value, and all are where they were. -/
theorem Linked.fate_of_put (h : e.Linked) {new gone : Interface → Prop}
    {change : Interface → Interface → Prop} {r : Interface}
    (hi : e.interfaces.get? slot = some i) (hidle : ∀ i, change i i) (hchange : change i r)
    {name : String} (hfind : e'.interfaces.find? name = e.interfaces.find? name)
    (hget : ∀ slot', e'.interfaces.get? slot' =
      if slot = slot' then (e.interfaces.get? slot').map fun _ => r
      else e.interfaces.get? slot') :
    Fate new gone change (e.interface? name) (e'.interface? name) := by
  refine h.fate_of_find hfind fun slot' j _ hj => ?_
  rw [hget, hj]
  by_cases heq : slot = slot'
  · subst heq
    obtain rfl := Option.some.inj (hi.symm.trans hj)
    exact ⟨r, if_pos rfl, hchange⟩
  · exact ⟨j, if_neg heq, hidle j⟩

/-- What a shift makes of the interface of a name. -/
theorem Shift.named (hs : Shift e c e') (h : e.Linked) (name : String) :
    e.NamedFate c name e' := by
  have hidle : ∀ i, ∃ slot, e.Adjust c slot i i := fun _ => ⟨0, .idle⟩
  cases hs with
  | requeue hsame =>
    rw [hsame]
    exact .idle hidle
  | later => exact .idle hidle
  | activate => exact .idle hidle
  | turn hi hlag hl ht =>
    exact h.fate_of_put hi hidle ⟨_, .turn hlag hl ht⟩ rfl fun _ => get?_put
  | count slot f =>
    refine h.fate_of_find rfl fun slot' i _ hi => ?_
    rw [get?_count, hi]
    exact ⟨_, rfl, slot', .count _ rfl⟩
  | identify system =>
    refine h.fate_of_find (Arena.find?_map _ _ _) fun slot i _ hi => ?_
    have hget : (e.told system).interfaces.get? slot = (e.interfaces.get? slot).map Engine.tell :=
      Arena.get?_map _ _ _
    rw [hget, hi]
    exact ⟨_, rfl, slot, .tell⟩
  | @revise l lag new f step hl hr _ =>
    obtain ⟨hwithin, -, hothers, hmembers⟩ := get?_revised h hl hr
    refine h.fate_of_find (hwithin.findInterface name) fun slot i _ hi => ?_
    by_cases hslot : slot ∈ lag.members
    · obtain ⟨j, hj, hlag⟩ := (h.members l lag hl slot).mp hslot
      obtain rfl := Option.some.inj (hi.symm.trans hj)
      obtain ⟨t, hstep⟩ := hmembers slot i hslot hi
      exact ⟨_, hstep, slot, .revise t hlag hl hr⟩
    · exact ⟨i, (hothers slot hslot).trans hi, slot, .idle⟩
  | found => exact .idle hidle
  | @meet name' hname' =>
    by_cases hname : name = name'
    · subst hname
      have hbefore : e.interface? name = none := by simp [interface?, Arena.lookup?, hname']
      rw [NamedFate, hbefore]
      simp only [interface?, Arena.lookup?, Arena.find?_insert, if_true, Option.bind_some,
        Arena.get?_insert_freeSlot]
      exact .came ⟨_, rfl⟩
    · refine h.fate_of_find (by simp [hname]) fun slot i _ hi => ⟨i, ?_, slot, .idle⟩
      rw [Arena.get?_insert_of_ne, hi]
      rintro rfl
      simp [Arena.get?_freeSlot] at hi
  | @report slot i status hi hlag =>
    have hput := modifyInterface_eq_put hi (fun i => { i with port := status }) e.timers
    refine h.fate_of_put hi hidle ⟨slot, .report status hlag⟩ rfl fun slot' => ?_
    exact (congrArg (fun e' : Engine => e'.interfaces.get? slot') hput).trans get?_put
  | @forget slot i name' hname' hi hlag =>
    by_cases hname : name = name'
    · subst hname
      have hbefore : e.interface? name = some i := by
        simp [interface?, Arena.lookup?, hname', hi]
      have hafter : (e.interfaces.remove name slot).find? name = none := by simp
      have hnone : (e.interfaces.remove name slot).lookup? name = none := by
        rw [Arena.lookup?, hafter, Option.bind_none]
      unfold NamedFate interface?
      rw [show e.interfaces.lookup? name = some i from hbefore, hnone]
      exact .went ⟨rfl, hafter⟩
    · refine h.fate_of_find (by simp [hname]) fun slot' j hslot' hj => ⟨j, ?_, slot', .idle⟩
      have hne : slot ≠ slot' := by
        rintro rfl
        rw [← h.interfaces.name_of_find? hslot' hi, h.interfaces.name_of_find? hname' hi] at hname
        exact hname rfl
      simpa [hne] using hj
  | join settings hi hlag hl =>
    exact h.fate_of_put hi hidle ⟨_, .join settings hlag hl⟩ rfl fun _ => get?_exchange _

/-! ## What changes of an interface leave alone -/

/-- A turn concerns the port, the settings, the protocol state and the counters. -/
theorem Turn.keeps {settings : LagSettings} {now : Nat} {t : Timers} {r : Interface × Timers}
    (ht : Turn settings now slot i t c r) {α : Type} (f : Interface → α)
    (hf : ∀ i port settings protocol counters,
      f { i with port, settings, protocol, counters } = f i) : f r.1 = f i := by
  cases ht with
  | port status => exact hf i status i.settings _ i.counters
  | settings settings => exact hf i i.port settings _ i.counters
  | record own pdu => exact hf i i.port i.settings _ i.counters
  | timer key =>
    exact Interface.timerFired_keeps f fun i p c => hf i i.port i.settings p c

/-- New settings of the LAG concern the protocol state. -/
theorem Revision.keeps {old new : LagSettings} {now : Nat} {f : Engine → Nat → Engine}
    {step : MemberStep} (hr : Revision old new now f step) {α : Type} (g : Interface → α)
    (hg : ∀ i protocol, g { i with protocol } = g i) (i : Interface) (slot : Nat) (t : Timers) :
    g (step i slot t).1 = g i := by
  cases hr with
  | restart => exact hg i _
  | retell => exact hg i _
  | idle => rfl

/-- An evaluation concerns the protocol state, the window, the record and the counters. -/
theorem after_keeps {α : Type} (f : Interface → α)
    (hf : ∀ i protocol window published counters,
      f { i with protocol, window, published, counters } = f i) (i : Interface) :
    f (e.after l lag slot i) = f i := by
  have hresult : f (e.after l lag slot i) = f (e.regrant l lag slot i) :=
    Evaluation.result_keeps f (hf _ _ _ _ _) (fun j _ w c => hf j _ w j.published c)
      fun j _ published => hf j _ j.window published j.counters
  exact hresult.trans (Interface.withGrant_keeps f (fun j _ _ => hf j _ _ _ _) i _)

/-- A shift concerns neither the record nor the window. -/
theorem Adjust.keeps {i' : Interface} (ha : e.Adjust c slot i i') {α : Type} (f : Interface → α)
    (hf : ∀ i port lag settings protocol counters,
      f { i with port, lag, settings, protocol, counters } = f i) : f i' = f i := by
  cases ha with
  | idle => rfl
  | count counters => exact hf i i.port i.lag i.settings i.protocol counters
  | report status => exact hf i status i.lag i.settings i.protocol i.counters
  | tell => exact tell_keeps f (fun i _ => hf i i.port i.lag i.settings _ i.counters) i
  | turn hlag hl ht => exact ht.keeps f fun i port settings p c => hf i port i.lag settings p c
  | revise t hlag hl hr =>
    exact hr.keeps f (fun i p => hf i i.port i.lag i.settings p i.counters) i slot t
  | join settings => exact hf i i.port (some _) settings _ i.counters

/-- The name and the default port number never change. -/
theorem Change.keeps {i' : Interface} (hc : e.Change c slot i i') {α : Type} (f : Interface → α)
    (hf : ∀ i port lag settings protocol window published counters,
      f { i with port, lag, settings, protocol, window, published, counters } = f i) :
    f i' = f i := by
  cases hc with
  | adjust ha =>
    exact ha.keeps f fun i port lag settings p c =>
      hf i port lag settings p i.window i.published c
  | leave => exact hf i i.port none {} {} i.window none i.counters
  | evaluate =>
    exact after_keeps f (fun i p w r c => hf i i.port i.lag i.settings p w r c) i

/-- Nobody joins a LAG or leaves it but by a move that is for this. -/
theorem Adjust.lag_eq_none {i' : Interface} (ha : e.Adjust c slot i i') (hlag' : i'.lag = none) :
    i.lag = none := by
  cases ha with
  | idle => exact hlag'
  | count => exact hlag'
  | report status hlag => exact hlag
  | tell => exact (tell_keeps Interface.lag (fun _ _ => rfl) i).symm.trans hlag'
  | turn hlag hl ht => exact (ht.keeps Interface.lag fun _ _ _ _ _ => rfl).symm.trans hlag'
  | revise t hlag hl hr => exact (hr.keeps Interface.lag (fun _ _ => rfl) i slot t).symm.trans hlag'
  | join => simp [joined] at hlag'

/-- Whoever leaves a LAG leaves everything of it behind, and nobody else is outside. -/
theorem Change.blank {i' : Interface} (hc : e.Change c slot i i') (h : i.lag = none → i.Blank)
    (hlag' : i'.lag = none) : i'.Blank := by
  cases hc with
  | adjust ha =>
    have hlag := ha.lag_eq_none hlag'
    have hblank := h hlag
    cases ha with
    | idle => exact hblank
    | count => exact ⟨hblank.protocol, hblank.settings, hblank.published⟩
    | report => exact ⟨hblank.protocol, hblank.settings, hblank.published⟩
    | tell =>
      have hsame : Engine.tell i = i := by simp [Engine.tell, hlag]
      rwa [hsame]
    | turn hmember => simp [hlag] at hmember
    | revise t hmember => simp [hlag] at hmember
    | join => simp [joined] at hlag'
  | leave => exact ⟨rfl, rfl, rfl⟩
  | evaluate hlag =>
    rw [after_keeps Interface.lag fun _ _ _ _ _ => rfl, hlag] at hlag'
    simp at hlag'

/-! ## What a move makes of a LAG -/

/-- What a shift makes of a LAG that stays. -/
inductive LagAdjust (lag : Lag) : Lag → Prop
  | idle : LagAdjust lag lag
  | activate : LagAdjust lag { lag with fallback := Fallback.activate lag.fallback }
  | revise (new : LagSettings) : LagAdjust lag { lag with settings := new }
  | join (slot : Nat) : LagAdjust lag (lag.addMember slot)

/-- What a move makes of a LAG that stays. -/
inductive LagChange (e : Engine) (l : Nat) (lag : Lag) : Lag → Prop
  | adjust {lag' : Lag} (h : LagAdjust lag lag') : LagChange e l lag lag'
  | leave (slot : Nat) : LagChange e l lag (lag.removeMember slot)
  | evaluate : LagChange e l lag (e.lagAfter l lag)

/-- The LAG in a slot before and after. -/
abbrev LagFate (e : Engine) (gone : Lag → Prop) (change : Lag → Lag → Prop) :
    Option Lag → Option Lag → Prop :=
  Fate
    (fun lag => ∃ name key settings, lagKey name = .ok key ∧ e.lags.find? name = none ∧
      lag = { name, key, settings })
    gone change

/-- A change of one LAG is a fate of all. -/
theorem lagFate_of_modify {gone : Lag → Prop} {change : Lag → Lag → Prop} {f : Lag → Lag}
    {k : Nat} (hidle : ∀ lag, change lag lag)
    (hchange : ∀ lag, l = k → e.lags.get? l = some lag → change lag (f lag)) :
    e.LagFate gone change (e.lags.get? k) ((e.lags.modify l f).get? k) := by
  rw [Arena.get?_modify]
  split
  · next heq =>
    refine .of_map fun lag hlag => hchange lag heq ?_
    rwa [heq]
  · exact .idle hidle

/-- What a shift makes of the LAGs. None of them goes. -/
theorem Shift.lags (hs : Shift e c e') (h : e.Linked) (k : Nat) :
    e.LagFate (fun _ => False) LagAdjust (e.lags.get? k) (e'.lags.get? k) := by
  have hidle : ∀ lag, LagAdjust lag lag := fun _ => .idle
  cases hs with
  | requeue hsame =>
    rw [hsame]
    exact .idle hidle
  | later => exact .idle hidle
  | activate => exact lagFate_of_modify hidle fun _ _ _ => .activate
  | turn => exact .idle hidle
  | count => exact .idle hidle
  | identify => exact .idle hidle
  | revise hl hr _ =>
    obtain ⟨-, hlags, -⟩ := get?_revised h hl hr
    rw [hlags]
    exact lagFate_of_modify hidle fun _ _ _ => .revise _
  | @found name key settings hkey hname =>
    dsimp only
    by_cases hslot : k = e.lags.freeSlot
    · rw [hslot, Arena.get?_insert_freeSlot, Arena.get?_freeSlot]
      exact .came ⟨name, key, settings, hkey, hname, rfl⟩
    · rw [Arena.get?_insert_of_ne _ _ hslot]
      exact .idle hidle
  | meet => exact .idle hidle
  | report => exact .idle hidle
  | forget => exact .idle hidle
  | join => exact lagFate_of_modify hidle fun _ _ _ => .join _

/-- What a move makes of the LAGs. -/
theorem Move.lags (hm : Move e c s) (h : e.Linked) (k : Nat) :
    e.LagFate (fun lag => lag.members = []) (e.LagChange k) (e.lags.get? k) (s.1.lags.get? k) := by
  have hidle : ∀ lag, e.LagChange k lag lag := fun _ => .adjust .idle
  cases hm with
  | shift hs => exact (hs.lags h k).mono (fun _ => False.elim) fun _ _ ha => .adjust ha
  | answer => exact .idle hidle
  | dissolve hname hl hempty =>
    dsimp only
    rw [Arena.get?_remove]
    split
    · next heq =>
      rw [← heq, hl]
      exact .went hempty
    · exact .idle hidle
  | leave => exact lagFate_of_modify hidle fun _ _ _ => .leave _
  | evaluate l =>
    cases hl : e.lags.get? l with
    | none =>
      rw [evaluate_of_not_live hl]
      exact .idle hidle
    | some lag =>
      rw [evaluate_lags hl]
      refine lagFate_of_modify hidle fun lag' hk hl' => ?_
      subst hk
      obtain rfl : lag = lag' := Option.some.inj (hl.symm.trans hl')
      exact .evaluate

/-- A shift concerns neither the name and the key of a LAG nor its published status. -/
theorem LagAdjust.keeps {lag' : Lag} (ha : LagAdjust lag lag') {α : Type} (f : Lag → α)
    (hf : ∀ lag settings members fallback, f { lag with settings, members, fallback } = f lag) :
    f lag' = f lag := by
  cases ha with
  | idle => rfl
  | activate => exact hf lag lag.settings lag.members _
  | revise new => exact hf lag new lag.members lag.fallback
  | join slot => exact hf lag lag.settings _ lag.fallback

/-- The name and the key of a LAG never change. -/
theorem LagChange.keeps {lag' : Lag} (hc : e.LagChange l lag lag') {α : Type} (f : Lag → α)
    (hf : ∀ lag settings members fallback published,
      f { lag with settings, members, fallback, published } = f lag) : f lag' = f lag := by
  cases hc with
  | adjust ha =>
    exact ha.keeps f fun lag settings members fallback =>
      hf lag settings members fallback lag.published
  | leave slot => exact hf lag lag.settings _ lag.fallback lag.published
  | evaluate => exact hf lag lag.settings lag.members _ _

/-! ## What a move makes of the rest -/

/-- Somebody receives the effects, or nobody does. -/
theorem Move.connected (hm : Move e c s) (h : e.Linked) : s.1.connected = e.connected := by
  cases hm with
  | shift hs =>
    cases hs with
    | requeue hsame => rw [hsame]
    | revise hl hr _ => exact (get?_revised h hl hr).1.connected
    | _ => rfl
  | evaluate l =>
    cases hl : e.lags.get? l with
    | none => rw [evaluate_of_not_live hl]
    | some lag => rw [evaluate_keeps hl]
  | _ => rfl

end Engine
end LinkAggregation
