import LinkAggregation.Engine.Request
import LinkAggregation.Proofs.Engine.Clock
import LinkAggregation.Proofs.Engine.Order

/-!
# What leaves the queues alone

Nothing that is applied queues anything or takes anything from a queue. And only the LAG table makes
a LAG come or go: everything else leaves the names of the LAGs alone as well.
-/
namespace LinkAggregation.Engine
variable {e e' e'' : Engine}

/-- The queues of the engine. -/
def queues (e : Engine) : Queue Entry × Queue Entry × Queue Entry × Queue Entry × Queue Event :=
  (e.systemQueue, e.lagQueue, e.memberQueue, e.portQueue, e.eventQueue)

/-- The queues and the names of the LAGs are as before. -/
structure Retains (e e' : Engine) : Prop where
  queues : e'.queues = e.queues
  names : e'.lags.index = e.lags.index

theorem queue_eq_of_queues (h : e'.queues = e.queues) (table : Table) :
    e'.queue table = e.queue table := by
  simp only [queues, Prod.mk.injEq] at h
  obtain ⟨hsystem, hlag, hmember, hport, -⟩ := h
  cases table with
  | system => exact hsystem
  | lag => exact hlag
  | member => exact hmember
  | port => exact hport

theorem eventQueue_eq_of_queues (h : e'.queues = e.queues) : e'.eventQueue = e.eventQueue := by
  simp only [queues, Prod.mk.injEq] at h
  exact h.2.2.2.2

namespace Retains

theorem refl (e : Engine) : Retains e e := ⟨rfl, rfl⟩

theorem trans (h : Retains e e') (h' : Retains e' e'') : Retains e e'' :=
  ⟨h'.queues.trans h.queues, h'.names.trans h.names⟩

theorem foldl {α : Type} {f : Engine → α → Engine} (hf : ∀ e x, Retains e (f e x)) (xs : List α)
    (e : Engine) : Retains e (xs.foldl f e) := by
  induction xs generalizing e with
  | nil => exact refl e
  | cons x rest ih => exact (hf e x).trans (ih (f e x))

/-- What every operation of a sequence leaves alone, the sequence does. -/
theorem foldl_next {α : Type} {f : Engine → α → Step} (hf : ∀ e x, Retains e (f e x).1)
    (xs : List α) (e : Engine) (effects : List Effect) :
    Retains e (xs.foldl (fun (s : Step) x => s.next (f · x)) (e, effects)).1 := by
  rw [foldl_next_fst]
  exact foldl hf xs e

end Retains

theorem retains_evaluate (e : Engine) (l : Nat) : Retains e (e.evaluate l).1 where
  queues := (congrArg queues (rest_evaluate e l) :)
  names := congrArg Prod.fst (shape_evaluate e l).2

theorem retains_evaluateAll (e : Engine) (slots : List Nat) : Retains e (e.evaluateAll slots).1 :=
  Retains.foldl_next retains_evaluate slots e []

/-! ## Configuration -/

theorem retains_syncReceive (e : Engine) (slot : Nat) : Retains e (e.syncReceive slot) := by
  unfold syncReceive
  split
  · exact Retains.refl e
  · split
    · exact Retains.refl e
    · dsimp only
      repeat' split
      all_goals exact ⟨rfl, rfl⟩

theorem retains_ensureInterface (e : Engine) (name : String) :
    Retains e (e.ensureInterface name).1 := by
  unfold ensureInterface
  split <;> exact ⟨rfl, rfl⟩

theorem retains_detachMember (e : Engine) (l slot : Nat) : Retains e (e.detachMember l slot).1 := by
  unfold detachMember
  dsimp only
  split <;> exact ⟨rfl, rfl⟩

theorem retains_setSystem (e : Engine) (system : SystemIdentity) :
    Retains e (e.setSystem system).1 := by
  unfold setSystem
  dsimp only
  refine Retains.trans ?_ (retains_evaluateAll _ _)
  exact ⟨rfl, rfl⟩

theorem retains_changeSystem (e : Engine) (system : SystemIdentity) :
    Retains e (e.changeSystem system).engine := by
  unfold changeSystem
  split
  · exact Retains.refl e
  · exact retains_setSystem e system

theorem retains_systemSet (e : Engine) (key : String) (fields : List Field) :
    Retains e (e.systemSet key fields).engine := by
  unfold systemSet
  split
  · exact Retains.refl e
  · split
    · exact Retains.refl e
    · exact retains_changeSystem e _

theorem retains_systemDel (e : Engine) (key : String) : Retains e (e.systemDel key).engine := by
  unfold systemDel
  split
  · exact Retains.refl e
  · exact retains_changeSystem e {}

theorem retains_changeLag (e : Engine) (slot : Nat) (lag : Lag) (settings : LagSettings) :
    Retains e (e.changeLag slot lag settings).1 := by
  have hmodified : Retains e (e.modifyLag slot fun lag => { lag with settings }) := ⟨rfl, rfl⟩
  have hrestart : ∀ e m, Retains e (restartMember e m) := by
    intro e m
    unfold restartMember
    refine Retains.trans ?_ (retains_syncReceive _ m)
    exact ⟨rfl, rfl⟩
  have hupdate : ∀ e m, Retains e (updateMember lag.settings settings e m) := by
    intro e m
    unfold updateMember
    dsimp only
    repeat' split
    all_goals exact ⟨rfl, rfl⟩
  unfold changeLag
  dsimp only
  refine Retains.trans ?_ (retains_evaluate _ slot)
  split
  · exact hmodified.trans (Retains.foldl hrestart _ _)
  · split
    · exact hmodified.trans (Retains.foldl hupdate _ _)
    · exact hmodified

/-- The LAG table may bring a LAG, but it queues nothing. -/
theorem queues_lagSet (e : Engine) (name : String) (fields : List Field) :
    (e.lagSet name fields).engine.queues = e.queues := by
  unfold lagSet
  split
  · rfl
  · split
    · split
      · rfl
      · exact (retains_evaluate _ _).queues
    · split
      · rfl
      · split
        · rfl
        · split
          · rfl
          · exact (retains_changeLag e _ _ _).queues

theorem queues_lagDel (e : Engine) (name : String) : (e.lagDel name).engine.queues = e.queues := by
  unfold lagDel
  split
  · rfl
  · next slot _ =>
    exact (Retains.foldl_next (fun e m => retains_detachMember e slot m) _ e []).queues

theorem retains_attachMember (e : Engine) (l slot : Nat) (settings : MemberSettings) :
    Retains e (e.attachMember l slot settings).1 := by
  unfold attachMember
  dsimp only
  refine Retains.trans ?_ (retains_evaluate _ l)
  refine Retains.trans ?_ (retains_syncReceive _ slot)
  exact ⟨rfl, rfl⟩

theorem retains_changeMember (e : Engine) (l slot : Nat) (settings : MemberSettings) :
    Retains e (e.changeMember l slot settings).1 := by
  unfold changeMember
  refine Retains.trans ?_ (retains_evaluate _ l)
  exact ⟨rfl, rfl⟩

theorem retains_memberSet (e : Engine) (key : String) (fields : List Field) :
    Retains e (e.memberSet key fields).engine := by
  unfold memberSet
  split
  · exact Retains.refl e
  · next lagName name _ =>
    have hknown := retains_ensureInterface e name
    split
    · exact Retains.refl e
    · dsimp only
      split
      · exact hknown
      · split
        · split
          · exact hknown
          · change Retains e (attachMember _ _ _ _).1
            exact hknown.trans (retains_attachMember _ _ _ _)
        · split
          · exact hknown
          · split
            · exact hknown
            · split
              · exact hknown
              · change Retains e (changeMember _ _ _ _).1
                exact hknown.trans (retains_changeMember _ _ _ _)

theorem retains_memberDel (e : Engine) (key : String) : Retains e (e.memberDel key).engine := by
  unfold memberDel
  split
  · exact Retains.refl e
  · split
    · split
      · exact (retains_detachMember e _ _).trans (retains_evaluate _ _)
      · exact Retains.refl e
    · exact Retains.refl e

theorem retains_updatePort (e : Engine) (slot : Nat) (status : PortStatus) :
    Retains e (e.updatePort slot status).1 := by
  unfold updatePort
  split
  · exact Retains.refl e
  · split
    · exact Retains.refl e
    · dsimp only
      split
      · exact ⟨rfl, rfl⟩
      · refine Retains.trans ?_ (retains_evaluate _ _)
        refine Retains.trans ?_ (retains_syncReceive _ slot)
        exact ⟨rfl, rfl⟩

theorem retains_portSet (e : Engine) (name : String) (fields : List Field) :
    Retains e (e.portSet name fields).engine := by
  unfold portSet
  dsimp only
  split
  · exact Retains.refl e
  · exact (retains_ensureInterface e name).trans (retains_updatePort _ _ _)

theorem retains_portDel (e : Engine) (name : String) : Retains e (e.portDel name).engine := by
  unfold portDel
  split
  · exact Retains.refl e
  · split
    · exact retains_updatePort e _ _
    · exact ⟨rfl, rfl⟩

/-- Only entries of the LAG table change the names of the LAGs. -/
theorem retains_applyEntry (e : Engine) {table : Table} (htable : table ≠ .lag) (entry : Entry) :
    Retains e (e.applyEntry table entry).engine := by
  unfold applyEntry
  split
  · exact retains_systemSet e _ _
  · exact retains_systemDel e _
  · exact absurd rfl htable
  · exact absurd rfl htable
  · exact retains_memberSet e _ _
  · exact retains_memberDel e _
  · exact retains_portSet e _ _
  · exact retains_portDel e _

theorem queues_applyEntry (e : Engine) (table : Table) (entry : Entry) :
    (e.applyEntry table entry).engine.queues = e.queues := by
  by_cases htable : table = .lag
  · subst htable
    unfold applyEntry
    cases entry.operation with
    | set => exact queues_lagSet e _ _
    | del => exact queues_lagDel e _
  · exact (retains_applyEntry e htable entry).queues

/-! ## Events and time -/

theorem retains_setLink (e : Engine) (name : String) (up : Bool) :
    Retains e (e.setLink name up).1 := by
  have hknown := retains_ensureInterface e name
  unfold setLink
  dsimp only
  split
  · exact hknown
  · exact hknown.trans (retains_updatePort _ _ _)

theorem retains_receiveLacp (e : Engine) (slot l : Nat) (i : Interface) (pdu : Lacpdu) :
    Retains e (e.receiveLacp slot l i pdu).1 := by
  unfold receiveLacp
  split
  · exact ⟨rfl, rfl⟩
  · dsimp only
    split
    · exact ⟨rfl, rfl⟩
    · refine Retains.trans ?_ (retains_evaluate _ _)
      exact ⟨rfl, rfl⟩

theorem retains_receiveMarker (e : Engine) (slot l : Nat) (i : Interface) (marker : Marker) :
    Retains e (e.receiveMarker slot l i marker).1 := by
  unfold receiveMarker
  dsimp only
  split <;> exact ⟨rfl, rfl⟩

theorem retains_receiveFrame (e : Engine) (name : String) (frame : Frame) :
    Retains e (e.receiveFrame name frame).engine := by
  unfold receiveFrame
  split
  · exact Retains.refl e
  · split
    · exact Retains.refl e
    · split
      · exact ⟨rfl, rfl⟩
      · exact ⟨rfl, rfl⟩
      · exact retains_receiveLacp e _ _ _ _
      · exact retains_receiveMarker e _ _ _ _

theorem retains_applyEvent (e : Engine) (event : Event) : Retains e (e.applyEvent event).1 := by
  cases event with
  | frame interface frame => exact retains_receiveFrame e interface frame
  | link interface up => exact retains_setLink e interface up

theorem retains_timerFired (e : Engine) (key : TimerKey) : Retains e (e.timerFired key).1 := by
  unfold timerFired
  split
  · split <;> exact ⟨rfl, rfl⟩
  · split
    · exact Retains.refl e
    · split <;> exact ⟨rfl, rfl⟩

theorem retains_timersFired (e : Engine) (keys : List TimerKey) :
    Retains e (e.timersFired keys).1 := by
  have hrun : ∀ (e : Engine) (lags : List Nat), Retains e (keys.foldl collect (e, lags)).1 := by
    induction keys with
    | nil => exact fun e _ => Retains.refl e
    | cons key rest ih => exact fun e lags => (retains_timerFired e key).trans (ih _ _)
  rw [timersFired_eq]
  exact hrun e []

theorem retains_advanceTo (e : Engine) (time : Nat) : Retains e (e.advanceTo time).1 := by
  unfold advanceTo
  dsimp only
  refine Retains.trans ?_ (retains_evaluateAll _ _)
  refine Retains.trans ?_ (retains_timersFired _ _)
  exact ⟨rfl, rfl⟩

/-! ## Requests -/

/-- Only those requests concern the queues that queue something, and work. -/
theorem queues_handle (e : Engine) (request : Request) :
    (e.handle request).engine.queues = e.queues ∨
      (∃ table entries, request = .enqueueEntries table entries) ∨
      (∃ event, request = .enqueueEvent event) ∨ request = .work := by
  cases request with
  | apply table entry => exact .inl (queues_applyEntry e table entry)
  | setLink interface up => exact .inl (retains_setLink e interface up).queues
  | receiveFrame interface frame => exact .inl (retains_receiveFrame e interface frame).queues
  | advanceTo time => exact .inl (retains_advanceTo e time).queues
  | enqueueEntries table entries => exact .inr (.inl ⟨table, entries, rfl⟩)
  | enqueueEvent event => exact .inr (.inr (.inl ⟨event, rfl⟩))
  | work => exact .inr (.inr (.inr rfl))

end LinkAggregation.Engine
