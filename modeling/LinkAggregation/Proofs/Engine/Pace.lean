import LinkAggregation.Proofs.Engine.Separation

/-!
# Every action keeps to the transmit windows

An action sends on an interface only what the transmit window of the interface has places for, and
all of it at one clock value, which is that after the action. An interface that the action forgets
sends nothing, and its window goes with it.
-/
namespace LinkAggregation.Engine
variable {e : Engine} {c : Kind} {s : Step} {slot : Nat} {name : String} {changed : Nat → Prop}
  {allowed : Kind → Prop}

/-- For every message that is sent the interface takes a place in its window, or nothing is sent
and the interface is not known any longer. -/
def Paces (e : Engine) (s : Step) (name : String) : Prop :=
  (e.windowOf name).Spends s.1.now (sentOn name s.2) (s.1.windowOf name) ∨
    s.1.interface? name = none ∧ sentOn name s.2 = 0

theorem Paced.paces (h : Paced e s) (name : String) : e.Paces s name := .inl (h name)

/-! ## The clock -/

theorem Move.now_le (hm : Move e c s) (h : e.Linked) : e.now ≤ s.1.now := by
  cases hm with
  | shift hs =>
    cases hs with
    | requeue hsame => exact Nat.le_of_eq (by rw [hsame])
    | later hnow => exact hnow
    | revise hl hr _ => exact Nat.le_of_eq (get?_revised h hl hr).1.now.symm
    | _ => exact Nat.le_refl _
  | evaluate l => exact Nat.le_of_eq (h.apart_evaluate (Nat.succ_ne_self l)).now.symm
  | _ => exact Nat.le_refl _

/-- The clock does not go back. -/
theorem Course.now_le (hc : e.Course allowed s) : e.now ≤ s.1.now := by
  induction hc with
  | refl => exact Nat.le_refl _
  | step h _ hm _ ih => exact Nat.le_trans (hm.now_le h) ih

/-! ## Evaluations of several LAGs -/

theorem Linked.paced_evaluateAll (h : e.Linked) (slots : List Nat) :
    (e.evaluateAll slots).1.now = e.now ∧ Paced e (e.evaluateAll slots) := by
  induction slots generalizing e with
  | nil => exact ⟨rfl, .refl e⟩
  | cons l rest ih =>
    obtain ⟨hnow, hpaced⟩ := ih (h.evaluate l)
    have hfirst := (h.apart_evaluate (Nat.succ_ne_self l)).now
    rw [evaluateAll_cons]
    exact ⟨hnow.trans hfirst, (h.paced_evaluate l).trans hpaced hnow⟩

/-- The firing of a timer has no bearing on the windows. -/
theorem windowOf_timerFired (key : TimerKey) :
    (e.timerFired key).1.windowOf name = e.windowOf name := by
  unfold timerFired
  split
  · split <;> rfl
  · split
    · rfl
    · next i hi =>
      split
      · rfl
      · exact windowOf_put hi (Interface.timerFired_keeps Interface.window fun _ _ _ => rfl)

theorem windowOf_timersFired (keys : List TimerKey) :
    (e.timersFired keys).1.windowOf name = e.windowOf name := by
  have hcollect : ∀ (e : Engine) (lags : List Nat),
      (keys.foldl collect (e, lags)).1.windowOf name = e.windowOf name := by
    induction keys with
    | nil => exact fun _ _ => rfl
    | cons key rest ih =>
      intro e lags
      rw [List.foldl_cons]
      exact (ih _ _).trans (windowOf_timerFired key)
  exact hcollect e []

/-! ## Actions -/

section
variable (h : e.Stable)
include h

theorem Coherent.paced_advanceTo (time : Nat) : Paced e (e.advanceTo time) := by
  have hnow : e.now ≤ max e.now time := Nat.le_max_left _ _
  have hlinked := (h.timersFired hnow).1.linked
  rw [advanceTo_eq]
  intro name
  have hpaced := (hlinked.paced_evaluateAll
    ((e.later (max e.now time)).timersFired (e.timers.expired (max e.now time)).1).2).2 name
  rw [windowOf_timersFired] at hpaced
  exact hpaced

theorem Coherent.paced_changeSystem (system : SystemIdentity) :
    Paced e (e.changeSystem system).step := by
  unfold Engine.changeSystem
  split
  · exact .refl e
  · have htold : Paced e (e.told system, []) :=
      Shift.paced h.linked (.identify system) fun _ => id
    obtain ⟨hnow, hpaced⟩ := (h.told system).linked.paced_evaluateAll e.lags.occupied
    exact htold.trans hpaced hnow

theorem Coherent.paced_systemSet (key : String) (fields : List Field) :
    Paced e (e.systemSet key fields).step := by
  unfold Engine.systemSet
  split
  · exact .refl e
  · split
    · exact .refl e
    · exact h.paced_changeSystem _

theorem Coherent.paced_systemDel (key : String) : Paced e (e.systemDel key).step := by
  unfold Engine.systemDel
  split
  · exact .refl e
  · exact h.paced_changeSystem _

omit h in
/-- Some slot is neither that of a LAG nor the next to be taken. -/
theorem exists_vacant (e : Engine) : ∃ k, e.lags.get? k = none ∧ k ≠ e.lags.freeSlot := by
  refine ⟨e.lags.slots.length + 1, by simp [Arena.get?], ?_⟩
  have hfree : e.lags.freeSlot ≤ e.lags.slots.length := List.findIdx_le_length
  omega

/-- Every operation is made away from a LAG that does not exist. -/
theorem Coherent.vacant {k : Nat} (hk : e.lags.get? k = none) :
    (∀ name, e.lags.find? name ≠ some k) ∧ ∀ slot, ¬ e.IsMember k slot := by
  constructor
  · intro name hname
    obtain ⟨lag, hl, -⟩ := h.lags.get?_of_find? hname
    simp [hk] at hl
  · intro slot hmember
    have hlive := h.live k slot hmember
    simp [hk] at hlive

/-- Only a port that is deleted can be forgotten. -/
theorem Coherent.paces_portDel (deleted name : String) :
    e.Paces (e.portDel deleted).step name := by
  obtain ⟨k, hk, -⟩ := exists_vacant e
  unfold Engine.portDel
  split
  · exact (Paced.refl e).paces name
  · next slot hfind =>
    split
    · exact (h.apart_updatePort ((h.vacant hk).2 slot) {}).paced.paces name
    · next hfree =>
      obtain ⟨i, hi, -⟩ := h.interfaces.get?_of_find? hfind
      have hlag : i.lag = none := by
        simpa [hi] using hfree
      by_cases hname : name = deleted
      · refine .inr ⟨?_, rfl⟩
        simp [Outcome.ok, Outcome.step, interface?, Arena.lookup?, hname]
      · refine .inl ?_
        have hforget := Shift.forget hfind hi hlag
        have hwindow : _ = e.windowOf name := hforget.windowOf h.linked (by simp [hname])
        exact hwindow ▸ .rest _

theorem Coherent.paces_applyEntry (table : Table) (entry : Entry) (name : String) :
    e.Paces (e.applyEntry table entry).step name := by
  obtain ⟨k, hk, hfree⟩ := exists_vacant e
  obtain ⟨hunnamed, hempty⟩ := h.vacant hk
  have hkey : e.Elsewhere k entry.key := fun lagName _ _ => hunnamed lagName
  unfold Engine.applyEntry
  split
  · exact (h.paced_systemSet _ _).paces name
  · exact (h.paced_systemDel _).paces name
  · exact (h.apart_lagSet (hunnamed _) hfree _).paced.paces name
  · exact (h.apart_lagDel (hunnamed _)).paced.paces name
  · exact (h.apart_memberSet hkey _).paced.paces name
  · exact (h.apart_memberDel hkey).paced.paces name
  · exact (h.apart_portSet (fun slot _ => hempty slot) _).paced.paces name
  · exact h.paces_portDel _ name

/-- A frame is received at one clock value and within the windows. -/
theorem Coherent.apart_vacant_receiveFrame (name : String) (frame : Frame) :
    ∃ k, Apart k e (e.receiveFrame name frame).step := by
  obtain ⟨k, hk, -⟩ := exists_vacant e
  exact ⟨k, h.apart_receiveFrame (fun slot _ => (h.vacant hk).2 slot) frame⟩

theorem Coherent.paces_act (a : Action) (name : String) : e.Paces (e.act a) name := by
  obtain ⟨k, hk, -⟩ := exists_vacant e
  have hempty := (h.vacant hk).2
  cases a with
  | apply table entry => exact h.paces_applyEntry table entry name
  | event event =>
    cases event with
    | frame interface frame =>
      exact (h.apart_receiveFrame (fun slot _ => hempty slot) frame).paced.paces name
    | link interface up => exact (h.apart_setLink (fun slot _ => hempty slot) up).paced.paces name
  | advanceTo time => exact (h.paced_advanceTo time).paces name
  | requeue table queue => cases table <;> exact (Paced.refl e).paces name
  | requeueEvents queue => exact (Paced.refl e).paces name

end

/-! ## Windows have begun -/

/-- All windows have begun, and none holds more than it may. -/
def Windowed (e : Engine) : Prop := ∀ name, (e.windowOf name).Current e.now

theorem current_unknown (now : Nat) : ({} : TransmitWindow).Current now :=
  ⟨Nat.zero_le _, Nat.zero_le _⟩

theorem windowed_new (system : SystemIdentity) (maxMembers : Nat) (connected : Bool) :
    (Engine.new system maxMembers connected).Windowed := fun _ => current_unknown 0

theorem Coherent.windowed_act (h : e.Stable) (hw : e.Windowed) (a : Action) :
    (e.act a).1.Windowed := by
  intro name
  have hlater := (hw name).later (h.course_act a).now_le
  obtain hspends | ⟨hunknown, -⟩ := h.paces_act a name
  · exact hspends.current hlater
  · -- A window that is forgotten is a fresh one when the interface comes back.
    have hfresh : (e.act a).1.windowOf name = {} := by simp [windowOf, hunknown]
    exact hfresh ▸ current_unknown _

end LinkAggregation.Engine
