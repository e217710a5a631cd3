import LinkAggregation.Engine.Evaluate
import LinkAggregation.Proofs.Timer.Expiry

/-!
# The machines of a member

One statement for each machine that an evaluation runs: what it makes of the protocol state, and
which deadlines it moves. The mux machine settles within its four steps, a member waits exactly
while its wait-while timer runs, and churn detection watches exactly the sides that are out of
sync.
-/
namespace LinkAggregation

namespace Assoc
variable {κ α : Type} [DecidableEq κ]

theorem erase_of_get?_eq_none {key : κ} {m : List (κ × α)} (h : get? key m = none) :
    erase key m = m := by
  refine List.filter_eq_self.mpr ?_
  induction m with
  | nil => simp
  | cons q rest ih =>
    obtain ⟨k, v⟩ := q
    by_cases hk : k = key
    · simp [get?, hk] at h
    · simp only [get?, if_neg hk] at h
      intro x hx
      obtain rfl | hx := List.mem_cons.mp hx
      · simpa using hk
      · exact ih h x hx

end Assoc

namespace Timers

theorem isArmed_eq_false_iff {t : Timers} {key : TimerKey} :
    t.isArmed key = false ↔ t.deadline? key = none := by
  simp [isArmed]

theorem cancel_of_not_armed {t : Timers} {key : TimerKey} (h : t.isArmed key = false) :
    t.cancel key = t := by
  have hnone : Assoc.get? key t.armed = none := by
    simpa [isArmed, deadline?] using h
  simp [cancel, Assoc.erase_of_get?_eq_none hnone]

theorem armIfIdle_of_armed {t : Timers} {key : TimerKey} (h : t.isArmed key = true)
    (deadline : Nat) : t.armIfIdle key deadline = t := by
  simp [armIfIdle, h]

end Timers

namespace Mux
variable {slot : Nat} {static : Bool} {now : Nat}

/-! ## The mux machine -/

@[simp] theorem withFlags_withFlags (p : Protocol) : withFlags (withFlags p) = withFlags p := rfl

@[simp] theorem withFlags_mux (p : Protocol) : (withFlags p).mux = p.mux := rfl

@[simp] theorem input_withFlags (p : Protocol) : input (withFlags p) static = input p static := rfl

/-- Only the actor flags can be out of line. -/
theorem withFlags_eq_self_iff {p : Protocol} : withFlags p = p ↔ (withFlags p).actor = p.actor := by
  refine ⟨congrArg Protocol.actor, fun h => ?_⟩
  calc withFlags p = { p with actor := (withFlags p).actor } := rfl
    _ = p := by rw [h]

/-- What does not depend on the mux state and the end of the wait is kept. -/
theorem settle_keeps {α : Type} (f : Protocol → α)
    (hf : ∀ p s r, f { p with mux := s, ready := r } = f p) (steps : Nat) (p : Protocol)
    (t : Timers) : f (settle slot static now steps p t).1 = f p := by
  induction steps generalizing p t with
  | zero => rfl
  | succ steps ih =>
    simp only [settle]
    split
    · rfl
    · rw [ih]
      cases next p.mux (input p static) <;> exact hf _ _ _

/-- The protocol state does not depend on slot, clock and timers. -/
theorem settle_fst_eq (slot' now' steps : Nat) (p : Protocol) (t t' : Timers) :
    (settle slot static now steps p t).1 = (settle slot' static now' steps p t').1 := by
  induction steps generalizing p t t' with
  | zero => rfl
  | succ steps ih =>
    simp only [settle]
    split
    · rfl
    · cases next p.mux (input p static) <;> exact ih _ _ _

/-- Only the wait-while timer is touched. -/
theorem deadline?_settle_of_ne {key : TimerKey} (hkey : key ≠ .waitWhile slot) (steps : Nat)
    (p : Protocol) (t : Timers) :
    (settle slot static now steps p t).2.deadline? key = t.deadline? key := by
  induction steps generalizing p t with
  | zero => rfl
  | succ steps ih =>
    simp only [settle]
    split
    · rfl
    · rw [ih]
      cases next p.mux (input p static) <;> simp [enter, hkey]

theorem wellFormed_settle (steps : Nat) (p : Protocol) {t : Timers} (h : t.WellFormed) :
    (settle slot static now steps p t).2.WellFormed := by
  induction steps generalizing p t with
  | zero => exact h
  | succ steps ih =>
    simp only [settle]
    split
    · exact h
    · apply ih
      cases next p.mux (input p static)
      · exact h.cancel _
      · exact h.arm _ _
      · exact h
      · exact h

/-- After four steps the machine has settled, whatever state it starts from. -/
theorem next_settle (slot : Nat) (static : Bool) (now : Nat) (p : Protocol) (t : Timers) :
    next (settle slot static now 4 p t).1.mux (input (settle slot static now 4 p t).1 static) =
      (settle slot static now 4 p t).1.mux := by
  obtain ⟨_, ⟨_, _, _, ⟨_, _, _, sync, _, _, _, _⟩⟩, _, _, _, mux, _, selection, ready, _, _, _, _,
    _⟩ := p
  cases static <;> cases mux <;> cases sync <;> cases ready <;> cases selection <;> rfl

/-- A settled machine takes no step. -/
theorem settle_of_next_eq {p : Protocol} (h : next p.mux (input p static) = p.mux) (steps : Nat)
    (t : Timers) : settle slot static now steps p t = (p, t) := by
  cases steps with
  | zero => rfl
  | succ steps => simp [settle, h]

/-- A settled machine of a member that may not attach is detached. -/
theorem detached_of_settled {p : Protocol} (h : next p.mux (input p static) = p.mux)
    (heligible : p.selection.isEligible = false) : p.mux = .detached := by
  have hselected : p.selection.isSelected = false := by
    simp only [Selection.isEligible, Bool.or_eq_false_iff] at heligible
    exact heligible.1
  cases static <;> cases hmux : p.mux <;>
    simp [next, input, hmux, heligible, hselected] at h <;> rfl

/-- A settled machine has attached selected members only. -/
theorem selected_of_settled {p : Protocol} (h : next p.mux (input p static) = p.mux)
    (hmux : p.mux = .attached ∨ p.mux = .collectingDistributing) :
    p.selection.isSelected = true := by
  refine eq_true_of_ne_false fun hselected => ?_
  obtain hmux | hmux := hmux <;> cases static <;> simp [next, input, hmux, hselected] at h

/-- A settled machine of a dynamic LAG forwards only if the partner is in sync. -/
theorem partner_sync_of_settled {p : Protocol} (h : next p.mux (input p false) = p.mux)
    (hmux : p.mux = .collectingDistributing) : p.partner.state.sync = true := by
  refine eq_true_of_ne_false fun hsync => ?_
  cases hselected : p.selection.isSelected <;> simp [next, input, hmux, hsync, hselected] at h

/-- Only an attached member says that it is in sync. -/
theorem attached_of_sync {p : Protocol} (h : withFlags p = p) (hsync : p.actor.sync = true) :
    p.mux = .attached ∨ p.mux = .collectingDistributing := by
  rw [← h] at hsync
  cases hmux : p.mux <;> simp [withFlags, hmux] at hsync
  · exact .inl rfl
  · exact .inr rfl

/-- While the machine waits the wait-while timer runs with this deadline, unless the member is
excused, and a member of a static LAG does not wait. -/
structure Waits (static : Bool) (excused : Prop) (now : Nat) (s : MuxState) (ready : Bool)
    (due : Option Nat) : Prop where
  armed : due.isSome = true → s = .waiting ∧ ready = false
  waiting : s = .waiting → ready = false → due.isSome = true ∨ excused
  dynamic : static = true → s ≠ .waiting
  due : ∀ d, due = some d → now < d ∧ d ≤ now + aggregateWait

namespace Waits
variable {excused : Prop} {p : Protocol} {t : Timers} {due : Option Nat}

theorem not_armed (h : Waits static excused now p.mux p.ready due)
    (hp : p.mux = .waiting → p.ready = true) :
    due.isSome = false := by
  refine Bool.eq_false_iff.mpr fun harmed => ?_
  obtain ⟨hmux, hready⟩ := h.armed harmed
  simp [hp hmux] at hready

/-- A step that stops waiting finds the wait over. -/
theorem enter (h : Waits static excused now p.mux p.ready (t.deadline? (.waitWhile slot))) :
    Waits static excused now (enter slot (next p.mux (input p static)) p t now).1.mux
      (Mux.enter slot (next p.mux (input p static)) p t now).1.ready
      ((enter slot (next p.mux (input p static)) p t now).2.deadline? (.waitWhile slot)) := by
  -- A waiting member attaches, or forwards, only when it is ready.
  have hdone : next p.mux (input p static) = .attached ∨
      next p.mux (input p static) = .collectingDistributing →
        p.mux = .waiting → p.ready = true := by
    intro hnext hmux
    have hdynamic : static = false := by
      refine Bool.eq_false_iff.mpr fun hs => h.dynamic hs hmux
    simp only [next, input, hmux, hdynamic] at hnext
    refine eq_true_of_ne_false fun hready => ?_
    cases he : p.selection.isEligible <;> simp [he, hready] at hnext
  cases hnext : next p.mux (input p static) with
  | detached => exact ⟨by simp [Mux.enter], by simp [Mux.enter], by simp [Mux.enter],
      by simp [Mux.enter]⟩
  | waiting =>
    refine ⟨by simp [Mux.enter], by simp [Mux.enter], ?_, ?_⟩
    · intro hs
      cases hsel : p.selection.isSelected <;> simp [next, input, hs, hsel] at hnext
    · simp only [Mux.enter, Timers.deadline?_arm, aggregateWait, Clock.after_exact]
      intro d hd
      cases hd
      omega
  | attached =>
    have hnot := h.not_armed (hdone (.inl hnext))
    refine ⟨?_, by simp [Mux.enter], by simp [Mux.enter], h.due⟩
    simp [Mux.enter, hnot]
  | collectingDistributing =>
    have hnot := h.not_armed (hdone (.inr hnext))
    refine ⟨?_, by simp [Mux.enter], by simp [Mux.enter], h.due⟩
    simp [Mux.enter, hnot]

theorem settle (h : Waits static excused now p.mux p.ready (t.deadline? (.waitWhile slot)))
    (steps : Nat) :
    Waits static excused now (settle slot static now steps p t).1.mux
      (Mux.settle slot static now steps p t).1.ready
      ((settle slot static now steps p t).2.deadline? (.waitWhile slot)) := by
  induction steps generalizing p t with
  | zero => exact h
  | succ steps ih =>
    simp only [Mux.settle]
    split
    · exact h
    · exact ih h.enter

/-- Of a settled machine the timer runs exactly while it waits, if only members that may not attach
are excused. -/
theorem armed_iff (h : Waits static excused now p.mux p.ready due)
    (hsettled : next p.mux (input p static) = p.mux)
    (hexcused : excused → p.selection.isEligible = false) :
    due.isSome = true ↔ p.mux = .waiting ∧ p.ready = false := by
  refine ⟨h.armed, fun ⟨hmux, hready⟩ => ?_⟩
  obtain harmed | hex := h.waiting hmux hready
  · exact harmed
  · have heligible := hexcused hex
    have hdynamic : static = false := by
      refine Bool.eq_false_iff.mpr fun hs => h.dynamic hs hmux
    simp [next, input, hmux, hdynamic, heligible] at hsettled

/-- A settled machine needs no excuse. -/
theorem unexcused (h : Waits static excused now p.mux p.ready due)
    (hsettled : next p.mux (input p static) = p.mux)
    (hexcused : excused → p.selection.isEligible = false) :
    Waits static False now p.mux p.ready due :=
  { h with waiting := fun hmux hready => .inl ((h.armed_iff hsettled hexcused).mpr ⟨hmux, hready⟩) }

end Waits
end Mux

namespace Churn
variable {slot now : Nat} {enabled : Bool} {p : Protocol} {t : Timers}

/-! ## Churn detection -/

/-- The side is watched and out of sync. -/
def isSuspect (enabled : Bool) (side : Side) (p : Protocol) : Bool :=
  isWatched enabled p && !side.inSync p

theorem Side.timer_ne {side side' : Side} (h : side ≠ side') (slot : Nat) :
    side.timer slot ≠ side'.timer slot := by
  cases side <;> cases side' <;> simp_all [Side.timer]

/-- Apart from the two flags the protocol state is kept. -/
theorem update_fst (t : Timers) :
    (update slot enabled p t now).1 =
      { p with
        actorChurn := p.actorChurn && isSuspect enabled .actor p
        partnerChurn := p.partnerChurn && isSuspect enabled .partner p } := by
  unfold update
  cases hw : isWatched enabled p
  · simp [isSuspect, hw]
  · obtain ⟨⟨_, _, _, sync, _, _, _, _⟩, ⟨_, _, _, ⟨_, _, _, psync, _, _, _, _⟩⟩, _, _, _, _, _, _,
      _, _, actorChurn, partnerChurn, _, _⟩ := p
    cases sync <;> cases psync <;> cases actorChurn <;> cases partnerChurn <;>
      simp [isSuspect, hw, updateSide, Side.inSync, Side.flag, Side.withFlag]

/-- The deadline of a suspect side stays, or starts now; other sides have none. A side that has
been flagged is not timed anew. -/
theorem deadline?_update (side : Side) :
    (update slot enabled p t now).2.deadline? (side.timer slot) =
      if isSuspect enabled side p then
        if side.flag p then t.deadline? (side.timer slot)
        else some ((t.deadline? (side.timer slot)).getD (now + detectionTime))
      else none := by
  unfold update
  cases hw : isWatched enabled p
  · cases side <;> simp [isSuspect, hw, Side.timer]
  · simp only [if_true, isSuspect, hw, Bool.true_and, updateSide]
    cases side <;> cases hs : p.actor.sync <;> cases hps : p.partner.state.sync <;>
      cases hf : p.actorChurn <;> cases hpf : p.partnerChurn <;>
      simp [Side.inSync, Side.flag, Side.withFlag, Side.timer, hs, hps, hf, hpf]

theorem deadline?_updateSide_of_ne {key : TimerKey} {side : Side} (hkey : key ≠ side.timer slot) :
    (updateSide slot now side p t).2.deadline? key = t.deadline? key := by
  unfold updateSide
  split
  · simp [hkey]
  · split
    · rfl
    · simp [hkey]

/-- Only the two churn timers are touched. -/
theorem deadline?_update_of_ne {key : TimerKey} (hkey : ∀ side : Side, key ≠ side.timer slot) :
    (update slot enabled p t now).2.deadline? key = t.deadline? key := by
  unfold update
  split
  · simp only [deadline?_updateSide_of_ne (hkey .partner), deadline?_updateSide_of_ne (hkey .actor)]
  · have hactor : key ≠ .actorChurn slot := hkey .actor
    have hpartner : key ≠ .partnerChurn slot := hkey .partner
    simp [hactor, hpartner]

theorem wellFormed_updateSide (side : Side) (h : t.WellFormed) :
    (updateSide slot now side p t).2.WellFormed := by
  unfold updateSide
  split
  · exact h.cancel _
  · split
    · exact h
    · exact h.armIfIdle _ _

theorem wellFormed_update (h : t.WellFormed) : (update slot enabled p t now).2.WellFormed := by
  unfold update
  split
  · exact wellFormed_updateSide _ (wellFormed_updateSide _ h)
  · exact (h.cancel _).cancel _

/-- A side is flagged or timed if it is suspect; otherwise it is neither. -/
def SideSettled (slot : Nat) (enabled : Bool) (p : Protocol) (t : Timers) (side : Side) : Prop :=
  if isSuspect enabled side p then side.flag p = true ∨ t.isArmed (side.timer slot) = true
  else side.flag p = false ∧ t.isArmed (side.timer slot) = false

/-- After an update both sides have settled. -/
theorem sideSettled_update (side : Side) :
    SideSettled slot enabled (update slot enabled p t now).1 (update slot enabled p t now).2
      side := by
  have hsuspect : isSuspect enabled side (update slot enabled p t now).1 =
      isSuspect enabled side p := by
    rw [update_fst]
    cases side <;> rfl
  have hflag : side.flag (update slot enabled p t now).1 =
      (side.flag p && isSuspect enabled side p) := by
    rw [update_fst]
    cases side <;> rfl
  simp only [SideSettled, hsuspect, hflag, Timers.isArmed, deadline?_update]
  cases isSuspect enabled side p <;> cases side.flag p <;> simp

theorem Side.withFlag_of_flag_eq {side : Side} {on : Bool} (h : side.flag p = on) :
    side.withFlag p on = p := by
  subst h
  cases side <;> rfl

theorem updateSide_of_settled (hwatched : isWatched enabled p = true) {side : Side}
    (h : SideSettled slot enabled p t side) : updateSide slot now side p t = (p, t) := by
  simp only [SideSettled, isSuspect, hwatched, Bool.true_and] at h
  unfold updateSide
  split
  · next hsync =>
    simp only [hsync, Bool.not_true, Bool.false_eq_true, if_false] at h
    rw [Timers.cancel_of_not_armed h.2, Side.withFlag_of_flag_eq h.1]
  · next hsync =>
    simp only [hsync, Bool.not_false, if_true] at h
    split
    · rfl
    · next hflag => rw [Timers.armIfIdle_of_armed (h.resolve_left hflag)]

/-- An update of settled sides changes nothing. -/
theorem update_of_settled (h : ∀ side, SideSettled slot enabled p t side) :
    update slot enabled p t now = (p, t) := by
  unfold update
  split
  · next hw =>
    simp [updateSide_of_settled hw (h .actor), updateSide_of_settled hw (h .partner)]
  · next hw =>
    have hactor := h .actor
    have hpartner := h .partner
    simp only [SideSettled, isSuspect, hw, Bool.false_and, Bool.false_eq_true, if_false] at *
    have hflags : { p with actorChurn := false, partnerChurn := false } = p := by
      change Side.withFlag (Side.withFlag p false .actor) false .partner = p
      rw [Side.withFlag_of_flag_eq hactor.1, Side.withFlag_of_flag_eq hpartner.1]
    simp only [hflags, Side.timer] at *
    rw [Timers.cancel_of_not_armed hactor.2, Timers.cancel_of_not_armed hpartner.2]

end Churn

namespace Evaluation
variable {now slot : Nat} {enabled running : Bool} {p : Protocol} {t : Timers}

/-! ## The periodic machine -/

/-- The state that the periodic machine takes. -/
def periodicGoal (enabled running : Bool) (p : Protocol) : PeriodicState :=
  Periodic.state
    { portEnabled := enabled
      lacpEnabled := running
      excluded := p.selection.isConflict
      actorActive := p.actor.activity
      partnerActive := p.partner.state.activity
      actorShort := p.actor.timeout
      partnerShort := p.partner.state.timeout }

@[simp] theorem isRunning_never : PeriodicState.never.isRunning = false := rfl
@[simp] theorem isRunning_fast : PeriodicState.fast.isRunning = true := rfl
@[simp] theorem isRunning_slow : PeriodicState.slow.isRunning = true := rfl

/-- A machine that runs has an interval. -/
@[simp] theorem isSome_interval? (s : PeriodicState) :
    (Periodic.interval? s).isSome = s.isRunning := by cases s <;> rfl

/-- A member sends only if its port is up, the protocol runs, no conflict leaves it out, and one side
is active. -/
theorem of_isRunning_periodicGoal (h : (periodicGoal enabled running p).isRunning = true) :
    enabled = true ∧ running = true ∧ p.selection.isConflict = false ∧
      (p.actor.activity = true ∨ p.partner.state.activity = true) := by
  unfold periodicGoal Periodic.state at h
  split at h
  · simp at h
  · next hready =>
    simp only [Bool.or_eq_true, Bool.not_eq_true', not_or, Bool.not_eq_false] at hready
    obtain ⟨⟨henabled, hrunning⟩, hconflict⟩ := hready
    split at h
    · simp at h
    · next hactive =>
      simp only [Bool.and_eq_true, Bool.not_eq_true', not_and_or, Bool.not_eq_false] at hactive
      exact ⟨henabled, hrunning, eq_false_of_ne_true hconflict, hactive⟩

theorem runPeriodic_of_goal_eq (h : periodicGoal enabled running p = p.periodic) :
    runPeriodic now slot enabled running p t = (p, t) := if_pos h

theorem runPeriodic_of_goal_ne (h : periodicGoal enabled running p ≠ p.periodic) :
    runPeriodic now slot enabled running p t =
      match Periodic.interval? (periodicGoal enabled running p) with
      | some interval =>
        ({ p with
            periodic := periodicGoal enabled running p
            needToTransmit := p.needToTransmit || !p.periodic.isRunning },
          t.arm (.periodic slot) (now + interval))
      | none =>
        ({ p with periodic := periodicGoal enabled running p }, t.cancel (.periodic slot)) :=
  if_neg h

/-- A member that starts to send has to send at once. -/
theorem runPeriodic_fst :
    (runPeriodic now slot enabled running p t).1 =
      { p with
        periodic := periodicGoal enabled running p
        needToTransmit := p.needToTransmit ||
          !p.periodic.isRunning && (periodicGoal enabled running p).isRunning } := by
  by_cases h : periodicGoal enabled running p = p.periodic
  · rw [runPeriodic_of_goal_eq h, h]
    cases p.periodic.isRunning <;> simp
  · rw [runPeriodic_of_goal_ne h]
    cases periodicGoal enabled running p <;> simp [Periodic.interval?]

/-- A change of the state times the next message anew. -/
theorem deadline?_runPeriodic (key : TimerKey) :
    (runPeriodic now slot enabled running p t).2.deadline? key =
      if key = .periodic slot ∧ periodicGoal enabled running p ≠ p.periodic then
        (Periodic.interval? (periodicGoal enabled running p)).map (now + ·)
      else t.deadline? key := by
  by_cases h : periodicGoal enabled running p = p.periodic
  · simp [runPeriodic_of_goal_eq h, h]
  · rw [runPeriodic_of_goal_ne h]
    by_cases hkey : key = .periodic slot
    · rw [if_pos ⟨hkey, h⟩]
      cases periodicGoal enabled running p <;> simp [Periodic.interval?, hkey]
    · rw [if_neg fun hand => hkey hand.1]
      cases periodicGoal enabled running p <;> simp [Periodic.interval?, hkey]

theorem wellFormed_runPeriodic (h : t.WellFormed) :
    (runPeriodic now slot enabled running p t).2.WellFormed := by
  unfold runPeriodic
  simp only
  split
  · exact h
  · split
    · exact h.arm _ _
    · exact h.cancel _

end Evaluation
end LinkAggregation
