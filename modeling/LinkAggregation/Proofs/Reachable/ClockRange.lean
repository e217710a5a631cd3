import LinkAggregation.Proofs.Engine.Exact
import LinkAggregation.Proofs.Engine.Setup

/-!
# Sums of times fit into 64 bits

Nothing is checked when the engine adds to a time. But no window has begun later than now, no
fallback timeout is longer than the longest that may be configured, and no period is as long as
that. So as long as the clock stays this much below the limit of 64 bits, no sum exceeds it.
-/
namespace LinkAggregation

namespace Engine
variable {e e' : Engine} {c : Kind} {s s' : Step} {l slot : Nat} {lag : Lag} {i : Interface}
  {allowed : Kind → Prop}

/-- Every window has begun. -/
def Begun (e : Engine) : Prop :=
  ∀ slot i, e.interfaces.get? slot = some i → i.window.Current e.now

/-- Every fallback timeout is one that may be configured. -/
def Limited (e : Engine) : Prop :=
  ∀ l lag, e.lags.get? l = some lag → lag.settings.fallbackTimeout ≤ maxFallbackTimeout

/-- No sum that the engine may form exceeds the last time. -/
def InRange (e : Engine) : Prop := ∀ time, e.Computes time → time ≤ lastTime

theorem Begun.inRange (hb : e.Begun) (hl : e.Limited) (hnow : e.now ≤ lastClock) : e.InRange := by
  intro time htime
  cases htime with
  | period hperiod => exact sum_le_lastTime hnow (le_of_mem_periods hperiod)
  | @fallback l lag hlag => exact sum_le_lastTime hnow (Nat.mul_le_mul_right 1000 (hl l lag hlag))
  | @window slot i hi =>
    exact sum_le_lastTime (Nat.le_trans (hb slot i hi).begun hnow) (by decide)

/-! ## Windows -/

theorem Change.current {i' : Interface} (hc : e.Change c slot i i') (h : i.window.Current e.now) :
    i'.window.Current e.now := by
  cases hc with
  | adjust ha =>
    rw [ha.keeps Interface.window fun _ _ _ _ _ _ => rfl]
    exact h
  | leave => exact h
  | evaluate => exact (e.spends_after _ _ slot i).current h

/-- A new interface has a window that began with the clock. -/
theorem Move.begun (hm : Move e c s) (h : e.Linked) (hb : e.Begun) : s.1.Begun := by
  intro slot i' hi'
  have hfate := hm.interfaces h slot
  rw [hi'] at hfate
  obtain ⟨name, -, rfl⟩ | ⟨i, hi, hchange⟩ := hfate.origin
  · exact current_unknown _
  · exact (hchange.current (hb slot i hi)).later (hm.now_le h)

theorem Course.begun (hc : e.Course allowed s) (hb : e.Begun) : s.1.Begun := by
  induction hc with
  | refl => exact hb
  | step h _ hm _ ih => exact ih (hm.begun h hb)

/-! ## Fallback timeouts -/

theorem Coherent.limited {changed : Nat → Prop} {pending : List TimerKey}
    (h : e.Coherent changed pending) : e.Limited := fun l lag hl => (h.sound l lag hl).timeout

theorem limited_of_setup (h : e'.setup = e.setup) (hl : e'.Limited) : e.Limited := by
  intro l lag hget
  obtain ⟨lag', hget', hsame⟩ := get?_lags_of_setup h hget
  have hsettings : lag'.setup.settings = lag.setup.settings := congrArg Lag.settings hsame
  exact hsettings ▸ hl l lag' hget'

theorem Limited.of_modify {f : Lag → Lag} (hl : e.Limited) (hlags : e'.lags = e.lags.modify l f)
    (hf : ∀ lag, (f lag).settings = lag.settings) : e'.Limited := by
  intro k lag' hk
  rw [hlags, Arena.get?_modify] at hk
  split at hk
  · obtain ⟨lag, hlag, rfl⟩ := Option.map_eq_some_iff.mp hk
    rw [hf]
    exact hl k lag hlag
  · exact hl k lag' hk

theorem Shift.limited (hs : Shift e c e') (hc : c ≠ .founding) (hc' : c ≠ .revision)
    (hl : e.Limited) : e'.Limited := by
  cases hs with
  | requeue hsame =>
    rw [hsame]
    exact hl
  | activate => exact hl.of_modify rfl fun _ => rfl
  | revise => exact absurd rfl hc'
  | found => exact absurd rfl hc
  | join => exact hl.of_modify rfl fun _ => rfl
  | _ => exact hl

theorem Move.limited (hm : Move e c s) (hc : c ≠ .founding) (hc' : c ≠ .revision)
    (hl : e.Limited) : s.1.Limited := by
  cases hm with
  | shift hs => exact hs.limited hc hc' hl
  | answer => exact hl
  | dissolve =>
    intro k lag hk
    simp only [Arena.get?_remove] at hk
    split at hk
    · cases hk
    · exact hl k lag hk
  | leave => exact hl.of_modify rfl fun _ => rfl
  | evaluate l => exact limited_of_setup (setup_evaluate e l).symm hl

/-! ## Steps in range -/

/-- A sequence of moves each of which begins with all sums in range, and asks the timers for such
sums only. -/
inductive Timely : Engine → Step → Prop
  | refl (e : Engine) : Timely e (e, [])
  | step {e : Engine} {c : Kind} {s s' : Step} (hm : Move e c s) (hrange : e.InRange)
      (hasked : e.timers.Asked e.Computes s.1.timers) (hrest : Timely s.1 s') :
      Timely e (s'.1, s.2 ++ s'.2)

theorem Timely.trans (h : Timely e s) (h' : Timely s.1 s') : Timely e (s'.1, s.2 ++ s'.2) := by
  induction h with
  | refl e => exact h'
  | step hm hrange hasked _ ih =>
    rw [List.append_assoc]
    exact .step hm hrange hasked (ih h')

/-- Whatever is scheduled in the end is in range if this was so in the beginning. -/
theorem Timely.scheduled (h : Timely e s)
    (hbefore : ∀ x ∈ e.timers.schedule, x.deadline ≤ lastTime) :
    ∀ x ∈ s.1.timers.schedule, x.deadline ≤ lastTime := by
  induction h with
  | refl => exact hbefore
  | step _ hrange hasked _ ih =>
    refine ih fun x hx => ?_
    obtain hold | hcomputed := hasked.scheduled hx
    · exact hbefore x hold
    · exact hrange _ hcomputed

/-- A course that sets no LAG is in range if the clock is. -/
theorem Course.timely (hc : e.Course allowed s)
    (hallowed : ∀ c, allowed c → c ≠ .founding ∧ c ≠ .revision) (hb : e.Begun) (hl : e.Limited)
    (hnow : s.1.now ≤ lastClock) : Timely e s := by
  induction hc with
  | refl e => exact .refl e
  | @step e c s s' h hkind hm hrest ih =>
    obtain ⟨hfounding, hrevision⟩ := hallowed c hkind
    have hlater : s.1.now ≤ lastClock := Nat.le_trans hrest.now_le hnow
    refine .step hm (hb.inRange hl (Nat.le_trans (hm.now_le h) hlater)) (hm.asked h) ?_
    exact ih (hm.begun h hb) (hm.limited hfounding hrevision hl) hnow

/-! ## Actions -/

section
variable (h : e.Stable)
include h

/-- What is set is that of a stable engine, so it is limited already before the evaluation. -/
theorem Coherent.timely_evaluate (hb : e.Begun) (hs : Shift e c e')
    (hstable : (e'.evaluate l).1.Stable) (hnow : (e'.evaluate l).1.now ≤ lastClock) :
    Timely e (e'.evaluate l) := by
  have hmove : Move e c (e', []) := .shift hs
  have hlimited : e'.Limited := limited_of_setup (setup_evaluate e' l) hstable.limited
  rw [now_evaluate] at hnow
  have hearlier : e.now ≤ lastClock := Nat.le_trans (hmove.now_le h.linked) hnow
  have hevaluated : Timely e' ((e'.evaluate l).1, (e'.evaluate l).2 ++ []) :=
    .step (.evaluate l) ((hmove.begun h.linked hb).inRange hlimited hnow)
      (asked_evaluate e' l) (.refl _)
  rw [List.append_nil] at hevaluated
  exact .step hmove (hb.inRange h.limited hearlier) (hs.asked h.linked) hevaluated

theorem Coherent.timely_lagSet (hb : e.Begun) {name : String} {fields : List Field}
    (hnow : (e.lagSet name fields).step.1.now ≤ lastClock) :
    Timely e (e.lagSet name fields).step := by
  have hstable : (e.lagSet name fields).step.1.Stable := h.lagSet name fields
  obtain heq | ⟨e', l, hshift, heq⟩ | ⟨l, lag, new, f, step, -, -, hshift, heq⟩ :=
    h.lagSet_cases name fields
  · rw [heq]
    exact .refl e
  · rw [heq] at hstable hnow ⊢
    exact h.timely_evaluate hb hshift hstable hnow
  · rw [heq] at hstable hnow ⊢
    exact h.timely_evaluate hb hshift hstable hnow

theorem Coherent.timely_act (hb : e.Begun) (a : Action) (hnow : (e.act a).1.now ≤ lastClock) :
    Timely e (e.act a) := by
  obtain hclearing | hforgets | ⟨name, fields, hset⟩ | ⟨name, frame, rfl⟩ | ⟨time, rfl⟩ :=
    h.act_cases a
  · refine hclearing.course.timely (fun c hc => ?_) hb h.limited hnow
    obtain (rfl | rfl) | rfl := hc <;> decide
  · refine (h.course_of_forgets hforgets).timely (fun c hc => ?_) hb h.limited hnow
    obtain rfl := hc
    decide
  · rw [hset] at hnow ⊢
    exact h.timely_lagSet hb hnow
  · refine (h.operation_receiveFrame name frame).course.timely (fun c hc => ?_) hb h.limited hnow
    obtain (rfl | rfl) | rfl := hc <;> decide
  · refine (h.operation_advanceTo time).course.timely (fun c hc => ?_) hb h.limited hnow
    obtain (rfl | rfl) | rfl := hc <;> decide

theorem Coherent.timely_acts (hb : e.Begun) (actions : List Action)
    (hnow : (e.acts actions).1.now ≤ lastClock) : Timely e (e.acts actions) := by
  induction actions generalizing e with
  | nil => exact .refl e
  | cons a rest ih =>
    rw [acts_cons] at hnow ⊢
    have hlater : (e.act a).1.now ≤ _ := ((h.act a).course_acts rest).now_le
    have hfirst := h.timely_act hb a (Nat.le_trans hlater hnow)
    exact hfirst.trans (ih (h.act a) ((h.course_act a).begun hb) hnow)

/-! ## The clock -/

theorem Coherent.now_acts {actions : List Action}
    (hactions : ∀ a ∈ actions, ∀ time, a ≠ .advanceTo time) :
    (e.acts actions).1.now = e.now := by
  induction actions generalizing e with
  | nil => rfl
  | cons a rest ih =>
    have hfirst : (e.act a).1.now = e.now := by
      rw [h.now_act a]
      split
      · exact absurd rfl (hactions _ List.mem_cons_self _)
      · rfl
    rw [acts_cons, ← hfirst]
    exact ih (h.act a) fun b hb => hactions b (List.mem_cons_of_mem a hb)

omit h in
/-- Only the clock's own request sets it. -/
theorem advanceTo_mem_actions {request : Request} {time : Nat}
    (ha : Action.advanceTo time ∈ e.actions request) : request = .advanceTo time := by
  cases request with
  | apply table entry => simp [actions] at ha
  | setLink interface up => simp [actions] at ha
  | receiveFrame interface frame => simp [actions] at ha
  | advanceTo time' =>
    simp only [actions, List.mem_singleton, Action.advanceTo.injEq] at ha
    rw [ha]
  | enqueueEntries table entries =>
    simp only [actions] at ha
    split at ha <;> simp at ha
  | enqueueEvent event => simp [actions] at ha
  | work =>
    obtain htables | hevents := List.mem_append.mp ha
    · cases isConfiguration_of_mem_tablesActions htables
    · simp [eventActions] at hevents

/-- The clock moves when it is set, and never else. -/
theorem Coherent.now_handle (request : Request) : (e.handle request).engine.now =
    match request with
    | .advanceTo time => max e.now time
    | _ => e.now := by
  split
  · next time => exact h.now_act (.advanceTo time)
  · next hother =>
    have hactions : ∀ a ∈ e.actions request, ∀ time, a ≠ .advanceTo time := by
      rintro a ha time rfl
      exact hother time (advanceTo_mem_actions ha)
    have hacts := h.now_acts hactions
    rw [acts_actions] at hacts
    exact hacts

/-- A request at which the clock is in range keeps all times in range. -/
theorem Coherent.timely_handle (hb : e.Begun) (request : Request)
    (hnow : (e.handle request).engine.now ≤ lastClock) :
    Timely e (e.handle request).step := by
  rw [← acts_actions]
  refine h.timely_acts hb _ ?_
  rw [acts_actions]
  exact hnow

end

/-! ## Runs -/

/-- All times of an engine are in range. -/
structure TimesFit (e : Engine) : Prop where
  /-- No window has begun later than now. -/
  windows : ∀ slot i, e.interfaces.get? slot = some i → i.window.start ≤ e.now
  /-- No fallback timeout is longer than the longest. -/
  timeouts : ∀ l lag, e.lags.get? l = some lag → lag.settings.fallbackTimeout ≤ maxFallbackTimeout
  /-- The sums that may be formed now are in range. -/
  sums : e.InRange
  /-- So is any that a LAG may be configured for. -/
  configurable : ∀ seconds ≤ maxFallbackTimeout, e.now + seconds * 1000 ≤ lastTime
  /-- So are those that have been formed; whatever is armed is in the schedule. -/
  deadlines : ∀ x ∈ e.timers.schedule, x.deadline ≤ lastTime

section
variable (system : SystemIdentity) (maxMembers : Nat) (connected : Bool) {requests : List Request}

theorem reached_append_singleton (requests : List Request) (request : Request) :
    reached system maxMembers connected (requests ++ [request]) =
      ((reached system maxMembers connected requests).handle request).engine := by
  simp only [reached, run, List.foldl_append, List.foldl_cons, List.foldl_nil]
  rfl

theorem begun_reached (requests : List Request) :
    (reached system maxMembers connected requests).Begun := by
  have hcourse := (stable_new system maxMembers connected).course_run requests
  refine hcourse.begun fun slot i hi => ?_
  simp at hi

/-- The clock shows at most the last time to which it has been set. -/
theorem now_reached_le {last : Nat}
    (h : ∀ time, Request.advanceTo time ∈ requests → time ≤ last) :
    (reached system maxMembers connected requests).now ≤ last := by
  induction requests using List.reverseRecOn with
  | nil => exact Nat.zero_le last
  | append_singleton before request ih =>
    have hbefore := ih fun time hmem => h time (List.mem_append_left _ hmem)
    rw [reached_append_singleton, (stable_reached system maxMembers connected before).now_handle]
    split
    · next time => exact Nat.max_le.mpr ⟨hbefore, h time (by simp)⟩
    · exact hbefore

/-- Whatever is scheduled is in range. -/
theorem deadlines_reached_le (h : ∀ time, Request.advanceTo time ∈ requests → time ≤ lastClock) :
    ∀ x ∈ (reached system maxMembers connected requests).timers.schedule,
      x.deadline ≤ lastTime := by
  induction requests using List.reverseRecOn with
  | nil => exact nofun
  | append_singleton before request ih =>
    have hbefore := ih fun time hmem => h time (List.mem_append_left _ hmem)
    have hnow := now_reached_le system maxMembers connected h
    rw [reached_append_singleton] at hnow ⊢
    have hstable := stable_reached system maxMembers connected before
    have hbegun := begun_reached system maxMembers connected before
    exact (hstable.timely_handle hbegun request hnow).scheduled hbefore

end

/-- If the clock is never set beyond the last value, all times fit wherever a run has come, and no
sum on the way exceeds what 64 bits hold. -/
theorem timesFit_reached (system : SystemIdentity) (maxMembers : Nat) (connected : Bool)
    (requests : List Request)
    (h : ∀ time, Request.advanceTo time ∈ requests → time ≤ lastClock) :
    (∀ before, before <+: requests → (reached system maxMembers connected before).TimesFit) ∧
      ∀ before request, before ++ [request] <+: requests →
        let e := reached system maxMembers connected before
        e.now ≤ (e.handle request).engine.now ∧ Timely e (e.handle request).step := by
  have hpast : ∀ before, before <+: requests →
      ∀ time, Request.advanceTo time ∈ before → time ≤ lastClock :=
    fun before hbefore time hmem => h time (hbefore.subset hmem)
  constructor
  · intro before hbefore
    have hstable := stable_reached system maxMembers connected before
    have hbegun := begun_reached system maxMembers connected before
    have hnow := now_reached_le system maxMembers connected (hpast before hbefore)
    exact {
      windows := fun slot i hi => (hbegun slot i hi).begun
      timeouts := hstable.limited
      sums := hbegun.inRange hstable.limited hnow
      configurable := fun seconds hseconds =>
        sum_le_lastTime hnow (Nat.mul_le_mul_right 1000 hseconds)
      deadlines := deadlines_reached_le system maxMembers connected (hpast before hbefore) }
  · intro before request hbefore e
    have hstable : e.Stable := stable_reached system maxMembers connected before
    have hnow : (e.handle request).engine.now ≤ lastClock := by
      have hlater := now_reached_le system maxMembers connected (hpast _ hbefore)
      rwa [reached_append_singleton] at hlater
    have hbegun := begun_reached system maxMembers connected before
    exact ⟨(hstable.course_handle request).now_le, hstable.timely_handle hbegun request hnow⟩

/-- At the last clock value a silence of the longest timeout begins, and ends at the last time. -/
theorem timesFit_reached_last :
    let before : List Request := [
      .apply .lag ⟨"PortChannel1", .set, [("fallback", "true"), ("fallback_timeout", "900")]⟩,
      .apply .member ⟨"PortChannel1|Ethernet0", .set, []⟩,
      .apply .port ⟨"Ethernet0", .set, [("admin_status", "up"), ("oper_status", "up")]⟩]
    let requests := before ++ [.advanceTo lastClock]
    let e := reached {} 8 true requests
    (∀ time, Request.advanceTo time ∈ requests → time ≤ lastClock) ∧ e.now = lastClock ∧
      e.timers.deadline? (.fallback 0) = some lastTime ∧ e.TimesFit ∧
      Timely (reached {} 8 true before)
        ((reached {} 8 true before).handle (.advanceTo lastClock)).step := by
  intro before requests e
  have hclock : ∀ time, Request.advanceTo time ∈ requests → time ≤ lastClock := by
    intro time hmem
    simp only [requests, before, List.mem_append, List.mem_cons, Request.advanceTo.injEq,
      reduceCtorEq, List.not_mem_nil, or_false, false_or] at hmem
    exact Nat.le_of_eq hmem
  obtain ⟨hfit, hcalls⟩ := timesFit_reached {} 8 true requests hclock
  exact ⟨hclock, by decide +kernel, by decide +kernel, hfit requests (List.prefix_refl requests),
    (hcalls before (.advanceTo lastClock) (List.prefix_refl requests)).2⟩

end Engine
end LinkAggregation
