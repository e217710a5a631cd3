import LinkAggregation.Proofs.Engine.Reseat

/-!
# The stages of a run

A run goes through stages, one for every action. A member has its seat from the stage before, with
the time that has passed since, or it has begun, or it is switched off. After that comes one
evaluation. What is true of a member over several stages is traced back from stage to stage.
-/
namespace LinkAggregation

/-! ## Alarms that ring at a time -/

/-- The alarm rings at the deadline, which may be over. -/
structure Seat.RingsAt (s : Seat) (a : Alarm) (now deadline : Nat) : Prop where
  rung : s.rung a = decide (deadline ≤ now)
  due : s.due a = if deadline ≤ now then none else some deadline

/-- The deadline does not depend on how much time passes. -/
theorem Seat.RingsAt.pass {s : Seat} {a : Alarm} {now now' deadline : Nat}
    (h : s.RingsAt a now deadline) (hnow : now ≤ now') :
    (s.pass now').RingsAt a now' deadline := by
  by_cases hover : deadline ≤ now
  · have hover' : deadline ≤ now' := Nat.le_trans hover hnow
    constructor <;> simp [Seat.pass, h.rung, h.due, hover, hover']
  · constructor
    · simp [Seat.pass, h.rung, h.due, hover]
    · by_cases hover' : deadline ≤ now'
      · simp [Seat.pass, h.due, hover, hover', Option.filter, Nat.not_lt.mpr hover']
      · simp [Seat.pass, h.due, hover, hover', Option.filter, Nat.lt_of_not_le hover']

/-- What an evaluation makes of an alarm that is set, or that it has to set. -/
theorem Seat.Evaluated.ringsAt {now deadline : Nat} {suspect : Churn.Side → Bool} {s s' : Seat}
    {side : Churn.Side} (h : s.Evaluated now suspect s') (hdynamic : s.dynamic = true)
    (hsuspect : suspect side = true)
    (hrings : s.RingsAt (.churn side) now deadline ∨ s.rung (.churn side) = false ∧
      s.due (.churn side) = none ∧ deadline = now + Churn.detectionTime) :
    s'.RingsAt (.churn side) now deadline := by
  obtain ⟨hrung, hdue⟩ := h.churn hdynamic side hsuspect
  obtain ⟨hrung₀, hdue₀⟩ | ⟨hrung₀, hdue₀, rfl⟩ := hrings
  · refine ⟨hrung.trans hrung₀, ?_⟩
    rw [hdue, hrung₀, hdue₀]
    by_cases hover : deadline ≤ now <;> simp [hover]
  · have hearly : ¬ now + Churn.detectionTime ≤ now := by
      rw [Churn.detectionTime]
      omega
    refine ⟨?_, ?_⟩
    · rw [hrung, hrung₀, decide_eq_false hearly]
    · rw [hdue, hrung₀, hdue₀, if_neg hearly]
      rfl

/-- What holds after some steps and not at first has begun to hold at one of them. -/
theorem exists_begin {P : Nat → Prop} {n : Nat} (hzero : ¬ P 0) (hn : P n) :
    ∃ k < n, ¬ P k ∧ ∀ j, k < j → j ≤ n → P j := by
  induction n with
  | zero => exact absurd hn hzero
  | succ n ih =>
    by_cases hbefore : P n
    · obtain ⟨k, hlt, hnot, hsince⟩ := ih hbefore
      refine ⟨k, Nat.lt_succ_of_lt hlt, hnot, fun j hkj hj => ?_⟩
      obtain hj | rfl := Nat.lt_or_eq_of_le hj
      · exact hsince j hkj (Nat.le_of_lt_succ hj)
      · exact hn
    · refine ⟨n, Nat.lt_succ_self n, hbefore, fun j hkj hj => ?_⟩
      obtain rfl : j = n + 1 := by omega
      exact hn

namespace Engine
variable {e e' m : Engine} {s : Step} {name : String} {i i' : Interface} {lag lag' : Lag}
  {before after : Seat} {l slot : Nat}

/-! ## Seats under names -/

/-- The interface of a name with its LAG, if it is in one. -/
def membership? (e : Engine) (name : String) : Option (Interface × Lag) :=
  (e.interfaces.find? name).bind e.member?

/-- The interface of the name is in the LAG, and this is its seat. -/
structure Sits (e : Engine) (name : String) (i : Interface) (lag : Lag) (s : Seat) : Prop where
  member : e.membership? name = some (i, lag)
  named : s.interface = name
  seat : ∃ slot, e.interfaces.get? slot = some i ∧ s = i.seat lag e.timers slot

theorem Linked.membership?_eq_some_iff (h : e.Linked) :
    e.membership? name = some (i, lag) ↔
      ∃ slot l, e.interfaces.get? slot = some i ∧ i.name = name ∧ i.lag = some l ∧
        e.lags.get? l = some lag := by
  simp only [membership?, Option.bind_eq_some_iff, member?_eq_some_iff]
  constructor
  · rintro ⟨slot, hfind, l, hi, hlag, hl⟩
    exact ⟨slot, l, hi, h.interfaces.name_of_find? hfind hi, hlag, hl⟩
  · rintro ⟨slot, l, hi, rfl, hlag, hl⟩
    exact ⟨slot, h.interfaces.find?_of_get? hi, l, hi, hlag, hl⟩

theorem Linked.sits (h : e.Linked) (hi : e.interfaces.get? slot = some i) (hlag : i.lag = some l)
    (hl : e.lags.get? l = some lag) : e.Sits i.name i lag (i.seat lag e.timers slot) :=
  ⟨h.membership?_eq_some_iff.mpr ⟨slot, l, hi, rfl, hlag, hl⟩, rfl, slot, hi, rfl⟩

/-- Every member has a seat. -/
theorem Linked.exists_sits (h : e.Linked) (hm : e.membership? name = some (i, lag)) :
    ∃ s, e.Sits name i lag s := by
  obtain ⟨slot, l, hi, rfl, hlag, hl⟩ := h.membership?_eq_some_iff.mp hm
  exact ⟨_, h.sits hi hlag hl⟩

theorem Sits.exists_seat (hs : e.Sits name i lag before) (h : e.Linked) :
    ∃ slot l, e.interfaces.get? slot = some i ∧ i.lag = some l ∧ e.lags.get? l = some lag ∧
      before = i.seat lag e.timers slot := by
  obtain ⟨slot, l, hi, -, hlag, hl⟩ := h.membership?_eq_some_iff.mp hs.member
  obtain ⟨slot', hi', heq⟩ := hs.seat
  obtain rfl : slot' = slot := by
    have hfind := h.interfaces.find?_of_get? hi
    exact Option.some.inj ((h.interfaces.find?_of_get? hi').symm.trans hfind)
  exact ⟨slot', l, hi, hlag, hl, heq⟩

/-- Nobody is in two LAGs. -/
theorem Sits.eq_of_member (hs : e.Sits name i lag before)
    (hm : e.membership? name = some (i', lag')) : i' = i ∧ lag' = lag :=
  Prod.mk.inj (Option.some.inj (hm.symm.trans hs.member))

theorem Sits.group (hs : e.Sits name i lag before) : before.group = lag.name := by
  obtain ⟨slot, -, rfl⟩ := hs.seat
  rfl

theorem Sits.dynamic (hs : e.Sits name i lag before) : before.dynamic = lag.isDynamic := by
  obtain ⟨slot, -, rfl⟩ := hs.seat
  rfl

theorem Sits.mux (hs : e.Sits name i lag before) : before.mux = i.protocol.mux := by
  obtain ⟨slot, -, rfl⟩ := hs.seat
  rfl

theorem Sits.rung (hs : e.Sits name i lag before) (a : Alarm) :
    before.rung a = a.rung i.protocol := by
  obtain ⟨slot, -, rfl⟩ := hs.seat
  rfl

/-! ## From stage to stage -/

/-- Where a seat comes from before the evaluations of an action. -/
inductive Origin (e : Engine) (now : Nat) (i' : Interface) (s : Seat) : Prop
  | stays {i : Interface} {lag : Lag} {before : Seat} (hs : e.Sits s.interface i lag before)
      (h : s = before.pass now)
  | begins (hfresh : s.Fresh)
      (hnew : ∀ i lag before, e.Sits s.interface i lag before → before.group = s.group →
        before.dynamic ≠ s.dynamic)
  | rests (hdynamic : s.dynamic = true) (hdisabled : i'.isEnabled = false)

/-- Evaluations take no time. -/
theorem Course.now_of_evaluations (hc : m.Evaluations s) : s.1.now = m.now := by
  induction hc with
  | refl => rfl
  | step h hc hm _ ih =>
    subst hc
    cases hm with
    | shift hs =>
      cases hs with
      | turn _ _ _ ht => cases ht
    | evaluate l => exact ih.trans (now_evaluate _ l)

/-- What is linked after evaluations was so before. -/
theorem Course.linked_of_evaluations (hc : m.Evaluations s) (h : s.1.Linked) : m.Linked := by
  cases hc with
  | refl => exact h
  | step hlinked => exact hlinked

/-- A member after an action: where it comes from, and what the evaluations have made of it. -/
theorem Coherent.origin (h : e.Stable) (hp : e.Proceeds s) (hstable : s.1.Stable)
    (hi' : s.1.interfaces.get? slot = some i') (hlag' : i'.lag = some l)
    (hl' : s.1.lags.get? l = some lag') :
    ∃ t, e.Origin s.1.now i' t ∧
      t.Evaluated s.1.now (suspects i') (i'.seat lag' s.1.timers slot) := by
  obtain ⟨m, s', hleads, hc, heq⟩ := hp
  rw [heq] at hstable hi' hl' ⊢
  have hlinked := hc.linked_of_evaluations hstable.linked
  obtain ⟨i, lag, hi, hlag, hl, henabled, hevaluated⟩ :=
    hc.reseated hlinked hstable hi' hlag' hl'
  have hseat := seat?_eq hi hlag hl
  rw [hc.now_of_evaluations]
  refine ⟨_, ?_, hevaluated⟩
  cases hleads.led slot with
  | stays hstays =>
    obtain ⟨before, hbefore, hpass⟩ := Option.map_eq_some_iff.mp (hstays.symm.trans hseat)
    obtain ⟨j, k, lag₀, hj, hk, hlive, rfl⟩ := exists_of_seat? hbefore
    have hsits := h.linked.sits hj hk hlive
    have hname : j.name = i.name := congrArg Seat.interface hpass
    exact .stays (hname ▸ hsits) hpass.symm
  | begins hs hfresh hnew =>
    obtain rfl := Option.some.inj (hseat.symm.trans hs)
    refine .begins hfresh fun j lag₀ before hsits hgroup => ?_
    obtain ⟨slot', k, hj, hk, hlive, rfl⟩ := hsits.exists_seat h.linked
    exact hnew slot' _ (seat?_eq hj hk hlive) hsits.named hgroup
  | rests hi₁ hlag₁ hl₁ hdynamic hdisabled =>
    obtain rfl := Option.some.inj (hi.symm.trans hi₁)
    obtain rfl := Option.some.inj (hlag.symm.trans hlag₁)
    obtain rfl := Option.some.inj (hl.symm.trans hl₁)
    exact .rests hdynamic (henabled.trans hdisabled)
  | leaves hnone => exact absurd (hseat.symm.trans hnone) nofun

/-- An engine between two actions. -/
structure Poised (e : Engine) : Prop where
  stable : e.Stable
  tidy : e.Tidy
  quiet : e.Quiet

theorem poised_new (system : SystemIdentity) (maxMembers : Nat) (connected : Bool) :
    (Engine.new system maxMembers connected).Poised := by
  refine ⟨stable_new system maxMembers connected, tidy_new, fun slot s hs => ?_⟩
  obtain ⟨i, l, lag, hi, -⟩ := exists_of_seat? hs
  simp at hi

/-- No alarm rings in a static LAG. -/
theorem Coherent.quiet_of_proceeds (h : e.Stable) (hq : e.Quiet) (hp : e.Proceeds s)
    (hstable : s.1.Stable) : s.1.Quiet := by
  intro slot s' hs' hstatic a
  obtain ⟨i', l, lag', hi', hlag', hl', rfl⟩ := exists_of_seat? hs'
  obtain ⟨t, horigin, hevaluated⟩ := h.origin hp hstable hi' hlag' hl'
  have hstatic' : t.dynamic = false := hevaluated.dynamic.symm.trans hstatic
  have hsilent : t.rung a = false := by
    cases horigin with
    | stays hs hpass =>
      obtain ⟨slot₀, l₀, hi, hlag, hl, rfl⟩ := hs.exists_seat h.linked
      subst hpass
      have hseat := seat?_eq hi hlag hl
      have hrung := hq slot₀ _ hseat hstatic' a
      have hdue := h.due_of_static hseat hstatic' a
      simp only [Seat.pass, hrung, hdue, Option.any_none, Bool.or_false]
    | begins hfresh => exact hfresh.rung a
    | rests hdynamic => cases hdynamic.symm.trans hstatic'
  refine eq_false_of_ne_true fun hrings => ?_
  cases hsilent.symm.trans (hevaluated.quiet hstatic' a hrings)

theorem Poised.act (h : e.Poised) (a : Action) : (e.act a).1.Poised where
  stable := h.stable.act a
  tidy := (h.stable.course_act a).tidy h.tidy
  quiet := h.stable.quiet_of_proceeds h.quiet (h.stable.proceeds_act h.quiet a) (h.stable.act a)

theorem Poised.acts (h : e.Poised) (actions : List Action) : (e.acts actions).1.Poised := by
  induction actions generalizing e with
  | nil => exact h
  | cons a rest ih =>
    rw [acts_cons]
    exact ih (h.act a)

/-- An engine and the one that comes next in a run. -/
structure Succeeds (e e' : Engine) : Prop where
  before : e.Poised
  after : e'.Poised
  proceeds : e.Proceeds (e', [])

theorem Poised.succeeds_act (h : e.Poised) (a : Action) : e.Succeeds (e.act a).1 where
  before := h
  after := h.act a
  proceeds := h.stable.proceeds_act h.quiet a

theorem Poised.succeeds_refl (h : e.Poised) : e.Succeeds e := ⟨h, h, h.stable.proceeds_refl []⟩

/-- Where the seat of a member comes from, and what the evaluations have made of it. -/
theorem Succeeds.origin (h : e.Succeeds e') (hs : e'.Sits name i' lag' after) :
    ∃ t, e.Origin e'.now i' t ∧ t.Evaluated e'.now (suspects i') after := by
  obtain ⟨slot, l, hi, hlag, hl, rfl⟩ := hs.exists_seat h.after.stable.linked
  exact h.before.stable.origin h.proceeds h.after.stable hi hlag hl

/-! ## Stages -/

/-- The engine after so many of the actions. -/
def stage [Clock] (e : Engine) (actions : List Action) (n : Nat) : Engine :=
  (e.acts (actions.take n)).1

theorem stage_length [Clock] (e : Engine) (actions : List Action) :
    e.stage actions actions.length = (e.acts actions).1 := by
  rw [stage, List.take_length]

/-- Every action makes a stage of the one before. -/
theorem stage_succ [Clock] {actions : List Action} {n : Nat} {a : Action}
    (ha : actions[n]? = some a) :
    e.stage actions (n + 1) = ((e.stage actions n).act a).1 := by
  rw [stage, List.take_add_one, ha, acts_append]
  simp only [Option.toList_some, acts_singleton, next_fst, stage]

/-- After the last action nothing happens. -/
theorem stage_succ_of_end [Clock] {actions : List Action} {n : Nat} (hn : actions[n]? = none) :
    e.stage actions (n + 1) = e.stage actions n := by
  rw [stage, List.take_add_one, hn, Option.toList_none, List.append_nil]
  rfl

theorem Poised.stage (h : e.Poised) (actions : List Action) (n : Nat) :
    (e.stage actions n).Poised := h.acts _

theorem Poised.succeeds (h : e.Poised) (actions : List Action) (n : Nat) :
    (e.stage actions n).Succeeds (e.stage actions (n + 1)) := by
  cases ha : actions[n]? with
  | none =>
    rw [stage_succ_of_end ha]
    exact (h.stage actions n).succeeds_refl
  | some a =>
    rw [stage_succ ha]
    exact (h.stage actions n).succeeds_act a

/-- The clock does not go back. -/
theorem Succeeds.now_le (h : e.Succeeds e') : e.now ≤ e'.now := by
  obtain ⟨m, s', hleads, hc, heq⟩ := h.proceeds
  have hnow : e'.now = m.now := (congrArg Engine.now heq).trans hc.now_of_evaluations
  exact hnow ▸ hleads.now

theorem now_mono {σ : Nat → Engine} (h : ∀ n, (σ n).Succeeds (σ (n + 1))) {k n : Nat}
    (hkn : k ≤ n) : (σ k).now ≤ (σ n).now := by
  induction hkn with
  | refl => exact Nat.le_refl _
  | step _ ih => exact Nat.le_trans ih (h _).now_le

end Engine
end LinkAggregation
