import LinkAggregation.Proofs.Engine.Detections
import LinkAggregation.Proofs.Reachable.Exact

/-!
# Churn is detected exactly

A side of a member is flagged exactly if the member has been out of sync on this side for a minute
without a break. How long that is depends on nothing but the clock at the first stage of the period:
no evaluation, no message and no other timer starts the minute anew or ends it, and the minute is
counted once.
-/
namespace LinkAggregation.Engine
variable {e e' : Engine} {σ : Nat → Engine} {name group : String} {side : Churn.Side}
  {i i' : Interface} {lag lag' : Lag} {before after : Seat} {slot j k n : Nat}

/-! ## Out of sync -/

/-- The interface is an enabled and selected member of the dynamic LAG of this name, and it is out
of sync on the side. -/
def OutOfSync (e : Engine) (name group : String) (side : Churn.Side) : Prop :=
  ∃ i lag, e.membership? name = some (i, lag) ∧ lag.name = group ∧ lag.isDynamic = true ∧
    i.isEnabled = true ∧ i.protocol.selection.isSelected = true ∧ side.inSync i.protocol = false

theorem not_outOfSync_new (system : SystemIdentity) (maxMembers : Nat) (connected : Bool) :
    ¬ (Engine.new system maxMembers connected).OutOfSync name group side := by
  rintro ⟨i, lag, hm, -⟩
  obtain ⟨slot, l, hi, -⟩ :=
    (stable_new system maxMembers connected).linked.membership?_eq_some_iff.mp hm
  simp at hi

theorem OutOfSync.exists_sits (hout : e.OutOfSync name group side) (h : e.Linked) :
    ∃ i lag s, e.Sits name i lag s ∧ lag.name = group := by
  obtain ⟨i, lag, hm, hgroup, -⟩ := hout
  obtain ⟨s, hs⟩ := h.exists_sits hm
  exact ⟨i, lag, s, hs, hgroup⟩

section
variable (hs : e.Sits name i lag before)
include hs

theorem Sits.group_of_outOfSync (hout : e.OutOfSync name group side) : lag.name = group := by
  obtain ⟨j, lag', hm, hgroup, -⟩ := hout
  obtain ⟨rfl, rfl⟩ := hs.eq_of_member hm
  exact hgroup

/-- Churn detection looks at the sides that are out of sync. -/
theorem Sits.outOfSync_iff (h : e.Stable) :
    e.OutOfSync name lag.name side ↔ before.dynamic = true ∧ suspects i side = true := by
  obtain ⟨slot, l, hi, hlag, hl, rfl⟩ := hs.exists_seat h.linked
  constructor
  · rintro ⟨j, lag', hm, -, hdynamic, henabled, hselected, hsync⟩
    obtain ⟨rfl, rfl⟩ := hs.eq_of_member hm
    have hrunning : j.protocol.receive.isRunning = true :=
      (h.sound_member hi hlag hl).follows.running henabled hdynamic
    refine ⟨hdynamic, ?_⟩
    simp [suspects, Churn.isSuspect, Churn.isWatched, henabled, hselected, hrunning, hsync]
  · rintro ⟨hdynamic, hsuspect⟩
    simp only [suspects, Churn.isSuspect, Churn.isWatched, Bool.and_eq_true,
      Bool.not_eq_true'] at hsuspect
    obtain ⟨⟨⟨henabled, hselected⟩, -⟩, hsync⟩ := hsuspect
    exact ⟨i, lag, hs.member, rfl, hdynamic, henabled, hselected, hsync⟩

/-- Nothing is detected and nothing is timed on a side that is in sync. -/
theorem Sits.idle_of_inSync (h : e.Poised) (hin : ¬ e.OutOfSync name lag.name side) :
    before.rung (.churn side) = false ∧ before.due (.churn side) = none := by
  rw [hs.outOfSync_iff h.stable] at hin
  obtain ⟨slot, l, hi, hlag, hl, rfl⟩ := hs.exists_seat h.stable.linked
  have hseat := seat?_eq hi hlag hl
  cases hdynamic : lag.isDynamic with
  | false => exact ⟨h.quiet slot _ hseat hdynamic _, h.stable.due_of_static hseat hdynamic _⟩
  | true =>
    have hsettled := (h.stable.settled_member hi hlag hl).churn hdynamic side
    have hcalm : ¬ Churn.isSuspect i.isEnabled side i.protocol = true :=
      fun hsuspect => hin ⟨hdynamic, hsuspect⟩
    rw [Churn.SideSettled, if_neg hcalm] at hsettled
    exact ⟨hsettled.1, Timers.isArmed_eq_false_iff.mp hsettled.2⟩

end

/-! ## From stage to stage -/

/-- Whoever is out of sync has been so before and carries on, or begins to be out of sync. -/
theorem Succeeds.ringsAt (h : e.Succeeds e') (hs : e'.Sits name i' lag' after)
    (hout : e'.OutOfSync name group side) :
    (e.OutOfSync name group side ∧ ∃ i lag before, e.Sits name i lag before ∧
      ∀ deadline, before.RingsAt (.churn side) e.now deadline →
        after.RingsAt (.churn side) e'.now deadline) ∨
    ¬ e.OutOfSync name group side ∧
      after.RingsAt (.churn side) e'.now (e'.now + Churn.detectionTime) := by
  obtain rfl := hs.group_of_outOfSync hout
  obtain ⟨hdynamic, hsuspect⟩ := (hs.outOfSync_iff h.after.stable).mp hout
  obtain ⟨t, horigin, hevaluated⟩ := h.origin hs
  have hname : t.interface = name := hevaluated.interface.symm.trans hs.named
  have hgroup : t.group = lag'.name := hevaluated.group.symm.trans hs.group
  have hdynamic' : t.dynamic = true := hevaluated.dynamic.symm.trans hdynamic
  cases horigin with
  | @stays i lag before hbefore hpass =>
    rw [hname] at hbefore
    subst hpass
    have hlag : lag.name = lag'.name := hbefore.group.symm.trans hgroup
    by_cases hold : e.OutOfSync name lag'.name side
    · refine .inl ⟨hold, i, lag, before, hbefore, fun deadline hrings => ?_⟩
      exact hevaluated.ringsAt hdynamic' hsuspect (.inl (hrings.pass h.now_le))
    · refine .inr ⟨hold, hevaluated.ringsAt hdynamic' hsuspect (.inr ?_)⟩
      rw [← hlag] at hold
      obtain ⟨hrung, hdue⟩ := hbefore.idle_of_inSync h.before hold
      exact ⟨by simp [Seat.pass, hrung, hdue], by simp [Seat.pass, hdue], rfl⟩
  | begins hfresh hnew =>
    refine .inr ⟨fun hold => ?_, ?_⟩
    · obtain ⟨i, lag, before, hbefore, hlag⟩ := hold.exists_sits h.before.stable.linked
      have hmode := ((hbefore.outOfSync_iff h.before.stable).mp (hlag ▸ hold)).1
      refine hnew i lag before (hname ▸ hbefore) ?_ (hmode.trans hdynamic'.symm)
      exact hbefore.group.trans (hlag.trans hgroup.symm)
    · exact hevaluated.ringsAt hdynamic' hsuspect (.inr ⟨hfresh.rung _, hfresh.due _, rfl⟩)
  | rests _ hdisabled =>
    simp only [suspects, Churn.isSuspect, Churn.isWatched, hdisabled, Bool.false_and] at hsuspect
    cases hsuspect

/-! ## Periods -/

/-- An unbroken period out of sync, from the first stage of the period on. -/
structure Period (σ : Nat → Engine) (name group : String) (side : Churn.Side) (k n : Nat) :
    Prop where
  order : k ≤ n
  outOfSync : ∀ j, k ≤ j → j ≤ n → (σ j).OutOfSync name group side
  begins : ∀ j, j + 1 = k → ¬ (σ j).OutOfSync name group side

/-- The minute of a period that has lasted until now is over at the next stage. -/
def Expires (σ : Nat → Engine) (name : String) (side : Churn.Side) (n : Nat) : Prop :=
  ∃ group k, Period σ name group side k n ∧ (σ n).now < (σ k).now + Churn.detectionTime ∧
    (σ k).now + Churn.detectionTime ≤ (σ (n + 1)).now

/-- Churn is detected exactly in a run through these stages. -/
structure DetectsExactly (σ : Nat → Engine) : Prop where
  /-- A side is flagged if the interface has been out of sync for a minute without a break. -/
  flagged : ∀ n name i side, (σ n).interface? name = some i → (side.flag i.protocol = true ↔
    ∃ group k, k ≤ n ∧ (σ k).now + Churn.detectionTime ≤ (σ n).now ∧
      ∀ j, k ≤ j → j ≤ n → (σ j).OutOfSync name group side)
  /-- A detection is counted at the stage at which the minute of a period is over. -/
  counted : ∀ n name i i' side, (σ n).interface? name = some i →
    (σ (n + 1)).interface? name = some i' →
      side.counter i'.counters = side.counter i.counters + 1 ∧ Expires σ name side n ∨
      side.counter i'.counters = side.counter i.counters ∧ ¬ Expires σ name side n
  /-- So in a period one detection is counted, when the minute is over. -/
  once : ∀ name group side k n i i', Period σ name group side k n →
    (σ k).interface? name = some i → (σ n).interface? name = some i' →
      side.counter i'.counters = side.counter i.counters +
        if (σ k).now + Churn.detectionTime ≤ (σ n).now then 1 else 0

theorem Period.of_le (hp : Period σ name group side k n) (hkj : k ≤ j) (hjn : j ≤ n) :
    Period σ name group side k j :=
  ⟨hkj, fun j' hkj' hj' => hp.outOfSync j' hkj' (Nat.le_trans hj' hjn), hp.begins⟩

/-- Whoever is out of sync is in a period. -/
theorem exists_period (hempty : ∀ name group side, ¬ (σ 0).OutOfSync name group side)
    (hout : (σ n).OutOfSync name group side) :
    ∃ k, Period σ name group side k n := by
  obtain ⟨k, hkn, hnot, hsince⟩ :=
    exists_begin (P := fun n => (σ n).OutOfSync name group side) (hempty name group side) hout
  refine ⟨k + 1, hkn, hsince, fun j hj => ?_⟩
  rwa [Nat.succ.inj hj]

section
variable (h : ∀ n, (σ n).Succeeds (σ (n + 1)))
include h

variable (hempty : ∀ name group side, ¬ (σ 0).OutOfSync name group side)
include hempty

/-- The alarm rings a minute after the period began. -/
theorem Period.ringsAt (hp : Period σ name group side k n) (hs : (σ n).Sits name i lag before) :
    before.RingsAt (.churn side) (σ n).now ((σ k).now + Churn.detectionTime) := by
  obtain ⟨hkn, hout, hbegins⟩ := hp
  induction hkn generalizing i lag before with
  | refl =>
    have hfirst := hout k (Nat.le_refl k) (Nat.le_refl k)
    cases k with
    | zero => exact absurd hfirst (hempty name group side)
    | succ k =>
      obtain ⟨hold, -⟩ | ⟨-, hrings⟩ := (h k).ringsAt hs hfirst
      · exact absurd hold (hbegins k rfl)
      · exact hrings
  | @step n hkn ih =>
    have hlast := hout (n + 1) (Nat.le_succ_of_le hkn) (Nat.le_refl _)
    obtain ⟨-, i₀, lag₀, before₀, hbefore, hrings⟩ | ⟨hnot, -⟩ := (h n).ringsAt hs hlast
    · exact hrings _ (ih hbefore fun j hkj hj => hout j hkj (Nat.le_succ_of_le hj))
    · exact absurd (hout n hkn (Nat.le_succ n)) hnot

/-- A side is flagged when the minute of its period is over. -/
theorem flagged_iff (hi : (σ n).interface? name = some i) :
    side.flag i.protocol = true ↔ ∃ group k, k ≤ n ∧
      (σ k).now + Churn.detectionTime ≤ (σ n).now ∧
        ∀ j, k ≤ j → j ≤ n → (σ j).OutOfSync name group side := by
  have hpoised := (h n).before
  have hlinked := hpoised.stable.linked
  obtain ⟨slot, hfind, hget⟩ := Option.bind_eq_some_iff.mp hi
  have hname : i.name = name := hlinked.interfaces.name_of_find? hfind hget
  constructor
  · intro hflag
    cases hlag : i.lag with
    | none =>
      have hblank := (hpoised.tidy slot i hget hlag).protocol
      rw [hblank] at hflag
      cases side <;> cases hflag
    | some l =>
      obtain ⟨lag, hl, -⟩ := hlinked.lag_of_member hget hlag
      have hs := hname ▸ hlinked.sits hget hlag hl
      have hout : (σ n).OutOfSync name lag.name side := by
        by_contra hin
        cases hflag.symm.trans (hs.idle_of_inSync hpoised hin).1
      obtain ⟨k, hp⟩ := exists_period hempty hout
      have hrung : true = decide _ := hflag.symm.trans (hp.ringsAt h hempty hs).rung
      exact ⟨lag.name, k, hp.order, of_decide_eq_true hrung.symm, hp.outOfSync⟩
  · rintro ⟨group, k, hkn, hover, hout⟩
    obtain ⟨k₀, hp⟩ := exists_period hempty (hout k (Nat.le_refl k) hkn)
    -- The period may have begun before the stage that is given.
    have hp' : Period σ name group side k₀ n := by
      refine ⟨Nat.le_trans hp.order hkn, fun j hkj hj => ?_, hp.begins⟩
      obtain hjk | hkj' := Nat.lt_or_ge j k
      · exact hp.outOfSync j hkj (Nat.le_of_lt hjk)
      · exact hout j hkj' hj
    obtain ⟨i', lag, s, hs, -⟩ := (hout n hkn (Nat.le_refl n)).exists_sits hlinked
    obtain ⟨slot', l, hget', hnamed, -⟩ := hlinked.membership?_eq_some_iff.mp hs.member
    obtain rfl : i' = i := by
      have hsame := hnamed ▸ hlinked.interface?_name hget'
      exact Option.some.inj (hsame.symm.trans hi)
    have hearlier := now_mono h hp.order
    have hrung := (hp'.ringsAt h hempty hs).rung
    rw [hs.rung] at hrung
    exact hrung.trans (decide_eq_true (by omega))

/-- In a period the timer of the side goes off when the minute is over. -/
theorem detects_of_period (hp : Period σ name group side k n)
    (hi : (σ n).interfaces.get? slot = some i) (hname : i.name = name) :
    (σ n).detects (σ (n + 1)).now slot side = true ↔
      (σ n).now < (σ k).now + Churn.detectionTime ∧
        (σ k).now + Churn.detectionTime ≤ (σ (n + 1)).now := by
  have hlinked := (h n).before.stable.linked
  obtain ⟨i', lag, s, hs, -⟩ := (hp.outOfSync n hp.order (Nat.le_refl n)).exists_sits hlinked
  obtain ⟨slot', l, hget', hlag, hl, rfl⟩ := hs.exists_seat hlinked
  obtain rfl : slot' = slot := by
    have hfind := hlinked.interfaces.find?_of_get? hget'
    rw [show i'.name = i.name from hs.named.trans hname.symm,
      hlinked.interfaces.find?_of_get? hi] at hfind
    exact (Option.some.inj hfind).symm
  have hdue : (σ n).timers.deadline? (side.timer slot') = _ := (hp.ringsAt h hempty hs).due
  rw [detects, hdue]
  split
  · next hover => simp [Nat.not_lt.mpr hover]
  · next hearly => simp [Nat.lt_of_not_le hearly]

/-- The timer of a side goes off when the minute of its period is over, and never else. -/
theorem detects_iff (hi : (σ n).interfaces.get? slot = some i) (hname : i.name = name) :
    (σ n).detects (σ (n + 1)).now slot side = true ↔ Expires σ name side n := by
  have hpoised := (h n).before
  have hlinked := hpoised.stable.linked
  constructor
  · intro hfires
    cases hlag : i.lag with
    | none =>
      have hidle := hpoised.stable.due_outside (not_isMember_of_lag_eq_none hi hlag)
        ((Alarm.churn side).interface?_timer slot)
      rw [due_nil] at hidle
      rw [detects, show (σ n).timers.deadline? (side.timer slot) = none from hidle] at hfires
      cases hfires
    | some l =>
      obtain ⟨lag, hl, -⟩ := hlinked.lag_of_member hi hlag
      have hs := hname ▸ hlinked.sits hi hlag hl
      have hout : (σ n).OutOfSync name lag.name side := by
        by_contra hin
        have hidle : (σ n).timers.deadline? (side.timer slot) = none :=
          (hs.idle_of_inSync hpoised hin).2
        rw [detects, hidle] at hfires
        cases hfires
      obtain ⟨k, hp⟩ := exists_period hempty hout
      exact ⟨lag.name, k, hp, (detects_of_period h hempty hp hi hname).mp hfires⟩
  · rintro ⟨group, k, hp, htimes⟩
    exact (detects_of_period h hempty hp hi hname).mpr htimes

/-- From stage to stage, what is counted on an interface that stays known. -/
def CountsDetections (σ : Nat → Engine) : Prop :=
  ∀ n name slot side, (σ n).interfaces.find? name = some slot →
    (σ (n + 1)).interface? name ≠ none →
      (σ (n + 1)).detections name side = (σ n).detections name side +
        if (σ n).detects (σ (n + 1)).now slot side then 1 else 0

variable (hcounts : CountsDetections σ)
include hcounts

theorem counter_succ (hi : (σ n).interface? name = some i)
    (hi' : (σ (n + 1)).interface? name = some i') :
    side.counter i'.counters = side.counter i.counters + 1 ∧ Expires σ name side n ∨
      side.counter i'.counters = side.counter i.counters ∧ ¬ Expires σ name side n := by
  obtain ⟨slot, hfind, hget⟩ := Option.bind_eq_some_iff.mp hi
  have hname : i.name = name := (h n).before.stable.interfaces.name_of_find? hfind hget
  have hcount := hcounts n name slot side hfind (by rw [hi']; exact nofun)
  rw [detections_eq hi', detections_eq hi] at hcount
  by_cases hexpires : Expires σ name side n
  · rw [if_pos ((detects_iff h hempty hget hname).mpr hexpires)] at hcount
    exact .inl ⟨hcount, hexpires⟩
  · rw [if_neg fun hfires => hexpires ((detects_iff h hempty hget hname).mp hfires)] at hcount
    exact .inr ⟨hcount, hexpires⟩

/-- In a period one detection is counted, when its minute is over. -/
theorem Period.counter (hp : Period σ name group side k n) (hi : (σ k).interface? name = some i)
    (hi' : (σ n).interface? name = some i') :
    side.counter i'.counters = side.counter i.counters +
      if (σ k).now + Churn.detectionTime ≤ (σ n).now then 1 else 0 := by
  have hkn := hp.order
  induction hkn generalizing i' with
  | refl =>
    obtain rfl := Option.some.inj (hi.symm.trans hi')
    rw [if_neg, Nat.add_zero]
    rw [Churn.detectionTime]
    omega
  | @step n hkn ih =>
    have hbefore := hp.of_le hkn (Nat.le_succ n)
    have hlinked := (h n).before.stable.linked
    obtain ⟨j, lag, s, hs, -⟩ := (hbefore.outOfSync n hkn (Nat.le_refl n)).exists_sits hlinked
    obtain ⟨slot, l, hget, hnamed, -⟩ := hlinked.membership?_eq_some_iff.mp hs.member
    have hj : (σ n).interface? name = some j := hnamed ▸ hlinked.interface?_name hget
    have hsofar := ih hbefore hj
    have hclock := (h n).now_le
    have hexpires : Expires σ name side n ↔ (σ n).now < (σ k).now + Churn.detectionTime ∧
        (σ k).now + Churn.detectionTime ≤ (σ (n + 1)).now := by
      rw [← detects_iff h hempty hget hnamed, detects_of_period h hempty hbefore hget hnamed]
    obtain ⟨hcount, hover⟩ | ⟨hcount, hnot⟩ := counter_succ h hempty hcounts hj hi'
    · obtain ⟨hearly, hlate⟩ := hexpires.mp hover
      rw [if_neg (Nat.not_le.mpr hearly)] at hsofar
      rw [hcount, hsofar, if_pos hlate, Nat.add_zero]
    · rw [hexpires] at hnot
      have hover : (σ k).now + Churn.detectionTime ≤ (σ n).now ↔
          (σ k).now + Churn.detectionTime ≤ (σ (n + 1)).now := by omega
      rw [hcount, hsofar]
      exact congrArg (_ + ·) (if_congr hover rfl rfl)

/-- In a run that begins without members churn is detected exactly. -/
theorem detectsExactly : DetectsExactly σ where
  flagged _ _ _ _ hi := flagged_iff h hempty hi
  counted _ _ _ _ _ hi hi' := counter_succ h hempty hcounts hi hi'
  once _ _ _ _ _ _ _ hp hi hi' := hp.counter h hempty hcounts hi hi'

end

/-! ## Runs -/

section
variable (h : e.Poised) (actions : List Action)
include h

theorem Poised.countsDetections : CountsDetections (e.stage actions) := by
  intro n name slot side hfind hknown
  have hstable := (h.stage actions n).stable
  cases ha : actions[n]? with
  | none =>
    rw [stage_succ_of_end ha, hstable.detects_now]
    rfl
  | some a =>
    rw [stage_succ ha] at hknown ⊢
    exact hstable.detections_act a hfind hknown side

/-- The clock is what it was set to. -/
theorem Poised.now_stage (n : Nat) : (e.stage actions (n + 1)).now =
    match actions[n]? with
    | some (.advanceTo time) => max (e.stage actions n).now time
    | _ => (e.stage actions n).now := by
  cases ha : actions[n]? with
  | none => rw [stage_succ_of_end ha]
  | some a =>
    rw [stage_succ ha, (h.stage actions n).stable.now_act a]
    cases a <;> rfl

end

/-- Whatever is asked of an engine, as long as its clock stays in range churn is detected exactly
through all stages of the run. The clock moves when it is set, and never else. -/
theorem detectsExactly_reached [Clock] (system : SystemIdentity) (maxMembers : Nat)
    (connected : Bool) (requests : List Request)
    (h : ∀ time, Request.advanceTo time ∈ requests → time ≤ lastClock) :
    let begin := Engine.new system maxMembers connected
    let actions := begin.runActions requests
    begin.stage actions actions.length = reached system maxMembers connected requests ∧
      (∀ n, (begin.stage actions (n + 1)).now =
        match actions[n]? with
        | some (.advanceTo time) => max (begin.stage actions n).now time
        | _ => (begin.stage actions n).now) ∧
      DetectsExactly (begin.stage actions) := by
  intro begin actions
  have hbegin : begin.Poised := poised_new system maxMembers connected
  have hactions : actions = @runActions .exact begin requests :=
    runActions_exact h (fits_new system maxMembers connected) hbegin.stable
  refine ⟨?_, ?_⟩
  · rw [stage_length, acts_runActions]
    rfl
  · rw [stages_exact h system maxMembers connected, hactions]
    refine ⟨hbegin.now_stage _, detectsExactly (hbegin.succeeds _) (fun name group side => ?_)
      (hbegin.countsDetections _)⟩
    exact not_outOfSync_new system maxMembers connected

/-- However the engine adds, a member whose port comes up at time zero and that hears nothing has its
partner's churn detected after a minute, once. -/
theorem detectsExactly_unheard :
    let begin := Engine.new {} 8 true
    let requests : List Request := [.apply .lag ⟨"PortChannel1", .set, []⟩,
      .apply .member ⟨"PortChannel1|Ethernet0", .set, []⟩,
      .apply .port ⟨"Ethernet0", .set, [("admin_status", "up"), ("oper_status", "up")]⟩,
      .advanceTo 59999, .advanceTo 60000, .advanceTo lastClock]
    let σ := @stage .wrapping begin (@runActions .wrapping begin requests)
    (∀ time, Request.advanceTo time ∈ requests → time ≤ lastClock) ∧
      [4, 5, 6].map (fun n => ((σ n).interface? "Ethernet0").map fun i =>
        (i.protocol.partnerChurn, i.counters.partnerChurn)) =
        [some (false, 0), some (true, 1), some (true, 1)] ∧ DetectsExactly σ := by
  intro begin requests σ
  have hclock : ∀ time, Request.advanceTo time ∈ requests → time ≤ lastClock :=
    clock_of_all (by decide +kernel)
  exact ⟨hclock, by decide +kernel,
    (@detectsExactly_reached .wrapping {} 8 true requests hclock).2.2⟩

/-- The end of the minute wraps, so that churn is detected at once. -/
theorem detected_upAtLast :
    let begin := Engine.new {} 8 true
    let σ := @stage .wrapping begin (@runActions .wrapping begin upAtLast)
    (∃ i, (σ 5).interface? "Ethernet0" = some i ∧ i.protocol.partnerChurn = true ∧
      i.counters.partnerChurn = 1) ∧ (σ 5).now = (σ 4).now ∧ ¬ DetectsExactly σ := by
  intro begin σ
  have hknown : ((σ 5).interface? "Ethernet0").any (fun i =>
      i.protocol.partnerChurn && i.counters.partnerChurn == 1) = true := by decide +kernel
  obtain ⟨i, hi, hflag, hcount⟩ : ∃ i, (σ 5).interface? "Ethernet0" = some i ∧
      i.protocol.partnerChurn = true ∧ i.counters.partnerChurn = 1 := by
    simpa [Option.any_eq_true] using hknown
  refine ⟨⟨i, hi, hflag, hcount⟩, by decide +kernel, fun h => ?_⟩
  obtain ⟨group, k, hk, hover, hout⟩ := (h.flagged 5 "Ethernet0" i .partner hi).mp hflag
  -- A minute ago the member was not enabled.
  have hearly : ∀ k ≤ 5, (σ k).now + Churn.detectionTime ≤ (σ 5).now →
      ((σ k).membership? "Ethernet0").all (fun m => !m.1.isEnabled) = true := by decide +kernel
  obtain ⟨j, lag, hm, -, -, henabled, -⟩ := hout k (Nat.le_refl k) hk
  have hdisabled := hearly k hk hover
  rw [hm, Option.all_some, henabled] at hdisabled
  cases hdisabled

end LinkAggregation.Engine
