import LinkAggregation.Proofs.Reachable.Exact
import LinkAggregation.Proofs.Reachable.Flags

/-!
# Nobody attaches without a full wait

A member of a dynamic LAG attaches after it has waited for two seconds without a break. What says
that the wait is over is a mark that stays until the next wait begins, so it has to be shown that no
mark of a former wait is left when a member is switched off, left out of the selection, released or
restarted.
-/
namespace LinkAggregation.Engine
variable {e e' : Engine} {σ : Nat → Engine} {name group : String} {i i' : Interface}
  {lag lag' : Lag} {before after : Seat} {k m n : Nat}

/-! ## Waiting and attached -/

/-- The interface is a member of the dynamic LAG of this name, and its mux is in such a state. -/
def Muxed (states : MuxState → Prop) (e : Engine) (name group : String) : Prop :=
  ∃ i lag, e.membership? name = some (i, lag) ∧ lag.name = group ∧ lag.isDynamic = true ∧
    states i.protocol.mux

instance {states : MuxState → Prop} [DecidablePred states] :
    Decidable (e.Muxed states name group) :=
  decidable_of_iff ((e.membership? name).any fun m =>
      decide (m.2.name = group ∧ m.2.isDynamic = true ∧ states m.1.protocol.mux)) <| by
    simp [Muxed, Option.any_eq_true]

/-- The member waits. -/
abbrev Waiting : Engine → String → String → Prop := Muxed (· = .waiting)

/-- The member is attached, and may forward. -/
abbrev Attached : Engine → String → String → Prop :=
  Muxed fun s => s = .attached ∨ s = .collectingDistributing

/-- The interface is an enabled member of the dynamic LAG, selected or on standby, and it is not
detached. -/
def Attends (e : Engine) (name group : String) : Prop :=
  ∃ i lag, e.membership? name = some (i, lag) ∧ lag.name = group ∧ lag.isDynamic = true ∧
    i.isEnabled = true ∧ i.protocol.selection.isEligible = true ∧ i.protocol.mux ≠ .detached

theorem not_muxed_new (system : SystemIdentity) (maxMembers : Nat) (connected : Bool)
    (states : MuxState → Prop) :
    ¬ (Engine.new system maxMembers connected).Muxed states name group := by
  rintro ⟨i, lag, hm, -⟩
  obtain ⟨slot, l, hi, -⟩ :=
    (stable_new system maxMembers connected).linked.membership?_eq_some_iff.mp hm
  simp at hi

/-- A member that is not detached attends. -/
theorem Coherent.attends (h : e.Stable) {states : MuxState → Prop} (hstates : ¬ states .detached)
    (hm : e.Muxed states name group) : e.Attends name group := by
  obtain ⟨i, lag, hmember, hgroup, hdynamic, hmux⟩ := hm
  obtain ⟨slot, l, hi, -, hlag, hl⟩ := h.linked.membership?_eq_some_iff.mp hmember
  have hattends : i.protocol.mux ≠ .detached := fun heq => hstates (heq ▸ hmux)
  refine ⟨i, lag, hmember, hgroup, hdynamic, ?_, ?_, hattends⟩
  · refine eq_true_of_ne_false fun hdisabled => hattends ?_
    exact h.detached_of_disabled hi hlag hl hdisabled
  · refine eq_true_of_ne_false fun hidle => hattends ?_
    exact Mux.detached_of_settled (h.settled_member hi hlag hl).mux hidle

section
variable (h : e.Succeeds e') (hs : e'.Sits name i' lag' after) (hdynamic : after.dynamic = true)
include h hs hdynamic

/-- Where the seat of a member comes from that is not detached. -/
theorem Succeeds.origin_of_attending (hmux : after.mux ≠ .detached) :
    ∃ t, t.Evaluated e'.now (suspects i') after ∧ t.dynamic = true ∧ t.group = lag'.name ∧
      ((∃ i lag before, e.Sits name i lag before ∧ t = before.pass e'.now) ∨
        t.mux = .detached ∧ ∀ states, ¬ e.Muxed states name lag'.name) := by
  obtain ⟨t, horigin, hevaluated⟩ := h.origin hs
  have hname : t.interface = name := hevaluated.interface.symm.trans hs.named
  have hgroup : t.group = lag'.name := hevaluated.group.symm.trans hs.group
  have hdynamic' : t.dynamic = true := hevaluated.dynamic.symm.trans hdynamic
  refine ⟨t, hevaluated, hdynamic', hgroup, ?_⟩
  cases horigin with
  | stays hbefore hpass => exact .inl ⟨_, _, _, hname ▸ hbefore, hpass⟩
  | begins hfresh hnew =>
    refine .inr ⟨hfresh.mux, ?_⟩
    rintro states ⟨i, lag, hm, hlag, hmode, -⟩
    obtain ⟨before, hbefore⟩ := h.before.stable.linked.exists_sits hm
    refine hnew i lag before (hname ▸ hbefore) ?_ ?_
    · rw [hbefore.group, hlag, hgroup]
    · rw [hbefore.dynamic, hmode, hdynamic']
  | rests _ hdisabled =>
    obtain ⟨slot, l, hi, hlag, hl, rfl⟩ := hs.exists_seat h.after.stable.linked
    exact absurd (h.after.stable.detached_of_disabled hi hlag hl hdisabled) hmux

/-- Whoever waits has waited before, and time has passed, or begins to wait. -/
theorem Succeeds.waiting (hmux : after.mux = .waiting) :
    (e.Waiting name lag'.name ∧ ∃ i lag before, e.Sits name i lag before ∧
      after.rung .wait = (before.pass e'.now).rung .wait ∧
      after.due .wait = (before.pass e'.now).due .wait) ∨
    ¬ e.Waiting name lag'.name ∧ after.RingsAt .wait e'.now (e'.now + Mux.aggregateWait) := by
  obtain ⟨t, hevaluated, hdynamic', hgroup, hcases⟩ :=
    h.origin_of_attending hs hdynamic (by rw [hmux]; exact nofun)
  by_cases hwaits : t.mux = .waiting
  · obtain ⟨i, lag, before, hbefore, rfl⟩ | ⟨hdetached, -⟩ := hcases
    · refine .inl ⟨⟨i, lag, hbefore.member, ?_, ?_, ?_⟩, i, lag, before, hbefore, ?_⟩
      · exact hbefore.group.symm.trans hgroup
      · exact hbefore.dynamic.symm.trans hdynamic'
      · exact hbefore.mux.symm.trans hwaits
      · exact hevaluated.waits hdynamic' hwaits hmux
    · exact absurd (hwaits.symm.trans hdetached) nofun
  · obtain ⟨hrung, hdue⟩ := hevaluated.begins hdynamic' hwaits hmux
    refine .inr ⟨?_, ?_, ?_⟩
    · obtain ⟨i, lag, before, hbefore, rfl⟩ | ⟨-, hnew⟩ := hcases
      · rintro ⟨j, lag₀, hm, -, -, hwaiting⟩
        obtain ⟨rfl, rfl⟩ := hbefore.eq_of_member hm
        exact hwaits (hbefore.mux.trans hwaiting)
      · exact hnew _
    · rw [hrung, eq_comm, decide_eq_false_iff_not, Mux.aggregateWait]
      omega
    · rw [hdue, if_neg]
      rw [Mux.aggregateWait]
      omega

end

/-- Whoever is attached has been attached before, or has waited until the alarm rang. -/
theorem Succeeds.attached (h : e.Succeeds e') (ha : e'.Attached name group) :
    e.Attached name group ∨ e.Waiting name group ∧ ∃ i lag before, e.Sits name i lag before ∧
      (before.pass e'.now).rung .wait = true := by
  obtain ⟨i', lag', hm, rfl, hdynamic, hmux⟩ := ha
  obtain ⟨after, hs⟩ := h.after.stable.linked.exists_sits hm
  rw [← hs.dynamic] at hdynamic
  rw [← hs.mux] at hmux
  obtain ⟨t, hevaluated, hdynamic', hgroup, hcases⟩ :=
    h.origin_of_attending hs hdynamic (by obtain hmux | hmux := hmux <;> rw [hmux] <;> exact nofun)
  have hattached := hevaluated.attached hdynamic' hmux
  obtain ⟨i, lag, before, hbefore, rfl⟩ | ⟨hdetached, -⟩ := hcases
  · have hlag : lag.name = lag'.name := hbefore.group.symm.trans hgroup
    have hmode : lag.isDynamic = true := hbefore.dynamic.symm.trans hdynamic'
    have hsame : i.protocol.mux = (before.pass e'.now).mux := hbefore.mux.symm
    obtain hattached | ⟨hwaits, hrung⟩ := hattached
    · exact .inl ⟨i, lag, hbefore.member, hlag, hmode, by rwa [hsame]⟩
    · have hwaiting : e.Waiting name lag'.name :=
        ⟨i, lag, hbefore.member, hlag, hmode, hsame.trans hwaits⟩
      exact .inr ⟨hwaiting, i, lag, before, hbefore, hrung⟩
  · rw [hdetached] at hattached
    simp at hattached

/-! ## Runs -/

/-- In a run a member has waited and then attached: it began to wait right after one stage and
attached right after another, and it is still attached at a third one. -/
structure Served (σ : Nat → Engine) (name group : String) (k m n : Nat) : Prop where
  order : k < m ∧ m < n
  begins : ¬ (σ k).Waiting name group
  waits : ∀ j, k < j → j ≤ m → (σ j).Waiting name group
  attached : ∀ j, m < j → j ≤ n → (σ j).Attached name group
  /-- It has waited for the full time before it attached. -/
  full : (σ (k + 1)).now + Mux.aggregateWait ≤ (σ (m + 1)).now ∧ (σ (m + 1)).now ≤ (σ n).now
  /-- All the time since it began to wait it attends. -/
  attends : ∀ j, k < j → j ≤ n → (σ j).Attends name group
  /-- If it was switched off, left out, released or restarted before, it began to wait after
  that. -/
  anew : ∀ j ≤ n, ¬ (σ j).Attends name group → j ≤ k
  /-- If it was attached before and had to detach, it began to wait after that. -/
  demoted : ∀ j < n, (σ j).Attached name group → ¬ (σ (j + 1)).Attached name group → j ≤ k

/-- Whoever is attached has served a wait. -/
def ServesWaits (σ : Nat → Engine) : Prop :=
  ∀ n name group, (σ n).Attached name group → ∃ k m, Served σ name group k m n

section
variable (h : ∀ n, (σ n).Succeeds (σ (n + 1)))
include h

/-- The alarm rings two seconds after the wait began. -/
theorem rings_of_waiting (hbegins : ¬ (σ k).Waiting name group)
    (hwaits : ∀ j, k < j → j ≤ m → (σ j).Waiting name group) :
    ∀ j, k < j → j ≤ m → ∀ i lag s, (σ j).Sits name i lag s →
      s.RingsAt .wait (σ j).now ((σ (k + 1)).now + Mux.aggregateWait) := by
  intro j hkj
  have hstep : ∀ j, k < j + 1 → j + 1 ≤ m → ∀ i lag s, (σ (j + 1)).Sits name i lag s →
      lag.name = group ∧ s.dynamic = true ∧ s.mux = .waiting := by
    intro j hkj hj i lag s hs
    obtain ⟨i', lag', hm, hgroup, hdynamic, hmux⟩ := hwaits (j + 1) hkj hj
    obtain ⟨rfl, rfl⟩ := hs.eq_of_member hm
    exact ⟨hgroup, hs.dynamic.trans hdynamic, hs.mux.trans hmux⟩
  induction hkj with
  | refl =>
    intro hj i lag s hs
    obtain ⟨rfl, hdynamic, hmux⟩ := hstep k (Nat.lt_succ_self k) hj i lag s hs
    obtain ⟨hwaited, -⟩ | ⟨-, hrings⟩ := (h k).waiting hs hdynamic hmux
    · exact absurd hwaited hbegins
    · exact hrings
  | @step j hkj ih =>
    intro hj i lag s hs
    obtain ⟨rfl, hdynamic, hmux⟩ := hstep j (Nat.lt_succ_of_lt hkj) hj i lag s hs
    obtain ⟨-, i₀, lag₀, before, hbefore, hrung, hdue⟩ | ⟨hnot, -⟩ :=
      (h j).waiting hs hdynamic hmux
    · have hpassed := (ih (Nat.le_of_succ_le hj) i₀ lag₀ before hbefore).pass (h j).now_le
      exact ⟨hrung.trans hpassed.rung, hdue.trans hpassed.due⟩
    · exact absurd (hwaits j hkj (Nat.le_of_succ_le hj)) hnot

/-- In a run that begins without members, whoever is attached has served a wait. -/
theorem servesWaits (hempty : ∀ name group states, ¬ (σ 0).Muxed states name group) :
    ServesWaits σ := by
  intro n name group hn
  obtain ⟨m, hmn, hdetached, hattached⟩ :=
    exists_begin (P := fun n => (σ n).Attached name group) (hempty name group _) hn
  obtain hbefore | ⟨hm, i, lag, before, hs, hrung⟩ :=
    (h m).attached (hattached (m + 1) (Nat.lt_succ_self m) hmn)
  · exact absurd hbefore hdetached
  · obtain ⟨k, hkm, hbegins, hwaits⟩ :=
      exists_begin (P := fun n => (σ n).Waiting name group) (hempty name group _) hm
    have hrings := rings_of_waiting h hbegins hwaits m hkm (Nat.le_refl m) i lag before hs
    have hattends : ∀ j, k < j → j ≤ n → (σ j).Attends name group := by
      intro j hkj hj
      obtain hj' | hj' := Nat.lt_or_ge m j
      · exact (h j).before.stable.attends (by simp) (hattached j hj' hj)
      · exact (h j).before.stable.attends nofun (hwaits j hkj hj')
    refine ⟨k, m, ⟨hkm, hmn⟩, hbegins, hwaits, hattached, ?_, hattends, ?_, ?_⟩
    · have hover := (hrings.pass (h m).now_le).rung
      rw [hrung] at hover
      exact ⟨of_decide_eq_true hover.symm, now_mono h hmn⟩
    · intro j hj hnot
      exact Nat.le_of_not_lt fun hkj => hnot (hattends j hkj hj)
    · intro j hj hbefore hafter
      refine Nat.le_of_not_lt fun hkj => ?_
      obtain hj' | hj' := Nat.lt_or_ge m j
      · exact hafter (hattached (j + 1) (Nat.lt_succ_of_lt hj') hj)
      · -- While it waits it is not attached.
        obtain ⟨i₁, lag₁, hm₁, -, -, hmux₁⟩ := hwaits j hkj hj'
        obtain ⟨i₂, lag₂, hm₂, -, -, hmux₂⟩ := hbefore
        obtain ⟨rfl, -⟩ := Prod.mk.inj (Option.some.inj (hm₁.symm.trans hm₂))
        rw [show i₁.protocol.mux = .waiting from hmux₁] at hmux₂
        simp at hmux₂

end

/-- What comes of requests comes of the first of them, and then of the others. -/
theorem runActions_append [Clock] (e : Engine) (first second : List Request) :
    e.runActions (first ++ second) = e.runActions first ++ (e.run first).1.runActions second := by
  induction first generalizing e with
  | nil => rfl
  | cons request rest ih =>
    have hrun : (e.run (request :: rest)).1 = ((e.handle request).engine.run rest).1 := by
      unfold run
      rw [foldl_next_fst, foldl_next_fst]
      rfl
    rw [List.cons_append, runActions, runActions, ih, hrun, List.append_assoc]

/-- Every request ends at a stage of the run. -/
theorem stage_runActions_take [Clock] (e : Engine) (requests : List Request) (n : Nat) :
    e.stage (e.runActions requests) (e.runActions (requests.take n)).length =
      (e.run (requests.take n)).1 := by
  have hcut : e.runActions requests = e.runActions (requests.take n) ++
      (e.run (requests.take n)).1.runActions (requests.drop n) := by
    rw [← runActions_append, List.take_append_drop]
  rw [stage, hcut, List.take_left, acts_runActions]

/-- Whatever is asked of an engine, as long as its clock stays in range nobody attaches in any stage
of the run without a full wait. After every request the run is at one of the stages. -/
theorem servesWaits_reached [Clock] (system : SystemIdentity) (maxMembers : Nat) (connected : Bool)
    (requests : List Request)
    (h : ∀ time, Request.advanceTo time ∈ requests → time ≤ lastClock) :
    let begin := Engine.new system maxMembers connected
    let actions := begin.runActions requests
    (∀ n, begin.stage actions (begin.runActions (requests.take n)).length =
      reached system maxMembers connected (requests.take n)) ∧
        ServesWaits (begin.stage actions) := by
  intro begin actions
  refine ⟨stage_runActions_take begin requests, ?_⟩
  have hbegin : begin.Poised := poised_new system maxMembers connected
  rw [stages_exact h system maxMembers connected]
  refine servesWaits (hbegin.succeeds _) fun name group states => ?_
  exact not_muxed_new system maxMembers connected states

/-- A member is selected, and its partner is in sync. -/
def joinedInSync : List Request :=
  let hello : Frame := Frame.encodeLacp
    { actor := ⟨⟨1, .zero⟩, 7, ⟨1, 1⟩, { activity := true, aggregation := true, sync := true }⟩
      partner := ⟨⟨65534, .zero⟩, 1, ⟨1, 1⟩, { activity := true, aggregation := true }⟩ } .zero
  [.apply .lag ⟨"PortChannel1", .set, []⟩, .apply .member ⟨"PortChannel1|Ethernet0", .set, []⟩,
    .apply .port ⟨"Ethernet0", .set, [("admin_status", "up"), ("oper_status", "up")]⟩,
    .receiveFrame "Ethernet0" hello]

/-- It forwards after two seconds, but not if its link has failed for a moment. -/
example :
    let flap : List Request := [.setLink "Ethernet0" false, .setLink "Ethernet0" true]
    let mux := fun requests => ((reached {} 8 true (joinedInSync ++ requests)).membership?
      "Ethernet0").map (·.1.protocol.mux)
    mux [.advanceTo 2000] = some .collectingDistributing ∧
      mux (.advanceTo 1999 :: flap ++ [.advanceTo 2000]) = some .waiting := by
  decide +kernel

/-- However the engine adds, it has served its wait when it forwards at the last clock value. -/
theorem servesWaits_joinedInSync :
    let begin := Engine.new {} 8 true
    let requests := joinedInSync ++ [.advanceTo lastClock]
    (∀ time, Request.advanceTo time ∈ requests → time ≤ lastClock) ∧
      (@reached .wrapping {} 8 true requests).Attached "Ethernet0" "PortChannel1" ∧
      ServesWaits (@stage .wrapping begin (@runActions .wrapping begin requests)) := by
  intro begin requests
  have hclock : ∀ time, Request.advanceTo time ∈ requests → time ≤ lastClock :=
    clock_of_all (by decide +kernel)
  exact ⟨hclock, by decide +kernel, (@servesWaits_reached .wrapping {} 8 true requests hclock).2⟩

/-- The end of the wait wraps, so that it is over at once. -/
theorem attached_upAtLast :
    let begin := Engine.new {} 8 true
    let σ := @stage .wrapping begin (@runActions .wrapping begin upAtLast)
    (σ 4).Waiting "Ethernet0" "PortChannel1" ∧ (σ 5).Attached "Ethernet0" "PortChannel1" ∧
      (σ 5).now = (σ 4).now ∧ ¬ ServesWaits σ := by
  intro begin σ
  have hattached : (σ 5).Attached "Ethernet0" "PortChannel1" := by decide +kernel
  refine ⟨by decide +kernel, hattached, by decide +kernel, fun h => ?_⟩
  obtain ⟨k, m, hserved⟩ := h 5 "Ethernet0" "PortChannel1" hattached
  have hwaits := hserved.waits (k + 1) (Nat.lt_succ_self k) hserved.order.1
  -- Whenever it waits, it is the last time already.
  have hearly : ∀ m < 5, ∀ k < m, (σ (k + 1)).Waiting "Ethernet0" "PortChannel1" →
      ¬ (σ (k + 1)).now + Mux.aggregateWait ≤ (σ (m + 1)).now := by decide +kernel
  exact hearly m hserved.order.2 k hserved.order.1 hwaits hserved.full.1

end LinkAggregation.Engine
