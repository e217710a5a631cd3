import LinkAggregation.Proofs.Engine.Silences
import LinkAggregation.Proofs.Reachable.Exact

/-!
# When fallback comes into force

While a LAG is silent it remembers when this began, and its grants are in force exactly once the
fallback timeout has passed. This is the timeout that the LAG had when it fell silent: another one
that it gets in the meantime counts from the next silence on.
-/
namespace LinkAggregation.Engine
variable {e : Engine} {l : Nat} {lag : Lag} {q : Silence} {known : Nat → Option Silence}

/-! ## The silences of a run -/

/-- What is known of each silence after an action: a silence that lasts is the one that was known
before, and one that begins has the timeout of now. -/
def note (e : Engine) (known : Nat → Option Silence) : Nat → Option Silence :=
  fun l => if e.isSilent l then some ((known l).getD (e.silenceNow l)) else none

/-- The silence that each LAG is in after actions. -/
def silences [Clock] (e : Engine) (known : Nat → Option Silence) :
    List Action → Nat → Option Silence
  | [] => known
  | a :: rest => (e.act a).1.silences ((e.act a).1.note known) rest

/-- Every LAG that is silent bides the silence that is known. -/
structure Minds (e : Engine) (known : Nat → Option Silence) : Prop where
  silent : ∀ l, e.isSilent l = true → ∃ q, known l = some q ∧ e.Bides l q
  idle : ∀ l, e.isSilent l = false → known l = none

/-! ## Actions -/

section
variable (h : e.Stable)
include h

/-- No action evaluates before the end, and none both founds and dissolves LAGs. -/
theorem Coherent.operation_act (a : Action) :
    ∃ allowed, e.Operation allowed (e.act a) ∧ ¬ allowed .evaluation ∧
      (¬ allowed .founding ∨ ¬ allowed .dissolution) := by
  obtain hclearing | hforgets | ⟨name, fields, hset⟩ | ⟨name, frame, rfl⟩ | ⟨time, rfl⟩ :=
    h.act_cases a
  · exact ⟨_, hclearing, by simp [Kind.IsClearing], .inl (by simp [Kind.IsClearing])⟩
  · exact ⟨_, .of_course (h.course_of_forgets hforgets), by simp, .inl (by simp)⟩
  · rw [hset]
    exact ⟨_, h.operation_lagSet name fields, by simp [Kind.IsSetting],
      .inr (by simp [Kind.IsSetting])⟩
  · exact ⟨_, h.operation_receiveFrame name frame, by simp [Kind.IsHearing],
      .inl (by simp [Kind.IsHearing])⟩
  · exact ⟨_, h.operation_advanceTo time, by simp [Kind.IsPassing],
      .inl (by simp [Kind.IsPassing])⟩

/-- A LAG that is not silent waits for nothing. -/
theorem Coherent.rests (hidle : e.isSilent l = false) : e.Rests l := by
  cases hl : e.lags.get? l with
  | none =>
    refine ⟨fun lag hl' => by simp [hl] at hl', ?_⟩
    refine Option.eq_none_iff_forall_ne_some.mpr fun d hd => ?_
    obtain ⟨k, hlive, howns⟩ := h.owned (.fallback l) (by rw [due_nil, hd]; rfl)
    have hk : l = k := howns.unique (.inl rfl)
    simp [← hk, hl] at hlive
  | some lag =>
    have hsettled := (h.settled l lag hl id).fallback
    rw [isSilent_eq hl, Bool.not_eq_false'] at hidle
    simp only [Fallback.Settled, hidle, if_true] at hsettled
    refine ⟨fun lag' hl' => ?_, hsettled.2⟩
    rw [← Option.some.inj (hl.symm.trans hl'), hsettled.1]

/-- A LAG that is silent remembers it. -/
theorem Coherent.not_rests (hsilent : e.isSilent l = true) : ¬ e.Rests l := by
  intro hrests
  obtain ⟨lag, hl⟩ := live_of_isSilent hsilent
  have hsettled := (h.settled l lag hl id).fallback
  simp [Fallback.Settled, isIdle_of_isSilent hl hsilent, hrests.since lag hl] at hsettled

/-- Every action keeps it so. -/
theorem Coherent.minds_act (hm : e.Minds known) (a : Action) :
    (e.act a).1.Minds ((e.act a).1.note known) where
  silent := by
    intro l hsilent
    obtain ⟨allowed, hoperation, hevaluation, hlife⟩ := h.operation_act a
    rw [note, if_pos hsilent]
    cases hbefore : e.isSilent l with
    | true =>
      obtain ⟨q, hq, hbides⟩ := hm.silent l hbefore
      exact ⟨q, by rw [hq]; rfl, hoperation.bides hevaluation hsilent hlife hbides⟩
    | false =>
      rw [hm.idle l hbefore]
      obtain hrests | hbides := hoperation.rests hevaluation hsilent (h.rests hbefore)
      · exact absurd hrests ((h.act a).not_rests hsilent)
      · exact ⟨_, rfl, hbides⟩
  idle := by
    intro l hidle
    rw [note, hidle, if_neg Bool.false_ne_true]

/-- So does a run of actions. -/
theorem Coherent.minds_acts (hm : e.Minds known) (actions : List Action) :
    (e.acts actions).1.Minds (e.silences known actions) := by
  induction actions generalizing e known with
  | nil => exact hm
  | cons a rest ih =>
    rw [acts_cons]
    exact ih (h.act a) (h.minds_act hm a)

end

/-! ## Reachable engines -/

/-- Fallback of every LAG waits for as long as the LAG is known to be silent. -/
structure WaitsOut (e : Engine) (known : Nat → Option Silence) : Prop where
  /-- While a LAG is silent, its grants are in force exactly once the timeout has passed that it had
  when it fell silent. -/
  silent : ∀ l lag, e.lags.get? l = some lag → e.isSilent l = true → ∃ q, known l = some q ∧
    lag.fallback.since = some q.since ∧ (lag.fallback.active = true ↔ q.since + q.timeout ≤ e.now)
  /-- Otherwise nothing is remembered or in force. -/
  idle : ∀ l lag, e.lags.get? l = some lag → e.isSilent l = false → lag.fallback = {}

theorem Coherent.waitsOut (h : e.Stable) (hm : e.Minds known) : e.WaitsOut known where
  silent := by
    intro l lag hl hsilent
    obtain ⟨q, hq, hbides⟩ := hm.silent l hsilent
    obtain ⟨lag', hl', hsince⟩ := hbides.since
    obtain rfl : lag = lag' := Option.some.inj (hl.symm.trans hl')
    have htimed := (h.sound l lag hl).fallback
    rw [due_nil] at htimed
    have harmed := htimed.armed
    rw [hsince, Option.isSome_some, Bool.true_and] at harmed
    refine ⟨q, hq, hsince, ?_⟩
    cases hactive : lag.fallback.active with
    | true =>
      rw [hactive] at harmed
      simpa using hbides.elapsed (by simpa using harmed)
    | false =>
      -- The timer still runs, so that the wait is not over.
      rw [hactive] at harmed
      obtain ⟨d, hd⟩ := Option.isSome_iff_exists.mp harmed
      have hlt := (htimed.due d hd).1
      rw [hbides.armed d hd] at hlt
      simpa using hlt
  idle := by
    intro l lag hl hidle
    have hsettled := (h.settled l lag hl id).fallback
    rw [isSilent_eq hl, Bool.not_eq_false'] at hidle
    simp only [Fallback.Settled, hidle, if_true] at hsettled
    exact hsettled.1

/-- In range the silences do not depend on the clock. -/
theorem silences_exact [Clock] (hf : e.Fits) (h : e.Stable) {actions : List Action}
    (hactions : ∀ time, Action.advanceTo time ∈ actions → time ≤ lastClock) :
    e.silences known actions = @silences .exact e known actions := by
  induction actions generalizing e known with
  | nil => simp only [silences]
  | cons a rest ih =>
    obtain ⟨ha, hrest⟩ := clock_cons hactions
    have hlater : ∀ known, (@act .exact e a).1.silences known rest =
        @silences .exact (@act .exact e a).1 known rest := fun _ => ih (hf.act h ha) (h.act a) hrest
    simp only [silences, act_exact hf h ha, hlater]

/-- Whatever has been asked of an engine, as long as its clock has stayed in range the fallback of
every LAG has waited for the timeout that the LAG had when it fell silent. -/
theorem waitsOut_reached [Clock] (system : SystemIdentity) (maxMembers : Nat) (connected : Bool)
    (requests : List Request)
    (h : ∀ time, Request.advanceTo time ∈ requests → time ≤ lastClock) :
    let begin := Engine.new system maxMembers connected
    (reached system maxMembers connected requests).WaitsOut
      (begin.silences (fun _ => none) (begin.runActions requests)) := by
  intro begin
  have hstable : begin.Stable := stable_new system maxMembers connected
  have hfits : begin.Fits := fits_new system maxMembers connected
  have hminds : begin.Minds fun _ => none :=
    ⟨fun l hsilent => by simp [begin, isSilent] at hsilent, fun _ _ => rfl⟩
  have hend := hstable.minds_acts hminds (@runActions .exact begin requests)
  rw [@acts_runActions .exact] at hend
  rw [reached_exact h, runActions_exact h hfits hstable,
    silences_exact hfits hstable (clock_runActions h)]
  exact (stable_reached system maxMembers connected requests).waitsOut hend

/-- A LAG falls silent, and then its timeout is made shorter. -/
def shortened : List Request :=
  [.apply .lag ⟨"PortChannel1", .set, [("fallback", "true"), ("fallback_timeout", "20")]⟩,
    .apply .member ⟨"PortChannel1|Ethernet0", .set, []⟩,
    .apply .port ⟨"Ethernet0", .set, [("admin_status", "up"), ("oper_status", "up")]⟩,
    .advanceTo 3000, .apply .lag ⟨"PortChannel1", .set, [("fallback_timeout", "5")]⟩,
    .advanceTo 8000]

/-- Its grants come into force when the timeout is over that it had. -/
theorem waitsOut_shortened :
    let begin := Engine.new {} 8 true
    let requests := shortened ++ [.advanceTo 22999, .advanceTo 23000]
    let e := @reached .wrapping {} 8 true requests
    (∀ time, Request.advanceTo time ∈ requests → time ≤ lastClock) ∧ e.isSilent 0 = true ∧
      (e.lags.get? 0).map (·.fallback) = some { since := some 3000, active := true } ∧
      e.WaitsOut (@silences .wrapping begin (fun _ => none)
        (@runActions .wrapping begin requests)) := by
  intro begin requests e
  have hclock : ∀ time, Request.advanceTo time ∈ requests → time ≤ lastClock :=
    clock_of_all (by decide +kernel)
  exact ⟨hclock, by decide +kernel, by decide +kernel,
    @waitsOut_reached .wrapping {} 8 true requests hclock⟩

/-- It has been silent for as long as its timeout is now, and no grants are in force. -/
theorem waiting_shortened :
    let begin := Engine.new {} 8 true
    let e := reached {} 8 true shortened
    (begin.silences (fun _ => none) (begin.runActions shortened) 0).map (·.since) = some 3000 ∧
      e.isSilent 0 = true ∧
      (e.lags.get? 0).map (fun lag => (lag.settings.fallbackTimeoutMs, lag.fallback.active)) =
        some (5000, false) ∧ 3000 + 5000 ≤ e.now := by
  decide +kernel

end LinkAggregation.Engine
