import LinkAggregation.Proofs.Engine.Receipts
import LinkAggregation.Proofs.Reachable.Advertisement

/-!
# The books of an interface

As long as an interface is known its counters say what came to it and what was sent on it: so many
frames, LACP messages and marker responses. When it is forgotten the books are closed, and if it
becomes known again they begin anew.
-/
namespace LinkAggregation.Engine
variable {e : Engine} {name : String} {i : Interface}

/-- What came to an interface and what was sent on it in actions, after a first tally. What was
before it was known does not count. -/
def tallied (e : Engine) (name : String) (t : Tally) : List Action → Tally
  | [] => t
  | a :: rest =>
    (e.act a).1.tallied name
      (if ((e.act a).1.interface? name).isSome then
        t + ⟨framesOn name a, sentOn name (e.act a).2, answersOn name (e.act a).2⟩
      else {}) rest

/-- The counters agree with the tally after every action, if they did before. -/
theorem Coherent.tally_acts (h : e.Stable) (name : String) (actions : List Action) :
    ((e.acts actions).1.countersOn name).tally =
      e.tallied name (e.countersOn name).tally actions := by
  induction actions generalizing e with
  | nil => rfl
  | cons a rest ih =>
    rw [acts_cons, next_fst, ih (h.act a), tallied]
    congr 1
    cases hknown : (e.act a).1.interface? name with
    | none =>
      have hnone : (e.act a).1.countersOn name = {} := by simp [countersOn, hknown]
      rw [hnone]
      rfl
    | some i => exact (h.counts_act a (by simp [hknown])).tally

/-- Whoever is known before and after an action has counted at least as much after it. -/
theorem Coherent.grows_act {i' : Interface} (h : e.Stable) (a : Action)
    (hi : e.interface? name = some i) (hi' : (e.act a).1.interface? name = some i') :
    i.counters.AtMost i'.counters := by
  have hknown : (e.act a).1.interface? name ≠ none := by simp [hi']
  have hgrows := (h.counts_act a hknown).grows
  simpa [countersOn, hi, hi'] using hgrows

/-- After any actions of a run of an engine with somebody to receive the effects, the books of an
interface that is known are right, and they stay so: whatever frame comes next is counted once and
accounted for, whatever is done next takes no counter back, and nobody answers a marker but when a
frame comes. -/
theorem accounted_reached (system : SystemIdentity) (maxMembers : Nat) (requests : List Request)
    (n : Nat) :
    let begin := Engine.new system maxMembers true
    let past := (begin.runActions requests).take n
    let e := (begin.acts past).1
    ∀ name i, e.interface? name = some i →
      i.counters.tally = begin.tallied name {} past ∧
      (∀ frame, e.Accounted name i frame (e.receiveFrame name frame)) ∧
      (∀ a i', (e.act a).1.interface? name = some i' → i.counters.AtMost i'.counters) ∧
      ∀ a, (∀ interface frame, a ≠ .event (.frame interface frame)) →
        answers (e.act a).2 = [] := by
  intro begin past e name i hi
  have hnew : begin.Stable := stable_new system maxMembers true
  have h : e.Stable := hnew.acts past
  have hconnected : e.connected = true := (hnew.course_acts past).connected
  refine ⟨?_, h.accounted hconnected hi, fun a i' => h.grows_act a hi, fun a => h.unanswered_act⟩
  have htally := hnew.tally_acts name past
  rw [countersOn, show (begin.acts past).1.interface? name = some i from hi] at htally
  exact htally

/-- A member says what it is and answers a marker, and both are in its books. When the marker comes
once more, it is answered once more. -/
theorem accounted_reached_answer :
    let begin := Engine.new {} 8 true
    let frame := Frame.encodeMarker { transaction := 7 } {}
    let requests : List Request := [.apply .lag ⟨"PortChannel1", .set, []⟩,
      .apply .member ⟨"PortChannel1|Ethernet0", .set, []⟩,
      .apply .port ⟨"Ethernet0", .set, [("admin_status", "up"), ("oper_status", "up")]⟩,
      .receiveFrame "Ethernet0" frame]
    let e := (begin.acts ((begin.runActions requests).take 4)).1
    ∃ i, e.interface? "Ethernet0" = some i ∧ i.counters.tally = ⟨1, 1, 1⟩ ∧
      answers (e.receiveFrame "Ethernet0" frame).effects =
        [("Ethernet0", { kind := .response, transaction := 7 })] := by
  intro begin frame requests e
  have henabled : (e.interface? "Ethernet0").any (fun i => i.lag.isSome && i.isEnabled) = true := by
    decide +kernel
  obtain ⟨i, hi, hmember⟩ := (Option.any_eq_true _ _).mp henabled
  obtain ⟨htally, haccounted, -⟩ := accounted_reached {} 8 requests 4 "Ethernet0" i hi
  have hasked : i.Asked frame { transaction := 7 } := by
    rw [Bool.and_eq_true] at hmember
    exact ⟨hmember.1, hmember.2, Frame.decode_encodeMarker _ _, rfl⟩
  refine ⟨i, hi, htally.trans ?_, (haccounted frame).answered _ hasked⟩
  decide +kernel

end LinkAggregation.Engine
