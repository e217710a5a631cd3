import LinkAggregation.Proofs.Engine.Progress

/-!
# What the evaluations make of the seats

However often a LAG is evaluated at the end of an action, only the first time counts. A member that
waits after that has waited all along, or has just begun to; one that is attached has been so, or
its wait is over. A side that is out of sync keeps its flag and its deadline, or is timed from now
on.
-/
namespace LinkAggregation

/-! ## The mux machine -/

namespace Mux
variable {slot now : Nat} {static : Bool} {p : Protocol} {t : Timers}

/-- Only a detached machine begins to wait, and then nothing takes it further. -/
theorem next_enter_waiting (hmux : p.mux ≠ .waiting)
    (hnext : next p.mux (input p false) = .waiting) :
    next (enter slot .waiting p t now).1.mux (input (enter slot .waiting p t now).1 false) =
      (enter slot .waiting p t now).1.mux := by
  cases hstate : p.mux with
  | detached =>
    have heligible : p.selection.isEligible = true := by
      refine eq_true_of_ne_false fun hnot => ?_
      simp [next, input, hstate, hnot] at hnext
    simp [next, input, enter, heligible]
  | waiting => exact absurd hstate hmux
  | attached =>
    cases hselected : p.selection.isSelected <;> cases hsync : p.partner.state.sync <;>
      simp [next, input, hstate, hselected, hsync] at hnext
  | collectingDistributing =>
    cases hselected : p.selection.isSelected <;> cases hsync : p.partner.state.sync <;>
      simp [next, input, hstate, hselected, hsync] at hnext

/-- A machine that comes to wait begins a full wait. -/
theorem begins_of_settle (hmux : p.mux ≠ .waiting) {steps : Nat}
    (h : (settle slot false now steps p t).1.mux = .waiting) :
    (settle slot false now steps p t).1.ready = false ∧
      (settle slot false now steps p t).2.deadline? (.waitWhile slot) =
        some (now + aggregateWait) := by
  induction steps generalizing p t with
  | zero => exact absurd h hmux
  | succ steps ih =>
    simp only [settle] at h ⊢
    split at h
    · exact absurd h hmux
    · next hstep =>
      rw [if_neg hstep]
      by_cases hnext : next p.mux (input p false) = .waiting
      · rw [hnext, settle_of_next_eq (next_enter_waiting hmux hnext)]
        simp [enter]
      · refine ih ?_ h
        cases hs : next p.mux (input p false) <;> simp_all [enter]

/-- A machine that does not stop waiting is left alone. -/
theorem waits_of_settle (hmux : p.mux = .waiting)
    (h : (settle slot false now 4 p t).1.mux = .waiting) :
    settle slot false now 4 p t = (p, t) := by
  refine settle_of_next_eq ?_ 4 t
  -- Whoever stops waiting does not come back to it, for selection stays as it is.
  by_contra hnext
  cases hselection : p.selection <;> cases hready : p.ready <;>
    cases hsync : p.partner.state.sync <;>
    simp [settle, next, input, enter, hmux, hselection, hready, hsync, Selection.isEligible,
      Selection.isSelected] at h hnext

/-- A machine attaches when the wait is over. -/
theorem attached_of_settle {steps : Nat}
    (h : (settle slot false now steps p t).1.mux = .attached ∨
      (settle slot false now steps p t).1.mux = .collectingDistributing) :
    (p.mux = .attached ∨ p.mux = .collectingDistributing) ∨
      p.mux = .waiting ∧ p.ready = true := by
  induction steps generalizing p t with
  | zero => exact .inl h
  | succ steps ih =>
    simp only [settle] at h
    split at h
    · exact .inl h
    · have hentered := ih h
      cases hstate : p.mux with
      | detached =>
        -- From here the machine can at most come to wait, and that wait is not over.
        cases heligible : p.selection.isEligible <;>
          simp [next, input, enter, hstate, heligible] at hentered
      | waiting =>
        refine .inr ⟨rfl, eq_true_of_ne_false fun hready => ?_⟩
        cases heligible : p.selection.isEligible <;>
          simp [next, input, enter, hstate, heligible, hready] at hentered
      | attached => exact .inl (.inl rfl)
      | collectingDistributing => exact .inl (.inr rfl)

/-- No wait is over for a step of the machine. -/
theorem ready_of_settle {steps : Nat} (h : (settle slot static now steps p t).1.ready = true) :
    p.ready = true := by
  induction steps generalizing p t with
  | zero => exact h
  | succ steps ih =>
    simp only [settle] at h
    split at h
    · exact h
    · have hentered := ih h
      cases hs : next p.mux (input p static) <;> simp_all [enter]

end Mux

/-! ## One evaluation -/

/-- What an evaluation makes of a seat. It finds the member out of sync on some sides. -/
structure Seat.Evaluated (now : Nat) (suspect : Churn.Side → Bool) (s s' : Seat) : Prop where
  interface : s'.interface = s.interface
  group : s'.group = s.group
  dynamic : s'.dynamic = s.dynamic
  waits : s.dynamic = true → s.mux = .waiting → s'.mux = .waiting →
    s'.rung .wait = s.rung .wait ∧ s'.due .wait = s.due .wait
  begins : s.dynamic = true → s.mux ≠ .waiting → s'.mux = .waiting →
    s'.rung .wait = false ∧ s'.due .wait = some (now + Mux.aggregateWait)
  attached : s.dynamic = true → s'.mux = .attached ∨ s'.mux = .collectingDistributing →
    (s.mux = .attached ∨ s.mux = .collectingDistributing) ∨
      s.mux = .waiting ∧ s.rung .wait = true
  churn : s.dynamic = true → ∀ side, suspect side = true →
    s'.rung (.churn side) = s.rung (.churn side) ∧
      s'.due (.churn side) =
        if s.rung (.churn side) then s.due (.churn side)
        else some ((s.due (.churn side)).getD (now + Churn.detectionTime))
  quiet : s.dynamic = false → ∀ a, s'.rung a = true → s.rung a = true

namespace Evaluation
variable {ev : Evaluation} {selection : Selection} {slot : Nat} {i : Interface} {t : Timers}

theorem muxed_eq_settle (hd : ev.dynamic = true) (slot : Nat) (t : Timers) (p : Protocol) :
    ev.muxed selection p =
      Mux.withFlags (Mux.settle slot false ev.now 4 { p with selection } t).1 := by
  simp only [muxed, Mux.run, hd, Bool.not_true, Bool.false_eq_true, if_false]
  rw [Mux.settle_fst_eq slot ev.now 4 _ {} t]

theorem flag_muxed (side : Churn.Side) :
    side.flag (ev.muxed selection i.protocol) = side.flag i.protocol :=
  (muxed_keeps side.flag (fun _ _ _ _ => by cases side <;> rfl) i.protocol).trans
    (by cases side <;> rfl)

theorem flag_result (side : Churn.Side) :
    side.flag (ev.result selection i).protocol =
      (side.flag i.protocol &&
        (!ev.dynamic || Churn.isSuspect i.isEnabled side (ev.muxed selection i.protocol))) := by
  have hmachined : side.flag (ev.result selection i).protocol =
      side.flag (ev.machined selection i) :=
    result_machined ev selection i side.flag fun _ _ _ => by cases side <;> rfl
  rw [hmachined, ← flag_muxed]
  cases side <;> rfl

theorem isSuspect_result (side : Churn.Side) :
    Churn.isSuspect (ev.result selection i).isEnabled side (ev.result selection i).protocol =
      Churn.isSuspect i.isEnabled side (ev.muxed selection i.protocol) := by
  rw [result_isEnabled, result_machined ev selection i (Churn.isSuspect i.isEnabled side)
    fun _ _ _ => by cases side <;> rfl]
  cases side <;> rfl

theorem deadline?_member_suspect (hd : ev.dynamic = true) {side : Churn.Side}
    (hsuspect : Churn.isSuspect i.isEnabled side (ev.muxed selection i.protocol) = true) :
    (ev.member slot selection i t).2.1.deadline? (side.timer slot) =
      if side.flag i.protocol then t.deadline? (side.timer slot)
      else some ((t.deadline? (side.timer slot)).getD (ev.now + Churn.detectionTime)) := by
  have hflag : side.flag (ev.afterPeriodic slot selection i t).1 = side.flag i.protocol := by
    rw [afterPeriodic_fst, ← flag_muxed]
    cases side <;> rfl
  have hsame : Churn.isSuspect i.isEnabled side (ev.afterPeriodic slot selection i t).1 = true := by
    rw [afterPeriodic_fst, ← hsuspect]
    cases side <;> rfl
  have hdue : (ev.afterPeriodic slot selection i t).2.deadline? (side.timer slot) =
      t.deadline? (side.timer slot) := by
    rw [deadline?_afterPeriodic_of_ne (by cases side <;> simp [Churn.Side.timer]),
      deadline?_afterMux_of_ne (by cases side <;> simp [Churn.Side.timer])]
  rw [deadline?_member_churn, afterChurn, if_pos hd, Churn.deadline?_update, if_pos hsame, hflag,
    hdue]

theorem ready_result :
    (ev.result selection i).protocol.ready = (ev.muxed selection i.protocol).ready :=
  result_machined ev selection i Protocol.ready fun _ _ _ => rfl

/-- In a static LAG no alarm begins to ring. -/
theorem rung_of_rung_result (hd : ev.dynamic = false) {a : Alarm}
    (ha : a.rung (ev.result selection i).protocol = true) : a.rung i.protocol = true := by
  cases a with
  | wait =>
    have hready : (ev.muxed selection i.protocol).ready = true := ready_result.symm.trans ha
    simp only [muxed, Mux.run, hd, Bool.not_false, if_true] at hready
    exact Mux.ready_of_settle (p := { i.protocol with selection }) hready
  | churn side =>
    have hflag : side.flag (ev.result selection i).protocol = true := ha
    rw [flag_result, Bool.and_eq_true] at hflag
    exact hflag.1

variable (ev) in
/-- A member and its timers before and after an evaluation. -/
theorem evaluated_result {lag lag' : Lag} {t' : Timers} (hname : lag'.name = lag.name)
    (hmode : lag.isDynamic = ev.dynamic) (hmode' : lag'.isDynamic = ev.dynamic)
    (ht' : ∀ a : Alarm, t'.deadline? (a.timer slot) =
      (ev.member slot selection i t).2.1.deadline? (a.timer slot)) :
    (i.seat lag t slot).Evaluated ev.now
      (fun side => Churn.isSuspect (ev.result selection i).isEnabled side
        (ev.result selection i).protocol)
      ((ev.result selection i).seat lag' t' slot) := by
  let p : Protocol := { i.protocol with selection }
  let r := Mux.settle slot false ev.now 4 p t
  have hmux : ev.dynamic = true → (ev.result selection i).protocol.mux = r.1.mux := by
    intro hd
    rw [result_mux, muxed_eq_settle hd slot t]
    rfl
  have hready : ev.dynamic = true → (ev.result selection i).protocol.ready = r.1.ready := by
    intro hd
    rw [ready_result, muxed_eq_settle hd slot t]
    rfl
  have hwait : ev.dynamic = true →
      t'.deadline? (.waitWhile slot) = r.2.deadline? (.waitWhile slot) := by
    intro hd
    have hdue := (ht' .wait).trans deadline?_member_waitWhile
    rw [afterMux_snd, hd, Bool.not_true] at hdue
    exact hdue
  have hdynamic : (i.seat lag t slot).dynamic = ev.dynamic := hmode
  refine ⟨result_name ev selection i, hname, hmode'.trans hmode.symm, ?_, ?_, ?_, ?_, ?_⟩
  · intro hd hbefore hafter
    rw [hdynamic] at hd
    have hsame : r = (p, t) :=
      Mux.waits_of_settle hbefore ((hmux hd).symm.trans hafter)
    have hkept : r.1.ready = i.protocol.ready ∧
        r.2.deadline? (.waitWhile slot) = t.deadline? (.waitWhile slot) := by
      rw [hsame]
      exact ⟨rfl, rfl⟩
    exact ⟨(hready hd).trans hkept.1, (hwait hd).trans hkept.2⟩
  · intro hd hbefore hafter
    rw [hdynamic] at hd
    have hbegins : r.1.ready = false ∧
        r.2.deadline? (.waitWhile slot) = some (ev.now + Mux.aggregateWait) :=
      Mux.begins_of_settle (p := p) hbefore ((hmux hd).symm.trans hafter)
    exact ⟨(hready hd).trans hbegins.1, (hwait hd).trans hbegins.2⟩
  · intro hd hafter
    rw [hdynamic] at hd
    have hattached : r.1.mux = .attached ∨ r.1.mux = .collectingDistributing := by
      rw [← hmux hd]
      exact hafter
    exact Mux.attached_of_settle (p := p) hattached
  · intro hd side hsuspect
    rw [hdynamic] at hd
    rw [isSuspect_result] at hsuspect
    refine ⟨(flag_result side).trans ?_, (ht' (.churn side)).trans ?_⟩
    · rw [hsuspect, Bool.or_true, Bool.and_true]
      rfl
    · exact deadline?_member_suspect hd hsuspect
  · intro hd a ha
    exact rung_of_rung_result (hdynamic.symm.trans hd) ha

end Evaluation

namespace Engine
variable {e m : Engine} {s : Step} {l slot : Nat} {lag : Lag} {i : Interface}

/-- The sides of a member that are watched and out of sync. -/
def suspects (i : Interface) (side : Churn.Side) : Bool :=
  Churn.isSuspect i.isEnabled side i.protocol

/-- An evaluation of the LAG reaches the member. -/
theorem Linked.evaluated (h : e.Linked) (hi : e.interfaces.get? slot = some i)
    (hlag : i.lag = some l) (hl : e.lags.get? l = some lag) :
    (i.seat lag e.timers slot).Evaluated e.now (suspects (e.after l lag slot i))
      ((e.after l lag slot i).seat (e.lagAfter l lag) (e.evaluate l).1.timers slot) := by
  have hslot : slot ∈ lag.members := (h.members l lag hl slot).mpr ⟨i, hi, hlag⟩
  obtain ⟨t, ht, hdue⟩ := deadline?_evaluate hl (h.nodup l lag hl) hslot hi
  have hseat : (e.regrant l lag slot i).seat lag t slot = i.seat lag e.timers slot := by
    refine Interface.seat_congr (Interface.withGrant_name i _) rfl rfl ?_
    have hmux : (e.regrant l lag slot i).protocol.mux = i.protocol.mux :=
      Interface.withGrant_keeps (·.protocol.mux) (fun _ _ _ => rfl) i _
    have hrung : ∀ a : Alarm, a.rung (e.regrant l lag slot i).protocol = a.rung i.protocol :=
      fun a => Interface.withGrant_keeps (fun j => a.rung j.protocol)
        (fun _ _ _ => by obtain _ | _ | _ := a <;> rfl) i _
    simp only [Protocol.alarms, hmux, hrung, ht _ (Alarm.interface?_timer _ _)]
  rw [← hseat]
  exact (e.evaluation lag).evaluated_result rfl rfl rfl
    fun a => hdue _ (a.interface?_timer slot)

/-! ## All evaluations of an action -/

/-- A settled LAG is spared by all evaluations. -/
theorem Course.spares_settled (hc : m.Evaluations s) (h : m.Linked)
    (hl : m.lags.get? l = some lag) (hsettled : m.Settled l lag) : Spares l m s := by
  induction hc with
  | refl e => exact .refl l e
  | @step e c s s' _ hc hm _ ih =>
    subst hc
    cases hm with
    | shift hs =>
      cases hs with
      | turn _ _ _ ht => cases ht
    | evaluate k =>
      by_cases hk : l = k
      · subst hk
        rw [hsettled.evaluate_eq hl] at ih ⊢
        exact ih h hl hsettled
      · have hspares := (h.apart_evaluate hk).spares
        have hstays : (e.evaluate k).1.Settled l lag := by
          have hslot : ∀ slot ∈ lag.members, e.IsMember l slot := fun slot =>
            (h.members l lag hl slot).mp
          have hw := h.within_evaluate k
          refine hsettled.congr (members_congr rfl fun slot hmem => hspares.members slot
            (hslot slot hmem)) ?_ hw.maxMembers (hspares.timers _ (.inl rfl))
            fun key slot hmem hkey => hspares.timers key (.inr ⟨slot, hkey, hslot slot hmem⟩)
          simp only [evaluation, hw.system, hw.now, hw.connected]
        exact hspares.trans (ih (h.evaluate k) (hspares.lag.trans hl) hstays)

/-- The member in a slot before the evaluations, and what they make of its seat. -/
structure Reseated (m : Engine) (l slot : Nat) (i' : Interface) (s' : Seat) (i : Interface)
    (lag : Lag) : Prop where
  known : m.interfaces.get? slot = some i
  member : i.lag = some l
  live : m.lags.get? l = some lag
  enabled : i'.isEnabled = i.isEnabled
  evaluated : (i.seat lag m.timers slot).Evaluated m.now (suspects i') s'

/-- If nothing else reaches the LAG, this is what its evaluation makes of the member. -/
theorem Linked.reseated_evaluate {e' : Engine} (h : e.Linked) (h' : e'.Linked)
    (hspares : Spares l (e.evaluate l).1 (e', [])) {i' : Interface} {lag' : Lag}
    (hi' : e'.interfaces.get? slot = some i') (hlag' : i'.lag = some l)
    (hl' : e'.lags.get? l = some lag') :
    ∃ i lag, e.Reseated l slot i' (i'.seat lag' e'.timers slot) i lag := by
  have hslot : slot ∈ lag'.members := (h'.members l lag' hl' slot).mpr ⟨i', hi', hlag'⟩
  have hl : (e.evaluate l).1.lags.get? l = some lag' := hspares.lag.symm.trans hl'
  have hmember : (e.evaluate l).1.IsMember l slot :=
    ((h.evaluate l).members l lag' hl slot).mp hslot
  obtain ⟨i, hi, hlag⟩ := ((h.within_evaluate l).isMember_iff l slot).mp hmember
  obtain ⟨lag, hlive, hslot'⟩ := h.lag_of_member hi hlag
  have hafter : (e.evaluate l).1.interfaces.get? slot = some (e.after l lag slot i) := by
    rw [get?_evaluate hlive (h.nodup l lag hlive) hslot', hi]
    rfl
  obtain rfl : e.after l lag slot i = i' :=
    Option.some.inj (hafter.symm.trans ((hspares.members slot hmember).symm.trans hi'))
  obtain rfl : e.lagAfter l lag = lag' :=
    Option.some.inj ((get?_lags_evaluate hlive).symm.trans hl)
  refine ⟨i, lag, hi, hlag, hlive, ?_, ?_⟩
  · simp [after, regrant]
  · have hseat : (e.after l lag slot i).seat (e.lagAfter l lag) e'.timers slot =
        (e.after l lag slot i).seat (e.lagAfter l lag) (e.evaluate l).1.timers slot := by
      refine Interface.seat_congr rfl rfl rfl ?_
      have hdue : ∀ a : Alarm, e'.timers.deadline? (a.timer slot) =
          (e.evaluate l).1.timers.deadline? (a.timer slot) := fun a =>
        hspares.timers _ (.inr ⟨slot, a.interface?_timer slot, hmember⟩)
      simp only [Protocol.alarms, hdue]
    rw [hseat]
    exact h.evaluated hi hlag hlive

/-- All evaluations together are to a member like one. -/
theorem Course.reseated (hc : m.Evaluations s) (h : m.Linked) (hstable : s.1.Stable)
    {i' : Interface} {lag' : Lag} (hi' : s.1.interfaces.get? slot = some i')
    (hlag' : i'.lag = some l) (hl' : s.1.lags.get? l = some lag') :
    ∃ i lag, m.Reseated l slot i' (i'.seat lag' s.1.timers slot) i lag := by
  induction hc with
  | refl e =>
    refine h.reseated_evaluate h ?_ hi' hlag' hl'
    rw [(hstable.settled l lag' hl' id).evaluate_eq hl']
    exact .refl l e
  | @step e c s s' _ hc hm hrest ih =>
    subst hc
    cases hm with
    | shift hs =>
      cases hs with
      | turn _ _ _ ht => cases ht
    | evaluate k =>
      have hreseated := ih (h.evaluate k) hstable hi' hl'
      by_cases hk : l = k
      · subst hk
        cases hl : e.lags.get? l with
        | none =>
          rw [evaluate_of_not_live hl] at hreseated
          exact hreseated
        | some lag =>
          have hspares := hrest.spares_settled (h.evaluate l) (get?_lags_evaluate hl)
            (settled_evaluate hl (h.nodup l lag hl))
          refine h.reseated_evaluate hstable.linked ?_ hi' hlag' hl'
          exact ⟨hspares.lag, hspares.members, hspares.timers,
            fun _ hx => absurd hx List.not_mem_nil⟩
      · obtain ⟨i, lag, hknown, hmember, hlive, henabled, hevaluated⟩ := hreseated
        have hspares := (h.apart_evaluate hk).spares
        have hslot : e.IsMember l slot :=
          ((h.within_evaluate k).isMember_iff l slot).mp ⟨i, hknown, hmember⟩
        refine ⟨i, lag, (hspares.members slot hslot).symm.trans hknown, hmember,
          hspares.lag.symm.trans hlive, henabled, ?_⟩
        have hseat : i.seat lag (e.evaluate k).1.timers slot = i.seat lag e.timers slot := by
          refine Interface.seat_congr rfl rfl rfl ?_
          have hdue : ∀ a : Alarm, (e.evaluate k).1.timers.deadline? (a.timer slot) =
              e.timers.deadline? (a.timer slot) := fun a =>
            hspares.timers _ (.inr ⟨slot, a.interface?_timer slot, hslot⟩)
          simp only [Protocol.alarms, hdue]
        rw [now_evaluate, hseat] at hevaluated
        exact hevaluated

end Engine
end LinkAggregation
