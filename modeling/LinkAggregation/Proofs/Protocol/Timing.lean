import LinkAggregation.Proofs.Protocol.Truth

/-!
# The timers of a member

Which timers of a member run, and how long they may run, follows from its protocol state. `due`
gives the deadlines: those of the schedule, or, while several timers fire at once, also those that
have yet to fire.
-/
namespace LinkAggregation

/-- The receive machine waits for the partner. -/
def ReceiveState.isListening : ReceiveState → Bool
  | expired | current => true
  | _ => false

/-- How long the receive machine waits for the partner. -/
def Receive.patience (rate : Rate) (state : ReceiveState) : Nat :=
  if state == .expired || rate.isFast then shortTimeout else longTimeout

theorem Receive.patience_pos (rate : Rate) (state : ReceiveState) : 0 < patience rate state := by
  unfold patience
  split <;> decide

namespace Protocol

/-- The timers of a member fit its protocol state. -/
structure Timed (s : LagSettings) (excused : Prop) (now slot : Nat) (p : Protocol)
    (due : TimerKey → Option Nat) : Prop where
  heard : (due (.currentWhile slot)).isSome = p.receive.isListening
  patience : ∀ d, due (.currentWhile slot) = some d →
    now < d ∧ d ≤ now + Receive.patience s.rate p.receive
  waits : Mux.Waits (!s.mode.isDynamic) excused now p.mux p.ready (due (.waitWhile slot))
  paced : Evaluation.Paced now p.periodic (due (.periodic slot))
  churn : ∀ (side : Churn.Side) d, due (side.timer slot) = some d →
    side.flag p = false ∧ s.mode.isDynamic = true ∧ now < d ∧ d ≤ now + Churn.detectionTime

variable {s : LagSettings} {excused : Prop} {now slot : Nat} {p p' : Protocol} {t : Timers}
  {due due' : TimerKey → Option Nat}

/-- A fresh protocol state has no timers. -/
theorem timed_fresh (hdue : ∀ key : TimerKey, key.interface? = some slot → due key = none) :
    Timed s excused now slot {} due where
  heard := by rw [hdue _ rfl]; rfl
  patience := by rw [hdue _ rfl]; simp
  waits := by
    rw [hdue _ rfl]
    exact ⟨by simp, by simp, by simp, by simp⟩
  paced := by
    rw [hdue _ rfl]
    exact ⟨rfl, by simp⟩
  churn := by
    intro side d hd
    rw [hdue _ (by cases side <;> rfl)] at hd
    simp at hd

namespace Timed

/-- Only the states of the machines and the member's own deadlines matter. -/
theorem congr (h : Timed s excused now slot p due) (hreceive : p'.receive = p.receive)
    (hmux : p'.mux = p.mux) (hready : p'.ready = p.ready) (hperiodic : p'.periodic = p.periodic)
    (hflag : ∀ side : Churn.Side, side.flag p' = side.flag p)
    (hdue : ∀ key : TimerKey, key.interface? = some slot → due' key = due key) :
    Timed s excused now slot p' due' where
  heard := by rw [hdue _ rfl, hreceive]; exact h.heard
  patience := by rw [hdue _ rfl, hreceive]; exact h.patience
  waits := by rw [hdue _ rfl, hmux, hready]; exact h.waits
  paced := by rw [hdue _ rfl, hperiodic]; exact h.paced
  churn := by
    intro side
    rw [hdue _ (by cases side <;> rfl), hflag]
    exact h.churn side

/-- A member may be excused for more reasons. -/
theorem mono {excused' : Prop} (h : Timed s excused now slot p due)
    (hexcused : excused → excused') : Timed s excused' now slot p due :=
  { h with
    waits := { h.waits with
      waiting := fun hmux hready => (h.waits.waiting hmux hready).imp_right hexcused } }

/-- Only the rate and whether the LAG is dynamic matter of its settings. -/
theorem of_settings {new : LagSettings} (h : Timed s excused now slot p due)
    (hdynamic : new.mode.isDynamic = s.mode.isDynamic) (hrate : new.rate = s.rate) :
    Timed new excused now slot p due where
  heard := h.heard
  patience := by rw [hrate]; exact h.patience
  waits := by rw [hdynamic]; exact h.waits
  paced := h.paced
  churn := by rw [hdynamic]; exact h.churn

/-- A step of the receive machine that sets its own timer right. -/
theorem listen {new : LagSettings} (h : Timed s excused now slot p due)
    (hdynamic : new.mode.isDynamic = s.mode.isDynamic) (hmux : p'.mux = p.mux)
    (hready : p'.ready = p.ready) (hperiodic : p'.periodic = p.periodic)
    (hflag : ∀ side : Churn.Side, side.flag p' = side.flag p)
    (hdue : ∀ key : TimerKey, key ≠ .currentWhile slot → due' key = due key)
    (hheard : due' (.currentWhile slot) =
      if p'.receive.isListening then some (now + Receive.patience new.rate p'.receive) else none) :
    Timed new excused now slot p' due' where
  heard := by
    rw [hheard]
    cases p'.receive.isListening <;> rfl
  patience := by
    have hpos := Receive.patience_pos new.rate p'.receive
    intro d hd
    rw [hheard] at hd
    split at hd
    · cases hd
      omega
    · simp at hd
  waits := by rw [hdynamic, hdue _ (by simp), hmux, hready]; exact h.waits
  paced := by rw [hdue _ (by simp), hperiodic]; exact h.paced
  churn := by
    intro side
    rw [hdynamic, hdue _ (by cases side <;> simp [Churn.Side.timer]), hflag]
    exact h.churn side

/-- The clock moves and timers are due at once, but no timer is missed. -/
theorem later {now' : Nat} (h : Timed s excused now slot p due) (hnow : now ≤ now')
    (hsome : ∀ key : TimerKey, key.interface? = some slot →
      (due' key).isSome = (due key).isSome)
    (hdue : ∀ (key : TimerKey) d, key.interface? = some slot → due' key = some d →
      now' < d ∧ (d = now' + 1 ∨ due key = some d)) :
    Timed s excused now' slot p due' where
  heard := by rw [hsome _ rfl]; exact h.heard
  patience := by
    have hpos := Receive.patience_pos s.rate p.receive
    intro d hd
    obtain ⟨hlt, heq | hold⟩ := hdue _ d rfl hd
    · omega
    · have := h.patience d hold
      omega
  waits := by
    refine { h.waits with armed := ?_, waiting := ?_, due := ?_ }
    · rw [hsome _ rfl]
      exact h.waits.armed
    · rw [hsome _ rfl]
      exact h.waits.waiting
    · intro d hd
      obtain ⟨hlt, heq | hold⟩ := hdue _ d rfl hd
      · simp only [Mux.aggregateWait]
        omega
      · have := h.waits.due d hold
        omega
  paced := by
    refine ⟨by rw [hsome _ rfl]; exact h.paced.armed, fun d hd => ?_⟩
    obtain ⟨hlt, heq | hold⟩ := hdue _ d rfl hd
    · have hrunning : p.periodic.isRunning = true := by
        rw [← h.paced.armed, ← hsome _ rfl, hd]
        rfl
      have hinterval : 1 ≤ (Periodic.interval? p.periodic).getD 0 := by
        cases hp : p.periodic
        · simp [hp] at hrunning
        · simp [Periodic.interval?, Periodic.fastInterval]
        · simp [Periodic.interval?, Periodic.slowInterval]
      omega
    · have := h.paced.due d hold
      omega
  churn := by
    intro side d hd
    have hkey : (side.timer slot).interface? = some slot := by cases side <;> rfl
    obtain ⟨d', hd'⟩ := Option.isSome_iff_exists.mp (hsome _ hkey ▸ Option.isSome_of_eq_some hd)
    obtain ⟨hflag, hdynamic, -⟩ := h.churn side d' hd'
    obtain ⟨hlt, heq | hold⟩ := hdue _ d hkey hd
    · refine ⟨hflag, hdynamic, hlt, ?_⟩
      simp only [Churn.detectionTime]
      omega
    · have := (h.churn side d hold).2.2.2
      exact ⟨hflag, hdynamic, hlt, by omega⟩

end Timed

/-! ## Steps of the receive machine -/

theorem timed_portDisabled (hmux : s.mode.isDynamic = false → p.mux ≠ .waiting)
    (hexcused : excused) :
    Timed s excused now slot (Receive.portDisabled slot p t).1
      (Receive.portDisabled slot p t).2.deadline? where
  heard := by simp [Receive.portDisabled, TimerKey.interface?, ReceiveState.isListening]
  patience := by simp [Receive.portDisabled, TimerKey.interface?]
  waits := by
    refine ⟨by simp [Receive.portDisabled, TimerKey.interface?], fun _ _ => .inr hexcused, ?_,
      by simp [Receive.portDisabled, TimerKey.interface?]⟩
    intro hstatic
    exact hmux (by simpa using hstatic)
  paced := by
    refine ⟨by simp [Receive.portDisabled, TimerKey.interface?], ?_⟩
    simp [Receive.portDisabled, TimerKey.interface?]
  churn := by
    intro side
    cases side <;> simp [Receive.portDisabled, TimerKey.interface?, Churn.Side.timer]

theorem timed_lacpDisabled (hmux : p.mux ≠ .waiting) :
    Timed s excused now slot (Receive.lacpDisabled slot p t).1
      (Receive.lacpDisabled slot p t).2.deadline? where
  heard := by simp [Receive.lacpDisabled, TimerKey.interface?, ReceiveState.isListening]
  patience := by simp [Receive.lacpDisabled, TimerKey.interface?]
  waits := by
    refine ⟨by simp [Receive.lacpDisabled, TimerKey.interface?], fun h => absurd h hmux,
      fun _ => hmux, by simp [Receive.lacpDisabled, TimerKey.interface?]⟩
  paced := by
    refine ⟨by simp [Receive.lacpDisabled, TimerKey.interface?], ?_⟩
    simp [Receive.lacpDisabled, TimerKey.interface?]
  churn := by
    intro side
    cases side <;> simp [Receive.lacpDisabled, TimerKey.interface?, Churn.Side.timer]

namespace Timed

theorem enable (h : Timed s excused now slot p t.deadline?) :
    Timed s excused now slot (Receive.enable slot p s.mode s.rate t now).1
      (Receive.enable slot p s.mode s.rate t now).2.deadline? := by
  refine h.listen rfl rfl rfl rfl (fun side => by cases side <;> rfl) ?_ ?_
  · intro key hkey
    simp [Receive.enable, Receive.enterExpired, hkey]
  · simp [Receive.enable, Receive.enterExpired, ReceiveState.isListening, Receive.patience]

/-- A message of a heard partner keeps the machine waiting for the next one. -/
theorem record {own : Endpoint} {pdu : Lacpdu} (h : Timed s excused now slot p t.deadline?)
    (hsettings : p.actor = Receive.withSettings p.actor s.mode s.rate) :
    Timed s excused now slot (Receive.record slot p own pdu t now).1
      (Receive.record slot p own pdu t now).2.1.deadline? := by
  refine h.listen rfl rfl rfl rfl (fun side => by cases side <;> rfl) ?_ ?_
  · intro key hkey
    simp [Receive.record, hkey]
  · simp only [Receive.record, Timers.deadline?_arm, if_true, ReceiveState.isListening]
    rw [hsettings]
    rfl

/-- A receive machine that timed out waits again, or no longer. -/
theorem currentWhileExpired (h : Timed s excused now slot p due)
    (hlistening : p.receive.isListening = true)
    (hother : ∀ key : TimerKey, key ≠ .currentWhile slot → due' key = due key)
    (hidle : t.deadline? (.currentWhile slot) = none)
    (hdue : due' (.currentWhile slot) =
      (Receive.currentWhileExpired slot p t now).2.1.deadline? (.currentWhile slot)) :
    Timed s excused now slot (Receive.currentWhileExpired slot p t now).1 due' := by
  cases hr : p.receive with
  | current =>
    simp only [Receive.currentWhileExpired, hr] at hdue ⊢
    refine h.listen rfl rfl rfl rfl (fun side => by cases side <;> rfl) hother ?_
    rw [hdue]
    simp [Receive.enterExpired, ReceiveState.isListening, Receive.patience]
  | expired =>
    simp only [Receive.currentWhileExpired, hr] at hdue ⊢
    refine h.listen rfl rfl rfl rfl (fun side => by cases side <;> rfl) hother ?_
    rw [hdue, hidle]
    rfl
  | initial => simp [hr, ReceiveState.isListening] at hlistening
  | portDisabled => simp [hr, ReceiveState.isListening] at hlistening
  | defaulted => simp [hr, ReceiveState.isListening] at hlistening
  | lacpDisabled => simp [hr, ReceiveState.isListening] at hlistening

/-- New settings of a running machine restart its wait. -/
theorem rateChanged {new : LagSettings} (h : Timed s excused now slot p t.deadline?)
    (hdynamic : new.mode.isDynamic = s.mode.isDynamic) (hrunning : p.receive.isRunning = true) :
    Timed new excused now slot
      { p with actor := Receive.withSettings p.actor new.mode new.rate }
      (Receive.rateChanged slot
        { p with actor := Receive.withSettings p.actor new.mode new.rate } t now).deadline? := by
  refine h.listen hdynamic rfl rfl rfl (fun side => by cases side <;> rfl) ?_ ?_
  · intro key hkey
    cases hr : p.receive <;> simp [Receive.rateChanged, hkey]
  · have hheard := h.heard
    cases hr : p.receive with
    | current =>
      simp only [Receive.rateChanged, Timers.deadline?_arm, if_true, ReceiveState.isListening]
      rfl
    | expired => simp [Receive.rateChanged, ReceiveState.isListening, Receive.patience]
    | defaulted =>
      rw [hr] at hheard
      simpa [Receive.rateChanged, hr, ReceiveState.isListening] using hheard
    | initial => simp [hr, ReceiveState.isRunning] at hrunning
    | portDisabled => simp [hr, ReceiveState.isRunning] at hrunning
    | lacpDisabled => simp [hr, ReceiveState.isRunning] at hrunning

/-! ## Other timers -/

/-- The wait before attaching is over. -/
theorem waitWhileFired (h : Timed s excused now slot p due)
    (hother : ∀ key : TimerKey, key ≠ .waitWhile slot → due' key = due key)
    (hdue : due' (.waitWhile slot) = none) :
    Timed s excused now slot { p with ready := true } due' where
  heard := by rw [hother _ (by simp)]; exact h.heard
  patience := by rw [hother _ (by simp)]; exact h.patience
  waits := by
    rw [hdue]
    exact ⟨by simp, by simp, h.waits.dynamic, by simp⟩
  paced := by rw [hother _ (by simp)]; exact h.paced
  churn := by
    intro side
    rw [hother _ (by cases side <;> simp [Churn.Side.timer])]
    exact fun d hd => by cases side <;> exact h.churn _ d hd

/-- A side that was timed is flagged, and not timed any more. -/
theorem churnFired (h : Timed s excused now slot p due) (side : Churn.Side)
    (hother : ∀ key : TimerKey, key ≠ side.timer slot → due' key = due key)
    (hdue : due' (side.timer slot) = none) :
    Timed s excused now slot (side.withFlag p true) due' := by
  have hkeep : ∀ key : TimerKey, (∀ side : Churn.Side, key ≠ side.timer slot) →
      due' key = due key := fun key hkey => hother key (hkey side)
  have hheard := hkeep (.currentWhile slot) (by rintro (_ | _) <;> simp [Churn.Side.timer])
  have hwait := hkeep (.waitWhile slot) (by rintro (_ | _) <;> simp [Churn.Side.timer])
  have hperiodic := hkeep (.periodic slot) (by rintro (_ | _) <;> simp [Churn.Side.timer])
  have hreceive : (side.withFlag p true).receive = p.receive := by cases side <;> rfl
  have hmux : (side.withFlag p true).mux = p.mux := by cases side <;> rfl
  have hready : (side.withFlag p true).ready = p.ready := by cases side <;> rfl
  have hstate : (side.withFlag p true).periodic = p.periodic := by cases side <;> rfl
  refine ⟨?_, ?_, ?_, ?_, ?_⟩
  · rw [hheard, hreceive]
    exact h.heard
  · rw [hheard, hreceive]
    exact h.patience
  · rw [hwait, hmux, hready]
    exact h.waits
  · rw [hperiodic, hstate]
    exact h.paced
  · intro side' d hd
    by_cases hside : side' = side
    · rw [hside, hdue] at hd
      simp at hd
    · rw [hother _ (Churn.Side.timer_ne hside slot)] at hd
      have hflag : side'.flag (side.withFlag p true) = side'.flag p := by
        cases side <;> cases side' <;> simp_all [Churn.Side.flag, Churn.Side.withFlag]
      rw [hflag]
      exact h.churn side' d hd

/-- The next message is due after another interval. -/
theorem periodicFired {interval : Nat} (h : Timed s excused now slot p due)
    (hinterval : Periodic.interval? p.periodic = some interval)
    (hother : ∀ key : TimerKey, key ≠ .periodic slot → due' key = due key)
    (hdue : due' (.periodic slot) = some (now + interval)) :
    Timed s excused now slot p due' where
  heard := by rw [hother _ (by simp)]; exact h.heard
  patience := by rw [hother _ (by simp)]; exact h.patience
  waits := by rw [hother _ (by simp)]; exact h.waits
  paced := by
    have hpos : 0 < interval := by
      cases hp : p.periodic <;> simp [hp, Periodic.interval?, Periodic.fastInterval,
        Periodic.slowInterval] at hinterval <;> omega
    refine ⟨?_, fun d hd => ?_⟩
    · rw [hdue, ← Evaluation.isSome_interval?, hinterval]
      rfl
    · rw [hdue] at hd
      cases hd
      rw [hinterval]
      exact ⟨by omega, Nat.le_refl _⟩
  churn := by
    intro side
    rw [hother _ (by cases side <;> simp [Churn.Side.timer])]
    exact h.churn side

/-! ## Evaluation -/

section
variable {ev : Evaluation} {selection : Selection} {i : Interface}

theorem waits_member
    (h : Mux.Waits (!ev.dynamic) excused ev.now i.protocol.mux i.protocol.ready
      (t.deadline? (.waitWhile slot)))
    (hexcused : excused → selection.isEligible = false) :
    Mux.Waits (!ev.dynamic) False ev.now (ev.result selection i).protocol.mux
      (ev.result selection i).protocol.ready
      ((ev.member slot selection i t).2.1.deadline? (.waitWhile slot)) := by
  have hready : (ev.result selection i).protocol.ready = (ev.muxed selection i.protocol).ready :=
    Evaluation.result_machined ev selection i Protocol.ready fun _ _ _ => rfl
  have hselection : (ev.muxed selection i.protocol).selection = selection :=
    Evaluation.muxed_keeps Protocol.selection (fun _ _ _ _ => rfl) i.protocol
  rw [Evaluation.result_mux, hready, Evaluation.deadline?_member_waitWhile]
  have hsettle : Mux.Waits (!ev.dynamic) excused ev.now (ev.muxed selection i.protocol).mux
      (ev.muxed selection i.protocol).ready
      ((ev.afterMux slot selection i t).2.deadline? (.waitWhile slot)) := by
    have hkeep := Mux.Waits.settle (p := { i.protocol with selection }) h 4
    have hfst : (ev.afterMux slot selection i t).1 = ev.muxed selection i.protocol :=
      Evaluation.afterMux_fst
    rw [← hfst, Evaluation.afterMux_snd]
    cases hd : ev.dynamic <;> simp only [Evaluation.afterMux, Mux.run, hd] at hkeep ⊢ <;>
      exact hkeep
  refine hsettle.unexcused (Evaluation.next_muxed i.protocol) ?_
  rw [hselection]
  exact hexcused

/-- Of a side that is timed the flag is down. -/
theorem churn_member (h : Timed s excused ev.now slot i.protocol t.deadline?)
    (hdynamic : ev.dynamic = s.mode.isDynamic) (side : Churn.Side) {d : Nat}
    (hd : (ev.member slot selection i t).2.1.deadline? (side.timer slot) = some d) :
    side.flag (ev.result selection i).protocol = false ∧ s.mode.isDynamic = true ∧ ev.now < d ∧
      d ≤ ev.now + Churn.detectionTime := by
  have hold : (ev.afterPeriodic slot selection i t).2.deadline? (side.timer slot) =
      t.deadline? (side.timer slot) := by
    rw [Evaluation.deadline?_afterPeriodic_of_ne (by cases side <;> simp [Churn.Side.timer]),
      Evaluation.deadline?_afterMux_of_ne (by cases side <;> simp [Churn.Side.timer])]
  rw [Evaluation.deadline?_member_churn, Evaluation.afterChurn] at hd
  cases hdyn : ev.dynamic with
  | false =>
    simp only [hdyn, Bool.false_eq_true, if_false, hold] at hd
    have := (h.churn side d hd).2.1
    rw [← hdynamic, hdyn] at this
    simp at this
  | true =>
    have hflag : side.flag (ev.afterPeriodic slot selection i t).1 = side.flag i.protocol := by
      rw [Evaluation.afterPeriodic_fst]
      exact Evaluation.muxed_keeps (fun p => side.flag p)
        (fun _ _ _ _ => by cases side <;> rfl) i.protocol |>.trans (by cases side <;> rfl)
    have hresult : side.flag (ev.result selection i).protocol =
        (side.flag i.protocol && Churn.isSuspect i.isEnabled side
          (ev.afterPeriodic slot selection i t).1) := by
      rw [← hflag, Evaluation.result_machined ev selection i (fun p => side.flag p)
        (fun _ _ _ => by cases side <;> rfl), Evaluation.machined_eq slot t, Evaluation.afterChurn,
        if_pos hdyn]
      cases side <;> simp [Churn.Side.flag, Churn.update_fst]
    simp only [hdyn, if_true, Churn.deadline?_update, hold, hflag] at hd
    rw [hresult]
    split at hd
    · next hsuspect =>
      split at hd
      · next hon => simp [(h.churn side d hd).1] at hon
      · next hoff =>
        refine ⟨by simp [hoff], by rw [← hdynamic, hdyn], ?_⟩
        cases hdue : t.deadline? (side.timer slot) with
        | none =>
          simp only [hdue, Option.getD_none, Option.some.injEq, Churn.detectionTime] at hd ⊢
          omega
        | some d' =>
          have hbounds := (h.churn side d' hdue).2.2
          simp only [hdue, Option.getD_some, Option.some.injEq] at hd
          rw [← hd]
          exact hbounds
    · simp at hd

/-- Evaluation keeps the timers in line with the machines, and excuses no member any longer. -/
theorem member (h : Timed s excused ev.now slot i.protocol t.deadline?)
    (hdynamic : ev.dynamic = s.mode.isDynamic)
    (hexcused : excused → selection.isEligible = false) :
    Timed s False ev.now slot (ev.result selection i).protocol
      (ev.member slot selection i t).2.1.deadline? where
  heard := by
    rw [Evaluation.deadline?_member_currentWhile, Evaluation.result_receive]
    exact h.heard
  patience := by
    rw [Evaluation.deadline?_member_currentWhile, Evaluation.result_receive]
    exact h.patience
  waits := by
    have hwaits := h.waits
    rw [← hdynamic] at hwaits ⊢
    exact waits_member hwaits hexcused
  paced := Evaluation.paced_member h.paced
  churn := fun side _ hd => churn_member h hdynamic side hd

end
end Timed
end Protocol
end LinkAggregation
