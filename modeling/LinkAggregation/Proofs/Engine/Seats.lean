import LinkAggregation.Proofs.Engine.Pace
import LinkAggregation.Proofs.Reachable.Removal
import LinkAggregation.Proofs.Reachable.Timers

/-!
# The seats of members

What mux and churn detection remember of a member is its seat: its LAG, the state of the mux, and
for each wait a deadline, or the mark that the deadline has left. Apart from the evaluations at its
end an action lets time pass over a seat, or lets a member begin anew, or switches a member off.
-/
namespace LinkAggregation

/-- The waits of a member that leave a mark when they are over. -/
inductive Alarm where
  /-- Before the member attaches. -/
  | wait
  /-- Before a side that is out of sync is flagged. -/
  | churn (side : Churn.Side)
  deriving DecidableEq

namespace Alarm

def timer (slot : Nat) : Alarm → TimerKey
  | wait => .waitWhile slot
  | churn side => side.timer slot

/-- The mark. -/
def rung (p : Protocol) : Alarm → Bool
  | wait => p.ready
  | churn side => side.flag p

@[simp] theorem interface?_timer (a : Alarm) (slot : Nat) :
    (a.timer slot).interface? = some slot := by
  cases a with
  | wait => rfl
  | churn side => cases side <;> rfl

theorem timer_ne_currentWhile (a : Alarm) (slot slot' : Nat) :
    a.timer slot ≠ .currentWhile slot' := by
  cases a with
  | wait => exact nofun
  | churn side => cases side <;> exact nofun

theorem timer_ne_periodic (a : Alarm) (slot slot' : Nat) : a.timer slot ≠ .periodic slot' := by
  cases a with
  | wait => exact nofun
  | churn side => cases side <;> exact nofun

end Alarm

/-- What the machines of a member remember that wait for something. -/
@[ext]
structure Seat where
  interface : String
  /-- The name of the LAG. -/
  group : String
  dynamic : Bool
  mux : MuxState
  rung : Alarm → Bool
  due : Alarm → Option Nat

namespace Seat

/-- The time is now at least this, and the alarms that are due have rung. -/
def pass (now : Nat) (s : Seat) : Seat :=
  { s with
    rung := fun a => s.rung a || (s.due a).any (· ≤ now)
    due := fun a => (s.due a).filter (now < ·) }

/-- Timers of the slot fire, and the alarms among them ring. -/
def ring (slot : Nat) (keys : List TimerKey) (s : Seat) : Seat :=
  { s with rung := fun a => s.rung a || decide (a.timer slot ∈ keys) }

theorem ring_of_not_mem {slot : Nat} {keys : List TimerKey}
    (h : ∀ key ∈ keys, key.interface? ≠ some slot) (s : Seat) : s.ring slot keys = s := by
  have hnot : ∀ a : Alarm, decide (a.timer slot ∈ keys) = false := by
    intro a
    exact decide_eq_false fun hmem => h _ hmem (a.interface?_timer slot)
  simp only [ring, hnot, Bool.or_false]

/-- The seat of a member that begins. -/
structure Fresh (s : Seat) : Prop where
  mux : s.mux = .detached
  rung : ∀ a, s.rung a = false
  due : ∀ a, s.due a = none

/-- Nothing rings before its time. -/
theorem pass_of_lt {now : Nat} {s : Seat} (h : ∀ a d, s.due a = some d → now < d) :
    s.pass now = s := by
  have hrung : ∀ a, (s.due a).any (· ≤ now) = false := by
    intro a
    cases hd : s.due a with
    | none => rfl
    | some d => simpa using h a d hd
  have hdue : ∀ a, (s.due a).filter (now < ·) = s.due a := by
    intro a
    cases hd : s.due a with
    | none => rfl
    | some d => simpa using h a d hd
  simp only [pass, hrung, hdue, Bool.or_false]

end Seat

/-- The seat of an interface in a LAG. -/
def Interface.seat (i : Interface) (lag : Lag) (t : Timers) (slot : Nat) : Seat where
  interface := i.name
  group := lag.name
  dynamic := lag.isDynamic
  mux := i.protocol.mux
  rung a := a.rung i.protocol
  due a := t.deadline? (a.timer slot)

/-- What the alarms of a member depend on. -/
def Protocol.alarms (p : Protocol) (t : Timers) (slot : Nat) :
    MuxState × (Alarm → Bool) × (Alarm → Option Nat) :=
  (p.mux, fun a => a.rung p, fun a => t.deadline? (a.timer slot))

theorem Interface.seat_congr {i i' : Interface} {lag lag' : Lag} {t t' : Timers} {slot : Nat}
    (hname : i'.name = i.name) (hgroup : lag'.name = lag.name)
    (hdynamic : lag'.isDynamic = lag.isDynamic)
    (halarms : i'.protocol.alarms t' slot = i.protocol.alarms t slot) :
    i'.seat lag' t' slot = i.seat lag t slot := by
  simp only [Protocol.alarms, Prod.mk.injEq] at halarms
  exact Seat.ext hname hgroup hdynamic halarms.1 halarms.2.1 halarms.2.2

/-- A member without alarms that is detached has a fresh seat. -/
theorem Interface.fresh_seat {i : Interface} {lag : Lag} {t : Timers} {slot : Nat}
    (h : i.protocol.alarms t slot = (.detached, fun _ => false, fun _ => none)) :
    (i.seat lag t slot).Fresh := by
  simp only [Protocol.alarms, Prod.mk.injEq] at h
  exact ⟨h.1, congrFun h.2.1, congrFun h.2.2⟩

/-- The part of an interface that its seat depends on. -/
def Interface.bearing (i : Interface) : String × Option Nat × MuxState × (Alarm → Bool) :=
  (i.name, i.lag, i.protocol.mux, fun a => a.rung i.protocol)

namespace Engine
variable {e e' : Engine} {l slot : Nat} {lag : Lag} {i : Interface} {s : Seat}

/-- The seat of the member in a slot. -/
def seat? (e : Engine) (slot : Nat) : Option Seat :=
  (e.member? slot).map fun m => m.1.seat m.2 e.timers slot

theorem member?_eq_some_iff :
    e.member? slot = some (i, lag) ↔
      ∃ l, e.interfaces.get? slot = some i ∧ i.lag = some l ∧ e.lags.get? l = some lag := by
  unfold member?
  cases hi : e.interfaces.get? slot with
  | none => simp
  | some j =>
    cases hlag : j.lag with
    | none =>
      simp only [Option.bind_eq_bind, Option.bind_some, hlag, Option.bind_none, reduceCtorEq,
        false_iff]
      rintro ⟨l, hj, hl, -⟩
      obtain rfl := Option.some.inj hj
      simp [hlag] at hl
    | some k =>
      cases hl : e.lags.get? k with
      | none =>
        simp only [Option.bind_eq_bind, Option.bind_some, hlag, hl, Option.bind_none, reduceCtorEq,
          false_iff]
        rintro ⟨l, hj, hk, hl'⟩
        obtain rfl := Option.some.inj hj
        obtain rfl := Option.some.inj (hlag.symm.trans hk)
        simp [hl] at hl'
      | some lag' =>
        simp only [Option.bind_eq_bind, Option.bind_some, hlag, hl, Option.pure_def,
          Option.some.injEq, Prod.mk.injEq]
        constructor
        · rintro ⟨rfl, rfl⟩
          exact ⟨k, rfl, hlag, hl⟩
        · rintro ⟨l, rfl, hk, hl'⟩
          obtain rfl := Option.some.inj (hlag.symm.trans hk)
          exact ⟨rfl, Option.some.inj (hl.symm.trans hl')⟩

theorem seat?_eq (hi : e.interfaces.get? slot = some i) (hlag : i.lag = some l)
    (hl : e.lags.get? l = some lag) : e.seat? slot = some (i.seat lag e.timers slot) := by
  rw [seat?, member?_eq_some_iff.mpr ⟨l, hi, hlag, hl⟩]
  rfl

/-- A seat is that of a member. -/
theorem exists_of_seat? (hs : e.seat? slot = some s) :
    ∃ i l lag, e.interfaces.get? slot = some i ∧ i.lag = some l ∧ e.lags.get? l = some lag ∧
      s = i.seat lag e.timers slot := by
  obtain ⟨⟨i, lag⟩, hm, rfl⟩ := Option.map_eq_some_iff.mp hs
  obtain ⟨l, hi, hlag, hl⟩ := member?_eq_some_iff.mp hm
  exact ⟨i, l, lag, hi, hlag, hl, rfl⟩

/-- Outside all LAGs nobody has a seat. -/
theorem seat?_eq_none (h : ∀ l, ¬ e.IsMember l slot) : e.seat? slot = none := by
  refine Option.eq_none_iff_forall_not_mem.mpr fun s hs => ?_
  obtain ⟨i, l, -, hi, hlag, -⟩ := exists_of_seat? hs
  exact h l ⟨i, hi, hlag⟩

theorem seat?_eq_none_of_dead (hi : e.interfaces.get? slot = some i) (hlag : i.lag = some l)
    (hl : e.lags.get? l = none) : e.seat? slot = none := by
  refine Option.eq_none_iff_forall_not_mem.mpr fun s hs => ?_
  obtain ⟨j, k, lag, hj, hk, hlive, -⟩ := exists_of_seat? hs
  obtain rfl := Option.some.inj (hi.symm.trans hj)
  obtain rfl := Option.some.inj (hlag.symm.trans hk)
  exact absurd (hl.symm.trans hlive) nofun

/-- A seat depends on the interface, its LAG and its alarms. -/
theorem seat?_congr
    (hi : (e'.interfaces.get? slot).map Interface.bearing =
      (e.interfaces.get? slot).map Interface.bearing)
    (hl : ∀ l, e.IsMember l slot → (e'.lags.get? l).map (fun lag => (lag.name, lag.isDynamic)) =
      (e.lags.get? l).map fun lag => (lag.name, lag.isDynamic))
    (ht : ∀ a : Alarm, e'.timers.deadline? (a.timer slot) = e.timers.deadline? (a.timer slot)) :
    e'.seat? slot = e.seat? slot := by
  unfold seat? member?
  cases hget : e.interfaces.get? slot with
  | none =>
    rw [hget, Option.map_none, Option.map_eq_none_iff] at hi
    simp [hi]
  | some i =>
    rw [hget] at hi
    obtain ⟨i', hi', hbearing⟩ := Option.map_eq_some_iff.mp hi
    simp only [Interface.bearing, Prod.mk.injEq] at hbearing
    obtain ⟨hname, hlag, hmux, hrung⟩ := hbearing
    simp only [hi', Option.bind_eq_bind, Option.bind_some, hlag]
    cases hk : i.lag with
    | none => rfl
    | some k =>
      have hview := hl k ⟨i, hget, hk⟩
      simp only [Option.bind_some]
      cases hlive : e.lags.get? k with
      | none =>
        rw [hlive, Option.map_none, Option.map_eq_none_iff] at hview
        simp [hview]
      | some lag =>
        rw [hlive] at hview
        obtain ⟨lag', hlag', heq⟩ := Option.map_eq_some_iff.mp hview
        simp only [Prod.mk.injEq] at heq
        simp only [hlag', Option.bind_some, Option.pure_def, Option.map_some, Interface.seat,
          hname, heq, hmux, ht]
        rw [hrung]

/-- Whoever keeps interface, LAG and alarms keeps the seat. -/
theorem seat?_of_same (hi : e'.interfaces.get? slot = e.interfaces.get? slot)
    (hl : ∀ l, e.IsMember l slot → e'.lags.get? l = e.lags.get? l)
    (ht : ∀ a : Alarm, e'.timers.deadline? (a.timer slot) = e.timers.deadline? (a.timer slot)) :
    e'.seat? slot = e.seat? slot :=
  seat?_congr (by rw [hi]) (fun l hmember => by rw [hl l hmember]) ht

/-- Interfaces do not change their slots. -/
theorem Linked.slot_of_seat? (h : e.Linked) (hi : e.interfaces.get? slot = some i) {slot' : Nat}
    (hs : e.seat? slot' = some s) (hname : s.interface = i.name) : slot' = slot := by
  obtain ⟨j, l, lag, hj, -, -, rfl⟩ := exists_of_seat? hs
  have hfind := h.interfaces.find?_of_get? hj
  rw [show j.name = i.name from hname, h.interfaces.find?_of_get? hi] at hfind
  exact (Option.some.inj hfind).symm

/-! ## Before the evaluations -/

/-- How the member in a slot gets to where its LAG is evaluated. -/
inductive Led (e m : Engine) (slot : Nat) : Prop
  /-- Time may have passed, and nothing else has happened. -/
  | stays (h : m.seat? slot = (e.seat? slot).map (Seat.pass m.now))
  /-- The member begins, in a LAG that it was not in, or that was static. -/
  | begins {s : Seat} (hs : m.seat? slot = some s) (hfresh : s.Fresh)
      (hnew : ∀ slot' s', e.seat? slot' = some s' → s'.interface = s.interface →
        s'.group = s.group → s'.dynamic ≠ s.dynamic)
  /-- The member is switched off. -/
  | rests {i : Interface} {l : Nat} {lag : Lag} (hi : m.interfaces.get? slot = some i)
      (hlag : i.lag = some l) (hl : m.lags.get? l = some lag) (hdynamic : lag.isDynamic = true)
      (hdisabled : i.isEnabled = false)
  | leaves (h : m.seat? slot = none)

/-- The engine is what an action makes of another one, the evaluations apart. -/
structure Leads (e m : Engine) : Prop where
  now : e.now ≤ m.now
  led : ∀ slot, e.Led m slot

/-- No alarm of a static LAG has ever rung. -/
def Quiet (e : Engine) : Prop :=
  ∀ slot s, e.seat? slot = some s → s.dynamic = false → ∀ a, s.rung a = false

theorem Led.of_seats {m : Engine} (hseats : e'.seat? = e.seat?) (h : e'.Led m slot) :
    e.Led m slot := by
  cases h with
  | stays h => exact .stays (by rw [h, hseats])
  | begins hs hfresh hnew => exact .begins hs hfresh (by rwa [hseats] at hnew)
  | rests hi hlag hl hdynamic hdisabled => exact .rests hi hlag hl hdynamic hdisabled
  | leaves h => exact .leaves h

section
variable (h : e.Stable)
include h

/-- No alarm of a stable engine is due. -/
theorem Coherent.pass_seat (hs : e.seat? slot = some s) : s.pass e.now = s := by
  obtain ⟨i, l, lag, -, -, -, rfl⟩ := exists_of_seat? hs
  exact Seat.pass_of_lt fun a d hd => h.lt_deadline hd

theorem Coherent.led_of_seat (hnow : e'.now = e.now) (hseat : e'.seat? slot = e.seat? slot) :
    e.Led e' slot := by
  refine .stays ?_
  rw [hseat, hnow]
  cases hs : e.seat? slot with
  | none => rfl
  | some s => rw [Option.map_some, h.pass_seat hs]

/-- No alarm of a static LAG is set. -/
theorem Coherent.due_of_static (hs : e.seat? slot = some s) (hstatic : s.dynamic = false)
    (a : Alarm) : s.due a = none := by
  obtain ⟨i, l, lag, hi, hlag, hl, rfl⟩ := exists_of_seat? hs
  have htimed := (h.sound_member hi hlag hl).timed
  have hmode : lag.settings.mode.isDynamic = false := hstatic
  refine Option.eq_none_iff_forall_not_mem.mpr fun d hd => ?_
  cases a with
  | wait =>
    have harmed := htimed.waits.armed (Option.isSome_iff_exists.mpr ⟨d, hd⟩)
    exact htimed.waits.dynamic (by simp [hmode]) harmed.1
  | churn side =>
    have hdynamic := (htimed.churn side d hd).2.1
    simp [hmode] at hdynamic

end

/-! ## New values of one interface -/

theorem seat?_put_of_ne {slot' : Nat} {r : Interface × Timers} (hslot : slot ≠ slot')
    (ht : ∀ key : TimerKey, key.interface? ≠ some slot →
      r.2.deadline? key = e.timers.deadline? key) :
    (e.put slot r).seat? slot' = e.seat? slot' := by
  refine seat?_of_same (by rw [get?_put, if_neg hslot]) (fun _ _ => rfl) fun a => ht _ ?_
  rw [Alarm.interface?_timer]
  exact fun heq => hslot (Option.some.inj heq).symm

theorem seat?_put_self {r : Interface × Timers} (hi : e.interfaces.get? slot = some i)
    (hlag : r.1.lag = some l) (hl : e.lags.get? l = some lag) :
    (e.put slot r).seat? slot = some (r.1.seat lag r.2 slot) :=
  seat?_eq (get?_put_self hi r) hlag hl

end Engine

namespace Receive
variable {slot now : Nat} {settings old new : LagSettings} {p : Protocol} {t : Timers}

/-- A receive machine that comes to run leaves the alarms alone. -/
theorem alarms_sync_of_dynamic (hdynamic : settings.mode.isDynamic = true) :
    (sync slot true settings p t now).1.alarms (sync slot true settings p t now).2 slot =
      p.alarms t slot := by
  simp only [sync, hdynamic, reduceCtorEq, if_false]
  split
  · rfl
  · have hrung : ∀ a : Alarm,
        a.rung (enable slot p settings.mode settings.rate t now).1 = a.rung p := by
      rintro (_ | _ | _) <;> rfl
    have hdue : ∀ a : Alarm,
        (enable slot p settings.mode settings.rate t now).2.deadline? (a.timer slot) =
          t.deadline? (a.timer slot) := by
      intro a
      simp [enable, enterExpired, a.timer_ne_currentWhile]
    simp only [Protocol.alarms, hrung, hdue]
    rfl

/-- A receive machine at rest sets no alarm, and stops the wait at most. -/
theorem alarms_sync_of_idle (enabled : Bool) (hidle : (enabled && settings.mode.isDynamic) = false)
    (hready : p.ready = false) (ht : ∀ a : Alarm, t.deadline? (a.timer slot) = none) :
    (sync slot enabled settings p t now).1.alarms (sync slot enabled settings p t now).2 slot =
      p.alarms t slot := by
  have hdue : ∀ a : Alarm, (t.cancelInterface slot).deadline? (a.timer slot) =
      t.deadline? (a.timer slot) := by
    intro a
    simp [ht a]
  have hdisabled : ∀ a : Alarm, a.rung (portDisabled slot p t).1 = a.rung p := by
    rintro (_ | _ | _)
    · exact hready.symm
    · rfl
    · rfl
  have hstatic : ∀ a : Alarm, a.rung (lacpDisabled slot p t).1 = a.rung p := by
    rintro (_ | _ | _) <;> rfl
  unfold sync
  split
  · split
    · rfl
    · simp only [Protocol.alarms, hdisabled]
      simp only [portDisabled, hdue]
  · next henabled =>
    rw [Bool.not_eq_false] at henabled
    rw [henabled, Bool.true_and] at hidle
    rw [if_pos hidle]
    split
    · rfl
    · simp only [Protocol.alarms, hstatic]
      simp only [lacpDisabled, hdue]

/-- Whoever begins has no alarms. -/
theorem alarms_sync_reset (enabled : Bool) (ht : ∀ a : Alarm, t.deadline? (a.timer slot) = none) :
    (sync slot enabled settings {} t now).1.alarms (sync slot enabled settings {} t now).2 slot =
      (.detached, fun _ => false, fun _ => none) := by
  have hreset : ({} : Protocol).alarms t slot = (.detached, fun _ => false, fun _ => none) := by
    have hrung : ∀ a : Alarm, a.rung {} = false := by
      rintro (_ | _ | _) <;> rfl
    simp only [Protocol.alarms, hrung, ht]
  rw [← hreset]
  cases hrunning : enabled && settings.mode.isDynamic with
  | false => exact alarms_sync_of_idle enabled hrunning rfl ht
  | true =>
    rw [Bool.and_eq_true] at hrunning
    rw [hrunning.1]
    exact alarms_sync_of_dynamic hrunning.2

/-- New settings of the LAG leave the alarms alone. -/
theorem alarms_retell :
    (retell slot old new p t now).1.alarms (retell slot old new p t now).2 slot =
      p.alarms t slot := by
  have hrate : ∀ (q : Protocol) (a : Alarm), (rateChanged slot q t now).deadline? (a.timer slot) =
      t.deadline? (a.timer slot) := by
    intro q a
    unfold rateChanged
    split <;> simp [a.timer_ne_currentWhile]
  unfold retell
  dsimp only
  split
  · rfl
  · split
    · simp only [Protocol.alarms, hrate]
      congr 2
    · simp only [Protocol.alarms]
      congr 2

/-- A message leaves the alarms alone. -/
theorem alarms_record (own : Endpoint) (pdu : Lacpdu) (ntt : Bool) :
    Protocol.alarms { (record slot p own pdu t now).1 with needToTransmit := ntt }
      (record slot p own pdu t now).2.1 slot = p.alarms t slot := by
  have hrung : ∀ a : Alarm,
      a.rung { (record slot p own pdu t now).1 with needToTransmit := ntt } = a.rung p := by
    rintro (_ | _ | _) <;> rfl
  have hdue : ∀ a : Alarm, (record slot p own pdu t now).2.1.deadline? (a.timer slot) =
      t.deadline? (a.timer slot) := by
    intro a
    simp [record, a.timer_ne_currentWhile]
  simp only [Protocol.alarms, hrung, hdue]
  rfl

end Receive

namespace Engine
variable {e e' : Engine} {c : Kind} {l slot : Nat} {lag : Lag} {i : Interface} {s : Seat}

section
variable (h : e.Stable)
include h

/-- A member takes a turn, and no timer fires. -/
theorem Coherent.led_turn (hq : e.Quiet) (hi : e.interfaces.get? slot = some i)
    (hlag : i.lag = some l) (hl : e.lags.get? l = some lag) {r : Interface × Timers}
    (ht : Turn lag.settings e.now slot i e.timers c r) (hc : c ≠ .timer) (slot' : Nat) :
    e.Led (e.put slot r) slot' := by
  by_cases hslot : slot = slot'
  · subst hslot
    have hseat := seat?_eq hi hlag hl
    have hkeeps : r.1.lag = some l := (ht.keeps Interface.lag fun _ _ _ _ _ => rfl).trans hlag
    have hname : r.1.name = i.name := ht.keeps Interface.name fun _ _ _ _ _ => rfl
    have hsame : r.1.protocol.alarms r.2 slot = i.protocol.alarms e.timers slot →
        e.Led (e.put slot r) slot := by
      intro halarms
      refine h.led_of_seat rfl ?_
      rw [seat?_put_self hi hkeeps hl, hseat, Interface.seat_congr hname rfl rfl halarms]
    cases ht with
    | port status hidle =>
      cases hmode : lag.settings.mode.isDynamic with
      | false =>
        have hready : i.protocol.ready = false := hq slot _ hseat hmode .wait
        exact hsame (Receive.alarms_sync_of_idle _ (by rw [hmode, Bool.and_false]) hready
          (h.due_of_static hseat hmode))
      | true =>
        by_cases henabled : status.isEnabled = true
        · refine hsame ?_
          rw [henabled]
          exact Receive.alarms_sync_of_dynamic hmode
        · rw [Bool.not_eq_true] at henabled
          exact .rests (get?_put_self hi _) hkeeps hl hmode henabled
    | settings settings =>
      refine hsame ?_
      simp only [Protocol.alarms]
      congr 2
    | record own pdu => exact hsame (Receive.alarms_record own pdu _)
    | timer => exact absurd rfl hc
  · exact h.led_of_seat rfl (seat?_put_of_ne hslot fun _ => ht.deadline?_of_ne)

/-- A LAG gets new settings. -/
theorem Coherent.led_revise (hl : e.lags.get? l = some lag) {new : LagSettings}
    {f : Engine → Nat → Engine} {step : MemberStep}
    (hr : Revision lag.settings new e.now f step) (slot : Nat) :
    e.Led (lag.members.foldl f (e.modifyLag l fun lag => { lag with settings := new })) slot := by
  have hrevised := hr.revised h.linked hl
  generalize lag.members.foldl f (e.modifyLag l fun lag => { lag with settings := new }) = m
    at hrevised
  by_cases hslot : slot ∈ lag.members
  · obtain ⟨i, hi, hlag⟩ := h.get?_of_mem hl hslot
    obtain ⟨t, ht, hi', hdue⟩ := hrevised.members slot i hslot hi
    have hl' : m.lags.get? l = some { lag with settings := new } := by
      rw [hrevised.lags, Arena.get?_modify, if_pos rfl, hl]
      rfl
    have hkeeps : (step i slot t).1.lag = some l :=
      (hr.keeps Interface.lag (fun _ _ => rfl) i slot t).trans hlag
    have hname : (step i slot t).1.name = i.name :=
      hr.keeps Interface.name (fun _ _ => rfl) i slot t
    have halarms : (step i slot t).1.protocol.alarms m.timers slot =
        (step i slot t).1.protocol.alarms (step i slot t).2 slot := by
      simp only [Protocol.alarms, hdue _ (Alarm.interface?_timer _ _)]
    have hseat := seat?_eq hi' hkeeps hl'
    cases hr with
    | restart hmode =>
      refine .begins hseat (Interface.fresh_seat (halarms.trans ?_)) ?_
      · refine Receive.alarms_sync_reset _ fun a => ?_
        simp
      · intro slot' s' hs' hsame _
        obtain rfl := h.linked.slot_of_seat? hi hs' (hsame.trans hname)
        rw [seat?_eq hi hlag hl] at hs'
        obtain rfl := Option.some.inj hs'
        exact hmode
    | retell hold hnew =>
      refine h.led_of_seat hrevised.within.now ?_
      rw [hseat, seat?_eq hi hlag hl]
      refine congrArg some (Interface.seat_congr hname rfl (hnew.trans hold.symm) ?_)
      refine (halarms.trans Receive.alarms_retell).trans ?_
      simp only [Protocol.alarms, ht _ (Alarm.interface?_timer _ _)]
    | idle hold hnew =>
      refine h.led_of_seat hrevised.within.now ?_
      rw [hseat, seat?_eq hi hlag hl]
      refine congrArg some (Interface.seat_congr hname rfl (hnew.trans hold.symm) ?_)
      refine halarms.trans ?_
      simp only [idleStep, Protocol.alarms, ht _ (Alarm.interface?_timer _ _)]
  · refine h.led_of_seat hrevised.within.now ?_
    have hnot : ∀ k, e.IsMember k slot → k ≠ l := by
      rintro k hmember rfl
      exact hslot ((h.members k lag hl slot).mpr hmember)
    refine seat?_of_same (hrevised.others slot hslot)
      (fun k hmember => hrevised.within.others k (hnot k hmember)) fun a => ?_
    refine hrevised.timers _ fun slot' hslot' heq => ?_
    rw [Alarm.interface?_timer] at heq
    exact hslot (Option.some.inj heq ▸ hslot')

/-- An interface joins a LAG. -/
theorem Coherent.led_join (hi : e.interfaces.get? slot = some i) (hlag : i.lag = none)
    (hl : e.lags.get? l = some lag) (settings : MemberSettings) (slot' : Nat) :
    e.Led (e.exchange l slot (·.addMember slot) (e.joined l slot lag i settings)) slot' := by
  by_cases hslot : slot = slot'
  · subst hslot
    have hidle : ∀ a : Alarm, e.timers.deadline? (a.timer slot) = none := by
      intro a
      have hnone := h.due_outside (not_isMember_of_lag_eq_none hi hlag)
        (Alarm.interface?_timer a slot)
      rwa [due_nil] at hnone
    have hi' : (e.exchange l slot (·.addMember slot)
        (e.joined l slot lag i settings)).interfaces.get? slot =
          some (e.joined l slot lag i settings).1 := by
      rw [get?_exchange, if_pos rfl, hi]
      rfl
    have hl' : (e.exchange l slot (·.addMember slot)
        (e.joined l slot lag i settings)).lags.get? l = some (lag.addMember slot) := by
      rw [get?_lags_exchange, if_pos rfl, hl]
      rfl
    refine .begins (seat?_eq hi' rfl hl')
      (Interface.fresh_seat (Receive.alarms_sync_reset _ hidle)) ?_
    intro slot' s' hs' hname _
    -- Before that the interface was nowhere.
    obtain rfl := h.linked.slot_of_seat? hi hs' hname
    rw [seat?_eq_none (not_isMember_of_lag_eq_none hi hlag)] at hs'
    exact absurd hs' nofun
  · refine h.led_of_seat rfl (seat?_congr ?_ (fun k _ => ?_) fun a => ?_)
    · rw [get?_exchange, if_neg hslot]
    · rw [get?_lags_exchange]
      split
      · cases e.lags.get? k <;> rfl
      · rfl
    · refine Receive.deadline?_sync_of_ne ?_
      rw [Alarm.interface?_timer]
      exact fun heq => hslot (Option.some.inj heq).symm

end

/-! ## What no seat depends on -/

theorem seat?_ensureInterface (name : String) :
    (e.ensureInterface name).1.seat? = e.seat? := by
  funext slot
  unfold Engine.ensureInterface
  split
  · rfl
  · by_cases hslot : slot = e.interfaces.freeSlot
    · have hbefore : e.seat? slot = none := by
        refine seat?_eq_none ?_
        rintro l ⟨i, hi, -⟩
        rw [hslot, Arena.get?_freeSlot] at hi
        exact absurd hi nofun
      rw [hbefore]
      refine seat?_eq_none ?_
      rintro l ⟨i, hi, hlag⟩
      rw [hslot, Arena.get?_insert_freeSlot] at hi
      obtain rfl := Option.some.inj hi
      exact absurd hlag nofun
    · exact seat?_of_same (Arena.get?_insert_of_ne _ _ hslot) (fun _ _ => rfl) fun _ => rfl

theorem seat?_count (slot : Nat) (f : Counters → Counters) : (e.count slot f).seat? = e.seat? := by
  funext slot'
  refine seat?_congr ?_ (fun _ _ => rfl) fun _ => rfl
  rw [get?_count, Option.map_map]
  rfl

theorem seat?_told (system : SystemIdentity) : (e.told system).seat? = e.seat? := by
  funext slot
  refine seat?_congr ?_ (fun _ _ => rfl) fun _ => rfl
  have hget : (e.told system).interfaces.get? slot = (e.interfaces.get? slot).map tell :=
    Arena.get?_map _ _ _
  rw [hget, Option.map_map]
  refine Option.map_congr fun i _ => tell_keeps Interface.bearing (fun i _ => ?_) i
  simp only [Interface.bearing, Prod.mk.injEq, true_and]
  funext a
  cases a with
  | wait => rfl
  | churn side => cases side <;> rfl

/-- Nobody is in a LAG that comes. -/
theorem Linked.seat?_found (h : e.Linked) (name : String) (new : Lag) :
    ({ e with lags := e.lags.insert name new } : Engine).seat? = e.seat? := by
  funext slot
  refine seat?_of_same rfl (fun l hmember => Arena.get?_insert_of_ne _ _ ?_) fun _ => rfl
  rintro rfl
  have hlive := h.live _ slot hmember
  rw [Arena.get?_freeSlot] at hlive
  exact absurd hlive nofun

/-- A seat does not depend on the port. -/
theorem seat?_report (slot : Nat) (status : PortStatus) :
    (e.modifyInterface slot fun i => { i with port := status }).seat? = e.seat? := by
  funext slot'
  refine seat?_congr ?_ (fun _ _ => rfl) fun _ => rfl
  rw [modifyInterface, Arena.get?_modify]
  split
  · rw [Option.map_map]
    rfl
  · rfl

/-- Whoever is outside all LAGs takes no seat along. -/
theorem seat?_forget (hi : e.interfaces.get? slot = some i) (hlag : i.lag = none)
    (name : String) :
    ({ e with
      timers := e.timers.cancelInterface slot
      interfaces := e.interfaces.remove name slot } : Engine).seat? = e.seat? := by
  funext slot'
  by_cases hslot : slot = slot'
  · subst hslot
    rw [seat?_eq_none (not_isMember_of_lag_eq_none hi hlag), seat?_eq_none]
    rintro l ⟨j, hj, -⟩
    rw [Arena.get?_remove, if_pos rfl] at hj
    exact absurd hj nofun
  · refine seat?_of_same ?_ (fun _ _ => rfl) fun a => ?_
    · rw [Arena.get?_remove, if_neg hslot]
    · rw [Timers.deadline?_cancelInterface, Alarm.interface?_timer, if_neg]
      exact fun heq => hslot (Option.some.inj heq).symm

/-! ## Seats that are left -/

/-- Some members have left, and the others have kept their seats. -/
structure Thins (e m : Engine) : Prop where
  now : m.now = e.now
  seat : ∀ slot, m.seat? slot = e.seat? slot ∨ m.seat? slot = none

theorem Thins.trans {m : Engine} (h : e.Thins e') (h' : e'.Thins m) : e.Thins m where
  now := h'.now.trans h.now
  seat := by
    intro slot
    obtain hsame | hnone := h'.seat slot
    · rw [hsame]
      exact h.seat slot
    · exact .inr hnone

theorem thins_detachMember (l slot : Nat) : e.Thins (e.detachMember l slot).1 := by
  have hlags : (e.detachMember l slot).1.lags = e.lags.modify l (·.removeMember slot) := by
    unfold detachMember
    dsimp only
    split <;> rfl
  have htimers : (e.detachMember l slot).1.timers = e.timers.cancelInterface slot := by
    unfold detachMember
    dsimp only
    split <;> rfl
  have hnow : (e.detachMember l slot).1.now = e.now := by
    unfold detachMember
    dsimp only
    split <;> rfl
  refine ⟨hnow, fun slot' => ?_⟩
  by_cases hslot : slot = slot'
  · refine .inr (seat?_eq_none ?_)
    rintro k ⟨i, hi, hlag⟩
    rw [get?_detachMember, if_pos hslot] at hi
    obtain ⟨j, -, rfl⟩ := Option.map_eq_some_iff.mp hi
    exact absurd hlag nofun
  · refine .inl (seat?_congr ?_ (fun k _ => ?_) fun a => ?_)
    · rw [get?_detachMember, if_neg hslot]
    · rw [hlags, Arena.get?_modify]
      split
      · cases e.lags.get? k <;> rfl
      · rfl
    · rw [htimers, Timers.deadline?_cancelInterface, Alarm.interface?_timer, if_neg]
      exact fun heq => hslot (Option.some.inj heq).symm

theorem thins_detachMembers (l : Nat) (slots : List Nat) :
    e.Thins (slots.foldl (fun (s : Step) m => s.next (·.detachMember l m)) (e, [])).1 := by
  rw [foldl_next_fst]
  dsimp only
  induction slots generalizing e with
  | nil => exact ⟨rfl, fun _ => .inl rfl⟩
  | cons m rest ih => exact (thins_detachMember l m).trans ih

/-- Nobody keeps a seat in a LAG that goes. -/
theorem thins_removeLag (name : String) (l : Nat) :
    e.Thins { e with
      timers := e.timers.cancel (.fallback l)
      lags := e.lags.remove name l } where
  now := rfl
  seat := by
    intro slot
    by_cases hmember : e.IsMember l slot
    · refine .inr (Option.eq_none_iff_forall_not_mem.mpr fun s hs => ?_)
      obtain ⟨i, k, lag, hi, hlag, hk, -⟩ := exists_of_seat? hs
      obtain rfl : k = l := hmember.unique ⟨i, hi, hlag⟩
      rw [Arena.get?_remove, if_pos rfl] at hk
      exact absurd hk nofun
    · refine .inl (seat?_of_same rfl (fun k hk => ?_) fun a => ?_)
      · rw [Arena.get?_remove, if_neg]
        rintro rfl
        exact hmember hk
      · have hne := (a.timer slot).ne_fallback (Alarm.interface?_timer a slot) l
        rw [Timers.deadline?_cancel, if_neg hne]

end Engine
end LinkAggregation
