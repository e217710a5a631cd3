import LinkAggregation.Proofs.Engine.Seats

/-!
# What an action makes of the seats

When the clock is set, the alarms that are due ring, each in its own seat. Whatever else an action
does, it keeps a seat, or lets a member begin anew, or switches a member off. Then come the
evaluations.
-/
namespace LinkAggregation.Engine
variable {e e' m : Engine} {s : Step} {l slot : Nat} {lag : Lag} {i : Interface}

/-! ## Alarms that ring -/

/-- A timer that fires leaves its mark if it is an alarm. -/
theorem rung_timerFired (key : TimerKey) (hkey : key.interface? = some slot) (t : Timers)
    (now : Nat) (a : Alarm) : a.rung (i.timerFired key t now).1.protocol =
      (a.rung i.protocol || decide (a.timer slot = key)) := by
  cases key with
  | periodic slot' =>
    have hne : a.timer slot ≠ .periodic slot' := a.timer_ne_periodic slot slot'
    simp only [Interface.timerFired, hne, decide_false, Bool.or_false]
    split
    · cases a with
      | wait => rfl
      | churn side => cases side <;> rfl
    · rfl
  | currentWhile slot' =>
    have hne : a.timer slot ≠ .currentWhile slot' := a.timer_ne_currentWhile slot slot'
    simp only [Interface.timerFired, Receive.currentWhileExpired, hne, decide_false, Bool.or_false]
    split <;> obtain _ | _ | _ := a <;> rfl
  | waitWhile slot' =>
    obtain rfl : slot' = slot := Option.some.inj hkey
    obtain _ | _ | _ := a <;> simp [Interface.timerFired, Alarm.rung, Alarm.timer,
      Churn.Side.timer, Churn.Side.flag]
  | actorChurn slot' =>
    obtain rfl : slot' = slot := Option.some.inj hkey
    obtain _ | _ | _ := a <;> simp [Interface.timerFired, Interface.churnDetected, Alarm.rung,
      Alarm.timer, Churn.Side.timer, Churn.Side.flag]
  | partnerChurn slot' =>
    obtain rfl : slot' = slot := Option.some.inj hkey
    obtain _ | _ | _ := a <;> simp [Interface.timerFired, Interface.churnDetected, Alarm.rung,
      Alarm.timer, Churn.Side.timer, Churn.Side.flag]
  | fallback => cases hkey

theorem mux_timerFired (key : TimerKey) (t : Timers) (now : Nat) :
    (i.timerFired key t now).1.protocol.mux = i.protocol.mux := by
  cases key with
  | periodic slot =>
    simp only [Interface.timerFired]
    split <;> rfl
  | currentWhile slot =>
    simp only [Interface.timerFired, Receive.currentWhileExpired]
    split <;> rfl
  | _ => rfl

theorem due_timerFired (key : TimerKey) (t : Timers) (now : Nat) (a : Alarm) :
    (i.timerFired key t now).2.deadline? (a.timer slot) = t.deadline? (a.timer slot) := by
  cases key with
  | periodic slot' =>
    exact Interface.deadline?_timerFired_of_ne (a.timer_ne_periodic slot slot')
  | currentWhile slot' =>
    exact Interface.deadline?_timerFired_of_ne (a.timer_ne_currentWhile slot slot')
  | _ => rfl

/-- The timer of a slot fires for the member there, if there is one. -/
theorem timerFired_cases {key : TimerKey} (hkey : key.interface? = some slot) :
    (∀ l, ¬ e.IsMember l slot) ∧ (e.timerFired key).1 = e ∨
      ∃ i l, e.interfaces.get? slot = some i ∧ i.lag = some l ∧
        (e.timerFired key).1 = e.put slot (i.timerFired key e.timers e.now) := by
  have hslot : key.slot = slot := by
    cases key <;> simp_all [TimerKey.interface?, TimerKey.slot]
  cases hi : e.interfaces.get? slot with
  | none =>
    refine .inl ⟨?_, ?_⟩
    · rintro l ⟨i, hi', -⟩
      simp [hi] at hi'
    · cases key with
      | fallback => cases hkey
      | _ => simp [Engine.timerFired, hslot, hi]
  | some i =>
    cases hlag : i.lag with
    | none =>
      refine .inl ⟨not_isMember_of_lag_eq_none hi hlag, ?_⟩
      cases key with
      | fallback => cases hkey
      | _ => simp [Engine.timerFired, hslot, hi, hlag]
    | some l => exact .inr ⟨i, l, rfl, hlag, congrArg Prod.fst (timerFired_eq hkey hi hlag)⟩

/-- A timer of another slot rings nothing. -/
theorem map_ring_of_ne {key : TimerKey} (hkey : key.interface? ≠ some slot) :
    (e.seat? slot).map (Seat.ring slot [key]) = e.seat? slot := by
  have hring : Seat.ring slot [key] = id := by
    funext s
    refine Seat.ring_of_not_mem (fun key' hkey' => ?_) s
    rwa [List.mem_singleton.mp hkey']
  rw [hring, Option.map_id, id]

/-- The firing of a member's timer rings the alarm. -/
theorem seat?_put_timerFired {key : TimerKey} (hkey : key.interface? = some slot)
    (hi : e.interfaces.get? slot = some i) (hlag : i.lag = some l) :
    (e.put slot (i.timerFired key e.timers e.now)).seat? slot =
      (e.seat? slot).map (Seat.ring slot [key]) := by
  have hlag' : (i.timerFired key e.timers e.now).1.lag = some l :=
    Interface.timerFired_lag.trans hlag
  cases hl : e.lags.get? l with
  | none =>
    have hl' : (e.put slot (i.timerFired key e.timers e.now)).lags.get? l = none := hl
    rw [seat?_eq_none_of_dead hi hlag hl, seat?_eq_none_of_dead (get?_put_self hi _) hlag' hl']
    rfl
  | some lag =>
    rw [seat?_put_self hi hlag' hl, seat?_eq hi hlag hl, Option.map_some]
    refine congrArg some (Seat.ext Interface.timerFired_name rfl rfl ?_ ?_ ?_)
    · exact mux_timerFired key e.timers e.now
    · funext a
      simp [Interface.seat, Seat.ring, rung_timerFired key hkey]
    · funext a
      exact due_timerFired key e.timers e.now a

/-- The firing of a timer rings the alarm, and leaves all other seats alone. -/
theorem seat?_timerFired (key : TimerKey) (slot : Nat) :
    (e.timerFired key).1.seat? slot = (e.seat? slot).map (Seat.ring slot [key]) := by
  cases hslot : key.interface? with
  | none =>
    rw [map_ring_of_ne (by simp [hslot])]
    cases key with
    | fallback l =>
      unfold Engine.timerFired
      dsimp only
      split
      · refine seat?_congr rfl (fun k _ => ?_) fun _ => rfl
        rw [modifyLag, Arena.get?_modify]
        split
        · cases e.lags.get? k <;> rfl
        · rfl
      · rfl
    | _ => cases hslot
  | some slot' =>
    by_cases hsame : slot' = slot
    · subst hsame
      obtain ⟨hfree, heq⟩ | ⟨i, l, hi, hlag, heq⟩ := timerFired_cases (e := e) hslot
      · rw [heq, seat?_eq_none hfree]
        rfl
      · rw [heq, seat?_put_timerFired hslot hi hlag]
    · rw [map_ring_of_ne (by simp [hslot, hsame])]
      obtain ⟨-, heq⟩ | ⟨i, l, -, -, heq⟩ := timerFired_cases (e := e) hslot
      · rw [heq]
      · rw [heq]
        refine seat?_put_of_ne hsame fun key' hkey' => ?_
        refine Interface.deadline?_timerFired_of_ne ?_
        rintro rfl
        exact hkey' hslot

theorem seat?_foldl_collect (keys : List TimerKey) (r : Engine × List Nat) (slot : Nat) :
    (keys.foldl collect r).1.seat? slot = (r.1.seat? slot).map (Seat.ring slot keys) := by
  induction keys generalizing r with
  | nil =>
    have hring : Seat.ring slot [] = id := by
      funext s
      exact Seat.ring_of_not_mem (fun _ hkey => absurd hkey List.not_mem_nil) s
    rw [hring, Option.map_id]
    rfl
  | cons key rest ih =>
    have hring : Seat.ring slot rest ∘ Seat.ring slot [key] = Seat.ring slot (key :: rest) := by
      funext s
      simp [Seat.ring, Bool.or_assoc]
    rw [List.foldl_cons, ih, show (collect r key).1 = (r.1.timerFired key).1 from rfl,
      seat?_timerFired, Option.map_map, hring]

theorem now_timerFired (key : TimerKey) : (e.timerFired key).1.now = e.now := by
  unfold Engine.timerFired
  split
  · split <;> rfl
  · split
    · rfl
    · split <;> rfl

theorem now_foldl_collect (keys : List TimerKey) (r : Engine × List Nat) :
    (keys.foldl collect r).1.now = r.1.now := by
  induction keys generalizing r with
  | nil => rfl
  | cons key rest ih => exact (ih _).trans (now_timerFired key)

/-- When the clock is set, time passes over every seat. -/
theorem seat?_timersFired (h : e.timers.WellFormed) (now slot : Nat) :
    ((e.later now).timersFired (e.timers.expired now).1).1.seat? slot =
      (e.seat? slot).map (Seat.pass now) := by
  rw [timersFired_eq, seat?_foldl_collect]
  have hmember : (e.later now).member? slot = e.member? slot := rfl
  unfold seat?
  rw [hmember, Option.map_map, Option.map_map]
  refine Option.map_congr fun m _ => Seat.ext rfl rfl rfl rfl ?_ ?_
  · funext a
    have hfired : decide (a.timer slot ∈ (e.timers.expired now).1) =
        (e.timers.deadline? (a.timer slot)).any (· ≤ now) := by
      rw [Bool.eq_iff_iff, decide_eq_true_iff, Timers.mem_expired h]
      simp [Option.any_eq_true_iff_get, Option.eq_some_iff_get_eq]
    exact congrArg (a.rung m.1.protocol || ·) hfired
  · funext a
    exact Timers.deadline?_expired h now _

/-! ## Actions -/

/-- The step comes from something that leads to where LAGs are evaluated. -/
def Proceeds (e : Engine) (s : Step) : Prop :=
  ∃ m s', e.Leads m ∧ m.Evaluations s' ∧ s.1 = s'.1

theorem Leads.proceeds (h : e.Leads m) (effects : List Effect) : e.Proceeds (m, effects) :=
  ⟨m, (m, []), h, .refl m, rfl⟩

theorem Leads.evaluate (h : e.Leads m) (hstable : (m.evaluate l).1.Stable) :
    e.Proceeds (m.evaluate l) :=
  ⟨m, _, h, .of_move hstable.linked.of_evaluate rfl (.evaluate l), rfl⟩

/-- A beginning of which no seat takes notice. -/
theorem Proceeds.after (h : e'.Proceeds s) (hnow : e'.now = e.now)
    (hseats : e'.seat? = e.seat?) : e.Proceeds s := by
  obtain ⟨m, s', hleads, hevaluations, heq⟩ := h
  exact ⟨m, s', ⟨hnow ▸ hleads.now, fun slot => (hleads.led slot).of_seats hseats⟩, hevaluations,
    heq⟩

section
variable (h : e.Stable)
include h

theorem Coherent.leads_of_seats (hnow : m.now = e.now) (hseats : m.seat? = e.seat?) :
    e.Leads m :=
  ⟨Nat.le_of_eq hnow.symm, fun slot => h.led_of_seat hnow (congrFun hseats slot)⟩

theorem Coherent.leads_refl : e.Leads e := h.leads_of_seats rfl rfl

theorem Coherent.proceeds_refl (effects : List Effect) : e.Proceeds (e, effects) :=
  h.leads_refl.proceeds effects

theorem Coherent.leads_of_thins (hthins : e.Thins m) : e.Leads m where
  now := Nat.le_of_eq hthins.now.symm
  led := by
    intro slot
    obtain hsame | hnone := hthins.seat slot
    · exact h.led_of_seat hthins.now hsame
    · exact .leaves hnone

/-! ### Configuration -/

theorem Coherent.proceeds_changeSystem (system : SystemIdentity) :
    e.Proceeds (e.changeSystem system).step := by
  unfold Engine.changeSystem
  split
  · exact h.proceeds_refl _
  · have hleads : e.Leads (e.told system) := h.leads_of_seats rfl (seat?_told system)
    exact ⟨_, _, hleads, (h.told system).evaluations_evaluateAll _, rfl⟩

theorem Coherent.proceeds_systemSet (key : String) (fields : List Field) :
    e.Proceeds (e.systemSet key fields).step := by
  unfold Engine.systemSet
  split
  · exact h.proceeds_refl _
  · split
    · exact h.proceeds_refl _
    · exact h.proceeds_changeSystem _

theorem Coherent.proceeds_systemDel (key : String) : e.Proceeds (e.systemDel key).step := by
  unfold Engine.systemDel
  split
  · exact h.proceeds_refl _
  · exact h.proceeds_changeSystem _

theorem Coherent.proceeds_lagSet (name : String) (fields : List Field) :
    e.Proceeds (e.lagSet name fields).step := by
  have hstable : (e.lagSet name fields).step.1.Stable := h.lagSet name fields
  revert hstable
  unfold Engine.lagSet
  split
  · exact fun _ => h.proceeds_refl _
  · split
    · split
      · exact fun _ => h.proceeds_refl _
      · intro hstable
        refine Leads.evaluate ?_ hstable
        exact h.leads_of_seats rfl (h.linked.seat?_found _ _)
    · split
      · exact fun _ => h.proceeds_refl _
      · next hl =>
        split
        · exact fun _ => h.proceeds_refl _
        · split
          · exact fun _ => h.proceeds_refl _
          · next new _ _ =>
            intro hstable
            obtain ⟨f, step, hr, -, heq⟩ := h.changeLag_eq hl new
            rw [Outcome.step_ok] at hstable ⊢
            rw [heq] at hstable ⊢
            have hleads : e.Leads (List.foldl f
                (e.modifyLag _ fun lag => { lag with settings := new }) _) :=
              ⟨Nat.le_of_eq (hr.revised h.linked hl).within.now.symm, h.led_revise hl hr⟩
            exact hleads.evaluate hstable

theorem Coherent.proceeds_lagDel (name : String) : e.Proceeds (e.lagDel name).step := by
  unfold Engine.lagDel
  split
  · exact h.proceeds_refl _
  · next l _ =>
    have hthins := (thins_detachMembers (e := e) l
      (((e.lags.get? l).map (·.members)).getD [])).trans (thins_removeLag name l)
    exact (h.leads_of_thins hthins).proceeds _

theorem Coherent.proceeds_attachMember (hi : e.interfaces.get? slot = some i)
    (hlag : i.lag = none) (hl : e.lags.get? l = some lag) (settings : MemberSettings) :
    e.Proceeds (e.attachMember l slot settings) := by
  have hstable := h.attachMember hi hlag hl settings
  revert hstable
  unfold Engine.attachMember
  dsimp only
  rw [attach_eq hi hl]
  intro hstable
  have hleads : e.Leads (e.exchange l slot (·.addMember slot) (e.joined l slot lag i settings)) :=
    ⟨Nat.le_refl _, h.led_join hi hlag hl settings⟩
  exact hleads.evaluate hstable

/-- A member takes a turn, and its LAG is evaluated. -/
theorem Coherent.proceeds_turn {c : Kind} (hq : e.Quiet) (hi : e.interfaces.get? slot = some i)
    (hlag : i.lag = some l) (hl : e.lags.get? l = some lag) {r : Interface × Timers}
    (ht : Turn lag.settings e.now slot i e.timers c r) (hc : c ≠ .timer)
    (hstable : ((e.put slot r).evaluate l).1.Stable) :
    e.Proceeds ((e.put slot r).evaluate l) := by
  have hleads : e.Leads (e.put slot r) := ⟨Nat.le_refl _, h.led_turn hq hi hlag hl ht hc⟩
  exact hleads.evaluate hstable

theorem Coherent.proceeds_changeMember (hq : e.Quiet) (hi : e.interfaces.get? slot = some i)
    (hlag : i.lag = some l) (settings : MemberSettings) :
    e.Proceeds (e.changeMember l slot settings) := by
  obtain ⟨lag, hl, -⟩ := h.lag_of_member hi hlag
  have hstable := h.changeMember hi hlag settings
  have hput : e.changeMember l slot settings = (e.put slot
      ({ i with settings, protocol := { i.protocol with needToTransmit := true } },
        e.timers)).evaluate l :=
    congrArg (·.evaluate l) (modifyInterface_eq_put hi _ e.timers)
  rw [hput] at hstable ⊢
  exact h.proceeds_turn hq hi hlag hl (.settings settings) nofun hstable

/-- No seat changes when an interface becomes known. -/
theorem Coherent.proceeds_ensureInterface {s : Step} (name : String) (hq : e.Quiet)
    (hs : (e.ensureInterface name).1.Stable → (e.ensureInterface name).1.Quiet →
      (e.ensureInterface name).1.Proceeds s) : e.Proceeds s := by
  have hseats := seat?_ensureInterface (e := e) name
  have hnow : (e.ensureInterface name).1.now = e.now := by
    unfold Engine.ensureInterface
    split <;> rfl
  have hquiet : (e.ensureInterface name).1.Quiet := by
    unfold Quiet
    rwa [hseats]
  exact (hs (h.ensureInterface name) hquiet).after hnow hseats

theorem Coherent.proceeds_memberSet (hq : e.Quiet) (key : String) (fields : List Field) :
    e.Proceeds (e.memberSet key fields).step := by
  unfold Engine.memberSet
  split
  · exact h.proceeds_refl _
  · next lagName name _ =>
    split
    · exact h.proceeds_refl _
    · next l hfind =>
      obtain ⟨lag, hl, -⟩ := h.lags.get?_of_find? hfind
      rw [← ensureInterface_lags name] at hl
      apply h.proceeds_ensureInterface name hq
      intro hknown hquiet
      dsimp only
      split
      · exact hknown.proceeds_refl _
      · next i hi =>
        split
        · next hlag =>
          split
          · exact hknown.proceeds_refl _
          · exact hknown.proceeds_attachMember hi hlag hl _
        · next current hlag =>
          split
          · exact hknown.proceeds_refl _
          · next hsame =>
            split
            · exact hknown.proceeds_refl _
            · split
              · exact hknown.proceeds_refl _
              · refine hknown.proceeds_changeMember hquiet hi ?_ _
                rw [hlag, not_not.mp hsame]

theorem Coherent.proceeds_memberDel (key : String) : e.Proceeds (e.memberDel key).step := by
  have hstable : (e.memberDel key).step.1.Stable := h.memberDel key
  revert hstable
  unfold Engine.memberDel
  split
  · exact fun _ => h.proceeds_refl _
  · split
    · split
      · intro hstable
        obtain ⟨m, s', hleads, hevaluations, heq⟩ :=
          (h.leads_of_thins (thins_detachMember _ _)).evaluate hstable
        exact ⟨m, s', hleads, hevaluations, heq⟩
      · exact fun _ => h.proceeds_refl _
    · exact fun _ => h.proceeds_refl _

theorem Coherent.proceeds_updatePort (hq : e.Quiet) (slot : Nat) (status : PortStatus) :
    e.Proceeds (e.updatePort slot status) := by
  have hstable := h.updatePort slot status
  revert hstable
  unfold Engine.updatePort
  split
  · exact fun _ => h.proceeds_refl _
  · next i hi =>
    split
    · exact fun _ => h.proceeds_refl _
    · dsimp only
      split
      · refine fun _ => Leads.proceeds ?_ _
        exact h.leads_of_seats rfl (seat?_report slot status)
      · next l hlag =>
        obtain ⟨lag, hl, -⟩ := h.lag_of_member hi hlag
        have hput : (e.modifyInterface slot fun i => { i with port := status }) =
            e.put slot ({ i with port := status }, e.timers) := modifyInterface_eq_put hi _ _
        rw [hput, syncReceive_eq (get?_put_self hi _) hlag hl, put_put]
        exact h.proceeds_turn hq hi hlag hl (.port status (h.periodic_of_silent hi hlag)) nofun

theorem Coherent.proceeds_portSet (hq : e.Quiet) (name : String) (fields : List Field) :
    e.Proceeds (e.portSet name fields).step := by
  unfold Engine.portSet
  dsimp only
  split
  · exact h.proceeds_refl _
  · exact h.proceeds_ensureInterface _ hq fun hknown hquiet =>
      hknown.proceeds_updatePort hquiet _ _

theorem Coherent.proceeds_portDel (hq : e.Quiet) (name : String) :
    e.Proceeds (e.portDel name).step := by
  unfold Engine.portDel
  split
  · exact h.proceeds_refl _
  · next slot hfind =>
    split
    · exact h.proceeds_updatePort hq slot {}
    · next hfree =>
      obtain ⟨i, hi, -⟩ := h.interfaces.get?_of_find? hfind
      have hlag : i.lag = none := by
        simpa [hi] using hfree
      refine Leads.proceeds ?_ _
      exact h.leads_of_seats rfl (seat?_forget hi hlag name)

theorem Coherent.proceeds_applyEntry (hq : e.Quiet) (table : Table) (entry : Entry) :
    e.Proceeds (e.applyEntry table entry).step := by
  unfold Engine.applyEntry
  split
  · exact h.proceeds_systemSet _ _
  · exact h.proceeds_systemDel _
  · exact h.proceeds_lagSet _ _
  · exact h.proceeds_lagDel _
  · exact h.proceeds_memberSet hq _ _
  · exact h.proceeds_memberDel _
  · exact h.proceeds_portSet hq _ _
  · exact h.proceeds_portDel hq _

/-! ### Events and the clock -/

theorem Coherent.proceeds_setLink (hq : e.Quiet) (name : String) (up : Bool) :
    e.Proceeds (e.setLink name up) := by
  unfold Engine.setLink
  dsimp only
  split
  · exact h.proceeds_ensureInterface _ hq fun hknown _ => hknown.proceeds_refl _
  · exact h.proceeds_ensureInterface _ hq fun hknown hquiet =>
      hknown.proceeds_updatePort hquiet _ _

omit h in
/-- No seat changes when a frame is counted or answered. -/
theorem Course.seats_of_receipt (hc : e.Course (· = .receipt) s) :
    s.1.now = e.now ∧ s.1.seat? = e.seat? := by
  induction hc with
  | refl e => exact ⟨rfl, rfl⟩
  | @step e c s s' hl hc hm _ ih =>
    subst hc
    have hmove : s.1.now = e.now ∧ s.1.seat? = e.seat? := by
      cases hm with
      | shift hs =>
        cases hs with
        | turn _ _ _ ht => cases ht
        | count slot f => exact ⟨rfl, seat?_count slot f⟩
      | answer => exact ⟨rfl, rfl⟩
    exact ⟨ih.1.trans hmove.1, ih.2.trans hmove.2⟩

theorem Coherent.proceeds_receiveFrame (hq : e.Quiet) (name : String) (frame : Frame) :
    e.Proceeds (e.receiveFrame name frame).step := by
  obtain ⟨hcounted, -⟩ | ⟨n, f, l, slot, lag, i, r, -, -, hlistens, heq⟩ :=
    h.receiveFrame_cases name frame
  · have hreceipt := hcounted.seats_of_receipt
    exact (h.leads_of_seats hreceipt.1 hreceipt.2).proceeds _
  · have hstable : (e.receiveFrame name frame).step.1.Stable := h.receiveFrame name frame
    have hquiet : (e.count slot f).Quiet := by
      unfold Quiet
      rwa [seat?_count]
    rw [heq] at hstable ⊢
    have hturn := (h.count slot f).proceeds_turn hquiet hlistens.known hlistens.member
      hlistens.live hlistens.turn nofun hstable
    exact hturn.after rfl (seat?_count slot f)

theorem Coherent.proceeds_advanceTo (time : Nat) : e.Proceeds (e.advanceTo time) := by
  have hnow : e.now ≤ max e.now time := Nat.le_max_left _ _
  rw [advanceTo_eq]
  have hcoherent := (h.timersFired hnow).1
  have hclock : ((e.later (max e.now time)).timersFired
      (e.timers.expired (max e.now time)).1).1.now = max e.now time :=
    now_foldl_collect _ _
  refine ⟨_, _, ⟨?_, fun slot => .stays ?_⟩, hcoherent.evaluations_evaluateAll _, rfl⟩
  · rwa [hclock]
  · rw [hclock]
    exact seat?_timersFired h.timers _ slot

/-- Every action leads to where LAGs are evaluated. -/
theorem Coherent.proceeds_act (hq : e.Quiet) (a : Action) : e.Proceeds (e.act a) := by
  cases a with
  | apply table entry => exact h.proceeds_applyEntry hq table entry
  | event event =>
    cases event with
    | frame name frame => exact h.proceeds_receiveFrame hq name frame
    | link name up => exact h.proceeds_setLink hq name up
  | advanceTo time => exact h.proceeds_advanceTo time
  | requeue table queue =>
    have hleads : e.Leads (e.withQueue queue table) := by
      cases table <;> exact h.leads_of_seats rfl rfl
    exact hleads.proceeds _
  | requeueEvents queue =>
    have hleads : e.Leads { e with eventQueue := queue } := h.leads_of_seats rfl rfl
    exact hleads.proceeds _

end
end LinkAggregation.Engine
