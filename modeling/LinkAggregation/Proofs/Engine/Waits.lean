import LinkAggregation.Proofs.Engine.Apart

/-!
# Waits for the next message

A member that hears its partner waits for the next message until a deadline. Moves carry such a
wait on as it is, or end it. Only a message and new settings of the LAG set a deadline anew.
-/
namespace LinkAggregation

/-- New settings set the waits of the members anew. -/
def LagSettings.renews (old new : LagSettings) : Bool :=
  old.mode ≠ new.mode || old.rate ≠ new.rate

namespace Receive
variable {slot now : Nat} {enabled : Bool} {s old new : LagSettings} {p : Protocol} {t : Timers}

/-- Whoever hears its partner after it was brought in line was left alone. -/
theorem sync_of_current (h : (sync slot enabled s p t now).1.receive = .current) :
    sync slot enabled s p t now = (p, t) := by
  unfold sync at h ⊢
  split at h
  · split at h
    · next hdisabled hreceive => rw [if_pos hdisabled, if_pos hreceive]
    · simp [portDisabled] at h
  · next henabled =>
    rw [if_neg henabled]
    split at h
    · split at h
      · next hstatic hreceive => rw [if_pos hstatic, if_pos hreceive]
      · simp [lacpDisabled] at h
    · next hdynamic =>
      rw [if_neg hdynamic]
      split at h
      · next hrunning => rw [if_pos hrunning]
      · simp [enable, enterExpired] at h

/-- Whoever is told of new settings hears its partner as before, and waits anew if the mode or the
rate is another one. -/
theorem retell_of_current (h : (retell slot old new p t now).1.receive = .current) :
    p.receive = .current ∧ (retell slot old new p t now).2.deadline? (.currentWhile slot) =
      if old.renews new then some (now + patience new.rate .current)
      else t.deadline? (.currentWhile slot) := by
  have hrunning : p.receive = .current := by
    unfold retell at h
    dsimp only at h
    split at h
    · exact h
    · split at h <;> exact h
  refine ⟨hrunning, ?_⟩
  have hflags : (decide (old.mode ≠ new.mode) || decide (old.rate ≠ new.rate)) = old.renews new :=
    rfl
  simp only [retell, hrunning, ReceiveState.isRunning, Bool.true_eq_false, if_false, hflags]
  cases old.renews new with
  | true => simp [rateChanged, timeout, withSettings, patience]
  | false => rfl

end Receive

/-- A timer that fires ends the wait of its member, or leaves it alone. -/
theorem Interface.timerFired_of_current {i : Interface} {key : TimerKey} {t : Timers} {now : Nat}
    (h : (i.timerFired key t now).1.protocol.receive = .current) (slot : Nat) :
    i.protocol.receive = .current ∧
      (i.timerFired key t now).2.deadline? (.currentWhile slot) =
        t.deadline? (.currentWhile slot) := by
  cases key with
  | periodic slot' =>
    unfold timerFired at h ⊢
    dsimp only at h ⊢
    split at h
    · exact ⟨h, by simp⟩
    · exact ⟨h, rfl⟩
  | currentWhile slot' =>
    -- The wait is over, so that the partner is not heard any longer.
    cases hreceive : i.protocol.receive <;>
      simp [timerFired, Receive.currentWhileExpired, hreceive, Receive.enterExpired,
        Receive.enterDefaulted] at h
  | waitWhile => exact ⟨h, rfl⟩
  | actorChurn => exact ⟨h, rfl⟩
  | partnerChurn => exact ⟨h, rfl⟩
  | fallback => exact ⟨h, rfl⟩

namespace Engine
variable {e e' : Engine} {c : Kind} {s : Step} {l slot : Nat} {lag : Lag} {i : Interface}

/-- A wait for the next message: of which interface, as a member of which LAG, at which rate, and
until when. -/
structure Wait where
  interface : String
  lag : Nat
  rate : Rate
  deadline : Nat

/-- The member in a slot hears its partner and waits for the next message. -/
structure Awaits (e : Engine) (slot : Nat) (w : Wait) : Prop where
  member : ∃ i, e.interfaces.get? slot = some i ∧ i.name = w.interface ∧ i.lag = some w.lag ∧
    i.protocol.receive = .current
  live : ∃ lag, e.lags.get? w.lag = some lag ∧ lag.settings.rate = w.rate
  armed : e.timers.deadline? (.currentWhile slot) = some w.deadline

variable {w : Wait}

/-! ## Turns -/

/-- A turn without a message ends the wait of its member, or leaves it alone. -/
theorem Turn.of_current {settings : LagSettings} {now : Nat} {t : Timers} {r : Interface × Timers}
    (ht : Turn settings now slot i t c r) (hc : c ≠ .message)
    (h : r.1.protocol.receive = .current) (slot' : Nat) :
    i.protocol.receive = .current ∧
      r.2.deadline? (.currentWhile slot') = t.deadline? (.currentWhile slot') := by
  cases ht with
  | port status =>
    have hsame := Receive.sync_of_current h
    rw [hsame] at h
    exact ⟨h, by rw [hsame]⟩
  | settings => exact ⟨h, rfl⟩
  | record => exact absurd rfl hc
  | timer => exact Interface.timerFired_of_current h slot'

/-- A message sets the wait of its member anew. -/
theorem Turn.deadline?_of_message {settings : LagSettings} {now : Nat} {t : Timers}
    {r : Interface × Timers} (ht : Turn settings now slot i t .message r)
    (htruthful : i.protocol.actor = Receive.withSettings i.protocol.actor settings.mode
      settings.rate) :
    r.2.deadline? (.currentWhile slot) =
      some (now + Receive.patience settings.rate .current) := by
  cases ht with
  | record own pdu =>
    simp only [Receive.record, Timers.deadline?_arm, if_true]
    rw [htruthful]
    rfl

/-! ## Moves -/

/-- A wait is carried on if its three parts are. -/
theorem Awaits.carry (hw : e'.Awaits slot w)
    (hmember : ∀ i', e'.interfaces.get? slot = some i' → i'.lag = some w.lag →
      i'.protocol.receive = .current → ∃ i, e.interfaces.get? slot = some i ∧ i.name = i'.name ∧
        i.lag = i'.lag ∧ i.protocol.receive = .current)
    (hlive : ∀ lag', e'.lags.get? w.lag = some lag' →
      ∃ lag, e.lags.get? w.lag = some lag ∧ lag.settings.rate = lag'.settings.rate)
    (harmed : e'.timers.deadline? (.currentWhile slot) = some w.deadline →
      e.timers.deadline? (.currentWhile slot) = some w.deadline) : e.Awaits slot w where
  member := by
    obtain ⟨i', hi', hname, hlag, hcurrent⟩ := hw.member
    obtain ⟨i, hi, hname', hlag', hcurrent'⟩ := hmember i' hi' hlag hcurrent
    exact ⟨i, hi, hname'.trans hname, hlag'.trans hlag, hcurrent'⟩
  live := by
    obtain ⟨lag', hl', hrate⟩ := hw.live
    obtain ⟨lag, hl, hrate'⟩ := hlive lag' hl'
    exact ⟨lag, hl, hrate'.trans hrate⟩
  armed := harmed hw.armed

/-- A wait is carried on by a change of another interface. -/
theorem Awaits.of_same (hw : e'.Awaits slot w)
    (hget : e'.interfaces.get? slot = e.interfaces.get? slot)
    (hlive : ∀ lag', e'.lags.get? w.lag = some lag' →
      ∃ lag, e.lags.get? w.lag = some lag ∧ lag.settings.rate = lag'.settings.rate)
    (harmed : e'.timers.deadline? (.currentWhile slot) = e.timers.deadline? (.currentWhile slot)) :
    e.Awaits slot w :=
  hw.carry (fun i' hi' _ hcurrent => ⟨i', hget ▸ hi', rfl, rfl, hcurrent⟩) hlive harmed.symm.trans

/-- A wait is carried on by a change of the interface that leaves its membership alone. -/
theorem Awaits.of_map {f : Interface → Interface} (hw : e'.Awaits slot w)
    (hget : e'.interfaces.get? slot = (e.interfaces.get? slot).map f)
    (hf : ∀ i, (f i).name = i.name ∧ (f i).lag = i.lag ∧
      (f i).protocol.receive = i.protocol.receive)
    (hlive : ∀ lag', e'.lags.get? w.lag = some lag' →
      ∃ lag, e.lags.get? w.lag = some lag ∧ lag.settings.rate = lag'.settings.rate)
    (harmed : e'.timers.deadline? (.currentWhile slot) = e.timers.deadline? (.currentWhile slot)) :
    e.Awaits slot w := by
  refine hw.carry (fun i' hi' _ hcurrent => ?_) hlive harmed.symm.trans
  rw [hget] at hi'
  obtain ⟨i, hi, rfl⟩ := Option.map_eq_some_iff.mp hi'
  obtain ⟨hname, hlag, hreceive⟩ := hf i
  exact ⟨i, hi, hname.symm, hlag.symm, hreceive.symm.trans hcurrent⟩

/-- A wait is carried on by a change of one interface that leaves its membership alone. -/
theorem Awaits.of_modify {f : Interface → Interface} {slot' : Nat} (hw : e'.Awaits slot w)
    (hget : e'.interfaces = e.interfaces.modify slot' f)
    (hf : ∀ i, (f i).name = i.name ∧ (f i).lag = i.lag ∧
      (f i).protocol.receive = i.protocol.receive)
    (hlags : e'.lags = e.lags) (htimers : e'.timers = e.timers) : e.Awaits slot w := by
  have hlive : ∀ lag', e'.lags.get? w.lag = some lag' →
      ∃ lag, e.lags.get? w.lag = some lag ∧ lag.settings.rate = lag'.settings.rate :=
    fun lag' hl' => ⟨lag', hlags ▸ hl', rfl⟩
  have hdeadline := congrArg (Timers.deadline? · (.currentWhile slot)) htimers
  by_cases heq : slot' = slot
  · exact hw.of_map (by rw [hget, Arena.get?_modify, if_pos heq]) hf hlive hdeadline
  · exact hw.of_same (by rw [hget, Arena.get?_modify, if_neg heq]) hlive hdeadline

theorem live_of_modify {f : Lag → Lag} (hf : ∀ lag, (f lag).settings = lag.settings)
    (lag' : Lag) (hl : (e.lags.modify l f).get? w.lag = some lag') :
    ∃ lag, e.lags.get? w.lag = some lag ∧ lag.settings.rate = lag'.settings.rate := by
  rw [Arena.get?_modify] at hl
  split at hl
  · obtain ⟨lag, hlag, rfl⟩ := Option.map_eq_some_iff.mp hl
    exact ⟨lag, hlag, by rw [hf]⟩
  · exact ⟨lag', hl, rfl⟩

/-- A turn without a message carries waits on. -/
theorem Awaits.of_turn {r : Interface × Timers} (hw : (e.put slot r).Awaits slot' w)
    (hi : e.interfaces.get? slot = some i) (ht : Turn lag.settings e.now slot i e.timers c r)
    (hc : c ≠ .message) : e.Awaits slot' w := by
  by_cases hslot : slot = slot'
  · subst hslot
    obtain ⟨i', hi', -, -, hcurrent⟩ := hw.member
    rw [get?_put_self hi] at hi'
    obtain rfl := Option.some.inj hi'
    obtain ⟨hreceive, hdeadline⟩ := ht.of_current hc hcurrent slot
    refine hw.carry (fun i' hi' _ _ => ⟨i, hi, ?_⟩) (fun lag' hl' => ⟨lag', hl', rfl⟩)
      hdeadline.symm.trans
    rw [get?_put_self hi] at hi'
    obtain rfl := Option.some.inj hi'
    exact ⟨(ht.keeps Interface.name fun _ _ _ _ _ => rfl).symm,
      (ht.keeps Interface.lag fun _ _ _ _ _ => rfl).symm, hreceive⟩
  · refine hw.of_same (by rw [get?_put, if_neg hslot]) (fun lag' hl' => ⟨lag', hl', rfl⟩) ?_
    exact ht.deadline?_of_ne fun heq => hslot (Option.some.inj heq).symm

/-- Other shifts than messages and new settings carry waits on. -/
theorem Shift.awaits (hs : Shift e c e') (h : e.Linked) (hmessage : c ≠ .message)
    (hrevision : c ≠ .revision) (hw : e'.Awaits slot w) : e.Awaits slot w := by
  have hlive : ∀ lag', e.lags.get? w.lag = some lag' →
      ∃ lag, e.lags.get? w.lag = some lag ∧ lag.settings.rate = lag'.settings.rate :=
    fun lag' hl' => ⟨lag', hl', rfl⟩
  cases hs with
  | requeue hsame =>
    rw [hsame] at hw
    exact hw.of_same rfl hlive rfl
  | @later now hnow ht =>
    refine hw.carry (fun i' hi' _ hcurrent => ⟨i', hi', rfl, rfl, hcurrent⟩) hlive fun hd => ?_
    have hexpired : (e.later now).timers.deadline? (.currentWhile slot) = _ :=
      Timers.deadline?_expired ht now _
    rw [hexpired] at hd
    exact (Option.filter_eq_some_iff.mp hd).1
  | activate => exact hw.of_same rfl (live_of_modify fun _ => rfl) rfl
  | turn hi hlag hl ht => exact hw.of_turn hi ht hmessage
  | count => exact hw.of_modify rfl (fun i => ⟨rfl, rfl, rfl⟩) rfl rfl
  | identify system =>
    have hget : (e.told system).interfaces.get? slot = (e.interfaces.get? slot).map tell :=
      Arena.get?_map _ _ _
    exact hw.of_map hget (fun i => ⟨tell_keeps Interface.name (fun _ _ => rfl) i,
      tell_keeps Interface.lag (fun _ _ => rfl) i,
      tell_keeps (·.protocol.receive) (fun _ _ => rfl) i⟩) hlive rfl
  | revise => exact absurd rfl hrevision
  | found settings hkey hname =>
    obtain ⟨i, hi, -, hlag, -⟩ := hw.member
    obtain ⟨lag, hl, -⟩ := h.lag_of_member hi hlag
    refine hw.of_same rfl (fun lag' hl' => ⟨lag', ?_, rfl⟩) rfl
    rw [← hl']
    refine (Arena.get?_insert_of_ne _ _ ?_).symm
    rintro heq
    rw [heq, Arena.get?_freeSlot] at hl
    simp at hl
  | @meet name hname =>
    obtain ⟨i, hi, -, hlag, -⟩ := hw.member
    refine hw.of_same ?_ hlive rfl
    refine Arena.get?_insert_of_ne _ _ ?_
    rintro rfl
    rw [Arena.get?_insert_freeSlot] at hi
    obtain rfl := Option.some.inj hi
    simp [Interface.new] at hlag
  | report => exact hw.of_modify rfl (fun i => ⟨rfl, rfl, rfl⟩) rfl rfl
  | @forget slot' i name hname hi hlag =>
    have hslot : slot ≠ slot' := by
      rintro rfl
      obtain ⟨i', hi', -⟩ := hw.member
      simp at hi'
    refine hw.of_same (by simp [hslot.symm]) hlive ?_
    simp [TimerKey.interface?, hslot]
  | @join l slot' lag i settings hi hlag hl =>
    have hslot : slot' ≠ slot := by
      rintro rfl
      obtain ⟨i', hi', -, -, hcurrent⟩ := hw.member
      rw [get?_exchange, if_pos rfl, hi] at hi'
      obtain rfl := Option.some.inj hi'
      -- Whoever joins begins with a machine that hears nobody.
      have hsame := Receive.sync_of_current hcurrent
      simp only [joined, hsame] at hcurrent
      simp at hcurrent
    refine hw.of_same (by rw [get?_exchange, if_neg hslot]) (live_of_modify fun _ => rfl) ?_
    exact Receive.deadline?_sync_of_ne fun heq => hslot (Option.some.inj heq).symm

/-- An evaluation leaves the deadlines for the next message alone. -/
theorem Linked.deadline?_evaluate_currentWhile (h : e.Linked) (slot : Nat) :
    (e.evaluate l).1.timers.deadline? (.currentWhile slot) =
      e.timers.deadline? (.currentWhile slot) := by
  cases hl : e.lags.get? l with
  | none => rw [evaluate_of_not_live hl]
  | some lag =>
    by_cases hslot : slot ∈ lag.members
    · obtain ⟨i, hi, -⟩ := (h.members l lag hl slot).mp hslot
      obtain ⟨t, hold, hnew⟩ := deadline?_evaluate hl (h.nodup l lag hl) hslot hi
      rw [hnew _ rfl, Evaluation.deadline?_member_currentWhile, hold _ rfl]
    · refine deadline?_evaluate_of_ne hl (by simp) fun slot' hslot' heq => hslot ?_
      rwa [Option.some.inj heq]

theorem Awaits.of_evaluate (hw : (e.evaluate l).1.Awaits slot w) (h : e.Linked) :
    e.Awaits slot w := by
  have hdeadline := h.deadline?_evaluate_currentWhile (l := l) slot
  cases hl : e.lags.get? l with
  | none => rwa [evaluate_of_not_live hl] at hw
  | some lag =>
    have hlive : ∀ lag', (e.evaluate l).1.lags.get? w.lag = some lag' →
        ∃ lag, e.lags.get? w.lag = some lag ∧ lag.settings.rate = lag'.settings.rate := by
      intro lag' hl'
      rw [evaluate_lags hl] at hl'
      refine live_of_modify ?_ lag' hl'
      exact fun _ => rfl
    by_cases hslot : slot ∈ lag.members
    · refine hw.of_map (get?_evaluate hl (h.nodup l lag hl) hslot) (fun i => ⟨?_, ?_, ?_⟩) hlive
        hdeadline
      · exact after_keeps Interface.name (fun _ _ _ _ _ => rfl) i
      · exact after_keeps Interface.lag (fun _ _ _ _ _ => rfl) i
      · simp [after, regrant]
    · exact hw.of_same (get?_evaluate_of_not_mem hl hslot) hlive hdeadline

/-- Other moves than messages and new settings carry waits on. -/
theorem Move.awaits (hm : Move e c s) (h : e.Linked) (hmessage : c ≠ .message)
    (hrevision : c ≠ .revision) (hw : s.1.Awaits slot w) : e.Awaits slot w := by
  cases hm with
  | shift hs => exact hs.awaits h hmessage hrevision hw
  | answer => exact hw
  | dissolve hname hl hempty hpublished =>
    refine hw.of_same rfl (fun lag' hl' => ?_) (by simp)
    rw [Arena.get?_remove] at hl'
    split at hl'
    · simp at hl'
    · exact ⟨lag', hl', rfl⟩
  | @leave l slot' i hi hlag =>
    have hslot : slot' ≠ slot := by
      rintro rfl
      obtain ⟨i', hi', -, hmember, -⟩ := hw.member
      rw [get?_exchange, if_pos rfl, hi] at hi'
      obtain rfl := Option.some.inj hi'
      simp [freed] at hmember
    refine hw.of_same (by rw [get?_exchange, if_neg hslot]) (live_of_modify fun _ => rfl) ?_
    have hdeadline : (e.freed slot' i).2.deadline? (.currentWhile slot) = _ :=
      Timers.deadline?_cancelInterface _ _ _
    exact hdeadline.trans (if_neg fun heq => hslot (Option.some.inj heq).symm)
  | evaluate l => exact hw.of_evaluate h

/-- So do courses of such moves. -/
theorem Course.awaits {allowed : Kind → Prop} (hc : e.Course allowed s)
    (hmessage : ¬ allowed .message) (hrevision : ¬ allowed .revision)
    (hw : s.1.Awaits slot w) : e.Awaits slot w := by
  induction hc with
  | refl => exact hw
  | step h hc hm _ ih =>
    exact hm.awaits h (fun heq => hmessage (heq ▸ hc)) (fun heq => hrevision (heq ▸ hc)) (ih hw)

/-! ## Messages and new settings -/

/-- A message sets one wait anew, and others are carried on. -/
theorem Awaits.of_message {r : Interface × Timers} {slot' : Nat}
    (hw : (e.put slot r).Awaits slot' w)
    (hi : e.interfaces.get? slot = some i) (hlag : i.lag = some l)
    (hl : e.lags.get? l = some lag) (ht : Turn lag.settings e.now slot i e.timers .message r)
    (htruthful : i.protocol.actor = Receive.withSettings i.protocol.actor lag.settings.mode
      lag.settings.rate) :
    e.Awaits slot' w ∨
      w.interface = i.name ∧ w.deadline = e.now + Receive.patience w.rate .current := by
  by_cases hslot : slot = slot'
  · subst hslot
    obtain ⟨i', hi', hname, hmember, -⟩ := hw.member
    rw [get?_put_self hi] at hi'
    obtain rfl := Option.some.inj hi'
    rw [ht.keeps Interface.name fun _ _ _ _ _ => rfl] at hname
    rw [ht.keeps Interface.lag fun _ _ _ _ _ => rfl, hlag, Option.some.injEq] at hmember
    obtain ⟨lag', hl', hrate⟩ := hw.live
    have hlive : e.lags.get? w.lag = some lag' := hl'
    rw [← hmember, hl, Option.some.injEq] at hlive
    refine .inr ⟨hname.symm, ?_⟩
    have harmed : r.2.deadline? (.currentWhile slot) = some w.deadline := hw.armed
    rw [ht.deadline?_of_message htruthful, Option.some.injEq] at harmed
    rw [← harmed, ← hrate, ← hlive]
  · refine .inl (hw.of_same (by rw [get?_put, if_neg hslot]) (fun lag' hl' => ⟨lag', hl', rfl⟩) ?_)
    exact ht.deadline?_of_ne fun heq => hslot (Option.some.inj heq).symm

/-- A LAG keeps its new settings when it is evaluated. -/
theorem Revised.settings_evaluate {new : LagSettings} {step : MemberStep}
    (hr : e.Revised l lag new step e') (hl : e.lags.get? l = some lag) :
    ∃ lag', (e'.evaluate l).1.lags.get? l = some lag' ∧ lag'.settings = new := by
  have hl' : e'.lags.get? l = some { lag with settings := new } := by
    rw [hr.lags, Arena.get?_modify, if_pos rfl, hl]
    rfl
  rw [evaluate_lags hl', Arena.get?_modify, if_pos rfl, hl']
  exact ⟨_, rfl, rfl⟩

/-- New settings of a LAG carry waits on, but set those of its own members anew if the mode or the
rate is another one. -/
theorem Awaits.of_revised {new : LagSettings} {f : Engine → Nat → Engine} {step : MemberStep}
    (h : e.Stable) (hl : e.lags.get? l = some lag) (hr : Revision lag.settings new e.now f step)
    (hw : (lag.members.foldl f (e.modifyLag l fun lag => { lag with settings := new })).Awaits
      slot w) :
    e.Awaits slot w ∨ w.lag = l ∧ lag.settings.renews new = true ∧
      w.deadline = e.now + Receive.patience w.rate .current ∧
      ∃ i, e.interfaces.get? slot = some i ∧ i.name = w.interface ∧ i.lag = some l ∧
        i.protocol.receive = .current := by
  have hrevised := hr.revised h.linked hl
  obtain ⟨i', hi', hname, hlag', hcurrent⟩ := hw.member
  by_cases hslot : slot ∈ lag.members
  · obtain ⟨i, hi, hlag⟩ := h.get?_of_mem hl hslot
    obtain ⟨t, hold, hget, hnew⟩ := hrevised.members slot i hslot hi
    obtain rfl := Option.some.inj (hget.symm.trans hi')
    rw [hr.keeps Interface.name fun _ _ => rfl] at hname
    rw [hr.keeps Interface.lag fun _ _ => rfl, hlag, Option.some.injEq] at hlag'
    have hdeadline := (hnew (.currentWhile slot) rfl).symm.trans hw.armed
    have hrate : new.rate = w.rate := by
      obtain ⟨lag', hl', hrate⟩ := hw.live
      rw [hrevised.lags, ← hlag', Arena.get?_modify, if_pos rfl, hl] at hl'
      rw [← hrate, ← Option.some.inj hl']
    -- Only a running machine that is told of new settings still hears its partner.
    cases hr with
    | restart =>
      have hsame := Receive.sync_of_current hcurrent
      simp only [restartStep, hsame] at hcurrent
      simp at hcurrent
    | retell hdynamic hdynamic' =>
      obtain ⟨hbefore, hretold⟩ := Receive.retell_of_current hcurrent
      have hwait := hretold.symm.trans hdeadline
      cases hrenews : lag.settings.renews new with
      | true =>
        rw [hrenews, if_pos rfl, Option.some.injEq, hrate] at hwait
        exact .inr ⟨hlag'.symm, rfl, hwait.symm, i, hi, hname, hlag, hbefore⟩
      | false =>
        rw [hrenews, if_neg Bool.false_ne_true, hold _ rfl] at hwait
        simp only [LagSettings.renews, Bool.or_eq_false_iff, decide_eq_false_iff_not,
          not_not] at hrenews
        exact .inl ⟨⟨i, hi, hname, hlag ▸ congrArg some hlag', hbefore⟩,
          ⟨lag, hlag' ▸ hl, hrenews.2.trans hrate⟩, hwait⟩
    | idle hstatic =>
      have hheard : i.protocol.receive = .current := hcurrent
      have hdynamic := ((h.sound_member hi hlag hl).follows.of_running (by rw [hheard]; rfl)).2
      simp [hstatic] at hdynamic
  · have hi : e.interfaces.get? slot = some i' := (hrevised.others slot hslot).symm.trans hi'
    have hne : l ≠ w.lag := by
      rintro rfl
      exact hslot ((h.members _ lag hl slot).mpr ⟨i', hi, hlag'⟩)
    refine .inl (hw.of_same (hrevised.others slot hslot) (fun lag' hl' => ⟨lag', ?_, rfl⟩) ?_)
    · rwa [hrevised.lags, Arena.get?_modify, if_neg hne] at hl'
    · refine hrevised.timers _ fun slot' hslot' heq => hslot ?_
      rwa [Option.some.inj heq]

end Engine
end LinkAggregation
