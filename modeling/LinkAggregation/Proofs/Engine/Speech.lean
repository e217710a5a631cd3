import LinkAggregation.Proofs.Engine.Course

/-!
# Who has nothing more to say

An interface that sends and has nothing to tell has told its partner what it is. No shift makes it
another one without giving it something to tell, and an evaluation that changes its flags has it
speak at once, unless the limit holds the message back.
-/
namespace LinkAggregation

/-- What a LAG gives to the ends of its members. -/
def Lag.identity (lag : Lag) : UInt16 × LagSettings := (lag.key, lag.settings)

/-- The end without the flags that tell how the partner is heard. -/
def Endpoint.ageless (x : Endpoint) : Endpoint :=
  { x with state := { x.state with expired := false, defaulted := false } }

/-- The interface sends, and has nothing to tell. -/
structure Interface.Content (i : Interface) : Prop where
  running : i.protocol.periodic.isRunning = true
  quiet : i.protocol.needToTransmit = false

theorem Interface.Content.of_eq {i i' : Interface} (h : i.Content)
    (hperiodic : i'.protocol.periodic = i.protocol.periodic)
    (hquiet : i'.protocol.needToTransmit = i.protocol.needToTransmit) : i'.Content :=
  ⟨hperiodic ▸ h.running, hquiet ▸ h.quiet⟩

theorem Interface.not_content_of_never {i : Interface} (h : i.protocol.periodic = .never) :
    ¬ i.Content := by
  intro hcontent
  have hrunning := hcontent.running
  simp [h] at hrunning

/-! ## What is sent -/

/-- The LACP message in a frame, if it holds one. -/
def Frame.lacp? (frame : Frame) : Option Lacpdu :=
  match Frame.decode frame with
  | .ok (.lacp pdu) => some pdu
  | _ => none

theorem Frame.lacp?_eq_some {frame : Frame} {pdu : Lacpdu} :
    frame.lacp? = some pdu ↔ Frame.decode frame = .ok (.lacp pdu) := by
  unfold lacp?
  split
  · next hframe => simp [hframe]
  · next hother => simp only [reduceCtorEq, false_iff]; exact hother pdu

/-- The LACP message that is sent on this interface. -/
def Effect.lacpOn? (name : String) : Effect → Option Lacpdu
  | .transmit interface frame => if interface = name then frame.lacp? else none
  | _ => none

/-- The LACP messages that are sent on an interface. -/
def messagesOn (name : String) (effects : List Effect) : List Lacpdu :=
  effects.filterMap (·.lacpOn? name)

/-- The last LACP message that is sent on an interface. -/
def lastSent? (name : String) (effects : List Effect) : Option Lacpdu :=
  (effects.filterMap (·.lacpOn? name)).getLast?

section
variable {name : String} {effects more : List Effect}

/-- A message on an interface is sent in a frame. -/
theorem mem_messagesOn {pdu : Lacpdu} :
    pdu ∈ messagesOn name effects ↔
      ∃ frame, Effect.transmit name frame ∈ effects ∧ frame.lacp? = some pdu := by
  rw [messagesOn, List.mem_filterMap]
  constructor
  · rintro ⟨effect, heffect, hpdu⟩
    cases effect with
    | transmit interface frame =>
      obtain ⟨rfl, hframe⟩ := Option.ite_none_right_eq_some.mp hpdu
      exact ⟨frame, heffect, hframe⟩
    | _ => simp [Effect.lacpOn?] at hpdu
  · rintro ⟨frame, heffect, hframe⟩
    exact ⟨_, heffect, (if_pos rfl).trans hframe⟩

@[simp] theorem messagesOn_append :
    messagesOn name (effects ++ more) = messagesOn name effects ++ messagesOn name more :=
  List.filterMap_append

theorem messagesOn_eq_nil (h : ∀ effect ∈ effects, effect.lacpOn? name = none) :
    messagesOn name effects = [] :=
  List.filterMap_eq_nil_iff.mpr h

/-- Only one of several speaks on an interface. -/
theorem messagesOn_flatMap {α : Type} {xs : List α} {f : α → List Effect} {x : α} (hx : x ∈ xs)
    (hnodup : xs.Nodup)
    (hother : ∀ y ∈ xs, y ≠ x → ∀ effect ∈ f y, effect.lacpOn? name = none) :
    messagesOn name (xs.flatMap f) = messagesOn name (f x) := by
  induction xs with
  | nil => simp at hx
  | cons y rest ih =>
    obtain ⟨hnot, hnodup⟩ := List.nodup_cons.mp hnodup
    rw [List.flatMap_cons, messagesOn_append]
    obtain rfl | hx := List.mem_cons.mp hx
    · have hrest : messagesOn name (rest.flatMap f) = [] := by
        refine messagesOn_eq_nil fun effect heffect => ?_
        obtain ⟨z, hz, heffect⟩ := List.mem_flatMap.mp heffect
        exact hother z (List.mem_cons_of_mem x hz) (fun heq => hnot (heq ▸ hz)) effect heffect
      rw [hrest, List.append_nil]
    · have hfirst : messagesOn name (f y) = [] :=
        messagesOn_eq_nil (hother y List.mem_cons_self fun heq => hnot (heq ▸ hx))
      rw [hfirst, List.nil_append]
      exact ih hx hnodup fun z hz => hother z (List.mem_cons_of_mem y hz)

theorem lastSent?_append :
    lastSent? name (effects ++ more) = (lastSent? name more).or (lastSent? name effects) := by
  simp [lastSent?, List.getLast?_append]

theorem lastSent?_eq_none (h : ∀ effect ∈ effects, effect.lacpOn? name = none) :
    lastSent? name effects = none :=
  congrArg List.getLast? (messagesOn_eq_nil h)

end

theorem Frame.lacp?_encodeLacp (pdu : Lacpdu) (source : MacAddress) :
    (Frame.encodeLacp pdu source).lacp? = some pdu := by
  rw [Frame.lacp?, Frame.decode_encodeLacp]

theorem Frame.lacp?_encodeMarker (marker : Marker) (source : MacAddress) :
    (Frame.encodeMarker marker source).lacp? = none := by
  rw [Frame.lacp?, Frame.decode_encodeMarker]

/-! ## Evaluation of a member -/

namespace Evaluation
variable {ev : Evaluation} {selection : Selection} {i : Interface} {name : String}

/-- A member speaks under its own name only. -/
theorem lacpOn?_of_mem_effects {effect : Effect} (h : effect ∈ ev.effects selection i)
    (hname : i.name ≠ name) : effect.lacpOn? name = none := by
  cases effect with
  | transmit interface frame =>
    obtain ⟨-, rfl, -⟩ := transmit_of_mem_effects h
    exact if_neg hname
  | _ => rfl

theorem publish_lacpOn? {effect : Effect} (h : effect ∈ (ev.publish i).2) :
    effect.lacpOn? name = none := by
  unfold publish at h
  dsimp only at h
  split at h
  · simp at h
  · split at h
    · rw [List.mem_singleton.mp h]
      rfl
    · simp at h

/-- What is sent is sent before anything is published. -/
theorem lastSent?_effects :
    lastSent? name (ev.effects selection i) = lastSent? name
      (ev.transmitIfDue 0 { i with protocol := ev.machined selection i }
        (ev.runMachines 0 selection i {}).2).2.2 := by
  have hmachines : (ev.runMachines 0 selection i {}).1 =
      { i with protocol := ev.machined selection i } := runMachines_fst
  rw [effects, member]
  simp only [hmachines, lastSent?_append]
  rw [lastSent?_eq_none fun effect => publish_lacpOn?, Option.none_or]

/-- A member that sends and has something to tell is held back, or speaks. -/
theorem lastSent?_transmitIfDue {slot : Nat} {t : Timers} (hconnected : ev.connected = true)
    (hntt : i.protocol.needToTransmit = true) (hrunning : i.protocol.periodic.isRunning = true)
    (hquiet : (ev.transmitIfDue slot i t).1.protocol.needToTransmit = false) :
    lastSent? i.name (ev.transmitIfDue slot i t).2.2 = some (ev.message i) := by
  unfold transmitIfDue transmit at hquiet ⊢
  simp only [hntt, hrunning, hconnected, Bool.not_true, Bool.false_eq_true, if_false,
    if_true] at hquiet ⊢
  split at hquiet
  · next hgranted =>
    rw [if_pos hgranted]
    simp only [lastSent?, Effect.lacpOn?, if_true, List.filterMap_cons, Frame.lacp?_encodeLacp]
    rfl
  · simp [hntt] at hquiet

/-- The machines leave a member that sends with nothing to tell only if it was so before and its
flags are as they were. -/
theorem content_of_machined (hrunning : (ev.machined selection i).periodic.isRunning = true)
    (hquiet : (ev.machined selection i).needToTransmit = false) :
    i.Content ∧ (ev.muxed selection i.protocol).actor = i.protocol.actor := by
  have hgoal : (periodicGoal i.isEnabled
      (ev.dynamic && (ev.muxed selection i.protocol).receive.isRunning)
      (ev.muxed selection i.protocol)).isRunning = true := hrunning
  -- A member that sends runs the protocol, so a change of its flags gives it something to tell.
  have hactive : (ev.dynamic && (ev.muxed selection i.protocol).receive.isRunning) = true :=
    (of_isRunning_periodicGoal hgoal).2.1
  have hperiodic : (ev.muxed selection i.protocol).periodic = i.protocol.periodic :=
    muxed_keeps Protocol.periodic (fun _ _ _ _ => rfl) i.protocol
  have hntt : (ev.muxed selection i.protocol).needToTransmit = i.protocol.needToTransmit :=
    muxed_keeps Protocol.needToTransmit (fun _ _ _ _ => rfl) i.protocol
  rw [hactive] at hgoal
  simp only [machined, hgoal, hactive, Bool.and_true, Bool.or_eq_false_iff, Bool.not_eq_false',
    bne_eq_false_iff_eq, hperiodic, hntt] at hquiet
  exact ⟨⟨hquiet.1.2, hquiet.1.1⟩, hquiet.2⟩

/-- After an evaluation a member that has nothing to tell has just spoken, or it had nothing to tell
before and looks as before. -/
theorem content_result (hconnected : ev.connected = true)
    (hcontent : (ev.result selection i).Content) :
    lastSent? i.name (ev.effects selection i) = some (ev.message (ev.result selection i)) ∨
      lastSent? i.name (ev.effects selection i) = none ∧ i.Content ∧
        (ev.result selection i).protocol.actor = i.protocol.actor := by
  have hrunning : (ev.machined selection i).periodic.isRunning = true := by
    rw [← result_machined ev selection i Protocol.periodic fun _ _ _ => rfl]
    exact hcontent.running
  have hquiet : (ev.transmitIfDue 0 { i with protocol := ev.machined selection i }
      (ev.runMachines 0 selection i {}).2).1.protocol.needToTransmit = false := by
    have hresult := hcontent.quiet
    rwa [result_eq 0 (ev.runMachines 0 selection i {}).2, publish_fst] at hresult
  rw [lastSent?_effects, message_result]
  cases hntt : (ev.machined selection i).needToTransmit with
  | true => exact .inl (lastSent?_transmitIfDue hconnected hntt hrunning hquiet)
  | false =>
    obtain ⟨hbefore, hactor⟩ := content_of_machined hrunning hntt
    refine .inr ⟨?_, hbefore, (result_actor ev selection i).trans hactor⟩
    simp [transmitIfDue, hntt, lastSent?]

end Evaluation

/-! ## Shifts -/

namespace Engine
variable {e e' : Engine} {c : Kind} {s : Step} {l slot : Nat} {lag : Lag} {i i' : Interface}

/-- Whoever sends with nothing to tell in the second engine did so in the first, and its end of the
link looks as before. -/
def Heeds (e e' : Engine) (slot : Nat) : Prop :=
  ∀ i', e'.interfaces.get? slot = some i' → i'.Content →
    ∃ i, e.interfaces.get? slot = some i ∧ i.name = i'.name ∧ i.Content ∧
      (e'.endpoint? slot).map Endpoint.ageless = (e.endpoint? slot).map Endpoint.ageless

/-- The identity of the system and that of a LAG make the end of a link what it is. -/
theorem endpoint?_congr (hget : e'.interfaces.get? slot = e.interfaces.get? slot)
    (hsystem : e'.system = e.system)
    (hlags : ∀ i l, e.interfaces.get? slot = some i → i.lag = some l →
      (e'.lags.get? l).map Lag.identity = (e.lags.get? l).map Lag.identity) :
    e'.endpoint? slot = e.endpoint? slot := by
  have hends : ∀ (d : Engine), d.endpoint? slot = (d.interfaces.get? slot).bind fun i =>
      i.lag.bind fun l => ((d.lags.get? l).map Lag.identity).map fun k =>
        i.endpoint (d.system.resolve k.2) k.1 := by
    intro d
    unfold endpoint?
    cases d.interfaces.get? slot with
    | none => rfl
    | some i =>
      cases hlag : i.lag with
      | none => simp [hlag]
      | some l => cases hl : d.lags.get? l <;> simp [hlag, hl, Lag.identity]
  rw [hends, hends, hget, hsystem]
  cases hi : e.interfaces.get? slot with
  | none => rfl
  | some i =>
    cases hlag : i.lag with
    | none => simp [hlag]
    | some l => simp only [Option.bind_some, hlag, hlags i l hi hlag]

theorem Heeds.of_same (hget : e'.interfaces.get? slot = e.interfaces.get? slot)
    (hsystem : e'.system = e.system)
    (hlags : ∀ i l, e.interfaces.get? slot = some i → i.lag = some l →
      (e'.lags.get? l).map Lag.identity = (e.lags.get? l).map Lag.identity) :
    e.Heeds e' slot := by
  intro i' hi' hcontent
  rw [hget] at hi'
  exact ⟨i', hi', rfl, hcontent, by rw [endpoint?_congr hget hsystem hlags]⟩

/-- Whoever does not send, or has something to tell, matters to nobody. -/
theorem Heeds.of_not_content (h : ∀ i', e'.interfaces.get? slot = some i' → ¬ i'.Content) :
    e.Heeds e' slot := fun i' hi' hcontent => absurd hcontent (h i' hi')

/-- Bringing a member in line stops it, or leaves it alone, or starts it anew. -/
theorem sync_content {s : LagSettings} {enabled : Bool} {p : Protocol} {t : Timers} {now : Nat}
    (hidle : p.receive.isRunning = false → p.periodic = .never)
    (hrunning : (Receive.sync slot enabled s p t now).1.periodic.isRunning = true) :
    (Receive.sync slot enabled s p t now).1 = p := by
  unfold Receive.sync at hrunning ⊢
  split at hrunning
  · split at hrunning
    · simp_all
    · simp [Receive.portDisabled] at hrunning
  · split at hrunning
    · split at hrunning
      · simp_all
      · simp [Receive.lacpDisabled] at hrunning
    · split at hrunning
      · simp_all
      · next hsilent =>
        have hnever := hidle (by simpa using hsilent)
        simp [Receive.enable, Receive.enterExpired, hnever] at hrunning

/-- A wait that ends changes only how the partner is heard. -/
theorem currentWhileExpired_ageless {p : Protocol} {t : Timers} {now : Nat} :
    let r := Receive.currentWhileExpired slot p t now
    r.1.periodic = p.periodic ∧ r.1.needToTransmit = p.needToTransmit ∧
      { r.1.actor with expired := false, defaulted := false } =
        { p.actor with expired := false, defaulted := false } := by
  unfold Receive.currentWhileExpired
  split <;> exact ⟨rfl, rfl, rfl⟩

/-- After a turn, a member that has nothing to tell looks as before. -/
theorem Turn.content {settings : LagSettings} {now : Nat} {t : Timers} {r : Interface × Timers}
    (ht : Turn settings now slot i t c r) (hcontent : r.1.Content) (system : SystemId)
    (key : UInt16) :
    i.Content ∧ (r.1.endpoint system key).ageless = (i.endpoint system key).ageless := by
  obtain ⟨hrunning, hquiet⟩ := hcontent
  cases ht with
  | port status hidle =>
    have hsame : (Receive.sync slot status.isEnabled settings i.protocol t now).1 = i.protocol :=
      sync_content hidle hrunning
    simp only [hsame] at hrunning hquiet ⊢
    exact ⟨⟨hrunning, hquiet⟩, rfl⟩
  | settings settings => simp at hquiet
  | record own pdu =>
    simp only [Bool.or_eq_false_iff] at hquiet
    exact ⟨⟨hrunning, hquiet.1⟩, rfl⟩
  | timer timer hkey =>
    cases timer with
    | periodic slot' =>
      simp only [Interface.timerFired] at hrunning hquiet ⊢
      cases hinterval : Periodic.interval? i.protocol.periodic with
      | some interval => simp [hinterval] at hquiet
      | none =>
        simp only [hinterval] at hrunning hquiet
        exact ⟨⟨hrunning, hquiet⟩, by rfl⟩
    | currentWhile slot' =>
      obtain ⟨hperiodic, hntt, hactor⟩ :=
        @currentWhileExpired_ageless slot' i.protocol t now
      simp only [Interface.timerFired, Bool.or_eq_false_iff] at hrunning hquiet
      refine ⟨⟨hperiodic ▸ hrunning, hntt ▸ hquiet.1⟩, ?_⟩
      exact congrArg (Endpoint.mk system (i.key key) i.portId) hactor
    | waitWhile slot' => exact ⟨⟨hrunning, hquiet⟩, rfl⟩
    | actorChurn slot' => exact ⟨⟨hrunning, hquiet⟩, rfl⟩
    | partnerChurn slot' => exact ⟨⟨hrunning, hquiet⟩, rfl⟩
    | fallback k => simp [TimerKey.interface?] at hkey

/-- A restart stops a member. -/
theorem restartStep_content {new : LagSettings} {now : Nat} {t : Timers} :
    ¬ (restartStep new now i slot t).1.Content := by
  rintro ⟨hrunning, -⟩
  have hsame : (Receive.sync slot i.isEnabled new {} (t.cancelInterface slot) now).1 = {} :=
    sync_content (fun _ => rfl) hrunning
  simp only [restartStep, hsame] at hrunning
  simp at hrunning

/-- A member that has nothing to tell after it has been told of new settings knows the mode, the
rate and the identity already. -/
theorem retellStep_content {old new : LagSettings} {now : Nat} {t : Timers}
    (hidle : i.protocol.receive.isRunning = false → i.protocol.periodic = .never)
    (hcontent : (retellStep old new now i slot t).1.Content) (identity : SystemIdentity) :
    (retellStep old new now i slot t).1 = i ∧ identity.resolve new = identity.resolve old := by
  obtain ⟨hrunning, hquiet⟩ := hcontent
  cases hreceive : i.protocol.receive.isRunning with
  | false =>
    have hnever := hidle hreceive
    simp [retellStep, Receive.retell, hreceive, hnever] at hrunning
  | true =>
    simp only [retellStep, Receive.retell, hreceive, Bool.true_eq_false, if_false,
      Bool.or_eq_false_iff, decide_eq_false_iff_not, not_not] at hquiet
    obtain ⟨⟨hntt, hmode, hrate⟩, hmac, hpriority⟩ := hquiet
    refine ⟨?_, ?_⟩
    · simp [retellStep, Receive.retell, hreceive, hmode, hrate, hmac, hpriority]
    · simp [SystemIdentity.resolve, hmac, hpriority]

/-- New settings leave a member with nothing to tell only if they tell it nothing. -/
theorem Revision.content {old new : LagSettings} {now : Nat} {t : Timers}
    {f : Engine → Nat → Engine} {step : MemberStep} (hr : Revision old new now f step)
    (hidle : (old.mode.isDynamic && i.protocol.receive.isRunning) = false →
      i.protocol.periodic = .never)
    (hcontent : (step i slot t).1.Content) (identity : SystemIdentity) :
    (step i slot t).1 = i ∧ identity.resolve new = identity.resolve old := by
  cases hr with
  | restart => exact absurd hcontent restartStep_content
  | retell hold =>
    exact retellStep_content (fun hsilent => hidle (by simp [hsilent])) hcontent identity
  | idle hold => exact absurd hcontent (Interface.not_content_of_never (hidle (by simp [hold])))

/-- After a turn of a member, whoever has nothing to tell looks as before. -/
theorem heeds_turn (hi : e.interfaces.get? slot = some i) (hlag : i.lag = some l)
    (hl : e.lags.get? l = some lag) {r : Interface × Timers}
    (ht : Turn lag.settings e.now slot i e.timers c r) (slot' : Nat) :
    e.Heeds (e.put slot r) slot' := by
  by_cases hslot : slot = slot'
  · subst hslot
    intro i' hi' hcontent
    obtain rfl : r.1 = i' := Option.some.inj ((get?_put_self hi r).symm.trans hi')
    have hkeep : r.1.lag = some l := (ht.keeps Interface.lag fun _ _ _ _ _ => rfl).trans hlag
    obtain ⟨hbefore, hsame⟩ := ht.content hcontent (e.system.resolve lag.settings) lag.key
    refine ⟨i, hi, (ht.keeps Interface.name fun _ _ _ _ _ => rfl).symm, hbefore, ?_⟩
    rw [endpoint?_eq hi' hkeep hl, endpoint?_eq hi hlag hl]
    exact congrArg some hsame
  · exact .of_same (by rw [get?_put, if_neg hslot]) rfl fun _ _ _ _ => rfl

theorem Tidy.not_content (htidy : e.Tidy) (hi : e.interfaces.get? slot = some i)
    (hlag : i.lag = none) : ¬ i.Content :=
  Interface.not_content_of_never (by rw [(htidy slot i hi hlag).protocol])

/-- Every member has the new identity to tell, and nobody else sends. -/
theorem Tidy.heeds_told (htidy : e.Tidy) (system : SystemIdentity) (slot : Nat) :
    e.Heeds (e.told system) slot := by
  refine .of_not_content fun i' hi' hcontent => ?_
  have hget : (e.told system).interfaces.get? slot = (e.interfaces.get? slot).map tell :=
    Arena.get?_map _ _ _
  rw [hget] at hi'
  obtain ⟨i, hi, rfl⟩ := Option.map_eq_some_iff.mp hi'
  cases hlag : i.lag with
  | none =>
    have hsame : tell i = i := by simp [tell, hlag]
    exact htidy.not_content hi hlag (hsame ▸ hcontent)
  | some l =>
    have hquiet := hcontent.quiet
    simp [tell, hlag] at hquiet

/-- Members that new settings leave with nothing to tell look the same under them. -/
theorem Linked.heeds_revised (h : e.Linked) (hl : e.lags.get? l = some lag) {new : LagSettings}
    {f : Engine → Nat → Engine} {step : MemberStep}
    (hr : Revision lag.settings new e.now f step)
    (hidle : ∀ slot i, e.interfaces.get? slot = some i → i.lag = some l →
      (lag.isDynamic && i.protocol.receive.isRunning) = false → i.protocol.periodic = .never)
    (slot : Nat) :
    e.Heeds (lag.members.foldl f (e.modifyLag l fun lag => { lag with settings := new }))
      slot := by
  obtain ⟨hwithin, hlags, hothers, hmembers⟩ := get?_revised h hl hr
  generalize lag.members.foldl f (e.modifyLag l fun lag => { lag with settings := new }) = e'
    at hwithin hlags hothers hmembers ⊢
  by_cases hslot : slot ∈ lag.members
  · obtain ⟨i, hi, hlag⟩ := (h.members l lag hl slot).mp hslot
    obtain ⟨t, hstep⟩ := hmembers slot i hslot hi
    intro i' hi' hcontent
    obtain rfl := Option.some.inj (hstep.symm.trans hi')
    obtain ⟨hsame, hresolve⟩ := hr.content (hidle slot i hi hlag) hcontent e.system
    rw [hsame] at hcontent hi' ⊢
    have hl' : e'.lags.get? l = some { lag with settings := new } := by
      rw [hlags, Arena.get?_modify, if_pos rfl, hl]
      rfl
    refine ⟨i, hi, rfl, hcontent, ?_⟩
    rw [endpoint?_eq hi' hlag hl', endpoint?_eq hi hlag hl, hwithin.system, hresolve]
  · refine .of_same (hothers slot hslot) hwithin.system fun i k hi hlag => ?_
    rw [hlags, Arena.get?_modify, if_neg]
    rintro rfl
    exact hslot ((h.members _ lag hl slot).mpr ⟨i, hi, hlag⟩)

/-- Whoever joins a LAG begins with something to tell. -/
theorem heeds_join (hi : e.interfaces.get? slot = some i) (settings : MemberSettings)
    (slot' : Nat) :
    e.Heeds (e.exchange l slot (·.addMember slot) (e.joined l slot lag i settings)) slot' := by
  by_cases hslot : slot = slot'
  · subst hslot
    refine .of_not_content fun i' hi' hcontent => ?_
    rw [get?_exchange, if_pos rfl, hi] at hi'
    obtain rfl := Option.some.inj hi'
    have hsame := sync_content (fun _ => rfl) hcontent.running
    have hrunning := hcontent.running
    simp only [joined, hsame] at hrunning
    simp at hrunning
  · refine .of_same (by rw [get?_exchange, if_neg hslot]) rfl fun _ k _ _ =>
      Arena.map_get?_modify ?_ k
    exact fun _ _ => rfl

/-- No shift makes an interface another one without giving it something to tell. -/
theorem Shift.heeds (hs : Shift e c e') (h : e.Linked) (htidy : e.Tidy) (slot : Nat) :
    e.Heeds e' slot := by
  cases hs with
  | requeue hsame =>
    rw [hsame]
    exact .of_same rfl rfl fun _ _ _ _ => rfl
  | later => exact .of_same rfl rfl fun _ _ _ _ => rfl
  | activate hl =>
    refine .of_same rfl rfl fun _ k _ _ => Arena.map_get?_modify ?_ k
    exact fun _ _ => rfl
  | turn hi hlag hl ht => exact heeds_turn hi hlag hl ht slot
  | count slot' f =>
    intro i' hi' hcontent
    rw [get?_count] at hi'
    obtain ⟨i, hi, rfl⟩ := Option.map_eq_some_iff.mp hi'
    exact ⟨i, hi, rfl, ⟨hcontent.running, hcontent.quiet⟩, by rw [endpoint?_count]⟩
  | identify system => exact htidy.heeds_told system slot
  | revise hl hr hidle => exact h.heeds_revised hl hr hidle slot
  | found =>
    -- The new LAG takes a free slot, which is nobody's LAG.
    refine .of_same rfl rfl fun i k hi hlag => ?_
    obtain ⟨lag, hl, -⟩ := h.lag_of_member hi hlag
    have hk : k ≠ e.lags.freeSlot := by
      rintro rfl
      simp [Arena.get?_freeSlot] at hl
    rw [Arena.get?_insert_of_ne _ _ hk]
  | @meet name hname =>
    by_cases hslot : slot = e.interfaces.freeSlot
    · refine .of_not_content fun i' hi' => ?_
      dsimp only at hi'
      rw [hslot, Arena.get?_insert_freeSlot] at hi'
      obtain rfl := Option.some.inj hi'
      exact Interface.not_content_of_never rfl
    · exact .of_same (Arena.get?_insert_of_ne _ _ hslot) rfl fun _ _ _ _ => rfl
  | @report slot' i status hi hlag =>
    by_cases hslot : slot' = slot
    · subst hslot
      refine .of_not_content fun i' hi' hcontent => ?_
      dsimp only [modifyInterface] at hi'
      rw [Arena.get?_modify, if_pos rfl, hi] at hi'
      obtain rfl := Option.some.inj hi'
      exact htidy.not_content hi hlag ⟨hcontent.running, hcontent.quiet⟩
    · exact .of_same (by simp [modifyInterface, hslot]) rfl fun _ _ _ _ => rfl
  | @forget slot' i name hname hi hlag =>
    by_cases hslot : slot' = slot
    · refine .of_not_content fun i' hi' => ?_
      simp [hslot] at hi'
    · exact .of_same (by simp [hslot]) rfl fun _ _ _ _ => rfl
  | join settings hi hlag hl => exact heeds_join hi settings slot

/-! ## Evaluation of a LAG -/

/-- In an evaluation only members are heard: the bond status of a LAG is not a message. -/
theorem messagesOn_evaluate_eq (hl : e.lags.get? l = some lag) (name : String) :
    messagesOn name (e.evaluate l).2 = messagesOn name ((e.members lag).flatMap fun m =>
      (e.evaluation lag).effects (e.decision l lag m.1) (e.regrant l lag m.1 m.2)) := by
  have hstatus : messagesOn name (if lag.published = some (e.statusAfter l lag) then []
      else e.emit [.writeLag lag.name (e.statusAfter l lag)]) = [] := by
    refine messagesOn_eq_nil fun effect heffect => ?_
    split at heffect
    · simp at heffect
    · rw [List.mem_singleton.mp (mem_of_mem_emit heffect)]
      rfl
  rw [congrArg Prod.snd (evaluate_eq hl), messagesOn_append, hstatus, List.append_nil]

/-- A member says nothing under the name of anybody else. -/
theorem Linked.lacpOn?_of_mem_members (h : e.Linked) (hi : e.interfaces.get? slot = some i)
    {m : Nat × Interface} (hm : m ∈ e.members lag) (hne : m.1 ≠ slot) {effect : Effect}
    (heffect : effect ∈
      (e.evaluation lag).effects (e.decision l lag m.1) (e.regrant l lag m.1 m.2)) :
    effect.lacpOn? i.name = none := by
  refine Evaluation.lacpOn?_of_mem_effects heffect fun hname => hne ?_
  have hregrant : (e.regrant l lag m.1 m.2).name = m.2.name := Interface.withGrant_name _ _
  exact h.interfaces.slot_unique (mem_members.mp hm).2 hi (hregrant.symm.trans hname)

/-- A member says what its own evaluation says. -/
theorem Linked.messagesOn_evaluate (h : e.Linked) (hl : e.lags.get? l = some lag)
    (hi : e.interfaces.get? slot = some i) (hslot : slot ∈ lag.members) :
    messagesOn i.name (e.evaluate l).2 = messagesOn i.name
      ((e.evaluation lag).effects (e.decision l lag slot) (e.regrant l lag slot i)) := by
  have hnodup : (e.members lag).Nodup := List.Pairwise.of_map Prod.fst
    (fun _ _ hne heq => hne (congrArg Prod.fst heq)) (nodup_members (h.nodup l lag hl))
  have hmember : (slot, i) ∈ e.members lag := mem_members.mpr ⟨hslot, hi⟩
  rw [messagesOn_evaluate_eq hl, messagesOn_flatMap hmember hnodup]
  intro m hm hne effect heffect
  refine h.lacpOn?_of_mem_members hi hm (fun hsame => hne ?_) heffect
  have hget := (mem_members.mp hm).2
  rw [hsame] at hget
  exact Prod.ext hsame (Option.some.inj (hget.symm.trans hi))

/-- Whoever is no member is not heard. -/
theorem Linked.messagesOn_evaluate_of_not_mem (h : e.Linked) (hl : e.lags.get? l = some lag)
    (hi : e.interfaces.get? slot = some i) (hslot : slot ∉ lag.members) :
    messagesOn i.name (e.evaluate l).2 = [] := by
  rw [messagesOn_evaluate_eq hl]
  refine messagesOn_eq_nil fun effect heffect => ?_
  obtain ⟨m, hm, heffect⟩ := List.mem_flatMap.mp heffect
  refine h.lacpOn?_of_mem_members hi hm (fun hsame => hslot ?_) heffect
  rw [← hsame]
  exact (mem_members.mp hm).1

end Engine
end LinkAggregation
