import LinkAggregation.Proofs.Engine.Speech

/-!
# What interfaces have said is what they are

An interface that sends has either said last what it is now, apart from how it hears its partner, or
it still has to speak: then the limit holds it back, and the periodic timer comes for it when the
window ends. What an interface said before it stopped sending does not count.
-/
namespace LinkAggregation

/-- What each interface has said last. -/
abbrev Sayings := String → Option Lacpdu

/-- What each interface has said last after more has been sent. -/
def Sayings.after (said : Sayings) (effects : List Effect) : Sayings :=
  fun name => (lastSent? name effects).or (said name)

theorem Sayings.after_append (said : Sayings) (effects more : List Effect) :
    said.after (effects ++ more) = (said.after effects).after more := by
  funext name
  simp only [after, lastSent?_append, Option.or_assoc]

namespace Engine
variable {e e' : Engine} {c : Kind} {allowed : Kind → Prop} {s : Step} {l slot : Nat}
  {lag : Lag} {i i' : Interface}
  {said said' : Sayings} {effects : List Effect}

/-- What the interface has said last is what it is now, apart from how it hears its partner. -/
def HasSaid (e : Engine) (said : Sayings) (slot : Nat) (i : Interface) : Prop :=
  ∃ pdu own, said i.name = some pdu ∧ e.endpoint? slot = some own ∧
    pdu.actor.ageless = own.ageless

/-- Whoever sends and has nothing to tell has said what it is now. -/
def Told (e : Engine) (said : Sayings) : Prop :=
  ∀ slot i, e.interfaces.get? slot = some i → i.Content → e.HasSaid said slot i

/-! ## Moves -/

/-- Whoever is not heard and looks as before has said what it is. -/
theorem Told.of_heeds (ht : e.Told said) (hheeds : e.Heeds e' slot)
    (hi' : e'.interfaces.get? slot = some i') (hcontent : i'.Content)
    (hsaid : said' i'.name = said i'.name) : e'.HasSaid said' slot i' := by
  obtain ⟨i, hi, hname, hbefore, hend⟩ := hheeds i' hi' hcontent
  obtain ⟨pdu, own, hpdu, hown, hsame⟩ := ht slot i hi hbefore
  rw [hown] at hend
  obtain ⟨own', hown', heq⟩ := Option.map_eq_some_iff.mp hend
  exact ⟨pdu, own', by rw [hsaid, ← hname, hpdu], hown', hsame.trans heq.symm⟩

/-- Nothing is said, and whoever has nothing to tell looks as before. -/
theorem Told.of_silent (ht : e.Told said) (hheeds : ∀ slot, e.Heeds e' slot)
    (hsilent : ∀ name, ∀ effect ∈ effects, effect.lacpOn? name = none) :
    e'.Told (said.after effects) := by
  intro slot i' hi' hcontent
  refine ht.of_heeds (hheeds slot) hi' hcontent ?_
  rw [Sayings.after, lastSent?_eq_none (hsilent i'.name), Option.none_or]

/-- A LAG without members goes unnoticed. -/
theorem heeds_dissolve {name : String} (h : e.Linked) (hl : e.lags.get? l = some lag)
    (hempty : lag.members = []) (slot : Nat) :
    e.Heeds { e with timers := e.timers.cancel (.fallback l), lags := e.lags.remove name l }
      slot := by
  refine .of_same rfl rfl fun i k hi hlag => ?_
  rw [Arena.get?_remove, if_neg]
  rintro rfl
  have hslot := (h.members l lag hl slot).mpr ⟨i, hi, hlag⟩
  simp [hempty] at hslot

/-- Whoever leaves a LAG sends no more. -/
theorem heeds_leave (hi : e.interfaces.get? slot = some i) (slot' : Nat) :
    e.Heeds (e.exchange l slot (·.removeMember slot) (e.freed slot i)) slot' := by
  by_cases hslot : slot = slot'
  · subst hslot
    refine .of_not_content fun i' hi' => ?_
    rw [get?_exchange, if_pos rfl, hi] at hi'
    obtain rfl := Option.some.inj hi'
    exact Interface.not_content_of_never rfl
  · refine .of_same (by rw [get?_exchange, if_neg hslot]) rfl fun _ k _ _ =>
      Arena.map_get?_modify ?_ k
    exact fun _ _ => rfl

/-- The end of a member after an evaluation. -/
theorem endpoint?_evaluate (h : e.Linked) (hl : e.lags.get? l = some lag)
    (hi : e.interfaces.get? slot = some i) (hlag : i.lag = some l) :
    (e.evaluate l).1.endpoint? slot =
      some ((e.after l lag slot i).endpoint (e.system.resolve lag.settings) lag.key) := by
  have hslot : slot ∈ lag.members := (h.members l lag hl slot).mpr ⟨i, hi, hlag⟩
  have hi' : (e.evaluate l).1.interfaces.get? slot = some (e.after l lag slot i) := by
    rw [get?_evaluate hl (h.nodup l lag hl) hslot, hi]
    rfl
  have hlag' : (e.after l lag slot i).lag = some l :=
    (after_keeps Interface.lag (fun _ _ _ _ _ => rfl) i).trans hlag
  rw [endpoint?_eq hi' hlag' (get?_lags_evaluate hl), evaluate_keeps hl]
  rfl

/-- An evaluation changes nothing of the end of a member but the flags. -/
theorem endpoint_after (hactor : (e.after l lag slot i).protocol.actor = i.protocol.actor)
    (system : SystemId) (key : UInt16) :
    (e.after l lag slot i).endpoint system key = i.endpoint system key := by
  have hkey : (e.after l lag slot i).key key = i.key key :=
    after_keeps (fun i => i.key key) (fun _ _ _ _ _ => rfl) i
  have hport : (e.after l lag slot i).portId = i.portId :=
    after_keeps Interface.portId (fun _ _ _ _ _ => rfl) i
  simp only [Interface.endpoint, hkey, hport, hactor]

/-- A fallback grant concerns the partner only. -/
theorem regrant_keeps {α : Type} (f : Protocol → α)
    (hf : ∀ p granted partner, f { p with fallbackGranted := granted, partner } = f p) :
    f (e.regrant l lag slot i).protocol = f i.protocol :=
  Interface.withGrant_keeps (fun i => f i.protocol) (fun i => hf i.protocol) i _

/-- A member that has nothing to tell after an evaluation has just spoken, or looks as before. -/
theorem Told.evaluate_member (ht : e.Told said) (h : e.Linked) (hconnected : e.connected = true)
    (hl : e.lags.get? l = some lag) (hi : e.interfaces.get? slot = some i)
    (hslot : slot ∈ lag.members) (hcontent : (e.after l lag slot i).Content) :
    (e.evaluate l).1.HasSaid (said.after (e.evaluate l).2) slot (e.after l lag slot i) := by
  have hlag : i.lag = some l := by
    obtain ⟨j, hj, hlag⟩ := (h.members l lag hl slot).mp hslot
    rwa [Option.some.inj (hi.symm.trans hj)]
  have hname : (e.after l lag slot i).name = i.name :=
    after_keeps Interface.name (fun _ _ _ _ _ => rfl) i
  have hregrant : (e.regrant l lag slot i).name = i.name := Interface.withGrant_name _ _
  -- The machines see the member with its fallback grant, which it does not tell its partner.
  have hresult := @Evaluation.content_result (e.evaluation lag) _ _ hconnected hcontent
  rw [hregrant] at hresult
  unfold HasSaid Sayings.after
  have hheard : lastSent? i.name (e.evaluate l).2 = lastSent? i.name
      ((e.evaluation lag).effects (e.decision l lag slot) (e.regrant l lag slot i)) :=
    congrArg List.getLast? (h.messagesOn_evaluate hl hi hslot)
  rw [hname, hheard, endpoint?_evaluate h hl hi hlag]
  obtain hspoke | ⟨hsilent, hbefore, hactor⟩ := hresult
  · rw [hspoke]
    exact ⟨_, _, rfl, rfl, rfl⟩
  · have hcontent' : i.Content := hbefore.of_eq
      (regrant_keeps Protocol.periodic fun _ _ _ => rfl).symm
      (regrant_keeps Protocol.needToTransmit fun _ _ _ => rfl).symm
    obtain ⟨pdu, own, hpdu, hown, hsame⟩ := ht slot i hi hcontent'
    rw [endpoint?_eq hi hlag hl] at hown
    obtain rfl := Option.some.inj hown
    have hactor' : (e.after l lag slot i).protocol.actor = i.protocol.actor :=
      hactor.trans (regrant_keeps Protocol.actor fun _ _ _ => rfl)
    rw [hsilent, endpoint_after hactor']
    exact ⟨pdu, _, hpdu, rfl, hsame⟩

/-- An evaluation. -/
theorem Told.evaluate (ht : e.Told said) (h : e.Linked) (hconnected : e.connected = true)
    (l : Nat) : (e.evaluate l).1.Told (said.after (e.evaluate l).2) := by
  cases hl : e.lags.get? l with
  | none =>
    rw [evaluate_of_not_live hl]
    exact ht
  | some lag =>
    intro slot i' hi' hcontent
    by_cases hslot : slot ∈ lag.members
    · rw [get?_evaluate hl (h.nodup l lag hl) hslot] at hi'
      obtain ⟨i, hi, rfl⟩ := Option.map_eq_some_iff.mp hi'
      exact ht.evaluate_member h hconnected hl hi hslot hcontent
    · have hget := get?_evaluate_of_not_mem hl hslot
      rw [hget] at hi'
      refine ht.of_heeds (Heeds.of_same hget ?_ ?_) (hget.trans hi') hcontent ?_
      · rw [evaluate_keeps hl]
      · intro i k _ _
        rw [evaluate_lags hl]
        refine Arena.map_get?_modify ?_ k
        exact fun _ _ => rfl
      · have hunheard : lastSent? i'.name (e.evaluate l).2 = none :=
          congrArg List.getLast? (h.messagesOn_evaluate_of_not_mem hl hi' hslot)
        rw [Sayings.after, hunheard, Option.none_or]

/-- Every move keeps it so. -/
theorem Told.move (ht : e.Told said) (hm : Move e c s) (h : e.Linked)
    (hconnected : e.connected = true) (htidy : e.Tidy) :
    s.1.Told (said.after s.2) := by
  cases hm with
  | shift hs =>
    exact ht.of_silent (hs.heeds h htidy) fun _ _ hnone => absurd hnone List.not_mem_nil
  | answer name marker source =>
    refine ht.of_silent (fun _ => .of_same rfl rfl fun _ _ _ _ => rfl) fun name effect heffect => ?_
    rw [List.mem_singleton.mp heffect, Effect.lacpOn?, Frame.lacp?_encodeMarker, ite_self]
  | dissolve hname hl hempty =>
    refine ht.of_silent (heeds_dissolve h hl hempty) fun name effect heffect => ?_
    rw [List.mem_singleton.mp (mem_of_mem_emit heffect)]
    rfl
  | leave hi hlag =>
    refine ht.of_silent (heeds_leave hi) fun name effect heffect => ?_
    split at heffect
    · rw [List.mem_singleton.mp (mem_of_mem_emit heffect)]
      rfl
    · simp at heffect
  | evaluate l => exact ht.evaluate h hconnected l

/-- So does a course. -/
theorem Course.told (hc : e.Course allowed s) (hconnected : e.connected = true) (htidy : e.Tidy)
    (ht : e.Told said) : s.1.Told (said.after s.2) := by
  induction hc generalizing said with
  | refl => exact ht
  | step hl hc hm _ ih =>
    rw [Sayings.after_append]
    exact ih ((hm.connected hl).trans hconnected) ((Course.of_move hl hc hm).tidy htidy)
      (ht.move hm hl hconnected htidy)

/-! ## Runs -/

/-- What is still remembered of what has been said: an interface that does not send is forgotten. -/
def remember (e : Engine) (said : Sayings) : Sayings :=
  fun name => if (e.interface? name).any (·.protocol.periodic.isRunning) then said name else none

/-- What each interface has said last, since it last began to send. -/
def saidAfter (e : Engine) (said : Sayings) : List Action → Sayings
  | [] => said
  | a :: rest => (e.act a).1.saidAfter ((e.act a).1.remember (said.after (e.act a).2)) rest

/-- The actions of a run. -/
def runActions [Clock] (e : Engine) : List Request → List Action
  | [] => []
  | request :: rest => e.actions request ++ (e.handle request).engine.runActions rest

/-- The actions of a run have its outcome. -/
theorem acts_runActions [Clock] (e : Engine) (requests : List Request) :
    e.acts (e.runActions requests) = e.run requests := by
  induction requests generalizing e with
  | nil => rfl
  | cons request rest ih =>
    have hrun : e.run (request :: rest) = (e.handle request).step.next (·.run rest) := by
      unfold Engine.run
      rw [List.foldl_cons, foldl_next fun e r => (e.handle r).step]
      rfl
    rw [runActions, acts_append, acts_actions, hrun]
    exact congrArg (fun s : Step => (s.1, (e.handle request).effects ++ s.2)) (ih _)

/-- Nobody who sends is forgotten. -/
theorem Told.remember (ht : e.Told said) (h : e.Linked) : e.Told (e.remember said) := by
  intro slot i hi hcontent
  obtain ⟨pdu, own, hpdu, hown, hsame⟩ := ht slot i hi hcontent
  refine ⟨pdu, own, ?_, hown, hsame⟩
  rw [Engine.remember, h.interface?_name hi]
  exact (if_pos hcontent.running).trans hpdu

/-- Actions in order. -/
theorem Told.acts (ht : e.Told said) (actions : List Action) (h : e.Stable)
    (hconnected : e.connected = true) (htidy : e.Tidy) :
    (e.acts actions).1.Told (e.saidAfter said actions) := by
  induction actions generalizing e said with
  | nil => exact ht
  | cons a rest ih =>
    have hcourse := h.course_act a
    have hstable := h.act a
    rw [acts_cons, next_fst, saidAfter]
    exact ih ((hcourse.told hconnected htidy ht).remember hstable.linked) hstable
      (hcourse.connected.trans hconnected) (hcourse.tidy htidy)

/-- What interfaces have said is what they are, or they still have to speak and are held back. -/
structure UpToDate (e : Engine) (said : Sayings) : Prop where
  /-- Who sends and has nothing to tell has said what it is since it began to send. -/
  told : ∀ slot i, e.interfaces.get? slot = some i → i.protocol.periodic.isRunning = true →
    i.protocol.needToTransmit = false → e.HasSaid said slot i
  /-- Who sends and has something to tell has used up the window, which has not ended, and wakes up
  when it ends. -/
  held : ∀ slot i, e.interfaces.get? slot = some i → i.protocol.periodic.isRunning = true →
    i.protocol.needToTransmit = true →
      i.window.sent = transmitLimit ∧ e.now < i.window.start + Periodic.fastInterval ∧
        ∃ d, e.timers.deadline? (.periodic slot) = some d ∧
          d ≤ i.window.start + Periodic.fastInterval
  /-- Who does not send has nothing to tell. -/
  silent : ∀ slot i, e.interfaces.get? slot = some i → i.protocol.periodic.isRunning = false →
    i.protocol.needToTransmit = false

/-- A member that still has to speak sends, and is held back. -/
theorem Coherent.held_of_needToTransmit (h : e.Stable) (htidy : e.Tidy)
    (hi : e.interfaces.get? slot = some i) (hntt : i.protocol.needToTransmit = true) :
    i.protocol.periodic.isRunning = true ∧ transmitLimit ≤ i.window.sent ∧
      e.now < i.window.start + Periodic.fastInterval ∧
        ∃ d, e.timers.deadline? (.periodic slot) = some d ∧
          d ≤ i.window.start + Periodic.fastInterval := by
  cases hlag : i.lag with
  | none => simp [(htidy slot i hi hlag).protocol] at hntt
  | some l =>
    obtain ⟨lag, hl, -⟩ := h.lag_of_member hi hlag
    exact (h.settled_member hi hlag hl).held hntt

/-- No interface exceeds the limit. -/
theorem sent_le_reached {system : SystemIdentity} {maxMembers : Nat} {connected : Bool}
    {requests : List Request}
    (hi : (reached system maxMembers connected requests).interfaces.get? slot = some i) :
    i.window.sent ≤ transmitLimit := by
  refine reached_interfaces (P := fun _ i => i.window.sent ≤ transmitLimit)
    (fun _ _ => Nat.zero_le _) (fun e _ slot i i' hc h => ?_) hi
  cases hc with
  | adjust ha =>
    rw [ha.keeps Interface.window fun _ _ _ _ _ _ => rfl]
    exact h
  | leave => exact h
  | evaluate =>
    refine Evaluation.sent_result_le ?_
    rw [regrant, Interface.withGrant_keeps Interface.window fun _ _ _ => rfl]
    exact h

/-- After any requests to an engine with somebody to receive the effects, every interface that sends
and has nothing to tell has said what it is since it began to send, and whoever still has to speak
is held back by the limit until the window ends. An action lets a member begin to send only in its
evaluation, in which it speaks after that, and none evaluates a member twice: so it does not matter
that what has been said is looked at only after each action. -/
theorem upToDate_reached (system : SystemIdentity) (maxMembers : Nat) (requests : List Request) :
    let e := Engine.new system maxMembers true
    (e.run requests).1.UpToDate (e.saidAfter (fun _ => none) (e.runActions requests)) := by
  have hnew := stable_new system maxMembers true
  have hstable := stable_reached system maxMembers true requests
  have hbegin : (Engine.new system maxMembers true).Told fun _ => none :=
    fun slot i hi => by simp at hi
  have htold := hbegin.acts ((Engine.new system maxMembers true).runActions requests) hnew rfl
    tidy_new
  rw [acts_runActions] at htold
  refine ⟨fun slot i hi hrunning hquiet => htold slot i hi ⟨hrunning, hquiet⟩,
    fun slot i hi _ hntt => ?_, fun slot i hi hidle => ?_⟩
  · obtain ⟨-, hsent, hrest⟩ := hstable.held_of_needToTransmit tidy_reached hi hntt
    exact ⟨Nat.le_antisymm (sent_le_reached hi) hsent, hrest⟩
  · refine eq_false_of_ne_true fun hntt => ?_
    obtain ⟨hrunning, -⟩ := hstable.held_of_needToTransmit tidy_reached hi hntt
    simp [hidle] at hrunning

/-- A member of an active LAG says what it is as soon as its port is up. -/
example :
    let e := Engine.new {} 8 true
    let requests : List Request := [.apply .lag ⟨"PortChannel1", .set, []⟩,
      .apply .member ⟨"PortChannel1|Ethernet0", .set, []⟩,
      .apply .port ⟨"Ethernet0", .set, [("admin_status", "up"), ("oper_status", "up")]⟩]
    let said := e.saidAfter (fun _ => none) (e.runActions requests) "Ethernet0"
    said.isSome = true ∧ said.map (·.actor) = (e.run requests).1.endpoint? 0 := by
  decide +kernel

end Engine
end LinkAggregation
