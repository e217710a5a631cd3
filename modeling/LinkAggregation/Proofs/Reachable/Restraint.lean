import LinkAggregation.Proofs.Engine.Acquaintance
import LinkAggregation.Proofs.Reachable.Advertisement
import LinkAggregation.Proofs.Reachable.Conversation

/-!
# Nobody speaks out of turn

A LACP message is sent only by an enabled member of a dynamic LAG that no conflict leaves out, and
only if the LAG is active or the member has heard from a partner that is. So two engines without
active LAGs that hear nothing but each other never send a LACP message.
-/
namespace LinkAggregation
namespace Engine
variable {e : Engine} {l slot : Nat} {lag : Lag} {i : Interface} {name : String} {frame : Frame}
  {pdu : Lacpdu} {effects : List Effect} {known : String → Option Lacpdu} {actions : List Action}

/-! ## What the members have learned -/

/-- The LAG as an enabled member of which an interface listens to its partner: it hears it, or it
has heard it and asks for more. The LAG is dynamic, and the receive machine neither disabled nor
defaulted. -/
def listening? (e : Engine) (name : String) : Option Nat := do
  let i ← e.interface? name
  let l ← i.lag
  let lag ← e.lags.get? l
  if i.isEnabled && lag.isDynamic && i.protocol.receive.isListening then some l else none

/-- The last message that each interface accepted, after an action. It is forgotten unless the
interface listened in the same LAG before and after the action: so if it leaves its LAG or joins
another one, if the LAG becomes static, and if the receive machine is disabled, reset or
defaulted. -/
def learn (e : Engine) (a : Action) (known : String → Option Lacpdu) : String → Option Lacpdu :=
  fun name =>
    match (e.act a).1.listening? name with
    | none => none
    | some l =>
      match (e.hearings a).find? (·.interface == name) with
      | some n => some n.pdu
      | none => if e.listening? name = some l then known name else none

/-- Whoever knows a partner knows it from the message that the interface accepted last. -/
def Taught (e : Engine) (known : String → Option Lacpdu) : Prop :=
  ∀ slot i, e.interfaces.get? slot = some i → i.protocol.heard?.isSome = true →
    ∃ pdu, known i.name = some pdu ∧ pdu.actor.FadesTo i.protocol.partner

/-- An action hears one message at most. -/
theorem hearings_eq_of_mem {a : Action} {n : Hearing} (hn : n ∈ e.hearings a) :
    e.hearings a = [n] := by
  unfold hearings at hn ⊢
  split at hn
  · rw [Option.mem_toList.mp hn]
    rfl
  · simp at hn

section
variable (h : e.Stable) (htidy : e.Tidy)
include h htidy

/-- Whoever knows its partner listens to it. -/
theorem Coherent.listening?_of_heard (hi : e.interfaces.get? slot = some i)
    (hheard : i.protocol.heard?.isSome = true) :
    ∃ l, i.lag = some l ∧ e.listening? i.name = some l := by
  cases hlag : i.lag with
  | none => simp [(htidy slot i hi hlag).protocol, Protocol.heard?] at hheard
  | some l =>
    obtain ⟨lag, hl, -⟩ := h.lag_of_member hi hlag
    obtain ⟨hfollows, htruthful, -⟩ := h.sound_member hi hlag hl
    have hboth : i.protocol.partnerKnown = true ∧ i.protocol.receive ≠ .defaulted := by
      simpa [Protocol.heard?] using hheard
    have hrunning : i.protocol.receive.isRunning = true := by
      refine eq_true_of_ne_false fun hidle => ?_
      simp [(htruthful.silent hidle).2.2.1] at hboth
    have hlistening : i.protocol.receive.isListening = true := by
      cases hreceive : i.protocol.receive <;>
        simp_all [ReceiveState.isRunning, ReceiveState.isListening]
    obtain ⟨henabled, hdynamic⟩ := hfollows.of_running hrunning
    have hdynamic' : lag.isDynamic = true := hdynamic
    refine ⟨l, rfl, ?_⟩
    simp [listening?, h.linked.interface?_name hi, hlag, hl, henabled, hdynamic', hlistening]

theorem Coherent.taught_act (ht : e.Taught known) (a : Action) :
    (e.act a).1.Taught (e.learn a known) := by
  intro slot i' hi' hheard
  obtain ⟨l, hlag', hlistening⟩ :=
    (h.act a).listening?_of_heard ((h.course_act a).tidy htidy) hi' hheard
  obtain ⟨n, hn, hname, hfade⟩ | ⟨hnone, i, hi, hretains⟩ := h.retains_act a hi' hheard
  · refine ⟨n.pdu, ?_, hfade⟩
    simp [learn, hlistening, hearings_eq_of_mem hn, hname]
  · have hbefore := hretains.isSome_heard hheard
    obtain ⟨l', hlag, hlistened⟩ := h.listening?_of_heard htidy hi hbefore
    obtain rfl : l' = l := by
      rw [hretains.lag hheard, hlag'] at hlag
      exact (Option.some.inj hlag).symm
    obtain ⟨pdu, hpdu, hfade⟩ := ht slot i hi hbefore
    have hunheard : (e.hearings a).find? (·.interface == i'.name) = none := by
      simpa using hnone
    refine ⟨pdu, ?_, hfade.trans (hretains.fadesTo hheard)⟩
    rw [hretains.name] at hpdu hlistened
    simp [learn, hlistening, hunheard, hlistened, hpdu]

end

/-! ## Who sends -/

/-- What a member needs in order to send, and in whose name. -/
structure Entitled (e : Engine) (known : String → Option Lacpdu) (i : Interface) (l : Nat)
    (lag : Lag) : Prop where
  member : i.lag = some l
  live : e.lags.get? l = some lag
  dynamic : lag.isDynamic = true
  enabled : i.isEnabled = true
  undisputed : i.protocol.selection.isConflict = false
  /-- The LAG is active, or the partner said so of itself in the message that was accepted last. -/
  prompted : lag.settings.mode = .active ∨ ∃ pdu, known i.name = some pdu ∧
    pdu.actor.state.activity = true ∧ pdu.actor.FadesTo i.protocol.partner

section
variable (h : e.Stable) (hmodest : e.Modest)
include h hmodest

/-- What a member that sends has to do with its LAG and its partner. -/
theorem Coherent.of_periodic (hi : e.interfaces.get? slot = some i) (hlag : i.lag = some l)
    (hl : e.lags.get? l = some lag) (hsends : i.protocol.periodic.isRunning = true) :
    i.isEnabled = true ∧ lag.isDynamic = true ∧ i.protocol.selection.isConflict = false ∧
      (lag.settings.mode = .active ∨
        i.protocol.partner.state.activity = true ∧
          i.protocol.heard? = some i.protocol.partner) := by
  have hgoal := (h.settled_member hi hlag hl).periodic
  rw [← hgoal] at hsends
  obtain ⟨henabled, hrunning, hconflict, hactive⟩ := Evaluation.of_isRunning_periodicGoal hsends
  obtain ⟨hdynamic, hreceive⟩ := Bool.and_eq_true_iff.mp hrunning
  refine ⟨henabled, hdynamic, hconflict, ?_⟩
  obtain hown | hpartner := hactive
  · have hactor := (h.sound_member hi hlag hl).truthful.settings hreceive
    rw [hactor] at hown
    exact .inl (by simpa [Receive.withSettings] using hown)
  · exact .inr ⟨hpartner, hmodest slot i hi hpartner⟩

theorem Coherent.entitled (ht : e.Taught known) (hi : e.interfaces.get? slot = some i)
    (hlag : i.lag = some l) (hl : e.lags.get? l = some lag)
    (hsends : i.protocol.periodic.isRunning = true) : e.Entitled known i l lag := by
  obtain ⟨henabled, hdynamic, hconflict, hprompted⟩ := h.of_periodic hmodest hi hlag hl hsends
  refine ⟨hlag, hl, hdynamic, henabled, hconflict, hprompted.imp_right fun ⟨hactive, hheard⟩ => ?_⟩
  obtain ⟨pdu, hpdu, hfade⟩ := ht slot i hi (by simp [hheard])
  exact ⟨pdu, hpdu, hfade.activity.symm.trans hactive, hfade⟩

end

/-- Whoever sends in an action is the member of a LAG, and its periodic machine runs then. -/
theorem Coherent.periodic_of_message (h : e.Stable) {a : Action}
    (hpdu : pdu ∈ messagesOn name (e.act a).2) :
    ∃ slot i l lag, (e.act a).1.interfaces.get? slot = some i ∧ i.name = name ∧
      i.lag = some l ∧ (e.act a).1.lags.get? l = some lag ∧
      i.protocol.periodic.isRunning = true := by
  obtain ⟨frame, hsent, hframe⟩ := mem_messagesOn.mp hpdu
  obtain ⟨l, lag, slot, i, hl, hslot, hi, hname, hrunning, -⟩ :=
    (h.sincere_act a).sends name frame pdu hsent (Frame.lacp?_eq_some.mp hframe)
  obtain ⟨j, hj, hlag⟩ := (h.act a).get?_of_mem hl hslot
  obtain rfl : i = j := Option.some.inj (hi.symm.trans hj)
  exact ⟨slot, i, l, lag, hi, hname, hlag, hl, hrunning⟩

/-- In every action LACP messages are sent only on interfaces that are entitled to it. An action
lets a member begin to send only in its evaluation and evaluates no member twice, so that the state
after the action is that of the moment of sending. -/
def Restrained (e : Engine) (known : String → Option Lacpdu) : List Action → Prop
  | [] => True
  | a :: rest =>
    (∀ name, messagesOn name (e.act a).2 ≠ [] → ∃ i l lag, (e.act a).1.interface? name = some i ∧
      (e.act a).1.Entitled (e.learn a known) i l lag) ∧
    (e.act a).1.Restrained (e.learn a known) rest

theorem Coherent.restrained (h : e.Stable) (htidy : e.Tidy) (hmodest : e.Modest)
    (ht : e.Taught known) (actions : List Action) : e.Restrained known actions := by
  induction actions generalizing e known with
  | nil => trivial
  | cons a rest ih =>
    have hcourse := h.course_act a
    have hmodest' := hcourse.modest hmodest
    have htaught := h.taught_act htidy ht a
    refine ⟨fun name hsent => ?_, ih (h.act a) (hcourse.tidy htidy) hmodest' htaught⟩
    obtain ⟨pdu, hpdu⟩ := List.exists_mem_of_ne_nil _ hsent
    obtain ⟨slot, i, l, lag, hi, rfl, hlag, hl, hrunning⟩ := h.periodic_of_message hpdu
    exact ⟨i, l, lag, (h.act a).linked.interface?_name hi,
      (h.act a).entitled hmodest' htaught hi hlag hl hrunning⟩

/-! ## Engines without active LAGs -/

/-- No LAG is active. -/
def IsPassive (e : Engine) : Prop :=
  ∀ l lag, e.lags.get? l = some lag → lag.settings.mode ≠ .active

instance (e : Engine) : Decidable e.IsPassive :=
  decidable_of_iff (∀ l ∈ e.lags.occupied, ∀ lag ∈ e.lags.get? l, lag.settings.mode ≠ .active)
    ⟨fun h l lag hl => h l (Arena.mem_occupied.mpr ⟨lag, hl⟩) lag hl,
      fun h l _ lag hl => h l lag hl⟩

/-- No LAG is active after any of the actions. -/
def StaysPassive (e : Engine) : List Action → Prop
  | [] => True
  | a :: rest => (e.act a).1.IsPassive ∧ (e.act a).1.StaysPassive rest

instance decidableStaysPassive : (e : Engine) → (actions : List Action) →
    Decidable (e.StaysPassive actions)
  | _, [] => .isTrue trivial
  | e, a :: rest =>
    have := decidableStaysPassive (e.act a).1 rest
    inferInstanceAs (Decidable (_ ∧ _))

/-- The engine knows no partner, and nobody is about to introduce himself. -/
structure Solitary (e : Engine) : Prop where
  stable : e.Stable
  modest : e.Modest
  unknown : ∀ slot i, e.interfaces.get? slot = some i → i.protocol.heard? = none
  queue : e.QueuesOnly fun _ frame => frame.lacp? = none

theorem solitary_new (system : SystemIdentity) (maxMembers : Nat) (connected : Bool) :
    (Engine.new system maxMembers connected).Solitary where
  stable := stable_new system maxMembers connected
  modest := fun slot i hi => by simp at hi
  unknown := fun slot i hi => by simp at hi
  queue := fun name frame hqueued => by simp [Engine.new, Queue.drain] at hqueued

/-- What an interface hears is in the frame. -/
theorem lacp?_of_hearing? {n : Hearing} (hn : e.hearing? name frame = some n) :
    frame.lacp? = some n.pdu := by
  simp only [hearing?, Option.bind_eq_bind, Option.bind_eq_some_iff] at hn
  obtain ⟨slot, -, i, -, own, -, haccepted⟩ := hn
  split at haccepted
  · next pdu hdecode =>
    obtain ⟨-, hhearing⟩ := Option.ite_none_right_eq_some.mp haccepted
    rw [Frame.lacp?_eq_some, hdecode, ← Option.some.inj hhearing]
  · simp at haccepted

/-- Nothing is heard in frames that hold no LACP message. -/
theorem hearings_eq_nil {a : Action} (ha : a.TakesOnly fun _ frame => frame.lacp? = none) :
    e.hearings a = [] := by
  unfold hearings
  split
  · next name frame =>
    have hframe : frame.lacp? = none := ha
    rw [Option.toList_eq_nil_iff]
    refine Option.eq_none_iff_forall_ne_some.mpr fun n hn => ?_
    simp [lacp?_of_hearing? hn] at hframe
  · rfl

namespace Solitary
variable {a : Action}

theorem act (h : e.Solitary) (ha : a.TakesOnly fun _ frame => frame.lacp? = none) :
    (e.act a).1.Solitary where
  stable := h.stable.act a
  modest := (h.stable.course_act a).modest h.modest
  unknown := by
    intro slot i' hi'
    refine Option.not_isSome_iff_eq_none.mp fun hheard => ?_
    obtain ⟨n, hn, -⟩ | ⟨-, i, hi, hretains⟩ := h.stable.retains_act a hi' hheard
    · simp [hearings_eq_nil ha] at hn
    · simpa [h.unknown slot i hi] using hretains.isSome_heard hheard
  queue := h.stable.queuesOnly_act h.queue ha

/-- Whoever knows nobody and is not active has nothing to say. -/
theorem messagesOn_eq_nil (h : e.Solitary)
    (ha : a.TakesOnly fun _ frame => frame.lacp? = none) (hpassive : (e.act a).1.IsPassive)
    (name : String) : messagesOn name (e.act a).2 = [] := by
  refine List.eq_nil_iff_forall_not_mem.mpr fun pdu hpdu => ?_
  obtain ⟨slot, i, l, lag, hi, -, hlag, hl, hrunning⟩ := h.stable.periodic_of_message hpdu
  have hafter := h.act ha
  obtain ⟨-, -, -, hactive | ⟨-, hheard⟩⟩ :=
    hafter.stable.of_periodic hafter.modest hi hlag hl hrunning
  · exact hpassive l lag hl hactive
  · simp [hafter.unknown slot i hi] at hheard

theorem acts (h : e.Solitary)
    (hactions : ∀ a ∈ actions, a.TakesOnly fun _ frame => frame.lacp? = none)
    (hpassive : e.StaysPassive actions) :
    (e.acts actions).1.Solitary ∧ ∀ name, messagesOn name (e.acts actions).2 = [] := by
  induction actions generalizing e with
  | nil => exact ⟨h, fun _ => rfl⟩
  | cons a rest ih =>
    obtain ⟨hfirst, hrest⟩ := hpassive
    have ha := hactions a List.mem_cons_self
    obtain ⟨hsolitary, hsilent⟩ :=
      ih (h.act ha) (fun b hb => hactions b (List.mem_cons_of_mem a hb)) hrest
    rw [acts_cons]
    refine ⟨hsolitary, fun name => ?_⟩
    show messagesOn name ((e.act a).2 ++ ((e.act a).1.acts rest).2) = []
    rw [messagesOn_append, h.messagesOn_eq_nil ha hfirst name, hsilent name]
    rfl

end Solitary
end Engine

/-! ## Two engines -/

/-- Two engines, and the frames that each of them has sent. -/
structure Dialogue where
  engine : Side → Engine
  sent : Side → List Frame := fun _ => []

namespace Dialogue
variable {d : Dialogue} {s : Side} {request : Request}

/-- Frames come from the other side: wherever they were sent from, at any later time, any number of
times and in any order. Everything else may be asked of either side. -/
def Permits (d : Dialogue) (s : Side) (request : Request) : Prop :=
  request.TakesOnly fun _ frame => frame ∈ d.sent s.other

/-- One side does what it is asked. -/
def perform (d : Dialogue) (s : Side) (request : Request) : Dialogue where
  engine t := if t = s then ((d.engine s).handle request).engine else d.engine t
  sent t :=
    if t = s then
      d.sent s ++ (Cable.sentFrames ((d.engine s).handle request).effects).map Sent.frame
    else d.sent t

/-- Two new engines, and whatever becomes of them as long as no LAG is ever active. -/
inductive Reserved : Dialogue → Prop where
  | start (system : Side → SystemIdentity) (maxMembers : Side → Nat) (connected : Side → Bool) :
    Reserved { engine := fun s => Engine.new (system s) (maxMembers s) (connected s) }
  | perform {d : Dialogue} (s : Side) (request : Request) : Reserved d → d.Permits s request →
    (d.engine s).StaysPassive ((d.engine s).actions request) → Reserved (d.perform s request)

/-- Frames that are sent where no LACP message is hold none. -/
theorem lacp?_eq_none_of_sent {effects : List Effect} {frame : Frame}
    (h : ∀ name, messagesOn name effects = [])
    (hframe : frame ∈ (Cable.sentFrames effects).map Sent.frame) : frame.lacp? = none := by
  obtain ⟨⟨name, frame'⟩, hsent, rfl⟩ := List.mem_map.mp hframe
  obtain ⟨effect, heffect, hsome⟩ := List.mem_filterMap.mp hsent
  cases effect with
  | transmit interface frame =>
    obtain ⟨rfl, rfl⟩ := Sent.mk.inj (Option.some.inj hsome)
    refine Option.eq_none_iff_forall_ne_some.mpr fun pdu hpdu => ?_
    have hmem := mem_messagesOn.mpr ⟨frame, heffect, hpdu⟩
    simp [h interface] at hmem
  | _ => simp at hsome

/-- Nobody has sent a LACP message, and nobody knows a partner. -/
structure Mute (d : Dialogue) : Prop where
  sent : ∀ s, ∀ frame ∈ d.sent s, frame.lacp? = none
  solitary : ∀ s, (d.engine s).Solitary

theorem Mute.perform (h : d.Mute) (hpermits : d.Permits s request)
    (hpassive : (d.engine s).StaysPassive ((d.engine s).actions request)) :
    (d.perform s request).Mute := by
  have hsolitary := h.solitary s
  have htakes : request.TakesOnly fun _ frame => frame.lacp? = none :=
    hpermits.mono fun _ frame hframe => h.sent s.other frame hframe
  obtain ⟨hafter, hsilent⟩ := hsolitary.acts
    (hsolitary.stable.takesOnly_actions hsolitary.queue htakes) hpassive
  rw [Engine.acts_actions] at hafter hsilent
  refine ⟨fun t frame hframe => ?_, fun t => ?_⟩
  · simp only [Dialogue.perform] at hframe
    split at hframe
    · obtain hold | hnew := List.mem_append.mp hframe
      · exact h.sent s frame hold
      · exact lacp?_eq_none_of_sent hsilent hnew
    · exact h.sent t frame hframe
  · simp only [Dialogue.perform]
    split
    · exact hafter
    · exact h.solitary t

theorem Reserved.mute (h : d.Reserved) : d.Mute := by
  induction h with
  | start system maxMembers connected =>
    exact ⟨fun _ frame hframe => by simp at hframe, fun s => Engine.solitary_new _ _ _⟩
  | perform s request _ hpermits hpassive ih => exact ih.perform hpermits hpassive

end Dialogue

/-- Whatever is asked of an engine, LACP messages are sent only on interfaces that are entitled to
it, and two engines without active LAGs that hear nothing but each other send none at all. -/
theorem restrained_reached (system : SystemIdentity) (maxMembers : Nat) (connected : Bool)
    (requests : List Request) :
    let begin := Engine.new system maxMembers connected
    begin.Restrained (fun _ => none) (begin.runActions requests) ∧
      ∀ d : Dialogue, d.Reserved → ∀ s, ∀ frame ∈ d.sent s, frame.lacp? = none := by
  intro begin
  have hnew := Engine.solitary_new system maxMembers connected
  have htaught : begin.Taught fun _ => none := fun slot i hi => by simp [begin] at hi
  exact ⟨hnew.stable.restrained Engine.tidy_new hnew.modest htaught _, fun d hd => hd.mute.sent⟩

/-- The member of a passive LAG is silent until an active partner speaks to it. -/
example :
    let begin := Engine.new {} 8 true
    let hello : Frame := Frame.encodeLacp
      { actor := ⟨⟨1, .zero⟩, 7, ⟨1, 1⟩, { activity := true, aggregation := true }⟩, partner := {} }
      .zero
    let requests : List Request :=
      [.apply .lag ⟨"PortChannel1", .set, [("lacp_mode", "passive")]⟩,
        .apply .member ⟨"PortChannel1|Ethernet0", .set, []⟩,
        .apply .port ⟨"Ethernet0", .set, [("admin_status", "up"), ("oper_status", "up")]⟩,
        .advanceTo 60000]
    messagesOn "Ethernet0" (begin.run requests).2 = [] ∧
      messagesOn "Ethernet0" (begin.run (requests ++ [.receiveFrame "Ethernet0" hello])).2 ≠ [] := by
  decide +kernel

namespace Dialogue

/-- Gives a side a passive LAG with a member that is up, and lets it wait for a partner. -/
def settle (d : Dialogue) (s : Side) : Dialogue :=
  let named := d.perform s (.apply .lag ⟨"PortChannel1", .set, [("lacp_mode", "passive")]⟩)
  let joined := named.perform s (.apply .member ⟨"PortChannel1|Ethernet0", .set, []⟩)
  let up := joined.perform s
    (.apply .port ⟨"Ethernet0", .set, [("admin_status", "up"), ("oper_status", "up")]⟩)
  up.perform s (.advanceTo 3000)

/-- Two sides that wait for each other. -/
def shy : Dialogue :=
  (settle { engine := fun _ => Engine.new {} 8 true } .a).settle .b

theorem reserved_shy : shy.Reserved := by
  dsimp only [shy, settle]
  refine .perform _ _ (.perform _ _ (.perform _ _ (.perform _ _ (.perform _ _ (.perform _ _
    (.perform _ _ (.perform _ _ (.start (fun _ => {}) (fun _ => 8) fun _ => true)
      trivial ?_) trivial ?_) trivial ?_) trivial ?_) trivial ?_) trivial ?_) trivial ?_) trivial ?_
  all_goals decide +kernel

/-- Both are ready to send, and neither begins. -/
theorem restrained_shy : shy.Reserved ∧
    (∀ s, ((shy.engine s).interface? "Ethernet0").map (fun i => (i.isEnabled, i.protocol.receive)) =
      some (true, .defaulted)) ∧
    ∀ s, ∀ frame ∈ shy.sent s, frame.lacp? = none := by
  refine ⟨reserved_shy, fun s => ?_, (restrained_reached {} 8 true []).2 shy reserved_shy⟩
  cases s <;> decide +kernel

end Dialogue
end LinkAggregation
