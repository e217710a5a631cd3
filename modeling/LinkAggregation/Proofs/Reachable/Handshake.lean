import LinkAggregation.Proofs.Reachable.Conversation
import LinkAggregation.Proofs.Reachable.Safety

/-!
# The two-way handshake

A member that forwards outside fallback has been heard by its partner and has heard so from it.
Everything that occurs in a conversation is accounted for by what occurred before: frames come
from the other side, messages are accepted from frames, and what a member says of its partner it
has heard.
-/
namespace LinkAggregation

/-- System, key and port agree. -/
structure Endpoint.SameIds (a b : Endpoint) : Prop where
  system : a.system = b.system
  key : a.key = b.key
  port : a.port = b.port

namespace Endpoint.SameIds
variable {a b c : Endpoint}

theorem symm (h : a.SameIds b) : b.SameIds a := ⟨h.system.symm, h.key.symm, h.port.symm⟩

theorem trans (h : a.SameIds b) (h' : b.SameIds c) : a.SameIds c :=
  ⟨h.system.trans h'.system, h.key.trans h'.key, h.port.trans h'.port⟩

theorem of_sameEnd (h : a.sameEnd b = true) : a.SameIds b := by
  simp only [sameEnd, Bool.and_eq_true, beq_iff_eq] at h
  obtain ⟨⟨⟨hsystem, hkey⟩, hport⟩, -⟩ := h
  exact ⟨hsystem, hkey, hport⟩

end Endpoint.SameIds

/-- The last messages by which side `s` got an interface to forward: what it said of itself came
to the other side, and after that the attached other side said so and was heard. -/
structure Handshake (history : History) (s : Side) (name : String) where
  question : Frame
  answer : Frame
  told : Hearing
  heard : Hearing
  mux : Option MuxState
  mux' : Option MuxState
  order : [(s, .sent name question mux), (s.other, .delivered name question),
    (s.other, .accepted told), (s.other, .sent name answer mux'), (s, .delivered name answer),
    (s, .accepted heard)].Sublist history
  told_interface : told.interface = name
  heard_interface : heard.interface = name
  told_pdu : Frame.decode question = .ok (.lacp told.pdu)
  heard_pdu : Frame.decode answer = .ok (.lacp heard.pdu)
  attached : mux' = some .attached ∨ mux' = some .collectingDistributing
  sync : heard.pdu.actor.state.sync = true
  view : heard.pdu.partner.SameIds heard.own
  introduced : told.pdu.actor.SameIds heard.own

/-! ## Histories -/

namespace History
variable {history earlier later : History} {s : Side} {o : Occurrence} {heard : Hearing}

/-- What came before accounts for an occurrence. -/
def Accounts (earlier : History) (s : Side) : Occurrence → Prop
  | .delivered name frame => earlier.HasSent s.other name frame
  | .accepted h => h.own.state.aggregation = true ∧
      ∃ frame, (s, .delivered h.interface frame) ∈ earlier ∧ Frame.decode frame = .ok (.lacp h.pdu)
  | .sent name frame mux => ∀ pdu, Frame.decode frame = .ok (.lacp pdu) →
      (pdu.actor.state.sync = true → mux = some .attached ∨ mux = some .collectingDistributing) ∧
      (pdu.partner.state.aggregation = true →
        ∃ h, (s, .accepted h) ∈ earlier ∧ h.interface = name ∧ pdu.partner.SameIds h.pdu.actor)

/-- Everything is accounted for. -/
inductive Justified : History → Prop where
  | nil : Justified []
  | snoc {history : History} {s : Side} {o : Occurrence} :
    Justified history → history.Accounts s o → Justified (history ++ [(s, o)])

theorem HasSent.mono {name : String} {frame : Frame} (h : earlier.HasSent s name frame)
    (hsub : earlier ⊆ later) : later.HasSent s name frame := by
  obtain ⟨mux, hmem⟩ := h
  exact ⟨mux, hsub hmem⟩

theorem Accounts.mono (h : earlier.Accounts s o) (hsub : earlier ⊆ later) :
    later.Accounts s o := by
  cases o with
  | delivered name frame => exact HasSent.mono h hsub
  | accepted heard =>
    obtain ⟨haggregation, frame, hdelivered, hframe⟩ := h
    exact ⟨haggregation, frame, hsub hdelivered, hframe⟩
  | sent name frame mux =>
    intro pdu hframe
    obtain ⟨hsync, hheard⟩ := h pdu hframe
    refine ⟨hsync, fun haggregation => ?_⟩
    obtain ⟨told, htold, hrest⟩ := hheard haggregation
    exact ⟨told, hsub htold, hrest⟩

namespace Justified

theorem append (h : Justified history) {os : List Occurrence}
    (hos : ∀ o ∈ os, history.Accounts s o) : Justified (history ++ os.map fun o => (s, o)) := by
  induction os generalizing history with
  | nil => simpa using h
  | cons o rest ih =>
    have hfirst : Justified (history ++ [(s, o)]) := h.snoc (hos o List.mem_cons_self)
    have hrest := ih hfirst fun o' ho' =>
      (hos o' (List.mem_cons_of_mem o ho')).mono (List.subset_append_left _ _)
    simpa using hrest

/-- What came before an occurrence is justified and accounts for it. -/
theorem split (h : Justified history) (ho : (s, o) ∈ history) :
    ∃ earlier later, history = earlier ++ (s, o) :: later ∧ Justified earlier ∧
      earlier.Accounts s o := by
  induction h with
  | nil => simp at ho
  | @snoc history s' o' hbefore haccounts ih =>
    obtain hold | hnew := List.mem_append.mp ho
    · obtain ⟨earlier, later, rfl, hearlier, haccounts⟩ := ih hold
      exact ⟨earlier, later ++ [(s', o')], by simp, hearlier, haccounts⟩
    · obtain ⟨rfl, rfl⟩ := Prod.mk.inj (List.mem_singleton.mp hnew)
      exact ⟨history, [], rfl, hbefore, haccounts⟩

end Justified

theorem sublist_append_cons {α : Type} {xs earlier later : List α} {x : α}
    (h : xs.Sublist later) : (x :: xs).Sublist (earlier ++ x :: later) :=
  (h.cons_cons x).trans (List.sublist_append_right earlier (x :: later))

/-- An accepted message of a partner that is in sync and knows of this end completes a
handshake. -/
theorem Justified.handshake (h : Justified history) (hheard : (s, .accepted heard) ∈ history)
    (hsync : heard.pdu.actor.state.sync = true)
    (hview : heard.pdu.partner.sameEnd heard.own = true) :
    Nonempty (Handshake history s heard.interface) := by
  have hids := Endpoint.SameIds.of_sameEnd hview
  obtain ⟨h₅, _, rfl, hj₅, haggregation, answer, hdelivered, hanswer⟩ := h.split hheard
  obtain ⟨h₄, _, rfl, hj₄, mux', hsent⟩ := hj₅.split hdelivered
  obtain ⟨h₃, _, rfl, hj₃, haccounts⟩ := hj₄.split hsent
  obtain ⟨hattached, htold⟩ := haccounts heard.pdu hanswer
  have hpartner : heard.pdu.partner.state.aggregation = true := by
    simp only [Endpoint.sameEnd, Bool.and_eq_true, beq_iff_eq] at hview
    rw [hview.2, haggregation]
  obtain ⟨told, haccepted, hinterface, hintroduced⟩ := htold hpartner
  obtain ⟨h₂, _, rfl, hj₂, -, question, hreached, hquestion⟩ := hj₃.split haccepted
  rw [hinterface] at hreached
  obtain ⟨h₁, _, rfl, hj₁, mux, hasked⟩ := hj₂.split hreached
  rw [Side.other_other] at hasked
  obtain ⟨h₀, _, rfl, -, -⟩ := hj₁.split hasked
  refine ⟨question, answer, told, heard, mux, mux', ?_, hinterface, rfl, hquestion, hanswer,
    hattached hsync, hsync, hids, hintroduced.symm.trans hids⟩
  simp only [List.append_assoc, List.cons_append]
  exact sublist_append_cons (sublist_append_cons (sublist_append_cons (sublist_append_cons
    (sublist_append_cons (sublist_append_cons (List.nil_sublist _))))))

end History

/-! ## One engine -/

/-- Whatever frames an action takes or queues, the other side has sent. -/
abbrev Action.PermittedBy (history : History) (s : Side) : Action → Prop :=
  TakesOnly (history.HasSent s.other)

theorem Action.PermittedBy.mono {history later : History} {s : Side} {a : Action}
    (h : a.PermittedBy history s) (hsub : history ⊆ later) : a.PermittedBy later s :=
  TakesOnly.mono h fun _ _ hsent => hsent.mono hsub

namespace Engine
variable {e : Engine} {history later : History} {s : Side} {a : Action} {name : String}
  {frame : Frame} {n : Hearing}

/-- The partners that the engine remembers are those of accepted messages, and the frames in its
queue were sent. -/
structure Backed (e : Engine) (history : History) (s : Side) : Prop where
  stable : e.Stable
  memory : ∀ slot i, e.interfaces.get? slot = some i →
    ∀ partner, i.protocol.heard? = some partner →
      ∃ h, (s, .accepted h) ∈ history ∧ h.interface = i.name ∧ partner.HeardIn h.pdu h.own
  queue : e.QueuesOnly (history.HasSent s.other)

theorem Backed.mono (h : e.Backed history s) (hsub : history ⊆ later) : e.Backed later s where
  stable := h.stable
  memory := by
    intro slot i hi partner hpartner
    obtain ⟨n, hn, hrest⟩ := h.memory slot i hi partner hpartner
    exact ⟨n, hsub hn, hrest⟩
  queue := fun name frame hqueued => (h.queue name frame hqueued).mono hsub

/-- A message is accepted from the frame, by an interface on which the protocol runs. -/
theorem Coherent.hearing?_spec (h : e.Stable) (hn : e.hearing? name frame = some n) :
    n.interface = name ∧ Frame.decode frame = .ok (.lacp n.pdu) ∧
      n.own.state.aggregation = true := by
  simp only [hearing?, Option.bind_eq_bind, Option.bind_eq_some_iff] at hn
  obtain ⟨slot, -, i, hi, own, hown, haccepted⟩ := hn
  split at haccepted
  · next pdu hframe =>
    split at haccepted
    · next hrunning =>
      obtain rfl := Option.some.inj haccepted
      simp only [endpoint?, Option.bind_eq_bind, Option.bind_eq_some_iff] at hown
      obtain ⟨j, hj, l, hlag, lag, hl, hendpoint⟩ := hown
      obtain rfl : i = j := Option.some.inj (hi.symm.trans hj)
      simp only [Bool.and_eq_true] at hrunning
      have hactor := (h.sound_member hi hlag hl).truthful.settings hrunning.2
      have hstate : own.state = i.protocol.actor := by
        rw [← Option.some.inj hendpoint]
        rfl
      refine ⟨rfl, hframe, ?_⟩
      dsimp only
      rw [hstate, hactor]
      rfl
    · simp at haccepted
  · simp at haccepted

/-- What a member says of itself and of its partner is backed. -/
theorem Backed.accounts_sends {l : Nat} {pdu : Lacpdu} (h : e.Backed history s)
    (hsends : e.Sends l name pdu) :
    (pdu.actor.state.sync = true →
      e.mux? name = some .attached ∨ e.mux? name = some .collectingDistributing) ∧
    (pdu.partner.state.aggregation = true →
      ∃ n, (s, .accepted n) ∈ history ∧ n.interface = name ∧ pdu.partner.SameIds n.pdu.actor) := by
  obtain ⟨lag, slot, i, hl, hslot, hi, rfl, -, rfl⟩ := hsends
  obtain ⟨j, hj, hlag⟩ := h.stable.get?_of_mem hl hslot
  obtain rfl : i = j := Option.some.inj (hi.symm.trans hj)
  have hmux : e.mux? i.name = some i.protocol.mux := by
    simp [mux?, interface?, Arena.lookup?, h.stable.interfaces.find?_of_get? hi, hi]
  have htruthful := (h.stable.sound_member hi hlag hl).truthful
  refine ⟨fun hsync => ?_, fun haggregation => ?_⟩
  · rw [hmux]
    exact (h.stable.attached_of_sync hi hlag hl hsync).imp (congrArg some) (congrArg some)
  · have hknown : i.protocol.partnerKnown = true := by
      refine eq_true_of_ne_false fun hunknown => ?_
      simp [Evaluation.message, hunknown, Receive.defaultPartner] at haggregation
    have hheard : i.protocol.heard? = some i.protocol.partner := by
      have hreceive : i.protocol.receive ≠ .defaulted := by
        intro hdefaulted
        simp [(htruthful.defaulted hdefaulted).2.1] at hknown
      simp [Protocol.heard?, hknown, hreceive]
    obtain ⟨n, hn, hname, hids⟩ := h.memory slot i hi _ hheard
    refine ⟨n, hn, hname, ?_⟩
    simp only [Evaluation.message, hknown, if_true]
    exact ⟨hids.system, hids.key, hids.port⟩

/-! ## One action -/

theorem accounts_deliveries (ha : a.PermittedBy history s) :
    ∀ o ∈ deliveries a, history.Accounts s o := by
  intro o ho
  cases a with
  | event event =>
    cases event with
    | frame name frame =>
      obtain rfl := List.mem_singleton.mp ho
      exact ha
    | link name up => simp [deliveries] at ho
  | _ => simp [deliveries] at ho

theorem Coherent.accounts_hearings (h : e.Stable) :
    ∀ o ∈ (e.hearings a).map Occurrence.accepted,
      (history ++ (deliveries a).map fun o => (s, o)).Accounts s o := by
  intro o ho
  obtain ⟨n, hn, rfl⟩ := List.mem_map.mp ho
  cases a with
  | event event =>
    cases event with
    | frame name frame =>
      obtain ⟨hname, hframe, haggregation⟩ := h.hearing?_spec (Option.mem_toList.mp hn)
      refine ⟨haggregation, frame, ?_, hframe⟩
      rw [hname]
      simp [deliveries]
    | link name up => simp [hearings] at hn
  | _ => simp [hearings] at hn

/-- What an action accepts is remembered then, and nothing else is new. -/
theorem Backed.after (h : e.Backed history s) (ha : a.PermittedBy history s)
    (hsub : history ⊆ later) (hnews : ∀ n ∈ e.hearings a, (s, .accepted n) ∈ later) :
    (e.act a).1.Backed later s where
  stable := h.stable.act a
  memory := by
    intro slot i' hi' partner' hpartner'
    have hsame : (e.readied a).interfaces = e.interfaces := by
      cases a <;> rfl
    obtain ⟨i, partner, hi, hname, hpartner, hfade⟩ | ⟨n, hn, hname, hheard⟩ :=
      (h.stable.sincere_act a).inherits.memory slot i' hi' partner' hpartner'
    · rw [hsame] at hi
      obtain ⟨n, hn, hinterface, hheard⟩ := h.memory slot i hi partner hpartner
      exact ⟨n, hsub hn, hinterface.trans hname, hheard.fade hfade⟩
    · exact ⟨n, hnews n hn, hname, hheard⟩
  queue := fun name frame hqueued =>
    (h.stable.queuesOnly_act h.queue ha name frame hqueued).mono hsub

theorem Backed.accounts_sendings (h : e.Stable) (hafter : (e.act a).1.Backed history s) :
    ∀ o ∈ e.sendings a, history.Accounts s o := by
  intro o ho
  obtain ⟨⟨name, frame⟩, hsent, rfl⟩ := List.mem_map.mp ho
  have htransmit : Effect.transmit name frame ∈ (e.act a).2 := by
    obtain ⟨effect, heffect, hframe⟩ := List.mem_filterMap.mp hsent
    cases effect with
    | transmit name' frame' =>
      obtain ⟨rfl, rfl⟩ := Sent.mk.inj (Option.some.inj hframe)
      exact heffect
    | _ => simp at hframe
  intro pdu hframe
  obtain ⟨l, hsends⟩ := (h.sincere_act a).sends name frame pdu htransmit hframe
  exact hafter.accounts_sends hsends

/-- An action keeps the history justified and the engine backed. -/
theorem Backed.act (h : e.Backed history s) (hj : history.Justified)
    (ha : a.PermittedBy history s) :
    History.Justified (history ++ (e.occurrences a).map fun o => (s, o)) ∧
      (e.act a).1.Backed (history ++ (e.occurrences a).map fun o => (s, o)) s := by
  have hdelivered := hj.append (accounts_deliveries ha)
  have haccepted := hdelivered.append h.stable.accounts_hearings
  have hafter : (e.act a).1.Backed (history ++ (deliveries a).map (fun o => (s, o)) ++
      ((e.hearings a).map Occurrence.accepted).map fun o => (s, o)) s := by
    refine h.after ha (fun x hx => ?_) fun n hn => ?_
    · simp [hx]
    · simp [hn]
  have hsent := haccepted.append (hafter.accounts_sendings h.stable)
  have hoccurrences : history ++ (e.occurrences a).map (fun o => (s, o)) =
      history ++ (deliveries a).map (fun o => (s, o)) ++
        ((e.hearings a).map Occurrence.accepted).map (fun o => (s, o)) ++
          (e.sendings a).map fun o => (s, o) := by
    simp [occurrences]
  rw [hoccurrences]
  exact ⟨hsent, hafter.mono (List.subset_append_left _ _)⟩

/-! ## One request -/

theorem Backed.acts {actions : List Action} (h : e.Backed history s) (hj : history.Justified)
    (hactions : ∀ a ∈ actions, a.PermittedBy history s) :
    History.Justified (history ++ (e.trace actions).map fun o => (s, o)) ∧
      (e.acts actions).1.Backed (history ++ (e.trace actions).map fun o => (s, o)) s := by
  induction actions generalizing e history with
  | nil => simpa [trace] using And.intro hj h
  | cons a rest ih =>
    obtain ⟨hjustified, hbacked⟩ := h.act hj (hactions a List.mem_cons_self)
    have hrest : ∀ b ∈ rest,
        b.PermittedBy (history ++ (e.occurrences a).map fun o => (s, o)) s := fun b hb =>
      Action.PermittedBy.mono (hactions b (List.mem_cons_of_mem a hb))
        (List.subset_append_left _ _)
    have hboth := ih hbacked hjustified hrest
    rw [acts_cons]
    simpa [trace, Step.next] using hboth

/-- A request that is permitted asks for permitted actions. -/
theorem Backed.permitted {j : Joint} {request : Request} (h : e.Backed j.history s)
    (hpermits : j.Permits s request) : ∀ a ∈ e.actions request, a.PermittedBy j.history s := by
  refine h.stable.takesOnly_actions h.queue ?_
  cases request with
  | enqueueEvent event => cases event <;> exact hpermits
  | _ => exact hpermits

end Engine

/-! ## Both engines -/

namespace Joint
variable {j : Joint} {s : Side} {l slot : Nat} {lag : Lag} {i : Interface}

/-- What occurs in a conversation is justified, and backs both engines. -/
theorem Reachable.backed (hj : j.Reachable) :
    j.history.Justified ∧ ∀ s, (j.engine s).Backed j.history s := by
  induction hj with
  | start system maxMembers connected =>
    refine ⟨History.Justified.nil, fun s => ⟨Engine.stable_new _ _ _, ?_, ?_⟩⟩
    · intro slot i hi
      simp at hi
    · intro name frame hqueued
      simp [Engine.new, Queue.drain] at hqueued
  | @perform j s request _ hpermits ih =>
    obtain ⟨hjustified, hbacked⟩ := ih
    have hactions := (hbacked s).permitted hpermits
    obtain ⟨hjustified', hbacked'⟩ := (hbacked s).acts hjustified hactions
    rw [Engine.acts_actions] at hbacked'
    refine ⟨hjustified', fun t => ?_⟩
    by_cases ht : t = s
    · subst ht
      simpa [Joint.perform, Outcome.step] using hbacked'
    · have hother : (j.perform s request).engine t = j.engine t := if_neg ht
      rw [hother]
      exact (hbacked t).mono (List.subset_append_left _ _)

/-- A member of a dynamic LAG that forwards without a fallback grant has completed a handshake
with the other side; so a frame that it sent came to the interface on the other side. -/
theorem Reachable.handshake_of_forwarding (hj : j.Reachable)
    (hl : (j.engine s).lags.get? l = some lag) (hdynamic : lag.isDynamic = true)
    (hi : (j.engine s).interfaces.get? slot = some i) (hlag : i.lag = some l)
    (hmux : i.protocol.mux = .collectingDistributing)
    (hgranted : i.protocol.fallbackGranted = false) :
    Nonempty (Handshake j.history s i.name) ∧
      ∃ frame, j.history.HasSent s i.name frame ∧
        (s.other, .delivered i.name frame) ∈ j.history := by
  obtain ⟨hjustified, hbacked⟩ := hj.backed
  have hstable := (hbacked s).stable
  obtain hconfirmed | ⟨-, hgrant⟩ := hstable.confirmed_of_forwarding hi hlag hl hdynamic hmux
  · have hheard : i.protocol.heard? = some i.protocol.partner := by
      simp [Protocol.heard?, hconfirmed.known, hconfirmed.receive]
    obtain ⟨n, hn, hname, hpartner⟩ := (hbacked s).memory slot i hi _ hheard
    obtain ⟨hsync, hview⟩ := hpartner.sync hconfirmed.sync
    have hshake := hjustified.handshake hn hsync hview
    rw [hname] at hshake
    refine ⟨hshake, ?_⟩
    obtain ⟨shake⟩ := hshake
    have hsub := shake.order.subset
    exact ⟨shake.question, ⟨shake.mux, hsub (by simp)⟩, hsub (by simp)⟩
  · simp [hgranted] at hgrant

/-- The last frame that one side sent from an interface comes to the other side. -/
def relay (j : Joint) (s : Side) (name : String) : Joint :=
  let sent? := j.history.reverse.findSome? fun
    | (t, .sent interface frame _) => if t = s ∧ interface = name then some frame else none
    | _ => none
  match sent? with
  | some frame => j.perform s.other (.receiveFrame name frame)
  | none => j

theorem Reachable.relay (hj : j.Reachable) (s : Side) (name : String) :
    (j.relay s name).Reachable := by
  unfold Joint.relay
  dsimp only
  split
  · next frame hfound =>
    obtain ⟨⟨t, o⟩, hmem, ho⟩ := List.exists_of_findSome?_eq_some hfound
    refine hj.perform s.other _ ?_
    show j.history.HasSent s.other.other name frame
    cases o with
    | sent interface frame' mux =>
      simp only [Option.ite_none_right_eq_some, Option.some.injEq] at ho
      obtain ⟨⟨rfl, rfl⟩, rfl⟩ := ho
      rw [Side.other_other]
      exact ⟨mux, List.mem_reverse.mp hmem⟩
    | _ => simp at ho
  · exact hj

/-- Makes an interface that is up a member of a LAG. -/
def setUp (j : Joint) (s : Side) : Joint :=
  ((j.perform s (.apply .lag ⟨"PortChannel1", .set, []⟩)).perform s
    (.apply .member ⟨"PortChannel1|Ethernet0", .set, []⟩)).perform s
      (.apply .port ⟨"Ethernet0", .set, [("admin_status", "up"), ("oper_status", "up")]⟩)

theorem Reachable.setUp (hj : j.Reachable) (s : Side) : (j.setUp s).Reachable := by
  unfold Joint.setUp
  refine .perform s _ (.perform s _ (.perform s _ hj ?_) ?_) ?_
  all_goals trivial

/-- Two sides that know each other wait until they attach, and tell each other. -/
def joined : Joint :=
  let system : Side → SystemIdentity
    | .a => { priority := 1 }
    | .b => { priority := 2 }
  let ready := (({ engine := fun s => Engine.new (system s) 8 true } : Joint).setUp .a).setUp .b
  let known := (ready.relay .a "Ethernet0").relay .b "Ethernet0"
  let attached := (known.perform .b (.advanceTo 2000)).perform .a (.advanceTo 2000)
  (attached.relay .a "Ethernet0").relay .b "Ethernet0"

theorem reachable_joined : joined.Reachable := by
  dsimp only [joined]
  refine Reachable.relay (Reachable.relay ?_ .a _) .b _
  refine Reachable.perform .a _ (Reachable.perform .b _ ?_ trivial) trivial
  refine Reachable.relay (Reachable.relay ?_ .a _) .b _
  exact Reachable.setUp (Reachable.setUp (Reachable.start _ _ _) .a) .b

/-- Side `a` of it forwards, so it has completed a handshake. -/
theorem handshake_joined : ∃ lag i, (joined.engine .a).lags.get? 0 = some lag ∧
    lag.isDynamic = true ∧ (joined.engine .a).interfaces.get? 0 = some i ∧ i.lag = some 0 ∧
    i.protocol.mux = .collectingDistributing ∧ i.protocol.fallbackGranted = false ∧
    Nonempty (Handshake joined.history .a i.name) := by
  have hlive : ((joined.engine .a).lags.get? 0).map Lag.isDynamic = some true := by
    decide +kernel
  have hforwards : ((joined.engine .a).interfaces.get? 0).map (fun i =>
      (i.lag, i.protocol.mux, i.protocol.fallbackGranted)) =
        some (some 0, .collectingDistributing, false) := by
    decide +kernel
  obtain ⟨lag, hl, hdynamic⟩ := Option.map_eq_some_iff.mp hlive
  obtain ⟨i, hi, hstate⟩ := Option.map_eq_some_iff.mp hforwards
  simp only [Prod.mk.injEq] at hstate
  obtain ⟨hlag, hmux, hgranted⟩ := hstate
  have hshake := reachable_joined.handshake_of_forwarding hl hdynamic hi hlag hmux hgranted
  exact ⟨lag, i, hl, hdynamic, hi, hlag, hmux, hgranted, hshake.1⟩

end Joint
end LinkAggregation
