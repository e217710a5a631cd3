import LinkAggregation.Cable
import LinkAggregation.Proofs.Reachable.Conversation
import LinkAggregation.Proofs.Reachable.Pacing
import Mathlib.Algebra.Order.BigOperators.Group.List
import Mathlib.Algebra.Order.Ring.Nat

/-!
# Two engines fall silent

Two engines that hear nothing but each other, with their clocks at rest, do not go on for ever. Each
message that is sent takes up room in a transmit window, and rooms do not grow again before the
clock moves. An answer to a marker takes up no room, but it is not answered in turn.
-/
namespace LinkAggregation

namespace Frame
variable {frame : Frame}

/-- How many frames may be taken for this one, the frame included: a marker that asks for an answer
gets one. -/
def cost (frame : Frame) : Nat :=
  match decode frame with
  | .ok (.marker marker) => if marker.kind = .information then 2 else 1
  | _ => 1

theorem cost_pos (frame : Frame) : 1 ≤ frame.cost := by
  unfold cost
  split
  · split <;> decide
  · exact Nat.le_refl 1

/-- A LACP message is answered from a window only. -/
theorem cost_of_lacp (h : frame.lacp?.isSome = true) : frame.cost = 1 := by
  unfold lacp? at h
  unfold cost
  split
  · next hframe => simp [hframe] at h
  · rfl

/-- An answer is not answered. -/
theorem cost_response (marker : Marker) (source : MacAddress) :
    (encodeMarker marker.response source).cost = 1 := by
  rw [cost, decode_encodeMarker]
  rfl

end Frame

/-- How many frames may be taken for these. -/
def costs (frames : List Sent) : Nat := (frames.map fun sent => sent.frame.cost).sum

/-- LACP messages on known interfaces are as many as these interfaces send. -/
theorem costs_sentFrames_le {names : List String} {effects : List Effect}
    (h : ∀ name frame, .transmit name frame ∈ effects →
      frame.lacp?.isSome = true ∧ name ∈ names) :
    costs (Cable.sentFrames effects) ≤ (names.map (sentOn · effects)).sum := by
  induction effects with
  | nil => exact Nat.zero_le _
  | cons x rest ih =>
    have hrest := ih fun name frame hmem => h name frame (List.mem_cons_of_mem _ hmem)
    have hsplit : (names.map (sentOn · (x :: rest))).sum =
        (names.map (sentOn · [x])).sum + (names.map (sentOn · rest)).sum := by
      rw [← List.sum_map_add]
      simp only [← sentOn_append, List.singleton_append]
    cases x with
    | transmit name frame =>
      obtain ⟨hlacp, hname⟩ := h name frame List.mem_cons_self
      have hone : sentOn name [.transmit name frame] = 1 := by
        simp [sentOn, Effect.lacpOn?, hlacp]
      have hfirst : 1 ≤ (names.map (sentOn · [.transmit name frame])).sum := by
        rw [← hone]
        exact List.single_le_sum (fun _ _ => Nat.zero_le _) _ (List.mem_map_of_mem hname)
      have hcost := Frame.cost_of_lacp hlacp
      simp only [costs, Cable.sentFrames, List.filterMap_cons, List.map_cons, List.sum_cons]
        at hrest ⊢
      omega
    | _ =>
      simp only [costs, Cable.sentFrames, List.filterMap_cons] at hrest ⊢
      omega

namespace Engine
variable {e : Engine} {s : Step} {l slot : Nat} {lag : Lag} {i : Interface} {name : String}
  {frame : Frame}

/-! ## One frame -/

/-- How many messages may still be sent on these interfaces before the clock moves. -/
def room (names : List String) (e : Engine) : Nat :=
  (names.map fun name => (e.windowOf name).room e.now).sum

theorem room_le (names : List String) (e : Engine) :
    e.room names ≤ transmitLimit * names.length := by
  have hsum := List.sum_le_card_nsmul (names.map fun name => (e.windowOf name).room e.now)
    transmitLimit (List.forall_mem_map.mpr fun name _ => (e.windowOf name).room_le e.now)
  rwa [List.length_map, Nat.nsmul_eq_mul, Nat.mul_comm] at hsum

/-- What is sent takes up room. -/
theorem Apart.room_le {k : Nat} (h : Apart k e s) (names : List String) :
    s.1.room names + (names.map (sentOn · s.2)).sum ≤ e.room names := by
  rw [room, room, ← List.sum_map_add]
  refine List.sum_le_sum fun name _ => ?_
  have hroom := (h.paced name).room_le
  rwa [h.now] at hroom ⊢

/-- An evaluation sends LACP messages on known interfaces, and nothing else. -/
theorem Linked.transmit_evaluate (h : e.Linked) (hx : .transmit name frame ∈ (e.evaluate l).2) :
    frame.lacp?.isSome = true ∧ (e.interfaces.find? name).isSome = true := by
  cases hl : e.lags.get? l with
  | none =>
    rw [evaluate_of_not_live hl] at hx
    simp at hx
  | some lag =>
    rw [evaluate_eq hl, List.mem_append] at hx
    obtain hx | hx := hx
    · obtain ⟨⟨slot, i⟩, hm, hx⟩ := List.mem_flatMap.mp hx
      obtain ⟨-, hi⟩ := mem_members.mp hm
      obtain ⟨-, rfl, rfl⟩ := Evaluation.transmit_of_mem_effects hx
      have hname : (e.regrant l lag slot i).name = i.name := Interface.withGrant_name _ _
      rw [Frame.lacp?_encodeLacp, hname, h.interfaces.find?_of_get? hi]
      exact ⟨rfl, rfl⟩
    · split at hx
      · simp at hx
      · simpa using mem_of_mem_emit hx

/-- An accepted message makes the LAG speak, and nobody else. -/
theorem Coherent.transmit_receiveLacp (h : e.Stable) (hi : e.interfaces.get? slot = some i)
    (hlag : i.lag = some l) {pdu : Lacpdu}
    (hx : .transmit name frame ∈ (e.receiveLacp slot l i pdu).2) :
    frame.lacp?.isSome = true ∧ (e.interfaces.find? name).isSome = true := by
  have hstable := h.receiveLacp hi hlag pdu
  revert hstable hx
  unfold Engine.receiveLacp
  split
  · exact fun hx => absurd hx List.not_mem_nil
  · dsimp only
    split
    · exact fun hx => absurd hx List.not_mem_nil
    · exact fun hx hstable => hstable.linked.of_evaluate.transmit_evaluate hx

/-- A frame has the engine send LACP messages on known interfaces, or it is a marker and has it send
one answer. -/
theorem Coherent.transmit_receiveFrame (h : e.Stable) (name : String) (frame : Frame) :
    (∀ name' frame', .transmit name' frame' ∈ (e.receiveFrame name frame).effects →
        frame'.lacp?.isSome = true ∧ (e.interfaces.find? name').isSome = true) ∨
      frame.cost = 2 ∧ ∃ name' frame', frame'.cost = 1 ∧
        (e.receiveFrame name frame).effects = [.transmit name' frame'] := by
  have hsilent : ∀ name' frame', Effect.transmit name' frame' ∈ ([] : List Effect) →
      frame'.lacp?.isSome = true ∧ (e.interfaces.find? name').isSome = true :=
    fun _ _ hx => absurd hx List.not_mem_nil
  unfold Engine.receiveFrame
  split
  · exact .inl hsilent
  · split
    · exact .inl hsilent
    · next i hi =>
      split
      · exact .inl hsilent
      · exact .inl hsilent
      · next hlag => exact .inl fun _ _ hx => h.transmit_receiveLacp hi hlag hx
      · next marker l hframe hlag =>
        unfold Engine.receiveMarker
        dsimp only
        split
        · next hasks =>
          simp only [Bool.and_eq_true, decide_eq_true_eq] at hasks
          refine .inr ⟨?_, i.name, _, Frame.cost_response marker _, rfl⟩
          simp [Frame.cost, hframe, hasks.1.1]
        · exact .inl hsilent

theorem Coherent.find?_receiveLacp (h : e.Stable) (hi : e.interfaces.get? slot = some i)
    (hlag : i.lag = some l) (pdu : Lacpdu) (name : String) :
    (e.receiveLacp slot l i pdu).1.interfaces.find? name = e.interfaces.find? name := by
  have hstable := h.receiveLacp hi hlag pdu
  revert hstable
  unfold Engine.receiveLacp
  split
  · exact fun _ => rfl
  · dsimp only
    split
    · exact fun _ => rfl
    · intro hstable
      exact (sameLinks_evaluate (hstable.linked.of_evaluate.nodup l)).findInterface name

/-- No interface comes or goes with a frame. -/
theorem Coherent.find?_receiveFrame (h : e.Stable) (received : String) (frame : Frame)
    (name : String) :
    (e.receiveFrame received frame).engine.interfaces.find? name = e.interfaces.find? name := by
  unfold Engine.receiveFrame
  split
  · rfl
  · split
    · rfl
    · next i hi =>
      split
      · rfl
      · rfl
      · next hlag => exact h.find?_receiveLacp hi hlag _ name
      · unfold Engine.receiveMarker
        dsimp only
        split <;> rfl

/-- A frame that is taken costs more than it makes possible. -/
theorem Coherent.room_receiveFrame (h : e.Stable) {names : List String}
    (hnames : ∀ name, (e.interfaces.find? name).isSome = true → name ∈ names) (name : String)
    (frame : Frame) :
    (e.receiveFrame name frame).engine.room names +
        costs (Cable.sentFrames (e.receiveFrame name frame).effects) <
      e.room names + frame.cost := by
  obtain ⟨k, hapart⟩ := h.apart_vacant_receiveFrame name frame
  have hroom : (e.receiveFrame name frame).engine.room names +
      (names.map (sentOn · (e.receiveFrame name frame).effects)).sum ≤ e.room names :=
    hapart.room_le names
  -- A LACP message takes up room. An answer to a marker does not, but costs less than the marker.
  obtain hlacp | ⟨hcost, name', frame', hanswer, heffects⟩ := h.transmit_receiveFrame name frame
  · have hsent := costs_sentFrames_le fun name' frame' hx =>
      (hlacp name' frame' hx).imp_right (hnames name')
    have hpos := frame.cost_pos
    omega
  · have hsent : costs (Cable.sentFrames (e.receiveFrame name frame).effects) = 1 := by
      rw [heffects]
      exact hanswer
    omega

theorem mem_names {a : Arena Interface} (h : (a.find? name).isSome = true) : name ∈ a.names := by
  obtain ⟨slot, hslot⟩ := Option.isSome_iff_exists.mp h
  exact List.mem_mergeSort.mpr (List.mem_map_of_mem (Assoc.mem_of_get? hslot))

end Engine

/-! ## Frames back and forth -/

/-- Two engines, and the frames of each side that are under way. -/
structure Exchange where
  engine : Side → Engine
  underway : Side → List Sent

namespace Exchange
variable {x x' x'' : Exchange} {n : Nat} {names : Side → List String}

/-- A frame of one side comes to an interface of the other side, and what is sent there is under way
as well. -/
def deliver [Clock] (x : Exchange) (s : Side) (rest : List Sent) (name : String) (frame : Frame) :
    Exchange where
  engine t := if t = s then x.engine t else ((x.engine t).receiveFrame name frame).engine
  underway t :=
    if t = s then rest
    else x.underway t ++ Cable.sentFrames ((x.engine t).receiveFrame name frame).effects

def lose (x : Exchange) (s : Side) (rest : List Sent) : Exchange :=
  { x with underway := fun t => if t = s then rest else x.underway t }

/-- A frame is taken, whichever it is: it comes to some interface, or it is lost. -/
inductive Takes [Clock] (x : Exchange) : Exchange → Prop
  | deliver (s : Side) {sent : Sent} {rest : List Sent} (h : (x.underway s).Perm (sent :: rest))
      (name : String) : Takes x (x.deliver s rest name sent.frame)
  | lose (s : Side) {sent : Sent} {rest : List Sent} (h : (x.underway s).Perm (sent :: rest)) :
      Takes x (x.lose s rest)

/-- This many frames are taken one after the other, and nothing else happens. -/
inductive Leads [Clock] : Nat → Exchange → Exchange → Prop
  | refl (x : Exchange) : Leads 0 x x
  | step {n : Nat} {x x' x'' : Exchange} (h : Takes x x') (hrest : Leads n x' x'') :
      Leads (n + 1) x x''

/-- The interfaces that a side knows are among these. -/
structure Ready (names : Side → List String) (x : Exchange) : Prop where
  stable : ∀ s, (x.engine s).Stable
  known : ∀ s name, ((x.engine s).interfaces.find? name).isSome = true → name ∈ names s

/-- How many frames may still be taken. -/
def allowance (names : Side → List String) (x : Exchange) : Nat :=
  (x.engine .a).room (names .a) + (x.engine .b).room (names .b) +
    (costs (x.underway .a) + costs (x.underway .b))

theorem costs_append (first second : List Sent) :
    costs (first ++ second) = costs first + costs second := by
  simp [costs]

theorem costs_of_perm {frames rest : List Sent} {sent : Sent} (h : frames.Perm (sent :: rest)) :
    costs frames = sent.frame.cost + costs rest := by
  have hsum := (h.map fun sent => sent.frame.cost).sum_eq
  simpa [costs] using hsum

theorem Takes.ready (h : Takes x x') (hr : Ready names x) : Ready names x' := by
  cases h with
  | deliver s hsent name =>
    constructor
    · intro t
      unfold Exchange.deliver
      dsimp only
      split
      · exact hr.stable t
      · exact (hr.stable t).receiveFrame name _
    · intro t name' hknown
      unfold Exchange.deliver at hknown
      dsimp only at hknown
      split at hknown
      · exact hr.known t name' hknown
      · rw [(hr.stable t).find?_receiveFrame] at hknown
        exact hr.known t name' hknown
  | lose s hsent => exact ⟨hr.stable, hr.known⟩

/-- Every frame that is taken leaves fewer to be taken. -/
theorem Takes.allowance_lt (h : Takes x x') (hr : Ready names x) :
    x'.allowance names < x.allowance names := by
  cases h with
  | @deliver s sent rest hsent name =>
    have hcosts := costs_of_perm hsent
    have hroom := fun t => (hr.stable t).room_receiveFrame (hr.known t) name sent.frame
    cases s with
    | a =>
      have hother := hroom .b
      simp only [allowance, Exchange.deliver, if_true, reduceCtorEq, if_false, costs_append]
      omega
    | b =>
      have hother := hroom .a
      simp only [allowance, Exchange.deliver, if_true, reduceCtorEq, if_false, costs_append]
      omega
  | @lose s sent rest hsent =>
    have hcosts := costs_of_perm hsent
    have hpos := sent.frame.cost_pos
    cases s <;> simp only [allowance, Exchange.lose, if_true, reduceCtorEq, if_false] <;> omega

theorem Leads.allowance_le (h : Leads n x x') (hr : Ready names x) :
    n + x'.allowance names ≤ x.allowance names := by
  induction h with
  | refl => exact Nat.le_of_eq (Nat.zero_add _)
  | step htakes _ ih =>
    have hrest := ih (htakes.ready hr)
    have hfirst := htakes.allowance_lt hr
    omega

theorem Takes.now_eq (h : Takes x x') (hr : Ready names x) (s : Side) :
    (x'.engine s).now = (x.engine s).now := by
  cases h with
  | deliver t hsent name =>
    unfold Exchange.deliver
    dsimp only
    split
    · rfl
    · obtain ⟨k, hapart⟩ := (hr.stable s).apart_vacant_receiveFrame name _
      exact hapart.now
  | lose t hsent => rfl

theorem Leads.now_eq (h : Leads n x x') (hr : Ready names x) (s : Side) :
    (x'.engine s).now = (x.engine s).now := by
  induction h with
  | refl => rfl
  | step htakes _ ih => exact (ih (htakes.ready hr)).trans (htakes.now_eq hr s)

/-- The engines fall silent if all they hear is each other, with their clocks at rest. -/
structure FallsSilent [Clock] (x : Exchange) : Prop where
  /-- Only so many frames can be taken, in whatever order and wherever they come to. -/
  bounded : ∀ n x', Leads n x x' →
    n ≤ 3 * (x.engine .a).interfaces.names.length + 3 * (x.engine .b).interfaces.names.length +
      (costs (x.underway .a) + costs (x.underway .b))
  /-- As long as a frame is under way it can be taken. -/
  silent : ∀ n x', Leads n x x' → (∀ x'', ¬ Takes x' x'') → ∀ s, x'.underway s = []
  frozen : ∀ n x', Leads n x x' → ∀ s, (x'.engine s).now = (x.engine s).now

section
variable [Clock] (hf : ∀ s, (x.engine s).Fits)
include hf

omit [Clock] in
theorem Takes.fits (h : @Takes .exact x x') (hs : ∀ s, (x.engine s).Stable) (s : Side) :
    (x'.engine s).Fits := by
  cases h with
  | deliver t hsent name =>
    unfold Exchange.deliver
    dsimp only
    split
    · exact hf s
    · exact (hf s).handle (hs s) (.receiveFrame name _) nofun
  | lose t hsent => exact hf s

/-- In range it does not depend on the clock what becomes of a frame. -/
theorem Takes.exact (h : Takes x x') : @Takes .exact x x' := by
  cases h with
  | @deliver s sent rest hsent name =>
    have hsame : x.deliver s rest name sent.frame =
        @Exchange.deliver .exact x s rest name sent.frame := by
      simp only [Exchange.deliver, Engine.receiveFrame_exact (hf _)]
    rw [hsame]
    exact @Takes.deliver .exact x s sent rest hsent name
  | lose s hsent => exact @Takes.lose .exact x s _ _ hsent

theorem Leads.exact (h : Leads n x x') (hr : Ready names x) : @Leads .exact n x x' := by
  induction h with
  | refl x => exact @Leads.refl .exact x
  | step htakes _ ih =>
    have hfirst := Takes.exact hf htakes
    have hfits := Takes.fits hf hfirst hr.stable
    exact @Leads.step .exact _ _ _ _ hfirst (ih hfits (hfirst.ready hr))

theorem fallsSilent (h : ∀ s, (x.engine s).Stable) : x.FallsSilent := by
  have hr : Ready (fun s => (x.engine s).interfaces.names) x := ⟨h, fun _ _ => Engine.mem_names⟩
  refine ⟨fun n x' hleads => ?_, fun n x' _ hend s => ?_, fun n x' hleads => ?_⟩
  · have hallowed := (Leads.exact hf hleads hr).allowance_le hr
    have ha := Engine.room_le (x.engine .a).interfaces.names (x.engine .a)
    have hb := Engine.room_le (x.engine .b).interfaces.names (x.engine .b)
    simp only [allowance, transmitLimit] at hallowed ha hb
    omega
  · cases hunderway : x'.underway s with
    | nil => rfl
    | cons sent rest =>
      exact absurd (Takes.lose s (List.Perm.of_eq hunderway)) (hend _)
  · exact (Leads.exact hf hleads hr).now_eq hr

end

end Exchange

/-- The times of messages that keep to the limit. -/
structure Moderate (times : List Nat) : Prop where
  windows : InWindows times
  instant : ∀ t, times.count t ≤ 3
  second : ∀ t, times.countP (fun x => t ≤ x ∧ x < t + 1000) ≤ 6

theorem InWindows.moderate {times : List Nat} (h : InWindows times) : Moderate times :=
  ⟨h, h.count_le, h.countP_le⟩

/-- Whatever two engines have been asked, if their clocks have stayed in range, their interfaces have
kept to the limit all their lives, and once the engines are left to themselves they fall silent. -/
theorem moderate_reached [Clock] (system : Side → SystemIdentity) (maxMembers : Side → Nat)
    (connected : Side → Bool) (requests : Side → List Request)
    (h : ∀ s time, Request.advanceTo time ∈ requests s → time ≤ lastClock) :
    (∀ s name, ∀ life ∈ (Engine.new (system s) (maxMembers s) (connected s)).livesOf name
      (requests s), Moderate life) ∧
    ∀ underway, Exchange.FallsSilent
      { engine := fun s => Engine.reached (system s) (maxMembers s) (connected s) (requests s)
        underway } := by
  constructor
  · intro s name life hlife
    rw [Engine.livesOf_exact _ _ _ (h s)] at hlife
    exact (Engine.inWindows_lives _ _ _ _ hlife).moderate
  · intro underway
    refine Exchange.fallsSilent (fun s => ?_) fun s => ?_
    · dsimp only
      rw [Engine.reached_exact (h s)]
      exact Engine.fits_reached (h s) _ _ _
    · dsimp only
      rw [Engine.reached_exact (h s)]
      exact Engine.stable_reached _ _ _ _

/-- A member that has something to say four times at one clock value. -/
def talkative (time : Nat) : List Request :=
  let prefer (priority : String) : Request :=
    .apply .member ⟨"PortChannel1|Ethernet0", .set, [("lacp_port_priority", priority)]⟩
  [.apply .lag ⟨"PortChannel1", .set, []⟩, .apply .member ⟨"PortChannel1|Ethernet0", .set, []⟩,
    .apply .port ⟨"Ethernet0", .set, [("admin_status", "up"), ("oper_status", "up")]⟩,
    .advanceTo time, prefer "2", prefer "3", prefer "4"]

/-- At the last clock value the limit still holds it back. -/
theorem moderate_reached_talkative :
    let begin := Engine.new {} 8 true
    let requests := talkative lastClock
    let lives := @Engine.livesOf .wrapping "Ethernet0" begin requests
    (∀ time, Request.advanceTo time ∈ requests → time ≤ lastClock) ∧
      lives = [[], [0, lastClock, lastClock, lastClock]] ∧ (∀ life ∈ lives, Moderate life) ∧
      ∀ underway, @Exchange.FallsSilent .wrapping
        { engine := fun _ => @Engine.reached .wrapping {} 8 true requests, underway } := by
  intro begin requests lives
  have hclock : ∀ time, Request.advanceTo time ∈ requests → time ≤ lastClock :=
    Engine.clock_of_all (by decide +kernel)
  obtain ⟨hlives, hsilent⟩ := @moderate_reached .wrapping (fun _ => {}) (fun _ => 8)
    (fun _ => true) (fun _ => requests) fun _ => hclock
  exact ⟨hclock, by decide +kernel, hlives .a "Ethernet0", hsilent⟩

/-- At the last time the end of the window wraps, and every message begins a new one. -/
theorem immoderate_talkative :
    ∃ life ∈ @Engine.livesOf .wrapping "Ethernet0" (Engine.new {} 8 true) (talkative lastTime),
      life.count lastTime = 4 ∧ ¬ Moderate life := by
  refine ⟨[0, lastTime, lastTime, lastTime, lastTime], by decide +kernel, by decide +kernel, ?_⟩
  intro h
  exact absurd (h.instant lastTime) (by decide +kernel)

end LinkAggregation
