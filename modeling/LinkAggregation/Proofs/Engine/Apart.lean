import LinkAggregation.Proofs.Engine.Speech
import LinkAggregation.Proofs.Protocol.Window

/-!
# Moves away from a LAG

A move that is made elsewhere spares a LAG: its record, its members and their timers stay as they
are, and nobody outside hears of it or of them. For each message that is sent, the interface takes a
place in its transmit window.
-/
namespace LinkAggregation

namespace Effect

/-- The interface that the effect is about. -/
def interface? : Effect → Option String
  | transmit interface _ | writeRecord interface _ | removeRecord interface => some interface
  | writeLag _ _ | removeLag _ => none

/-- The LAG that the effect is about. -/
def lag? : Effect → Option String
  | writeLag lag _ | removeLag lag => some lag
  | transmit _ _ | writeRecord _ _ | removeRecord _ => none

theorem lacpOn?_of_interface {x : Effect} {name : String} (h : x.interface? ≠ some name) :
    x.lacpOn? name = none := by
  cases x with
  | transmit interface frame => exact if_neg fun heq => h (congrArg some heq)
  | _ => rfl

end Effect

/-- How many LACP messages are sent on an interface. -/
def sentOn (name : String) (effects : List Effect) : Nat :=
  effects.countP fun x => (x.lacpOn? name).isSome

section
variable {name : String} {effects more : List Effect}

theorem sentOn_eq_length : sentOn name effects = (messagesOn name effects).length :=
  List.length_filterMap_eq_countP.symm

@[simp] theorem sentOn_append :
    sentOn name (effects ++ more) = sentOn name effects + sentOn name more :=
  List.countP_append

@[simp] theorem sentOn_encodeLacp (pdu : Lacpdu) (source : MacAddress) :
    sentOn name [.transmit name (Frame.encodeLacp pdu source)] = 1 := by
  simp [sentOn, Effect.lacpOn?, Frame.lacp?_encodeLacp]

theorem sentOn_eq_zero (h : ∀ x ∈ effects, x.lacpOn? name = none) : sentOn name effects = 0 := by
  refine List.countP_eq_zero.mpr fun x hx => ?_
  simp [h x hx]

end

/-! ## What a member does to the outside -/

namespace Evaluation
variable {ev : Evaluation} {selection : Selection} {i : Interface} {name : String}

theorem interface?_of_mem_transmitIfDue {slot : Nat} {t : Timers} {x : Effect}
    (h : x ∈ (ev.transmitIfDue slot i t).2.2) : x.interface? = some i.name := by
  unfold transmitIfDue transmit at h
  split at h
  · simp at h
  · split at h
    · dsimp only at h
      split at h
      · split at h
        · rw [List.mem_singleton.mp h]
          rfl
        · simp at h
      · simp at h
    · simp at h

theorem interface?_of_mem_publish {x : Effect} (h : x ∈ (ev.publish i).2) :
    x.interface? = some i.name := by
  unfold publish at h
  dsimp only at h
  split at h
  · simp at h
  · split at h
    · rw [List.mem_singleton.mp h]
      rfl
    · simp at h

/-- All that a member does to the outside is about itself. -/
theorem interface?_of_mem_effects {x : Effect} (h : x ∈ ev.effects selection i) :
    x.interface? = some i.name := by
  have hmachines : (ev.runMachines 0 selection i {}).1 =
      { i with protocol := ev.machined selection i } := runMachines_fst
  rw [effects, member] at h
  simp only [hmachines, List.mem_append] at h
  obtain hsent | hpublished := h
  · rw [interface?_of_mem_transmitIfDue hsent]
  · rw [interface?_of_mem_publish hpublished]
    exact congrArg some (transmitIfDue_keeps Interface.name fun _ _ _ _ => rfl)

/-- A message that is sent takes a place in the window. -/
theorem spends_transmitIfDue {slot : Nat} {t : Timers} :
    i.window.Spends ev.now (sentOn i.name (ev.transmitIfDue slot i t).2.2)
      (ev.transmitIfDue slot i t).1.window := by
  unfold transmitIfDue transmit
  split
  · exact .rest _
  · split
    · cases htake : i.window.take? ev.now Periodic.fastInterval transmitLimit with
      | mk granted window =>
        cases granted with
        | false =>
          obtain ⟨hnow, hsent⟩ := TransmitWindow.full_of_take? (by decide) (congrArg Prod.fst htake)
          obtain rfl : i.window = window :=
            congrArg Prod.snd ((TransmitWindow.take?_of_full hnow hsent).symm.trans htake)
          exact .rest _
        | true =>
          cases hconnected : ev.connected with
          | true =>
            simp only [if_true, sentOn_encodeLacp]
            exact .take true htake (.rest _)
          | false => exact .take false htake (.rest _)
    · exact .rest _

theorem spends_effects (selection : Selection) (i : Interface) :
    i.window.Spends ev.now (sentOn i.name (ev.effects selection i))
      (ev.result selection i).window := by
  have hmachines : (ev.runMachines 0 selection i {}).1 =
      { i with protocol := ev.machined selection i } := runMachines_fst
  have hsilent : ∀ j : Interface, sentOn i.name (ev.publish j).2 = 0 := fun j =>
    sentOn_eq_zero fun x hx => publish_lacpOn? hx
  rw [effects, member, result_eq 0 (ev.runMachines 0 selection i {}).2, publish_fst]
  simp only [hmachines, sentOn_append, hsilent, Nat.add_zero]
  exact spends_transmitIfDue (i := { i with protocol := ev.machined selection i })

end Evaluation

namespace Engine
variable {e e' : Engine} {c : Kind} {s s' : Step} {k l slot : Nat} {lag : Lag} {i : Interface}
  {name : String}

/-! ## What an operation leaves alone -/

/-- The effect is about the LAG or one of its members. -/
def Concerns (e : Engine) (l : Nat) (x : Effect) : Prop :=
  (∃ lag, e.lags.get? l = some lag ∧ x.lag? = some lag.name) ∨
    ∃ slot i, e.interfaces.get? slot = some i ∧ i.lag = some l ∧ x.interface? = some i.name

/-- The LAG, its members and their timers are as before, and no effect is about them. -/
structure Spares (k : Nat) (e : Engine) (s : Step) : Prop where
  lag : s.1.lags.get? k = e.lags.get? k
  members : ∀ slot, e.IsMember k slot → s.1.interfaces.get? slot = e.interfaces.get? slot
  timers : ∀ key, e.Owns k key → s.1.timers.deadline? key = e.timers.deadline? key
  silent : ∀ x ∈ s.2, ¬ e.Concerns k x

/-- The window of an interface. One that is not known has a fresh one. -/
def windowOf (e : Engine) (name : String) : TransmitWindow :=
  ((e.interface? name).map (·.window)).getD {}

/-- For every message that is sent the interface takes a place in its window. -/
def Paced (e : Engine) (s : Step) : Prop :=
  ∀ name, (e.windowOf name).Spends s.1.now (sentOn name s.2) (s.1.windowOf name)

/-- The operation is made away from the LAG, at one clock value and within the transmit windows. -/
structure Apart (k : Nat) (e : Engine) (s : Step) : Prop where
  now : s.1.now = e.now
  spares : Spares k e s
  paced : Paced e s

namespace Spares

theorem refl (k : Nat) (e : Engine) : Spares k e (e, []) :=
  ⟨rfl, fun _ _ => rfl, fun _ _ => rfl, fun _ hx => absurd hx List.not_mem_nil⟩

theorem isMember (h : Spares k e s) (hslot : e.IsMember k slot) : s.1.IsMember k slot := by
  obtain ⟨i, hi, hlag⟩ := hslot
  exact ⟨i, (h.members slot ⟨i, hi, hlag⟩).trans hi, hlag⟩

theorem owns (h : Spares k e s) {key : TimerKey} (hkey : e.Owns k key) : s.1.Owns k key := by
  obtain rfl | ⟨slot, hslot, hmember⟩ := hkey
  · exact .inl rfl
  · exact .inr ⟨slot, hslot, h.isMember hmember⟩

theorem concerns (h : Spares k e s) {x : Effect} (hx : e.Concerns k x) : s.1.Concerns k x := by
  obtain ⟨lag, hl, hname⟩ | ⟨slot, i, hi, hlag, hname⟩ := hx
  · exact .inl ⟨lag, h.lag.trans hl, hname⟩
  · exact .inr ⟨slot, i, (h.members slot ⟨i, hi, hlag⟩).trans hi, hlag, hname⟩

theorem trans (h : Spares k e s) (h' : Spares k s.1 s') : Spares k e (s'.1, s.2 ++ s'.2) where
  lag := h'.lag.trans h.lag
  members := fun slot hslot => (h'.members slot (h.isMember hslot)).trans (h.members slot hslot)
  timers := fun key hkey => (h'.timers key (h.owns hkey)).trans (h.timers key hkey)
  silent := by
    intro x hx hconcerns
    obtain hx | hx := List.mem_append.mp hx
    · exact h.silent x hx hconcerns
    · exact h'.silent x hx (h.concerns hconcerns)

/-- Changes within another LAG. -/
theorem of_within (hw : Within l e s.1) (hk : k ≠ l) (hsilent : ∀ x ∈ s.2, ¬ e.Concerns k x) :
    Spares k e s where
  lag := hw.others k hk
  members := fun slot hslot => hw.outside slot fun hl => hk (hl.unique hslot)
  timers := fun key hkey => hw.timers key fun hl => hk (hl.unique hkey)
  silent := hsilent

/-- Changes of one interface that is no member of the LAG. -/
theorem of_slot (hslot : ¬ e.IsMember k slot) (hlag : s.1.lags.get? k = e.lags.get? k)
    (hget : ∀ slot', slot' ≠ slot → s.1.interfaces.get? slot' = e.interfaces.get? slot')
    (htimers : ∀ key : TimerKey, key.interface? ≠ some slot →
      s.1.timers.deadline? key = e.timers.deadline? key)
    (hsilent : ∀ x ∈ s.2, ¬ e.Concerns k x) : Spares k e s where
  lag := hlag
  members := by
    intro slot' hmember
    refine hget slot' ?_
    rintro rfl
    exact hslot hmember
  timers := by
    intro key hkey
    refine htimers key fun heq => hslot ?_
    exact (owns_of_interface heq).mp hkey
  silent := hsilent

end Spares

/-- What is about another LAG does not concern this one. -/
theorem Linked.not_concerns_of_lag (h : e.Linked) (hl : e.lags.get? l = some lag) (hk : k ≠ l)
    {x : Effect} (hx : x.lag? = some lag.name) (hx' : x.interface? = none) : ¬ e.Concerns k x := by
  rintro (⟨lag', hl', hname⟩ | ⟨_, _, _, _, hname⟩)
  · exact hk (h.lags.slot_unique hl' hl (Option.some.inj (hname.symm.trans hx)))
  · simp [hx'] at hname

/-- What is about an interface concerns the LAG only if the interface is a member. -/
theorem Linked.not_concerns_of_interface (h : e.Linked) (hi : e.interfaces.get? slot = some i)
    (hslot : ¬ e.IsMember k slot) {x : Effect} (hx : x.interface? = some i.name) :
    ¬ e.Concerns k x := by
  rintro (⟨_, _, hname⟩ | ⟨slot', j, hj, hlag, hname⟩)
  · cases x <;> simp [Effect.interface?, Effect.lag?] at hx hname
  · obtain rfl : slot' = slot :=
      h.interfaces.slot_unique hj hi (Option.some.inj (hname.symm.trans hx))
    exact hslot ⟨j, hj, hlag⟩

/-! ## Windows -/

theorem windowOf_congr (hfind : e'.interfaces.find? name = e.interfaces.find? name)
    (hget : ∀ slot, e.interfaces.find? name = some slot →
      (e'.interfaces.get? slot).map (·.window) = (e.interfaces.get? slot).map (·.window)) :
    e'.windowOf name = e.windowOf name := by
  unfold windowOf interface? Arena.lookup?
  rw [hfind]
  cases hname : e.interfaces.find? name with
  | none => rfl
  | some slot => exact congrArg (Option.getD · {}) (hget slot hname)

theorem windowOf_put {r : Interface × Timers} (hi : e.interfaces.get? slot = some i)
    (hwindow : r.1.window = i.window) : (e.put slot r).windowOf name = e.windowOf name := by
  refine windowOf_congr rfl fun slot' _ => ?_
  rw [get?_put]
  split
  · next heq =>
    rw [← heq, hi]
    exact congrArg some hwindow
  · rfl

theorem windowOf_unknown (hname : e.interfaces.find? name = none) : e.windowOf name = {} := by
  simp [windowOf, interface?, Arena.lookup?, hname]

namespace Paced

theorem refl (e : Engine) : Paced e (e, []) := fun _ => .rest _

theorem trans (h : Paced e s) (h' : Paced s.1 s') (hnow : s'.1.now = s.1.now) :
    Paced e (s'.1, s.2 ++ s'.2) := by
  intro name
  rw [sentOn_append]
  have hfirst := h name
  rw [← hnow] at hfirst
  exact hfirst.trans (h' name)

/-- Nothing is sent. -/
theorem of_quiet (hwindow : ∀ name, s.1.windowOf name = e.windowOf name)
    (hquiet : ∀ x ∈ s.2, ∀ name, x.lacpOn? name = none) : Paced e s := by
  intro name
  rw [sentOn_eq_zero fun x hx => hquiet x hx name, hwindow]
  exact .rest _

end Paced

namespace Apart

theorem refl (k : Nat) (e : Engine) : Apart k e (e, []) := ⟨rfl, .refl k e, .refl e⟩

theorem trans (h : Apart k e s) (h' : Apart k s.1 s') : Apart k e (s'.1, s.2 ++ s'.2) where
  now := h'.now.trans h.now
  spares := h.spares.trans h'.spares
  paced := h.paced.trans h'.paced h'.now

/-- A beginning without effects. -/
theorem silent_trans (h : Apart k e (e', [])) (h' : Apart k e' s) : Apart k e s := h.trans h'

end Apart

/-! ## Evaluation -/

/-- No time passes during an evaluation. -/
theorem now_evaluate (e : Engine) (l : Nat) : (e.evaluate l).1.now = e.now := by
  cases hl : e.lags.get? l with
  | none => rw [evaluate_of_not_live hl]
  | some lag => rw [evaluate_keeps hl]

/-- What an evaluation does to the outside is about the LAG or about one of its members. -/
theorem of_mem_evaluate (hl : e.lags.get? l = some lag) {x : Effect} (hx : x ∈ (e.evaluate l).2) :
    (∃ slot i, slot ∈ lag.members ∧ e.interfaces.get? slot = some i ∧
      x.interface? = some i.name) ∨ x.interface? = none ∧ x.lag? = some lag.name := by
  rw [evaluate_eq hl, List.mem_append] at hx
  obtain hx | hx := hx
  · obtain ⟨⟨slot, i⟩, hm, hx⟩ := List.mem_flatMap.mp hx
    obtain ⟨hslot, hi⟩ := mem_members.mp hm
    refine .inl ⟨slot, i, hslot, hi, ?_⟩
    rw [Evaluation.interface?_of_mem_effects hx, regrant, Interface.withGrant_name]
  · split at hx
    · simp at hx
    · rw [List.mem_singleton.mp (mem_of_mem_emit hx)]
      exact .inr ⟨rfl, rfl⟩

theorem regrant_window (e : Engine) (l : Nat) (lag : Lag) (slot : Nat) (i : Interface) :
    (e.regrant l lag slot i).window = i.window :=
  Interface.withGrant_keeps Interface.window (fun _ _ _ => rfl) i _

/-- An evaluated member takes places in its window, and only for what it sends. -/
theorem spends_after (e : Engine) (l : Nat) (lag : Lag) (slot : Nat) (i : Interface) :
    i.window.Spends e.now (sentOn i.name
      ((e.evaluation lag).effects (e.decision l lag slot) (e.regrant l lag slot i)))
      (e.after l lag slot i).window := by
  have hname : (e.regrant l lag slot i).name = i.name := Interface.withGrant_name _ _
  have hspends := (e.evaluation lag).spends_effects (e.decision l lag slot)
    (e.regrant l lag slot i)
  rw [regrant_window, hname] at hspends
  exact hspends

section
variable (h : e.Linked)
include h

/-- An evaluation leaves an interface alone, which then sends nothing, or evaluates it as a
member. -/
theorem Linked.interface?_evaluate (l : Nat) (name : String) :
    (e.evaluate l).1.interface? name = e.interface? name ∧ sentOn name (e.evaluate l).2 = 0 ∨
      ∃ lag slot i, e.lags.get? l = some lag ∧ e.interface? i.name = some i ∧ i.name = name ∧
        (e.evaluate l).1.interface? i.name = some (e.after l lag slot i) ∧
        sentOn i.name (e.evaluate l).2 = sentOn i.name
          ((e.evaluation lag).effects (e.decision l lag slot) (e.regrant l lag slot i)) := by
  cases hl : e.lags.get? l with
  | none =>
    rw [evaluate_of_not_live hl]
    exact .inl ⟨rfl, rfl⟩
  | some lag =>
    have hfind := find?_evaluate hl name
    cases hname : e.interfaces.find? name with
    | none =>
      refine .inl ⟨by simp [interface?, Arena.lookup?, hfind, hname], sentOn_eq_zero fun x hx => ?_⟩
      refine Effect.lacpOn?_of_interface fun hx' => ?_
      obtain ⟨slot, i, -, hi, hown⟩ | ⟨hnone, -⟩ := of_mem_evaluate hl hx
      · rw [← Option.some.inj (hown.symm.trans hx'), h.interfaces.find?_of_get? hi] at hname
        simp at hname
      · simp [hx'] at hnone
    | some slot =>
      obtain ⟨i, hi, rfl⟩ := h.interfaces.get?_of_find? hname
      by_cases hslot : slot ∈ lag.members
      · have hafter : (e.evaluate l).1.interfaces.get? slot = some (e.after l lag slot i) := by
          rw [get?_evaluate hl (h.nodup l lag hl) hslot, hi]
          rfl
        refine .inr ⟨lag, slot, i, rfl, h.interface?_name hi, rfl, ?_, ?_⟩
        · simp [interface?, Arena.lookup?, hfind, hname, hafter]
        · rw [sentOn_eq_length, h.messagesOn_evaluate hl hi hslot, ← sentOn_eq_length]
      · have hstays := get?_evaluate_of_not_mem hl hslot
        refine .inl ⟨by simp [interface?, Arena.lookup?, hfind, hname, hstays], ?_⟩
        rw [sentOn_eq_length, h.messagesOn_evaluate_of_not_mem hl hi hslot]
        rfl

/-- Each member takes places in its own window, and only for what it sends. -/
theorem Linked.paced_evaluate (l : Nat) : Paced e (e.evaluate l) := by
  intro name
  rw [now_evaluate]
  obtain ⟨hstays, hsent⟩ | ⟨lag, slot, i, hl, hi, rfl, hafter, hsent⟩ :=
    h.interface?_evaluate l name
  · rw [windowOf, windowOf, hstays, hsent]
    exact .rest _
  · rw [windowOf, windowOf, hi, hafter, hsent]
    exact e.spends_after l lag slot i

theorem Linked.apart_evaluate (hk : k ≠ l) : Apart k e (e.evaluate l) where
  now := now_evaluate e l
  spares := by
    refine .of_within (h.within_evaluate l) hk fun x hx => ?_
    cases hl : e.lags.get? l with
    | none =>
      rw [evaluate_of_not_live hl] at hx
      simp at hx
    | some lag =>
      obtain ⟨slot, i, hslot, hi, hname⟩ | ⟨hnone, hname⟩ := of_mem_evaluate hl hx
      · refine h.not_concerns_of_interface hi (fun hmember => hk ?_) hname
        exact ((h.members l lag hl slot).mp hslot).unique hmember
      · exact h.not_concerns_of_lag hl hk hname hnone
  paced := h.paced_evaluate l

/-! ## Shifts -/

omit h in
/-- A turn touches the timers of the member only. -/
theorem Turn.deadline?_of_ne {settings : LagSettings} {now : Nat} {t : Timers}
    {r : Interface × Timers} (ht : Turn settings now slot i t c r) {key : TimerKey}
    (hkey : key.interface? ≠ some slot) : r.2.deadline? key = t.deadline? key := by
  cases ht with
  | port => exact Receive.deadline?_sync_of_ne hkey
  | settings => rfl
  | record =>
    have hne : key ≠ .currentWhile slot := fun heq => hkey (heq ▸ rfl)
    simp [Receive.record, hne]
  | timer timer htimer =>
    refine Interface.deadline?_timerFired_of_ne ?_
    rintro rfl
    exact hkey htimer

/-- No shift touches the window of an interface that stays known. -/
theorem Shift.windowOf (hs : Shift e c e') (hknown : e'.interfaces.find? name = none →
      e.interfaces.find? name = none) : e'.windowOf name = e.windowOf name := by
  by_cases hname : e'.interfaces.find? name = none
  · rw [windowOf_unknown hname, windowOf_unknown (hknown hname)]
  · refine (hs.named h name).related (r := fun w w' => w' = w) rfl ?_ ?_ ?_
    · rintro i ⟨slot, rfl⟩
      rfl
    · exact fun _ hgone => absurd hgone.2 hname
    · rintro i i' ⟨slot, hadjust⟩
      exact hadjust.keeps Interface.window fun _ _ _ _ _ _ => rfl

theorem Shift.paced (hs : Shift e c e') (hknown : ∀ name, e'.interfaces.find? name = none →
      e.interfaces.find? name = none) : Paced e (e', []) :=
  .of_quiet (fun name => hs.windowOf h (hknown name)) fun _ hx => absurd hx List.not_mem_nil

/-- A change of an interface that is no member of the LAG. -/
theorem Shift.apart_of_slot (hs : Shift e c e') (hnow : e'.now = e.now)
    (hknown : ∀ name, e'.interfaces.find? name = none → e.interfaces.find? name = none)
    (hslot : ¬ e.IsMember k slot) (hlag : e'.lags.get? k = e.lags.get? k)
    (hget : ∀ slot', slot' ≠ slot → e'.interfaces.get? slot' = e.interfaces.get? slot')
    (htimers : ∀ key : TimerKey, key.interface? ≠ some slot →
      e'.timers.deadline? key = e.timers.deadline? key) : Apart k e (e', []) where
  now := hnow
  spares := .of_slot hslot hlag hget htimers fun _ hx => absurd hx List.not_mem_nil
  paced := hs.paced h hknown

end

end Engine
end LinkAggregation
