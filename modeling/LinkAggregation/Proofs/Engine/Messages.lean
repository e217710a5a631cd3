import LinkAggregation.Proofs.Engine.Memory
import LinkAggregation.Proofs.Frame.Codec

/-!
# What an engine says

Every LACP message that leaves the engine is sent by a member at the end of an evaluation. It is
what the member would say when the operation is over: nothing that happens later in the operation
changes the member again.
-/
namespace LinkAggregation

@[simp] theorem Outcome.step_ok (s : Step) : (Outcome.ok s).step = s := rfl

namespace Evaluation
variable {ev : Evaluation} {selection : Selection} {i : Interface} {name : String} {frame : Frame}

/-- Sending and publishing are not part of the message. -/
theorem message_result :
    ev.message (ev.result selection i) =
      ev.message { i with protocol := ev.machined selection i } := by
  rw [result_eq 0 {}, publish_fst]
  exact transmitIfDue_keeps ev.message fun _ _ _ _ => rfl

theorem mem_transmit_effects {slot : Nat} {t : Timers}
    (h : Effect.transmit name frame ∈ (ev.transmitIfDue slot i t).2.2) :
    i.protocol.periodic.isRunning = true ∧ name = i.name ∧
      frame = Frame.encodeLacp (ev.message i) ev.system.mac := by
  unfold transmitIfDue transmit at h
  split at h
  · simp at h
  · split at h
    · next hrunning =>
      dsimp only at h
      split at h
      · split at h
        · simp only [List.mem_singleton, Effect.transmit.injEq] at h
          exact ⟨hrunning, h⟩
        · simp at h
      · simp at h
    · simp at h

/-- A member sends what it says after its evaluation, and its periodic machine runs. -/
theorem transmit_of_mem_effects (h : Effect.transmit name frame ∈ ev.effects selection i) :
    (ev.result selection i).protocol.periodic.isRunning = true ∧ name = i.name ∧
      frame = Frame.encodeLacp (ev.message (ev.result selection i)) ev.system.mac := by
  have hsent : Effect.transmit name frame ∈
      (ev.transmitIfDue 0 { i with protocol := ev.machined selection i }
        (ev.runMachines 0 selection i {}).2).2.2 := by
    have hmachines : (ev.runMachines 0 selection i {}).1 =
        { i with protocol := ev.machined selection i } := runMachines_fst
    rw [effects, member] at h
    simp only [hmachines, List.mem_append] at h
    refine h.resolve_right fun hpublished => ?_
    unfold publish at hpublished
    dsimp only at hpublished
    split at hpublished
    · simp at hpublished
    · split at hpublished <;> simp at hpublished
  obtain ⟨hrunning, hname, hframe⟩ := mem_transmit_effects hsent
  rw [message_result, result_machined ev selection i Protocol.periodic fun _ _ _ => rfl]
  exact ⟨hrunning, hname, hframe⟩

end Evaluation

namespace Engine
variable {e e' e'' : Engine} {l slot : Nat} {lag : Lag} {i : Interface} {news : List Hearing}
  {name : String} {frame : Frame} {pdu : Lacpdu} {changed : Nat → Prop}

/-- A member of the LAG has this name, it sends, and this is what it says to its partner. -/
def Sends (e : Engine) (l : Nat) (name : String) (pdu : Lacpdu) : Prop :=
  ∃ lag slot i, e.lags.get? l = some lag ∧ slot ∈ lag.members ∧
    e.interfaces.get? slot = some i ∧ i.name = name ∧ i.protocol.periodic.isRunning = true ∧
      pdu = (e.evaluation lag).message i

/-- The operation adds nothing to the memory but the news, and every LACP message that it sends is
what a member says when it is over. -/
structure Sincere (e : Engine) (news : List Hearing) (s : Step) : Prop where
  inherits : e.Inherits news s.1
  sends : ∀ name frame pdu, Effect.transmit name frame ∈ s.2 →
    Frame.decode frame = .ok (.lacp pdu) → ∃ l, s.1.Sends l name pdu

/-! ## Evaluation -/

/-- A LACP message of an evaluation is what a member of the LAG says afterwards. -/
theorem sends_evaluate (hnodup : ∀ lag, e.lags.get? l = some lag → lag.members.Nodup)
    (hsent : Effect.transmit name frame ∈ (e.evaluate l).2)
    (hframe : Frame.decode frame = .ok (.lacp pdu)) : (e.evaluate l).1.Sends l name pdu := by
  cases hl : e.lags.get? l with
  | none =>
    rw [evaluate_of_not_live hl] at hsent
    simp at hsent
  | some lag =>
    have hmember : Effect.transmit name frame ∈ (e.members lag).flatMap fun m =>
        (e.evaluation lag).effects (e.decision l lag m.1) (e.regrant l lag m.1 m.2) := by
      rw [evaluate_eq hl, List.mem_append] at hsent
      refine hsent.resolve_right fun hwritten => ?_
      split at hwritten
      · simp at hwritten
      · simpa using mem_of_mem_emit hwritten
    obtain ⟨⟨slot, i⟩, hm, heffect⟩ := List.mem_flatMap.mp hmember
    obtain ⟨hslot, hi⟩ := mem_members.mp hm
    obtain ⟨hrunning, hname, hencoded⟩ := Evaluation.transmit_of_mem_effects heffect
    refine ⟨e.lagAfter l lag, slot, e.after l lag slot i, get?_lags_evaluate hl, hslot, ?_, ?_,
      hrunning, ?_⟩
    · rw [get?_evaluate hl (hnodup lag hl) hslot, hi]
      rfl
    · rw [hname]
      simp [after]
    · rw [evaluation_evaluate hl]
      rw [hencoded, Frame.decode_encodeLacp] at hframe
      exact (Message.lacp.inj (Except.ok.inj hframe)).symm

/-- An evaluation does not change what the members of a settled LAG say. -/
theorem Sends.evaluate (hsends : e.Sends l name pdu) (h : e.Coherent changed []) (hl : ¬ changed l)
    (k : Nat) : (e.evaluate k).1.Sends l name pdu := by
  obtain ⟨lag, slot, i, hlag, hslot, hi, hname, hrunning, hpdu⟩ := hsends
  by_cases hk : k = l
  · rw [hk, (h.settled l lag hlag hl).evaluate_eq hlag]
    exact ⟨lag, slot, i, hlag, hslot, hi, hname, hrunning, hpdu⟩
  · have hw : Within k e (e.evaluate k).1 :=
      within_evaluate (fun lag' hl' => h.nodup hl') fun lag' hl' => h.members k lag' hl'
    have houtside := h.not_isMember_of_mem hlag hslot (Ne.symm hk)
    have hshared : (e.evaluate k).1.evaluation lag = e.evaluation lag := by
      simp only [evaluation, hw.system, hw.now, hw.connected]
    refine ⟨lag, slot, i, ?_, hslot, ?_, hname, hrunning, ?_⟩
    · rw [hw.others l (Ne.symm hk)]
      exact hlag
    · rw [hw.outside slot houtside]
      exact hi
    · rw [hshared]
      exact hpdu

theorem Sends.evaluateAll (hsends : e.Sends l name pdu) (h : e.Coherent changed [])
    (hl : ¬ changed l) (slots : List Nat) : (e.evaluateAll slots).1.Sends l name pdu := by
  rw [evaluateAll_fst]
  induction slots generalizing e changed with
  | nil => exact hsends
  | cons k rest ih => exact ih (hsends.evaluate h hl k) (h.evaluate k) fun hboth => hl hboth.1

/-- A sequence of operations goes on from a step. -/
theorem foldl_next {α : Type} (f : Engine → α → Step) (xs : List α) (s : Step) :
    xs.foldl (fun (s : Step) x => s.next (f · x)) s =
      s.next fun e => xs.foldl (fun (s : Step) x => s.next (f · x)) (e, []) := by
  induction xs generalizing s with
  | nil => simp [Step.next]
  | cons x rest ih =>
    have hfirst := ih (s.next (f · x))
    have hsecond := ih (Step.next (s.1, []) (f · x))
    simp only [List.foldl_cons]
    rw [hfirst]
    show _ = ((rest.foldl _ (Step.next (s.1, []) (f · x))).1,
      s.2 ++ (rest.foldl _ (Step.next (s.1, []) (f · x))).2)
    rw [hsecond]
    simp [Step.next]

theorem evaluateAll_cons [Clock] (k : Nat) (rest : List Nat) :
    e.evaluateAll (k :: rest) = (e.evaluate k).next (·.evaluateAll rest) := by
  unfold evaluateAll
  rw [List.foldl_cons, foldl_next evaluate]
  rfl

namespace Sincere

/-- An operation that sends nothing. -/
theorem of_silent {s : Step} (h : e.Inherits news s.1)
    (hsilent : ∀ name frame, Effect.transmit name frame ∉ s.2) : e.Sincere news s where
  inherits := h
  sends := fun name frame _ hsent _ => absurd hsent (hsilent name frame)

theorem refl (e : Engine) : e.Sincere [] (e, []) :=
  of_silent (Inherits.refl e) fun _ _ => List.not_mem_nil

/-- An evaluation after changes that send nothing. -/
theorem evaluate (h : e.Inherits news e') (hstable : (e'.evaluate l).1.Stable) :
    e.Sincere news (e'.evaluate l) := by
  have hnodup : ∀ lag, e'.lags.get? l = some lag → lag.members.Nodup := by
    intro lag hl
    have hafter := hstable.nodup (get?_lags_evaluate hl)
    exact hafter
  refine ⟨h.next (inherits_evaluate hnodup), fun name frame pdu hsent hframe => ?_⟩
  exact ⟨l, sends_evaluate hnodup hsent hframe⟩

/-- Evaluations of several LAGs after changes that send nothing. -/
theorem evaluateAll (h : e.Inherits news e') (hcoherent : e'.Coherent changed [])
    (slots : List Nat) : e.Sincere news (e'.evaluateAll slots) := by
  induction slots generalizing e e' changed news with
  | nil => exact of_silent h fun _ _ => List.not_mem_nil
  | cons k rest ih =>
    have hnodup : ∀ lag, e'.lags.get? k = some lag → lag.members.Nodup := fun lag hl =>
      hcoherent.nodup hl
    have hnext := hcoherent.evaluate k
    have hrest := ih (h.next (inherits_evaluate hnodup)) hnext
    rw [evaluateAll_cons]
    refine ⟨hrest.inherits, fun name frame pdu hsent hframe => ?_⟩
    · obtain hfirst | hlater := List.mem_append.mp hsent
      · have hsends := sends_evaluate hnodup hfirst hframe
        exact ⟨k, hsends.evaluateAll hnext (fun hboth => hboth.2 rfl) rest⟩
      · exact hrest.sends name frame pdu hlater hframe

/-- An operation that sends nothing, followed by another one. -/
theorem next {s : Step} {f : Engine → Step}
    (hsilent : ∀ name frame, Effect.transmit name frame ∉ s.2) (h : e.Sincere news (f s.1)) :
    e.Sincere news (s.next f) where
  inherits := h.inherits
  sends := by
    intro name frame pdu hsent hframe
    have hlater : Effect.transmit name frame ∈ (f s.1).2 :=
      (List.mem_append.mp hsent).resolve_left (hsilent name frame)
    exact h.sends name frame pdu hlater hframe

end Sincere

/-! ## Configuration -/

/-- Operations that send nothing send nothing in sequence. -/
theorem transmit_not_mem_foldl_next {α : Type} {f : Engine → α → Step}
    (hf : ∀ (e : Engine) (x : α), Effect.transmit name frame ∉ (f e x).2) (xs : List α) {s : Step}
    (hs : Effect.transmit name frame ∉ s.2) :
    Effect.transmit name frame ∉ (xs.foldl (fun (s : Step) x => s.next (f · x)) s).2 := by
  induction xs generalizing s with
  | nil => exact hs
  | cons x rest ih =>
    refine ih fun hmem => ?_
    obtain hold | hnew := List.mem_append.mp hmem
    · exact hs hold
    · exact hf s.1 x hnew

theorem transmit_not_mem_detachMember (e : Engine) (slot : Nat) :
    Effect.transmit name frame ∉ (e.detachMember l slot).2 := by
  unfold detachMember
  dsimp only
  split
  · exact List.not_mem_nil
  · intro hsent
    split at hsent
    · simpa using mem_of_mem_emit hsent
    · simp at hsent

section
variable (h : e.Stable)
include h

theorem Coherent.sincere_changeSystem (system : SystemIdentity) :
    e.Sincere [] (e.changeSystem system).step := by
  unfold Engine.changeSystem
  split
  · exact Sincere.refl e
  · have htold : e.Inherits [] (e.told system) := by
      refine Inherits.of_fades rfl rfl fun slot i' hi' => .inr ?_
      obtain ⟨i, hi, rfl⟩ := Option.map_eq_some_iff.mp ((Arena.get?_map _ _ _).symm.trans hi')
      have hheard : (tell i).protocol.heard? = i.protocol.heard? :=
        tell_keeps (fun i => i.protocol.heard?) (fun _ _ => rfl) i
      exact ⟨i, hi, (tell_keeps Interface.name (fun _ _ => rfl) i).symm,
        Protocol.Fades.of_eq hheard⟩
    exact Sincere.evaluateAll htold (h.told system) _

theorem Coherent.sincere_systemSet (key : String) (fields : List Field) :
    e.Sincere [] (e.systemSet key fields).step := by
  unfold Engine.systemSet
  split
  · exact Sincere.refl e
  · split
    · exact Sincere.refl e
    · exact h.sincere_changeSystem _

theorem Coherent.sincere_systemDel (key : String) : e.Sincere [] (e.systemDel key).step := by
  unfold Engine.systemDel
  split
  · exact Sincere.refl e
  · exact h.sincere_changeSystem _

theorem Coherent.sincere_lagSet (name : String) (fields : List Field) :
    e.Sincere [] (e.lagSet name fields).step := by
  have hstable := h.lagSet name fields
  revert hstable
  unfold Engine.lagSet
  split
  · exact fun _ => Sincere.refl e
  · split
    · split
      · exact fun _ => Sincere.refl e
      · exact fun hstable => Sincere.evaluate (Inherits.of_interfaces rfl rfl rfl) hstable
    · split
      · exact fun _ => Sincere.refl e
      · split
        · exact fun _ => Sincere.refl e
        · split
          · exact fun _ => Sincere.refl e
          · intro hstable
            refine Sincere.evaluate ?_ hstable
            split
            · refine Inherits.next ?_ (Inherits.foldl inherits_restartMember _)
              exact Inherits.of_interfaces rfl rfl rfl
            · split
              · refine Inherits.next ?_ (Inherits.foldl (inherits_updateMember _ _) _)
                exact Inherits.of_interfaces rfl rfl rfl
              · exact Inherits.of_interfaces rfl rfl rfl

omit h in
theorem sincere_lagDel (name : String) : e.Sincere [] (e.lagDel name).step := by
  unfold Engine.lagDel
  split
  · exact Sincere.refl e
  · next l _ =>
    have hdetached : ∀ slots : List Nat, e.Inherits []
        (slots.foldl (fun (s : Step) m => s.next (·.detachMember l m)) (e, [])).1 := by
      intro slots
      rw [foldl_next_fst (fun e m => e.detachMember l m)]
      exact Inherits.foldl (fun e m => inherits_detachMember e l m) slots
    refine Sincere.of_silent ?_ fun name' frame hsent => ?_
    · exact (hdetached _).next (Inherits.of_interfaces rfl rfl rfl)
    · obtain hdetached | hremoved := List.mem_append.mp hsent
      · exact transmit_not_mem_foldl_next (fun e m => transmit_not_mem_detachMember e m) _
          List.not_mem_nil hdetached
      · simpa using mem_of_mem_emit hremoved

theorem Coherent.sincere_memberSet (key : String) (fields : List Field) :
    e.Sincere [] (e.memberSet key fields).step := by
  have hstable := h.memberSet key fields
  revert hstable
  unfold Engine.memberSet
  split
  · exact fun _ => Sincere.refl e
  · next name _ =>
    split
    · exact fun _ => Sincere.refl e
    · have hknown := @inherits_ensureInterface e name
      have hsilent : e.Sincere [] ((e.ensureInterface name).1, []) :=
        Sincere.of_silent hknown fun _ _ => List.not_mem_nil
      dsimp only
      split
      · exact fun _ => hsilent
      · next i hi =>
        split
        · split
          · exact fun _ => hsilent
          · intro hstable
            refine Sincere.evaluate (hknown.next ?_) hstable
            refine Inherits.next ?_ (inherits_syncReceive _)
            exact Inherits.of_modify rfl rfl rfl fun _ _ => ⟨rfl, Protocol.Fades.of_unknown rfl⟩
        · split
          · exact fun _ => hsilent
          · split
            · exact fun _ => hsilent
            · split
              · exact fun _ => hsilent
              · intro hstable
                refine Sincere.evaluate (hknown.next ?_) hstable
                exact Inherits.of_modify rfl rfl rfl fun _ _ => ⟨rfl, Protocol.Fades.of_eq rfl⟩

theorem Coherent.sincere_memberDel (key : String) : e.Sincere [] (e.memberDel key).step := by
  have hstable := h.memberDel key
  revert hstable
  unfold Engine.memberDel
  split
  · exact fun _ => Sincere.refl e
  · split
    · split
      · intro hstable
        rw [Outcome.step_ok]
        refine Sincere.next (fun _ _ => transmit_not_mem_detachMember e _) ?_
        exact Sincere.evaluate (inherits_detachMember e _ _) hstable
      · exact fun _ => Sincere.refl e
    · exact fun _ => Sincere.refl e

theorem Coherent.sincere_updatePort (slot : Nat) (status : PortStatus) :
    e.Sincere [] (e.updatePort slot status) := by
  have hstable := h.updatePort slot status
  revert hstable
  unfold Engine.updatePort
  split
  · exact fun _ => Sincere.refl e
  · split
    · exact fun _ => Sincere.refl e
    · have hport : e.Inherits [] (e.modifyInterface slot fun i => { i with port := status }) :=
        Inherits.of_modify rfl rfl rfl fun _ _ => ⟨rfl, Protocol.Fades.refl _⟩
      dsimp only
      split
      · exact fun _ => Sincere.of_silent hport fun _ _ => List.not_mem_nil
      · exact fun hstable => Sincere.evaluate (hport.next (inherits_syncReceive slot)) hstable

theorem Coherent.sincere_portSet (name : String) (fields : List Field) :
    e.Sincere [] (e.portSet name fields).step := by
  unfold Engine.portSet
  dsimp only
  split
  · exact Sincere.refl e
  · next status _ =>
    have hport := (h.ensureInterface name).sincere_updatePort (e.ensureInterface name).2 status
    exact ⟨(@inherits_ensureInterface e name).next hport.inherits, hport.sends⟩

theorem Coherent.sincere_portDel (name : String) : e.Sincere [] (e.portDel name).step := by
  unfold Engine.portDel
  split
  · exact Sincere.refl e
  · next slot _ =>
    split
    · exact h.sincere_updatePort slot {}
    · refine Sincere.of_silent (Inherits.of_fades rfl rfl fun slot' i' hi' => .inr ?_) fun _ _ =>
        List.not_mem_nil
      have hold : e.interfaces.get? slot' = some i' := by
        have hget := (Arena.get?_remove e.interfaces name slot slot').symm.trans hi'
        split at hget
        · simp at hget
        · exact hget
      exact ⟨i', hold, rfl, Protocol.Fades.refl _⟩

/-- Configuration brings no news. -/
theorem Coherent.sincere_applyEntry (table : Table) (entry : Entry) :
    e.Sincere [] (e.applyEntry table entry).step := by
  unfold Engine.applyEntry
  split
  · exact h.sincere_systemSet _ _
  · exact h.sincere_systemDel _
  · exact h.sincere_lagSet _ _
  · exact sincere_lagDel _
  · exact h.sincere_memberSet _ _
  · exact h.sincere_memberDel _
  · exact h.sincere_portSet _ _
  · exact h.sincere_portDel _

/-! ## Links, frames and the clock -/

theorem Coherent.sincere_setLink (name : String) (up : Bool) :
    e.Sincere [] (e.setLink name up) := by
  have hknown := @inherits_ensureInterface e name
  unfold Engine.setLink
  dsimp only
  split
  · exact Sincere.of_silent hknown fun _ _ => List.not_mem_nil
  · next i _ =>
    have hport := (h.ensureInterface name).sincere_updatePort (e.ensureInterface name).2
      { i.port with link := .ofBool up }
    exact ⟨hknown.next hport.inherits, hport.sends⟩

theorem Coherent.sincere_advanceTo (time : Nat) : e.Sincere [] (e.advanceTo time) := by
  obtain ⟨hcoherent, -⟩ := h.timersFired (Nat.le_max_left e.now time)
  have hfired : e.Inherits [] ((e.later (max e.now time)).timersFired
      (e.timers.expired (max e.now time)).1).1 := by
    have hcollect : ∀ (keys : List TimerKey) (r : Engine × List Nat),
        r.1.Inherits [] (keys.foldl collect r).1 := by
      intro keys
      induction keys with
      | nil => exact fun r => Inherits.refl r.1
      | cons key rest ih => exact fun r => (inherits_timerFired r.1 key).next (ih (collect r key))
    refine Inherits.next ?_ (hcollect _ _)
    exact Inherits.of_interfaces rfl rfl rfl
  rw [advanceTo_eq]
  exact Sincere.evaluateAll hfired hcoherent _

end
end Engine
end LinkAggregation
