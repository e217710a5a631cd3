import LinkAggregation.Proofs.Engine.Course

/-!
# Whom the members know

A member gets to know its partner from a message only. Every other move leaves what it knows alone,
lets it age or takes it away, and whoever still knows its partner is still a member of the same LAG.
-/
namespace LinkAggregation

/-- What the interface knows later it knew before, as a member of the same LAG. -/
structure Interface.Retains (i i' : Interface) : Prop where
  name : i.name = i'.name
  lag : i'.protocol.heard?.isSome = true → i.lag = i'.lag
  fades : i.protocol.Fades i'.protocol

namespace Interface.Retains
variable {i i' i'' : Interface}

theorem refl (i : Interface) : i.Retains i := ⟨rfl, fun _ => rfl, Protocol.Fades.refl _⟩

/-- A partner that is known now was known before. -/
theorem isSome_heard (h : i.Retains i') (hheard : i'.protocol.heard?.isSome = true) :
    i.protocol.heard?.isSome = true := by
  obtain ⟨partner', hpartner'⟩ := Option.isSome_iff_exists.mp hheard
  obtain ⟨partner, hpartner, -⟩ := h.fades partner' hpartner'
  exact Option.isSome_iff_exists.mpr ⟨partner, hpartner⟩

theorem trans (h : i.Retains i') (h' : i'.Retains i'') : i.Retains i'' where
  name := h.name.trans h'.name
  lag := fun hheard => (h.lag (h'.isSome_heard hheard)).trans (h'.lag hheard)
  fades := h.fades.trans h'.fades

/-- The partner that is known now is the one that was known before. -/
theorem fadesTo (h : i.Retains i') (hheard : i'.protocol.heard?.isSome = true) :
    i.protocol.partner.FadesTo i'.protocol.partner := by
  obtain ⟨partner', hpartner'⟩ := Option.isSome_iff_exists.mp hheard
  obtain ⟨partner, hpartner, hfade⟩ := h.fades partner' hpartner'
  rwa [Protocol.eq_partner_of_heard hpartner, Protocol.eq_partner_of_heard hpartner'] at hfade

/-- A change that leaves names and memberships alone. -/
theorem of_fades (hname : i'.name = i.name) (hlag : i'.lag = i.lag)
    (hfades : i.protocol.Fades i'.protocol) : i.Retains i' :=
  ⟨hname.symm, fun _ => hlag.symm, hfades⟩

/-- Whoever begins anew knows nobody. -/
theorem of_unknown (hname : i'.name = i.name) (hheard : i'.protocol.heard? = none) :
    i.Retains i' where
  name := hname.symm
  lag := fun hknown => by simp [hheard] at hknown
  fades := fun partner' hpartner' => by simp [hheard] at hpartner'

end Interface.Retains

namespace Engine
variable {e : Engine} {c : Kind} {s : Step} {l slot : Nat} {lag : Lag} {i i' : Interface}
  {allowed : Kind → Prop}

/-- A machine that was brought in line after a reset knows nobody. -/
theorem heard_sync_reset {enabled : Bool} {settings : LagSettings} {t : Timers} {now : Nat} :
    (Receive.sync slot enabled settings {} t now).1.heard? = none := by
  refine Option.eq_none_iff_forall_ne_some.mpr fun partner' hpartner' => ?_
  obtain ⟨partner, hpartner, -⟩ := Protocol.fades_sync partner' hpartner'
  simp [Protocol.heard?] at hpartner

/-! ## Moves other than messages -/

/-- A turn without a message adds nothing to what the member knows. -/
theorem Turn.retains {settings : LagSettings} {now : Nat} {t : Timers} {r : Interface × Timers}
    (ht : Turn settings now slot i t c r) (hc : c ≠ .message) : i.Retains r.1 := by
  refine .of_fades (ht.keeps Interface.name fun _ _ _ _ _ => rfl)
    (ht.keeps Interface.lag fun _ _ _ _ _ => rfl) ?_
  cases ht with
  | port => exact Protocol.fades_sync
  | settings => exact .of_eq rfl
  | record => exact absurd rfl hc
  | timer key => exact Interface.fades_timerFired key t now

/-- Nor do new settings of the LAG. -/
theorem Revision.retains {old new : LagSettings} {now : Nat} {f : Engine → Nat → Engine}
    {step : MemberStep} (hr : Revision old new now f step) (slot : Nat) (t : Timers) :
    i.Retains (step i slot t).1 := by
  cases hr with
  | restart => exact .of_unknown rfl heard_sync_reset
  | retell => exact .of_fades rfl rfl Protocol.fades_retell
  | idle => exact .refl i

theorem Change.retains (hchange : e.Change c slot i i') (hc : c ≠ .message) : i.Retains i' := by
  cases hchange with
  | adjust ha =>
    cases ha with
    | idle => exact .refl i
    | count => exact .of_fades rfl rfl (.refl _)
    | report => exact .of_fades rfl rfl (.refl _)
    | tell =>
      exact .of_fades (tell_keeps Interface.name (fun _ _ => rfl) i)
        (tell_keeps Interface.lag (fun _ _ => rfl) i)
        (.of_eq (tell_keeps (·.protocol.heard?) (fun _ _ => rfl) i))
    | turn hlag hl ht => exact ht.retains hc
    | revise t hlag hl hr => exact hr.retains slot t
    | join => exact .of_unknown rfl heard_sync_reset
  | leave => exact .of_unknown rfl rfl
  | evaluate =>
    exact .of_fades (after_keeps Interface.name (fun _ _ _ _ _ => rfl) i)
      (after_keeps Interface.lag (fun _ _ _ _ _ => rfl) i)
      ((Interface.fades_withGrant _).trans (Interface.fades_result _ _))

/-- Whoever knows its partner after a course without messages knew it before. -/
theorem Course.retains (hc : e.Course allowed s) (hmessage : ¬ allowed .message)
    (hi' : s.1.interfaces.get? slot = some i') (hheard : i'.protocol.heard?.isSome = true) :
    ∃ i, e.interfaces.get? slot = some i ∧ i.Retains i' := by
  induction hc with
  | refl => exact ⟨i', hi', .refl i'⟩
  | @step e c s s' hl hallowed hm _ ih =>
    obtain ⟨j, hj, hretains⟩ := ih hi'
    have hfate := hm.interfaces hl slot
    rw [hj] at hfate
    obtain ⟨name, -, rfl⟩ | ⟨i, hi, hstayed⟩ := hfate.origin
    · exact absurd (hretains.isSome_heard hheard) (by simp [Interface.new, Protocol.heard?])
    · have hkind : c ≠ .message := fun heq => hmessage (heq ▸ hallowed)
      exact ⟨i, hi, (hstayed.retains hkind).trans hretains⟩

/-! ## The activity of the partner -/

theorem Turn.modest {settings : LagSettings} {now : Nat} {t : Timers} {r : Interface × Timers}
    (ht : Turn settings now slot i t c r) (h : i.protocol.Modest) : r.1.protocol.Modest := by
  cases ht with
  | port => exact h.sync
  | settings => exact h.congr rfl rfl
  | record own pdu =>
    have hrecorded : (Receive.record slot i.protocol own pdu t now).1.Modest :=
      Protocol.modest_record
    exact hrecorded.congr rfl rfl
  | timer key => exact Interface.modest_timerFired h key t now

/-- Every change leaves members modest. -/
theorem Change.modest (hchange : e.Change c slot i i') (h : i.protocol.Modest) :
    i'.protocol.Modest := by
  have hreset : Protocol.Modest {} := Protocol.modest_of_default rfl
  cases hchange with
  | adjust ha =>
    cases ha with
    | idle => exact h
    | count => exact h
    | report => exact h
    | tell => exact tell_keeps (·.protocol.Modest) (fun _ _ => rfl) i ▸ h
    | turn hlag hl ht => exact ht.modest h
    | revise t hlag hl hr =>
      cases hr with
      | restart => exact hreset.sync
      | retell => exact h.retell
      | idle => exact h
    | join => exact hreset.sync
  | leave => exact hreset
  | evaluate => exact Interface.modest_result (Interface.modest_withGrant h _) _ _

/-- No member takes a partner for active that it has not heard. -/
def Modest (e : Engine) : Prop :=
  ∀ slot i, e.interfaces.get? slot = some i → i.protocol.Modest

theorem Course.modest (hc : e.Course allowed s) (h : e.Modest) : s.1.Modest :=
  hc.interfaces (P := fun _ i => i.protocol.Modest)
    (fun _ _ => Protocol.modest_of_default rfl) (fun _ _ _ _ _ hchange => hchange.modest) h

/-! ## Actions -/

section
variable (h : e.Stable)
include h

/-- Whoever knows its partner after a frame has heard it in the frame, or knew it before and heard
nothing. -/
theorem Coherent.retains_receiveFrame (name : String) (frame : Frame)
    (hi' : (e.receiveFrame name frame).step.1.interfaces.get? slot = some i')
    (hheard : i'.protocol.heard?.isSome = true) :
    (∃ n, e.hearing? name frame = some n ∧ n.interface = i'.name ∧
      n.pdu.actor.FadesTo i'.protocol.partner) ∨
    (∀ n, e.hearing? name frame = some n → n.interface ≠ i'.name) ∧
      ∃ i, e.interfaces.get? slot = some i ∧ i.Retains i' := by
  obtain ⟨hcalm, hnone⟩ | ⟨n, f, l, k, lag, i, r, hn, -, hlistens, heq⟩ :=
    h.receiveFrame_cases name frame
  · exact .inr ⟨fun n hn => by simp [hnone] at hn, hcalm.retains (by simp) hi' hheard⟩
  · have hstable : (e.receiveFrame name frame).step.1.Stable := h.receiveFrame name frame
    rw [heq] at hi' hstable
    have hevaluation : Evaluations ((e.count k f).put k r) (((e.count k f).put k r).evaluate l) :=
      .of_move hstable.linked.of_evaluate rfl (.evaluate l)
    obtain ⟨j, hj, hretains⟩ := hevaluation.retains (by simp) hi' hheard
    by_cases hslot : k = slot
    · subst hslot
      rw [get?_put_self hlistens.known] at hj
      obtain rfl := Option.some.inj hj
      have hname : r.1.name = i.name := hlistens.turn.keeps Interface.name fun _ _ _ _ _ => rfl
      exact .inl ⟨n, hn, (hlistens.name.symm.trans hname.symm).trans hretains.name,
        hlistens.partner.trans (hretains.fadesTo hheard)⟩
    · rw [get?_put, if_neg hslot] at hj
      obtain ⟨i₀, hi₀, hcounted⟩ :=
        (h.course_count k f).retains (by simp) hj (hretains.isSome_heard hheard)
      refine .inr ⟨fun n' hn' hname => hslot ?_, i₀, hi₀, hcounted.trans hretains⟩
      obtain rfl : n = n' := Option.some.inj (hn.symm.trans hn')
      -- Two interfaces of one name are one.
      have hfind := (h.count k f).interfaces.find?_of_get? hlistens.known
      rw [hlistens.name, hname, ← hretains.name,
        (h.count k f).interfaces.find?_of_get? hj] at hfind
      exact (Option.some.inj hfind).symm

/-- Only frames bring messages. -/
theorem Coherent.course_of_deaf {a : Action} (ha : ∀ name frame, a ≠ .event (.frame name frame)) :
    ∃ allowed, e.Course allowed (e.act a) ∧ ¬ allowed .message := by
  obtain hclearing | hforgets | ⟨name, fields, hset⟩ | ⟨name, frame, rfl⟩ | ⟨time, rfl⟩ :=
    h.act_cases a
  · exact ⟨_, hclearing.course, by simp [Kind.IsClearing]⟩
  · exact ⟨_, h.course_of_forgets hforgets, by simp⟩
  · rw [hset]
    exact ⟨_, (h.operation_lagSet name fields).course, by simp [Kind.IsSetting]⟩
  · exact absurd rfl (ha name frame)
  · exact ⟨_, (h.operation_advanceTo time).course, by simp [Kind.IsPassing]⟩

/-- Whoever knows its partner after an action has heard it in the action, or knew it before and
heard nothing. -/
theorem Coherent.retains_act (a : Action) (hi' : (e.act a).1.interfaces.get? slot = some i')
    (hheard : i'.protocol.heard?.isSome = true) :
    (∃ n ∈ e.hearings a, n.interface = i'.name ∧ n.pdu.actor.FadesTo i'.protocol.partner) ∨
    (∀ n ∈ e.hearings a, n.interface ≠ i'.name) ∧
      ∃ i, e.interfaces.get? slot = some i ∧ i.Retains i' := by
  by_cases hdeaf : ∀ name frame, a ≠ .event (.frame name frame)
  · obtain ⟨allowed, hcourse, hmessage⟩ := h.course_of_deaf hdeaf
    refine .inr ⟨fun n hn => ?_, hcourse.retains hmessage hi' hheard⟩
    have hsilent : e.hearings a = [] := by
      unfold hearings
      split
      · exact absurd rfl (hdeaf _ _)
      · rfl
    simp [hsilent] at hn
  · simp only [not_forall, not_not] at hdeaf
    obtain ⟨name, frame, rfl⟩ := hdeaf
    simpa only [hearings, Option.mem_toList] using h.retains_receiveFrame name frame hi' hheard

end
end Engine
end LinkAggregation
