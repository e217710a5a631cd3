import LinkAggregation.Proofs.Engine.Request
import LinkAggregation.Proofs.Protocol.Memory

/-!
# What an engine remembers of its partners

An engine learns of partners from accepted messages only. Whatever else it does, each interface
remembers at most what it remembered before; interfaces that come anew remember nothing.
-/
namespace LinkAggregation

/-- A message that an interface accepted, with this end of the link as it was then. -/
structure Hearing where
  interface : String
  pdu : Lacpdu
  own : Endpoint
  deriving DecidableEq, Repr

namespace Engine
variable {e e' e'' : Engine} {l slot : Nat} {lag : Lag} {i : Interface}
  {news news' : List Hearing}

/-- What an interface of the later engine remembers it remembered before, or it is among the
news. -/
structure Inherits (e : Engine) (news : List Hearing) (later : Engine) : Prop where
  maxMembers : later.maxMembers = e.maxMembers
  eventQueue : later.eventQueue = e.eventQueue
  memory : ∀ slot i', later.interfaces.get? slot = some i' →
    ∀ partner', i'.protocol.heard? = some partner' →
      (∃ i partner, e.interfaces.get? slot = some i ∧ i.name = i'.name ∧
        i.protocol.heard? = some partner ∧ partner.FadesTo partner') ∨
      ∃ h ∈ news, h.interface = i'.name ∧ partner'.HeardIn h.pdu h.own

namespace Inherits

theorem trans (h : e.Inherits news e') (h' : e'.Inherits news' e'') :
    e.Inherits (news ++ news') e'' where
  maxMembers := h'.maxMembers.trans h.maxMembers
  eventQueue := h'.eventQueue.trans h.eventQueue
  memory := by
    intro slot i'' hi'' partner'' hpartner''
    obtain ⟨i', partner', hi', hname', hpartner', hfade'⟩ | ⟨n, hn, hname, hheard⟩ :=
      h'.memory slot i'' hi'' partner'' hpartner''
    · obtain ⟨i, partner, hi, hname, hpartner, hfade⟩ | ⟨n, hn, hname, hheard⟩ :=
        h.memory slot i' hi' partner' hpartner'
      · exact .inl ⟨i, partner, hi, hname.trans hname', hpartner, hfade.trans hfade'⟩
      · exact .inr ⟨n, List.mem_append_left _ hn, hname.trans hname', hheard.fade hfade'⟩
    · exact .inr ⟨n, List.mem_append_right _ hn, hname, hheard⟩

/-- Steps without news before and after do not add to the news. -/
theorem next (h : e.Inherits news e') (h' : e'.Inherits [] e'') : e.Inherits news e'' := by
  simpa using h.trans h'

/-- Only the interfaces matter. -/
theorem of_interfaces (hmax : e'.maxMembers = e.maxMembers)
    (hqueue : e'.eventQueue = e.eventQueue) (hsame : e'.interfaces = e.interfaces) :
    e.Inherits [] e' where
  maxMembers := hmax
  eventQueue := hqueue
  memory := by
    intro slot i hi partner hpartner
    rw [hsame] at hi
    exact .inl ⟨i, partner, hi, rfl, hpartner, Endpoint.FadesTo.refl partner⟩

theorem refl (e : Engine) : e.Inherits [] e := of_interfaces rfl rfl rfl

/-- Each interface fades at most, or remembers nothing. -/
theorem of_fades (hmax : e'.maxMembers = e.maxMembers) (hqueue : e'.eventQueue = e.eventQueue)
    (hfades : ∀ slot i', e'.interfaces.get? slot = some i' → i'.protocol.heard? = none ∨
      ∃ i, e.interfaces.get? slot = some i ∧ i.name = i'.name ∧
        i.protocol.Fades i'.protocol) : e.Inherits [] e' where
  maxMembers := hmax
  eventQueue := hqueue
  memory := by
    intro slot i' hi' partner' hpartner'
    obtain hnone | ⟨i, hi, hname, hfade⟩ := hfades slot i' hi'
    · simp [hnone] at hpartner'
    · obtain ⟨partner, hpartner, hfadesTo⟩ := hfade partner' hpartner'
      exact .inl ⟨i, partner, hi, hname, hpartner, hfadesTo⟩

/-- One interface changes. -/
theorem of_modify {f : Interface → Interface} (hmax : e'.maxMembers = e.maxMembers)
    (hqueue : e'.eventQueue = e.eventQueue)
    (hmodify : e'.interfaces = e.interfaces.modify slot f)
    (hf : ∀ i, e.interfaces.get? slot = some i →
      (f i).name = i.name ∧ i.protocol.Fades (f i).protocol) : e.Inherits [] e' := by
  refine of_fades hmax hqueue fun slot' i' hi' => .inr ?_
  rw [hmodify, Arena.get?_modify] at hi'
  split at hi'
  · next heq =>
    obtain ⟨i, hi, rfl⟩ := Option.map_eq_some_iff.mp hi'
    rw [← heq] at hi ⊢
    obtain ⟨hname, hfade⟩ := hf i hi
    exact ⟨i, hi, hname.symm, hfade⟩
  · exact ⟨i', hi', rfl, Protocol.Fades.refl _⟩

theorem put {r : Interface × Timers} (hi : e.interfaces.get? slot = some i)
    (hname : r.1.name = i.name) (hfade : i.protocol.Fades r.1.protocol) :
    e.Inherits [] (e.put slot r) := by
  refine of_modify rfl rfl rfl fun j hj => ?_
  obtain rfl : i = j := Option.some.inj (hi.symm.trans hj)
  exact ⟨hname, hfade⟩

theorem foldl {α : Type} {f : Engine → α → Engine}
    (hf : ∀ (e : Engine) (x : α), e.Inherits [] (f e x)) (xs : List α) :
    e.Inherits [] (xs.foldl f e) := by
  induction xs generalizing e with
  | nil => exact refl e
  | cons x rest ih => exact (hf e x).next ih

end Inherits

/-! ## Operations -/

theorem inherits_evaluate (hnodup : ∀ lag, e.lags.get? l = some lag → lag.members.Nodup) :
    e.Inherits [] (e.evaluate l).1 := by
  cases hl : e.lags.get? l with
  | none =>
    rw [evaluate_of_not_live hl]
    exact Inherits.refl e
  | some lag =>
    have hmax : (e.evaluate l).1.maxMembers = e.maxMembers := by rw [evaluate_keeps hl]
    have hqueue : (e.evaluate l).1.eventQueue = e.eventQueue := by rw [evaluate_keeps hl]
    refine Inherits.of_fades hmax hqueue fun slot i' hi' => .inr ?_
    by_cases hslot : slot ∈ lag.members
    · rw [get?_evaluate hl (hnodup lag hl) hslot] at hi'
      obtain ⟨i, hi, rfl⟩ := Option.map_eq_some_iff.mp hi'
      have hname : (e.after l lag slot i).name = i.name := by simp [after, regrant]
      exact ⟨i, hi, hname.symm,
        (Interface.fades_withGrant _).trans (Interface.fades_result _ _)⟩
    · rw [get?_evaluate_of_not_mem hl hslot] at hi'
      exact ⟨i', hi', rfl, Protocol.Fades.refl _⟩

theorem inherits_syncReceive (slot : Nat) : e.Inherits [] (e.syncReceive slot) := by
  cases hi : e.interfaces.get? slot with
  | none =>
    have hsame : e.syncReceive slot = e := by simp [syncReceive, hi]
    rw [hsame]
    exact Inherits.refl e
  | some i =>
    cases hbind : i.lag.bind e.lags.get? with
    | none =>
      have hsame : e.syncReceive slot = e := by simp [syncReceive, hi, hbind]
      rw [hsame]
      exact Inherits.refl e
    | some lag =>
      obtain ⟨l, hlag, hl⟩ := Option.bind_eq_some_iff.mp hbind
      rw [syncReceive_eq hi hlag hl]
      exact Inherits.put hi rfl Protocol.fades_sync

theorem inherits_ensureInterface (name : String) : e.Inherits [] (e.ensureInterface name).1 := by
  unfold ensureInterface
  split
  · exact Inherits.refl e
  · refine Inherits.of_fades rfl rfl fun slot i' hi' => ?_
    by_cases hslot : slot = e.interfaces.freeSlot
    · rw [hslot, Arena.get?_insert_freeSlot] at hi'
      obtain rfl := Option.some.inj hi'
      exact .inl rfl
    · rw [Arena.get?_insert_of_ne _ _ hslot] at hi'
      exact .inr ⟨i', hi', rfl, Protocol.Fades.refl _⟩

theorem inherits_restartMember (e : Engine) (slot : Nat) :
    e.Inherits [] (e.restartMember slot) := by
  have hreset : e.Inherits [] { e.modifyInterface slot Interface.reset with
      timers := e.timers.cancelInterface slot } :=
    Inherits.of_modify rfl rfl rfl fun _ _ => ⟨rfl, Protocol.Fades.of_unknown rfl⟩
  exact hreset.next (inherits_syncReceive slot)

theorem inherits_updateMember (old new : LagSettings) (e : Engine) (slot : Nat) :
    e.Inherits [] (e.updateMember old new slot) := by
  cases hi : e.interfaces.get? slot with
  | none =>
    have hsame : e.updateMember old new slot = e := by simp [updateMember, hi]
    rw [hsame]
    exact Inherits.refl e
  | some i =>
    rw [updateMember_eq hi]
    exact Inherits.put hi rfl Protocol.fades_retell

theorem inherits_detachMember (e : Engine) (l slot : Nat) :
    e.Inherits [] (e.detachMember l slot).1 := by
  unfold detachMember
  dsimp only
  split
  · exact Inherits.of_interfaces rfl rfl rfl
  · exact Inherits.of_modify rfl rfl rfl fun _ _ => ⟨rfl, Protocol.Fades.of_unknown rfl⟩

theorem inherits_timerFired (e : Engine) (key : TimerKey) :
    e.Inherits [] (e.timerFired key).1 := by
  cases key
  case fallback l =>
    simp only [timerFired]
    split
    · exact Inherits.of_interfaces rfl rfl rfl
    · exact Inherits.refl e
  all_goals
    simp only [timerFired]
    split
    · exact Inherits.refl e
    · next i hi =>
      split
      · exact Inherits.refl e
      · exact Inherits.put hi Interface.timerFired_name (Interface.fades_timerFired _ _ _)

end Engine
end LinkAggregation
