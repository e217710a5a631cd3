import LinkAggregation.Proofs.Engine.Order

/-!
# LAGs do not interfere

All LAGs share one arena of interfaces, one schedule of timers and one system identity. Still no
operation on one of them, or on an interface that is no member, disturbs another: neither what is
known of it nor what is told about it. Only the system identity reaches all of them, and then it
makes no difference which LAG is evaluated first.
-/
namespace LinkAggregation.Engine
variable {e : Engine} {s : Step} {l slot : Nat} {lag : Lag}

/-! ## LAGs that are left in peace -/

/-- The operation spares the LAG, which is found under its name as before, as are its members. -/
structure InPeace (l : Nat) (e : Engine) (s : Step) : Prop extends Spares l e s where
  lookup : ∀ lag, e.lags.get? l = some lag → s.1.lag? lag.name = some lag
  lookupMember : ∀ slot i, e.interfaces.get? slot = some i → i.lag = some l →
    s.1.interface? i.name = some i

/-- Names lead to the same LAG and to the same members as long as the index is right. -/
theorem Spares.inPeace (h : Spares l e s) (hstable : s.1.Stable) : InPeace l e s where
  toSpares := h
  lookup := by
    intro lag hl
    have hl' := h.lag.trans hl
    simp [lag?, Arena.lookup?, hstable.lags.find?_of_get? hl', hl']
  lookupMember := by
    intro slot i hi hlag
    have hi' := (h.members slot ⟨i, hi, hlag⟩).trans hi
    exact hstable.linked.interface?_name hi'

/-- The interface is not known, or it is no member of the LAG. -/
def Outside (e : Engine) (l : Nat) (name : String) : Prop :=
  ∀ i, e.interface? name = some i → i.lag ≠ some l

theorem Outside.not_isMember {name : String} (h : e.Outside l name) (slot : Nat)
    (hname : e.interfaces.find? name = some slot) : ¬ e.IsMember l slot := by
  rintro ⟨i, hi, hlag⟩
  exact h i (by simp [interface?, Arena.lookup?, hname, hi]) hlag

/-- No call that names another LAG, or an interface outside this one, disturbs the LAG. -/
structure Undisturbed (e : Engine) (l : Nat) (lag : Lag) : Prop where
  lagSet : ∀ name fields, name ≠ lag.name → InPeace l e (e.lagSet name fields).step
  lagDel : ∀ name, name ≠ lag.name → InPeace l e (e.lagDel name).step
  memberSet : ∀ key fields, (∀ name, memberKey? key ≠ some (lag.name, name)) →
    InPeace l e (e.memberSet key fields).step
  memberDel : ∀ key, (∀ name, memberKey? key ≠ some (lag.name, name)) →
    InPeace l e (e.memberDel key).step
  portSet : ∀ name fields, e.Outside l name → InPeace l e (e.portSet name fields).step
  portDel : ∀ name, e.Outside l name → InPeace l e (e.portDel name).step
  setLink : ∀ name up, e.Outside l name → InPeace l e (e.setLink name up)
  receiveFrame : ∀ name frame, e.Outside l name → InPeace l e (e.receiveFrame name frame).step

theorem Coherent.undisturbed (h : e.Stable) (hl : e.lags.get? l = some lag) :
    e.Undisturbed l lag := by
  have hname : ∀ name, name ≠ lag.name → e.lags.find? name ≠ some l := by
    intro name hne hfind
    exact hne (h.lags.name_of_find? hfind hl).symm
  have hfree : l ≠ e.lags.freeSlot := by
    rintro rfl
    simp [Arena.get?_freeSlot] at hl
  have hkey : ∀ key, (∀ name, memberKey? key ≠ some (lag.name, name)) → e.Elsewhere l key := by
    intro key hother lagName name hparse
    refine hname lagName ?_
    rintro rfl
    exact hother name hparse
  exact
    { lagSet := fun name fields hne =>
        (h.apart_lagSet (hname name hne) hfree fields).spares.inPeace (h.lagSet name fields)
      lagDel := fun name hne =>
        (h.apart_lagDel (hname name hne)).spares.inPeace (h.lagDel name)
      memberSet := fun key fields hother =>
        (h.apart_memberSet (hkey key hother) fields).spares.inPeace (h.memberSet key fields)
      memberDel := fun key hother =>
        (h.apart_memberDel (hkey key hother)).spares.inPeace (h.memberDel key)
      portSet := fun name fields hout =>
        (h.apart_portSet hout.not_isMember fields).spares.inPeace (h.portSet name fields)
      portDel := fun name hout =>
        (h.spares_portDel hout.not_isMember).inPeace (h.portDel name)
      setLink := fun name up hout =>
        (h.apart_setLink hout.not_isMember up).spares.inPeace (h.setLink name up)
      receiveFrame := fun name frame hout =>
        (h.apart_receiveFrame hout.not_isMember frame).spares.inPeace (h.receiveFrame name frame) }

/-! ## LAGs that are evaluated in any order -/

/-- Takes on an identity if it is another one, and evaluates the LAGs in this order. -/
def changeSystemIn (order : List Nat) (e : Engine) (system : SystemIdentity) : Outcome :=
  if system = e.system then .ok (e, []) else .ok ((e.told system).evaluateAll order)

/-- Sets the system identity, and evaluates the LAGs in this order. -/
def systemSetIn (order : List Nat) (e : Engine) (key : String) (fields : List Field) : Outcome :=
  if key ≠ systemKey then .fail e (.invalidConfig "key" (.systemKey key systemKey))
  else
    match e.system.withFields fields with
    | .error error => .fail e error
    | .ok system => changeSystemIn order e system

/-- Goes back to the default identity, and evaluates the LAGs in this order. -/
def systemDelIn (order : List Nat) (e : Engine) (key : String) : Outcome :=
  if key ≠ systemKey then .fail e (.invalidConfig "key" (.unknownKey key))
  else changeSystemIn order e {}

/-- The engine evaluates its LAGs by slot. -/
theorem systemSetIn_occupied (key : String) (fields : List Field) :
    systemSetIn e.lags.occupied e key fields = e.systemSet key fields := rfl

theorem systemDelIn_occupied (key : String) :
    systemDelIn e.lags.occupied e key = e.systemDel key := rfl

section
variable (h : e.Stable) {order order' : List Nat} (hperm : order.Perm order')
include h hperm

theorem Coherent.concur_changeSystemIn (system : SystemIdentity) :
    Concur (changeSystemIn order e system).step (changeSystemIn order' e system).step := by
  unfold changeSystemIn
  split
  · exact .refl _
  · exact (h.told system).linked.concur_evaluateAll hperm

theorem Coherent.concur_systemSetIn (key : String) (fields : List Field) :
    Concur (systemSetIn order e key fields).step (systemSetIn order' e key fields).step := by
  unfold systemSetIn
  split
  · exact .refl _
  · split
    · exact .refl _
    · exact h.concur_changeSystemIn hperm _

theorem Coherent.concur_systemDelIn (key : String) :
    Concur (systemDelIn order e key).step (systemDelIn order' e key).step := by
  unfold systemDelIn
  split
  · exact .refl _
  · exact h.concur_changeSystemIn hperm _

end

/-- LAGs do not interfere with each other. -/
structure Isolated (e : Engine) : Prop where
  undisturbed : ∀ l lag, e.lags.get? l = some lag → e.Undisturbed l lag
  /-- Evaluations of two LAGs can change places, whatever state the LAGs, their members and their
  timers are in. -/
  exchange : ∀ e', e.SameLinks e' → ∀ a b, (e.lags.get? a).isSome = true →
    (e.lags.get? b).isSome = true → a ≠ b →
      Concur ((e'.evaluate a).next (·.evaluate b)) ((e'.evaluate b).next (·.evaluate a))
  /-- So a change of the system identity can visit the LAGs in any order. -/
  systemSet : ∀ key fields order, e.lags.occupied.Perm order →
    Concur (e.systemSet key fields).step (systemSetIn order e key fields).step
  systemDel : ∀ key order, e.lags.occupied.Perm order →
    Concur (e.systemDel key).step (systemDelIn order e key).step

/-- Whatever has been asked of an engine, its LAGs do not interfere. -/
theorem isolated_reached (system : SystemIdentity) (maxMembers : Nat) (connected : Bool)
    (requests : List Request) : (reached system maxMembers connected requests).Isolated := by
  have hstable : (reached system maxMembers connected requests).Stable := stable_reached _ _ _ _
  exact
    { undisturbed := fun l lag hl => hstable.undisturbed hl
      exchange := fun e' hsame a b _ _ hab => (hsame.linked hstable.linked).concur_evaluate hab
      systemSet := fun key fields order hperm => by
        rw [← systemSetIn_occupied]
        exact hstable.concur_systemSetIn hperm key fields
      systemDel := fun key order hperm => by
        rw [← systemDelIn_occupied]
        exact hstable.concur_systemDelIn hperm key }

end LinkAggregation.Engine
