import LinkAggregation.Engine.Request
import LinkAggregation.Proofs.Engine.Clock
import LinkAggregation.Proofs.Engine.Order

/-!
# What is configured

The setup of the engine is what its tables and its links have made of it: the identity of the
system, and of every LAG and every interface all but what the protocol does with it. Evaluations,
timers and frames leave the setup alone, and so do the restarts that follow a change of it. An
operation of a table changes the setup in one place at most.
-/
namespace LinkAggregation

namespace Arena
variable {α β : Type}

theorem get?_modify_self {a : Arena α} {slot : Nat} {v : α} (h : a.get? slot = some v)
    (f : α → α) : (a.modify slot f).get? slot = some (f v) := by
  rw [get?_modify, if_pos rfl, h, Option.map_some]

theorem map_modify {a : Arena α} {slot : Nat} {f g : α → α}
    (h : ∀ v, a.get? slot = some v → g (f v) = g v) : (a.modify slot f).map g = a.map g := by
  refine eq_of_get? ?_ fun slot' => ?_
  · simp [shape, map, modify]
  · rw [get?_map, get?_map]
    exact map_get?_modify h slot'

theorem map_map_of_eq {a : Arena α} {f g : α → α} (h : ∀ v, g (f v) = g v) :
    (a.map f).map g = a.map g := by
  refine eq_of_get? ?_ fun slot => ?_
  · simp [shape, map]
  · simp only [get?_map, Option.map_map]
    congr 1
    funext v
    exact h v

end Arena

/-- An interface without its protocol state. -/
def Interface.setup (i : Interface) : Interface :=
  { i with protocol := {}, window := {}, published := none, counters := {} }

/-- A LAG without its fallback state. -/
def Lag.setup (lag : Lag) : Lag := { lag with fallback := {}, published := none }

/-- A timer concerns the protocol only. -/
theorem Interface.setup_timerFired (i : Interface) (key : TimerKey) (t : Timers) (now : Nat) :
    (i.timerFired key t now).1.setup = i.setup := by
  unfold timerFired
  cases key with
  | periodic slot =>
    dsimp only
    split <;> rfl
  | actorChurn slot => rfl
  | partnerChurn slot => rfl
  | currentWhile slot => rfl
  | waitWhile slot => rfl
  | fallback l => rfl

namespace Engine
variable {e e' : Engine} {l slot : Nat} {lag : Lag} {i : Interface}

/-- What is configured. -/
def setup (e : Engine) : SystemIdentity × Arena Interface × Arena Lag :=
  (e.system, e.interfaces.map Interface.setup, e.lags.map Lag.setup)

/-! ## Reading a setup -/

section
variable (h : e'.setup = e.setup)
include h

theorem system_of_setup : e'.system = e.system := congrArg Prod.fst h

theorem find?_lags_of_setup (name : String) : e'.lags.find? name = e.lags.find? name :=
  congrArg (fun s : SystemIdentity × Arena Interface × Arena Lag => s.2.2.find? name) h

theorem find?_interfaces_of_setup (name : String) :
    e'.interfaces.find? name = e.interfaces.find? name :=
  congrArg (fun s : SystemIdentity × Arena Interface × Arena Lag => s.2.1.find? name) h

theorem map_get?_lags_of_setup (l : Nat) :
    (e'.lags.get? l).map Lag.setup = (e.lags.get? l).map Lag.setup := by
  rw [← Arena.get?_map, ← Arena.get?_map]
  exact congrArg (fun s : SystemIdentity × Arena Interface × Arena Lag => s.2.2.get? l) h

theorem map_get?_interfaces_of_setup (slot : Nat) :
    (e'.interfaces.get? slot).map Interface.setup =
      (e.interfaces.get? slot).map Interface.setup := by
  rw [← Arena.get?_map, ← Arena.get?_map]
  exact congrArg (fun s : SystemIdentity × Arena Interface × Arena Lag => s.2.1.get? slot) h

theorem get?_lags_of_setup (hl : e.lags.get? l = some lag) :
    ∃ lag', e'.lags.get? l = some lag' ∧ lag'.setup = lag.setup := by
  have hmap := map_get?_lags_of_setup h l
  rw [hl] at hmap
  exact Option.map_eq_some_iff.mp hmap

theorem get?_interfaces_of_setup (hi : e.interfaces.get? slot = some i) :
    ∃ i', e'.interfaces.get? slot = some i' ∧ i'.setup = i.setup := by
  have hmap := map_get?_interfaces_of_setup h slot
  rw [hi] at hmap
  exact Option.map_eq_some_iff.mp hmap

end

/-! ## Changes that do not concern the setup -/

theorem setup_of_interfaces {f : Interface → Interface} (hsystem : e'.system = e.system)
    (hlags : e'.lags = e.lags) (hinterfaces : e'.interfaces = e.interfaces.modify slot f)
    (h : ∀ i, e.interfaces.get? slot = some i → (f i).setup = i.setup) : e'.setup = e.setup := by
  simp only [setup, hsystem, hlags, hinterfaces, Arena.map_modify h]

theorem setup_of_lags {f : Lag → Lag} (hsystem : e'.system = e.system)
    (hlags : e'.lags = e.lags.modify l f) (hinterfaces : e'.interfaces = e.interfaces)
    (h : ∀ lag, (f lag).setup = lag.setup) : e'.setup = e.setup := by
  simp only [setup, hsystem, hlags, hinterfaces, Arena.map_modify fun lag _ => h lag]

theorem setup_foldl {α : Type} {f : Engine → α → Engine} (hf : ∀ e x, (f e x).setup = e.setup)
    (xs : List α) (e : Engine) : (xs.foldl f e).setup = e.setup := by
  induction xs generalizing e with
  | nil => rfl
  | cons x rest ih => exact (ih (f e x)).trans (hf e x)

theorem setup_putMembers {ms : List (Nat × Interface)}
    (h : ∀ m ∈ ms, ∀ i, e.interfaces.get? m.1 = some i → m.2.setup = i.setup) :
    (e.putMembers ms).setup = e.setup := by
  unfold putMembers
  induction ms generalizing e with
  | nil => rfl
  | cons m rest ih =>
    have hfirst : (e.modifyInterface m.1 fun _ => m.2).setup = e.setup :=
      setup_of_interfaces rfl rfl rfl (h m List.mem_cons_self)
    refine (ih fun n hn i hi => ?_).trans hfirst
    -- what the slot holds now has the setup of what it held
    obtain ⟨j, hj, hsetup⟩ := get?_interfaces_of_setup hfirst.symm hi
    exact (h n (List.mem_cons_of_mem _ hn) j hj).trans hsetup

theorem setup_evaluate (e : Engine) (l : Nat) : (e.evaluate l).1.setup = e.setup := by
  cases hl : e.lags.get? l with
  | none => rw [evaluate_of_not_live hl]
  | some lag =>
    have hafter (slot : Nat) (i : Interface) : (e.after l lag slot i).setup = i.setup := by
      unfold after regrant
      rw [Evaluation.result_keeps Interface.setup rfl (fun _ _ _ _ => rfl) fun _ _ _ => rfl]
      exact Interface.withGrant_keeps Interface.setup (fun _ _ _ => rfl) i _
    have hput : (e.putMembers ((e.members lag).map fun m =>
        (m.1, e.after l lag m.1 m.2))).setup = e.setup := by
      refine setup_putMembers fun m hm i hi => ?_
      obtain ⟨⟨s, j⟩, hj, rfl⟩ := List.mem_map.mp hm
      obtain rfl : j = i := Option.some.inj ((mem_members.mp hj).2.symm.trans hi)
      exact hafter s j
    rw [evaluate_eq hl]
    refine Eq.trans (setup_of_lags (e := e.putMembers _) rfl rfl rfl fun lag => ?_) hput
    rfl

theorem setup_evaluateAll (e : Engine) (slots : List Nat) :
    (e.evaluateAll slots).1.setup = e.setup := by
  rw [evaluateAll_fst]
  exact setup_foldl setup_evaluate slots e

theorem setup_syncReceive (e : Engine) (slot : Nat) : (e.syncReceive slot).setup = e.setup := by
  have hput (r : Protocol × Timers) :
      ({ e.modifyInterface slot (fun i => { i with protocol := r.1 }) with timers := r.2 } :
        Engine).setup = e.setup := setup_of_interfaces rfl rfl rfl fun _ _ => rfl
  unfold syncReceive
  split
  · rfl
  · split
    · rfl
    · dsimp only
      repeat' split
      all_goals first | rfl | exact hput _

theorem setup_restartMember (e : Engine) (slot : Nat) :
    (e.restartMember slot).setup = e.setup := by
  unfold restartMember
  rw [setup_syncReceive]
  exact setup_of_interfaces rfl rfl rfl fun _ _ => rfl

theorem setup_updateMember (old new : LagSettings) (e : Engine) (slot : Nat) :
    (e.updateMember old new slot).setup = e.setup := by
  unfold updateMember
  dsimp only
  split
  · rfl
  · next i hi =>
    split
    · rfl
    · refine setup_of_interfaces rfl rfl rfl fun j hj => ?_
      obtain rfl : i = j := Option.some.inj (hi.symm.trans hj)
      rfl

theorem setup_count (e : Engine) (slot : Nat) (f : Counters → Counters) :
    (e.count slot f).setup = e.setup := setup_of_interfaces rfl rfl rfl fun _ _ => rfl

theorem setup_receiveLacp (e : Engine) (slot l : Nat) (i : Interface) (pdu : Lacpdu) :
    (e.receiveLacp slot l i pdu).1.setup = e.setup := by
  unfold receiveLacp
  split
  · exact setup_count e slot _
  · dsimp only
    split
    · exact setup_count e slot _
    · have hcount := setup_count e slot fun c => { c with received := c.received + 1 }
      refine (setup_evaluate _ l).trans (Eq.trans ?_ hcount)
      exact setup_of_interfaces rfl rfl rfl fun _ _ => rfl

theorem setup_receiveMarker (e : Engine) (slot l : Nat) (i : Interface) (marker : Marker) :
    (e.receiveMarker slot l i marker).1.setup = e.setup := by
  unfold receiveMarker
  dsimp only
  split
  · exact (setup_count _ slot _).trans (setup_count e slot _)
  · exact setup_count e slot _

theorem setup_receiveFrame (e : Engine) (name : String) (frame : Frame) :
    (e.receiveFrame name frame).engine.setup = e.setup := by
  unfold receiveFrame
  split
  · rfl
  · split
    · rfl
    · split
      · exact setup_count e _ _
      · exact setup_count e _ _
      · exact setup_receiveLacp e _ _ _ _
      · exact setup_receiveMarker e _ _ _ _

theorem setup_timerFired (e : Engine) (key : TimerKey) : (e.timerFired key).1.setup = e.setup := by
  unfold timerFired
  split
  · split
    · exact setup_of_lags rfl rfl rfl fun _ => rfl
    · rfl
  · split
    · rfl
    · next i hi =>
      split
      · rfl
      · refine setup_of_interfaces rfl rfl rfl fun j hj => ?_
        obtain rfl : i = j := Option.some.inj (hi.symm.trans hj)
        exact i.setup_timerFired _ _ _

theorem setup_advanceTo (e : Engine) (time : Nat) : (e.advanceTo time).1.setup = e.setup := by
  have hfired (keys : List TimerKey) (e : Engine) (lags : List Nat) :
      (keys.foldl collect (e, lags)).1.setup = e.setup := by
    induction keys generalizing e lags with
    | nil => rfl
    | cons key rest ih => exact (ih _ _).trans (setup_timerFired e key)
  exact (setup_evaluateAll _ _).trans (hfired _ _ [])

/-! ## What an operation of a table changes -/

theorem setup_setSystem (e : Engine) (system : SystemIdentity) :
    (e.setSystem system).1.setup = { e with system }.setup := by
  unfold setSystem
  refine (setup_evaluateAll _ _).trans ?_
  simp only [setup]
  rw [Arena.map_map_of_eq]
  intro i
  split <;> rfl

theorem setup_createLag (e : Engine) (name : String) (key : UInt16) (settings : LagSettings) :
    (e.createLag name key settings).1.setup =
      { e with lags := e.lags.insert name { name, key, settings } }.setup :=
  setup_evaluate _ _

theorem setup_changeLag (e : Engine) (slot : Nat) (lag : Lag) (settings : LagSettings) :
    (e.changeLag slot lag settings).1.setup =
      (e.modifyLag slot fun lag => { lag with settings }).setup := by
  unfold changeLag
  refine (setup_evaluate _ _).trans ?_
  split
  · exact setup_foldl setup_restartMember _ _
  · split
    · exact setup_foldl (setup_updateMember _ _) _ _
    · rfl

theorem setup_attachMember (e : Engine) (l slot : Nat) (settings : MemberSettings) :
    (e.attachMember l slot settings).1.setup =
      ((e.modifyInterface slot fun i => { i.reset with settings, lag := some l }).modifyLag l
        (·.addMember slot)).setup :=
  (setup_evaluate _ _).trans (setup_syncReceive _ _)

theorem setup_changeMember (e : Engine) (l slot : Nat) (settings : MemberSettings) :
    (e.changeMember l slot settings).1.setup =
      (e.modifyInterface slot fun i =>
        { i with settings, protocol := { i.protocol with needToTransmit := true } }).setup :=
  setup_evaluate _ _

theorem setup_updatePort (e : Engine) (slot : Nat) (status : PortStatus) :
    (e.updatePort slot status).1.setup =
      (e.modifyInterface slot fun i => { i with port := status }).setup := by
  have hidle (h : ∀ i, e.interfaces.get? slot = some i → { i with port := status } = i) :
      e.modifyInterface slot (fun i => { i with port := status }) = e := by
    unfold modifyInterface
    rw [Arena.modify_eq_self h]
  unfold updatePort
  split
  · next hnone => rw [hidle fun i hi => by simp [hnone] at hi]
  · next i hi =>
    split
    · next hsame =>
      rw [hidle fun j hj => by rw [← Option.some.inj (hi.symm.trans hj), hsame]]
    · dsimp only
      split
      · rfl
      · exact (setup_evaluate _ _).trans (setup_syncReceive _ _)

end Engine
end LinkAggregation
