import LinkAggregation.Proofs.Engine.Separation
import LinkAggregation.Proofs.Evaluation.Locality

/-!
# The order of evaluations

An evaluation reads its LAG, the members of it, their timers and what all LAGs share, and writes
nothing that another evaluation reads. So evaluations of different LAGs can change places. The
engines that come out differ at most in how their schedules have come about, and everybody who is
told something is told the same in the same order.
-/
namespace LinkAggregation

namespace Arena
variable {α : Type}

/-- The names and how many slots there are. -/
def shape (a : Arena α) : List (String × Nat) × Nat := (a.index, a.slots.length)

theorem shape_modify (a : Arena α) (slot : Nat) (f : α → α) :
    (a.modify slot f).shape = a.shape := by
  simp [shape, modify]

/-- Arenas of one shape are the same if their slots hold the same. -/
theorem eq_of_get? {a b : Arena α} (hshape : a.shape = b.shape)
    (hget : ∀ slot, a.get? slot = b.get? slot) : a = b := by
  obtain ⟨slots, index⟩ := a
  obtain ⟨slots', index'⟩ := b
  obtain ⟨rfl, hlength⟩ := Prod.mk.inj hshape
  have hslots : slots = slots' := by
    refine List.ext_getElem hlength fun slot hslot hslot' => ?_
    simpa [get?, hslot, hslot'] using hget slot
  rw [hslots]

end Arena

namespace Engine
variable {e e' : Engine} {s s' s'' : Step} {a b k l slot : Nat} {lag : Lag} {i : Interface}

/-! ## What an evaluation reads -/

/-- What an evaluation of the LAG reads is the same in both engines. -/
structure Agree (l : Nat) (e e' : Engine) : Prop where
  system : e'.system = e.system
  maxMembers : e'.maxMembers = e.maxMembers
  connected : e'.connected = e.connected
  now : e'.now = e.now
  lag : e'.lags.get? l = e.lags.get? l
  members : ∀ slot, e.IsMember l slot → e'.interfaces.get? slot = e.interfaces.get? slot
  timers : ∀ key, e.Owns l key → e'.timers.deadline? key = e.timers.deadline? key

/-- The evaluation of another LAG writes nothing of it. -/
theorem Linked.agree_evaluate (h : e.Linked) (hk : k ≠ l) : Agree k e (e.evaluate l).1 := by
  have hspares := (h.apart_evaluate hk).spares
  cases hl : e.lags.get? l with
  | none =>
    rw [evaluate_of_not_live hl]
    exact ⟨rfl, rfl, rfl, rfl, rfl, fun _ _ => rfl, fun _ _ => rfl⟩
  | some lag =>
    have hkeeps := evaluate_keeps hl
    exact ⟨by rw [hkeeps], by rw [hkeeps], by rw [hkeeps], by rw [hkeeps], hspares.lag,
      hspares.members, hspares.timers⟩

namespace Agree
variable (h : Agree l e e')
include h

theorem evaluation_eq (lag : Lag) : e'.evaluation lag = e.evaluation lag := by
  simp only [evaluation, h.system, h.now, h.connected]

variable (hlinked : e.Linked) (hl : e.lags.get? l = some lag)
include hlinked hl

theorem members_eq : e'.members lag = e.members lag :=
  members_congr rfl fun slot hslot => h.members slot ((hlinked.members l lag hl slot).mp hslot)

theorem fallback_eq : (e'.fallbackStep l lag).1 = (e.fallbackStep l lag).1 := by
  rw [fallbackStep, fallbackStep, fallbackMembers, fallbackMembers, h.members_eq hlinked hl, h.now]
  exact Fallback.evaluate_fst_eq

theorem regrant_eq : e'.regrant l lag = e.regrant l lag := by
  have hgrants : (e'.fallbackStep l lag).2.2 = (e.fallbackStep l lag).2.2 := by
    rw [fallbackStep, fallbackStep, fallbackMembers, fallbackMembers, h.members_eq hlinked hl,
      h.now]
    exact Fallback.evaluate_grants_eq
  funext slot i
  rw [regrant, regrant, hgrants]

theorem decision_eq : e'.decision l lag = e.decision l lag := by
  simp only [decision, choose, h.members_eq hlinked hl, h.regrant_eq hlinked hl, h.maxMembers]

theorem after_eq : e'.after l lag = e.after l lag := by
  funext slot i
  rw [after, after, h.evaluation_eq, h.decision_eq hlinked hl, h.regrant_eq hlinked hl]

theorem statusAfter_eq : e'.statusAfter l lag = e.statusAfter l lag := by
  rw [statusAfter, statusAfter, h.members_eq hlinked hl, h.after_eq hlinked hl]

omit hl in
/-- The evaluation has the same effects. -/
theorem effects_eq : (e'.evaluate l).2 = (e.evaluate l).2 := by
  cases hl : e.lags.get? l with
  | none => rw [evaluate_of_not_live hl, evaluate_of_not_live (h.lag.trans hl)]
  | some lag =>
    rw [evaluate_eq hl, evaluate_eq (h.lag.trans hl)]
    simp only [h.members_eq hlinked hl, h.evaluation_eq, h.decision_eq hlinked hl,
      h.regrant_eq hlinked hl, h.statusAfter_eq hlinked hl, emit, h.connected]

omit hl in
/-- The evaluation writes the same. -/
theorem evaluate : Agree l (e.evaluate l).1 (e'.evaluate l).1 := by
  cases hl : e.lags.get? l with
  | none =>
    rw [evaluate_of_not_live hl, evaluate_of_not_live (h.lag.trans hl)]
    exact h
  | some lag =>
    have hl' := h.lag.trans hl
    have hnodup := hlinked.nodup l lag hl
    have hwithin := hlinked.within_evaluate l
    have hkeeps := evaluate_keeps hl
    have hkeeps' := evaluate_keeps hl'
    -- Who is a member and which timers are owned does not change in the evaluation.
    refine ⟨?_, ?_, ?_, ?_, ?_, fun slot hslot => ?_, fun key hkey => ?_⟩
    · rw [hkeeps, hkeeps']
      exact h.system
    · rw [hkeeps, hkeeps']
      exact h.maxMembers
    · rw [hkeeps, hkeeps']
      exact h.connected
    · rw [hkeeps, hkeeps']
      exact h.now
    · rw [get?_lags_evaluate hl, get?_lags_evaluate hl', lagAfter, lagAfter,
        h.fallback_eq hlinked hl, h.statusAfter_eq hlinked hl]
    · rw [hwithin.isMember_iff] at hslot
      have hmem := (hlinked.members l lag hl slot).mpr hslot
      rw [get?_evaluate hl hnodup hmem, get?_evaluate hl' hnodup hmem, h.members slot hslot,
        h.after_eq hlinked hl]
    · rw [hwithin.owns_iff] at hkey
      obtain rfl | ⟨slot, hslot, hmember⟩ := hkey
      · rw [deadline?_evaluate_fallback hl, deadline?_evaluate_fallback hl', fallbackStep,
          fallbackStep, fallbackMembers, fallbackMembers, h.members_eq hlinked hl, h.now]
        exact Fallback.deadline?_evaluate_congr (h.timers _ (.inl rfl))
      · have hmem := (hlinked.members l lag hl slot).mpr hmember
        obtain ⟨i, hi, -⟩ := id hmember
        have hi' := (h.members slot hmember).trans hi
        obtain ⟨t, ht, hdue⟩ := deadline?_evaluate hl hnodup hmem hi
        obtain ⟨t', ht', hdue'⟩ := deadline?_evaluate hl' hnodup hmem hi'
        rw [hdue key hslot, hdue' key hslot, h.evaluation_eq, h.decision_eq hlinked hl,
          h.regrant_eq hlinked hl]
        refine Evaluation.sameAt_member (fun key' hkey' => ?_) key hslot
        rw [ht key' hkey', ht' key' hkey']
        exact h.timers key' ((owns_of_interface hkey').mpr hmember)

end Agree

/-! ## Outcomes that agree -/

/-- All but the interfaces, the LAGs and the timers. -/
def rest (e : Engine) : Engine := { e with interfaces := {}, lags := {}, timers := {} }

/-- The engines differ at most in how their schedules have come about. -/
structure Alike (e e' : Engine) : Prop where
  same : e' = { e with timers := e'.timers }
  timers : ∀ key, e'.timers.deadline? key = e.timers.deadline? key

/-- The engines that come out are alike, and each interface and each LAG sees the same effects in
the same order. -/
structure Concur (s s' : Step) : Prop where
  engine : Alike s.1 s'.1
  interfaces : ∀ name, s'.2.filter (fun x => x.interface? = some name) =
    s.2.filter fun x => x.interface? = some name
  lags : ∀ name, s'.2.filter (fun x => x.lag? = some name) =
    s.2.filter fun x => x.lag? = some name

namespace Alike

theorem refl (e : Engine) : Alike e e := ⟨rfl, fun _ => rfl⟩

theorem trans {e'' : Engine} (h : Alike e e') (h' : Alike e' e'') : Alike e e'' where
  same := by
    rw [h'.same, h.same]
  timers := fun key => (h'.timers key).trans (h.timers key)

theorem agree (h : Alike e e') (l : Nat) : Agree l e e' := by
  obtain ⟨hsame, htimers⟩ := h
  rw [hsame] at htimers ⊢
  exact ⟨rfl, rfl, rfl, rfl, rfl, fun _ _ => rfl, fun key _ => htimers key⟩

/-- Engines are alike if they look the same in every place. -/
theorem of_get? (hrest : e'.rest = e.rest)
    (hinterfaces : e'.interfaces.shape = e.interfaces.shape) (hlags : e'.lags.shape = e.lags.shape)
    (hget : ∀ slot, e'.interfaces.get? slot = e.interfaces.get? slot)
    (hlag : ∀ k, e'.lags.get? k = e.lags.get? k)
    (htimers : ∀ key, e'.timers.deadline? key = e.timers.deadline? key) : Alike e e' where
  same := by
    have hi := Arena.eq_of_get? hinterfaces hget
    have hl := Arena.eq_of_get? hlags hlag
    obtain ⟨⟩ := e
    obtain ⟨⟩ := e'
    simp only [rest, mk.injEq] at hrest
    simp_all
  timers := htimers

end Alike

namespace Concur

theorem refl (s : Step) : Concur s s := ⟨.refl s.1, fun _ => rfl, fun _ => rfl⟩

theorem trans (h : Concur s s') (h' : Concur s' s'') : Concur s s'' :=
  ⟨h.engine.trans h'.engine, fun name => (h'.interfaces name).trans (h.interfaces name),
    fun name => (h'.lags name).trans (h.lags name)⟩

theorem next {f f' : Engine → Step} (h : Concur s s') (hf : Concur (f s.1) (f' s'.1)) :
    Concur (s.next f) (s'.next f') where
  engine := hf.engine
  interfaces := fun name => by
    simp only [Step.next, List.filter_append, h.interfaces name, hf.interfaces name]
  lags := fun name => by
    simp only [Step.next, List.filter_append, h.lags name, hf.lags name]

end Concur

theorem shape_putMembers (ms : List (Nat × Interface)) :
    (e.putMembers ms).interfaces.shape = e.interfaces.shape := by
  unfold putMembers
  induction ms generalizing e with
  | nil => rfl
  | cons m rest ih =>
    rw [List.foldl_cons, ih]
    exact Arena.shape_modify _ _ _

/-- An evaluation frees no slot and takes none. -/
theorem shape_evaluate (e : Engine) (l : Nat) :
    (e.evaluate l).1.interfaces.shape = e.interfaces.shape ∧
      (e.evaluate l).1.lags.shape = e.lags.shape := by
  cases hl : e.lags.get? l with
  | none =>
    rw [evaluate_of_not_live hl]
    exact ⟨rfl, rfl⟩
  | some lag =>
    constructor
    · rw [evaluate_eq hl]
      exact shape_putMembers _
    · rw [evaluate_lags hl]
      exact Arena.shape_modify _ _ _

/-- An evaluation changes interfaces, LAGs and timers only. -/
theorem rest_evaluate (e : Engine) (l : Nat) : (e.evaluate l).1.rest = e.rest := by
  cases hl : e.lags.get? l with
  | none => rw [evaluate_of_not_live hl]
  | some lag =>
    rw [evaluate_keeps hl]
    rfl

/-! ## Evaluations of alike engines -/

theorem Alike.evaluate (h : Alike e e') (hlinked : e.Linked) (l : Nat) :
    Concur (e.evaluate l) (e'.evaluate l) := by
  have hagree := h.agree l
  have hafter := hagree.evaluate hlinked
  have hwithin := hlinked.within_evaluate l
  obtain ⟨hsame, htimers⟩ := h
  have hlinked' : e'.Linked := by
    rw [hsame]
    exact ⟨hlinked.interfaces, hlinked.lags, hlinked.nodup, hlinked.members, hlinked.live⟩
  have hwithin' := hlinked'.within_evaluate l
  have hmember : ∀ slot, e'.IsMember l slot ↔ e.IsMember l slot := by
    rw [hsame]
    exact fun _ => Iff.rfl
  have howns : ∀ key, e'.Owns l key ↔ e.Owns l key := by
    rw [hsame]
    exact fun _ => Iff.rfl
  have heffects := hagree.effects_eq hlinked
  refine ⟨.of_get? ?_ ?_ ?_ (fun slot => ?_) (fun k => ?_) fun key => ?_, fun _ => by rw [heffects],
    fun _ => by rw [heffects]⟩
  · rw [rest_evaluate, rest_evaluate, hsame]
    rfl
  · rw [(shape_evaluate e l).1, (shape_evaluate e' l).1, hsame]
  · rw [(shape_evaluate e l).2, (shape_evaluate e' l).2, hsame]
  · by_cases hslot : e.IsMember l slot
    · exact hafter.members slot ((hwithin.isMember_iff l slot).mpr hslot)
    · rw [hwithin.outside slot hslot, hwithin'.outside slot (by rwa [hmember]), hsame]
  · by_cases hk : k = l
    · rw [hk]
      exact hafter.lag
    · rw [hwithin.others k hk, hwithin'.others k hk, hsame]
  · by_cases hkey : e.Owns l key
    · exact hafter.timers key ((hwithin.owns_iff l key).mpr hkey)
    · rw [hwithin.timers key hkey, hwithin'.timers key (by rwa [howns]), htimers]

theorem Alike.evaluateAll (h : Alike e e') (hlinked : e.Linked) (slots : List Nat) :
    Concur (e.evaluateAll slots) (e'.evaluateAll slots) := by
  induction slots generalizing e e' with
  | nil => exact ⟨h, fun _ => rfl, fun _ => rfl⟩
  | cons l rest ih =>
    rw [evaluateAll_cons, evaluateAll_cons]
    have hfirst := h.evaluate hlinked l
    exact hfirst.next (ih hfirst.engine (hlinked.evaluate l))

/-! ## Evaluations of different LAGs -/

/-- What is kept of two lists in a row does not depend on their order if one gives nothing. -/
theorem filter_append_comm {α : Type} {p : α → Bool} {xs ys : List α}
    (h : (∀ x ∈ xs, ∀ y ∈ ys, ¬ (p x = true ∧ p y = true))) :
    (ys ++ xs).filter p = (xs ++ ys).filter p := by
  rw [List.filter_append, List.filter_append]
  cases hxs : xs.filter p with
  | nil => simp
  | cons x rest =>
    have hx : x ∈ xs.filter p := by rw [hxs]; exact List.mem_cons_self
    have hys : ys.filter p = [] := by
      refine List.filter_eq_nil_iff.mpr fun y hy hpy => ?_
      exact h x (List.mem_filter.mp hx).1 y hy ⟨(List.mem_filter.mp hx).2, hpy⟩
    rw [hys]
    simp

/-- Evaluations of different LAGs are about different interfaces. -/
theorem Linked.interface?_ne (h : e.Linked) (hab : a ≠ b) {x y : Effect} {name : String}
    (hx : x ∈ (e.evaluate a).2) (hy : y ∈ (e.evaluate b).2) (hxn : x.interface? = some name) :
    y.interface? ≠ some name := by
  have hmember : ∀ {l : Nat} {z : Effect}, z ∈ (e.evaluate l).2 → z.interface? = some name →
      ∃ slot i, e.IsMember l slot ∧ e.interfaces.get? slot = some i ∧ i.name = name := by
    intro l z hz hname
    cases hl : e.lags.get? l with
    | none =>
      rw [evaluate_of_not_live hl] at hz
      simp at hz
    | some lag =>
      obtain ⟨slot, i, hslot, hi, hown⟩ | ⟨hnone, -⟩ := of_mem_evaluate hl hz
      · exact ⟨slot, i, (h.members l lag hl slot).mp hslot, hi,
          Option.some.inj (hown.symm.trans hname)⟩
      · simp [hname] at hnone
  intro hyn
  obtain ⟨slot, i, hslot, hi, rfl⟩ := hmember hx hxn
  obtain ⟨slot', j, hslot', hj, hname⟩ := hmember hy hyn
  obtain rfl := h.interfaces.slot_unique hj hi hname
  exact hab (hslot'.unique hslot)

/-- Evaluations of different LAGs are about different LAGs. -/
theorem Linked.lag?_ne (h : e.Linked) (hab : a ≠ b) {x y : Effect} {name : String}
    (hx : x ∈ (e.evaluate a).2) (hy : y ∈ (e.evaluate b).2) (hxn : x.lag? = some name) :
    y.lag? ≠ some name := by
  have hlag : ∀ {l : Nat} {z : Effect}, z ∈ (e.evaluate l).2 → z.lag? = some name →
      ∃ lag, e.lags.get? l = some lag ∧ lag.name = name := by
    intro l z hz hname
    cases hl : e.lags.get? l with
    | none =>
      rw [evaluate_of_not_live hl] at hz
      simp at hz
    | some lag =>
      obtain ⟨_, i, -, -, hown⟩ | ⟨-, hown⟩ := of_mem_evaluate hl hz
      · cases z <;> simp [Effect.interface?, Effect.lag?] at hown hname
      · exact ⟨lag, rfl, Option.some.inj (hown.symm.trans hname)⟩
  intro hyn
  obtain ⟨lag, hl, rfl⟩ := hlag hx hxn
  obtain ⟨lag', hl', hname⟩ := hlag hy hyn
  exact hab (h.lags.slot_unique hl hl' hname.symm)

/-- The engine that comes out does not depend on which LAG is evaluated first. -/
theorem Linked.alike_evaluate (h : e.Linked) (hab : a ≠ b) :
    Alike ((e.evaluate a).1.evaluate b).1 ((e.evaluate b).1.evaluate a).1 := by
  have hlinkedA := h.evaluate a
  have hlinkedB := h.evaluate b
  -- What the second evaluation leaves of the first, and what it writes itself.
  have hkeptA := (hlinkedA.apart_evaluate hab).spares
  have hkeptB := (hlinkedB.apart_evaluate (Ne.symm hab)).spares
  have hwroteB := (h.agree_evaluate (Ne.symm hab)).evaluate h
  have hwroteA := (h.agree_evaluate hab).evaluate h
  have hwithinA := h.within_evaluate a
  have hwithinB := h.within_evaluate b
  have hwithinAB := hlinkedA.within_evaluate b
  have hwithinBA := hlinkedB.within_evaluate a
  refine .of_get? ?_ ?_ ?_ (fun slot => ?_) (fun k => ?_) fun key => ?_
  · simp only [rest_evaluate]
  · simp only [shape_evaluate]
  · simp only [shape_evaluate]
  · by_cases hslotA : e.IsMember a slot
    · have hslotA' := (hwithinA.isMember_iff a slot).mpr hslotA
      rw [hwroteA.members slot hslotA', hkeptA.members slot hslotA']
    · by_cases hslotB : e.IsMember b slot
      · have hslotB' := (hwithinB.isMember_iff b slot).mpr hslotB
        rw [hwroteB.members slot hslotB', hkeptB.members slot hslotB']
      · rw [hwithinAB.outside slot (by rwa [hwithinA.isMember_iff]),
          hwithinBA.outside slot (by rwa [hwithinB.isMember_iff]), hwithinA.outside slot hslotA,
          hwithinB.outside slot hslotB]
  · by_cases hkA : k = a
    · rw [hkA, hwroteA.lag, hkeptA.lag]
    · by_cases hkB : k = b
      · rw [hkB, hwroteB.lag, hkeptB.lag]
      · rw [hwithinAB.others k hkB, hwithinBA.others k hkA, hwithinA.others k hkA,
          hwithinB.others k hkB]
  · by_cases hkeyA : e.Owns a key
    · have hkeyA' := (hwithinA.owns_iff a key).mpr hkeyA
      rw [hwroteA.timers key hkeyA', hkeptA.timers key hkeyA']
    · by_cases hkeyB : e.Owns b key
      · have hkeyB' := (hwithinB.owns_iff b key).mpr hkeyB
        rw [hwroteB.timers key hkeyB', hkeptB.timers key hkeyB']
      · rw [hwithinAB.timers key (by rwa [hwithinA.owns_iff]),
          hwithinBA.timers key (by rwa [hwithinB.owns_iff]), hwithinA.timers key hkeyA,
          hwithinB.timers key hkeyB]

/-- Evaluations of two LAGs can change places. -/
theorem Linked.concur_evaluate (h : e.Linked) (hab : a ≠ b) :
    Concur ((e.evaluate a).next (·.evaluate b)) ((e.evaluate b).next (·.evaluate a)) := by
  have heffectsB : ((e.evaluate a).1.evaluate b).2 = (e.evaluate b).2 :=
    (h.agree_evaluate (Ne.symm hab)).effects_eq h
  have heffectsA : ((e.evaluate b).1.evaluate a).2 = (e.evaluate a).2 :=
    (h.agree_evaluate hab).effects_eq h
  refine ⟨h.alike_evaluate hab, fun name => ?_, fun name => ?_⟩
  · simp only [Step.next, heffectsA, heffectsB]
    refine filter_append_comm fun x hx y hy hboth => ?_
    exact h.interface?_ne hab hx hy (by simpa using hboth.1) (by simpa using hboth.2)
  · simp only [Step.next, heffectsA, heffectsB]
    refine filter_append_comm fun x hx y hy hboth => ?_
    exact h.lag?_ne hab hx hy (by simpa using hboth.1) (by simpa using hboth.2)

/-- The LAGs can be evaluated in any order. -/
theorem Linked.concur_evaluateAll (h : e.Linked) {slots slots' : List Nat}
    (hperm : slots.Perm slots') : Concur (e.evaluateAll slots) (e.evaluateAll slots') := by
  -- Engines that are alike go on alike, so it is enough that neighbours can change places.
  induction hperm generalizing e with
  | nil => exact .refl _
  | cons l _ ih =>
    rw [evaluateAll_cons, evaluateAll_cons]
    exact (Concur.refl _).next (ih (h.evaluate l))
  | swap a b rest =>
    have htwo : ∀ a b, e.evaluateAll (a :: b :: rest) =
        ((e.evaluate a).next (·.evaluate b)).next (·.evaluateAll rest) := by
      intro a b
      simp only [evaluateAll_cons, Step.next, List.append_assoc]
    by_cases hab : a = b
    · rw [hab]
      exact .refl _
    · rw [htwo, htwo]
      have hswap := h.concur_evaluate (Ne.symm hab)
      exact hswap.next (hswap.engine.evaluateAll ((h.evaluate b).evaluate a) rest)
  | trans _ _ ih ih' => exact (ih h).trans (ih' h)

end Engine
end LinkAggregation
