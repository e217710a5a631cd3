import LinkAggregation.Proofs.Engine.Move

/-!
# Operations are courses of moves

A course is a sequence of moves with their effects in order. Every operation on a stable engine is
one, whether it succeeds or fails. So what every move keeps is kept by every run, and a statement
about the effects of a run is one about the effects of its moves. A course says of which kinds its
moves are. Operations evaluate at the end only, and before that most of them are calm.
-/
namespace LinkAggregation.Engine

/-- Moves in order, each from an engine whose links are right and of a kind that is allowed. -/
inductive Course (allowed : Kind → Prop) : Engine → Step → Prop
  | refl (e : Engine) : Course allowed e (e, [])
  | step {e : Engine} {c : Kind} {s s' : Step} (h : e.Linked) (hc : allowed c) (hm : Move e c s)
      (hrest : Course allowed s.1 s') : Course allowed e (s'.1, s.2 ++ s'.2)

variable {e e' : Engine} {c : Kind} {s s' : Step} {l slot : Nat} {lag : Lag} {i : Interface}
  {changed : Nat → Prop} {allowed allowed' : Kind → Prop}

/-- A course of calm moves. -/
abbrev CalmCourse : Engine → Step → Prop := Course (· = .calm)

/-- A course of evaluations. -/
abbrev Evaluations : Engine → Step → Prop := Course (· = .evaluation)

/-- A course of any moves. -/
abbrev FreeCourse : Engine → Step → Prop := Course fun _ => True

/-- A course of moves, and evaluations after it. -/
def Operation (allowed : Kind → Prop) (e : Engine) (s : Step) : Prop :=
  ∃ s₁ s₂, e.Course allowed s₁ ∧ s₁.1.Evaluations s₂ ∧ s = (s₂.1, s₁.2 ++ s₂.2)

/-- A calm course, and evaluations after it. -/
abbrev CalmOperation : Engine → Step → Prop := Operation (· = .calm)

/-- The moves with which a LAG is set. -/
def Kind.IsSetting (c : Kind) : Prop := c = .calm ∨ c = .founding ∨ c = .revision

/-- The moves with which anything else is configured, unless an interface is forgotten. -/
def Kind.IsClearing (c : Kind) : Prop := c = .calm ∨ c = .dissolution

/-- The moves with which a frame is received. -/
def Kind.IsHearing (c : Kind) : Prop := c = .receipt ∨ c = .message

/-- The moves with which the clock is set. -/
def Kind.IsPassing (c : Kind) : Prop := c = .time ∨ c = .timer

namespace Course

theorem trans (h : e.Course allowed s) (h' : s.1.Course allowed s') :
    e.Course allowed (s'.1, s.2 ++ s'.2) := by
  induction h with
  | refl e => exact h'
  | step hl hc hm hrest ih =>
    rw [List.append_assoc]
    exact .step hl hc hm (ih h')

theorem next {f : Engine → Step} (h : e.Course allowed s) (h' : s.1.Course allowed (f s.1)) :
    e.Course allowed (s.next f) :=
  h.trans h'

theorem mono (h : e.Course allowed s) (hallowed : ∀ c, allowed c → allowed' c) :
    e.Course allowed' s := by
  induction h with
  | refl e => exact .refl e
  | step hl hc hm hrest ih => exact .step hl (hallowed _ hc) hm ih

theorem free (h : e.Course allowed s) : e.FreeCourse s := h.mono fun _ _ => trivial

theorem of_move (h : e.Linked) (hc : allowed c) (hm : Move e c s) : e.Course allowed s := by
  have hstep := Course.step h hc hm (.refl s.1)
  rwa [List.append_nil] at hstep

theorem of_shift (h : e.Linked) (hc : allowed c) (hs : Shift e c e') : e.Course allowed (e', []) :=
  .of_move h hc (.shift hs)

/-- A beginning without effects. -/
theorem silent_trans (h : e.Course allowed (e', [])) (h' : e'.Course allowed s) :
    e.Course allowed s := h.trans h'

/-- A course goes on with an evaluation. -/
theorem evaluate (h : e.Course allowed s) (hstable : (s.1.evaluate l).1.Stable) :
    e.Operation allowed (s.next (·.evaluate l)) :=
  ⟨s, _, h, of_move hstable.linked.of_evaluate rfl (.evaluate l), rfl⟩

/-- What the operations of a sequence have in common, the sequence has. -/
theorem foldl {α : Type} {f : Engine → α → Step} (xs : List α)
    (hstable : ∀ (e : Engine) (x : α), e.Stable → (f e x).1.Stable)
    (hf : ∀ (e : Engine) (x : α), e.Stable → e.Course allowed (f e x)) (h : e.Stable) :
    e.Course allowed (xs.foldl (fun (s : Step) x => s.next (f · x)) (e, [])) := by
  induction xs generalizing e with
  | nil => exact .refl e
  | cons x rest ih =>
    rw [List.foldl_cons, foldl_next]
    exact (hf e x h).trans (ih (hstable e x h))

end Course

namespace CalmCourse

theorem of_move (h : e.Linked) (hm : Move e .calm s) : e.CalmCourse s := Course.of_move h rfl hm

theorem of_shift (h : e.Linked) (hs : Shift e .calm e') : e.CalmCourse (e', []) :=
  of_move h (.shift hs)

end CalmCourse

namespace Operation

theorem of_course (h : e.Course allowed s) : e.Operation allowed s :=
  ⟨s, (s.1, []), h, .refl s.1, by rw [List.append_nil]⟩

theorem refl (allowed : Kind → Prop) (e : Engine) : e.Operation allowed (e, []) :=
  of_course (.refl e)

/-- A beginning without effects. -/
theorem after (h : e.Course allowed (e', [])) (h' : e'.Operation allowed s) :
    e.Operation allowed s := by
  obtain ⟨s₁, s₂, hcourse, hevaluations, rfl⟩ := h'
  exact ⟨s₁, s₂, h.silent_trans hcourse, hevaluations, rfl⟩

theorem mono (h : e.Operation allowed s) (hallowed : ∀ c, allowed c → allowed' c) :
    e.Operation allowed' s := by
  obtain ⟨s₁, s₂, hcourse, hevaluations, rfl⟩ := h
  exact ⟨s₁, s₂, hcourse.mono hallowed, hevaluations, rfl⟩

/-- An operation is a course. -/
theorem course (h : e.Operation allowed s) :
    e.Course (fun c => allowed c ∨ c = .evaluation) s := by
  obtain ⟨s₁, s₂, hcourse, hevaluations, rfl⟩ := h
  exact (hcourse.mono fun _ => .inl).trans (hevaluations.mono fun _ => .inr)

end Operation

/-! ## What a course keeps -/

namespace Course

theorem connected (hc : e.Course allowed s) : s.1.connected = e.connected := by
  induction hc with
  | refl => rfl
  | step hl _ hm _ ih => exact ih.trans (hm.connected hl)

/-- What new interfaces have and every change of an interface keeps. -/
theorem interfaces {P : Nat → Interface → Prop} (hc : e.Course allowed s)
    (hnew : ∀ name slot, P slot (Interface.new name slot))
    (hchange : ∀ (e : Engine) c slot i i', e.Change c slot i i' → P slot i → P slot i')
    (h : ∀ slot i, e.interfaces.get? slot = some i → P slot i) :
    ∀ slot i, s.1.interfaces.get? slot = some i → P slot i := by
  induction hc with
  | refl => exact h
  | @step e c s s' hl _ hm _ ih =>
    refine ih fun slot i' hi' => ?_
    have hfate := hm.interfaces hl slot
    rw [hi'] at hfate
    obtain ⟨name, -, rfl⟩ | ⟨i, hi, hstayed⟩ := hfate.origin
    · exact hnew name slot
    · exact hchange e c slot i i' hstayed (h slot i hi)

/-- What new LAGs have and every change of a LAG keeps. -/
theorem lags {Q : Nat → Lag → Prop} (hc : e.Course allowed s)
    (hnew : ∀ name key settings l, lagKey name = .ok key → Q l { name, key, settings })
    (hchange : ∀ (e : Engine) l lag lag', e.LagChange l lag lag' → Q l lag → Q l lag')
    (h : ∀ l lag, e.lags.get? l = some lag → Q l lag) :
    ∀ l lag, s.1.lags.get? l = some lag → Q l lag := by
  induction hc with
  | refl => exact h
  | @step e c s s' hl _ hm _ ih =>
    refine ih fun l lag' hlag' => ?_
    have hfate := hm.lags hl l
    rw [hlag'] at hfate
    obtain ⟨name, key, settings, hkey, -, rfl⟩ | ⟨lag, hlag, hstayed⟩ := hfate.origin
    · exact hnew name key settings l hkey
    · exact hchange e l lag lag' hstayed (h l lag hlag)

/-- Interfaces outside all LAGs stay blank. -/
theorem tidy (hc : e.Course allowed s) (h : e.Tidy) : s.1.Tidy :=
  hc.interfaces (P := fun _ i => i.lag = none → i.Blank)
    (fun _ _ _ => ⟨rfl, rfl, rfl⟩) (fun _ _ _ _ _ hchange => hchange.blank) h

end Course

/-! ## Evaluations -/

theorem Coherent.evaluations_evaluateAll (h : e.Coherent changed []) (slots : List Nat) :
    e.Evaluations (e.evaluateAll slots) := by
  induction slots generalizing e changed with
  | nil => exact .refl e
  | cons l rest ih =>
    rw [evaluateAll_cons]
    have hfirst : e.Evaluations (e.evaluate l) := .of_move h.linked rfl (.evaluate l)
    exact hfirst.next (ih (h.evaluate l))

/-- A shift and an evaluation. -/
theorem Coherent.operation_evaluate (h : e.Coherent changed []) (hc : allowed c)
    (hs : Shift e c e') (hstable : (e'.evaluate l).1.Stable) :
    e.Operation allowed (e'.evaluate l) :=
  (Course.of_shift h.linked hc hs).evaluate hstable

/-! ## Configuration -/

section
variable (h : e.Stable)
include h

theorem Coherent.operation_changeSystem (system : SystemIdentity) :
    e.CalmOperation (e.changeSystem system).step := by
  unfold Engine.changeSystem
  split
  · exact .refl _ e
  · have htold : e.CalmCourse (e.told system, []) := .of_shift h.linked (.identify system)
    exact ⟨_, _, htold, (h.told system).evaluations_evaluateAll _, rfl⟩

theorem Coherent.operation_systemSet (key : String) (fields : List Field) :
    e.CalmOperation (e.systemSet key fields).step := by
  unfold Engine.systemSet
  split
  · exact .refl _ e
  · split
    · exact .refl _ e
    · exact h.operation_changeSystem _

theorem Coherent.operation_systemDel (key : String) : e.CalmOperation (e.systemDel key).step := by
  unfold Engine.systemDel
  split
  · exact .refl _ e
  · exact h.operation_changeSystem _

/-- A member whose protocol does not run sends nothing. -/
theorem Coherent.periodic_of_idle (hi : e.interfaces.get? slot = some i) (hlag : i.lag = some l)
    (hl : e.lags.get? l = some lag)
    (hidle : (lag.isDynamic && i.protocol.receive.isRunning) = false) :
    i.protocol.periodic = .never := by
  have hgoal := (h.settled_member hi hlag hl).periodic
  have hdynamic : (e.evaluation lag).dynamic = lag.isDynamic := rfl
  rw [hdynamic, hidle] at hgoal
  rw [← hgoal]
  simp [Evaluation.periodicGoal, Periodic.state]

theorem Coherent.periodic_of_silent (hi : e.interfaces.get? slot = some i) (hlag : i.lag = some l)
    (hsilent : i.protocol.receive.isRunning = false) : i.protocol.periodic = .never := by
  obtain ⟨lag, hl, -⟩ := h.lag_of_member hi hlag
  exact h.periodic_of_idle hi hlag hl (by rw [hsilent, Bool.and_false])

/-- New settings reach the members in one of three ways, and the LAG is evaluated. -/
theorem Coherent.changeLag_eq (hl : e.lags.get? l = some lag) (new : LagSettings) :
    ∃ f step, Revision lag.settings new e.now f step ∧
      Shift e .revision
        (lag.members.foldl f (e.modifyLag l fun lag => { lag with settings := new })) ∧
      e.changeLag l lag new =
        (lag.members.foldl f (e.modifyLag l fun lag => { lag with settings := new })).evaluate l := by
  have hidle := fun slot i (hi : e.interfaces.get? slot = some i) (hlag : i.lag = some l) =>
    h.periodic_of_idle hi hlag hl
  unfold Engine.changeLag
  dsimp only
  split
  · next hdynamic =>
    have hr : Revision lag.settings new e.now restartMember (restartStep new e.now) :=
      .restart hdynamic
    exact ⟨_, _, hr, .revise hl hr hidle, rfl⟩
  · next hsame =>
    rw [ne_eq, not_not] at hsame
    split
    · next hnew =>
      have hr : Revision lag.settings new e.now (updateMember lag.settings new)
          (retellStep lag.settings new e.now) := .retell (hsame.trans hnew) hnew
      exact ⟨_, _, hr, .revise hl hr hidle, rfl⟩
    · next hnew =>
      rw [Bool.not_eq_true] at hnew
      have hr : Revision lag.settings new e.now (fun e _ => e) idleStep :=
        .idle (hsame.trans hnew) hnew
      refine ⟨_, _, hr, .revise hl hr hidle, ?_⟩
      rw [List.foldl_fixed' fun _ => rfl]

/-- Setting a LAG changes nothing, or founds it or gives it new settings, and evaluates it. -/
theorem Coherent.lagSet_cases (name : String) (fields : List Field) :
    (e.lagSet name fields).step = (e, []) ∨
      (∃ e' l, Shift e .founding e' ∧ (e.lagSet name fields).step = e'.evaluate l) ∨
      ∃ l lag new f step, e.lags.get? l = some lag ∧ Revision lag.settings new e.now f step ∧
        Shift e .revision
          (lag.members.foldl f (e.modifyLag l fun lag => { lag with settings := new })) ∧
        (e.lagSet name fields).step =
          (lag.members.foldl f (e.modifyLag l fun lag => { lag with settings := new })).evaluate
            l := by
  unfold Engine.lagSet
  split
  · exact .inl rfl
  · next hkey =>
    split
    · next hname =>
      split
      · exact .inl rfl
      · exact .inr (.inl ⟨_, _, .found _ hkey hname, rfl⟩)
    · split
      · exact .inl rfl
      · next hl =>
        split
        · exact .inl rfl
        · split
          · exact .inl rfl
          · obtain ⟨f, step, hr, hshift, heq⟩ := h.changeLag_eq hl _
            exact .inr (.inr ⟨_, _, _, f, step, hl, hr, hshift, heq⟩)

theorem Coherent.operation_lagSet (name : String) (fields : List Field) :
    e.Operation Kind.IsSetting (e.lagSet name fields).step := by
  have hstable : (e.lagSet name fields).step.1.Stable := h.lagSet name fields
  obtain heq | ⟨e', l, hshift, heq⟩ | ⟨l, lag, new, f, step, -, -, hshift, heq⟩ :=
    h.lagSet_cases name fields
  · rw [heq]
    exact .refl _ e
  · rw [heq] at hstable ⊢
    exact h.operation_evaluate (.inr (.inl rfl)) hshift hstable
  · rw [heq] at hstable ⊢
    exact h.operation_evaluate (.inr (.inr rfl)) hshift hstable

omit h in
/-- All members leave a LAG, which keeps its published status. -/
theorem Coherent.course_detachMembers (h : e.Coherent (fun k => k = l) []) {slots : List Nat}
    (hl : e.lags.get? l = some lag) (hmembers : lag.members = slots) :
    let s := slots.foldl (fun (s : Step) m => s.next (·.detachMember l m)) (e, [])
    e.CalmCourse s ∧ s.1.Coherent (fun k => k = l) [] ∧ s.1.lags.find? = e.lags.find? ∧
      s.1.lags.get? l = some { lag with members := [] } := by
  induction slots generalizing e lag with
  | nil => exact ⟨.refl e, h, rfl, hl.trans (by rw [← hmembers])⟩
  | cons m rest ih =>
    obtain ⟨i, hi, hlag⟩ := h.get?_of_mem hl (by rw [hmembers]; exact List.mem_cons_self)
    have hdetach := detachMember_eq (l := l) hi
    have hmove : Move e .calm (e.detachMember l m) := by
      rw [hdetach]
      exact .leave hi hlag
    have hl' : (e.detachMember l m).1.lags.get? l = some (lag.removeMember m) := by
      rw [hdetach, get?_lags_exchange, if_pos rfl, hl]
      rfl
    have hrest : (lag.removeMember m).members = rest := by
      simp [Lag.removeMember, hmembers]
    have hfind : (e.detachMember l m).1.lags.find? = e.lags.find? := by
      rw [hdetach]
      rfl
    obtain ⟨hcourse, hcoherent, hfind', hget⟩ := ih (h.detach hi hlag hl) hl' hrest
    dsimp only
    rw [List.foldl_cons, foldl_next]
    exact ⟨(CalmCourse.of_move h.linked hmove).trans hcourse, hcoherent, hfind'.trans hfind, hget⟩

theorem Coherent.course_lagDel (name : String) :
    e.Course Kind.IsClearing (e.lagDel name).step := by
  unfold Engine.lagDel
  split
  · exact .refl e
  · next l hname =>
    obtain ⟨lag, hl, -⟩ := h.lags.get?_of_find? hname
    have hmarked : e.Coherent (fun k => k = l) [] := h.mark fun _ => False.elim
    obtain ⟨hcourse, hcoherent, hfind, hget⟩ := hmarked.course_detachMembers hl rfl
    have hpublished : lag.published.isSome = true := by
      rw [(h.settled l lag hl id).published]
      rfl
    simp only [hl, Option.map_some, Option.getD_some]
    have hdissolve := Move.dissolve (hfind ▸ hname) hget rfl hpublished
    exact (hcourse.mono fun _ => .inl).trans (.of_move hcoherent.linked (.inr rfl) hdissolve)

theorem Coherent.course_ensureInterface (name : String) :
    e.CalmCourse ((e.ensureInterface name).1, []) := by
  unfold Engine.ensureInterface
  split
  · exact .refl e
  · next hname => exact .of_shift h.linked (.meet hname)

theorem Coherent.operation_attachMember (hi : e.interfaces.get? slot = some i)
    (hlag : i.lag = none) (hl : e.lags.get? l = some lag) (settings : MemberSettings) :
    e.CalmOperation (e.attachMember l slot settings) := by
  have hstable := h.attachMember hi hlag hl settings
  revert hstable
  unfold Engine.attachMember
  dsimp only
  rw [attach_eq hi hl]
  exact h.operation_evaluate rfl (.join settings hi hlag hl)

theorem Coherent.operation_changeMember (hi : e.interfaces.get? slot = some i)
    (hlag : i.lag = some l) (settings : MemberSettings) :
    e.CalmOperation (e.changeMember l slot settings) := by
  obtain ⟨lag, hl, -⟩ := h.lag_of_member hi hlag
  have hstable := h.changeMember hi hlag settings
  have hput := modifyInterface_eq_put hi (fun i =>
    { i with settings, protocol := { i.protocol with needToTransmit := true } }) e.timers
  have hshift : Shift e .calm (e.modifyInterface slot fun i =>
      { i with settings, protocol := { i.protocol with needToTransmit := true } }) := by
    rw [show e.modifyInterface slot _ = _ from hput]
    exact .turn hi hlag hl (.settings settings)
  exact h.operation_evaluate rfl hshift hstable

theorem Coherent.operation_memberSet (key : String) (fields : List Field) :
    e.CalmOperation (e.memberSet key fields).step := by
  unfold Engine.memberSet
  split
  · exact .refl _ e
  · next lagName name _ =>
    split
    · exact .refl _ e
    · next l hfind =>
      have hknown := h.ensureInterface name
      have hcourse := h.course_ensureInterface name
      obtain ⟨lag, hl, -⟩ := h.lags.get?_of_find? hfind
      rw [← ensureInterface_lags name] at hl
      dsimp only
      split
      · exact .of_course hcourse
      · next i hi =>
        split
        · next hlag =>
          split
          · exact .of_course hcourse
          · exact .after hcourse (hknown.operation_attachMember hi hlag hl _)
        · next current hlag =>
          split
          · exact .of_course hcourse
          · next hsame =>
            split
            · exact .of_course hcourse
            · split
              · exact .of_course hcourse
              · refine .after hcourse (hknown.operation_changeMember hi ?_ _)
                rw [hlag, not_not.mp hsame]

theorem Coherent.operation_memberDel (key : String) :
    e.CalmOperation (e.memberDel key).step := by
  have hstable := h.memberDel key
  revert hstable
  unfold Engine.memberDel
  split
  · exact fun _ => .refl _ e
  · split
    · split
      · next hmember =>
        obtain ⟨i, hi, hlag⟩ := Option.bind_eq_some_iff.mp hmember
        rw [detachMember_eq hi]
        exact (CalmCourse.of_move h.linked (.leave hi hlag)).evaluate
      · exact fun _ => .refl _ e
    · exact fun _ => .refl _ e

theorem Coherent.operation_updatePort (slot : Nat) (status : PortStatus) :
    e.CalmOperation (e.updatePort slot status) := by
  have hstable := h.updatePort slot status
  revert hstable
  unfold Engine.updatePort
  split
  · exact fun _ => .refl _ e
  · next i hi =>
    split
    · exact fun _ => .refl _ e
    · dsimp only
      split
      · next hlag => exact fun _ => .of_course (.of_shift h.linked rfl (.report status hi hlag))
      · next l hlag =>
        obtain ⟨lag, hl, -⟩ := h.lag_of_member hi hlag
        have hput : (e.modifyInterface slot fun i => { i with port := status }) =
            e.put slot ({ i with port := status }, e.timers) := modifyInterface_eq_put hi _ _
        rw [hput, syncReceive_eq (get?_put_self hi _) hlag hl, put_put]
        exact h.operation_evaluate rfl
          (.turn hi hlag hl (.port status (h.periodic_of_silent hi hlag)))

theorem Coherent.operation_portSet (name : String) (fields : List Field) :
    e.CalmOperation (e.portSet name fields).step := by
  unfold Engine.portSet
  dsimp only
  split
  · exact .refl _ e
  · exact .after (h.course_ensureInterface name)
      ((h.ensureInterface name).operation_updatePort _ _)

omit h in
/-- An interface is forgotten, and nothing else happens. -/
def Forgets (e : Engine) (s : Step) : Prop := ∃ e', Shift e .oblivion e' ∧ s = (e', [])

theorem Coherent.course_of_forgets (hs : e.Forgets s) : e.Course (· = .oblivion) s := by
  obtain ⟨e', hforget, rfl⟩ := hs
  exact .of_shift h.linked rfl hforget

/-- The port of a member goes down, and any other interface is forgotten. -/
theorem Coherent.portDel_cases (name : String) :
    e.CalmOperation (e.portDel name).step ∨ e.Forgets (e.portDel name).step := by
  unfold Engine.portDel
  split
  · exact .inl (.refl _ e)
  · next slot hfind =>
    split
    · exact .inl (h.operation_updatePort slot {})
    · next hfree =>
      obtain ⟨i, hi, -⟩ := h.interfaces.get?_of_find? hfind
      have hlag : i.lag = none := by
        simpa [hi] using hfree
      exact .inr ⟨_, .forget hfind hi hlag, rfl⟩

/-- Applying an entry sets a LAG or forgets an interface, or does nothing of this. -/
theorem Coherent.applyEntry_cases (table : Table) (entry : Entry) :
    e.Operation Kind.IsClearing (e.applyEntry table entry).step ∨
      e.Forgets (e.applyEntry table entry).step ∨
      e.applyEntry table entry = e.lagSet entry.key entry.fields := by
  unfold Engine.applyEntry
  split
  · exact .inl ((h.operation_systemSet _ _).mono fun _ => .inl)
  · exact .inl ((h.operation_systemDel _).mono fun _ => .inl)
  · exact .inr (.inr rfl)
  · exact .inl (.of_course (h.course_lagDel _))
  · exact .inl ((h.operation_memberSet _ _).mono fun _ => .inl)
  · exact .inl ((h.operation_memberDel _).mono fun _ => .inl)
  · exact .inl ((h.operation_portSet _ _).mono fun _ => .inl)
  · obtain hcalm | hforgets := h.portDel_cases entry.key
    · exact .inl (hcalm.mono fun _ => .inl)
    · exact .inr (.inl hforgets)

theorem Coherent.course_applyEntry (table : Table) (entry : Entry) :
    e.FreeCourse (e.applyEntry table entry).step := by
  obtain hclearing | hforgets | hset := h.applyEntry_cases table entry
  · exact hclearing.course.free
  · exact (h.course_of_forgets hforgets).free
  · rw [hset]
    exact (h.operation_lagSet _ _).course.free

/-! ## Events -/

theorem Coherent.operation_setLink (name : String) (up : Bool) :
    e.CalmOperation (e.setLink name up) := by
  unfold Engine.setLink
  dsimp only
  split
  · exact .of_course (h.course_ensureInterface name)
  · exact .after (h.course_ensureInterface name)
      ((h.ensureInterface name).operation_updatePort _ _)

theorem Coherent.course_count (slot : Nat) (f : Counters → Counters) :
    e.Course (· = .receipt) (e.count slot f, []) :=
  .of_shift h.linked rfl (.count slot f)

theorem Coherent.course_receiveMarker (marker : Marker) :
    e.Course (· = .receipt) (e.receiveMarker slot l i marker) := by
  unfold Engine.receiveMarker
  dsimp only
  split
  · have hheard := h.count slot fun c => { c with markersReceived := c.markersReceived + 1 }
    have hsent := hheard.count slot fun c =>
      { c with markerResponsesSent := c.markerResponsesSent + 1 }
    have hanswer : Course (· = .receipt) _ _ := .of_move hsent.linked rfl
      (.answer i.name marker.response (e.markerSource l))
    exact (h.course_count _ _).silent_trans ((hheard.course_count _ _).silent_trans hanswer)
  · exact h.course_count _ _

/-- A running member records what it hears. -/
structure Listens (e : Engine) (n : Hearing) (l slot : Nat) (lag : Lag) (i : Interface)
    (r : Interface × Timers) : Prop where
  known : e.interfaces.get? slot = some i
  name : i.name = n.interface
  member : i.lag = some l
  live : e.lags.get? l = some lag
  turn : Turn lag.settings e.now slot i e.timers .message r
  partner : n.pdu.actor.FadesTo r.1.protocol.partner

omit h in
theorem Listens.shift {n : Hearing} {r : Interface × Timers} (hr : e.Listens n l slot lag i r) :
    Shift e .message (e.put slot r) :=
  .turn hr.known hr.member hr.live hr.turn

/-- A running member that gets a message counts it, records it and is evaluated. -/
theorem Coherent.receiveLacp_listens {name : String} (hfind : e.interfaces.find? name = some slot)
    (hi : e.interfaces.get? slot = some i) (hlag : i.lag = some l)
    (hl : e.lags.get? l = some lag)
    (hrunning : (i.isEnabled && i.protocol.receive.isRunning) = true) (pdu : Lacpdu) :
    let e' := e.count slot fun c => { c with received := c.received + 1 }
    ∃ i' r, e'.Listens ⟨name, pdu, i.endpoint (e.system.resolve lag.settings) lag.key⟩ l slot lag
        i' r ∧ e.receiveLacp slot l i pdu = (e'.put slot r).evaluate l := by
  have hi' : (e.count slot fun c => { c with received := c.received + 1 }).interfaces.get? slot =
      some (recount slot (fun c => { c with received := c.received + 1 }) slot i) := by
    rw [get?_count, hi]
    rfl
  have hname : i.name = name := h.interfaces.name_of_find? hfind hi
  unfold Engine.receiveLacp
  simp only [hrunning, endpoint?_count, endpoint?_eq hi hlag hl]
  rw [modifyInterface_eq_put hi']
  simp only [Bool.and_eq_true] at hrunning
  refine ⟨_, _, ⟨hi', hname, hlag, hl, ?_, ?_⟩, rfl⟩
  · exact .record _ pdu hrunning.2
  · exact Receive.fadesTo_record slot i.protocol _ pdu e.timers e.now

/-- A frame in which nobody hears a message is at most counted; what is heard is recorded. -/
theorem Coherent.receiveFrame_cases (name : String) (frame : Frame) :
    (e.Course (· = .receipt) (e.receiveFrame name frame).step ∧ e.hearing? name frame = none) ∨
      ∃ n f l slot lag i r, e.hearing? name frame = some n ∧ n.interface = name ∧
        (e.count slot f).Listens n l slot lag i r ∧
        (e.receiveFrame name frame).step = ((e.count slot f).put slot r).evaluate l := by
  unfold Engine.receiveFrame
  split
  · next hfind => exact .inl ⟨.refl e, by simp [hearing?, hfind]⟩
  · next slot hfind =>
    split
    · next hi => exact .inl ⟨.refl e, by simp [hearing?, hfind, hi]⟩
    · next i hi =>
      split
      · next hframe =>
        rw [Outcome.step_ok]
        exact .inl ⟨h.course_count _ _, by simp [hearing?, hfind, hframe]⟩
      · next hlag =>
        rw [Outcome.step_ok]
        exact .inl ⟨h.course_count _ _, by simp [hearing?, endpoint?, hfind, hi, hlag]⟩
      · next pdu l hframe hlag =>
        rw [Outcome.step_ok]
        obtain ⟨lag, hl, -⟩ := h.lag_of_member hi hlag
        have hhearing : e.hearing? name frame =
            if i.isEnabled && i.protocol.receive.isRunning then
              some ⟨name, pdu, i.endpoint (e.system.resolve lag.settings) lag.key⟩ else none := by
          simp [hearing?, hfind, hi, endpoint?_eq hi hlag hl, hframe]
        cases hrunning : i.isEnabled && i.protocol.receive.isRunning with
        | false =>
          refine .inl ⟨?_, by rw [hhearing, hrunning]; rfl⟩
          unfold Engine.receiveLacp
          rw [hrunning]
          exact h.course_count _ _
        | true =>
          obtain ⟨i', r, hlistens, heq⟩ := h.receiveLacp_listens hfind hi hlag hl hrunning pdu
          refine .inr ⟨_, _, l, slot, lag, i', r, ?_, rfl, hlistens, heq⟩
          rw [hhearing, hrunning]
          rfl
      · next hframe _ =>
        exact .inl ⟨h.course_receiveMarker _, by simp [hearing?, hfind, hframe]⟩

theorem Coherent.operation_receiveFrame (name : String) (frame : Frame) :
    e.Operation Kind.IsHearing (e.receiveFrame name frame).step := by
  have hstable : (e.receiveFrame name frame).step.1.Stable := h.receiveFrame name frame
  obtain ⟨hcounted, -⟩ | ⟨n, f, l, slot, lag, i, r, -, -, hlistens, heq⟩ :=
    h.receiveFrame_cases name frame
  · exact .of_course (hcounted.mono fun _ => .inl)
  · rw [heq] at hstable ⊢
    exact .after ((h.course_count slot f).mono fun _ => .inl)
      ((h.count slot f).operation_evaluate (.inr rfl) hlistens.shift hstable)

/-! ## The clock -/

omit h in
/-- The firing of a timer is a shift of the LAG that owns it. -/
theorem Shift.of_timer {key : TimerKey} (hl : e.lags.get? l = some lag) (howns : e.Owns l key) :
    Shift e .timer (e.timerFired key).1 := by
  obtain rfl | ⟨slot, hkey, i, hi, hlag⟩ := howns
  · rw [timerFired_fallback hl]
    exact .activate hl
  · rw [timerFired_eq hkey hi hlag]
    exact .turn hi hlag hl (.timer key hkey)

omit h in
/-- The timers that are due fire one after the other. -/
theorem Coherent.course_collect {keys : List TimerKey} (h : e.Coherent changed keys)
    (hnodup : keys.Nodup) (hidle : ∀ key ∈ keys, e.timers.deadline? key = none)
    (hchanged : ∀ key ∈ keys, ∀ l, e.Owns l key → changed l) (lags : List Nat) :
    e.Course (· = .timer) ((keys.foldl collect (e, lags)).1, []) := by
  induction keys generalizing e lags with
  | nil => exact .refl e
  | cons key rest ih =>
    obtain ⟨hnot, hnodup⟩ := List.nodup_cons.mp hnodup
    obtain ⟨l, howns, -, hw, hother, hnext⟩ :=
      h.timerFired hnot (hidle key List.mem_cons_self) (hchanged key List.mem_cons_self)
    obtain ⟨k, hlive, howns'⟩ := h.owned key (by rw [due_cons_self]; rfl)
    obtain ⟨lag, hl⟩ := Option.isSome_iff_exists.mp hlive
    have hidle' : ∀ key' ∈ rest, (e.timerFired key).1.timers.deadline? key' = none := by
      intro key' hkey'
      rw [hother key' fun heq => hnot (heq ▸ hkey')]
      exact hidle key' (List.mem_cons_of_mem _ hkey')
    have hchanged' : ∀ key' ∈ rest, ∀ k, (e.timerFired key).1.Owns k key' → changed k := by
      intro key' hkey' k hk
      rw [hw.owns_iff] at hk
      exact hchanged key' (List.mem_cons_of_mem _ hkey') k hk
    have hfired : e.Course (· = .timer) ((e.timerFired key).1, []) :=
      .of_shift h.linked rfl (.of_timer hl howns')
    exact hfired.silent_trans (ih hnext hnodup hidle' hchanged' _)

/-- Time passes, and the timers that are due fire. -/
theorem Coherent.course_timersFired {now : Nat} (hnow : e.now ≤ now) :
    e.Course Kind.IsPassing (((e.later now).timersFired (e.timers.expired now).1).1, []) := by
  have hidle : ∀ key ∈ (e.timers.expired now).1, (e.later now).timers.deadline? key = none := by
    intro key hkey
    obtain ⟨d, hd, hle⟩ := (Timers.mem_expired h.timers _ key).mp hkey
    refine (Timers.deadline?_expired h.timers _ key).trans ?_
    simp [hd, Option.filter, Nat.not_lt.mpr hle]
  have hlater : e.Course Kind.IsPassing (e.later now, []) :=
    .of_shift h.linked (.inl rfl) (.later hnow h.timers)
  have hfired := (h.later hnow).course_collect (Timers.nodup_expired h.timers _) hidle
    (fun key hkey l howns => ⟨key, hkey, howns⟩) []
  exact hlater.silent_trans (hfired.mono fun _ => .inr)

/-- Time passes, the timers that are due fire, and their LAGs are evaluated. -/
theorem Coherent.operation_advanceTo (time : Nat) :
    e.Operation Kind.IsPassing (e.advanceTo time) := by
  have hnow : e.now ≤ max e.now time := Nat.le_max_left _ _
  rw [advanceTo_eq]
  exact ⟨_, _, h.course_timersFired hnow, (h.timersFired hnow).1.evaluations_evaluateAll _, rfl⟩

/-! ## Runs -/

/-- An action forgets an interface, sets a LAG or the clock, receives a frame, or does none of
this. -/
theorem Coherent.act_cases (a : Action) :
    e.Operation Kind.IsClearing (e.act a) ∨ e.Forgets (e.act a) ∨
      (∃ name fields, e.act a = (e.lagSet name fields).step) ∨
      (∃ name frame, a = .event (.frame name frame)) ∨ ∃ time, a = .advanceTo time := by
  cases a with
  | apply table entry =>
    obtain hclearing | hforgets | hset := h.applyEntry_cases table entry
    · exact .inl hclearing
    · exact .inr (.inl hforgets)
    · exact .inr (.inr (.inl ⟨_, _, congrArg Outcome.step hset⟩))
  | event event =>
    cases event with
    | frame name frame => exact .inr (.inr (.inr (.inl ⟨name, frame, rfl⟩)))
    | link name up => exact .inl ((h.operation_setLink name up).mono fun _ => .inl)
  | advanceTo time => exact .inr (.inr (.inr (.inr ⟨time, rfl⟩)))
  | requeue table queue =>
    refine .inl (.of_course (.of_shift h.linked (.inl rfl) (.requeue ?_)))
    cases table <;> rfl
  | requeueEvents queue => exact .inl (.of_course (.of_shift h.linked (.inl rfl) (.requeue rfl)))

theorem Coherent.course_act (a : Action) : e.FreeCourse (e.act a) := by
  obtain hclearing | hforgets | ⟨name, fields, hset⟩ | ⟨name, frame, rfl⟩ | ⟨time, rfl⟩ :=
    h.act_cases a
  · exact hclearing.course.free
  · exact (h.course_of_forgets hforgets).free
  · rw [hset]
    exact (h.operation_lagSet _ _).course.free
  · exact (h.operation_receiveFrame name frame).course.free
  · exact (h.operation_advanceTo time).course.free

theorem Coherent.course_acts (actions : List Action) : e.FreeCourse (e.acts actions) :=
  Course.foldl actions (fun _ a h => h.act a) (fun _ a h => h.course_act a) h

theorem Coherent.course_handle (request : Request) : e.FreeCourse (e.handle request).step := by
  rw [← acts_actions]
  exact h.course_acts _

/-- A run is a course of moves. -/
theorem Coherent.course_run (requests : List Request) : e.FreeCourse (e.run requests) :=
  Course.foldl requests (fun _ request h => h.handle request)
    (fun _ request h => h.course_handle request) h

end

/-! ## Reachable engines -/

section
variable {system : SystemIdentity} {maxMembers : Nat} {connected : Bool} {requests : List Request}

/-- What new interfaces have and every change keeps, all interfaces of a reachable engine have. -/
theorem reached_interfaces {P : Nat → Interface → Prop}
    (hnew : ∀ name slot, P slot (Interface.new name slot))
    (hchange : ∀ (e : Engine) c slot i i', e.Change c slot i i' → P slot i → P slot i')
    (hi : (reached system maxMembers connected requests).interfaces.get? slot = some i) :
    P slot i := by
  have hcourse := (stable_new system maxMembers connected).course_run requests
  refine hcourse.interfaces hnew hchange (fun slot i hi => ?_) slot i hi
  simp at hi

theorem tidy_new : (Engine.new system maxMembers connected).Tidy := by
  intro slot i hi
  simp at hi

theorem tidy_reached : (reached system maxMembers connected requests).Tidy :=
  ((stable_new system maxMembers connected).course_run requests).tidy tidy_new

/-- What new LAGs have and every change keeps, all LAGs of a reachable engine have. -/
theorem reached_lags {Q : Nat → Lag → Prop}
    (hnew : ∀ name key settings l, lagKey name = .ok key → Q l { name, key, settings })
    (hchange : ∀ (e : Engine) l lag lag', e.LagChange l lag lag' → Q l lag → Q l lag')
    (hl : (reached system maxMembers connected requests).lags.get? l = some lag) : Q l lag := by
  have hcourse := (stable_new system maxMembers connected).course_run requests
  refine hcourse.lags hnew hchange (fun l lag hl => ?_) l lag hl
  simp at hl

end

end LinkAggregation.Engine
