import LinkAggregation.Proofs.Engine.Waits
import LinkAggregation.Proofs.Reachable.Advertisement
import Mathlib.Data.List.Induction

/-!
# A silent partner is aged out

A member that hears its partner has accepted a message not longer ago than it waits for one: three
seconds at the fast rate, ninety at the slow one. There is one exception. When its LAG changes
between active and passive mode the wait begins anew, as it has to when the rate changes; then the
bound counts from there.
-/
namespace LinkAggregation.Engine
variable {e : Engine} {s : Step} {l slot : Nat} {lag : Lag} {i : Interface} {w : Wait}

/-! ## What has happened -/

/-- The interface accepts a message in the action. -/
def accepts (name : String) (e : Engine) (a : Action) : Bool :=
  (e.hearings a).any (·.interface == name)

/-- The action gives a LAG another mode or another rate. -/
def renews (l : Nat) (e : Engine) (a : Action) : Bool :=
  match e.lags.get? l, (e.act a).1.lags.get? l with
  | some lag, some lag' => lag.settings.renews lag'.settings
  | _, _ => false

/-- The clock at the actions for which something holds. -/
def times (e : Engine) (happens : Engine → Action → Bool) : List Action → List Nat
  | [] => []
  | a :: rest =>
    (if happens e a then [e.now] else []) ++ (e.act a).1.times happens rest

theorem times_append (e : Engine) (happens : Engine → Action → Bool)
    (first second : List Action) :
    e.times happens (first ++ second) =
      e.times happens first ++ (e.acts first).1.times happens second := by
  induction first generalizing e with
  | nil => rfl
  | cons a rest ih =>
    rw [List.cons_append, times, times, ih, acts_cons, List.append_assoc]
    rfl

theorem times_snoc (e : Engine) (happens : Engine → Action → Bool) (actions : List Action)
    (a : Action) :
    e.times happens (actions ++ [a]) =
      e.times happens actions ++ if happens (e.acts actions).1 a then [(e.acts actions).1.now]
        else [] := by
  rw [times_append, times, times, List.append_nil]

/-! ## What a wait goes back to -/

/-- Every wait goes back to a message, or to a change of the mode or the rate after it. -/
def Remembers (e : Engine) (heard : String → List Nat) (renewed : Nat → List Nat) : Prop :=
  ∀ slot w, e.Awaits slot w → ∃ t ∈ heard w.interface, ∃ r, t ≤ r ∧
    (r = t ∨ r ∈ renewed w.lag) ∧ w.deadline = r + Receive.patience w.rate .current

variable {heard heard' : String → List Nat} {renewed renewed' : Nat → List Nat}

/-- A wait that is carried on goes back to what it went back to. -/
theorem Remembers.wait (h : e.Remembers heard renewed) (hw : e.Awaits slot w)
    (hheard : ∀ name, heard name ⊆ heard' name) (hrenewed : ∀ l, renewed l ⊆ renewed' l) :
    ∃ t ∈ heard' w.interface, ∃ r, t ≤ r ∧ (r = t ∨ r ∈ renewed' w.lag) ∧
      w.deadline = r + Receive.patience w.rate .current := by
  obtain ⟨t, ht, r, hle, hr, hdeadline⟩ := h slot w hw
  exact ⟨t, hheard _ ht, r, hle, hr.imp_right fun hmem => hrenewed _ hmem, hdeadline⟩

/-- Nothing but messages and new settings sets a wait anew. -/
theorem Remembers.course {allowed : Kind → Prop} (h : e.Remembers heard renewed)
    (hc : e.Course allowed s) (hmessage : ¬ allowed .message) (hrevision : ¬ allowed .revision)
    (hheard : ∀ name, heard name ⊆ heard' name) (hrenewed : ∀ l, renewed l ⊆ renewed' l) :
    s.1.Remembers heard' renewed' :=
  fun _ _ hw => h.wait (hc.awaits hmessage hrevision hw) hheard hrenewed

section
variable (h : e.Stable)
include h

/-- The wait of a member that hears its partner. -/
theorem Coherent.awaits (hi : e.interfaces.get? slot = some i) (hlag : i.lag = some l)
    (hl : e.lags.get? l = some lag) (hcurrent : i.protocol.receive = .current) :
    ∃ d, e.Awaits slot ⟨i.name, l, lag.settings.rate, d⟩ ∧ e.now < d ∧
      d ≤ e.now + Receive.patience lag.settings.rate .current := by
  have htimed := (h.sound_member hi hlag hl).timed
  have harmed : (e.timers.deadline? (.currentWhile slot)).isSome = true := by
    rw [htimed.heard, hcurrent]
    rfl
  obtain ⟨d, hd⟩ := Option.isSome_iff_exists.mp harmed
  have hbound := htimed.patience d hd
  rw [hcurrent] at hbound
  exact ⟨d, ⟨⟨i, hi, rfl, hlag, hcurrent⟩, ⟨lag, hl, rfl⟩, hd⟩, hbound⟩

variable (hr : e.Remembers heard renewed) (hheard : ∀ name, heard name ⊆ heard' name)
  (hrenewed : ∀ l, renewed l ⊆ renewed' l)
include hr hheard hrenewed

/-- The wait of a member that accepts a message goes back to it. -/
theorem Coherent.remembers_receiveFrame (name : String) (frame : Frame)
    (hnow : ∀ n, e.hearing? name frame = some n → e.now ∈ heard' n.interface) :
    (e.receiveFrame name frame).engine.Remembers heard' renewed' := by
  obtain ⟨hcalm, -⟩ | ⟨n, f, l, slot, lag, i, r, hn, hname, hlistens, heq⟩ :=
    h.receiveFrame_cases name frame
  · exact hr.course hcalm (by simp) (by simp) hheard hrenewed
  · have hstable : (e.receiveFrame name frame).step.1.Stable := h.receiveFrame name frame
    have hcounted := h.count slot f
    intro slot' w hw
    change (e.receiveFrame name frame).step.1.Awaits slot' w at hw
    rw [heq] at hw hstable
    have hrunning : i.protocol.receive.isRunning = true := by
      cases hlistens.turn with
      | record own pdu hrunning => exact hrunning
    have htruthful := (hcounted.sound_member hlistens.known hlistens.member
      hlistens.live).truthful.settings hrunning
    obtain hold | ⟨hwname, hdeadline⟩ := (hw.of_evaluate hstable.linked.of_evaluate).of_message
      hlistens.known hlistens.member hlistens.live hlistens.turn htruthful
    · exact hr.wait ((h.course_count slot f).awaits (by simp) (by simp) hold) hheard hrenewed
    · refine ⟨e.now, ?_, e.now, Nat.le_refl _, .inl rfl, hdeadline⟩
      rw [hwname, hlistens.name]
      exact hnow n hn

/-- The wait of a member whose LAG changes the mode or the rate goes back to the change. -/
theorem Coherent.remembers_lagSet (name : String) (fields : List Field)
    (hnow : ∀ l lag lag', e.lags.get? l = some lag →
      (e.lagSet name fields).engine.lags.get? l = some lag' →
        lag.settings.renews lag'.settings = true → e.now ∈ renewed' l) :
    (e.lagSet name fields).engine.Remembers heard' renewed' := by
  have hstable : (e.lagSet name fields).step.1.Stable := h.lagSet name fields
  obtain heq | ⟨e', l, hshift, heq⟩ | ⟨l, lag, new, f, step, hl, hrevision, -, heq⟩ :=
    h.lagSet_cases name fields
  · have hidle : e.Course (· = .founding) (e.lagSet name fields).step := heq ▸ .refl e
    exact hr.course hidle (by simp) (by simp) hheard hrenewed
  · rw [heq] at hstable
    have hfounding : e.Operation (· = .founding) (e.lagSet name fields).step :=
      heq ▸ h.operation_evaluate rfl hshift hstable
    exact hr.course hfounding.course (by simp) (by simp) hheard hrenewed
  · change ∀ l lag lag', _ → (e.lagSet name fields).step.1.lags.get? l = some lag' → _ at hnow
    intro slot w hw
    change (e.lagSet name fields).step.1.Awaits slot w at hw
    rw [heq] at hw hstable hnow
    obtain hold | ⟨hlag, hrenews, hdeadline, i, hi, hname, hmember, hcurrent⟩ :=
      (hw.of_evaluate hstable.linked.of_evaluate).of_revised h hl hrevision
    · exact hr.wait hold hheard hrenewed
    · obtain ⟨d, hawaits, hlt, hle⟩ := h.awaits hi hmember hl hcurrent
      obtain ⟨t, ht, r, htr, -, hd⟩ := hr slot _ hawaits
      have hbefore : d = r + Receive.patience lag.settings.rate .current := hd
      obtain ⟨lag', hl', hsettings⟩ := (hrevision.revised h.linked hl).settings_evaluate hl
      have hmem := hnow l lag lag' hl hl' (hsettings ▸ hrenews)
      exact ⟨t, hheard _ (hname ▸ ht), e.now, by omega, .inr (hlag ▸ hmem), hdeadline⟩

end

/-- Every action keeps it so. -/
theorem Coherent.remembers_act (h : e.Stable) (hr : e.Remembers heard renewed) (a : Action) :
    (e.act a).1.Remembers
      (fun name => heard name ++ if accepts name e a then [e.now] else [])
      (fun l => renewed l ++ if renews l e a then [e.now] else []) := by
  have hheard : ∀ name, heard name ⊆ heard name ++ if accepts name e a then [e.now] else [] :=
    fun name => List.subset_append_left _ _
  have hrenewed : ∀ l, renewed l ⊆ renewed l ++ if renews l e a then [e.now] else [] :=
    fun l => List.subset_append_left _ _
  obtain hclearing | hforgets | ⟨name, fields, hset⟩ | ⟨name, frame, rfl⟩ | ⟨time, rfl⟩ :=
    h.act_cases a
  · exact hr.course hclearing.course (by simp [Kind.IsClearing]) (by simp [Kind.IsClearing]) hheard
      hrenewed
  · exact hr.course (h.course_of_forgets hforgets) (by simp) (by simp) hheard hrenewed
  · have hstep := h.remembers_lagSet hr hheard hrenewed name fields fun l lag lag' hl hl' hnew => ?_
    · rw [hset]
      exact hstep
    · have hrenews : renews l e a = true := by
        have hlive : (e.lagSet name fields).step.1.lags.get? l = some lag' := hl'
        simp only [renews, hl, hset, hlive]
        exact hnew
      simp [hrenews]
  · refine h.remembers_receiveFrame hr hheard hrenewed name frame fun n hn => ?_
    have haccepts : accepts n.interface e (.event (.frame name frame)) = true := by
      simp [accepts, hearings, hn]
    simp [haccepts]
  · exact hr.course (h.operation_advanceTo time).course (by simp [Kind.IsPassing])
      (by simp [Kind.IsPassing]) hheard hrenewed

/-- So does a run of actions. -/
theorem Coherent.remembers_acts (h : e.Stable) (hbegin : ∀ slot w, ¬ e.Awaits slot w)
    (actions : List Action) :
    (e.acts actions).1.Remembers (fun name => e.times (accepts name) actions)
      (fun l => e.times (renews l) actions) := by
  induction actions using List.reverseRecOn with
  | nil => exact fun slot w hw => absurd hw (hbegin slot w)
  | append_singleton actions a ih =>
    simp only [times_snoc, acts_append, acts_singleton]
    exact (h.acts actions).remembers_act ih a

/-! ## Reachable engines -/

/-- Every member that hears its partner has accepted a message within its patience, or its LAG has
changed the mode or the rate since and within its patience. -/
def Patient (e : Engine) (heard : String → List Nat) (renewed : Nat → List Nat) : Prop :=
  ∀ slot i l lag, e.interfaces.get? slot = some i → i.lag = some l → e.lags.get? l = some lag →
    i.protocol.receive = .current → ∃ t ∈ heard i.name,
      e.now < t + Receive.patience lag.settings.rate .current ∨
        ∃ r ∈ renewed l, t ≤ r ∧ e.now < r + Receive.patience lag.settings.rate .current

theorem Coherent.patient (h : e.Stable) (hr : e.Remembers heard renewed) :
    e.Patient heard renewed := by
  intro slot i l lag hi hlag hl hcurrent
  obtain ⟨d, hawaits, hlt, -⟩ := h.awaits hi hlag hl hcurrent
  obtain ⟨t, ht, r, hle, hr, hd⟩ := hr slot _ hawaits
  have hwait : d = r + Receive.patience lag.settings.rate .current := hd
  rw [hwait] at hlt
  refine ⟨t, ht, ?_⟩
  obtain rfl | hr := hr
  · exact .inl hlt
  · exact .inr ⟨r, hr, hle, hlt⟩

/-- Whatever has been asked of an engine, a silent partner is aged out, and only a LAG that changes
the mode or the rate puts it off. -/
theorem patient_reached (system : SystemIdentity) (maxMembers : Nat) (connected : Bool)
    (requests : List Request) :
    let begin := Engine.new system maxMembers connected
    let actions := begin.runActions requests
    (reached system maxMembers connected requests).Patient
      (fun name => begin.times (accepts name) actions)
      (fun l => begin.times (renews l) actions) := by
  intro begin actions
  have hremembers := (stable_new system maxMembers connected).remembers_acts
    (fun slot w hw => by obtain ⟨i, hi, -⟩ := hw.member; simp at hi) actions
  rw [acts_runActions] at hremembers
  exact (stable_reached system maxMembers connected requests).patient hremembers

/-- One message comes, and a minute later the LAG changes to passive mode. -/
def heardOnce : List Request :=
  let hello : Frame := Frame.encodeLacp
    { actor := ⟨⟨1, .zero⟩, 7, ⟨1, 1⟩, { activity := true, aggregation := true, sync := true }⟩
      partner := ⟨⟨65534, .zero⟩, 1, ⟨1, 1⟩, { activity := true, aggregation := true }⟩ } .zero
  [.apply .lag ⟨"PortChannel1", .set, []⟩, .apply .member ⟨"PortChannel1|Ethernet0", .set, []⟩,
    .apply .port ⟨"Ethernet0", .set, [("admin_status", "up"), ("oper_status", "up")]⟩,
    .receiveFrame "Ethernet0" hello, .advanceTo 60000,
    .apply .lag ⟨"PortChannel1", .set, [("lacp_mode", "passive")]⟩, .advanceTo 90000]

/-- The LAG never leaves the slow rate, and its member still hears its partner after ninety
seconds. -/
theorem overdue_heardOnce :
    let begin := Engine.new {} 8 true
    let e := reached {} 8 true heardOnce
    (∀ n ≤ 7, ((reached {} 8 true (heardOnce.take n)).lags.get? 0).all
      (·.settings.rate = .slow) = true) ∧
    (e.interfaces.get? 0).map (fun i => (i.name, i.lag, i.protocol.receive)) =
      some ("Ethernet0", some 0, .current) ∧
    ∀ t ∈ begin.times (accepts "Ethernet0") (begin.runActions heardOnce),
      ¬ e.now < t + Receive.patience .slow .current := by
  decide +kernel

/-- The bound counts from the change of the mode. -/
theorem patient_heardOnce :
    let begin := Engine.new {} 8 true
    let e := reached {} 8 true heardOnce
    ∃ i lag, e.interfaces.get? 0 = some i ∧ i.lag = some 0 ∧ e.lags.get? 0 = some lag ∧
      i.protocol.receive = .current ∧
      ∃ t ∈ begin.times (accepts i.name) (begin.runActions heardOnce),
        e.now < t + Receive.patience lag.settings.rate .current ∨
          ∃ r ∈ begin.times (renews 0) (begin.runActions heardOnce),
            t ≤ r ∧ e.now < r + Receive.patience lag.settings.rate .current := by
  intro begin e
  have hmember : (e.interfaces.get? 0).map (fun i => (i.lag, i.protocol.receive)) =
      some (some 0, .current) := by decide +kernel
  have hlive : (e.lags.get? 0).isSome = true := by decide +kernel
  obtain ⟨i, hi, hview⟩ := Option.map_eq_some_iff.mp hmember
  obtain ⟨lag, hl⟩ := Option.isSome_iff_exists.mp hlive
  obtain ⟨hlag, hcurrent⟩ := Prod.mk.inj hview
  exact ⟨i, lag, hi, hlag, hl, hcurrent, patient_reached {} 8 true heardOnce 0 i 0 lag hi hlag hl
    hcurrent⟩

end LinkAggregation.Engine
