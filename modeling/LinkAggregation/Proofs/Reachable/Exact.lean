import LinkAggregation.Proofs.Engine.Stages
import LinkAggregation.Proofs.Reachable.Advertisement
import LinkAggregation.Proofs.Reachable.ClockRange

/-!
# Runs in range do not depend on the clock

As long as the clock is never set beyond the last value, every operation does what it does with
exact sums. So what is true of exact runs is true of all such runs, however the engine adds.
-/
namespace LinkAggregation.Engine
variable {e e' : Engine} {l slot : Nat} {name : String}

/-- What the clock is set to in range is so by the first step and by those that follow. -/
theorem clock_cons {α : Type} {set : Nat → α} {a : α} {rest : List α}
    (h : ∀ time, set time ∈ a :: rest → time ≤ lastClock) :
    (∀ time, a = set time → time ≤ lastClock) ∧ ∀ time, set time ∈ rest → time ≤ lastClock :=
  ⟨fun time heq => h time (heq ▸ List.mem_cons_self),
    fun time hmem => h time (List.mem_cons_of_mem a hmem)⟩

theorem clock_actions (e : Engine) {request : Request}
    (h : ∀ time, request = .advanceTo time → time ≤ lastClock) :
    ∀ time, Action.advanceTo time ∈ e.actions request → time ≤ lastClock :=
  fun time hmem => h time (advanceTo_mem_actions hmem)

/-- Pending entries never set the clock. -/
theorem clock_tablesActions (e : Engine) (tables : List Table) :
    ∀ time, Action.advanceTo time ∈ e.tablesActions tables → time ≤ lastClock :=
  fun _ hmem => nomatch isConfiguration_of_mem_tablesActions hmem

/-! ## Engines that form no sum out of range -/

/-- Whatever the engine adds now fits. -/
structure Fits (e : Engine) : Prop where
  begun : e.Begun
  limited : e.Limited
  now : e.now ≤ lastClock

theorem fits_new (system : SystemIdentity) (maxMembers : Nat) (connected : Bool) :
    (Engine.new system maxMembers connected).Fits where
  begun := fun slot i hi => by simp at hi
  limited := fun l lag hl => by simp at hl
  now := Nat.zero_le _

namespace Fits

theorem window_le (hf : e.Fits) {i : Interface} (hi : e.interfaces.get? slot = some i) :
    i.window.start ≤ lastClock :=
  Nat.le_trans (hf.begun slot i hi).begun hf.now

theorem fallback_le (hf : e.Fits) {lag : Lag} (hl : e.lags.get? l = some lag) :
    e.now + lag.settings.fallbackTimeoutMs ≤ lastTime :=
  sum_le_lastTime hf.now (Nat.mul_le_mul_right 1000 (hf.limited l lag hl))

/-- Interfaces keep their windows, or are new. -/
theorem of_windows (hf : e.Fits) (hnow : e'.now = e.now) (hlags : e'.lags = e.lags)
    (hwindow : ∀ slot i', e'.interfaces.get? slot = some i' →
      i'.window = {} ∨ ∃ i, e.interfaces.get? slot = some i ∧ i'.window = i.window) :
    e'.Fits where
  begun := by
    intro slot i' hi'
    rw [hnow]
    obtain hnew | ⟨i, hi, hsame⟩ := hwindow slot i' hi'
    · rw [hnew]
      exact current_unknown _
    · rw [hsame]
      exact hf.begun slot i hi
  limited := by
    intro l lag hl
    rw [hlags] at hl
    exact hf.limited l lag hl
  now := hnow ▸ hf.now

theorem of_modify (hf : e.Fits) {f : Interface → Interface} (hnow : e'.now = e.now)
    (hlags : e'.lags = e.lags) (hinterfaces : e'.interfaces = e.interfaces.modify slot f)
    (hwindow : ∀ i, (f i).window = i.window) : e'.Fits := by
  refine hf.of_windows hnow hlags fun slot' i' hi' => .inr ?_
  rw [hinterfaces, Arena.get?_modify] at hi'
  split at hi'
  · obtain ⟨i, hi, rfl⟩ := Option.map_eq_some_iff.mp hi'
    exact ⟨i, hi, hwindow i⟩
  · exact ⟨i', hi', rfl⟩

/-- A LAG gets other settings, which keep to the limit. -/
theorem of_lags (hf : e.Fits) (hnow : e'.now = e.now) (hinterfaces : e'.interfaces = e.interfaces)
    (hlimited : e'.Limited) : e'.Fits where
  begun := by
    intro slot i hi
    rw [hinterfaces] at hi
    exact hnow ▸ hf.begun slot i hi
  limited := hlimited
  now := hnow ▸ hf.now

theorem modifyLag (hf : e.Fits) {f : Lag → Lag}
    (hlimit : ∀ lag, lag.settings.fallbackTimeout ≤ maxFallbackTimeout →
      (f lag).settings.fallbackTimeout ≤ maxFallbackTimeout) : (e.modifyLag l f).Fits := by
  refine hf.of_lags rfl rfl fun k lag' hk => ?_
  simp only [Engine.modifyLag, Arena.get?_modify] at hk
  split at hk
  · obtain ⟨lag, hlag, rfl⟩ := Option.map_eq_some_iff.mp hk
    exact hlimit lag (hf.limited k lag hlag)
  · exact hf.limited k lag' hk

theorem insertLag (hf : e.Fits) {lag : Lag}
    (hlimit : lag.settings.fallbackTimeout ≤ maxFallbackTimeout) :
    Fits { e with lags := e.lags.insert name lag } := by
  refine hf.of_lags rfl rfl fun k lag' hk => ?_
  by_cases hslot : k = e.lags.freeSlot
  · rw [hslot, Arena.get?_insert_freeSlot] at hk
    exact Option.some.inj hk ▸ hlimit
  · rw [Arena.get?_insert_of_ne _ _ hslot] at hk
    exact hf.limited k lag' hk

theorem ensureInterface (hf : e.Fits) (name : String) : (e.ensureInterface name).1.Fits := by
  unfold Engine.ensureInterface
  split
  · exact hf
  · refine hf.of_windows rfl rfl fun slot i' hi' => ?_
    by_cases hslot : slot = e.interfaces.freeSlot
    · rw [hslot, Arena.get?_insert_freeSlot] at hi'
      exact .inl (Option.some.inj hi' ▸ rfl)
    · rw [Arena.get?_insert_of_ne _ _ hslot] at hi'
      exact .inr ⟨i', hi', rfl⟩

theorem told (hf : e.Fits) (system : SystemIdentity) : (e.told system).Fits := by
  refine hf.of_windows rfl rfl fun slot i' hi' => .inr ?_
  obtain ⟨i, hi, rfl⟩ := Option.map_eq_some_iff.mp ((Arena.get?_map _ _ _).symm.trans hi')
  exact ⟨i, hi, tell_keeps Interface.window (fun _ _ => rfl) i⟩

theorem count (hf : e.Fits) (slot : Nat) (f : Counters → Counters) : (e.count slot f).Fits :=
  hf.of_modify rfl rfl rfl fun _ => rfl

theorem syncReceive (hf : e.Fits) (slot : Nat) : (@syncReceive .exact e slot).Fits := by
  have hput : ∀ r : Protocol × Timers,
      Fits { e.modifyInterface slot (fun i => { i with protocol := r.1 }) with timers := r.2 } :=
    fun r => hf.of_modify rfl rfl rfl fun _ => rfl
  unfold Engine.syncReceive
  split
  · exact hf
  · split
    · exact hf
    · dsimp only
      repeat' split
      all_goals first | exact hf | exact hput _

theorem restartMember (hf : e.Fits) (slot : Nat) : (@restartMember .exact e slot).Fits := by
  refine Fits.syncReceive ?_ slot
  exact hf.of_modify rfl rfl rfl fun _ => rfl

theorem updateMember (hf : e.Fits) (old new : LagSettings) (slot : Nat) :
    (@updateMember .exact old new e slot).Fits := by
  unfold Engine.updateMember
  dsimp only
  split
  · exact hf
  · split
    · exact hf
    · exact hf.of_modify rfl rfl rfl fun _ => rfl

theorem detachMember (hf : e.Fits) (l slot : Nat) : (e.detachMember l slot).1.Fits := by
  have hremoved := hf.modifyLag (l := l) (f := (·.removeMember slot)) fun _ => id
  unfold Engine.detachMember
  dsimp only
  split
  · exact ⟨hremoved.begun, hremoved.limited, hremoved.now⟩
  · exact hremoved.of_modify rfl rfl rfl fun _ => rfl

/-- An evaluation begins new windows now. -/
theorem evaluate (hf : e.Fits) (h : e.Linked) (l : Nat) : (@evaluate .exact e l).1.Fits where
  begun := (Move.evaluate l).begun h hf.begun
  limited := limited_of_setup (setup_evaluate e l).symm hf.limited
  now := now_evaluate e l ▸ hf.now

theorem act (hf : e.Fits) (h : e.Stable) {a : Action}
    (ha : ∀ time, a = .advanceTo time → time ≤ lastClock) : (@act .exact e a).1.Fits where
  begun := (h.course_act a).begun hf.begun
  limited := (h.act a).limited
  now := by
    rw [h.now_act a]
    split
    · next time => exact Nat.max_le.mpr ⟨hf.now, ha time rfl⟩
    · exact hf.now

theorem acts (hf : e.Fits) (h : e.Stable) {actions : List Action}
    (hactions : ∀ time, Action.advanceTo time ∈ actions → time ≤ lastClock) :
    (@acts .exact e actions).1.Fits := by
  induction actions generalizing e with
  | nil => exact hf
  | cons a rest ih =>
    obtain ⟨ha, hrest⟩ := clock_cons hactions
    rw [acts_cons]
    exact ih (hf.act h ha) (h.act a) hrest

theorem withQueue (hf : e.Fits) (queue : Queue Entry) (table : Table) :
    (e.withQueue queue table).Fits := by
  cases table <;> exact ⟨hf.begun, hf.limited, hf.now⟩

theorem applyEntry (hf : e.Fits) (h : e.Stable) (table : Table) (entry : Entry) :
    (@applyEntry .exact e table entry).engine.Fits :=
  hf.act (a := .apply table entry) h nofun

theorem workTable (hf : e.Fits) (h : e.Stable) (table : Table) :
    (@workTable .exact e table).1.Fits := by
  have hacts := hf.acts h (clock_tablesActions e [table])
  rw [acts_tablesActions] at hacts
  exact hacts

end Fits

/-- What is exact at one member, and keeps the sums in range, is exact at several members. -/
theorem foldl_exact {f g : Engine → Nat → Engine}
    (hfg : ∀ e slot, Fits e → f e slot = g e slot ∧ (g e slot).Fits) (hf : e.Fits)
    (slots : List Nat) : slots.foldl f e = slots.foldl g e ∧ (slots.foldl g e).Fits := by
  induction slots generalizing e with
  | nil => exact ⟨rfl, hf⟩
  | cons slot rest ih =>
    obtain ⟨hsame, hfits⟩ := hfg e slot hf
    rw [List.foldl_cons, List.foldl_cons, hsame]
    exact ih hfits

variable [Clock]

/-! ## Evaluations -/

theorem evaluate_exact (hf : e.Fits) (l : Nat) : e.evaluate l = @evaluate .exact e l := by
  unfold Engine.evaluate
  cases hl : e.lags.get? l with
  | none => rfl
  | some lag =>
    have hsum : e.now + lag.settings.fallbackSettings.timeout ≤ lastTime := hf.fallback_le hl
    dsimp only
    rw [Fallback.evaluate_exact hsum, Evaluation.members_exact hf.now]
    intro m hm
    obtain ⟨⟨slot, i⟩, hmember, rfl⟩ := List.mem_map.mp hm
    dsimp only
    rw [Interface.withGrant_keeps Interface.window fun _ _ _ => rfl]
    exact hf.window_le (mem_members.mp hmember).2

theorem evaluateAll_exact (hf : e.Fits) (h : e.Linked) (slots : List Nat) :
    e.evaluateAll slots = @evaluateAll .exact e slots := by
  induction slots generalizing e with
  | nil => simp only [evaluateAll, List.foldl_nil]
  | cons l rest ih =>
    have hrest := ih (hf.evaluate h l) (h.evaluate l)
    rw [evaluateAll_cons, evaluate_exact hf, @evaluateAll_cons e .exact l rest]
    simp only [Step.next, hrest]

/-! ## Configuration -/

theorem syncReceive_exact (hnow : e.now ≤ lastClock) (slot : Nat) :
    e.syncReceive slot = @syncReceive .exact e slot := by
  simp only [syncReceive, Receive.enable_exact hnow]

theorem changeSystem_exact (hf : e.Fits) (h : e.Stable) (system : SystemIdentity) :
    e.changeSystem system = @changeSystem .exact e system := by
  have htold := evaluateAll_exact (hf.told system) (h.told system).linked
  have hset : e.setSystem system = @setSystem .exact e system := htold _
  simp only [changeSystem, hset]

theorem restartMember_exact (hnow : e.now ≤ lastClock) (slot : Nat) :
    e.restartMember slot = @restartMember .exact e slot := by
  unfold restartMember
  rw [syncReceive_exact]
  exact hnow

theorem updateMember_exact (hnow : e.now ≤ lastClock) (old new : LagSettings) (slot : Nat) :
    e.updateMember old new slot = @updateMember .exact old new e slot := by
  simp only [updateMember, Receive.rateChanged_exact hnow]

theorem changeLag_exact (hf : e.Fits) (l : Nat) (lag : Lag) {settings : LagSettings}
    (hlimit : settings.fallbackTimeout ≤ maxFallbackTimeout) :
    e.changeLag l lag settings = @changeLag .exact e l lag settings := by
  have hset : (e.modifyLag l fun lag => { lag with settings }).Fits :=
    hf.modifyLag fun _ _ => hlimit
  obtain ⟨hrestart, hrestarted⟩ := foldl_exact
    (fun e slot hf => ⟨restartMember_exact hf.now slot, hf.restartMember slot⟩) hset lag.members
  obtain ⟨hupdate, hupdated⟩ := foldl_exact
    (fun e slot hf => ⟨updateMember_exact hf.now lag.settings settings slot,
      hf.updateMember lag.settings settings slot⟩) hset lag.members
  unfold changeLag
  dsimp only
  rw [hrestart, hupdate]
  refine evaluate_exact ?_ l
  split
  · exact hrestarted
  · split
    · exact hupdated
    · exact hset

theorem lagSet_exact (hf : e.Fits) (name : String) (fields : List Field) :
    e.lagSet name fields = @lagSet .exact e name fields := by
  unfold lagSet
  cases lagKey name with
  | error => rfl
  | ok key =>
    dsimp only
    cases e.lags.find? name with
    | none =>
      dsimp only
      cases hfields : ({} : LagSettings).withFields fields with
      | error => rfl
      | ok settings =>
        have hlimit := LagSettings.timeout_le_of_withFields (by decide) hfields
        dsimp only [createLag]
        rw [evaluate_exact (hf.insertLag hlimit)]
    | some l =>
      dsimp only
      cases hl : e.lags.get? l with
      | none => rfl
      | some lag =>
        dsimp only
        cases hfields : lag.settings.withFields fields with
        | error => rfl
        | ok settings =>
          have hlimit := LagSettings.timeout_le_of_withFields (hf.limited l lag hl) hfields
          dsimp only
          rw [changeLag_exact hf l lag hlimit]

theorem attachMember_exact (hf : e.Fits) (l slot : Nat) (settings : MemberSettings) :
    e.attachMember l slot settings = @attachMember .exact e l slot settings := by
  have hreset : (e.modifyInterface slot fun i => { i.reset with settings, lag := some l }).Fits :=
    hf.of_modify rfl rfl rfl fun _ => rfl
  have hadded := hreset.modifyLag (l := l) (f := (·.addMember slot)) fun _ => id
  simp only [attachMember, syncReceive_exact hadded.now, evaluate_exact (hadded.syncReceive slot)]

theorem changeMember_exact (hf : e.Fits) (l slot : Nat) (settings : MemberSettings) :
    e.changeMember l slot settings = @changeMember .exact e l slot settings := by
  have hchanged : (e.modifyInterface slot fun i =>
      { i with settings, protocol := { i.protocol with needToTransmit := true } }).Fits :=
    hf.of_modify rfl rfl rfl fun _ => rfl
  simp only [changeMember, evaluate_exact hchanged]

theorem memberSet_exact (hf : e.Fits) (key : String) (fields : List Field) :
    e.memberSet key fields = @memberSet .exact e key fields := by
  simp only [memberSet, attachMember_exact (hf.ensureInterface _),
    changeMember_exact (hf.ensureInterface _)]

theorem memberDel_exact (hf : e.Fits) (key : String) :
    e.memberDel key = @memberDel .exact e key := by
  simp only [memberDel, Step.next, evaluate_exact (hf.detachMember _ _)]

theorem updatePort_exact (hf : e.Fits) (slot : Nat) (status : PortStatus) :
    e.updatePort slot status = @updatePort .exact e slot status := by
  have hreported : (e.modifyInterface slot fun i => { i with port := status }).Fits :=
    hf.of_modify rfl rfl rfl fun _ => rfl
  simp only [updatePort, syncReceive_exact hreported.now,
    evaluate_exact (hreported.syncReceive slot)]

theorem applyEntry_exact (hf : e.Fits) (h : e.Stable) (table : Table) (entry : Entry) :
    e.applyEntry table entry = @applyEntry .exact e table entry := by
  simp only [applyEntry, systemSet, systemDel, changeSystem_exact hf h, lagSet_exact hf,
    memberSet_exact hf, memberDel_exact hf, portSet, updatePort_exact (hf.ensureInterface _),
    portDel, updatePort_exact hf]

/-! ## Events -/

theorem setLink_exact (hf : e.Fits) (name : String) (up : Bool) :
    e.setLink name up = @setLink .exact e name up := by
  simp only [setLink, updatePort_exact (hf.ensureInterface name)]

theorem receiveLacp_exact (hf : e.Fits) (slot l : Nat) (i : Interface) (pdu : Lacpdu) :
    e.receiveLacp slot l i pdu = @receiveLacp .exact e slot l i pdu := by
  have hcounted := hf.count slot fun c => { c with received := c.received + 1 }
  have hrecorded : ∀ r : Protocol × Timers, Fits { (e.count slot fun c =>
      { c with received := c.received + 1 }).modifyInterface slot
        (fun i => { i with protocol := r.1 }) with timers := r.2 } :=
    fun r => hcounted.of_modify rfl rfl rfl fun _ => rfl
  unfold receiveLacp
  split
  · rfl
  · dsimp only
    split
    · rfl
    · rw [Receive.record_exact hcounted.now]
      exact evaluate_exact (hrecorded (_, _)) l

theorem receiveFrame_exact (hf : e.Fits) (name : String) (frame : Frame) :
    e.receiveFrame name frame = @receiveFrame .exact e name frame := by
  simp only [receiveFrame, receiveLacp_exact hf]

theorem applyEvent_exact (hf : e.Fits) (event : Event) :
    e.applyEvent event = @applyEvent .exact e event := by
  cases event with
  | frame name frame => simp only [applyEvent, receiveFrame_exact hf]
  | link name up => simp only [applyEvent, setLink_exact hf]

/-! ## The clock -/

theorem timerFired_exact (hnow : e.now ≤ lastClock) (key : TimerKey) :
    e.timerFired key = @timerFired .exact e key := by
  cases key <;> simp only [timerFired, Interface.timerFired_exact hnow]

theorem foldl_collect_exact (hnow : e.now ≤ lastClock) (keys : List TimerKey) (lags : List Nat) :
    keys.foldl collect (e, lags) = keys.foldl (@collect .exact) (e, lags) := by
  induction keys generalizing e lags with
  | nil => simp only [List.foldl_nil]
  | cons key rest ih =>
    have hfired : (@timerFired .exact e key).1.now ≤ lastClock := now_timerFired (e := e) key ▸ hnow
    simp only [List.foldl_cons]
    rw [show collect (e, lags) key = @collect .exact (e, lags) key by
      simp only [collect, timerFired_exact hnow]]
    exact ih hfired _

theorem advanceTo_exact (hf : e.Fits) (h : e.Stable) {time : Nat} (htime : time ≤ lastClock) :
    e.advanceTo time = @advanceTo .exact e time := by
  have hnow : e.now ≤ max e.now time := Nat.le_max_left _ _
  have hlast : (e.later (max e.now time)).now ≤ lastClock := Nat.max_le.mpr ⟨hf.now, htime⟩
  have hcoherent := (h.timersFired hnow).1
  have hfired : Fits ((@timersFired .exact (e.later (max e.now time))
      (e.timers.expired (max e.now time)).1).1) := by
    refine ⟨(h.course_timersFired hnow).begun hf.begun, hcoherent.limited, ?_⟩
    rw [@timersFired_eq _ .exact, now_foldl_collect]
    exact hlast
  rw [advanceTo_eq, @advanceTo_eq e .exact, timersFired_eq, foldl_collect_exact hlast,
    ← @timersFired_eq _ .exact]
  exact evaluateAll_exact hfired hcoherent.linked _

/-! ## Actions -/

theorem act_exact (hf : e.Fits) (h : e.Stable) {a : Action}
    (ha : ∀ time, a = .advanceTo time → time ≤ lastClock) : e.act a = @act .exact e a := by
  cases a with
  | apply table entry => simp only [act, applyEntry_exact hf h]
  | event event => simp only [act, applyEvent_exact hf]
  | advanceTo time => simp only [act, advanceTo_exact hf h (ha time rfl)]
  | requeue table queue => rfl
  | requeueEvents queue => rfl

section
variable {actions : List Action}
  (hactions : ∀ time, Action.advanceTo time ∈ actions → time ≤ lastClock)
include hactions

theorem acts_exact (hf : e.Fits) (h : e.Stable) : e.acts actions = @acts .exact e actions := by
  induction actions generalizing e with
  | nil => simp only [acts_nil]
  | cons a rest ih =>
    obtain ⟨ha, hrest⟩ := clock_cons hactions
    rw [acts_cons, @acts_cons .exact e a rest, act_exact hf h ha]
    simp only [Step.next, ih hrest (hf.act h ha) (h.act a)]

theorem stage_exact (hf : e.Fits) (h : e.Stable) (n : Nat) :
    e.stage actions n = @stage .exact e actions n := by
  have htaken : ∀ time, Action.advanceTo time ∈ actions.take n → time ≤ lastClock :=
    fun time hmem => hactions time (List.mem_of_mem_take hmem)
  simp only [stage, acts_exact htaken hf h]

end

/-! ## Requests -/

theorem applyEntries_exact (hf : e.Fits) (h : e.Stable) (table : Table)
    (waiting entries : List Entry) :
    applyEntries table e waiting entries = @applyEntries .exact table e waiting entries := by
  induction entries generalizing e waiting with
  | nil => simp only [applyEntries]
  | cons entry later ih =>
    have happlied := fun waiting =>
      ih (hf.applyEntry h table entry) (h.applyEntry table entry) waiting
    simp only [applyEntries, applyEntry_exact hf h, ih hf h, happlied]

theorem entryActions_exact (hf : e.Fits) (h : e.Stable) (table : Table)
    (waiting entries : List Entry) :
    entryActions table e waiting entries = @entryActions .exact table e waiting entries := by
  induction entries generalizing e waiting with
  | nil => simp only [entryActions]
  | cons entry later ih =>
    have happlied := fun waiting =>
      ih (hf.applyEntry h table entry) (h.applyEntry table entry) waiting
    simp only [entryActions, applyEntry_exact hf h, ih hf h, happlied]

theorem workTable_exact (hf : e.Fits) (h : e.Stable) (table : Table) :
    e.workTable table = @workTable .exact e table := by
  have hdrained := applyEntries_exact (hf.withQueue (e.queue table).drain.2 table)
    (h.withQueue _ table) table
  simp only [workTable, hdrained]

theorem tablesActions_exact (hf : e.Fits) (h : e.Stable) (tables : List Table) :
    e.tablesActions tables = @tablesActions .exact e tables := by
  induction tables generalizing e with
  | nil => simp only [tablesActions]
  | cons table rest ih =>
    have hdrained := entryActions_exact (hf.withQueue (e.queue table).drain.2 table)
      (h.withQueue _ table) table
    simp only [tablesActions, tableActions, hdrained, workTable_exact hf h,
      ih (hf.workTable h table) (h.workTable table)]

theorem actions_exact (hf : e.Fits) (h : e.Stable) (request : Request) :
    e.actions request = @actions .exact e request := by
  cases request with
  | work =>
    simp only [actions, tablesActions_exact hf h, acts_exact (clock_tablesActions e Table.all) hf h]
  | _ => simp only [actions]

section
variable (hf : e.Fits) (h : e.Stable) (request : Request)
  (hrequest : ∀ time, request = .advanceTo time → time ≤ lastClock)
include hf h hrequest

theorem handle_exact : (e.handle request).step = (@handle .exact e request).step := by
  rw [← acts_actions, actions_exact hf h, acts_exact (clock_actions e hrequest) hf h,
    @acts_actions .exact]

omit [Clock] in
theorem Fits.handle : (@handle .exact e request).engine.Fits := by
  have hacts := hf.acts h (clock_actions e hrequest)
  rw [acts_actions] at hacts
  exact hacts

end

/-! ## Runs -/

omit [Clock] in
/-- Whether a run stays in range can be computed. -/
theorem clock_of_all {requests : List Request} (h : requests.all fun
      | .advanceTo time => decide (time ≤ lastClock)
      | _ => true) :
    ∀ time, Request.advanceTo time ∈ requests → time ≤ lastClock :=
  fun _ hmem => of_decide_eq_true (List.all_eq_true.mp h _ hmem)

section
variable {requests : List Request}
  (hrequests : ∀ time, Request.advanceTo time ∈ requests → time ≤ lastClock)
include hrequests

omit [Clock] in
theorem clock_runActions :
    ∀ time, Action.advanceTo time ∈ @runActions .exact e requests → time ≤ lastClock := by
  intro time hmem
  induction requests generalizing e with
  | nil => exact absurd hmem List.not_mem_nil
  | cons request rest ih =>
    obtain ⟨hrequest, hrest⟩ := clock_cons hrequests
    obtain hfirst | hlater := List.mem_append.mp hmem
    · exact clock_actions e hrequest time hfirst
    · exact ih hrest hlater

theorem runActions_exact (hf : e.Fits) (h : e.Stable) :
    e.runActions requests = @runActions .exact e requests := by
  induction requests generalizing e with
  | nil => simp only [runActions]
  | cons request rest ih =>
    obtain ⟨hrequest, hrest⟩ := clock_cons hrequests
    have hhandled : (e.handle request).engine = (@handle .exact e request).engine :=
      congrArg Prod.fst (handle_exact hf h request hrequest)
    have hlater := ih hrest (hf.handle h request hrequest) (h.handle request)
    simp only [runActions, actions_exact hf h, hhandled, hlater]

theorem run_exact (hf : e.Fits) (h : e.Stable) : e.run requests = @run .exact e requests := by
  rw [← acts_runActions, runActions_exact hrequests hf h,
    acts_exact (clock_runActions hrequests) hf h, @acts_runActions .exact]

variable (system : SystemIdentity) (maxMembers : Nat) (connected : Bool)

/-- What is reached in range does not depend on the clock. -/
theorem reached_exact : reached system maxMembers connected requests =
    @reached .exact system maxMembers connected requests := by
  have hnew := fits_new system maxMembers connected
  simp only [reached, run_exact hrequests hnew (stable_new system maxMembers connected)]

/-- Neither do the stages on the way. -/
theorem stages_exact :
    let begin := Engine.new system maxMembers connected
    begin.stage (begin.runActions requests) =
      @stage .exact begin (@runActions .exact begin requests) := by
  intro begin
  have hfits : begin.Fits := fits_new system maxMembers connected
  have hstable : begin.Stable := stable_new system maxMembers connected
  funext n
  rw [runActions_exact hrequests hfits hstable]
  exact stage_exact (clock_runActions hrequests) hfits hstable n

omit [Clock] in
theorem fits_reached : (@reached .exact system maxMembers connected requests).Fits where
  begun := begun_reached system maxMembers connected requests
  limited := (stable_reached system maxMembers connected requests).limited
  now := now_reached_le system maxMembers connected hrequests

end

/-- Out of range: the port of a member comes up at the last time, to which the clock is then set
again. -/
def upAtLast : List Request :=
  [.apply .lag ⟨"PortChannel1", .set, []⟩, .apply .member ⟨"PortChannel1|Ethernet0", .set, []⟩,
    .advanceTo lastTime,
    .apply .port ⟨"Ethernet0", .set, [("admin_status", "up"), ("oper_status", "up")]⟩,
    .advanceTo lastTime]

end LinkAggregation.Engine
