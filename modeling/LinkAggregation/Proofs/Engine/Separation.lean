import LinkAggregation.Proofs.Engine.Apart

/-!
# Operations that do not name a LAG

An operation on another LAG or on an interface that is no member spares a LAG, and every operation
keeps to the transmit windows.
-/
namespace LinkAggregation.Engine
variable {e e' : Engine} {c : Kind} {s : Step} {k l slot : Nat} {lag : Lag} {i : Interface}
  {name : String}

/-- No other LAG counts the interface among its members. -/
theorem not_isMember_of_ne (hi : e.interfaces.get? slot = some i) (hlag : i.lag = some l)
    (hk : k ≠ l) : ¬ e.IsMember k slot :=
  fun hmember => hk (IsMember.unique ⟨i, hi, hlag⟩ hmember)

/-- An interface is no member for having become known. -/
theorem not_isMember_ensureInterface
    (hname : ∀ slot, e.interfaces.find? name = some slot → ¬ e.IsMember k slot) :
    ¬ (e.ensureInterface name).1.IsMember k (e.ensureInterface name).2 := by
  unfold Engine.ensureInterface
  split
  · next hfind => exact hname _ hfind
  · rintro ⟨i, hi, hlag⟩
    rw [Arena.get?_insert_freeSlot] at hi
    obtain rfl := Option.some.inj hi
    simp [Interface.new] at hlag

/-! ## Moves -/

/-- An interface outside all LAGs is forgotten. -/
theorem spares_forget (hi : e.interfaces.get? slot = some i) (hlag : i.lag = none) :
    Spares k e ({ e with
      timers := e.timers.cancelInterface slot
      interfaces := e.interfaces.remove name slot }, []) := by
  refine .of_slot (not_isMember_of_lag_eq_none hi hlag k) rfl (fun slot' hslot' => ?_)
    (fun key hkey => ?_) fun _ hx => absurd hx List.not_mem_nil
  · simp [Ne.symm hslot']
  · simp [hkey]

section
variable (h : e.Linked)
include h

theorem Linked.apart_turn (hi : e.interfaces.get? slot = some i) (hlag : i.lag = some l)
    (hl : e.lags.get? l = some lag) {r : Interface × Timers}
    (ht : Turn lag.settings e.now slot i e.timers c r) (hk : k ≠ l) :
    Apart k e (e.put slot r, []) := by
  refine Shift.apart_of_slot h (.turn hi hlag hl ht) rfl (fun _ => id)
    (not_isMember_of_ne hi hlag hk) rfl (fun slot' hslot' => ?_) fun _ => ht.deadline?_of_ne
  rw [get?_put, if_neg (Ne.symm hslot')]

theorem Linked.apart_count (hslot : ¬ e.IsMember k slot) (f : Counters → Counters) :
    Apart k e (e.count slot f, []) := by
  refine Shift.apart_of_slot h (.count slot f) rfl (fun _ => id) hslot rfl
    (fun slot' hslot' => ?_) fun _ _ => rfl
  simp [count, modifyInterface, Ne.symm hslot']

theorem Linked.apart_report (hi : e.interfaces.get? slot = some i) (hlag : i.lag = none)
    (status : PortStatus) :
    Apart k e (e.modifyInterface slot fun i => { i with port := status }, []) := by
  refine Shift.apart_of_slot h (.report status hi hlag) rfl (fun _ => id)
    (not_isMember_of_lag_eq_none hi hlag k) rfl (fun slot' hslot' => ?_) fun _ _ => rfl
  simp [modifyInterface, Ne.symm hslot']

theorem Linked.apart_ensureInterface (k : Nat) (name : String) :
    Apart k e ((e.ensureInterface name).1, []) := by
  unfold Engine.ensureInterface
  split
  · exact .refl k e
  · next hname =>
    have hvacant : ¬ e.IsMember k e.interfaces.freeSlot := by
      rintro ⟨i, hi, -⟩
      simp [Arena.get?_freeSlot] at hi
    refine Shift.apart_of_slot h (.meet hname) rfl (fun name' hunknown => ?_) hvacant rfl
      (fun slot' hslot' => Arena.get?_insert_of_ne _ _ hslot') fun _ _ => rfl
    rw [Arena.find?_insert] at hunknown
    split at hunknown
    · simp at hunknown
    · exact hunknown

/-- An interface outside all LAGs joins another LAG. -/
theorem Linked.apart_join (hi : e.interfaces.get? slot = some i) (hlag : i.lag = none)
    (hl : e.lags.get? l = some lag) (settings : MemberSettings) (hk : k ≠ l) :
    Apart k e (e.exchange l slot (·.addMember slot) (e.joined l slot lag i settings), []) := by
  refine Shift.apart_of_slot h (.join settings hi hlag hl) rfl (fun _ => id)
    (not_isMember_of_lag_eq_none hi hlag k) (get?_lags_exchange_of_ne hk) (fun slot' hslot' => ?_)
    fun _ hkey => Receive.deadline?_sync_of_ne hkey
  rw [get?_exchange, if_neg (Ne.symm hslot')]

/-- A member leaves another LAG, and its record is withdrawn. -/
theorem Linked.apart_leave (hi : e.interfaces.get? slot = some i) (hlag : i.lag = some l)
    (hk : k ≠ l) :
    Apart k e (e.exchange l slot (·.removeMember slot) (e.freed slot i),
      if i.published.isSome then e.emit [.removeRecord i.name] else []) := by
  have hwithdrawn : ∀ x ∈ (if i.published.isSome then e.emit [.removeRecord i.name] else []),
      x = .removeRecord i.name := by
    intro x hx
    split at hx
    · exact List.mem_singleton.mp (mem_of_mem_emit hx)
    · simp at hx
  have hslot := not_isMember_of_ne hi hlag hk
  refine ⟨rfl, .of_slot hslot (get?_lags_exchange_of_ne hk) (fun slot' hslot' => ?_)
    (fun key hkey => ?_) fun x hx => ?_, .of_quiet (fun _ => windowOf_put hi rfl) fun x hx _ => ?_⟩
  · rw [get?_exchange, if_neg (Ne.symm hslot')]
  · exact (Timers.deadline?_cancelInterface _ _ _).trans (if_neg hkey)
  · exact h.not_concerns_of_interface hi hslot (by rw [hwithdrawn x hx]; rfl)
  · rw [hwithdrawn x hx]
    rfl

/-- A new LAG takes a free slot. -/
theorem Linked.apart_found {key : UInt16} (settings : LagSettings) (hkey : lagKey name = .ok key)
    (hname : e.lags.find? name = none) (hk : k ≠ e.lags.freeSlot) :
    Apart k e ({ e with lags := e.lags.insert name { name, key, settings } }, []) where
  now := rfl
  spares := ⟨Arena.get?_insert_of_ne _ _ hk, fun _ _ => rfl, fun _ _ => rfl,
    fun _ hx => absurd hx List.not_mem_nil⟩
  paced := Shift.paced h (.found settings hkey hname) fun _ => id

/-- Another LAG is deleted. -/
theorem Linked.apart_dissolve (hname : e.lags.find? name = some l) (hk : k ≠ l) :
    Apart k e ({ e with
      timers := e.timers.cancel (.fallback l)
      lags := e.lags.remove name l }, e.emit [.removeLag name]) where
  now := rfl
  spares := by
    obtain ⟨lag, hl, rfl⟩ := h.lags.get?_of_find? hname
    refine ⟨?_, fun _ _ => rfl, fun key hkey => ?_, fun x hx => ?_⟩
    · simp [Ne.symm hk]
    · have hne : key ≠ .fallback l := by
        rintro rfl
        exact hk (Owns.unique (.inl rfl) hkey)
      simp [hne]
    · obtain rfl := List.mem_singleton.mp (mem_of_mem_emit hx)
      exact h.not_concerns_of_lag hl hk rfl rfl
  paced := by
    refine .of_quiet (fun _ => rfl) fun x hx _ => ?_
    obtain rfl := List.mem_singleton.mp (mem_of_mem_emit hx)
    rfl

end

/-! ## LAGs -/

section
variable (h : e.Stable)
include h

/-- Another LAG gets new settings, and its members are told of them. -/
theorem Coherent.apart_changeLag (hl : e.lags.get? l = some lag) {new : LagSettings}
    (hstable : (e.changeLag l lag new).1.Stable) (hk : k ≠ l) :
    Apart k e (e.changeLag l lag new) := by
  have hidle := fun slot i (hi : e.interfaces.get? slot = some i) (hlag : i.lag = some l) =>
    h.periodic_of_idle hi hlag hl
  -- New settings reach the members in one of three ways.
  have hrevised : ∀ {f step}, Revision lag.settings new e.now f step →
      ((lag.members.foldl f (e.modifyLag l fun lag => { lag with settings := new })).evaluate
        l).1.Stable →
      Apart k e ((lag.members.foldl f
        (e.modifyLag l fun lag => { lag with settings := new })).evaluate l) := by
    intro f step hr hstable
    obtain ⟨hwithin, -⟩ := get?_revised h.linked hl hr
    have hshift : Apart k e (lag.members.foldl f
        (e.modifyLag l fun lag => { lag with settings := new }), []) :=
      ⟨hwithin.now, .of_within hwithin hk fun _ hx => absurd hx List.not_mem_nil,
        Shift.paced h.linked (.revise hl hr hidle) fun name => by
          rw [hwithin.findInterface]
          exact id⟩
    exact hshift.silent_trans (hstable.linked.of_evaluate.apart_evaluate hk)
  revert hstable
  unfold Engine.changeLag
  dsimp only
  split
  · next hdynamic => exact hrevised (.restart hdynamic)
  · next hsame =>
    rw [ne_eq, not_not] at hsame
    split
    · next hnew => exact hrevised (.retell (hsame.trans hnew) hnew)
    · next hnew =>
      rw [Bool.not_eq_true] at hnew
      have hkept := hrevised (.idle (hsame.trans hnew) hnew)
      rwa [List.foldl_fixed' fun _ => rfl] at hkept

theorem Coherent.apart_lagSet (hname : e.lags.find? name ≠ some k) (hk : k ≠ e.lags.freeSlot)
    (fields : List Field) : Apart k e (e.lagSet name fields).step := by
  have hstable := h.lagSet name fields
  revert hstable
  unfold Engine.lagSet
  split
  · exact fun _ => .refl k e
  · next hkey =>
    split
    · next hunknown =>
      split
      · exact fun _ => .refl k e
      · next settings _ =>
        intro hstable
        have hfound := h.linked.apart_found settings hkey hunknown hk
        exact hfound.silent_trans ((Coherent.linked hstable).of_evaluate.apart_evaluate hk)
    · next l hfind =>
      have hkl : k ≠ l := fun heq => hname (heq ▸ hfind)
      split
      · exact fun _ => .refl k e
      · next hl =>
        split
        · exact fun _ => .refl k e
        · split
          · exact fun _ => .refl k e
          · exact fun hstable => h.apart_changeLag hl hstable hkl

omit h in
/-- The members of another LAG leave it one after the other. -/
theorem Coherent.apart_detachMembers (h : e.Coherent (fun k => k = l) []) {slots : List Nat}
    (hl : e.lags.get? l = some lag) (hmembers : lag.members = slots) (hk : k ≠ l) :
    Apart k e (slots.foldl (fun (s : Step) m => s.next (·.detachMember l m)) (e, [])) := by
  induction slots generalizing e lag with
  | nil => exact .refl k e
  | cons m rest ih =>
    obtain ⟨i, hi, hlag⟩ := h.get?_of_mem hl (by rw [hmembers]; exact List.mem_cons_self)
    have hdetach := detachMember_eq (l := l) hi
    have hl' : (e.detachMember l m).1.lags.get? l = some (lag.removeMember m) := by
      rw [hdetach, get?_lags_exchange, if_pos rfl, hl]
      rfl
    have hrest : (lag.removeMember m).members = rest := by
      simp [Lag.removeMember, hmembers]
    have hfirst : Apart k e (e.detachMember l m) := by
      rw [hdetach]
      exact h.linked.apart_leave hi hlag hk
    rw [List.foldl_cons, foldl_next]
    exact hfirst.trans (ih (h.detach hi hlag hl) hl' hrest)

theorem Coherent.apart_lagDel (hname : e.lags.find? name ≠ some k) :
    Apart k e (e.lagDel name).step := by
  unfold Engine.lagDel
  split
  · exact .refl k e
  · next l hfind =>
    have hkl : k ≠ l := fun heq => hname (heq ▸ hfind)
    obtain ⟨lag, hl, -⟩ := h.lags.get?_of_find? hfind
    have hmarked : e.Coherent (fun k => k = l) [] := h.mark fun _ => False.elim
    obtain ⟨-, hcoherent, hsame, -⟩ := hmarked.course_detachMembers hl rfl
    have hleft := hmarked.apart_detachMembers hl rfl hkl
    simp only [hl, Option.map_some, Option.getD_some]
    refine hleft.trans (hcoherent.linked.apart_dissolve ?_ hkl)
    rw [hsame]
    exact hfind

/-! ## Members -/

theorem Coherent.apart_attachMember (hi : e.interfaces.get? slot = some i) (hlag : i.lag = none)
    (hl : e.lags.get? l = some lag) (settings : MemberSettings) (hk : k ≠ l) :
    Apart k e (e.attachMember l slot settings) := by
  have hstable := h.attachMember hi hlag hl settings
  revert hstable
  unfold Engine.attachMember
  dsimp only
  rw [attach_eq hi hl]
  intro hstable
  have hjoined := h.linked.apart_join hi hlag hl settings hk
  exact hjoined.silent_trans (hstable.linked.of_evaluate.apart_evaluate hk)

theorem Coherent.apart_changeMember (hi : e.interfaces.get? slot = some i) (hlag : i.lag = some l)
    (settings : MemberSettings) (hk : k ≠ l) : Apart k e (e.changeMember l slot settings) := by
  obtain ⟨lag, hl, -⟩ := h.lag_of_member hi hlag
  have hput : (e.modifyInterface slot fun i =>
      { i with settings, protocol := { i.protocol with needToTransmit := true } }) = _ :=
    modifyInterface_eq_put hi _ e.timers
  have hstable := h.changeMember hi hlag settings
  unfold Engine.changeMember at hstable ⊢
  rw [hput] at hstable ⊢
  have hturn := h.linked.apart_turn hi hlag hl (.settings settings) hk
  exact hturn.silent_trans (hstable.linked.of_evaluate.apart_evaluate hk)

/-- The key of a member does not name the LAG. -/
def Elsewhere (e : Engine) (k : Nat) (key : String) : Prop :=
  ∀ lagName name, memberKey? key = some (lagName, name) → e.lags.find? lagName ≠ some k

omit h in
theorem Elsewhere.of_parse {key lagName : String} (h : e.Elsewhere k key)
    (hparse : parseMemberKey key = .ok (lagName, name)) : e.lags.find? lagName ≠ some k := by
  refine h lagName name ?_
  unfold parseMemberKey at hparse
  split at hparse
  · next hkey => rw [hkey, Except.ok.inj hparse]
  · simp at hparse

theorem Coherent.apart_memberSet {key : String} (hkey : e.Elsewhere k key) (fields : List Field) :
    Apart k e (e.memberSet key fields).step := by
  unfold Engine.memberSet
  split
  · exact .refl k e
  · next lagName name hparse =>
    split
    · exact .refl k e
    · next l hfind =>
      have hkl : k ≠ l := fun heq => hkey.of_parse hparse (heq ▸ hfind)
      have hknown := h.ensureInterface name
      have hmet := h.linked.apart_ensureInterface k name
      obtain ⟨lag, hl, -⟩ := h.lags.get?_of_find? hfind
      rw [← ensureInterface_lags name] at hl
      dsimp only
      split
      · exact hmet
      · next i hi =>
        split
        · next hlag =>
          split
          · exact hmet
          · exact hmet.silent_trans (hknown.apart_attachMember hi hlag hl _ hkl)
        · next current hlag =>
          split
          · exact hmet
          · next hsame =>
            split
            · exact hmet
            · split
              · exact hmet
              · refine hmet.silent_trans (hknown.apart_changeMember hi ?_ _ hkl)
                rw [hlag, not_not.mp hsame]

theorem Coherent.apart_memberDel {key : String} (hkey : e.Elsewhere k key) :
    Apart k e (e.memberDel key).step := by
  have hstable := h.memberDel key
  revert hstable
  unfold Engine.memberDel
  split
  · exact fun _ => .refl k e
  · next lagName name hparse =>
    split
    · next l slot hfind _ =>
      have hkl : k ≠ l := fun heq => hkey.of_parse hparse (heq ▸ hfind)
      split
      · next hmember =>
        obtain ⟨i, hi, hlag⟩ := Option.bind_eq_some_iff.mp hmember
        rw [detachMember_eq hi]
        intro hstable
        have hleft := h.linked.apart_leave hi hlag hkl
        exact hleft.trans ((Coherent.linked hstable).of_evaluate.apart_evaluate hkl)
      · exact fun _ => .refl k e
    · exact fun _ => .refl k e

/-! ## Ports and links -/

theorem Coherent.apart_updatePort (hslot : ¬ e.IsMember k slot) (status : PortStatus) :
    Apart k e (e.updatePort slot status) := by
  have hstable := h.updatePort slot status
  revert hstable
  unfold Engine.updatePort
  split
  · exact fun _ => .refl k e
  · next i hi =>
    split
    · exact fun _ => .refl k e
    · dsimp only
      split
      · next hlag => exact fun _ => h.linked.apart_report hi hlag status
      · next l hlag =>
        have hkl : k ≠ l := fun heq => hslot (heq ▸ ⟨i, hi, hlag⟩)
        obtain ⟨lag, hl, -⟩ := h.lag_of_member hi hlag
        have hput : (e.modifyInterface slot fun i => { i with port := status }) =
            e.put slot ({ i with port := status }, e.timers) := modifyInterface_eq_put hi _ _
        rw [hput, syncReceive_eq (get?_put_self hi _) hlag hl, put_put]
        intro hstable
        have hturn := h.linked.apart_turn hi hlag hl
          (.port status (h.periodic_of_silent hi hlag)) hkl
        exact hturn.silent_trans (hstable.linked.of_evaluate.apart_evaluate hkl)

section
variable (hname : ∀ slot, e.interfaces.find? name = some slot → ¬ e.IsMember k slot)
include hname

theorem Coherent.apart_portSet (fields : List Field) : Apart k e (e.portSet name fields).step := by
  unfold Engine.portSet
  dsimp only
  split
  · exact .refl k e
  · refine (h.linked.apart_ensureInterface k name).silent_trans ?_
    exact (h.ensureInterface name).apart_updatePort (not_isMember_ensureInterface hname) _

theorem Coherent.spares_portDel : Spares k e (e.portDel name).step := by
  unfold Engine.portDel
  split
  · exact .refl k e
  · next slot hfind =>
    split
    · exact (h.apart_updatePort (hname slot hfind) {}).spares
    · next hfree =>
      obtain ⟨i, hi, -⟩ := h.interfaces.get?_of_find? hfind
      have hlag : i.lag = none := by
        simpa [hi] using hfree
      exact spares_forget hi hlag

theorem Coherent.apart_setLink (up : Bool) : Apart k e (e.setLink name up) := by
  have hmet := h.linked.apart_ensureInterface k name
  have hslot := not_isMember_ensureInterface hname
  unfold Engine.setLink
  dsimp only
  split
  · exact hmet
  · exact hmet.silent_trans ((h.ensureInterface name).apart_updatePort hslot _)

end

/-! ## Frames -/

theorem Coherent.apart_receiveLacp (hi : e.interfaces.get? slot = some i) (hlag : i.lag = some l)
    (hk : k ≠ l) (pdu : Lacpdu) : Apart k e (e.receiveLacp slot l i pdu) := by
  have hstable := h.receiveLacp hi hlag pdu
  have hcounted := h.linked.apart_count (not_isMember_of_ne hi hlag hk)
  revert hstable
  unfold Engine.receiveLacp
  split
  · exact fun _ => hcounted _
  · next hrunning =>
    simp only [Bool.not_eq_true', Bool.not_eq_false, Bool.and_eq_true] at hrunning
    obtain ⟨lag, hl, -⟩ := h.lag_of_member hi hlag
    have hheard := h.count slot fun c => { c with received := c.received + 1 }
    have hi' : (e.count slot fun c => { c with received := c.received + 1 }).interfaces.get? slot =
        some (recount slot (fun c => { c with received := c.received + 1 }) slot i) := by
      rw [get?_count, hi]
      rfl
    dsimp only
    split
    · exact fun _ => hcounted _
    · next own _ =>
      rw [modifyInterface_eq_put hi']
      intro hstable
      have hturn := hheard.linked.apart_turn hi' hlag hl (.record own pdu hrunning.2) hk
      refine (hcounted _).silent_trans (hturn.silent_trans ?_)
      exact hstable.linked.of_evaluate.apart_evaluate hk

/-- The answer to a marker is about the member that it came to. -/
theorem Coherent.apart_receiveMarker (hi : e.interfaces.get? slot = some i)
    (hslot : ¬ e.IsMember k slot) (marker : Marker) :
    Apart k e (e.receiveMarker slot l i marker) := by
  have hmarked := h.count slot fun c => { c with markersReceived := c.markersReceived + 1 }
  have hslot' : ¬ (e.count slot fun c =>
      { c with markersReceived := c.markersReceived + 1 }).IsMember k slot := by
    rwa [isMember_count]
  have hcounted := h.linked.apart_count hslot fun c =>
    { c with markersReceived := c.markersReceived + 1 }
  unfold Engine.receiveMarker
  dsimp only
  split
  · have hanswered := hcounted.silent_trans (hmarked.linked.apart_count hslot' fun c =>
      { c with markerResponsesSent := c.markerResponsesSent + 1 })
    refine ⟨rfl, ⟨rfl, hanswered.spares.members, fun _ _ => rfl, fun x hx => ?_⟩, fun name => ?_⟩
    · obtain rfl := List.mem_singleton.mp hx
      exact h.linked.not_concerns_of_interface hi hslot rfl
    · have hquiet : sentOn name [.transmit i.name (Frame.encodeMarker marker.response
          ((e.count slot fun c => { c with markersReceived := c.markersReceived + 1 }).markerSource
            l))] = 0 := by
        refine sentOn_eq_zero fun x hx => ?_
        obtain rfl := List.mem_singleton.mp hx
        simp [Effect.lacpOn?, Frame.lacp?_encodeMarker]
      rw [hquiet]
      exact hanswered.paced name
  · exact hcounted

theorem Coherent.apart_receiveFrame
    (hname : ∀ slot, e.interfaces.find? name = some slot → ¬ e.IsMember k slot) (frame : Frame) :
    Apart k e (e.receiveFrame name frame).step := by
  unfold Engine.receiveFrame
  split
  · exact .refl k e
  · next slot hfind =>
    have hslot := hname slot hfind
    split
    · exact .refl k e
    · next i hi =>
      split
      · rw [Outcome.step_ok]
        exact h.linked.apart_count hslot _
      · rw [Outcome.step_ok]
        exact h.linked.apart_count hslot _
      · next l _ hlag =>
        have hkl : k ≠ l := fun heq => hslot (heq ▸ ⟨i, hi, hlag⟩)
        exact h.apart_receiveLacp hi hlag hkl _
      · exact h.apart_receiveMarker hi hslot _

end

end LinkAggregation.Engine
