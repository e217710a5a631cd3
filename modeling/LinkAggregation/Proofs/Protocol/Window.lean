import LinkAggregation.Proofs.Evaluation.Member

/-!
# The transmit window

An interface takes a place in its window for every message that it sends. So the times at which it
sends fall into windows: each holds at most `transmitLimit` times, none of them `fastInterval` or
more after its start, and a window starts `fastInterval` or more after the one before.
-/
namespace LinkAggregation

/-- Windows, each with its start and with the times that fall into it. -/
structure Spaced (windows : List (Nat × List Nat)) : Prop where
  few : ∀ w ∈ windows, w.2.length ≤ transmitLimit
  inside : ∀ w ∈ windows, ∀ t ∈ w.2, w.1 ≤ t ∧ t < w.1 + Periodic.fastInterval
  apart : windows.Pairwise fun v w => v.1 + Periodic.fastInterval ≤ w.1

/-- The times fall into windows. -/
def InWindows (times : List Nat) : Prop :=
  ∃ windows : List (Nat × List Nat), times = windows.flatMap Prod.snd ∧ Spaced windows

/-! ## How many times fall into an interval -/

/-- Not many starts fit into an interval if they are apart. -/
theorem length_le_of_apart {starts : List Nat} (lo k : Nat)
    (h : starts.Pairwise fun s t => s + Periodic.fastInterval ≤ t)
    (hlo : ∀ s ∈ starts, lo < s + Periodic.fastInterval)
    (hhi : ∀ s ∈ starts, s + Periodic.fastInterval ≤ lo + Periodic.fastInterval * k) :
    starts.length ≤ k := by
  induction starts generalizing lo k with
  | nil => exact Nat.zero_le k
  | cons s rest ih =>
    obtain ⟨hs, hrest⟩ := List.pairwise_cons.mp h
    have hslo := hlo s List.mem_cons_self
    have hshi := hhi s List.mem_cons_self
    cases k with
    | zero => omega
    | succ k =>
      refine Nat.succ_le_succ (ih (lo + Periodic.fastInterval) k hrest ?_ ?_)
      · intro r hr
        have := hs r hr
        omega
      · intro r hr
        have := hhi r (List.mem_cons_of_mem _ hr)
        rw [Nat.mul_succ] at this
        omega

namespace Spaced
variable {windows : List (Nat × List Nat)}

theorem tail {w : Nat × List Nat} (h : Spaced (w :: windows)) : Spaced windows where
  few := fun v hv => h.few v (List.mem_cons_of_mem _ hv)
  inside := fun v hv => h.inside v (List.mem_cons_of_mem _ hv)
  apart := (List.pairwise_cons.mp h.apart).2

theorem cons {start : Nat} {times : List Nat} (h : Spaced windows)
    (hfew : times.length ≤ transmitLimit)
    (hinside : ∀ t ∈ times, start ≤ t ∧ t < start + Periodic.fastInterval)
    (hapart : ∀ w ∈ windows, start + Periodic.fastInterval ≤ w.1) :
    Spaced ((start, times) :: windows) where
  few := by
    intro w hw
    obtain rfl | hw := List.mem_cons.mp hw
    · exact hfew
    · exact h.few w hw
  inside := by
    intro w hw
    obtain rfl | hw := List.mem_cons.mp hw
    · exact hinside
    · exact h.inside w hw
  apart := List.pairwise_cons.mpr ⟨hapart, h.apart⟩

/-- Only windows with such a time count, and each of them holds few times. -/
theorem countP_le (h : Spaced windows) (p : Nat → Bool) :
    (windows.flatMap Prod.snd).countP p ≤
      transmitLimit * (windows.filter fun w => w.2.any p).length := by
  induction windows with
  | nil => simp
  | cons w rest ih =>
    have hrest := ih h.tail
    rw [List.flatMap_cons, List.countP_append]
    cases hany : w.2.any p with
    | false =>
      have hnone : w.2.countP p = 0 := by
        rw [List.countP_eq_zero]
        simpa using hany
      simpa [hany, hnone] using hrest
    | true =>
      have hfew : w.2.countP p ≤ transmitLimit :=
        Nat.le_trans List.countP_le_length (h.few w List.mem_cons_self)
      rw [List.filter_cons_of_pos (by simpa using hany), List.length_cons, Nat.mul_succ]
      omega

/-- Few times fall into an interval, since few windows reach into it. -/
theorem countP_interval_le (h : Spaced windows) {p : Nat → Bool} (lo k : Nat)
    (hp : ∀ x, p x = true →
      lo ≤ x ∧ x + Periodic.fastInterval ≤ lo + Periodic.fastInterval * k) :
    (windows.flatMap Prod.snd).countP p ≤ transmitLimit * k := by
  have hreach : ∀ w ∈ windows.filter (fun w => w.2.any p),
      lo < w.1 + Periodic.fastInterval ∧
        w.1 + Periodic.fastInterval ≤ lo + Periodic.fastInterval * k := by
    intro w hw
    obtain ⟨hmem, hany⟩ := List.mem_filter.mp hw
    obtain ⟨x, hx, hpx⟩ := List.any_eq_true.mp hany
    have hinside := h.inside w hmem x hx
    have hinterval := hp x hpx
    omega
  have hapart : ((windows.filter fun w => w.2.any p).map Prod.fst).Pairwise
      fun s t => s + Periodic.fastInterval ≤ t :=
    List.pairwise_map.mpr (h.apart.filter _)
  have hlength : ((windows.filter fun w => w.2.any p).map Prod.fst).length ≤ k := by
    refine length_le_of_apart lo k hapart ?_ ?_
    · simpa using fun s times hs hany => (hreach (s, times) (List.mem_filter.mpr ⟨hs, hany⟩)).1
    · simpa using fun s times hs hany => (hreach (s, times) (List.mem_filter.mpr ⟨hs, hany⟩)).2
  rw [List.length_map] at hlength
  exact Nat.le_trans (h.countP_le p) (Nat.mul_le_mul_left _ hlength)

end Spaced

namespace InWindows
variable {times : List Nat}

/-- One window holds all messages of one clock value. -/
theorem count_le (h : InWindows times) (t : Nat) : times.count t ≤ 3 := by
  obtain ⟨windows, rfl, hspaced⟩ := h
  refine hspaced.countP_interval_le t 1 fun x hx => ?_
  obtain rfl : x = t := by simpa using hx
  omega

/-- Two windows reach into an interval that is no longer than one. -/
theorem countP_le (h : InWindows times) (t : Nat) :
    times.countP (fun x => t ≤ x ∧ x < t + 1000) ≤ 6 := by
  obtain ⟨windows, rfl, hspaced⟩ := h
  refine hspaced.countP_interval_le t 2 fun x hx => ?_
  have hinterval : t ≤ x ∧ x < t + 1000 := by simpa using hx
  simp only [Periodic.fastInterval]
  omega

end InWindows

/-! ## What an interface sends at one clock value -/

namespace TransmitWindow
variable {now n m : Nat} {w w' w'' : TransmitWindow}

/-- Places are taken at a clock value, one after the other, and this many messages are sent. -/
inductive Spends (now : Nat) : Nat → TransmitWindow → TransmitWindow → Prop
  | rest (w : TransmitWindow) : Spends now 0 w w
  | take {n : Nat} {w w' w'' : TransmitWindow} (sent : Bool)
      (htake : w.take? now Periodic.fastInterval transmitLimit = (true, w'))
      (hrest : Spends now n w' w'') : Spends now (sent.toNat + n) w w''

theorem Spends.trans (h : Spends now n w w') (h' : Spends now m w' w'') :
    Spends now (n + m) w w'' := by
  induction h with
  | rest => rwa [Nat.zero_add]
  | take sent htake _ ih =>
    rw [Nat.add_assoc]
    exact .take sent htake (ih h')

/-- A place is the first of a new window, or one more in a window that is not full. -/
theorem take?_cases (h : w.take? now Periodic.fastInterval transmitLimit = (true, w')) :
    (w.start + Periodic.fastInterval ≤ now ∧ w' = ⟨now, 1⟩) ∨
      (now < w.start + Periodic.fastInterval ∧ w.sent < transmitLimit ∧
        w' = { w with sent := w.sent + 1 }) := by
  unfold take? at h
  by_cases hnow : w.start + Periodic.fastInterval ≤ now
  · have hnew : w' = ⟨now, 1⟩ := by simpa [hnow, transmitLimit, eq_comm] using h
    exact .inl ⟨hnow, hnew⟩
  · by_cases hfull : transmitLimit ≤ w.sent
    · simp [hnow, hfull] at h
    · have hnext : w' = { w with sent := w.sent + 1 } := by
        simpa [hnow, hfull, eq_comm] using h
      exact .inr ⟨Nat.lt_of_not_le hnow, Nat.lt_of_not_le hfull, hnext⟩

/-- The window has begun, and holds no more than it may. -/
structure Current (now : Nat) (w : TransmitWindow) : Prop where
  begun : w.start ≤ now
  few : w.sent ≤ transmitLimit

theorem Current.later {now' : Nat} (h : w.Current now) (hnow : now ≤ now') : w.Current now' :=
  ⟨Nat.le_trans h.begun hnow, h.few⟩

theorem Current.take (h : w.Current now)
    (htake : w.take? now Periodic.fastInterval transmitLimit = (true, w')) : w'.Current now := by
  obtain ⟨-, rfl⟩ | ⟨-, hplace, rfl⟩ := take?_cases htake
  · exact ⟨Nat.le_refl now, (by decide : 1 ≤ transmitLimit)⟩
  · exact ⟨h.begun, hplace⟩

theorem Spends.current (h : Spends now n w w') (hw : w.Current now) : w'.Current now := by
  induction h with
  | rest => exact hw
  | take sent htake _ ih => exact ih (hw.take htake)

/-- How many messages can be sent before the clock moves. -/
def room (now : Nat) (w : TransmitWindow) : Nat :=
  if w.start + Periodic.fastInterval ≤ now then transmitLimit else transmitLimit - w.sent

theorem room_le (now : Nat) (w : TransmitWindow) : w.room now ≤ transmitLimit := by
  unfold room
  split
  · exact Nat.le_refl _
  · exact Nat.sub_le _ _

/-- Every message takes up some of the room. -/
theorem Spends.room_le (h : Spends now n w w') : w'.room now + n ≤ w.room now := by
  induction h with
  | rest => exact Nat.le_refl _
  | @take n w w' w'' sent htake _ ih =>
    have hsent : sent.toNat ≤ 1 := Bool.toNat_le sent
    have hstep : w'.room now + 1 ≤ w.room now := by
      obtain ⟨hnow, rfl⟩ | ⟨hnow, hfew, rfl⟩ := take?_cases htake
      · have hnew : ¬ now + Periodic.fastInterval ≤ now := by
          simp only [Periodic.fastInterval]
          omega
        simp [room, hnow, hnew, transmitLimit]
      · simp only [room, Nat.not_le.mpr hnow, if_false]
        omega
    omega

end TransmitWindow

/-! ## The times of all messages -/

/-- The times begin in a window that is in this state, and go on in later ones. -/
def Continues (w : TransmitWindow) (times : List Nat) : Prop :=
  ∃ (first : List Nat) (later : List (Nat × List Nat)),
    times = ((w.start, first) :: later).flatMap Prod.snd ∧ Spaced ((w.start, first) :: later) ∧
      first.length + w.sent ≤ transmitLimit

namespace Continues
variable {w w' : TransmitWindow} {times : List Nat} {now n : Nat}

theorem inWindows (h : Continues w times) : InWindows times := by
  obtain ⟨first, later, htimes, hspaced, -⟩ := h
  exact ⟨_, htimes, hspaced⟩

theorem nil (h : w.sent ≤ transmitLimit) : Continues w [] := by
  refine ⟨[], [], rfl, ⟨?_, ?_, List.pairwise_singleton _ _⟩, by simpa using h⟩
  · simp
  · simp

/-- What is sent from a place that is taken now comes first. A place may be left empty. -/
theorem of_take {sent : Bool} (h : Continues w' times)
    (htake : w.take? now Periodic.fastInterval transmitLimit = (true, w'))
    (hw : w.Current now) : Continues w (List.replicate sent.toNat now ++ times) := by
  obtain ⟨first, later, rfl, hspaced, hroom⟩ := h
  have hlater := List.pairwise_cons.mp hspaced.apart
  have hfirst := hspaced.inside _ List.mem_cons_self
  have hlength : (List.replicate sent.toNat now ++ first).length ≤ first.length + 1 := by
    have hsent : sent.toNat ≤ 1 := Bool.toNat_le sent
    rw [List.length_append, List.length_replicate]
    omega
  obtain ⟨hnow, rfl⟩ | ⟨hnow, hplace, rfl⟩ := TransmitWindow.take?_cases htake
  · -- The window is over: what is sent now begins a new one.
    have hroom : first.length + 1 ≤ transmitLimit := hroom
    have hafter : ∀ v ∈ later, now + Periodic.fastInterval ≤ v.1 := hlater.1
    have hnew : Spaced ((now, List.replicate sent.toNat now ++ first) :: later) := by
      refine hspaced.tail.cons (by omega) (fun t ht => ?_) hafter
      obtain ht | ht := List.mem_append.mp ht
      · obtain rfl := List.eq_of_mem_replicate ht
        simp [Periodic.fastInterval]
      · exact hfirst t ht
    refine ⟨[], _, by simp, hnew.cons (Nat.zero_le _) (by simp) ?_, by simpa using hw.few⟩
    intro v hv
    obtain rfl | hv := List.mem_cons.mp hv
    · exact hnow
    · have := hafter v hv
      omega
  · have hroom : first.length + (w.sent + 1) ≤ transmitLimit := hroom
    refine ⟨List.replicate sent.toNat now ++ first, later, by simp, ?_, ?_⟩
    · refine hspaced.tail.cons (by omega) (fun t ht => ?_) hlater.1
      obtain ht | ht := List.mem_append.mp ht
      · obtain rfl := List.eq_of_mem_replicate ht
        exact ⟨hw.begun, hnow⟩
      · exact hfirst t ht
    · omega

/-- What is sent now comes before all that is sent later. -/
theorem of_spends (h : w.Spends now n w') (hw : w.Current now) (hlater : Continues w' times) :
    Continues w (List.replicate n now ++ times) := by
  induction h with
  | rest => exact hlater
  | take sent htake _ ih =>
    rw [← List.replicate_append_replicate, List.append_assoc]
    exact of_take (ih (hw.take htake) hlater) htake hw

end Continues

end LinkAggregation
