import LinkAggregation.Proofs.Timer.Deadlines

/-!
# What timers are asked for

A machine changes the timers by requests only, and a request may have a deadline. The requests say
more than the timers do that they lead to: a deadline may be asked for a key that has one already,
or replaced at once. Whatever is scheduled was scheduled before or has been asked for.
-/
namespace LinkAggregation

/-- The deadline that is asked for. -/
def TimerRequest.deadline? : TimerRequest → Option Nat
  | .arm _ deadline | .armIfIdle _ deadline => some deadline
  | .cancel _ | .cancelInterface _ | .expire _ => none

namespace Timers
variable {P : Nat → Prop} {t t' t'' : Timers} {deadline : Nat}

/-- Requests lead from the first timers to the second, and the deadlines asked for are such. -/
def Asked (P : Nat → Prop) (t t' : Timers) : Prop :=
  ∃ requests : List TimerRequest,
    (∀ r ∈ requests, ∀ deadline, r.deadline? = some deadline → P deadline) ∧
      requests.foldl perform t = t'

namespace Asked

theorem refl (P : Nat → Prop) (t : Timers) : t.Asked P t := ⟨[], by simp, rfl⟩

theorem trans (h : t.Asked P t') (h' : t'.Asked P t'') : t.Asked P t'' := by
  obtain ⟨requests, hrequests, rfl⟩ := h
  obtain ⟨requests', hrequests', rfl⟩ := h'
  refine ⟨requests ++ requests', fun r hr => ?_, List.foldl_append⟩
  exact (List.mem_append.mp hr).elim (hrequests r) (hrequests' r)

/-- One more request. -/
theorem perform (h : t.Asked P t') (r : TimerRequest)
    (hr : ∀ deadline, r.deadline? = some deadline → P deadline) : t.Asked P (t'.perform r) :=
  h.trans ⟨[r], by simpa using hr, rfl⟩

theorem arm (h : t.Asked P t') (key : TimerKey) (hd : P deadline) :
    t.Asked P (t'.arm key deadline) :=
  h.perform (.arm key deadline) fun _ heq => Option.some.inj heq ▸ hd

theorem armIfIdle (h : t.Asked P t') (key : TimerKey) (hd : P deadline) :
    t.Asked P (t'.armIfIdle key deadline) :=
  h.perform (.armIfIdle key deadline) fun _ heq => Option.some.inj heq ▸ hd

theorem cancel (h : t.Asked P t') (key : TimerKey) : t.Asked P (t'.cancel key) :=
  h.perform (.cancel key) nofun

theorem cancelInterface (h : t.Asked P t') (slot : Nat) : t.Asked P (t'.cancelInterface slot) :=
  h.perform (.cancelInterface slot) nofun

theorem expired (h : t.Asked P t') (now : Nat) : t.Asked P (t'.expired now).2 :=
  h.perform (.expire now) nofun

end Asked

/-- A request schedules at most the deadline that it asks for. -/
theorem mem_schedule_perform {r : TimerRequest} {s : Scheduled}
    (h : s ∈ (t.perform r).schedule) : s ∈ t.schedule ∨ r.deadline? = some s.deadline := by
  have harm {key : TimerKey} {deadline : Nat} (h : s ∈ (t.arm key deadline).schedule) :
      s ∈ t.schedule ∨ some deadline = some s.deadline := by
    obtain rfl | hold := mem_place.mp h
    · exact .inr rfl
    · exact .inl hold
  cases r with
  | arm key deadline => exact harm h
  | armIfIdle key deadline =>
    simp only [perform, armIfIdle] at h
    split at h
    · exact .inl h
    · exact harm h
  | cancel key => exact .inl h
  | cancelInterface slot => exact .inl h
  | expire now =>
    refine .inl (fire_schedule_subset now t.schedule t.armed ?_)
    simp only [perform, expired, compact] at h
    split at h
    · exact (List.mem_filter.mp h).1
    · exact h

/-- Whatever is scheduled was scheduled before or has been asked for. -/
theorem Asked.scheduled (h : t.Asked P t') {s : Scheduled} (hs : s ∈ t'.schedule) :
    s ∈ t.schedule ∨ P s.deadline := by
  obtain ⟨requests, hrequests, rfl⟩ := h
  induction requests generalizing t with
  | nil => exact .inl hs
  | cons r rest ih =>
    obtain hfirst | hrest := ih (fun r' hr' => hrequests r' (List.mem_cons_of_mem _ hr')) hs
    · exact (mem_schedule_perform hfirst).imp_right (hrequests r List.mem_cons_self _)
    · exact .inr hrest

end Timers
end LinkAggregation
