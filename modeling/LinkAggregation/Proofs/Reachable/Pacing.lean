import LinkAggregation.Proofs.Engine.Pace
import LinkAggregation.Proofs.Reachable.Exact

/-!
# The pace of an interface

An interface lives from when it becomes known until it is forgotten; leaving a LAG and joining
another is part of that life. The times at which it sends fall into windows over all of it.
-/
namespace LinkAggregation.Engine
variable {e : Engine} {name : String}

/-- The times at which LACP messages are sent on an interface: in what is left of its life, and in
the lives that come after it. A life ends with the action that forgets the interface. -/
def lives [Clock] (name : String) (e : Engine) : List Action → List Nat × List (List Nat)
  | [] => ([], [])
  | a :: rest =>
    let s := e.act a
    let sent := List.replicate (sentOn name s.2) s.1.now
    let (life, later) := s.1.lives name rest
    if (s.1.interface? name).isSome then (sent ++ life, later) else (sent, life :: later)

/-- The rest of a life goes on in the window that has begun, and later lives begin with new ones. -/
theorem Coherent.continues_lives (h : e.Stable) (name : String) (hw : e.Windowed)
    (actions : List Action) :
    Continues (e.windowOf name) (e.lives name actions).1 ∧
      ∀ life ∈ (e.lives name actions).2, InWindows life := by
  -- From the last action back: what is sent later goes on in the window that this action leaves.
  induction actions generalizing e with
  | nil => exact ⟨.nil (hw name).few, fun _ hlife => absurd hlife List.not_mem_nil⟩
  | cons a rest ih =>
    have hw' := h.windowed_act hw a
    obtain ⟨hrest, hlater⟩ := ih (h.act a) hw'
    have hnow : (e.windowOf name).Current (e.act a).1.now :=
      (hw name).later (h.course_act a).now_le
    have hpaces := h.paces_act a name
    simp only [lives]
    split
    · next hknown =>
      obtain hspends | ⟨hunknown, -⟩ := hpaces
      · exact ⟨hrest.of_spends hspends hnow, hlater⟩
      · simp [hunknown] at hknown
    · refine ⟨?_, fun life hlife => ?_⟩
      · obtain hspends | ⟨-, hnone⟩ := hpaces
        · have hlast := (Continues.nil (hw' name).few).of_spends hspends hnow
          rwa [List.append_nil] at hlast
        · rw [hnone]
          exact .nil hnow.few
      · obtain rfl | hlife := List.mem_cons.mp hlife
        · exact hrest.inWindows
        · exact hlater life hlife

/-- All lives of an interface in a run of a new engine. -/
def livesOf [Clock] (name : String) (e : Engine) (requests : List Request) : List (List Nat) :=
  let lives := e.lives name (e.runActions requests)
  lives.1 :: lives.2

theorem inWindows_lives (system : SystemIdentity) (maxMembers : Nat) (connected : Bool)
    (requests : List Request) {life : List Nat}
    (hlife : life ∈ (Engine.new system maxMembers connected).livesOf name requests) :
    InWindows life := by
  obtain ⟨hfirst, hlater⟩ := (stable_new system maxMembers connected).continues_lives name
    (windowed_new system maxMembers connected)
    ((Engine.new system maxMembers connected).runActions requests)
  obtain rfl | hlife := List.mem_cons.mp hlife
  · exact hfirst.inWindows
  · exact hlater life hlife

/-- In range the lives of an interface do not depend on the clock. -/
theorem lives_exact [Clock] (hf : e.Fits) (h : e.Stable) (name : String) {actions : List Action}
    (hactions : ∀ time, Action.advanceTo time ∈ actions → time ≤ lastClock) :
    e.lives name actions = @lives .exact name e actions := by
  induction actions generalizing e with
  | nil => simp only [lives]
  | cons a rest ih =>
    obtain ⟨ha, hrest⟩ := clock_cons hactions
    have hlater := ih (hf.act h ha) (h.act a) hrest
    simp only [lives, act_exact hf h ha, hlater]

theorem livesOf_exact [Clock] (system : SystemIdentity) (maxMembers : Nat) (connected : Bool)
    {requests : List Request}
    (hrequests : ∀ time, Request.advanceTo time ∈ requests → time ≤ lastClock) (name : String) :
    (Engine.new system maxMembers connected).livesOf name requests =
      @livesOf .exact name (Engine.new system maxMembers connected) requests := by
  have hfits := fits_new system maxMembers connected
  have hstable := stable_new system maxMembers connected
  simp only [livesOf, runActions_exact hrequests hfits hstable,
    lives_exact hfits hstable name (clock_runActions hrequests)]

/-- The window outlives the membership, and its third message is the last one before it ends. With
the interface it is forgotten. -/
example :
    let up : Request :=
      .apply .port ⟨"Ethernet0", .set, [("admin_status", "up"), ("oper_status", "up")]⟩
    let join : Request := .apply .member ⟨"PortChannel1|Ethernet0", .set, []⟩
    let leave : Request := .apply .member ⟨"PortChannel1|Ethernet0", .del, []⟩
    let prefer (priority : String) : Request :=
      .apply .member ⟨"PortChannel1|Ethernet0", .set, [("lacp_port_priority", priority)]⟩
    (Engine.new {} 8 true).livesOf "Ethernet0"
        [.apply .lag ⟨"PortChannel1", .set, []⟩, join, up, leave, join, .advanceTo 300, prefer "1",
          prefer "2", .advanceTo 1100, leave, .apply .port ⟨"Ethernet0", .del, []⟩, join, up] =
      [[], [0, 0, 300, 1100], [1100]] := by
  decide +kernel

end LinkAggregation.Engine
