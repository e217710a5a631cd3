import LinkAggregation.Proofs.Selection.Ranking

/-!
# The verdict on each candidate

The rule of selection, said of the set of candidates: which key, which partner and which speed win,
who is left at each stage, and what becomes of every candidate. Selection gives each slot the
verdict of its candidate and lists the selected slots, best first. The rule knows no order of the
candidates and none of the groups of partners, so neither matters.
-/
namespace LinkAggregation

/-! ## The rule -/

/-- The LAG's own key wins if a candidate has it, else the key of the first candidate. -/
inductive WinningKey (lagKey : UInt16) (s : Set Candidate) : UInt16 → Prop
  | own {c : Candidate} : c ∈ s → c.key = lagKey → WinningKey lagKey s lagKey
  | first {c : Candidate} : (∀ d ∈ s, d.key ≠ lagKey) → c.IsFirst s → WinningKey lagKey s c.key

/-- How many candidates have this partner. -/
noncomputable def followers (s : Set Candidate) (p : PartnerId) : Nat :=
  {c ∈ s | c.partner = some p}.ncard

/-- The best of the partners that candidates have. -/
structure WinningPartner (s : Set Candidate) (p : PartnerId) : Prop where
  followed : ∃ c ∈ s, c.partner = some p
  best : ∀ c ∈ s, ∀ q, c.partner = some q → p.merit (followers s p) ≤ q.merit (followers s q)

/-- The speed of the first candidate whose speed is known. -/
def ReferenceSpeed (s : Set Candidate) (speed : Nat) : Prop :=
  ∃ c : Candidate, c.IsFirst {d ∈ s | d.speed.isSome = true} ∧ c.speed = some speed

namespace SelectionInput
variable (input : SelectionInput)

/-- The enabled candidates. -/
def contenders : Set Candidate := {c | c ∈ input.candidates ∧ c.enabled = true}

/-- Those of them with the winning key. -/
def keyed : Set Candidate := {c ∈ input.contenders | WinningKey input.lagKey input.contenders c.key}

/-- Those of them with the winning partner, if partners count and there is one. -/
def partnered : Set Candidate :=
  {c ∈ input.keyed | input.dynamic = true → ∀ p, WinningPartner input.keyed p → c.partner = some p}

/-- Those of them whose speed is unknown or the reference speed. -/
def fit : Set Candidate :=
  {c ∈ input.partnered |
    ∀ reference speed, ReferenceSpeed input.partnered reference → c.speed = some speed →
      speed = reference}

open Classical in
/-- What becomes of a candidate: it is out with the first stage it does not reach, and of those fit
the best few are selected. -/
noncomputable def verdict (c : Candidate) : Selection :=
  if c ∉ input.contenders then .unselected .disabled
  else if c ∉ input.keyed then .unselected .keyMismatch
  else if c ∉ input.partnered then
    .unselected (if c.partner = none then .noPartner else .partnerMismatch)
  else if c ∉ input.fit then .unselected .speedMismatch
  else if c.ahead input.fit < input.maxMembers then .selected
  else .standby

variable {input} {c : Candidate}

theorem verdict_of_not_contender (hout : c ∉ input.contenders) :
    input.verdict c = .unselected .disabled := if_pos hout

theorem verdict_of_not_keyed (hin : c ∈ input.contenders) (hout : c ∉ input.keyed) :
    input.verdict c = .unselected .keyMismatch := by
  rw [verdict, if_neg (not_not_intro hin), if_pos hout]

theorem verdict_of_not_partnered (hin : c ∈ input.keyed) (hout : c ∉ input.partnered) :
    input.verdict c = .unselected (if c.partner = none then .noPartner else .partnerMismatch) := by
  rw [verdict, if_neg (not_not_intro hin.1), if_neg (not_not_intro hin), if_pos hout]

theorem verdict_of_not_fit (hin : c ∈ input.partnered) (hout : c ∉ input.fit) :
    input.verdict c = .unselected .speedMismatch := by
  rw [verdict, if_neg (not_not_intro hin.1.1), if_neg (not_not_intro hin.1),
    if_neg (not_not_intro hin), if_pos hout]

theorem verdict_of_fit (hfit : c ∈ input.fit) :
    input.verdict c = if c.ahead input.fit < input.maxMembers then .selected else .standby := by
  rw [verdict, if_neg (not_not_intro hfit.1.1.1), if_neg (not_not_intro hfit.1.1),
    if_neg (not_not_intro hfit.1), if_neg (not_not_intro hfit)]

theorem fit_of_eligible (h : (input.verdict c).isEligible = true) : c ∈ input.fit := by
  by_contra hout
  rw [verdict, if_pos hout] at h
  split_ifs at h <;> simp [Selection.isEligible] at h

theorem verdict_eq_selected_iff :
    input.verdict c = .selected ↔ c ∈ input.fit ∧ c.ahead input.fit < input.maxMembers := by
  constructor
  · intro h
    have hfit : c ∈ input.fit := fit_of_eligible (by rw [h]; rfl)
    rw [verdict_of_fit hfit] at h
    exact ⟨hfit, by simpa using h⟩
  · rintro ⟨hfit, hfew⟩
    rw [verdict_of_fit hfit, if_pos hfew]

theorem verdict_eq_standby_iff :
    input.verdict c = .standby ↔ c ∈ input.fit ∧ input.maxMembers ≤ c.ahead input.fit := by
  constructor
  · intro h
    have hfit : c ∈ input.fit := fit_of_eligible (by rw [h]; rfl)
    rw [verdict_of_fit hfit] at h
    exact ⟨hfit, by simpa using h⟩
  · rintro ⟨hfit, hmany⟩
    rw [verdict_of_fit hfit, if_neg hmany.not_gt]

end SelectionInput

/-! ## What a ranking tells of its set -/

section
open Ballot
variable {pool : List Candidate} {s : Set Candidate} {c : Candidate} {lagKey k : UInt16}
  {p : PartnerId} {arrange : Arrangement}

theorem Ranks.winningKey_eq (h : Ranks pool s) (hk : WinningKey lagKey s k) :
    winningKey lagKey pool = k := by
  unfold winningKey
  cases hk with
  | own hc hkey =>
    rw [if_pos (List.any_eq_true.mpr ⟨_, (h.mem _).mpr hc, by simpa using hkey⟩)]
  | first hother hfirst =>
    have hany : ¬pool.any (·.key == lagKey) = true := by
      simpa [h.mem] using hother
    rw [if_neg hany, h.head?_eq_some_iff.mpr hfirst]
    rfl

theorem Ranks.winningKey_winningKey (h : Ranks pool s) (hc : c ∈ s) :
    WinningKey lagKey s (winningKey lagKey pool) := by
  unfold winningKey
  split
  · next hany =>
    obtain ⟨d, hd, hkey⟩ := List.any_eq_true.mp hany
    exact .own ((h.mem d).mp hd) (by simpa using hkey)
  · next hany =>
    have hother : ∀ d ∈ s, d.key ≠ lagKey := by
      simpa [h.mem] using hany
    obtain ⟨d, hd⟩ : ∃ d, pool.head? = some d := by
      rw [← Option.isSome_iff_exists, List.isSome_head?]
      exact List.ne_nil_of_mem ((h.mem c).mpr hc)
    rw [hd]
    exact .first hother (h.head?_eq_some_iff.mp hd)

theorem Ranks.key_eq_winningKey_iff (h : Ranks pool s) (hc : c ∈ s) :
    c.key = winningKey lagKey pool ↔ WinningKey lagKey s c.key := by
  constructor
  · intro hkey
    rw [hkey]
    exact h.winningKey_winningKey hc
  · intro hk
    exact (h.winningKey_eq hk).symm

theorem Ranks.existsUnique_winningKey (h : Ranks pool s) (hs : s.Nonempty) :
    ∃! k, WinningKey lagKey s k := by
  obtain ⟨c, hc⟩ := hs
  exact ⟨_, h.winningKey_winningKey hc, fun k hk => (h.winningKey_eq hk).symm⟩

theorem Ranks.count_partner (h : Ranks pool s) (p : PartnerId) :
    (pool.filterMap (·.partner)).count p = followers s p := by
  have hlength := (h.filter fun c => c.partner == some p).length_eq
  rw [List.count_filterMap, List.countP_eq_length_filter, hlength]
  simp [followers]

theorem mem_partnerGroups {g : PartnerId × Nat} (h : Ranks pool s) :
    g ∈ partnerGroups pool ↔ (∃ c ∈ s, c.partner = some g.1) ∧ g.2 = followers s g.1 := by
  simp only [partnerGroups, List.mem_map, List.mem_eraseDups, List.mem_filterMap, h.count_partner,
    h.mem]
  constructor
  · rintro ⟨q, hq, rfl⟩
    exact ⟨hq, rfl⟩
  · rintro ⟨hfollowed, hcount⟩
    exact ⟨g.1, hfollowed, by rw [← hcount]⟩

/-- Going through the groups keeps the best one so far. -/
theorem foldl_better_spec (g : PartnerId × Nat) (groups : List (PartnerId × Nat)) :
    let best := groups.foldl (fun best h => if betterGroup h best then h else best) g
    best ∈ g :: groups ∧ ∀ h ∈ g :: groups, best.1.merit best.2 ≤ h.1.merit h.2 := by
  induction groups generalizing g with
  | nil => simp
  | cons h rest ih =>
    obtain ⟨hmem, hleast⟩ := ih (if betterGroup h g then h else g)
    rw [List.foldl_cons]
    -- the better of the first two groups stands for both
    have hstep : (if betterGroup h g then h else g).1.merit (if betterGroup h g then h else g).2 ≤
          g.1.merit g.2 ∧
        (if betterGroup h g then h else g).1.merit (if betterGroup h g then h else g).2 ≤
          h.1.merit h.2 := by
      split
      · next hbetter => exact ⟨((betterGroup_iff h g).mp hbetter).le, le_rfl⟩
      · next hbetter => exact ⟨le_rfl, not_lt.mp fun hlt => hbetter ((betterGroup_iff h g).mpr hlt)⟩
    refine ⟨?_, fun x hx => ?_⟩
    · obtain heq | hrest := List.mem_cons.mp hmem
      · rw [heq]
        split <;> simp
      · exact List.mem_cons_of_mem _ (List.mem_cons_of_mem _ hrest)
    · have hfirst := hleast _ List.mem_cons_self
      obtain rfl | hx := List.mem_cons.mp hx
      · exact hfirst.trans hstep.1
      · obtain rfl | hx := List.mem_cons.mp hx
        · exact hfirst.trans hstep.2
        · exact hleast x (List.mem_cons_of_mem _ hx)

theorem bestGroup_spec {groups : List (PartnerId × Nat)} {g : PartnerId × Nat}
    (h : bestGroup groups = some g) :
    g ∈ groups ∧ ∀ g' ∈ groups, g.1.merit g.2 ≤ g'.1.merit g'.2 := by
  cases groups with
  | nil => simp [bestGroup] at h
  | cons g' rest =>
    cases h
    exact foldl_better_spec g' rest

theorem WinningPartner.unique {q : PartnerId} (hp : WinningPartner s p) (hq : WinningPartner s q) :
    p = q := by
  obtain ⟨c, hc, hcp⟩ := hp.followed
  obtain ⟨d, hd, hdq⟩ := hq.followed
  exact PartnerId.merit_injective (le_antisymm (hp.best d hd q hdq) (hq.best c hc p hcp))

/-- In whatever order the groups come, the best partner wins. -/
theorem Ranks.winningPartner_eq_some_iff (h : Ranks pool s) (harrange : arrange.Permutes) :
    winningPartner arrange pool = some p ↔ WinningPartner s p := by
  have hmem (g : PartnerId × Nat) : g ∈ arrange (partnerGroups pool) ↔ _ :=
    (harrange _).mem_iff.trans (mem_partnerGroups h)
  have hwins : ∀ q, winningPartner arrange pool = some q → WinningPartner s q := by
    intro q hq
    obtain ⟨⟨r, n⟩, hbest, hr⟩ := Option.map_eq_some_iff.mp hq
    obtain rfl : r = q := hr
    obtain ⟨hg, hleast⟩ := bestGroup_spec hbest
    obtain ⟨hfollowed, hcount⟩ := (hmem _).mp hg
    obtain rfl : n = followers s r := hcount
    refine ⟨hfollowed, fun c hc q hcq => ?_⟩
    exact hleast (q, followers s q) ((hmem _).mpr ⟨⟨c, hc, hcq⟩, rfl⟩)
  refine ⟨hwins p, fun hp => ?_⟩
  cases hw : winningPartner arrange pool with
  | some q => rw [(hwins q hw).unique hp]
  | none =>
    have hnil := bestGroup_eq_none (Option.map_eq_none_iff.mp hw)
    have hgroup := (hmem (p, followers s p)).mpr ⟨hp.followed, rfl⟩
    simp [hnil] at hgroup

theorem Ranks.existsUnique_winningPartner (h : Ranks pool s)
    (hs : ∃ c ∈ s, c.partner.isSome = true) : ∃! p, WinningPartner s p := by
  obtain ⟨c, hc, hp⟩ := hs
  cases hw : winningPartner id pool with
  | none =>
    have hnone := partner_eq_none_of_no_winner (b := ⟨pool, []⟩) .refl hw ((h.mem c).mpr hc)
    simp [hnone] at hp
  | some p =>
    have hwins := (h.winningPartner_eq_some_iff .refl).mp hw
    exact ⟨p, hwins, fun q hq => hq.unique hwins⟩

theorem Ranks.referenceSpeed_eq_some_iff (h : Ranks pool s) {speed : Nat} :
    referenceSpeed pool = some speed ↔ ReferenceSpeed s speed := by
  have hknown := h.filter fun c => c.speed.isSome
  have hreference : referenceSpeed pool =
      (pool.filter fun c => c.speed.isSome).head?.bind (·.speed) := by
    clear h hknown
    induction pool with
    | nil => rfl
    | cons c rest ih => cases hc : c.speed <;> simp_all [referenceSpeed]
  rw [hreference, Option.bind_eq_some_iff]
  exact exists_congr fun c => and_congr_left' hknown.head?_eq_some_iff

theorem Ranks.existsUnique_referenceSpeed (h : Ranks pool s)
    (hs : ∃ c ∈ s, c.speed.isSome = true) : ∃! speed, ReferenceSpeed s speed := by
  obtain ⟨c, hc, hknown⟩ := hs
  cases hr : referenceSpeed pool with
  | none =>
    have hnone := List.findSome?_eq_none_iff.mp hr c ((h.mem c).mpr hc)
    simp [hnone] at hknown
  | some speed =>
    refine ⟨speed, h.referenceSpeed_eq_some_iff.mp hr, fun r hr' => ?_⟩
    exact Option.some.inj ((h.referenceSpeed_eq_some_iff.mpr hr').symm.trans hr)

end

/-! ## Ballots -/

namespace Ballot
variable {b : Ballot} {s t : Set Candidate} {input : SelectionInput} {arrange : Arrangement}

/-- The candidates of the set are in the running, all others have their verdicts, and each slot is
accounted for once. -/
structure Stands (b : Ballot) (input : SelectionInput) (s : Set Candidate) : Prop where
  subset : ∀ c ∈ s, c ∈ input.candidates
  ranks : Ranks b.pool s
  decided : ∀ slot d, (slot, d) ∈ b.decided ↔
    ∃ c ∈ input.candidates, c ∉ s ∧ c.slot = slot ∧ input.verdict c = d
  slots : (b.decided.map Prod.fst ++ b.pool.map Candidate.slot).Perm
    (input.candidates.map Candidate.slot)

theorem slots_reject_perm (reason? : Candidate → Option Exclusion) :
    ((b.reject reason?).decided.map Prod.fst ++ (b.reject reason?).pool.map Candidate.slot).Perm
      (b.decided.map Prod.fst ++ b.pool.map Candidate.slot) := by
  have hrejected (pool : List Candidate) :
      (pool.filterMap fun c => (reason? c).map fun r => (c.slot, Selection.unselected r)).map
        Prod.fst = (pool.filter fun c => !(reason? c).isNone).map Candidate.slot := by
    induction pool with
    | nil => rfl
    | cons c rest ih => cases hc : reason? c <;> simp [hc, ih]
  have hpool := ((List.filter_append_perm (fun c => (reason? c).isNone) b.pool).map Candidate.slot)
  rw [List.map_append] at hpool
  simp only [reject, List.map_append, List.map_reverse, hrejected]
  refine (List.perm_append_comm.append_right _).trans ?_
  rw [List.append_assoc]
  refine List.Perm.append_left _ ?_
  exact ((List.reverse_perm _).append_right _).trans (List.perm_append_comm.trans hpool)

/-- A test takes those out of the running that have a reason against them, and the reason is their
verdict. -/
theorem Stands.reject (h : b.Stands input s) {reason? : Candidate → Option Exclusion}
    (hsub : t ⊆ s) (hkeep : ∀ c ∈ s, reason? c = none ↔ c ∈ t)
    (hverdict : ∀ c ∈ s, c ∉ t → (reason? c).map .unselected = some (input.verdict c)) :
    (b.reject reason?).Stands input t where
  subset c hc := h.subset c (hsub hc)
  ranks := by
    have hset : {c ∈ s | (reason? c).isNone = true} = t := by
      ext c
      simp only [Option.isNone_iff_eq_none, Set.mem_ofPred_eq]
      exact ⟨fun hc => (hkeep c hc.1).mp hc.2, fun hc => ⟨hsub hc, (hkeep c (hsub hc)).mpr hc⟩⟩
    exact hset ▸ h.ranks.filter fun c => (reason? c).isNone
  decided slot d := by
    simp only [Ballot.reject, List.mem_append, List.mem_reverse, List.mem_filterMap,
      Option.map_eq_some_iff, h.decided, Prod.mk.injEq]
    constructor
    · rintro (⟨c, hc, r, hr, rfl, rfl⟩ | ⟨c, hc, hs, hslot, hd⟩)
      · have hs := (h.ranks.mem c).mp hc
        have ht : c ∉ t := fun ht => by simp [(hkeep c hs).mpr ht] at hr
        have hd := hverdict c hs ht
        rw [hr] at hd
        exact ⟨c, h.subset c hs, ht, rfl, (Option.some.inj hd).symm⟩
      · exact ⟨c, hc, fun ht => hs (hsub ht), hslot, hd⟩
    · rintro ⟨c, hc, ht, hslot, hd⟩
      by_cases hs : c ∈ s
      · obtain ⟨r, hr, hr'⟩ := Option.map_eq_some_iff.mp (hverdict c hs ht)
        exact .inl ⟨c, (h.ranks.mem c).mpr hs, r, hr, hslot, hr'.trans hd⟩
      · exact .inr ⟨c, hc, hs, hslot, hd⟩
  slots := (slots_reject_perm reason?).trans h.slots

theorem pool_start_perm (candidates : List Candidate) :
    (start candidates).pool.Perm (candidates.filter (·.enabled)) :=
  List.mergeSort_perm _ _

/-- No two candidates stand equally, as no two have the same slot. -/
theorem ranks_start (hslots : (input.candidates.map Candidate.slot).Nodup) :
    Ranks (start input.candidates).pool input.contenders := by
  refine ⟨fun c => mem_start_pool, ?_⟩
  have hle : (start input.candidates).pool.Pairwise fun a b => a.notAfter b = true := by
    refine List.pairwise_mergeSort (fun a b c hab hbc => ?_) (fun a b => ?_) _
    · rw [Candidate.notAfter_iff] at hab hbc ⊢
      exact hab.trans hbc
    · rw [Bool.or_eq_true, Candidate.notAfter_iff, Candidate.notAfter_iff]
      exact le_total _ _
  have hne : (start input.candidates).pool.Pairwise fun a b => a.slot ≠ b.slot := by
    have hperm := (pool_start_perm input.candidates).map Candidate.slot
    have hsub := (List.filter_sublist (p := (·.enabled)) (l := input.candidates)).map
      Candidate.slot
    exact List.pairwise_map.mp (hperm.nodup_iff.mpr (hslots.sublist hsub))
  refine hle.imp₂ (fun a b hle hne => ?_) hne
  exact ((Candidate.notAfter_iff a b).mp hle).lt_of_ne fun heq =>
    hne (Candidate.slot_eq_of_standing_eq heq)

theorem slots_start_perm (candidates : List Candidate) :
    ((start candidates).decided.map Prod.fst ++ (start candidates).pool.map Candidate.slot).Perm
      (candidates.map Candidate.slot) := by
  have hsplit := (List.filter_append_perm (·.enabled) candidates).map Candidate.slot
  rw [List.map_append] at hsplit
  have hdecided : (start candidates).decided.map Prod.fst =
      ((candidates.filter (!·.enabled)).map Candidate.slot).reverse := by
    simp [start, Function.comp_def]
  rw [hdecided]
  exact ((List.reverse_perm _).append ((pool_start_perm candidates).map _)).trans
    (List.perm_append_comm.trans hsplit)

/-- At first the enabled candidates are in the running. -/
theorem stands_start (hslots : (input.candidates.map Candidate.slot).Nodup) :
    (start input.candidates).Stands input input.contenders where
  subset c hc := hc.1
  ranks := ranks_start hslots
  decided slot d := by
    simp only [start, List.mem_reverse, List.mem_map, List.mem_filter, Bool.not_eq_true',
      Prod.mk.injEq]
    constructor
    · rintro ⟨c, ⟨hc, hdisabled⟩, hslot, hd⟩
      have hout : c ∉ input.contenders := fun hs => by simp [hs.2] at hdisabled
      exact ⟨c, hc, hout, hslot, (SelectionInput.verdict_of_not_contender hout).trans hd⟩
    · rintro ⟨c, hc, hout, hslot, hd⟩
      have hdisabled : c.enabled = false := Bool.eq_false_iff.mpr fun hs => hout ⟨hc, hs⟩
      exact ⟨c, ⟨hc, hdisabled⟩, hslot,
        (SelectionInput.verdict_of_not_contender hout).symm.trans hd⟩
  slots := slots_start_perm input.candidates

theorem Stands.byKey (h : b.Stands input input.contenders) :
    (b.byKey input.lagKey).Stands input input.keyed := by
  refine h.reject (fun c hc => hc.1) (fun c hc => ?_) (fun c hc hkeyed => ?_)
  · simp [SelectionInput.keyed, hc, h.ranks.key_eq_winningKey_iff hc]
  · have hkey : ¬c.key = winningKey input.lagKey b.pool := fun hkey =>
      hkeyed ⟨hc, (h.ranks.key_eq_winningKey_iff hc).mp hkey⟩
    simp [SelectionInput.verdict_of_not_keyed hc hkeyed, hkey]

theorem Stands.byPartner (h : b.Stands input input.keyed) (harrange : arrange.Permutes)
    (hdynamic : input.dynamic = true) : (b.byPartner arrange).Stands input input.partnered := by
  unfold Ballot.byPartner
  have hwinner (p : PartnerId) := h.ranks.winningPartner_eq_some_iff (p := p) harrange
  cases hw : winningPartner arrange b.pool with
  | none =>
    have hall : input.partnered = input.keyed :=
      Set.ext fun c => ⟨fun hc => hc.1, fun hc => ⟨hc, fun _ p hp => by
        simp [(hwinner p).mpr hp] at hw⟩⟩
    exact hall ▸ h
  | some winner =>
    have hwins := (hwinner winner).mp hw
    have hmem (c : Candidate) (hc : c ∈ input.keyed) :
        c ∈ input.partnered ↔ c.partner = some winner :=
      ⟨fun hp => hp.2 hdynamic winner hwins, fun hp => ⟨hc, fun _ p hp' => by
        rw [hp, hwins.unique hp']⟩⟩
    refine h.reject (fun c hc => hc.1) (fun c hc => ?_) (fun c hc hout => ?_)
    · rw [hmem c hc, partnerObjection]
      cases c.partner with
      | none => simp
      | some p => by_cases hp : p = winner <;> simp [hp]
    · rw [SelectionInput.verdict_of_not_partnered hc hout, partnerObjection]
      rw [hmem c hc] at hout
      cases hp : c.partner with
      | none => rfl
      | some p =>
        have hne : p ≠ winner := fun heq => hout (heq ▸ hp)
        simp [hne]

theorem Stands.bySpeed (h : b.Stands input input.partnered) :
    b.bySpeed.Stands input input.fit := by
  unfold Ballot.bySpeed
  have hreference (r : Nat) : referenceSpeed b.pool = some r ↔
      ReferenceSpeed input.partnered r := h.ranks.referenceSpeed_eq_some_iff
  cases hr : referenceSpeed b.pool with
  | none =>
    have hall : input.fit = input.partnered :=
      Set.ext fun c => ⟨fun hc => hc.1, fun hc => ⟨hc, fun r _ hr' _ => by
        simp [(hreference r).mpr hr'] at hr⟩⟩
    exact hall ▸ h
  | some reference =>
    have hmem (c : Candidate) (hc : c ∈ input.partnered) :
        c ∈ input.fit ↔ speedObjection reference c = none := by
      rw [speedObjection]
      constructor
      · intro hfit
        cases hs : c.speed with
        | none => rfl
        | some speed => exact if_pos (hfit.2 reference speed ((hreference reference).mp hr) hs)
      · refine fun hno => ⟨hc, fun r speed hr' hs => ?_⟩
        obtain rfl : reference = r := Option.some.inj (hr.symm.trans ((hreference r).mpr hr'))
        simpa [hs] using hno
    refine h.reject (fun c hc => hc.1) (fun c hc => (hmem c hc).symm) (fun c hc hout => ?_)
    rw [SelectionInput.verdict_of_not_fit hc hout]
    rw [hmem c hc, speedObjection] at hout
    rw [speedObjection]
    cases hs : c.speed with
    | none => simp [hs] at hout
    | some speed =>
      have hne : speed ≠ reference := fun heq => by simp [hs, heq] at hout
      simp [hne]

theorem stands_partnered (harrange : arrange.Permutes)
    (hslots : (input.candidates.map Candidate.slot).Nodup) :
    (if input.dynamic then ((start input.candidates).byKey input.lagKey).byPartner arrange
      else (start input.candidates).byKey input.lagKey).Stands input input.partnered := by
  have hkeyed := (stands_start hslots).byKey
  split
  · next hdynamic => exact hkeyed.byPartner harrange hdynamic
  · next hstatic =>
    have hall : input.partnered = input.keyed :=
      Set.ext fun c => ⟨fun hc => hc.1, fun hc => ⟨hc, fun hdynamic => absurd hdynamic hstatic⟩⟩
    exact hall ▸ hkeyed

/-- After all tests the fit candidates are left, in whatever order the groups came. -/
theorem stands_run (harrange : arrange.Permutes)
    (hslots : (input.candidates.map Candidate.slot).Nodup) :
    (run arrange input).Stands input input.fit :=
  (stands_partnered harrange hslots).bySpeed

end Ballot

/-! ## The outcome -/

theorem Assoc.get?_eq_some_iff_mem {κ α : Type} [DecidableEq κ] {m : List (κ × α)} {key : κ}
    {value : α} (hnodup : (m.map Prod.fst).Nodup) :
    get? key m = some value ↔ (key, value) ∈ m := by
  refine ⟨mem_of_get?, fun hmem => ?_⟩
  induction m with
  | nil => simp at hmem
  | cons p rest ih =>
    obtain ⟨k, v⟩ := p
    obtain ⟨hk, hrest⟩ := List.nodup_cons.mp hnodup
    obtain heq | hmem := List.mem_cons.mp hmem
    · cases heq
      exact if_pos rfl
    · have hne : k ≠ key := fun heq => hk (List.mem_map.mpr ⟨_, hmem, heq.symm⟩)
      exact (if_neg hne).trans (ih hrest hmem)

section
variable {input : SelectionInput} {arrange : Ballot.Arrangement} (harrange : arrange.Permutes)
  (hslots : (input.candidates.map Candidate.slot).Nodup)
include harrange hslots

theorem mem_decided_iff {slot : Nat} {d : Selection} :
    (slot, d) ∈ (selectIn arrange input).decided ↔
      ∃ c ∈ input.candidates, c.slot = slot ∧ input.verdict c = d := by
  have h := Ballot.stands_run harrange hslots
  simp only [selectIn, List.mem_append, List.mem_reverse, List.map_map, List.mem_map,
    Function.comp_apply, Prod.mk.injEq, h.decided, h.ranks.mem_take_iff, h.ranks.mem_drop_iff]
  constructor
  · rintro ((⟨c, ⟨hfit, hmany⟩, hslot, rfl⟩ | ⟨c, ⟨hfit, hfew⟩, hslot, rfl⟩) |
      ⟨c, hc, -, hslot, hd⟩)
    · exact ⟨c, h.subset c hfit, hslot,
        (SelectionInput.verdict_of_fit hfit).trans (if_neg hmany.not_gt)⟩
    · exact ⟨c, h.subset c hfit, hslot, (SelectionInput.verdict_of_fit hfit).trans (if_pos hfew)⟩
    · exact ⟨c, hc, hslot, hd⟩
  · rintro ⟨c, hc, hslot, rfl⟩
    by_cases hfit : c ∈ input.fit
    · rw [SelectionInput.verdict_of_fit hfit]
      split
      · next hfew => exact .inl (.inr ⟨c, ⟨hfit, hfew⟩, hslot, rfl⟩)
      · next hmany => exact .inl (.inl ⟨c, ⟨hfit, not_lt.mp hmany⟩, hslot, rfl⟩)
    · exact .inr ⟨c, hc, hfit, hslot, rfl⟩

/-- Every candidate is decided once. -/
theorem slots_decided_perm :
    ((selectIn arrange input).decided.map Prod.fst).Perm (input.candidates.map Candidate.slot) := by
  have h := Ballot.stands_run harrange hslots
  refine List.Perm.trans ?_ h.slots
  simp only [selectIn, List.map_append, List.map_reverse, List.map_map, Function.comp_def]
  refine List.perm_append_comm.trans (List.Perm.append_left _ ?_)
  have hsplit := congrArg (List.map Candidate.slot)
    (List.take_append_drop input.maxMembers (Ballot.run arrange input).pool)
  rw [List.map_append] at hsplit
  refine List.Perm.trans ?_ (.of_eq hsplit)
  exact ((List.reverse_perm _).append (List.reverse_perm _)).trans List.perm_append_comm

theorem get?_decided {c : Candidate} (hc : c ∈ input.candidates) :
    Assoc.get? c.slot (selectIn arrange input).decided = some (input.verdict c) := by
  have hperm := slots_decided_perm harrange hslots
  rw [Assoc.get?_eq_some_iff_mem (hperm.nodup_iff.mpr hslots), mem_decided_iff harrange hslots]
  exact ⟨c, hc, rfl, rfl⟩

/-- The slots of the selected candidates are listed best first. -/
theorem ranks_active : ∃ selected, Ranks selected {c | input.verdict c = .selected} ∧
    (selectIn arrange input).active = selected.map Candidate.slot := by
  have h := Ballot.stands_run harrange hslots
  refine ⟨(Ballot.run arrange input).pool.take input.maxMembers, ⟨fun c => ?_, ?_⟩, rfl⟩
  · rw [h.ranks.mem_take_iff, Set.mem_ofPred_eq, SelectionInput.verdict_eq_selected_iff]
  · exact h.ranks.sorted.sublist (List.take_sublist _ _)

/-- Nobody stands by while there is room. -/
theorem length_active_of_standby {c : Candidate} (hc : input.verdict c = .standby) :
    (selectIn arrange input).active.length = input.maxMembers := by
  have h := Ballot.stands_run harrange hslots
  obtain ⟨hfit, hmany⟩ := SelectionInput.verdict_eq_standby_iff.mp hc
  have hlong := h.ranks.ahead_lt_length hfit
  simp only [selectIn, List.length_map, List.length_take]
  omega

/-- Whoever is selected stands before those that stand by. -/
theorem standing_lt_of_selected_of_standby {c d : Candidate} (hc : input.verdict c = .selected)
    (hd : input.verdict d = .standby) : c.standing < d.standing := by
  have h := Ballot.stands_run harrange hslots
  obtain ⟨hcfit, hfew⟩ := SelectionInput.verdict_eq_selected_iff.mp hc
  obtain ⟨hdfit, hmany⟩ := SelectionInput.verdict_eq_standby_iff.mp hd
  exact h.ranks.standing_lt_of_ahead_lt hcfit hdfit (hfew.trans_le hmany)

end

/-- The rule is definite: one key wins, one partner if a candidate has any, and one speed is the
reference if any is known. -/
structure SelectionInput.Definite (input : SelectionInput) : Prop where
  key : input.contenders.Nonempty → ∃! k, WinningKey input.lagKey input.contenders k
  partner : (∃ c ∈ input.keyed, c.partner.isSome = true) → ∃! p, WinningPartner input.keyed p
  speed : (∃ c ∈ input.partnered, c.speed.isSome = true) →
    ∃! speed, ReferenceSpeed input.partnered speed

theorem SelectionInput.definite {input : SelectionInput}
    (hslots : (input.candidates.map Candidate.slot).Nodup) : input.Definite where
  key := (Ballot.ranks_start hslots).existsUnique_winningKey
  partner := (Ballot.stands_start hslots).byKey.ranks.existsUnique_winningPartner
  speed := (Ballot.stands_partnered .refl hslots).ranks.existsUnique_referenceSpeed

/-- The output is what the rule says of this input. -/
structure SelectionOutput.Decides (output : SelectionOutput) (input : SelectionInput) : Prop where
  /-- Each candidate is decided once and nothing else is. -/
  slots : (output.decided.map Prod.fst).Perm (input.candidates.map Candidate.slot)
  verdict : ∀ c ∈ input.candidates, Assoc.get? c.slot output.decided = some (input.verdict c)
  /-- The active slots are those of the selected candidates, best first. -/
  active : ∃ selected, Ranks selected {c | input.verdict c = .selected} ∧
    output.active = selected.map Candidate.slot
  order : ∀ c ∈ input.candidates, ∀ d ∈ input.candidates,
    Assoc.get? c.slot output.decided = some .selected →
    Assoc.get? d.slot output.decided = some .standby → c.standing < d.standing
  /-- Nobody stands by while there is room. -/
  full : ∀ c ∈ input.candidates, Assoc.get? c.slot output.decided = some .standby →
    output.active.length = input.maxMembers

/-- Selection follows the rule, in whatever order the groups of partners are looked through. -/
theorem decides_selectIn {arrange : Ballot.Arrangement} (harrange : arrange.Permutes)
    (input : SelectionInput) (hslots : (input.candidates.map Candidate.slot).Nodup) :
    input.Definite ∧ (selectIn arrange input).Decides input := by
  refine ⟨SelectionInput.definite hslots, ?_⟩
  have hget (c : Candidate) (hc : c ∈ input.candidates) := get?_decided harrange hslots hc
  exact {
    slots := slots_decided_perm harrange hslots
    verdict := hget
    active := ranks_active harrange hslots
    order := by
      intro c hc d hd hselected hstandby
      rw [hget c hc, Option.some.injEq] at hselected
      rw [hget d hd, Option.some.injEq] at hstandby
      exact standing_lt_of_selected_of_standby harrange hslots hselected hstandby
    full := by
      intro c hc hstandby
      rw [hget c hc, Option.some.injEq] at hstandby
      exact length_active_of_standby harrange hslots hstandby }

/-- Nine ports of a dynamic LAG with room for two. Slot 0 is down, slot 1 has another key, slot 2
hears nobody and slot 3 a partner with a better address but a worse priority; of two equally good
systems the partner with more followers wins over the one with the lower key that slot 4 has; slot 6
goes slower than slot 5. -/
def crowded : SelectionInput where
  lagKey := 1
  dynamic := true
  maxMembers := 2
  candidates := [
    candidate 0 false 1 (some (partner 100 7 9)) (some 1000),
    candidate 1 true 5 (some (partner 100 7 9)) (some 1000),
    candidate 2 true 1 none (some 1000),
    candidate 3 true 1 (some (partner 200 1 9)) (some 1000),
    candidate 4 true 1 (some (partner 100 7 2)) (some 1000),
    candidate 5 true 1 (some (partner 100 7 9)) (some 1000),
    candidate 6 true 1 (some (partner 100 7 9)) (some 10),
    candidate 7 true 1 (some (partner 100 7 9)) none,
    candidate 8 true 1 (some (partner 100 7 9)) (some 1000)]
where
  partner (priority : UInt16) (octet : UInt8) (key : UInt16) : PartnerId :=
    ⟨⟨priority, { o6 := octet }⟩, key⟩
  candidate (slot : Nat) (enabled : Bool) (key : UInt16) (partner : Option PartnerId)
      (speed : Option Nat) : Candidate :=
    { slot, enabled, key, partner, speed, port := ⟨1, UInt16.ofNat (slot + 1)⟩, partnerPort := {} }

theorem decides_select_crowded :
    Ballot.Arrangement.Permutes id ∧ (crowded.candidates.map Candidate.slot).Nodup ∧
      crowded.Definite ∧ (select crowded).Decides crowded :=
  ⟨.refl, by decide, decides_selectIn .refl crowded (by decide)⟩

example : (select crowded).active = [5, 7] := by cbv

/-! ## Order does not matter -/

namespace SelectionInput
variable {input : SelectionInput} {candidates : List Candidate}
  (hmem : ∀ c, c ∈ candidates ↔ c ∈ input.candidates)
include hmem

theorem contenders_congr : ({ input with candidates } : SelectionInput).contenders =
    input.contenders := by
  simp only [contenders, hmem]

theorem keyed_congr : ({ input with candidates } : SelectionInput).keyed = input.keyed := by
  simp only [keyed, contenders_congr hmem]

theorem partnered_congr : ({ input with candidates } : SelectionInput).partnered =
    input.partnered := by
  simp only [partnered, keyed_congr hmem]

theorem fit_congr : ({ input with candidates } : SelectionInput).fit = input.fit := by
  simp only [fit, partnered_congr hmem]

/-- The verdicts depend on who the candidates are, not on how they are listed. -/
theorem verdict_congr : ({ input with candidates } : SelectionInput).verdict = input.verdict := by
  funext c
  rw [verdict, verdict, contenders_congr hmem, keyed_congr hmem, partnered_congr hmem,
    fit_congr hmem]

end SelectionInput

/-- Listing the candidates in another order and looking the groups of partners through in another
order changes neither a decision nor the active slots. -/
theorem selectIn_eq_of_perm {arrange arrange' : Ballot.Arrangement} (harrange : arrange.Permutes)
    (harrange' : arrange'.Permutes) (input : SelectionInput)
    (hslots : (input.candidates.map Candidate.slot).Nodup) {candidates : List Candidate}
    (hperm : candidates.Perm input.candidates) :
    (∀ slot, Assoc.get? slot (selectIn arrange' { input with candidates }).decided =
      Assoc.get? slot (selectIn arrange input).decided) ∧
    (selectIn arrange' { input with candidates }).active = (selectIn arrange input).active := by
  have hslots' : (({ input with candidates } : SelectionInput).candidates.map
      Candidate.slot).Nodup := (hperm.map Candidate.slot).nodup_iff.mpr hslots
  have hverdict : ({ input with candidates } : SelectionInput).verdict = input.verdict :=
    SelectionInput.verdict_congr fun c => hperm.mem_iff
  constructor
  · intro slot
    have hnodup := (slots_decided_perm harrange hslots).nodup_iff.mpr hslots
    have hnodup' := (slots_decided_perm harrange' hslots').nodup_iff.mpr hslots'
    refine Option.ext fun d => ?_
    rw [Assoc.get?_eq_some_iff_mem hnodup, Assoc.get?_eq_some_iff_mem hnodup',
      mem_decided_iff harrange hslots, mem_decided_iff harrange' hslots', hverdict]
    simp only [hperm.mem_iff]
  · obtain ⟨selected, hranks, hactive⟩ := ranks_active harrange hslots
    obtain ⟨selected', hranks', hactive'⟩ := ranks_active harrange' hslots'
    rw [hverdict] at hranks'
    rw [hactive, hactive', hranks.unique hranks']

theorem selectIn_crowded_reversed :
    Ballot.Arrangement.Permutes id ∧ Ballot.Arrangement.Permutes List.reverse ∧
      (crowded.candidates.map Candidate.slot).Nodup ∧
      crowded.candidates.reverse.Perm crowded.candidates ∧
      (∀ slot, Assoc.get? slot (selectIn List.reverse
          { crowded with candidates := crowded.candidates.reverse }).decided =
        Assoc.get? slot (select crowded).decided) ∧
      (selectIn List.reverse
        { crowded with candidates := crowded.candidates.reverse }).active =
          (select crowded).active :=
  ⟨.refl, List.reverse_perm, by decide, List.reverse_perm _,
    selectIn_eq_of_perm .refl List.reverse_perm crowded (by decide) (List.reverse_perm _)⟩

end LinkAggregation
