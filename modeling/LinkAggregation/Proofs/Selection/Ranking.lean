import LinkAggregation.Proofs.Selection
import Mathlib.Data.List.Sort
import Mathlib.Data.Prod.Lex
import Mathlib.Data.Set.Card

/-!
# Rankings of candidates

The standing of a candidate is its place in the order of ports, the merit of a partner its place
in the order of partners. A ranking of a set of candidates lists each of them once, best first, so
that a set has at most one ranking. What selection reads off a ranking is a question about the
set: its first candidate, its first known speed, its best partner, its best few.
-/
namespace LinkAggregation

/-! ## The two orders -/

namespace MacAddress

theorem value_lt (m : MacAddress) : m.value < 0x1000000000000 := by
  have h1 := m.o1.toNat_lt
  have h2 := m.o2.toNat_lt
  have h3 := m.o3.toNat_lt
  have h4 := m.o4.toNat_lt
  have h5 := m.o5.toNat_lt
  have h6 := m.o6.toNat_lt
  simp only [value, octets, List.foldl_cons, List.foldl_nil]
  omega

/-- Addresses with one value are one address. -/
theorem value_injective : Function.Injective value := by
  rintro ⟨a1, a2, a3, a4, a5, a6⟩ ⟨b1, b2, b3, b4, b5, b6⟩ h
  simp only [value, octets, List.foldl_cons, List.foldl_nil] at h
  have := a1.toNat_lt
  have := a2.toNat_lt
  have := a3.toNat_lt
  have := a4.toNat_lt
  have := a5.toNat_lt
  have := a6.toNat_lt
  have := b1.toNat_lt
  have := b2.toNat_lt
  have := b3.toNat_lt
  have := b4.toNat_lt
  have := b5.toNat_lt
  have := b6.toNat_lt
  simp only [mk.injEq, ← UInt8.toNat_inj]
  omega

end MacAddress

/-- Where a candidate stands: own port, partner's port, slot. The lower is the better. -/
def Candidate.standing (c : Candidate) : Nat ×ₗ Nat ×ₗ Nat ×ₗ Nat ×ₗ Nat :=
  toLex (c.port.priority.toNat, toLex (c.port.number.toNat,
    toLex (c.partnerPort.priority.toNat, toLex (c.partnerPort.number.toNat, c.slot))))

/-- How good a partner is that so many candidates have: the priority and the address of its system,
then more candidates, then its key. The lower is the better. -/
def PartnerId.merit (p : PartnerId) (followers : Nat) : Nat ×ₗ Nat ×ₗ Natᵒᵈ ×ₗ Nat :=
  toLex (p.system.priority.toNat, toLex (p.system.mac.value,
    toLex (OrderDual.toDual followers, p.key.toNat)))

theorem SystemId.rank_lt_iff (s t : SystemId) : s.rank < t.rank ↔
    s.priority.toNat < t.priority.toNat ∨
      s.priority.toNat = t.priority.toNat ∧ s.mac.value < t.mac.value := by
  have hs := s.mac.value_lt
  have ht := t.mac.value_lt
  simp only [rank]
  omega

theorem SystemId.rank_eq_iff (s t : SystemId) : s.rank = t.rank ↔
    s.priority.toNat = t.priority.toNat ∧ s.mac.value = t.mac.value := by
  have hs := s.mac.value_lt
  have ht := t.mac.value_lt
  simp only [rank]
  omega

theorem PortId.rank_lt_iff (p q : PortId) : p.rank < q.rank ↔
    p.priority.toNat < q.priority.toNat ∨
      p.priority.toNat = q.priority.toNat ∧ p.number.toNat < q.number.toNat := by
  have hp := p.number.toNat_lt
  have hq := q.number.toNat_lt
  simp only [rank]
  omega

theorem PortId.rank_eq_iff (p q : PortId) : p.rank = q.rank ↔
    p.priority.toNat = q.priority.toNat ∧ p.number.toNat = q.number.toNat := by
  have hp := p.number.toNat_lt
  have hq := q.number.toNat_lt
  simp only [rank]
  omega

theorem Candidate.notAfter_iff (a b : Candidate) :
    a.notAfter b = true ↔ a.standing ≤ b.standing := by
  simp only [notAfter, standing, Bool.or_eq_true, Bool.and_eq_true, decide_eq_true_eq, beq_iff_eq,
    PortId.rank_lt_iff, PortId.rank_eq_iff, Prod.Lex.toLex_le_toLex]
  omega

theorem Candidate.slot_eq_of_standing_eq {a b : Candidate} (h : a.standing = b.standing) :
    a.slot = b.slot := by
  simp only [standing, toLex_inj, Prod.mk.injEq] at h
  exact h.2.2.2.2

theorem PartnerId.merit_injective {p q : PartnerId} {m n : Nat} (h : p.merit m = q.merit n) :
    p = q := by
  obtain ⟨⟨priority, mac⟩, key⟩ := p
  obtain ⟨⟨priority', mac'⟩, key'⟩ := q
  simp only [merit, toLex_inj, Prod.mk.injEq, UInt16.toNat_inj] at h
  obtain ⟨rfl, hmac, -, rfl⟩ := h
  rw [MacAddress.value_injective hmac]

theorem Ballot.betterGroup_iff (a b : PartnerId × Nat) :
    betterGroup a b = true ↔ a.1.merit a.2 < b.1.merit b.2 := by
  simp only [betterGroup, PartnerId.merit, Bool.or_eq_true, Bool.and_eq_true, decide_eq_true_eq,
    beq_iff_eq, SystemId.rank_lt_iff, SystemId.rank_eq_iff, Prod.Lex.toLex_lt_toLex,
    OrderDual.toDual_lt_toDual, OrderDual.toDual_inj, UInt16.lt_iff_toNat_lt]
  omega

/-! ## Rankings -/

/-- The first of a set of candidates. -/
structure Candidate.IsFirst (c : Candidate) (s : Set Candidate) : Prop where
  mem : c ∈ s
  least : ∀ d ∈ s, c.standing ≤ d.standing

/-- How many candidates of a set stand before this one. -/
noncomputable def Candidate.ahead (c : Candidate) (s : Set Candidate) : Nat :=
  {d ∈ s | d.standing < c.standing}.ncard

/-- The list holds the candidates of the set, each once, best first. -/
structure Ranks (pool : List Candidate) (s : Set Candidate) : Prop where
  mem : ∀ c, c ∈ pool ↔ c ∈ s
  sorted : pool.Pairwise fun a b => a.standing < b.standing

namespace Ranks
variable {pool pool' : List Candidate} {s : Set Candidate} {c : Candidate} (h : Ranks pool s)
include h

theorem nodup : pool.Nodup := h.sorted.imp fun hlt heq => (heq ▸ hlt).false

/-- A set has at most one ranking. -/
theorem unique (h' : Ranks pool' s) : pool = pool' := by
  have hperm : pool.Perm pool' := (List.perm_ext_iff_of_nodup h.nodup h'.nodup).mpr fun c =>
    (h.mem c).trans (h'.mem c).symm
  refine hperm.eq_of_pairwise (fun a b _ _ hab hba => ?_) h.sorted h'.sorted
  exact absurd hab hba.asymm

theorem length_eq : pool.length = s.ncard := by
  have hset : s = (pool.toFinset : Set Candidate) := by
    ext c
    simp [h.mem]
  rw [hset, Set.ncard_coe_finset, List.toFinset_card_of_nodup h.nodup]

theorem filter (keep : Candidate → Bool) :
    Ranks (pool.filter keep) {c ∈ s | keep c = true} where
  mem c := by simp [h.mem]
  sorted := h.sorted.filter _

theorem head?_eq_some_iff : pool.head? = some c ↔ c.IsFirst s := by
  constructor
  · intro hhead
    obtain ⟨rest, rfl⟩ := List.head?_eq_some_iff.mp hhead
    refine ⟨(h.mem c).mp (by simp), fun d hd => ?_⟩
    obtain rfl | hd := List.mem_cons.mp ((h.mem d).mpr hd)
    · exact le_rfl
    · exact (List.rel_of_pairwise_cons h.sorted hd).le
  · rintro ⟨hc, hleast⟩
    cases pool with
    | nil => simpa using (h.mem c).mpr hc
    | cons d rest =>
      obtain rfl | hc := List.mem_cons.mp ((h.mem c).mpr hc)
      · rfl
      · have hlt := List.rel_of_pairwise_cons h.sorted hc
        exact absurd (hleast d ((h.mem d).mp (by simp))) hlt.not_ge

/-- A candidate with so many before it stands right after them. -/
theorem ahead_eq {before after : List Candidate} (hpool : pool = before ++ c :: after) :
    c.ahead s = before.length := by
  subst hpool
  obtain ⟨-, hafter, hcross⟩ := List.pairwise_append.mp h.sorted
  have hbefore : (before ++ c :: after).filter (fun d => d.standing < c.standing) = before := by
    have hkeep : ∀ d ∈ before, decide (d.standing < c.standing) = true := fun d hd => by
      simpa using hcross d hd c (by simp)
    have hdrop : ∀ d ∈ c :: after, ¬decide (d.standing < c.standing) = true := by
      intro d hd
      obtain rfl | hd := List.mem_cons.mp hd
      · simp
      · simpa using (List.rel_of_pairwise_cons hafter hd).le
    rw [List.filter_append, List.filter_eq_self.mpr hkeep, List.filter_eq_nil_iff.mpr hdrop,
      List.append_nil]
  have hlength := (h.filter fun d => d.standing < c.standing).length_eq
  rw [hbefore] at hlength
  simpa [Candidate.ahead] using hlength.symm

/-- The best few are those with fewer candidates before them. -/
theorem mem_take_iff {n : Nat} : c ∈ pool.take n ↔ c ∈ s ∧ c.ahead s < n := by
  constructor
  · intro hc
    have hpool := List.mem_of_mem_take hc
    obtain ⟨before, after, rfl⟩ := List.append_of_mem hpool
    refine ⟨(h.mem c).mp hpool, ?_⟩
    rw [h.ahead_eq rfl]
    by_contra hlong
    rw [List.take_append_of_le_length (by omega)] at hc
    have hnodup := List.nodup_append.mp h.nodup
    exact hnodup.2.2 c (List.mem_of_mem_take hc) c (by simp) rfl
  · rintro ⟨hc, hfew⟩
    obtain ⟨before, after, rfl⟩ := List.append_of_mem ((h.mem c).mpr hc)
    rw [h.ahead_eq rfl] at hfew
    rw [List.take_append, List.mem_append]
    obtain ⟨k, hk⟩ : ∃ k, n - before.length = k + 1 := ⟨n - before.length - 1, by omega⟩
    exact .inr (by simp [hk])

theorem mem_drop_iff {n : Nat} : c ∈ pool.drop n ↔ c ∈ s ∧ n ≤ c.ahead s := by
  have hnodup := h.nodup
  rw [← List.take_append_drop n pool] at hnodup
  have hsplit : c ∈ pool ↔ c ∈ pool.take n ∨ c ∈ pool.drop n := by
    rw [← List.mem_append, List.take_append_drop]
  have hnot : c ∈ pool.drop n → c ∉ pool.take n := fun hdrop htake =>
    (List.nodup_append.mp hnodup).2.2 c htake c hdrop rfl
  rw [h.mem] at hsplit
  rw [h.mem_take_iff] at hsplit hnot
  constructor
  · intro hdrop
    have hs := hsplit.mpr (.inr hdrop)
    exact ⟨hs, not_lt.mp fun hlt => hnot hdrop ⟨hs, hlt⟩⟩
  · rintro ⟨hs, hle⟩
    exact (hsplit.mp hs).resolve_left fun htake => htake.2.not_ge hle

/-- Of two candidates the one with fewer before it stands before the other. -/
theorem standing_lt_of_ahead_lt {d : Candidate} (hc : c ∈ s) (hd : d ∈ s)
    (hlt : c.ahead s < d.ahead s) : c.standing < d.standing := by
  have hsorted := h.sorted
  rw [← List.take_append_drop (d.ahead s) pool] at hsorted
  exact (List.pairwise_append.mp hsorted).2.2 c (h.mem_take_iff.mpr ⟨hc, hlt⟩) d
    (h.mem_drop_iff.mpr ⟨hd, le_rfl⟩)

theorem ahead_lt_length (hc : c ∈ s) : c.ahead s < pool.length := by
  obtain ⟨before, after, rfl⟩ := List.append_of_mem ((h.mem c).mpr hc)
  rw [h.ahead_eq rfl, List.length_append, List.length_cons]
  omega

end Ranks
end LinkAggregation
