import LinkAggregation.Queue.Entry
import Mathlib.Data.List.Pairwise
import Mathlib.Data.String.Basic

/-!
# Queues in order

A queue holds its entries by key, each key once and in ascending order, and counts them. A queue of
table entries merges: of the entries of a key only the last one can be a SET. So entries come out by
key, and nothing of the same key comes after a SET.
-/
namespace LinkAggregation
namespace Queue

/-! ## Groups in the order of their keys -/

section
variable {α : Type} {key : String} {entries : List α} {groups : List (String × List α)}
  {g : String × List α}

/-- No key comes twice, and smaller keys come first. -/
def Ascending (groups : List (String × List α)) : Prop := groups.Pairwise (·.1 < ·.1)

/-- What the groups have for a key. -/
def entriesOf (key : String) (groups : List (String × List α)) : List α :=
  ((groups.find? fun g => g.1 == key).map Prod.snd).getD []

theorem pending_eq (q : Queue α) (key : String) : q.pending key = entriesOf key q.groups := rfl

theorem entriesOf_cons (k : String) (old : List α) (rest : List (String × List α)) :
    entriesOf key ((k, old) :: rest) = if k = key then old else entriesOf key rest := by
  by_cases hk : k = key <;> simp [entriesOf, hk]

theorem entriesOf_store (other key : String) (entries : List α)
    (groups : List (String × List α)) :
    entriesOf other (store key entries groups) =
      if key = other then entries else entriesOf other groups := by
  induction groups with
  | nil => rw [store, entriesOf_cons]
  | cons g rest ih =>
    obtain ⟨k, old⟩ := g
    unfold store
    by_cases hk : k = key
    · subst hk
      rw [if_pos rfl, entriesOf_cons, entriesOf_cons]
      split <;> rfl
    · rw [if_neg hk]
      split
      · rw [entriesOf_cons]
      · rw [entriesOf_cons, ih, entriesOf_cons]
        by_cases hother : key = other
        · rw [if_pos hother, if_neg fun heq => hk (heq.trans hother.symm), if_pos hother]
        · rw [if_neg hother, if_neg hother]

theorem entriesOf_eq_nil (h : ∀ g ∈ groups, g.1 ≠ key) : entriesOf key groups = [] := by
  have hnone : (groups.find? fun g => g.1 == key) = none := by simpa using h
  rw [entriesOf, hnone]
  rfl

theorem entriesOf_eq_nil_of_lt (h : ∀ g ∈ groups, key < g.1) : entriesOf key groups = [] :=
  entriesOf_eq_nil fun g hg => (h g hg).ne'

theorem mem_of_mem_entriesOf {x : α} (h : x ∈ entriesOf key groups) :
    ∃ g ∈ groups, g.1 = key ∧ g.2 = entriesOf key groups := by
  unfold entriesOf at h ⊢
  cases hfind : groups.find? fun g => g.1 == key with
  | none => simp [hfind] at h
  | some g => exact ⟨g, List.mem_of_find?_eq_some hfind, by simpa using List.find?_some hfind, rfl⟩

theorem drain_drain (q : Queue α) : q.drain.2.drain = ([], q.drain.2) := rfl

theorem store_of_lt (h : ∀ g ∈ groups, key < g.1) :
    store key entries groups = (key, entries) :: groups := by
  cases groups with
  | nil => rfl
  | cons g rest =>
    have hlt := h g List.mem_cons_self
    simp [store, hlt, hlt.ne']

/-- Storing changes the group of the key and no other. -/
theorem mem_store (h : Ascending groups) :
    g ∈ store key entries groups ↔ g = (key, entries) ∨ g ∈ groups ∧ g.1 ≠ key := by
  induction groups with
  | nil => simp [store]
  | cons first rest ih =>
    obtain ⟨k, old⟩ := first
    obtain ⟨hfirst, hrest⟩ := List.pairwise_cons.mp h
    by_cases hk : k = key
    · subst hk
      have hother : ∀ g ∈ rest, g.1 ≠ k := fun g hg => (hfirst g hg).ne'
      have hkept : g ∈ (k, old) :: rest ∧ g.1 ≠ k ↔ g ∈ rest := by
        constructor
        · rintro ⟨hg, hne⟩
          exact (List.mem_cons.mp hg).resolve_left fun heq => hne (heq ▸ rfl)
        · exact fun hg => ⟨List.mem_cons_of_mem _ hg, hother g hg⟩
      rw [store, if_pos rfl, List.mem_cons, hkept]
    · by_cases hlt : key < k
      · have hall : ∀ g ∈ (k, old) :: rest, g.1 ≠ key :=
          List.forall_mem_cons.mpr ⟨hk, fun g hg => (hlt.trans (hfirst g hg)).ne'⟩
        rw [store_of_lt, List.mem_cons, and_iff_left_of_imp (hall g)]
        exact List.forall_mem_cons.mpr ⟨hlt, fun g hg => hlt.trans (hfirst g hg)⟩
      · have hkept : g = (k, old) ∧ g.1 ≠ key ↔ g = (k, old) :=
          and_iff_left_of_imp fun heq => heq ▸ hk
        rw [store, if_neg hk, if_neg hlt, List.mem_cons, ih hrest, List.mem_cons, or_and_right,
          hkept]
        exact or_left_comm

theorem ascending_store (h : Ascending groups) : Ascending (store key entries groups) := by
  induction groups with
  | nil => exact List.pairwise_singleton _ _
  | cons first rest ih =>
    obtain ⟨k, old⟩ := first
    obtain ⟨hfirst, hrest⟩ := List.pairwise_cons.mp h
    unfold store
    split
    · next heq => exact List.pairwise_cons.mpr ⟨heq ▸ hfirst, hrest⟩
    · next hne =>
      split
      · next hlt =>
        refine List.pairwise_cons.mpr ⟨?_, h⟩
        intro g hg
        obtain rfl | hg := List.mem_cons.mp hg
        · exact hlt
        · exact hlt.trans (hfirst g hg)
      · next hge =>
        refine List.pairwise_cons.mpr ⟨?_, ih hrest⟩
        intro g hg
        obtain rfl | ⟨hg, -⟩ := (mem_store hrest).mp hg
        · exact lt_of_le_of_ne (not_lt.mp hge) hne
        · exact hfirst g hg

/-- Storing replaces as many entries as the key had. -/
theorem length_store (key : String) (entries : List α) (h : Ascending groups) :
    ((store key entries groups).flatMap Prod.snd).length + (entriesOf key groups).length =
      (groups.flatMap Prod.snd).length + entries.length := by
  induction groups with
  | nil => simp [store, entriesOf]
  | cons first rest ih =>
    obtain ⟨k, old⟩ := first
    obtain ⟨hfirst, hrest⟩ := List.pairwise_cons.mp h
    unfold store
    rw [entriesOf_cons]
    by_cases hk : k = key
    · simp [hk]
      omega
    · rw [if_neg hk, if_neg hk]
      split
      · next hlt =>
        rw [entriesOf_eq_nil_of_lt fun g hg => hlt.trans (hfirst g hg)]
        simp
        omega
      · have hlength := ih hrest
        simp only [List.flatMap_cons, List.length_append]
        omega

theorem length_entriesOf_le (key : String) (groups : List (String × List α)) :
    (entriesOf key groups).length ≤ (groups.flatMap Prod.snd).length := by
  induction groups with
  | nil => simp [entriesOf]
  | cons first rest ih =>
    obtain ⟨k, old⟩ := first
    rw [entriesOf_cons, List.flatMap_cons, List.length_append]
    dsimp only
    split <;> omega

end

end Queue

/-! ## What a key has after an entry came -/

/-- The entries of a key with one more: a discipline that merges puts the entry in their place if it
supersedes them, or into the last of them if they go together. -/
def Discipline.combine {α : Type} [Queued α] (discipline : Discipline) (old : List α) (entry : α) :
    List α :=
  if discipline = .merge ∧ Queued.supersedes entry = true then [entry]
  else
    match if discipline = .merge then old.getLast?.bind (Queued.merge? · entry) else none with
    | some merged => old.dropLast ++ [merged]
    | none => old ++ [entry]

section
variable {α : Type} [Queued α] {discipline : Discipline} {old : List α} {entry x : α}

theorem Discipline.combine_fifo (old : List α) (entry : α) :
    Discipline.fifo.combine old entry = old ++ [entry] := by
  simp [combine]

theorem Discipline.combine_ne_nil : discipline.combine old entry ≠ [] := by
  unfold combine
  split
  · exact List.cons_ne_nil _ _
  · split <;> exact List.append_ne_nil_of_right_ne_nil _ (List.cons_ne_nil _ _)

/-- A key has the entries it had and the new one, or that in one with an older one. -/
theorem Discipline.mem_combine (h : x ∈ discipline.combine old entry) :
    x ∈ old ∨ x = entry ∨ ∃ older ∈ old, Queued.merge? older entry = some x := by
  unfold combine at h
  split at h
  · exact .inr (.inl (List.mem_singleton.mp h))
  · split at h
    · next merged hmerged =>
      obtain hx | hx := List.mem_append.mp h
      · exact .inl (List.dropLast_subset _ hx)
      · obtain rfl := List.mem_singleton.mp hx
        split at hmerged
        · obtain ⟨older, hlast, holder⟩ := Option.bind_eq_some_iff.mp hmerged
          exact .inr (.inr ⟨older, List.mem_of_getLast? hlast, holder⟩)
        · cases hmerged
    · exact (List.mem_append.mp h).imp id fun hx => .inl (List.mem_singleton.mp hx)

end

namespace Queue

/-- Queuing counts what the key has more than before. -/
theorem exists_push {α : Type} [Queued α] {q : Queue α} (entry : α)
    (h : (q.pending (Queued.key entry)).length ≤ q.count) :
    ∃ count, count + (q.pending (Queued.key entry)).length =
        q.count + (q.discipline.combine (q.pending (Queued.key entry)) entry).length ∧
      q.push entry =
        { q with
          groups := store (Queued.key entry)
            (q.discipline.combine (q.pending (Queued.key entry)) entry) q.groups
          count } := by
  unfold Queue.push Discipline.combine
  simp only [Bool.and_eq_true, beq_iff_eq]
  generalize q.pending (Queued.key entry) = old at h ⊢
  split
  · exact ⟨q.count - old.length + 1, by rw [List.length_singleton]; omega, rfl⟩
  · cases hmerged : if q.discipline = .merge then old.getLast?.bind (Queued.merge? · entry)
      else none with
    | none =>
      refine ⟨q.count + 1, ?_, rfl⟩
      rw [List.length_append, List.length_singleton]
      omega
    | some merged =>
      have hold : old ≠ [] := by
        rintro rfl
        simp at hmerged
      refine ⟨q.count, ?_, rfl⟩
      have hpos := List.length_pos_of_ne_nil hold
      simp only [List.length_append, List.length_dropLast, List.length_singleton]
      omega

/-! ## Queues whose groups are in order -/

/-- Every key that is there has entries, and all are counted. -/
structure Stocked {α : Type} (q : Queue α) : Prop where
  ascending : Ascending q.groups
  nonempty : ∀ g ∈ q.groups, g.2 ≠ []
  count : q.count = q.drain.1.length

/-- Every key has its own entries. -/
structure Grouped {α : Type} [Queued α] (q : Queue α) : Prop extends q.Stocked where
  keyed : ∀ g ∈ q.groups, ∀ x ∈ g.2, Queued.key x = g.1

section
variable {α : Type} {q : Queue α} {key : String} {entries : List α}

theorem stocked_empty (name : String) (discipline : Discipline) :
    Stocked ({ name, discipline } : Queue α) where
  ascending := List.Pairwise.nil
  nonempty := by simp
  count := rfl

theorem Stocked.length_pending_le (h : q.Stocked) (key : String) :
    (q.pending key).length ≤ q.count := by
  rw [h.count]
  exact length_entriesOf_le key q.groups

theorem Stocked.store (h : q.Stocked) {count : Nat} (hne : entries ≠ [])
    (hcount : count + (q.pending key).length = q.count + entries.length) :
    Stocked { q with groups := Queue.store key entries q.groups, count } where
  ascending := ascending_store h.ascending
  nonempty := by
    intro g hg
    obtain rfl | ⟨hg, -⟩ := (mem_store h.ascending).mp hg
    · exact hne
    · exact h.nonempty g hg
  count := by
    have hlength := length_store key entries h.ascending
    have hold := h.count
    rw [pending_eq] at hcount
    dsimp only [drain] at hold ⊢
    omega

end

section
variable {α : Type} [Queued α] {q : Queue α} {key : String} {entries : List α}

theorem grouped_empty (name : String) (discipline : Discipline) :
    Grouped ({ name, discipline } : Queue α) where
  toStocked := stocked_empty name discipline
  keyed := by simp

theorem Grouped.key_of_pending (h : q.Grouped) (key : String) :
    ∀ x ∈ q.pending key, Queued.key x = key := by
  intro x hx
  obtain ⟨g, hg, rfl, heq⟩ := mem_of_mem_entriesOf hx
  exact h.keyed g hg x (heq ▸ hx)

theorem Grouped.store (h : q.Grouped) {count : Nat} (hne : entries ≠ [])
    (hkey : ∀ x ∈ entries, Queued.key x = key)
    (hcount : count + (q.pending key).length = q.count + entries.length) :
    Grouped { q with groups := Queue.store key entries q.groups, count } where
  toStocked := h.toStocked.store hne hcount
  keyed := by
    intro g hg x hx
    obtain rfl | ⟨hg, -⟩ := (mem_store h.ascending).mp hg
    · exact hkey x hx
    · exact h.keyed g hg x hx

/-- Queuing keeps the order if entries that are merged stay under their key. -/
theorem Grouped.push (h : q.Grouped) (entry : α)
    (hmerge : ∀ older merged : α, Queued.merge? older entry = some merged →
      Queued.key merged = Queued.key older) : (q.push entry).Grouped := by
  have hold := h.key_of_pending (Queued.key entry)
  obtain ⟨count, hcount, heq⟩ := exists_push entry (h.length_pending_le _)
  rw [heq]
  refine h.store Discipline.combine_ne_nil ?_ hcount
  intro x hx
  obtain hx | rfl | ⟨older, holder, hmerged⟩ := Discipline.mem_combine hx
  · exact hold x hx
  · rfl
  · exact (hmerge older x hmerged).trans (hold older holder)

/-- Entries come out by key. -/
theorem Grouped.pairwise_drain (h : q.Grouped) :
    q.drain.1.Pairwise fun x y => Queued.key x ≤ Queued.key y := by
  refine List.pairwise_flatMap.mpr ⟨?_, ?_⟩
  · intro g hg
    refine List.pairwise_of_forall_mem_list ?_
    intro x hx y hy
    rw [h.keyed g hg x hx, h.keyed g hg y hy]
  · refine h.ascending.imp_of_mem ?_
    intro g g' hg hg' hlt x hx y hy
    rw [h.keyed g hg x hx, h.keyed g' hg' y hy]
    exact hlt.le

/-- The entries of a key come out as the queue has them. -/
theorem Grouped.filter_drain (h : q.Grouped) (key : String) :
    q.drain.1.filter (Queued.key · = key) = q.pending key := by
  obtain ⟨⟨hascending, -, -⟩, hkeyed⟩ := h
  rw [pending_eq]
  dsimp only [drain]
  generalize q.groups = groups at hascending hkeyed ⊢
  induction groups with
  | nil => rfl
  | cons g rest ih =>
    obtain ⟨hfirst, hrest⟩ := List.pairwise_cons.mp hascending
    obtain ⟨hg, hkeyed⟩ := List.forall_mem_cons.mp hkeyed
    rw [List.flatMap_cons, List.filter_append, ih hrest hkeyed, entriesOf_cons g.1 g.2]
    split
    · next heq =>
      rw [entriesOf_eq_nil_of_lt fun g' hg' => heq ▸ hfirst g' hg', List.append_nil]
      exact List.filter_eq_self.mpr fun x hx => by simp [hg x hx, heq]
    · next hne =>
      have hnone : g.2.filter (Queued.key · = key) = [] :=
        List.filter_eq_nil_iff.mpr fun x hx => by simp [hg x hx, hne]
      rw [hnone, List.nil_append]

end

/-! ## Queues of table entries -/

/-- Before the last entry of a key there are DELs only. -/
structure Merged (q : Queue Entry) : Prop extends q.Grouped where
  discipline : q.discipline = .merge
  removals : ∀ g ∈ q.groups, ∀ entry ∈ g.2.dropLast, entry.operation = .del

/-- The entries do not come in vain: the key of the second is not smaller, and if it is the same,
the first is a DEL. -/
def Precedes (first second : Entry) : Prop :=
  first.key < second.key ∨ first.key = second.key ∧ first.operation = .del

section
variable {q : Queue Entry} {entry : Entry} {waiting : List Entry}

theorem merged_empty (name : String) : Merged { name } where
  toGrouped := grouped_empty name .merge
  discipline := rfl
  removals := by simp

theorem key_merge? {older newer merged : Entry} (h : Queued.merge? older newer = some merged) :
    Queued.key merged = Queued.key older := by
  simp only [Queued.merge?] at h
  split at h
  · rw [← Option.some.inj h]
    rfl
  · simp at h

/-- A SET goes into the last SET of its key, or after the DELs. A DEL replaces all. -/
theorem Merged.push (h : q.Merged) (entry : Entry) : (q.push entry).Merged where
  toGrouped := h.toGrouped.push entry fun _ _ => key_merge?
  discipline := by
    unfold Queue.push
    dsimp only
    split
    · exact h.discipline
    · split <;> exact h.discipline
  removals := by
    have hold : ∀ x ∈ (q.pending entry.key).dropLast, x.operation = .del := by
      intro x hx
      obtain ⟨g, hg, -, heq⟩ := mem_of_mem_entriesOf (List.dropLast_subset _ hx)
      exact h.removals g hg x (heq ▸ hx)
    have hstored : ∀ entries : List Entry, (∀ x ∈ entries.dropLast, x.operation = .del) →
        ∀ g ∈ Queue.store entry.key entries q.groups, ∀ x ∈ g.2.dropLast, x.operation = .del := by
      intro entries hentries g hg
      obtain rfl | ⟨hg, -⟩ := (mem_store h.ascending).mp hg
      · exact hentries
      · exact h.removals g hg
    have hmerging : (q.discipline == .merge) = true := by rw [h.discipline]; rfl
    unfold Queue.push
    simp only [hmerging, Bool.true_and, if_true]
    split
    · exact hstored _ (by simp)
    · next hset =>
      replace hset : entry.operation = .set := by
        cases hop : entry.operation with
        | set => rfl
        | del => simp [Queued.supersedes, hop] at hset
      split
      · refine hstored _ ?_
        rw [List.dropLast_concat]
        exact hold
      · next hnone =>
        refine hstored _ ?_
        rw [List.dropLast_concat]
        obtain hnil | ⟨others, last, hothers⟩ := (q.pending entry.key).eq_nil_or_concat
        · rw [show q.pending (Queued.key entry) = [] from hnil]
          simp
        · rw [List.concat_eq_append] at hothers
          rw [hothers, List.dropLast_concat] at hold
          -- The last entry is not merged, so that it is a DEL as well.
          have hlast : last.operation = .del := by
            cases hop : last.operation with
            | del => rfl
            | set => simp [Queued.key, hothers, Queued.merge?, hop, hset] at hnone
          rw [show q.pending (Queued.key entry) = others ++ [last] from hothers]
          intro x hx
          obtain hx | hx := List.mem_append.mp hx
          · exact hold x hx
          · rw [List.mem_singleton.mp hx, hlast]

/-- What comes out of the queue comes by key, with nothing of the same key after a SET. -/
theorem Merged.precedes (h : q.Merged) : q.drain.1.Pairwise Precedes := by
  refine List.pairwise_flatMap.mpr ⟨?_, ?_⟩
  · intro g hg
    have hkeyed := h.keyed g hg
    have hremovals := h.removals g hg
    obtain hnil | ⟨others, last, hg⟩ := g.2.eq_nil_or_concat
    · rw [hnil]
      exact List.Pairwise.nil
    · rw [List.concat_eq_append] at hg
      rw [hg] at hkeyed hremovals ⊢
      rw [List.dropLast_concat] at hremovals
      have hsame : ∀ x ∈ others ++ [last], ∀ y ∈ others ++ [last], x.key = y.key :=
        fun x hx y hy => (hkeyed x hx).trans (hkeyed y hy).symm
      refine List.pairwise_append.mpr ⟨?_, List.pairwise_singleton _ _, ?_⟩
      · refine List.pairwise_of_forall_mem_list ?_
        intro x hx y hy
        exact .inr ⟨hsame x (List.mem_append_left _ hx) y (List.mem_append_left _ hy),
          hremovals x hx⟩
      · intro x hx y hy
        exact .inr ⟨hsame x (List.mem_append_left _ hx) y (List.mem_append_right _ hy),
          hremovals x hx⟩
  · refine h.ascending.imp_of_mem ?_
    intro g g' hg hg' hlt x hx y hy
    refine .inl ?_
    rw [← h.keyed g hg x hx, ← h.keyed g' hg' y hy] at hlt
    exact hlt

/-! ## Entries that wait -/

/-- A queue with these entries, each under a key of its own. -/
def refill (q : Queue Entry) (waiting : List Entry) : Queue Entry :=
  { q with groups := waiting.map fun entry => (entry.key, [entry]), count := waiting.length }

@[simp] theorem drain_refill (q : Queue Entry) (waiting : List Entry) :
    (q.refill waiting).drain.1 = waiting := by
  induction waiting with
  | nil => rfl
  | cons entry rest ih => simpa [refill, drain] using ih

/-- Entries of different keys that are put back one after the other refill the queue. -/
theorem foldr_retry (h : waiting.Pairwise (·.key < ·.key)) :
    waiting.foldr (fun entry q => q.retry entry) q.drain.2 = q.refill waiting := by
  induction waiting with
  | nil => rfl
  | cons entry rest ih =>
    obtain ⟨hentry, hrest⟩ := List.pairwise_cons.mp h
    have hafter : ∀ g ∈ rest.map fun entry => (entry.key, [entry]), entry.key < g.1 := by
      simpa using hentry
    have hnone : entriesOf entry.key (rest.map fun entry => (entry.key, [entry])) = [] :=
      entriesOf_eq_nil_of_lt hafter
    rw [List.foldr_cons, ih hrest]
    simp only [retry, pending_eq, refill, Queued.key, hnone, store_of_lt hafter, List.map_cons,
      List.length_cons]

theorem merged_refill (hq : q.discipline = .merge) (h : waiting.Pairwise (·.key < ·.key)) :
    (q.refill waiting).Merged where
  ascending := List.pairwise_map.mpr h
  nonempty := by simp [refill]
  keyed := by simp [refill, Queued.key]
  count := by rw [drain_refill]; rfl
  discipline := hq
  removals := by simp [refill]

/-- SETs of one queue have different keys. -/
theorem Merged.pairwise_key_lt (h : q.Merged) (hset : ∀ entry ∈ q.drain.1, entry.operation = .set) :
    q.drain.1.Pairwise (·.key < ·.key) := by
  refine h.precedes.imp_of_mem ?_
  intro first second hfirst _ hprecedes
  obtain hlt | ⟨-, hdel⟩ := hprecedes
  · exact hlt
  · rw [hset first hfirst] at hdel
    cases hdel

/-- Of SETs there is at most one for a key. -/
theorem Merged.length_pending_le_one (h : q.Merged)
    (hset : ∀ entry ∈ q.drain.1, entry.operation = .set) (key : String) :
    (q.pending key).length ≤ 1 := by
  have hlt : (q.pending key).Pairwise (·.key < ·.key) := by
    rw [← h.filter_drain key]
    exact (h.pairwise_key_lt hset).sublist List.filter_sublist
  have hnodup : ((q.pending key).map Queued.key).Nodup := List.pairwise_map.mpr (hlt.imp LT.lt.ne)
  rw [List.eq_replicate_of_mem (List.forall_mem_map.mpr (h.key_of_pending key)),
    List.nodup_replicate, List.length_map] at hnodup
  exact hnodup

/-- A queue of SETs is refilled with what came out of it. -/
theorem Merged.refill_drain (h : q.Merged)
    (hset : ∀ entry ∈ q.drain.1, entry.operation = .set) : q.refill q.drain.1 = q := by
  have hgroups : ∀ g ∈ q.groups, ∃ entry : Entry, g = (entry.key, [entry]) := by
    intro g hg
    have hremovals := h.removals g hg
    obtain hnil | ⟨others, last, hlast⟩ := g.2.eq_nil_or_concat
    · exact absurd hnil (h.nonempty g hg)
    · rw [List.concat_eq_append] at hlast
      rw [hlast, List.dropLast_concat] at hremovals
      have hothers : others = [] := by
        refine List.eq_nil_iff_forall_not_mem.mpr fun x hx => ?_
        have hmem : x ∈ q.drain.1 :=
          List.mem_flatMap.mpr ⟨g, hg, hlast ▸ List.mem_append_left _ hx⟩
        have hdel := hremovals x hx
        rw [hset x hmem] at hdel
        cases hdel
      rw [hothers, List.nil_append] at hlast
      refine ⟨last, Prod.ext ?_ hlast⟩
      exact (h.keyed g hg last (hlast ▸ List.mem_singleton_self last)).symm
  have hmap : (q.groups.flatMap Prod.snd).map (fun entry => (entry.key, [entry])) = q.groups := by
    generalize q.groups = groups at hgroups
    induction groups with
    | nil => rfl
    | cons g rest ih =>
      obtain ⟨⟨entry, rfl⟩, hrest⟩ := List.forall_mem_cons.mp hgroups
      simpa using ih hrest
  have hcount := h.count
  unfold refill drain at *
  rw [hmap, ← hcount]

end

end Queue
end LinkAggregation
