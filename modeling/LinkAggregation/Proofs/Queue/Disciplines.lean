import LinkAggregation.Proofs.Queue.Calls
import LinkAggregation.Proofs.Queue.Merging
import LinkAggregation.Proofs.Text.ByteOrder
import Mathlib.Data.List.DropRight

/-!
# The two disciplines

Only the calls since the queue was drained last matter. A first-in first-out queue gives back what
was put into it. A merging queue gives back the last DEL of a key, if there is one, and after it one
SET for all SETs that came after that DEL.
-/
namespace LinkAggregation

/-! ## The newest fields -/

namespace Entry
variable {all merged fields newer : List Field} {new field : Field}

/-- Each of the names once, in the order in which they first come, with what it was given last. -/
structure Newest (all merged : List Field) : Prop where
  nodup : (merged.map Prod.fst).Nodup
  names : merged.map Prod.fst = (all.map Prod.fst).eraseDups
  last : ∀ field ∈ merged, (all.filter (·.1 = field.1)).getLast? = some field

theorem names_setField (fields : List Field) (new : Field) :
    (setField fields new).map Prod.fst =
      if new.1 ∈ fields.map Prod.fst then fields.map Prod.fst
      else fields.map Prod.fst ++ [new.1] := by
  induction fields with
  | nil => rfl
  | cons old rest ih =>
    unfold setField
    by_cases hname : old.1 = new.1
    · simp [hname]
    · rw [if_neg hname, List.map_cons, ih]
      by_cases hmem : new.1 ∈ rest.map Prod.fst <;> simp [hmem, Ne.symm hname]

/-- The field is in its place, and those of other names are as they were. -/
theorem mem_setField (hnodup : (fields.map Prod.fst).Nodup) (h : field ∈ setField fields new) :
    field = new ∨ field ∈ fields ∧ field.1 ≠ new.1 := by
  induction fields with
  | nil => exact .inl (List.mem_singleton.mp h)
  | cons old rest ih =>
    obtain ⟨hold, hrest⟩ := List.nodup_cons.mp hnodup
    unfold setField at h
    split at h
    · next hname =>
      obtain rfl | h := List.mem_cons.mp h
      · exact .inl rfl
      · refine .inr ⟨List.mem_cons_of_mem _ h, fun heq => hold ?_⟩
        rw [hname, ← heq]
        exact List.mem_map_of_mem h
    · next hname =>
      obtain rfl | h := List.mem_cons.mp h
      · exact .inr ⟨List.mem_cons_self, hname⟩
      · exact (ih hrest h).imp_right fun h => ⟨List.mem_cons_of_mem _ h.1, h.2⟩

theorem eraseDups_of_nodup {names : List String} (h : names.Nodup) : names.eraseDups = names := by
  induction names with
  | nil => rfl
  | cons name rest ih =>
    obtain ⟨hname, hrest⟩ := List.nodup_cons.mp h
    have hkept : rest.filter (fun other => !other == name) = rest :=
      List.filter_eq_self.mpr fun other hother => by
        simpa using fun heq : other = name => hname (heq ▸ hother)
    rw [List.eraseDups_cons, hkept, ih hrest]

theorem newest_self (h : (fields.map Prod.fst).Nodup) : Newest fields fields where
  nodup := h
  names := (eraseDups_of_nodup h).symm
  last := by
    intro field hfield
    have hone : fields.filter (·.1 = field.1) = [field] := by
      induction fields with
      | nil => cases hfield
      | cons old rest ih =>
        obtain ⟨hold, hrest⟩ := List.nodup_cons.mp h
        obtain rfl | hfield := List.mem_cons.mp hfield
        · have hnone : rest.filter (·.1 = field.1) = [] := by
            refine List.filter_eq_nil_iff.mpr fun other hother => ?_
            simpa using fun heq : other.1 = field.1 => hold (heq ▸ List.mem_map_of_mem hother)
          simp [hnone]
        · have hne : old.1 ≠ field.1 := fun heq => hold (heq ▸ List.mem_map_of_mem hfield)
          simpa [hne] using ih hrest hfield
    rw [hone]
    rfl

theorem Newest.setField (h : Newest all merged) (new : Field) :
    Newest (all ++ [new]) (setField merged new) where
  nodup := by
    rw [names_setField]
    split
    · exact h.nodup
    · next hnew =>
      refine List.nodup_append.mpr ⟨h.nodup, List.nodup_singleton _, ?_⟩
      intro name hname other hother heq
      rw [List.mem_singleton.mp hother] at heq
      exact hnew (heq ▸ hname)
  names := by
    rw [names_setField, List.map_append, List.eraseDups_append, ← h.names]
    have hmem : new.1 ∈ merged.map Prod.fst ↔ new.1 ∈ all.map Prod.fst := by
      rw [h.names, List.mem_eraseDups]
    by_cases hnew : new.1 ∈ all.map Prod.fst
    · rw [if_pos (hmem.mpr hnew)]
      simp [List.removeAll, hnew]
    · rw [if_neg (hmem.not.mpr hnew)]
      simp [List.removeAll, hnew, List.eraseDups_cons]
  last := by
    intro field hfield
    obtain rfl | ⟨hfield, hne⟩ := mem_setField h.nodup hfield
    · simp
    · simpa [Ne.symm hne] using h.last field hfield

theorem Newest.mergeFields (h : Newest all merged) (newer : List Field) :
    Newest (all ++ newer) (mergeFields merged newer) := by
  induction newer generalizing all merged with
  | nil => simpa [Entry.mergeFields] using h
  | cons new rest ih => simpa [Entry.mergeFields] using ih (h.setField new)

end Entry

/-! ## What a discipline makes of the entries of a key -/

namespace Entry
variable {entry last : Entry} {old pushes : List Entry}

/-- The last DEL. -/
def lastDel (pushes : List Entry) : Option Entry :=
  (pushes.filter (·.operation = .del)).getLast?

/-- The SETs after the last DEL. -/
def newSets (pushes : List Entry) : List Entry := pushes.rtakeWhile (·.operation = .set)

/-- All SETs in one. -/
def joined : List Entry → Option Entry
  | [] => none
  | first :: later =>
    some { first with fields := mergeFields first.fields (later.flatMap Entry.fields) }

theorem operation_joined (hsets : ∀ entry ∈ pushes, entry.operation = .set)
    (h : last ∈ joined pushes) : last.operation = .set := by
  cases pushes with
  | nil => cases h
  | cons first later =>
    obtain rfl := Option.some.inj h
    exact hsets first List.mem_cons_self

theorem key_joined {key : String} (hkeys : ∀ entry ∈ pushes, entry.key = key)
    (h : last ∈ joined pushes) : last.key = key := by
  cases pushes with
  | nil => cases h
  | cons first later =>
    obtain rfl := Option.some.inj h
    exact hkeys first List.mem_cons_self

theorem joined_concat (pushes : List Entry) (entry : Entry) :
    joined (pushes ++ [entry]) = match joined pushes with
      | none => some entry
      | some last => some { last with fields := mergeFields last.fields entry.fields } := by
  cases pushes with
  | nil => simp [joined, mergeFields]
  | cons first later => simp [joined, mergeFields]

/-- If none of the SETs has a field twice, each field comes once, with its newest value. -/
theorem newest_joined (hfields : ∀ entry ∈ pushes, (entry.fields.map Prod.fst).Nodup)
    (h : last ∈ joined pushes) : Newest (pushes.flatMap Entry.fields) last.fields := by
  cases pushes with
  | nil => cases h
  | cons first later =>
    obtain rfl := Option.some.inj h
    exact (newest_self (hfields first List.mem_cons_self)).mergeFields _

theorem newSets_operation (h : entry ∈ newSets pushes) : entry.operation = .set := by
  simpa using List.mem_rtakeWhile_imp h

theorem newSets_subset : newSets pushes ⊆ pushes :=
  (List.rtakeWhile_suffix _ pushes).subset

theorem lastDel_operation (h : entry ∈ lastDel pushes) : entry.operation = .del := by
  simpa using (List.mem_filter.mp (List.mem_of_getLast? h)).2

theorem combine_del (hdel : entry.operation = .del) (old : List Entry) :
    Discipline.merge.combine old entry = [entry] := by
  simp [Discipline.combine, Queued.supersedes, hdel]

theorem combine_set (hset : entry.operation = .set)
    (hlast : ∀ last ∈ old.getLast?, last.operation = .del) :
    Discipline.merge.combine old entry = old ++ [entry] := by
  have hnone : old.getLast?.bind (Queued.merge? · entry) = none := by
    cases hold : old.getLast? with
    | none => rfl
    | some last => simp [Queued.merge?, hlast last hold]
  simp [Discipline.combine, Queued.supersedes, hset, hnone]

theorem combine_set_set (hset : entry.operation = .set) (hlast : last.operation = .set)
    (old : List Entry) :
    Discipline.merge.combine (old ++ [last]) entry =
      old ++ [{ last with fields := mergeFields last.fields entry.fields }] := by
  simp [Discipline.combine, Queued.supersedes, Queued.merge?, hset, hlast]

/-- Of what is queued for a key, a merging queue keeps the last DEL and one SET for what came
after. -/
theorem foldl_combine_merge (pushes : List Entry) :
    pushes.foldl Discipline.merge.combine [] =
      (lastDel pushes).toList ++ (joined (newSets pushes)).toList := by
  induction pushes using List.reverseRecOn with
  | nil => rfl
  | append_singleton pushes entry ih =>
    rw [List.foldl_concat, ih]
    cases hop : entry.operation with
    | del =>
      rw [combine_del hop]
      simp [lastDel, newSets, joined, hop]
    | set =>
      have hdel : lastDel (pushes ++ [entry]) = lastDel pushes := by simp [lastDel, hop]
      have hsets : newSets (pushes ++ [entry]) = newSets pushes ++ [entry] := by
        simp [newSets, hop]
      rw [hdel, hsets, joined_concat]
      cases hjoined : joined (newSets pushes) with
      | none =>
        simp only [Option.toList_none, Option.toList_some, List.append_nil]
        refine combine_set hop ?_
        intro last hlast
        exact lastDel_operation (Option.mem_toList.mp (List.mem_of_getLast? hlast))
      | some last =>
        exact combine_set_set hop (operation_joined (fun _ => newSets_operation) hjoined) _

end Entry

/-! ## What is queued for a key -/

namespace Queue
variable {α : Type} [Queued α]

def Call.isDrain : Call α → Bool
  | .drain => true
  | _ => false

/-- The entries that a call queues. -/
def Call.pushed : Call α → List α
  | .push entry => [entry]
  | .pushAll entries => entries
  | _ => []

/-- The entry that a call puts back. -/
def Call.retried : Call α → List α
  | .retry entry => [entry]
  | _ => []

/-- The calls after the last one that drained the queue. -/
def sinceDrain (calls : List (Call α)) : List (Call α) := calls.rtakeWhile fun call => !call.isDrain

/-- What was queued for a key since the queue was drained. -/
def pushedOn (key : String) (calls : List (Call α)) : List α :=
  ((sinceDrain calls).flatMap Call.pushed).filter (Queued.key · = key)

/-- What was put back for a key since the queue was drained. -/
def retriedOn (key : String) (calls : List (Call α)) : List α :=
  ((sinceDrain calls).flatMap Call.retried).filter (Queued.key · = key)

variable {key : String} {calls : List (Call α)} {call : Call α}

theorem pushedOn_concat (h : call.isDrain = false) :
    pushedOn key (calls ++ [call]) =
      pushedOn key calls ++ call.pushed.filter (Queued.key · = key) := by
  simp [pushedOn, sinceDrain, h]

theorem retriedOn_concat (h : call.isDrain = false) :
    retriedOn key (calls ++ [call]) =
      retriedOn key calls ++ call.retried.filter (Queued.key · = key) := by
  simp [retriedOn, sinceDrain, h]

theorem pushedOn_drain (key : String) (calls : List (Call α)) :
    pushedOn key (calls ++ [.drain]) = [] := by
  simp [pushedOn, sinceDrain, Call.isDrain]

theorem retriedOn_drain (key : String) (calls : List (Call α)) :
    retriedOn key (calls ++ [.drain]) = [] := by
  simp [retriedOn, sinceDrain, Call.isDrain]

theorem key_of_pushedOn {x : α} (h : x ∈ pushedOn key calls) : Queued.key x = key := by
  simpa using (List.mem_filter.mp h).2

variable {q : Queue α}

theorem discipline_after (q : Queue α) (calls : List (Call α)) :
    (q.after calls).discipline = q.discipline := by
  induction calls using List.reverseRecOn with
  | nil => rfl
  | append_singleton calls call ih => rw [after_concat, discipline_perform, ih]

theorem Stocked.pending_concat (h : q.Stocked) (calls : List (Call α)) (call : Call α)
    (key : String) :
    (q.after (calls ++ [call])).pending key =
      (call.on key).foldl q.discipline.serve ((q.after calls).pending key) := by
  rw [after_concat, (h.after calls).pending_perform, discipline_after]

theorem foldl_combine_fifo (old entries : List α) :
    entries.foldl Discipline.fifo.combine old = old ++ entries := by
  induction entries generalizing old with
  | nil => simp
  | cons entry rest ih => simp [Discipline.combine_fifo, ih]

/-- In a first-in first-out queue, a key has what was put back, the newest first, and then what was
queued, the oldest first. -/
theorem Stocked.pending_fifo (h : q.Stocked) (hempty : ∀ key, q.pending key = [])
    (hfifo : q.discipline = .fifo) (calls : List (Call α)) (key : String) :
    (q.after calls).pending key = (retriedOn key calls).reverse ++ pushedOn key calls := by
  induction calls using List.reverseRecOn with
  | nil => exact hempty key
  | append_singleton calls call ih =>
    rw [h.pending_concat, ih, hfifo]
    cases call with
    | push entry =>
      rw [pushedOn_concat rfl, retriedOn_concat rfl]
      by_cases hkey : Queued.key entry = key <;>
        simp [Call.on, Call.pushed, Call.retried, Discipline.serve, Discipline.combine_fifo, hkey]
    | pushAll entries =>
      rw [pushedOn_concat rfl, retriedOn_concat rfl]
      simp [Call.on, Call.pushed, Call.retried, Discipline.serve, foldl_combine_fifo,
        List.foldl_map]
    | retry entry =>
      rw [pushedOn_concat rfl, retriedOn_concat rfl]
      by_cases hkey : Queued.key entry = key <;>
        simp [Call.on, Call.pushed, Call.retried, Discipline.serve, hkey]
    | drain =>
      rw [pushedOn_drain, retriedOn_drain]
      rfl

/-- Where nothing was put back for a key, what it has is what came of the entries queued for it. -/
theorem Stocked.pending_of_pushes (h : q.Stocked) (hempty : ∀ key, q.pending key = [])
    (hretried : retriedOn key calls = []) :
    (q.after calls).pending key = (pushedOn key calls).foldl q.discipline.combine [] := by
  induction calls using List.reverseRecOn with
  | nil => exact hempty key
  | append_singleton calls call ih =>
    rw [h.pending_concat]
    cases call with
    | push entry =>
      rw [retriedOn_concat rfl] at hretried
      rw [pushedOn_concat rfl, List.foldl_append, ih (List.append_eq_nil_iff.mp hretried).1]
      by_cases hkey : Queued.key entry = key <;>
        simp [Call.on, Call.pushed, Discipline.serve, hkey]
    | pushAll entries =>
      rw [retriedOn_concat rfl] at hretried
      rw [pushedOn_concat rfl, List.foldl_append, ih (List.append_eq_nil_iff.mp hretried).1]
      simp [Call.on, Call.pushed, Discipline.serve, List.foldl_map]
    | retry entry =>
      rw [retriedOn_concat rfl] at hretried
      obtain ⟨hbefore, hkey⟩ := List.append_eq_nil_iff.mp hretried
      rw [pushedOn_concat rfl, ih hbefore]
      have hother : Queued.key entry ≠ key := by simpa [Call.retried] using hkey
      simp [Call.on, Call.pushed, hother]
    | drain =>
      rw [pushedOn_drain]
      rfl

/-- The queue counts what it has and gives it out by key: keys are in the order of their octets,
and each key with entries is there once. Whatever is queued next, a key never has more than is
counted. -/
structure Accounted (q : Queue α) : Prop where
  count : q.count = q.drain.1.length
  room : ∀ (entries : List α) (key : String),
    ((q.pushAll entries).pending key).length ≤ (q.pushAll entries).count
  hasPending : q.hasPending = true ↔ q.drain.1 ≠ []
  byKey : ∃ keys : List String, keys.Pairwise (Text.octets · < Text.octets ·) ∧
    (∀ key, key ∈ keys ↔ q.pending key ≠ []) ∧ q.drain.1 = keys.flatMap q.pending

theorem Stocked.accounted (h : q.Stocked) : q.Accounted where
  count := h.count
  room entries := (h.pushAll entries).length_pending_le
  hasPending := h.hasPending_iff
  byKey := ⟨q.keys, h.keys_ascending.imp Text.octets_lt_octets, h.mem_keys, h.drain_eq⟩

theorem pending_merging (name : String) (calls : List (Call Entry)) (key : String)
    (hretried : retriedOn key calls = []) :
    ∃ set : Option Entry,
      (({ name } : Queue Entry).after calls).pending key =
          (Entry.lastDel (pushedOn key calls)).toList ++ set.toList ∧
        (set = none ↔ Entry.newSets (pushedOn key calls) = []) ∧
        ∀ entry ∈ set, entry.key = key ∧ entry.operation = .set ∧
          ((∀ pushed ∈ Entry.newSets (pushedOn key calls), (pushed.fields.map Prod.fst).Nodup) →
            Entry.Newest ((Entry.newSets (pushedOn key calls)).flatMap Entry.fields)
              entry.fields) := by
  have hpending := (stocked_empty name .merge).pending_of_pushes (fun _ => rfl) hretried
  rw [Entry.foldl_combine_merge] at hpending
  refine ⟨_, hpending, ?_, ?_⟩
  · cases Entry.newSets (pushedOn key calls) <;> simp [Entry.joined]
  · intro entry hentry
    refine ⟨?_, ?_, fun hfields => Entry.newest_joined hfields hentry⟩
    · exact Entry.key_joined (fun _ h => key_of_pushedOn (Entry.newSets_subset h)) hentry
    · exact Entry.operation_joined (fun _ => Entry.newSets_operation) hentry

end Queue

open Queue in
/-- Whatever is done with a queue, it counts what it has and gives it out by key, and what comes out
does not depend on how calls on different keys are mixed. A first-in first-out queue gives out all
that was put into it, what was put back first. A merging queue into which nothing was put back gives
out, for a key, the last DEL and then one SET for all that came after it, with the newest fields. -/
theorem drained_by_key_in_order :
    (∀ (α : Type) [Queued α] (name : String) (discipline : Discipline) (calls : List (Call α)),
      let q := ({ name, discipline } : Queue α).after calls
      q.Accounted ∧
        (Merging α → ∀ key, ∀ x ∈ q.pending key, Queued.key x = key) ∧
        ∀ calls' : List (Call α), (∀ key, callsOn key calls = callsOn key calls') →
          q.drain.1 = (({ name, discipline } : Queue α).after calls').drain.1) ∧
    (∀ (α : Type) [Queued α] (name : String) (calls : List (Call α)) (key : String),
      (({ name, discipline := .fifo } : Queue α).after calls).pending key =
        (retriedOn key calls).reverse ++ pushedOn key calls) ∧
    ∀ (name : String) (calls : List (Call Entry)) (key : String), retriedOn key calls = [] →
      ∃ set : Option Entry,
        (({ name } : Queue Entry).after calls).pending key =
            (Entry.lastDel (pushedOn key calls)).toList ++ set.toList ∧
          (set = none ↔ Entry.newSets (pushedOn key calls) = []) ∧
          ∀ entry ∈ set, entry.key = key ∧ entry.operation = .set ∧
            ((∀ pushed ∈ Entry.newSets (pushedOn key calls), (pushed.fields.map Prod.fst).Nodup) →
              Entry.Newest ((Entry.newSets (pushedOn key calls)).flatMap Entry.fields)
                entry.fields) := by
  refine ⟨?_, ?_, pending_merging⟩
  · intro α _ name discipline calls
    have hempty : ({ name, discipline } : Queue α).Stocked := stocked_empty name discipline
    refine ⟨(hempty.after calls).accounted, ?_, ?_⟩
    · intro hmerge
      exact ((grouped_empty name discipline).after hmerge calls).key_of_pending
    · intro calls' hsame
      refine (hempty.after calls).drain_congr (hempty.after calls') fun key => ?_
      rw [hempty.pending_after, hempty.pending_after, hsame]
  · intro α _ name calls key
    exact (stocked_empty name .fifo).pending_fifo (fun _ => rfl) rfl calls key

/-- Two keys, of which one is removed and set anew. -/
theorem drained_by_key_in_order_channels :
    let calls : List (Queue.Call Entry) :=
      [.push ⟨"PortChannel2", .set, [("mtu", "9100")]⟩,
        .push ⟨"PortChannel1", .set, [("mtu", "1500")]⟩,
        .push ⟨"PortChannel1", .del, []⟩,
        .pushAll [⟨"PortChannel1", .set, [("mode", "active"), ("rate", "slow")]⟩,
          ⟨"PortChannel2", .set, [("mode", "on")]⟩],
        .push ⟨"PortChannel1", .set, [("rate", "fast")]⟩]
    ∃ set : Entry,
      (({ name := "PORTCHANNEL" } : Queue Entry).after calls).pending "PortChannel1" =
          [⟨"PortChannel1", .del, []⟩, set] ∧
        set.operation = .set ∧ set.fields.map Prod.fst = ["mode", "rate"] := by
  intro calls
  obtain ⟨set, hpending, hnone, hset⟩ :=
    drained_by_key_in_order.2.2 "PORTCHANNEL" calls "PortChannel1" (by decide +kernel)
  cases set with
  | none => exact absurd (hnone.mp rfl) (by decide +kernel)
  | some set =>
    obtain ⟨-, hoperation, hfields⟩ := hset set rfl
    have hnames := (hfields (by decide +kernel)).names
    refine ⟨set, ?_, hoperation, ?_⟩
    · exact hpending
    · exact hnames

end LinkAggregation
