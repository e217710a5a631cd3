import LinkAggregation.Proofs.Config.Attributes
import LinkAggregation.Queue.Entry

/-!
# One entry for many

A merging queue keeps one entry for the pending SETs of a key. That entry is accepted where the SETs
are accepted one after the other. It gives each attribute its newest value if the field that gave
the value has its place after all others that set the attribute; a field keeps the place at which it
first came, so that this need not be so.
-/
namespace LinkAggregation

/-- Of the fields that set an attribute, the one that comes last has its place after all others:
of the older fields none is behind it, and all newer ones are in place before it. -/
def Settled (older newer : List Field) : Prop :=
  ∀ last ∈ newer.getLast?,
    let before := (older ++ newer).takeWhile (·.1 ≠ last.1)
    older.length ≤ before.length + 1 ∧
      ∀ field ∈ newer, field.1 = last.1 ∨ field.1 ∈ before.map Prod.fst

/-- The entries settle what the attribute's value is. -/
def Attribute.Settled {σ : Type} (a : Attribute σ) (first : Entry) (later : List Entry) : Prop :=
  LinkAggregation.Settled (a.writes first.fields) (a.writes (later.flatMap Entry.fields))

instance (older newer : List Field) : Decidable (Settled older newer) := by
  unfold Settled
  infer_instance

instance {σ : Type} (a : Attribute σ) (first : Entry) (later : List Entry) :
    Decidable (a.Settled first later) := by
  unfold Attribute.Settled
  infer_instance

/-- An attribute that one field alone sets is settled if the first entry has no field twice. -/
theorem Attribute.settled_of_nodup {σ : Type} {a : Attribute σ} {name : String} {first : Entry}
    (hname : a.names = [name]) (hnodup : (first.fields.map Prod.fst).Nodup) (later : List Entry) :
    a.Settled first later := by
  have hwrites : ∀ fields, ∀ field ∈ a.writes fields, field.1 = name := by
    intro fields field hfield
    simpa [Attribute.writes, hname] using (List.mem_filter.mp hfield).2
  have hold : (a.writes first.fields).length ≤ 1 := by
    have hsub : ((a.writes first.fields).map Prod.fst).Nodup :=
      hnodup.sublist (List.filter_sublist.map Prod.fst)
    rw [List.eq_replicate_of_mem (List.forall_mem_map.mpr (hwrites first.fields)),
      List.nodup_replicate, List.length_map] at hsub
    exact hsub
  intro last hlast before
  have hmem := List.mem_of_getLast? hlast
  refine ⟨by omega, fun field hfield => .inl ?_⟩
  exact (hwrites _ field hfield).trans (hwrites _ last hmem).symm

/-- One entry does what several do in order. Where those are accepted it is accepted as well, and
what they settle it gives the newest value. -/
def Coalesces {σ : Type} (attributes : List (Attribute σ))
    (withFields : σ → List Field → Except Error σ) (first : Entry) (later : List Entry)
    (merged : Entry) : Prop :=
  ∀ s s', (first :: later).foldlM (fun s entry => withFields s entry.fields) s = .ok s' →
    ∃ t, withFields s merged.fields = .ok t ∧
      (∀ a ∈ attributes, a.Settled first later → a.get t = a.get s') ∧
      ((∀ a ∈ attributes, a.Settled first later) → t = s')

/-- Where every attribute has one field, as for members, ports and the system, one entry does all
that several do, if the first of them has no field twice. -/
theorem Coalesces.exact {σ : Type} {attributes : List (Attribute σ)}
    {withFields : σ → List Field → Except Error σ} {first merged : Entry} {later : List Entry}
    (h : Coalesces attributes withFields first later merged)
    (hsingle : ∀ a ∈ attributes, ∃ name, a.names = [name])
    (hnodup : (first.fields.map Prod.fst).Nodup) {s s' : σ}
    (horder : (first :: later).foldlM (fun s entry => withFields s entry.fields) s = .ok s') :
    withFields s merged.fields = .ok s' := by
  obtain ⟨t, ht, -, hsame⟩ := h s s' horder
  have hsettled : ∀ a ∈ attributes, a.Settled first later := by
    intro a ha
    obtain ⟨name, hname⟩ := hsingle a ha
    exact Attribute.settled_of_nodup hname hnodup later
  rw [ht, hsame hsettled]

namespace Entry
variable {fields older newer : List Field} {field new : Field} {name : String}

/-! ## Fields in their places -/

theorem mem_of_mem_setField (h : field ∈ setField fields new) : field ∈ fields ∨ field = new := by
  induction fields with
  | nil => exact .inr (by simpa [setField] using h)
  | cons old rest ih =>
    unfold setField at h
    split at h
    · obtain rfl | h := List.mem_cons.mp h
      · exact .inr rfl
      · exact .inl (List.mem_cons_of_mem _ h)
    · obtain rfl | h := List.mem_cons.mp h
      · exact .inl List.mem_cons_self
      · exact (ih h).imp_left (List.mem_cons_of_mem _)

theorem mem_of_mem_mergeFields (h : field ∈ mergeFields older newer) :
    field ∈ older ∨ field ∈ newer := by
  induction newer generalizing older with
  | nil => exact .inl h
  | cons new rest ih =>
    obtain h | h := ih h
    · obtain h | rfl := mem_of_mem_setField h
      · exact .inl h
      · exact .inr List.mem_cons_self
    · exact .inr (List.mem_cons_of_mem _ h)

/-- Setting a field that is there changes no names, and nothing behind it. -/
theorem setField_append_of_mem (h : new.1 ∈ fields.map Prod.fst) (rest : List Field) :
    setField (fields ++ rest) new = setField fields new ++ rest := by
  induction fields with
  | nil => simp at h
  | cons old others ih =>
    simp only [List.cons_append, setField]
    split
    · rfl
    · next hne =>
      have hmem : new.1 ∈ others.map Prod.fst := by simpa [Ne.symm hne] using h
      rw [ih hmem, List.cons_append]

theorem setField_append_of_not_mem (h : new.1 ∉ fields.map Prod.fst) (rest : List Field) :
    setField (fields ++ rest) new = fields ++ setField rest new := by
  induction fields with
  | nil => rfl
  | cons old others ih =>
    obtain ⟨hne, hmem⟩ : new.1 ≠ old.1 ∧ new.1 ∉ others.map Prod.fst := by simpa using h
    simp only [List.cons_append, setField, if_neg (Ne.symm hne), ih hmem]

theorem mem_names_setField :
    name ∈ (setField fields new).map Prod.fst ↔ name ∈ fields.map Prod.fst ∨ name = new.1 := by
  induction fields with
  | nil => simp [setField]
  | cons old rest ih =>
    unfold setField
    split
    · next heq => simp [heq, or_comm]
    · simp only [List.map_cons, List.mem_cons, ih, or_assoc]

theorem mem_names_mergeFields :
    name ∈ (mergeFields older newer).map Prod.fst ↔
      name ∈ older.map Prod.fst ∨ name ∈ newer.map Prod.fst := by
  induction newer generalizing older with
  | nil => simp [mergeFields]
  | cons new rest ih =>
    rw [mergeFields, List.foldl_cons, ← mergeFields, ih, mem_names_setField]
    simp [or_assoc]

theorem filter_setField (p : String → Bool) :
    (setField fields new).filter (fun f => p f.1) =
      if p new.1 then setField (fields.filter fun f => p f.1) new
      else fields.filter fun f => p f.1 := by
  induction fields with
  | nil => by_cases hp : p new.1 <;> simp [setField, hp]
  | cons old rest ih =>
    by_cases hname : old.1 = new.1
    · by_cases hp : p new.1 <;> simp [setField, hname, hp]
    · by_cases hold : p old.1
      · simp only [setField, hname, if_false, List.filter_cons, hold, if_true, ih]
        split <;> rfl
      · simp [setField, hname, hold, ih]

/-- A field that is not there yet comes after all that are. -/
theorem mergeFields_append_cons {before after : List Field}
    (h : new.1 ∉ (mergeFields older before).map Prod.fst) :
    mergeFields older (before ++ new :: after) =
      mergeFields (mergeFields older before ++ [new]) after := by
  have hset := setField_append_of_not_mem h []
  rw [List.append_nil, setField] at hset
  unfold mergeFields at hset ⊢
  rw [List.foldl_append, List.foldl_cons, hset]

/-- What several fields say of an attribute is what those among them say that set it. -/
theorem filter_mergeFields (p : String → Bool) :
    (mergeFields older newer).filter (fun f => p f.1) =
      mergeFields (older.filter fun f => p f.1) (newer.filter fun f => p f.1) := by
  induction newer generalizing older with
  | nil => rfl
  | cons new rest ih =>
    rw [mergeFields, List.foldl_cons, ← mergeFields, ih, filter_setField]
    by_cases hp : p new.1
    · simp [hp, mergeFields]
    · simp [hp]

/-! ## The field that comes last -/

/-- If all newer fields have their places, the last of them is still the last. -/
theorem getLast?_mergeFields_append (hfresh : field.1 ∉ fields.map Prod.fst)
    (hplaced : ∀ f ∈ newer, f.1 = field.1 ∨ f.1 ∈ fields.map Prod.fst) :
    (mergeFields (fields ++ [field]) newer).getLast? =
      ((field :: newer).filter (·.1 = field.1)).getLast? := by
  induction newer generalizing fields field with
  | nil => simp [mergeFields]
  | cons new rest ih =>
    rw [mergeFields, List.foldl_cons, ← mergeFields]
    have hrest := fun f hf => hplaced f (List.mem_cons_of_mem _ hf)
    obtain hsame | hother := hplaced new List.mem_cons_self
    · rw [← hsame] at hfresh hrest
      rw [setField_append_of_not_mem hfresh, setField, if_pos hsame.symm, ih hfresh hrest]
      simp [hsame]
    · have hne : new.1 ≠ field.1 := fun heq => hfresh (heq ▸ hother)
      have hkept : ∀ name,
          name ∈ (setField fields new).map Prod.fst ↔ name ∈ fields.map Prod.fst := by
        intro name
        rw [mem_names_setField]
        exact or_iff_left_of_imp fun heq => heq ▸ hother
      rw [setField_append_of_mem hother, ih ((hkept field.1).not.mpr hfresh)
        fun f hf => (hrest f hf).imp_right (hkept f.1).mpr]
      simp [hne]

theorem getLast?_filter_of_eq {last : Field} {fields : List Field}
    (h : fields.getLast? = some last) :
    (fields.filter (·.1 = last.1)).getLast? = some last := by
  obtain ⟨init, rfl⟩ := List.getLast?_eq_some_iff.mp h
  simp

/-- A list is cut where a name first comes. -/
theorem exists_first {fields : List Field} (h : name ∈ fields.map Prod.fst) :
    ∃ found after, fields = fields.takeWhile (·.1 ≠ name) ++ found :: after ∧ found.1 = name ∧
      name ∉ (fields.takeWhile (·.1 ≠ name)).map Prod.fst := by
  induction fields with
  | nil => simp at h
  | cons field rest ih =>
    by_cases hname : field.1 = name
    · exact ⟨field, rest, by simp [hname], hname, by simp [hname]⟩
    · obtain ⟨found, after, hrest, hfound, hfresh⟩ := ih (by simpa [Ne.symm hname] using h)
      refine ⟨found, after, ?_, hfound, ?_⟩
      · simpa [hname] using hrest
      · simpa [hname, Ne.symm hname] using hfresh

/-- Where the attribute is settled, its newest field is the last one in the merged fields. -/
theorem getLast?_mergeFields (h : Settled older newer) :
    (mergeFields older newer).getLast? = (older ++ newer).getLast? := by
  cases hlast : newer.getLast? with
  | none =>
    obtain rfl := List.getLast?_eq_none_iff.mp hlast
    simp [mergeFields]
  | some last =>
    obtain ⟨hbehind, hplaced⟩ := h last hlast
    have hmem : last.1 ∈ (older ++ newer).map Prod.fst :=
      List.mem_map_of_mem (List.mem_append_right _ (List.mem_of_getLast? hlast))
    obtain ⟨found, after, hcut, hfound, hfresh⟩ := exists_first hmem
    generalize (older ++ newer).takeWhile (·.1 ≠ last.1) = before at *
    have hall : (older ++ newer).getLast? = some last := by
      rw [List.getLast?_append, hlast]
      rfl
    -- Up to the place of the newest field, nothing has to be put into another place.
    obtain ⟨kept, hkept, hnames, hafter⟩ : ∃ kept,
        mergeFields older newer = mergeFields (kept ++ [found]) after ∧
          (∀ name, name ∈ kept.map Prod.fst ↔ name ∈ before.map Prod.fst) ∧
            ∀ f ∈ after, f ∈ newer := by
      obtain ⟨pre, rfl, rfl⟩ | ⟨rest, rfl, hrest⟩ := List.append_eq_append_iff.mp hcut
      · have hnames : ∀ name, name ∈ (mergeFields older pre).map Prod.fst ↔
            name ∈ (older ++ pre).map Prod.fst := by
          intro name
          rw [mem_names_mergeFields, List.map_append, List.mem_append]
        have hnew : found.1 ∉ (mergeFields older pre).map Prod.fst := by
          rw [hnames, hfound]
          exact hfresh
        exact ⟨mergeFields older pre, mergeFields_append_cons hnew, hnames,
          fun f hf => List.mem_append_right _ (List.mem_cons_of_mem _ hf)⟩
      · cases rest with
        | nil =>
          obtain rfl : newer = found :: after := by simpa using hrest.symm
          rw [List.append_nil]
          have hnew : found.1 ∉ (mergeFields before []).map Prod.fst := hfound ▸ hfresh
          exact ⟨before, mergeFields_append_cons hnew, fun _ => Iff.rfl,
            fun f hf => List.mem_cons_of_mem _ hf⟩
        | cons first others =>
          have hnone : others = [] := by
            simp only [List.length_append, List.length_cons] at hbehind
            exact List.eq_nil_of_length_eq_zero (by omega)
          subst hnone
          obtain ⟨rfl, rfl⟩ : found = first ∧ after = newer := by simpa using hrest
          exact ⟨before, rfl, fun _ => Iff.rfl, fun _ hf => hf⟩
    have hend : (found :: after).getLast? = some last := by
      rw [hcut, List.getLast?_append] at hall
      simpa [List.getLast?_cons] using hall
    rw [hall, hkept, getLast?_mergeFields_append ?_ ?_, hfound]
    · exact getLast?_filter_of_eq hend
    · rw [hnames, hfound]
      exact hfresh
    · intro f hf
      rw [hnames, hfound]
      exact hplaced f (hafter f hf)

/-! ## What the merged fields make of settings -/

section
variable {σ : Type} {attributes : List (Attribute σ)} {withField : σ → Field → Except Error σ}
  {first : Entry} {later : List Entry}

/-- Fields of entries are applied one after the other. -/
theorem foldlM_entries (entries : List Entry) (s : σ) :
    entries.foldlM (fun s entry => entry.fields.foldlM withField s) s =
      (entries.flatMap Entry.fields).foldlM withField s := by
  induction entries generalizing s with
  | nil => rfl
  | cons entry rest ih =>
    rw [List.foldlM_cons, List.flatMap_cons, List.foldlM_append]
    exact congrArg _ (funext ih)

/-- The fields of all entries in one coalesce them. -/
theorem coalesces_mergeFields (h : Describes attributes withField) :
    Coalesces attributes (fun s fields => fields.foldlM withField s) first later
      { first with fields := mergeFields first.fields (later.flatMap Entry.fields) } := by
  intro s s' horder
  rw [foldlM_entries, List.flatMap_cons] at horder
  have haccepted := accepted_of_foldlM horder
  have hall : ∀ field ∈ mergeFields first.fields (later.flatMap Entry.fields),
      ∃ s s', withField s field = .ok s' :=
    fun field hfield => haccepted field (List.mem_append.mpr (mem_of_mem_mergeFields hfield))
  obtain ⟨t, ht⟩ := h.accepts_all hall s
  have hsettled : ∀ a ∈ attributes, a.Settled first later → a.get t = a.get s' := by
    intro a ha hset
    refine h.get_eq_of_last_eq ha ?_ ht horder
    have hlast := getLast?_mergeFields hset
    unfold Attribute.writes at hlast ⊢
    rw [filter_mergeFields (a.names.contains ·), hlast, List.filter_append]
  exact ⟨t, ht, hsettled, fun hset => h.ext t s' fun a ha => hsettled a ha (hset a ha)⟩

end

end Entry

/-! ## What the queue makes of entries -/

namespace Queue
variable {name : String} {old new : Entry}

/-- A merging queue with one entry. -/
def holding (name : String) (entry : Entry) : Queue Entry :=
  { name, discipline := .merge, groups := [(entry.key, [entry])], count := 1 }

theorem push_empty (hset : new.operation = .set) :
    ({ name, discipline := .merge } : Queue Entry).push new = holding name new := by
  simp [push, holding, pending, store, Queued.key, Queued.supersedes, hset]

theorem push_holding (hkey : new.key = old.key) (hold : old.operation = .set)
    (hset : new.operation = .set) :
    (holding name old).push new =
      holding name { old with fields := Entry.mergeFields old.fields new.fields } := by
  simp [push, holding, pending, store, Queued.key, Queued.supersedes, Queued.merge?, hset, hold,
    hkey]

/-- All SETs of a key become one. -/
theorem pushAll_sets {key : String} {first : Entry} {later : List Entry}
    (h : ∀ entry ∈ first :: later, entry.key = key ∧ entry.operation = .set) :
    ({ name, discipline := .merge } : Queue Entry).pushAll (first :: later) =
      holding name
        { first with fields := Entry.mergeFields first.fields (later.flatMap Entry.fields) } := by
  obtain ⟨⟨rfl, hfirst⟩, hlater⟩ := List.forall_mem_cons.mp h
  rw [pushAll, List.foldl_cons, push_empty hfirst]
  clear h
  induction later generalizing first with
  | nil => rfl
  | cons entry rest ih =>
    obtain ⟨⟨hkey, hset⟩, hrest⟩ := List.forall_mem_cons.mp hlater
    let joined : Entry := { first with fields := Entry.mergeFields first.fields entry.fields }
    have hjoined : rest.foldl push (holding name joined) = holding name
        { joined with fields := Entry.mergeFields joined.fields (rest.flatMap Entry.fields) } :=
      ih hfirst hrest
    rw [List.foldl_cons, push_holding hkey hfirst hset, hjoined]
    simp [joined, Entry.mergeFields]

end Queue

/-- Whatever SETs of a key are queued, one entry comes out, which coalesces them for the settings of
every table. -/
theorem coalesces_drain (name key : String) (first : Entry) (later : List Entry)
    (h : ∀ entry ∈ first :: later, entry.key = key ∧ entry.operation = .set) :
    ∃ merged : Entry,
      (({ name, discipline := .merge } : Queue Entry).pushAll (first :: later)).drain =
          ([merged], { name, discipline := .merge }) ∧
        merged.key = key ∧ merged.operation = .set ∧
        Coalesces LagSettings.attributes LagSettings.withFields first later merged ∧
        Coalesces MemberSettings.attributes MemberSettings.withFields first later merged ∧
        Coalesces PortStatus.attributes PortStatus.withFields first later merged ∧
        Coalesces SystemIdentity.attributes SystemIdentity.withFields first later merged := by
  obtain ⟨hkey, hset⟩ := h first List.mem_cons_self
  refine ⟨{ first with fields := Entry.mergeFields first.fields (later.flatMap Entry.fields) },
    ?_, hkey, hset, ?_, ?_, ?_, ?_⟩
  · rw [Queue.pushAll_sets h]
    rfl
  · exact Entry.coalesces_mergeFields LagSettings.describes
  · exact Entry.coalesces_mergeFields MemberSettings.describes
  · exact Entry.coalesces_mergeFields PortStatus.describes
  · exact Entry.coalesces_mergeFields SystemIdentity.describes

/-- The newest rate wins if the fields that set it come in this order, also where one comes twice. -/
theorem coalesces_drain_rates :
    let first : Entry := ⟨"PortChannel1", .set, [("fast_rate", "false"), ("lacp_rate", "slow")]⟩
    let later : List Entry :=
      [⟨"PortChannel1", .set, [("mtu", "9100"), ("lacp_mode", "passive")]⟩,
        ⟨"PortChannel1", .set, [("lacp_mode", "active"), ("fast_rate", "false"), ("lacp_rate", "slow"),
          ("lacp_rate", "fast")]⟩]
    (∀ entry ∈ first :: later, entry.key = "PortChannel1" ∧ entry.operation = .set) ∧
      ∃ merged : Entry,
        (({ name := "PORTCHANNEL", discipline := .merge } : Queue Entry).pushAll
            (first :: later)).drain = ([merged], { name := "PORTCHANNEL", discipline := .merge }) ∧
          LagSettings.withFields {} merged.fields = .ok { mode := .active, rate := .fast } := by
  intro first later
  have h : ∀ entry ∈ first :: later, entry.key = "PortChannel1" ∧ entry.operation = .set := by
    simp [first, later]
  obtain ⟨merged, hdrain, -, -, hlag, -⟩ := coalesces_drain "PORTCHANNEL" "PortChannel1" first later h
  have horder : (first :: later).foldlM
      (fun s entry => LagSettings.withFields s entry.fields) ({} : LagSettings) =
        .ok { mode := .active, rate := .fast } := by
    decide +kernel
  obtain ⟨t, ht, -, hsame⟩ := hlag _ _ horder
  have hsettled : ∀ a ∈ LagSettings.attributes, a.Settled first later := by
    decide +kernel
  obtain rfl := hsame hsettled
  exact ⟨h, merged, hdrain, ht⟩

/-- Three updates, each of one field: applied in order they leave the LAG fast. The queue leaves the
newest value in the place of the first, where the second one comes after it and makes the LAG slow. -/
theorem older_rate_wins :
    ¬ ∀ (first : Entry) (later : List Entry) (s s' : LagSettings),
      (∀ entry ∈ first :: later, entry.key = "PortChannel1" ∧ entry.operation = .set) →
      (first :: later).foldlM (fun s entry => LagSettings.withFields s entry.fields) s = .ok s' →
        ∃ merged : Entry,
          (({ name := "PORTCHANNEL", discipline := .merge } : Queue Entry).pushAll
              (first :: later)).drain.1 = [merged] ∧
            s.withFields merged.fields = .ok s' := by
  intro hclaim
  let first : Entry := ⟨"PortChannel1", .set, [("fast_rate", "true")]⟩
  let later : List Entry :=
    [⟨"PortChannel1", .set, [("lacp_rate", "slow")]⟩,
      ⟨"PortChannel1", .set, [("fast_rate", "true")]⟩]
  have horder : (first :: later).foldlM
      (fun s entry => LagSettings.withFields s entry.fields) ({} : LagSettings) =
        .ok { rate := .fast } := by
    decide +kernel
  have hslow : LagSettings.withFields {} [("fast_rate", "true"), ("lacp_rate", "slow")] =
      .ok { rate := .slow } := by
    decide +kernel
  obtain ⟨merged, hdrain, hmerged⟩ := hclaim first later _ _ (by simp [first, later]) horder
  have hone : (({ name := "PORTCHANNEL", discipline := .merge } : Queue Entry).pushAll
      (first :: later)).drain.1 =
        [⟨"PortChannel1", .set, [("fast_rate", "true"), ("lacp_rate", "slow")]⟩] := by
    decide +kernel
  obtain rfl := (List.cons.inj (hdrain.symm.trans hone)).1
  rw [hslow] at hmerged
  simp at hmerged

end LinkAggregation
