import LinkAggregation.Config.LagSettings
import LinkAggregation.Config.MemberSettings
import LinkAggregation.Config.PortStatus
import LinkAggregation.Config.SystemIdentity
import LinkAggregation.Proofs.Config
import Mathlib.Data.List.Induction
import Mathlib.Data.List.Pairwise

/-!
# Settings as attributes

Settings consist of attributes, each with the fields that set it. What a list of fields makes of an
attribute is what the last of its fields says, and whether a field is accepted does not depend on
the settings. Every error names its field.
-/
namespace LinkAggregation
open Config

/-- What cannot be read is an error of the field that is read. -/
def Config.Blames {α : Type} (read : String → String → Except Error α) : Prop :=
  ∀ field value error, read field value = .error error →
    ∃ refusal, error = .invalidConfig field refusal

/-- A part of the settings, and how fields set it. -/
structure Attribute (σ : Type) where
  /-- The fields that set it. -/
  names : List String
  {Value : Type}
  /-- The value that a field with this text gives it. -/
  read : String → String → Except Error Value
  get : σ → Value
  put : σ → Value → σ

/-- The fields that set the attribute, in order. -/
def Attribute.writes {σ : Type} (a : Attribute σ) (fields : List Field) : List Field :=
  fields.filter fun field => a.names.contains field.1

/-- Neither attribute is changed with the other. -/
def Attribute.Apart {σ : Type} (a b : Attribute σ) : Prop :=
  (∀ s x, a.get (b.put s x) = a.get s) ∧ ∀ s x, b.get (a.put s x) = b.get s

instance {σ : Type} : Std.Symm (@Attribute.Apart σ) := ⟨fun _ _ h => ⟨h.2, h.1⟩⟩

/-- The attributes are all that fields can change, and the settings are nothing else. -/
structure Describes {σ : Type} (attributes : List (Attribute σ))
    (withField : σ → Field → Except Error σ) : Prop where
  known : ∀ a ∈ attributes, ∀ name ∈ a.names, ∀ value s,
    withField s (name, value) = a.put s <$> a.read name value
  unknown : ∀ name, (∀ a ∈ attributes, name ∉ a.names) →
    ∀ value s, withField s (name, value) = .ok s
  get_put : ∀ a ∈ attributes, ∀ s x, a.get (a.put s x) = x
  apart : attributes.Pairwise Attribute.Apart
  ext : ∀ s t, (∀ a ∈ attributes, a.get s = a.get t) → s = t
  blames : ∀ a ∈ attributes, Blames a.read

/-! ## Errors of fields -/

namespace Config
variable {α β : Type}

theorem blames_named (parse : String → Except ValueError α) :
    Blames fun field value => named field (parse value) := by
  intro field value error h
  cases hparse : parse value with
  | ok x => simp [named, hparse, Except.mapError] at h
  | error e => exact ⟨.malformed e, by simpa [named, hparse, Except.mapError] using h.symm⟩

theorem Blames.map {read : String → String → Except Error α} (h : Blames read) (f : α → β) :
    Blames fun field value => f <$> read field value := by
  intro field value error herror
  cases hread : read field value with
  | ok x => simp [hread] at herror
  | error e =>
    obtain rfl : e = error := by simpa [hread] using herror
    exact h field value e hread

/-- A value that is read may still be refused. -/
theorem Blames.bind {read : String → String → Except Error α} (h : Blames read)
    {check : String → α → Except Error β}
    (hcheck : ∀ field x error, check field x = .error error →
      ∃ refusal, error = .invalidConfig field refusal) :
    Blames fun field value => read field value >>= check field := by
  intro field value error herror
  cases hread : read field value with
  | ok x =>
    simp only [hread] at herror
    exact hcheck field x error herror
  | error e =>
    simp only [hread] at herror
    obtain rfl : e = error := Except.error.inj herror
    exact h field value e hread

theorem blames_readBool : Blames readBool := by
  intro field value error h
  unfold readBool at h
  dsimp only at h
  repeat' split at h
  · cases h
  · cases h
  · exact ⟨_, (Except.error.inj h).symm⟩

theorem blames_readNumber : Blames readNumber := by
  intro field value error h
  unfold readNumber at h
  split at h
  · cases h
  · exact ⟨_, (Except.error.inj h).symm⟩

theorem blames_readSpeed : Blames readSpeed := by
  intro field value error h
  unfold readSpeed at h
  split at h
  · cases h
  · cases h
  · exact ⟨_, (Except.error.inj h).symm⟩

theorem blames_readPositive : Blames readPositive := by
  refine blames_readNumber.bind ?_
  intro field n error h
  split at h
  · exact ⟨_, (Except.error.inj h).symm⟩
  · cases h

theorem blames_readSystemMac : Blames readSystemMac := by
  refine (blames_named MacAddress.parse).bind ?_
  intro field mac error h
  split at h
  · exact ⟨_, (Except.error.inj h).symm⟩
  · cases h

theorem blames_readTimeout : Blames LagSettings.readTimeout := by
  refine blames_readNumber.bind ?_
  intro field seconds error h
  split at h
  · exact ⟨_, (Except.error.inj h).symm⟩
  · cases h

end Config

/-! ## The attributes of each kind of settings -/

def LagSettings.attributes : List (Attribute LagSettings) :=
  [ { names := ["lacp_mode"]
      read := fun field value => named field (Mode.parse value)
      get := mode
      put := fun s mode => { s with mode } },
    { names := ["lacp_rate", "fast_rate"]
      read := fun field value =>
        if field = "lacp_rate" then named field (Rate.parse value)
        else (fun fast => if fast then .fast else .slow) <$> readBool field value
      get := rate
      put := fun s rate => { s with rate } },
    { names := ["fallback"]
      read := readBool
      get := fallback
      put := fun s fallback => { s with fallback } },
    { names := ["fallback_mode"]
      read := fun field value => named field (FallbackMode.parse value)
      get := fallbackMode
      put := fun s fallbackMode => { s with fallbackMode } },
    { names := ["fallback_timeout"]
      read := readTimeout
      get := fallbackTimeout
      put := fun s fallbackTimeout => { s with fallbackTimeout } },
    { names := ["lacp_system_id"]
      read := fun field value => some <$> readSystemMac field value
      get := systemMac
      put := fun s systemMac => { s with systemMac } },
    { names := ["lacp_system_priority"]
      read := fun field value => some <$> readNumber field value
      get := systemPriority
      put := fun s systemPriority => { s with systemPriority } } ]

def MemberSettings.attributes : List (Attribute MemberSettings) :=
  [ { names := ["lacp_aggregation_key"]
      read := fun field value => some <$> readPositive field value
      get := aggregationKey
      put := fun s aggregationKey => { s with aggregationKey } },
    { names := ["lacp_port_id"]
      read := fun field value => some <$> readPositive field value
      get := portNumber
      put := fun s portNumber => { s with portNumber } },
    { names := ["lacp_port_priority"]
      read := readNumber
      get := portPriority
      put := fun s portPriority => { s with portPriority } } ]

def PortStatus.attributes : List (Attribute PortStatus) :=
  [ { names := ["admin_status"]
      read := fun field value => named field (UpDown.parseAdmin value)
      get := admin
      put := fun s admin => { s with admin } },
    { names := ["oper_status"]
      read := fun field value => named field (UpDown.parseLink value)
      get := link
      put := fun s link => { s with link } },
    { names := ["speed"]
      read := readSpeed
      get := speed
      put := fun s speed => { s with speed } } ]

def SystemIdentity.attributes : List (Attribute SystemIdentity) :=
  [ { names := ["system_mac"]
      read := readSystemMac
      get := mac
      put := fun s mac => { s with mac } },
    { names := ["system_priority"]
      read := readNumber
      get := priority
      put := fun s priority => { s with priority } } ]

theorem LagSettings.describes : Describes attributes withField where
  known := by simp [attributes, withField]
  unknown := by
    intro name hname value s
    simp [attributes] at hname
    simp [withField, hname, pure, Except.pure]
  get_put := by simp [attributes]
  apart := by simp [attributes, Attribute.Apart]
  ext := by
    rintro ⟨⟩ ⟨⟩ h
    simpa [attributes] using h
  blames := by
    simp only [attributes, List.forall_mem_cons]
    refine ⟨blames_named _, ?_, blames_readBool, blames_named _, blames_readTimeout,
      blames_readSystemMac.map _, blames_readNumber.map _,
      List.forall_mem_nil _⟩
    intro field value error h
    dsimp only at h
    split at h
    · exact blames_named Rate.parse field value error h
    · exact blames_readBool.map _ field value error h

theorem MemberSettings.describes : Describes attributes withField where
  known := by simp [attributes, withField]
  unknown := by
    intro name hname value s
    simp [attributes] at hname
    simp [withField, hname, pure, Except.pure]
  get_put := by simp [attributes]
  apart := by simp [attributes, Attribute.Apart]
  ext := by
    rintro ⟨⟩ ⟨⟩ h
    simpa [attributes] using h
  blames := by
    simp only [attributes, List.forall_mem_cons]
    exact ⟨blames_readPositive.map _, blames_readPositive.map _, blames_readNumber,
      List.forall_mem_nil _⟩

theorem PortStatus.describes : Describes attributes withField where
  known := by simp [attributes, withField]
  unknown := by
    intro name hname value s
    simp [attributes] at hname
    simp [withField, hname, pure, Except.pure]
  get_put := by simp [attributes]
  apart := by simp [attributes, Attribute.Apart]
  ext := by
    rintro ⟨⟩ ⟨⟩ h
    simpa [attributes] using h
  blames := by
    simp only [attributes, List.forall_mem_cons]
    exact ⟨blames_named _, blames_named _, blames_readSpeed, List.forall_mem_nil _⟩

theorem SystemIdentity.describes : Describes attributes withField where
  known := by simp [attributes, withField]
  unknown := by
    intro name hname value s
    simp [attributes] at hname
    simp [withField, hname, pure, Except.pure]
  get_put := by simp [attributes]
  apart := by simp [attributes, Attribute.Apart]
  ext := by
    rintro ⟨⟩ ⟨⟩ h
    simpa [attributes] using h
  blames := by
    simp only [attributes, List.forall_mem_cons]
    exact ⟨blames_readSystemMac, blames_readNumber, List.forall_mem_nil _⟩

/-! ## What fields make of an attribute -/

namespace Describes
variable {σ : Type} {attributes : List (Attribute σ)} {withField : σ → Field → Except Error σ}
  {a : Attribute σ} {s s' t t' : σ} {field : Field} {fields fields' : List Field}

/-- A field that is accepted once is always accepted. -/
theorem accepts (h : Describes attributes withField) (hfield : withField s field = .ok s') (t : σ) :
    ∃ t', withField t field = .ok t' := by
  obtain ⟨name, value⟩ := field
  by_cases hname : ∀ a ∈ attributes, name ∉ a.names
  · exact ⟨t, h.unknown name hname value t⟩
  · push Not at hname
    obtain ⟨a, ha, hname⟩ := hname
    rw [h.known a ha name hname] at hfield ⊢
    cases hread : a.read name value with
    | error error => rw [hread] at hfield; cases hfield
    | ok x => exact ⟨a.put t x, rfl⟩

theorem get_write (h : Describes attributes withField) (ha : a ∈ attributes)
    (hname : field.1 ∈ a.names) (hfield : withField s field = .ok s') :
    a.read field.1 field.2 = .ok (a.get s') := by
  rw [h.known a ha field.1 hname] at hfield
  cases hread : a.read field.1 field.2 with
  | error error => rw [hread] at hfield; cases hfield
  | ok x =>
    rw [hread] at hfield
    obtain rfl := Except.ok.inj hfield
    rw [h.get_put a ha]

theorem get_other (h : Describes attributes withField) (ha : a ∈ attributes)
    (hname : field.1 ∉ a.names) (hfield : withField s field = .ok s') : a.get s' = a.get s := by
  by_cases hunknown : ∀ b ∈ attributes, field.1 ∉ b.names
  · rw [h.unknown field.1 hunknown] at hfield
    obtain rfl := Except.ok.inj hfield
    rfl
  · push Not at hunknown
    obtain ⟨b, hb, hother⟩ := hunknown
    have hne : a ≠ b := by
      rintro rfl
      exact hname hother
    have hapart : a.Apart b := h.apart.forall ha hb hne
    rw [h.known b hb field.1 hother] at hfield
    cases hread : b.read field.1 field.2 with
    | error error => rw [hread] at hfield; cases hfield
    | ok x =>
      rw [hread] at hfield
      obtain rfl := Except.ok.inj hfield
      exact hapart.1 s x

/-- What is accepted one after the other is accepted in any selection and order. -/
theorem accepts_all (h : Describes attributes withField)
    (hfields : ∀ field ∈ fields, ∃ s s', withField s field = .ok s') (t : σ) :
    ∃ t', fields.foldlM withField t = .ok t' := by
  induction fields generalizing t with
  | nil => exact ⟨t, rfl⟩
  | cons field rest ih =>
    obtain ⟨s, s', hfield⟩ := hfields field List.mem_cons_self
    obtain ⟨t₁, ht₁⟩ := h.accepts hfield t
    obtain ⟨t', ht'⟩ := ih (fun f hf => hfields f (List.mem_cons_of_mem _ hf)) t₁
    refine ⟨t', ?_⟩
    rw [List.foldlM_cons, ht₁]
    exact ht'

/-- After all fields the attribute has what the last of its fields says. -/
theorem get_foldlM (h : Describes attributes withField) (ha : a ∈ attributes)
    (hfields : fields.foldlM withField s = .ok s') :
    match (a.writes fields).getLast? with
    | none => a.get s' = a.get s
    | some field => a.read field.1 field.2 = .ok (a.get s') := by
  induction fields using List.reverseRecOn generalizing s' with
  | nil =>
    obtain rfl : s = s' := Except.ok.inj hfields
    rfl
  | append_singleton rest field ih =>
    rw [List.foldlM_append] at hfields
    obtain ⟨s₁, hrest, hfield⟩ := ok_of_bind hfields
    simp only [List.foldlM_cons, List.foldlM_nil, bind_pure] at hfield
    by_cases hname : field.1 ∈ a.names
    · have hlast : (a.writes (rest ++ [field])).getLast? = some field := by
        simp [Attribute.writes, hname]
      rw [hlast]
      exact h.get_write ha hname hfield
    · have hsame : a.writes (rest ++ [field]) = a.writes rest := by
        simp [Attribute.writes, hname]
      rw [hsame, h.get_other ha hname hfield]
      exact ih hrest

/-- Only the last write of an attribute matters. -/
theorem get_eq_of_last_eq (h : Describes attributes withField) (ha : a ∈ attributes)
    (hlast : (a.writes fields).getLast? = (a.writes fields').getLast?)
    (hs : fields.foldlM withField s = .ok s') (ht : fields'.foldlM withField s = .ok t') :
    a.get s' = a.get t' := by
  have hread := h.get_foldlM ha hs
  have hread' := h.get_foldlM ha ht
  rw [hlast] at hread
  cases hcase : (a.writes fields').getLast? with
  | none =>
    rw [hcase] at hread hread'
    exact hread.trans hread'.symm
  | some field =>
    rw [hcase] at hread hread'
    exact Except.ok.inj (hread.symm.trans hread')

/-- An error names one of the fields. -/
theorem error_foldlM (h : Describes attributes withField) {error : Error}
    (herror : fields.foldlM withField s = .error error) :
    ∃ field ∈ fields, ∃ refusal, error = .invalidConfig field.1 refusal := by
  induction fields generalizing s with
  | nil => cases herror
  | cons field rest ih =>
    rw [List.foldlM_cons] at herror
    cases hfield : withField s field with
    | ok t =>
      rw [hfield] at herror
      obtain ⟨blamed, hblamed, herror⟩ := ih herror
      exact ⟨blamed, List.mem_cons_of_mem _ hblamed, herror⟩
    | error e =>
      rw [hfield] at herror
      obtain rfl : e = error := Except.error.inj herror
      refine ⟨field, List.mem_cons_self, ?_⟩
      by_cases hunknown : ∀ a ∈ attributes, field.1 ∉ a.names
      · rw [h.unknown field.1 hunknown] at hfield
        cases hfield
      · push Not at hunknown
        obtain ⟨a, ha, hname⟩ := hunknown
        rw [h.known a ha field.1 hname] at hfield
        refine h.blames a ha field.1 field.2 e ?_
        cases hread : a.read field.1 field.2 with
        | ok x => simp [hread] at hfield
        | error e' => simpa [hread] using hfield

end Describes

/-- Each of the fields was accepted by some settings. -/
theorem accepted_of_foldlM {σ : Type} {withField : σ → Field → Except Error σ} {s s' : σ}
    {fields : List Field} (h : fields.foldlM withField s = .ok s') :
    ∀ field ∈ fields, ∃ s s', withField s field = .ok s' := by
  induction fields generalizing s with
  | nil => simp
  | cons field rest ih =>
    rw [List.foldlM_cons] at h
    obtain ⟨s₁, hfield, hrest⟩ := ok_of_bind h
    intro f hf
    obtain rfl | hf := List.mem_cons.mp hf
    · exact ⟨s, s₁, hfield⟩
    · exact ih hrest f hf

/-- What fields have made of the settings they leave as it is the next time. -/
theorem Describes.foldlM_again {σ : Type} {attributes : List (Attribute σ)}
    {withField : σ → Field → Except Error σ} (h : Describes attributes withField) {s s' : σ}
    {fields : List Field} (hfields : fields.foldlM withField s = .ok s') :
    fields.foldlM withField s' = .ok s' := by
  obtain ⟨t, ht⟩ := h.accepts_all (accepted_of_foldlM hfields) s'
  suffices hsame : t = s' by rwa [hsame] at ht
  refine h.ext t s' fun a ha => ?_
  have hfirst := h.get_foldlM ha hfields
  have hagain := h.get_foldlM ha ht
  cases hlast : (a.writes fields).getLast? with
  | none =>
    rw [hlast] at hagain
    exact hagain
  | some field =>
    rw [hlast] at hfirst hagain
    exact Except.ok.inj (hagain.symm.trans hfirst)

end LinkAggregation
