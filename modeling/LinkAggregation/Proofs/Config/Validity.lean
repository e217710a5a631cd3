import LinkAggregation.Proofs.Config.Attributes

/-!
# Valid settings

What a reader accepts for an attribute, the attribute keeps to, however often and in whatever order
it is set. So the settings of a LAG never hold a group address or a timeout beyond the limit, and
those of a member never a key or a port number of zero. Neither the key in the name of a LAG nor
the port number that an interface has by default is ever zero.
-/
namespace LinkAggregation
open Config

/-- What holds of every value that is read holds of the attribute after fields have been applied,
if it held before. -/
theorem Describes.get_of_foldlM {σ : Type} {attributes : List (Attribute σ)}
    {withField : σ → Field → Except Error σ} (h : Describes attributes withField)
    {a : Attribute σ} (ha : a ∈ attributes) {P : a.Value → Prop}
    (hread : ∀ field value x, a.read field value = .ok x → P x) {s s' : σ} {fields : List Field}
    (hs : P (a.get s)) (hfields : fields.foldlM withField s = .ok s') : P (a.get s') := by
  have hlast := h.get_foldlM ha hfields
  split at hlast
  · rw [hlast]
    exact hs
  · next field _ => exact hread field.1 field.2 _ hlast

/-! ## What readers accept -/

namespace Config

theorem ok_of_map {α β : Type} {f : α → β} {r : Except Error α} {y : β} (h : f <$> r = .ok y) :
    ∃ x, r = .ok x ∧ f x = y := by
  cases r with
  | error error => cases h
  | ok x => exact ⟨x, rfl, Except.ok.inj h⟩

theorem isMulticast_of_readSystemMac {field value : String} {mac : MacAddress}
    (h : readSystemMac field value = .ok mac) : mac.isMulticast = false := by
  obtain ⟨read, -, h⟩ := ok_of_bind h
  split at h
  · cases h
  · next hunicast =>
    obtain rfl : read = mac := Except.ok.inj h
    exact Bool.eq_false_iff.mpr hunicast

theorem ne_zero_of_readPositive {field value : String} {n : UInt16}
    (h : readPositive field value = .ok n) : n ≠ 0 := by
  obtain ⟨read, -, h⟩ := ok_of_bind h
  split at h
  · cases h
  · next hpositive =>
    obtain rfl : read = n := Except.ok.inj h
    exact hpositive

end Config

/-! ## Settings -/

/-- The timeout keeps to its limit, and an address that is set is not a group's. -/
structure LagSettings.Valid (s : LagSettings) : Prop where
  timeout : s.fallbackTimeout ≤ 900
  systemMac : ∀ mac, s.systemMac = some mac → mac.isMulticast = false

/-- A key and a port number that are set are not zero. -/
structure MemberSettings.Valid (s : MemberSettings) : Prop where
  aggregationKey : ∀ key, s.aggregationKey = some key → key ≠ 0
  portNumber : ∀ number, s.portNumber = some number → number ≠ 0

theorem LagSettings.valid_default : ({} : LagSettings).Valid := ⟨by decide, nofun⟩

theorem MemberSettings.valid_default : ({} : MemberSettings).Valid := ⟨nofun, nofun⟩

theorem LagSettings.Valid.withFields {s s' : LagSettings} {fields : List Field} (h : s.Valid)
    (hfields : s.withFields fields = .ok s') : s'.Valid where
  timeout := timeout_le_of_withFields h.timeout hfields
  systemMac := by
    refine describes.get_of_foldlM (a := attributes[5]) (List.getElem_mem _)
      (P := fun set : Option MacAddress => ∀ mac, set = some mac → mac.isMulticast = false)
      (fun field value set hread mac hset => ?_) h.systemMac hfields
    obtain ⟨read, hok, rfl⟩ := ok_of_map hread
    obtain rfl : read = mac := Option.some.inj hset
    exact isMulticast_of_readSystemMac hok

theorem MemberSettings.Valid.withFields {s s' : MemberSettings} {fields : List Field}
    (h : s.Valid) (hfields : s.withFields fields = .ok s') : s'.Valid := by
  have hread (field value : String) (set : Option UInt16)
      (hread : some <$> readPositive field value = .ok set) : ∀ n, set = some n → n ≠ 0 := by
    intro n hset
    obtain ⟨read, hok, rfl⟩ := ok_of_map hread
    obtain rfl : read = n := Option.some.inj hset
    exact ne_zero_of_readPositive hok
  exact
    { aggregationKey := describes.get_of_foldlM (a := attributes[0]) (List.getElem_mem _)
        (P := fun set : Option UInt16 => ∀ n, set = some n → n ≠ 0) hread h.aggregationKey hfields
      portNumber := describes.get_of_foldlM (a := attributes[1]) (List.getElem_mem _)
        (P := fun set : Option UInt16 => ∀ n, set = some n → n ≠ 0) hread h.portNumber hfields }

/-- The system's address is a group's only if it was one before. -/
theorem SystemIdentity.isMulticast_of_withFields {s s' : SystemIdentity} {fields : List Field}
    (h : s.mac.isMulticast = false) (hfields : s.withFields fields = .ok s') :
    s'.mac.isMulticast = false :=
  describes.get_of_foldlM (a := attributes[0]) (List.getElem_mem _)
    (P := fun mac : MacAddress => mac.isMulticast = false)
    (fun _ _ _ hread => isMulticast_of_readSystemMac hread) h hfields

/-- What a LAG advertises has the address of the LAG or of the system. -/
theorem SystemIdentity.isMulticast_resolve {s : SystemIdentity} {settings : LagSettings}
    (h : s.mac.isMulticast = false) (hsettings : settings.Valid) :
    (s.resolve settings).mac.isMulticast = false := by
  unfold resolve
  cases hmac : settings.systemMac with
  | none => exact h
  | some mac => exact hsettings.systemMac mac hmac

/-! ## Names -/

theorem lagKey_bounds {name : String} {key : UInt16} (h : lagKey name = .ok key) :
    1 ≤ key.toNat ∧ key.toNat ≤ 9999 := by
  unfold lagKey at h
  dsimp only at h
  split at h
  · cases h
  · split at h
    · cases h
    · next n _ =>
      split at h
      · next hn =>
        obtain rfl := Except.ok.inj h
        have hmax : n ≤ 9999 := hn.2
        rw [UInt16.toNat_ofNat']
        omega
      · cases h

theorem defaultPortNumber_ne_zero (name : String) (slot : Nat) :
    defaultPortNumber name slot ≠ 0 := by
  have hslot : UInt16.ofNat (min (slot + 1) 65535) ≠ 0 := by
    rw [ne_eq, ← UInt16.toNat_inj, UInt16.toNat_ofNat', UInt16.toNat_zero]
    omega
  unfold defaultPortNumber
  split
  · next n _ =>
    split
    · rw [ne_eq, ← UInt16.toNat_inj, UInt16.toNat_ofNat', UInt16.toNat_zero]
      omega
    · exact hslot
  · exact hslot

end LinkAggregation
