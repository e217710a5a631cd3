import LinkAggregation.Config.LagSettings

/-!
# System identity

The address and priority of the system. A LAG may override either, so the identifier that a LAG
advertises is resolved from both.
-/
namespace LinkAggregation
open Config

/-- The identity of the system as a whole. -/
structure SystemIdentity where
  mac : MacAddress := .zero
  priority : UInt16 := 65534
  deriving DecidableEq, Repr, Inhabited

namespace SystemIdentity

/-- The identifier that a LAG advertises. -/
def resolve (s : SystemIdentity) (lag : LagSettings) : SystemId :=
  ⟨lag.systemPriority.getD s.priority, lag.systemMac.getD s.mac⟩

/-- Applies one field; unknown fields are ignored. -/
def withField (s : SystemIdentity) : Field → Except Error SystemIdentity
  | (field, value) =>
    if field = "system_mac" then return { s with mac := ← readSystemMac field value }
    else if field = "system_priority" then return { s with priority := ← readNumber field value }
    else return s

/-- Applies fields in order. -/
def withFields (s : SystemIdentity) (fields : List Field) : Except Error SystemIdentity :=
  fields.foldlM withField s

end SystemIdentity
end LinkAggregation
