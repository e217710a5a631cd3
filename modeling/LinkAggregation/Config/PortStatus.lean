import LinkAggregation.Config.Reading

/-!
# Port status

What the port table says of an interface: administrative status, link status and speed.
-/
namespace LinkAggregation
open Config

/-- The status of a port, down with an unknown speed at first. -/
structure PortStatus where
  admin : UpDown := .down
  link : UpDown := .down
  /-- In Mbps, if known. -/
  speed : Option Nat := none
  deriving DecidableEq, Repr, Inhabited

namespace PortStatus

/-- Administratively up and with link. -/
def isEnabled (s : PortStatus) : Bool := s.admin.isUp && s.link.isUp

/-- Applies one field; fields of other programs are ignored. -/
def withField (s : PortStatus) : Field → Except Error PortStatus
  | (field, value) =>
    if field = "admin_status" then
      return { s with admin := ← named field (UpDown.parseAdmin value) }
    else if field = "oper_status" then
      return { s with link := ← named field (UpDown.parseLink value) }
    else if field = "speed" then
      return { s with speed := ← readSpeed field value }
    else return s

/-- Applies fields in order. -/
def withFields (s : PortStatus) (fields : List Field) : Except Error PortStatus :=
  fields.foldlM withField s

end PortStatus
end LinkAggregation
