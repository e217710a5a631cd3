/-!
# Outcomes of selection

What selection decides for a member: it takes part, it stands by, or it is left out for a reason.
-/
namespace LinkAggregation

/-- Why a member is left out of the aggregate. -/
inductive Exclusion where
  /-- Not configured under any LAG. -/
  | notMember
  /-- Administratively down or without link. -/
  | disabled
  /-- Its aggregation key is not the winning one. -/
  | keyMismatch
  /-- Its partner is not the winning one. -/
  | partnerMismatch
  /-- It has heard no partner while other members have. -/
  | noPartner
  /-- Its speed is not the reference speed. -/
  | speedMismatch
  deriving DecidableEq, Repr

namespace Exclusion

def all : List Exclusion :=
  [notMember, disabled, keyMismatch, partnerMismatch, noPartner, speedMismatch]

/-- The name in lower case with underscores. -/
def name : Exclusion → String
  | notMember => "not_member"
  | disabled => "disabled"
  | keyMismatch => "key_mismatch"
  | partnerMismatch => "partner_mismatch"
  | noPartner => "no_partner"
  | speedMismatch => "speed_mismatch"

/-- The name with each word capitalised. -/
def title : Exclusion → String
  | notMember => "NotMember"
  | disabled => "Disabled"
  | keyMismatch => "KeyMismatch"
  | partnerMismatch => "PartnerMismatch"
  | noPartner => "NoPartner"
  | speedMismatch => "SpeedMismatch"

def ofName? (s : String) : Option Exclusion := all.find? (·.name == s)

end Exclusion

/-- What selection decides for a member. -/
inductive Selection where
  | selected
  /-- Fit to take part, but beyond the member limit. -/
  | standby
  | unselected (reason : Exclusion)
  deriving DecidableEq, Repr

namespace Selection

instance : Inhabited Selection := ⟨unselected .notMember⟩

/-- A member that selection has not looked at is no member. -/
def initial : Selection := unselected .notMember

def isSelected (s : Selection) : Bool := s == selected

/-- Selected or standing by: the member may wait to attach. -/
def isEligible (s : Selection) : Bool := s == selected || s == standby

/-- Left out because its key, partner or speed conflicts with the aggregate. -/
def isConflict : Selection → Bool
  | unselected .keyMismatch | unselected .partnerMismatch | unselected .speedMismatch => true
  | _ => false

def text : Selection → String
  | selected => "selected"
  | standby => "standby"
  | unselected reason => "unselected(" ++ reason.title ++ ")"

/-- The selection with this name, where an exclusion goes by the name of its reason. -/
def ofName? (s : String) : Option Selection :=
  if s == "selected" then some selected
  else if s == "standby" then some standby
  else (Exclusion.ofName? s).map unselected

end Selection
end LinkAggregation
