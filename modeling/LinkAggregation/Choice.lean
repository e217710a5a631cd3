import LinkAggregation.Text.Split
import LinkAggregation.ValueError

/-!
# Named choices

The settings that take one of a few words. `name` is the word that is written and `ofName?` its
inverse; `parse` also accepts capitals.
-/
namespace LinkAggregation
open Text

/-- How a LAG negotiates. `off` is a static LAG, which sends nothing. -/
inductive Mode where
  | off
  | active
  | passive
  deriving DecidableEq, Repr, Inhabited

namespace Mode

def all : List Mode := [off, active, passive]

def name : Mode → String
  | off => "off"
  | active => "active"
  | passive => "passive"

def ofName? (s : String) : Option Mode := all.find? (·.name == s)

def parse (s : String) : Except ValueError Mode := ValueKind.mode.require s (ofName? (foldCase s))

/-- Dynamic LAGs run the protocol. -/
def isDynamic (m : Mode) : Bool := m != off

@[simp] theorem ofName?_name (m : Mode) : ofName? m.name = some m := by cases m <;> decide

end Mode

/-- How often the partner is asked to send. -/
inductive Rate where
  | slow
  | fast
  deriving DecidableEq, Repr, Inhabited

namespace Rate

def all : List Rate := [slow, fast]

def name : Rate → String
  | slow => "slow"
  | fast => "fast"

def ofName? (s : String) : Option Rate := all.find? (·.name == s)

def parse (s : String) : Except ValueError Rate := ValueKind.rate.require s (ofName? (foldCase s))

def isFast (r : Rate) : Bool := r == fast

@[simp] theorem ofName?_name (r : Rate) : ofName? r.name = some r := by cases r <;> decide

end Rate

/-- Which members fallback lets forward: the best one, or every one that hears nothing. -/
inductive FallbackMode where
  | priority
  | allActive
  deriving DecidableEq, Repr, Inhabited

namespace FallbackMode

def all : List FallbackMode := [priority, allActive]

def name : FallbackMode → String
  | priority => "priority"
  | allActive => "all_active"

def ofName? (s : String) : Option FallbackMode := all.find? (·.name == s)

/-- The second mode may also be written with a hyphen. -/
def parse (s : String) : Except ValueError FallbackMode :=
  let word := foldCase s
  ValueKind.fallbackMode.require s (if word == "all-active" then some allActive else ofName? word)

@[simp] theorem ofName?_name (m : FallbackMode) : ofName? m.name = some m := by
  cases m <;> decide

end FallbackMode

/-- The administrative status of a port, or the status of its link. -/
inductive UpDown where
  | down
  | up
  deriving DecidableEq, Repr, Inhabited

namespace UpDown

def all : List UpDown := [down, up]

def name : UpDown → String
  | down => "down"
  | up => "up"

def ofName? (s : String) : Option UpDown := all.find? (·.name == s)

def ofBool (isUp : Bool) : UpDown := if isUp then up else down

def isUp (s : UpDown) : Bool := s == up

def parseAdmin (s : String) : Except ValueError UpDown :=
  ValueKind.adminStatus.require s (ofName? (foldCase s))

def parseLink (s : String) : Except ValueError UpDown :=
  ValueKind.linkStatus.require s (ofName? (foldCase s))

@[simp] theorem ofName?_name (s : UpDown) : ofName? s.name = some s := by cases s <;> decide

@[simp] theorem ofBool_isUp (s : UpDown) : ofBool s.isUp = s := by cases s <;> rfl

end UpDown

/-- Whether a member, or a LAG as a whole, forwards traffic. -/
inductive BondStatus where
  | up
  | down
  | blocked
  deriving DecidableEq, Repr, Inhabited

namespace BondStatus

def all : List BondStatus := [up, down, blocked]

def name : BondStatus → String
  | up => "up"
  | down => "down"
  | blocked => "blocked"

/-- Only the exact word is read. -/
def ofName? (s : String) : Option BondStatus := all.find? (·.name == s)

def unknownMessage (s : String) : String := "unknown bond status: " ++ s

@[simp] theorem ofName?_name (s : BondStatus) : ofName? s.name = some s := by cases s <;> decide

end BondStatus
end LinkAggregation
