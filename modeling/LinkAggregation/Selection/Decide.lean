import LinkAggregation.Assoc
import LinkAggregation.Identity
import LinkAggregation.Selection.Outcome

/-!
# The selection rule

Members pass a series of tests, and one that fails a test is unselected for its reason: it is
enabled; it has the winning aggregation key; in a dynamic LAG, it has the winning partner; its
speed, if known, is the reference speed. Those that pass are ranked by port, partner port and
slot, and the best ones are selected up to the limit.
-/
namespace LinkAggregation

/-- Who is at the other end: a system and its aggregation key. -/
structure PartnerId where
  system : SystemId
  key : UInt16
  deriving DecidableEq, Repr

/-- A member as the selection rule sees it. -/
structure Candidate where
  slot : Nat
  enabled : Bool
  key : UInt16
  port : PortId
  /-- Absent while no partner is known. -/
  partner : Option PartnerId
  partnerPort : PortId
  /-- In Mbps, if known. -/
  speed : Option Nat
  deriving DecidableEq, Repr

/-- The order of candidates: own port, partner's port, slot. -/
def Candidate.notAfter (a b : Candidate) : Bool :=
  a.port.rank < b.port.rank || a.port.rank == b.port.rank &&
    (a.partnerPort.rank < b.partnerPort.rank || a.partnerPort.rank == b.partnerPort.rank &&
      a.slot ≤ b.slot)

/-- The members of a LAG and what the LAG asks of them. -/
structure SelectionInput where
  lagKey : UInt16
  dynamic : Bool
  maxMembers : Nat
  candidates : List Candidate

/-- The candidates still in the running, best first, and the decisions made, latest first. -/
structure Ballot where
  pool : List Candidate
  decided : List (Nat × Selection)

namespace Ballot

/-- Takes the candidates with a reason against them out of the running. -/
def reject (b : Ballot) (reason? : Candidate → Option Exclusion) : Ballot where
  pool := b.pool.filter fun c => (reason? c).isNone
  decided :=
    (b.pool.filterMap fun c => (reason? c).map fun r => (c.slot, Selection.unselected r)).reverse ++
      b.decided

/-- The LAG's own key wins if a candidate has it, else the key of the best candidate. -/
def winningKey (lagKey : UInt16) (pool : List Candidate) : UInt16 :=
  if pool.any (·.key == lagKey) then lagKey else (pool.head?.map (·.key)).getD lagKey

/-- The partners of a pool, each with the number of candidates that have it. -/
def partnerGroups (pool : List Candidate) : List (PartnerId × Nat) :=
  let partners := pool.filterMap (·.partner)
  partners.eraseDups.map fun p => (p, partners.count p)

/-- The better group: the better system, then more members, then the lower partner key. -/
def betterGroup (a b : PartnerId × Nat) : Bool :=
  a.1.system.rank < b.1.system.rank || a.1.system.rank == b.1.system.rank &&
    (b.2 < a.2 || b.2 == a.2 && a.1.key < b.1.key)

/-- The best of the groups, if there is one. -/
def bestGroup : List (PartnerId × Nat) → Option (PartnerId × Nat)
  | [] => none
  | g :: rest => some (rest.foldl (fun best h => if betterGroup h best then h else best) g)

/-- The order in which the groups are looked through; it is meant to be any. -/
abbrev Arrangement : Type := List (PartnerId × Nat) → List (PartnerId × Nat)

/-- The partner of the best group; none if no candidate has a partner. -/
def winningPartner (arrange : Arrangement) (pool : List Candidate) : Option PartnerId :=
  (bestGroup (arrange (partnerGroups pool))).map Prod.fst

/-- Why a candidate does not go with the winning partner. -/
def partnerObjection (winner : PartnerId) (c : Candidate) : Option Exclusion :=
  match c.partner with
  | none => some .noPartner
  | some p => if p = winner then none else some .partnerMismatch

/-- The speed of the best candidate whose speed is known. -/
def referenceSpeed (pool : List Candidate) : Option Nat := pool.findSome? (·.speed)

/-- Why a candidate does not go with the reference speed; an unknown speed goes with any. -/
def speedObjection (reference : Nat) (c : Candidate) : Option Exclusion :=
  match c.speed with
  | none => none
  | some s => if s = reference then none else some .speedMismatch

/-- The disabled candidates are out; the others are ranked. -/
def start (candidates : List Candidate) : Ballot where
  pool := (candidates.filter (·.enabled)).mergeSort Candidate.notAfter
  decided := ((candidates.filter (!·.enabled)).map fun c =>
    (c.slot, Selection.unselected .disabled)).reverse

def byKey (b : Ballot) (lagKey : UInt16) : Ballot :=
  let winner := winningKey lagKey b.pool
  b.reject fun c => if c.key = winner then none else some .keyMismatch

def byPartner (b : Ballot) (arrange : Arrangement) : Ballot :=
  match winningPartner arrange b.pool with
  | none => b
  | some winner => b.reject (partnerObjection winner)

def bySpeed (b : Ballot) : Ballot :=
  match referenceSpeed b.pool with
  | none => b
  | some reference => b.reject (speedObjection reference)

/-- All tests, in order. -/
def run (arrange : Arrangement) (input : SelectionInput) : Ballot :=
  let b := (start input.candidates).byKey input.lagKey
  (if input.dynamic then b.byPartner arrange else b).bySpeed

end Ballot

/-- The decisions, latest first, and the selected members, best first. -/
structure SelectionOutput where
  decided : List (Nat × Selection)
  active : List Nat

/-- The decision for a slot; a slot that is no candidate is no member. -/
def SelectionOutput.decision (o : SelectionOutput) (slot : Nat) : Selection :=
  (Assoc.get? slot o.decided).getD .initial

/-- Decides for every candidate, with the groups of partners looked through in this order. -/
def selectIn (arrange : Ballot.Arrangement) (input : SelectionInput) : SelectionOutput :=
  let b := Ballot.run arrange input
  let active := (b.pool.take input.maxMembers).map (·.slot)
  let waiting := (b.pool.drop input.maxMembers).map (·.slot)
  { decided := (waiting.map fun i => (i, Selection.standby)).reverse ++
      (active.map fun i => (i, Selection.selected)).reverse ++ b.decided
    active }

/-- Decides for every candidate. -/
def select (input : SelectionInput) : SelectionOutput := selectIn id input

end LinkAggregation
