import LinkAggregation.Text.Numeral
import LinkAggregation.Text.Split

/-!
# Timer keys

What a timer drives. Keys are ordered by the kind of timer first and by the slot then. A key is
written as its kind and its slot with a colon between them.
-/
namespace LinkAggregation

/-- A timer of an interface slot, or the fallback timer of a LAG slot. -/
inductive TimerKey where
  /-- The next periodic transmission. -/
  | periodic (slot : Nat)
  /-- The receive machine's wait for the partner. -/
  | currentWhile (slot : Nat)
  /-- The mux machine's wait before it attaches. -/
  | waitWhile (slot : Nat)
  | actorChurn (slot : Nat)
  | partnerChurn (slot : Nat)
  /-- Fallback of a LAG comes into force. -/
  | fallback (lag : Nat)
  deriving DecidableEq, Repr

namespace TimerKey

/-- The place of the kind in the order of keys. -/
def kind : TimerKey → Nat
  | periodic _ => 0
  | currentWhile _ => 1
  | waitWhile _ => 2
  | actorChurn _ => 3
  | partnerChurn _ => 4
  | fallback _ => 5

def slot : TimerKey → Nat
  | periodic slot | currentWhile slot | waitWhile slot | actorChurn slot | partnerChurn slot => slot
  | fallback lag => lag

/-- The interface slot that the timer belongs to. -/
def interface? : TimerKey → Option Nat
  | periodic slot | currentWhile slot | waitWhile slot | actorChurn slot | partnerChurn slot =>
    some slot
  | fallback _ => none

/-- The names of the kinds with the keys of each kind, in their order. -/
def kinds : List (String × (Nat → TimerKey)) :=
  [("Periodic", periodic), ("CurrentWhile", currentWhile), ("WaitWhile", waitWhile),
    ("ActorChurn", actorChurn), ("PartnerChurn", partnerChurn), ("Fallback", fallback)]

def kindName : TimerKey → String
  | periodic _ => "Periodic"
  | currentWhile _ => "CurrentWhile"
  | waitWhile _ => "WaitWhile"
  | actorChurn _ => "ActorChurn"
  | partnerChurn _ => "PartnerChurn"
  | fallback _ => "Fallback"

def text (k : TimerKey) : String := k.kindName ++ ":" ++ Text.decimal k.slot

/-- Reads a key. -/
def ofText? (s : String) : Option TimerKey := do
  let (kind, slot) ← Text.splitFirst? ':' s.toList
  let (_, key) ← kinds.find? (·.1 == String.ofList kind)
  return key (← Text.digitsValue? slot)

/-- Kind and slot tell keys apart. -/
theorem eq_of_kind_of_slot {a b : TimerKey} (hk : a.kind = b.kind) (hs : a.slot = b.slot) :
    a = b := by
  cases a <;> cases b <;> simp_all [kind, slot]

end TimerKey
end LinkAggregation
