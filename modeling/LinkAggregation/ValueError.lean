/-!
# Malformed values

The error for a text that is not a value of the kind it should be. It keeps the text as given.
-/
namespace LinkAggregation

/-- The kinds of value that are read from texts. -/
inductive ValueKind where
  | mac
  | adminStatus
  | linkStatus
  | mode
  | rate
  | fallbackMode
  | systemId
  | portId
  deriving DecidableEq, Repr

/-- A text that is no value of its kind. -/
structure ValueError where
  kind : ValueKind
  text : String
  deriving DecidableEq, Repr

/-- What is wrong, with the accepted forms where they are few. -/
def ValueError.message (e : ValueError) : String :=
  match e.kind with
  | .mac => "invalid MAC address format: " ++ e.text
  | .adminStatus => "invalid admin state: " ++ e.text
  | .linkStatus => "invalid oper state: " ++ e.text
  | .mode => "invalid LACP mode: " ++ e.text ++ " (expected off, active or passive)"
  | .rate => "invalid LACP rate: " ++ e.text ++ " (expected slow or fast)"
  | .fallbackMode => "invalid fallback mode: " ++ e.text ++ " (expected priority or all_active)"
  | .systemId => "invalid system id: " ++ e.text ++ " (expected <priority>,<mac>)"
  | .portId => "invalid port id: " ++ e.text ++ " (expected <priority>,<port>)"

/-- The value, or the error that `text` is none of this kind. -/
def ValueKind.require {α : Type} (kind : ValueKind) (text : String) :
    Option α → Except ValueError α
  | some value => .ok value
  | none => .error ⟨kind, text⟩

@[simp] theorem ValueKind.require_some {α : Type} (kind : ValueKind) (text : String) (a : α) :
    kind.require text (some a) = .ok a := rfl

@[simp] theorem ValueKind.require_none {α : Type} (kind : ValueKind) (text : String) :
    kind.require text (none : Option α) = .error ⟨kind, text⟩ := rfl

end LinkAggregation
