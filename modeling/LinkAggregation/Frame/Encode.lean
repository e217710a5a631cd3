import LinkAggregation.Frame.Layout

/-!
# Writing frames

Every message is written as a frame of 124 octets whose reserved octets are zero.
-/
namespace LinkAggregation.Frame

/-- The type octet of a marker. -/
def markerType : MarkerKind → UInt8
  | .information => 1
  | .response => 2

def encodeLacp (pdu : Lacpdu) (source : MacAddress) : Frame :=
  header source lacpSubtype ++ endpointOctets 1 pdu.actor ++ endpointOctets 2 pdu.partner ++
    ([3, 16] ++ wordOctets pdu.collectorMaxDelay) ++ List.replicate 64 0

def encodeMarker (marker : Marker) (source : MacAddress) : Frame :=
  header source markerSubtype ++ ([markerType marker.kind, 16] ++
    wordOctets marker.requesterPort ++ marker.requesterSystem.octets ++
    doubleWordOctets marker.transaction) ++ List.replicate 94 0

def encode : Message → MacAddress → Frame
  | .lacp pdu => encodeLacp pdu
  | .marker marker => encodeMarker marker

/-- A written frame has the standard length. -/
@[simp] theorem length_encode (m : Message) (source : MacAddress) :
    (encode m source).length = standardLength := by
  cases m <;> simp [encode, encodeLacp, encodeMarker, header, endpointOctets, wordOctets,
    doubleWordOctets, standardLength]

end LinkAggregation.Frame
