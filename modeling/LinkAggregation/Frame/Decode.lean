import LinkAggregation.Frame.Encode

/-!
# Reading frames

`decode` checks, in this order: the length of the header, the destination, the EtherType, the
subtype, the length of the frame, and the type and length octets of each part. Source address,
version, reserved octets and everything after the standard length are not looked at.
-/
namespace LinkAggregation

/-- Why a frame is refused. -/
inductive FrameError where
  | truncated (length : Nat)
  | badDestination (mac : MacAddress)
  | badEtherType (type : UInt16)
  | unknownSubtype (subtype : UInt8)
  | badPart (expectedType foundType length : UInt8)
  deriving DecidableEq, Repr

open Text in
def FrameError.message : FrameError → String
  | .truncated length => "frame truncated (" ++ decimal length ++ " bytes)"
  | .badDestination mac => "unexpected destination " ++ mac.text
  | .badEtherType type => "unexpected EtherType 0x" ++ String.ofList (hexPadded 4 type.toNat)
  | .unknownSubtype subtype => "unknown slow protocols subtype " ++ decimal subtype.toNat
  | .badPart expected found length =>
    "bad TLV: expected type " ++ decimal expected.toNat ++ ", found type " ++
      decimal found.toNat ++ " length " ++ decimal length.toNat

namespace Frame

/-- Checks the type and length octets at an offset. -/
def expectPart (f : Frame) (offset : Nat) (type length : UInt8) : Except FrameError Unit :=
  if f.octetAt offset = type ∧ f.octetAt (offset + 1) = length then .ok ()
  else .error (.badPart type (f.octetAt offset) (f.octetAt (offset + 1)))

def decodeLacp (f : Frame) : Except FrameError Lacpdu := do
  f.expectPart 16 1 20
  f.expectPart 36 2 20
  f.expectPart 56 3 16
  f.expectPart 72 0 0
  return ⟨f.endpointAt 18, f.endpointAt 38, f.wordAt 58⟩

/-- The kind of marker that the octets at 16 and 17 announce. -/
def markerKind (f : Frame) : Except FrameError MarkerKind :=
  if f.octetAt 17 = 16 ∧ f.octetAt 16 = 1 then .ok .information
  else if f.octetAt 17 = 16 ∧ f.octetAt 16 = 2 then .ok .response
  else .error (.badPart 1 (f.octetAt 16) (f.octetAt 17))

def decodeMarker (f : Frame) : Except FrameError Marker := do
  let kind ← f.markerKind
  f.expectPart 32 0 0
  return ⟨kind, f.wordAt 18, f.macAt 20, f.doubleWordAt 26⟩

def decode (f : Frame) : Except FrameError Message :=
  if f.length < headerLength then .error (.truncated f.length)
  else if f.macAt 0 ≠ MacAddress.slowProtocols then .error (.badDestination (f.macAt 0))
  else if f.wordAt 12 ≠ etherType then .error (.badEtherType (f.wordAt 12))
  else if f.octetAt 14 ≠ lacpSubtype ∧ f.octetAt 14 ≠ markerSubtype then
    .error (.unknownSubtype (f.octetAt 14))
  else if f.length < standardLength then .error (.truncated f.length)
  else if f.octetAt 14 = lacpSubtype then f.decodeLacp.map .lacp
  else f.decodeMarker.map .marker

/-- The source address of a frame. -/
def source (f : Frame) : MacAddress := f.macAt 6

end Frame
end LinkAggregation
