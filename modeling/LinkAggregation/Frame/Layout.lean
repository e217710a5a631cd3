import LinkAggregation.Endpoint

/-!
# Layout of Slow Protocols frames

A frame is a list of octets. Numbers are written with the high octet first. `octetAt` and `wordAt`
read a frame at an offset; past the end a frame reads as zero.
-/
namespace LinkAggregation

/-- An Ethernet frame, header included. -/
abbrev Frame := List UInt8

namespace Frame

/-- Both kinds of frame are written with this length. -/
def standardLength : Nat := 124

/-- The Ethernet header and the subtype and version octets. -/
def headerLength : Nat := 16

def etherType : UInt16 := 0x8809
def lacpSubtype : UInt8 := 1
def markerSubtype : UInt8 := 2
def version : UInt8 := 1

/-- The octets of a 16-bit number. -/
def wordOctets (w : UInt16) : List UInt8 := [UInt8.ofNat (w.toNat / 256), UInt8.ofNat w.toNat]

/-- The octets of a 32-bit number. -/
def doubleWordOctets (w : UInt32) : List UInt8 :=
  [UInt8.ofNat (w.toNat / 0x1000000), UInt8.ofNat (w.toNat / 0x10000), UInt8.ofNat (w.toNat / 256),
    UInt8.ofNat w.toNat]

def octetAt (f : Frame) (offset : Nat) : UInt8 := f.getD offset 0

def wordAt (f : Frame) (offset : Nat) : UInt16 :=
  UInt16.ofNat ((f.octetAt offset).toNat * 256 + (f.octetAt (offset + 1)).toNat)

def doubleWordAt (f : Frame) (offset : Nat) : UInt32 :=
  UInt32.ofNat ((f.wordAt offset).toNat * 65536 + (f.wordAt (offset + 2)).toNat)

def macAt (f : Frame) (offset : Nat) : MacAddress :=
  ⟨f.octetAt offset, f.octetAt (offset + 1), f.octetAt (offset + 2), f.octetAt (offset + 3),
    f.octetAt (offset + 4), f.octetAt (offset + 5)⟩

/-- The 18 octets of an endpoint; its type and length octets come before them. -/
def endpointAt (f : Frame) (offset : Nat) : Endpoint where
  system := ⟨f.wordAt offset, f.macAt (offset + 2)⟩
  key := f.wordAt (offset + 8)
  port := ⟨f.wordAt (offset + 10), f.wordAt (offset + 12)⟩
  state := Flags.ofBits (f.octetAt (offset + 14))

/-- The destination, the source, the EtherType, the subtype and the version. -/
def header (source : MacAddress) (subtype : UInt8) : List UInt8 :=
  MacAddress.slowProtocols.octets ++ source.octets ++ wordOctets etherType ++ [subtype, version]

/-- An endpoint with its type and length octets and three reserved octets. -/
def endpointOctets (type : UInt8) (e : Endpoint) : List UInt8 :=
  [type, 20] ++ wordOctets e.system.priority ++ e.system.mac.octets ++ wordOctets e.key ++
    wordOctets e.port.priority ++ wordOctets e.port.number ++ [e.state.bits] ++
    List.replicate 3 0

end Frame
end LinkAggregation
