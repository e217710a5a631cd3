import LinkAggregation.Frame.Decode

/-!
# Written frames read back

A frame that was written for a message is read as this message, whatever its source address. So a
received frame says exactly what its sender put into it, and a marker never passes for a LACP
message.
-/
namespace LinkAggregation.Frame

/-! ## Offsets -/

section
variable {before : List UInt8} {n : Nat} (hn : before.length = n) (f : List UInt8) (offset : Nat)
include hn

/-- What stands after other octets is read past them. -/
theorem octetAt_append : octetAt (before ++ f) (n + offset) = octetAt f offset := by
  have hskip : n + offset - before.length = offset := by omega
  simp only [octetAt, List.getD_eq_getElem?_getD]
  rw [List.getElem?_append_right (by omega), hskip]

theorem wordAt_append : wordAt (before ++ f) (n + offset) = wordAt f offset := by
  simp only [wordAt, Nat.add_assoc, octetAt_append hn]

theorem macAt_append : macAt (before ++ f) (n + offset) = macAt f offset := by
  simp only [macAt, Nat.add_assoc, octetAt_append hn]

theorem endpointAt_append : endpointAt (before ++ f) (n + offset) = endpointAt f offset := by
  simp only [endpointAt, Nat.add_assoc, octetAt_append hn, wordAt_append hn, macAt_append hn]

end

/-! ## Numbers and endpoints -/

theorem wordAt_wordOctets (w : UInt16) (rest : List UInt8) :
    wordAt (wordOctets w ++ rest) 0 = w := by
  have hlt : w.toNat < 65536 := w.toNat_lt
  apply UInt16.toNat_inj.mp
  show ((UInt8.ofNat (w.toNat / 256)).toNat * 256 + (UInt8.ofNat w.toNat).toNat) % 65536 = w.toNat
  rw [UInt8.toNat_ofNat', UInt8.toNat_ofNat']
  omega

theorem doubleWordAt_doubleWordOctets (w : UInt32) (rest : List UInt8) :
    doubleWordAt (doubleWordOctets w ++ rest) 0 = w := by
  have hlt : w.toNat < 4294967296 := w.toNat_lt
  have hhigh : (wordAt (doubleWordOctets w ++ rest) 0).toNat = w.toNat / 65536 := by
    show ((UInt8.ofNat (w.toNat / 0x1000000)).toNat * 256 +
      (UInt8.ofNat (w.toNat / 0x10000)).toNat) % 65536 = _
    rw [UInt8.toNat_ofNat', UInt8.toNat_ofNat']
    omega
  have hlow : (wordAt (doubleWordOctets w ++ rest) 2).toNat = w.toNat % 65536 := by
    show ((UInt8.ofNat (w.toNat / 256)).toNat * 256 + (UInt8.ofNat w.toNat).toNat) % 65536 = _
    rw [UInt8.toNat_ofNat', UInt8.toNat_ofNat']
    omega
  apply UInt32.toNat_inj.mp
  rw [doubleWordAt, hhigh, hlow, UInt32.toNat_ofNat']
  omega

theorem endpointAt_endpointOctets (type : UInt8) (e : Endpoint) (rest : List UInt8) :
    endpointAt (endpointOctets type e ++ rest) 2 = e := by
  have hpriority : wordAt (endpointOctets type e ++ rest) 2 = e.system.priority :=
    wordAt_wordOctets _ []
  have hkey : wordAt (endpointOctets type e ++ rest) 10 = e.key := wordAt_wordOctets _ []
  have hport : wordAt (endpointOctets type e ++ rest) 12 = e.port.priority :=
    wordAt_wordOctets _ []
  have hnumber : wordAt (endpointOctets type e ++ rest) 14 = e.port.number :=
    wordAt_wordOctets _ []
  have hstate : Flags.ofBits (octetAt (endpointOctets type e ++ rest) 16) = e.state :=
    Flags.ofBits_bits e.state
  have hmac : macAt (endpointOctets type e ++ rest) 4 = e.system.mac := rfl
  rw [endpointAt, hpriority, hkey, hport, hnumber, hstate, hmac]

/-! ## Messages -/

/-- What is checked before the parts of a frame are looked at. -/
theorem decode_of_header {f : Frame} {source : MacAddress} {subtype : UInt8} {rest : List UInt8}
    (hf : f = header source subtype ++ rest) (hlength : f.length = standardLength)
    (hsubtype : subtype = lacpSubtype ∨ subtype = markerSubtype) :
    decode f =
      if subtype = lacpSubtype then f.decodeLacp.map .lacp else f.decodeMarker.map .marker := by
  have hdestination : f.macAt 0 = MacAddress.slowProtocols := by
    rw [hf]
    rfl
  have htype : f.wordAt 12 = etherType := by
    rw [hf]
    exact wordAt_wordOctets etherType []
  have hoctet : f.octetAt 14 = subtype := by
    rw [hf]
    rfl
  have hlong : ¬ f.length < headerLength := by
    rw [hlength]
    decide
  have hknown : ¬ (subtype ≠ lacpSubtype ∧ subtype ≠ markerSubtype) := by
    intro hnot
    obtain hlacp | hmarker := hsubtype
    · exact hnot.1 hlacp
    · exact hnot.2 hmarker
  have hcomplete : ¬ f.length < standardLength := Nat.not_lt.mpr (Nat.le_of_eq hlength.symm)
  rw [decode, if_neg hlong, if_neg (not_not_intro hdestination), if_neg (not_not_intro htype),
    hoctet, if_neg hknown, if_neg hcomplete]

theorem expectPart_ok {f : Frame} {offset : Nat} {type length : UInt8}
    (htype : f.octetAt offset = type) (hlength : f.octetAt (offset + 1) = length) :
    f.expectPart offset type length = .ok () :=
  if_pos ⟨htype, hlength⟩

/-- A LACP message is read as it was written. -/
theorem decode_encodeLacp (pdu : Lacpdu) (source : MacAddress) :
    decode (encodeLacp pdu source) = .ok (.lacp pdu) := by
  have hlength : (encodeLacp pdu source).length = standardLength := length_encode (.lacp pdu) source
  have hactor : (encodeLacp pdu source).endpointAt 18 = pdu.actor := by
    have hheader : (header source lacpSubtype).length = 16 := rfl
    simp only [encodeLacp, List.append_assoc]
    exact (endpointAt_append hheader _ 2).trans (endpointAt_endpointOctets 1 pdu.actor _)
  have hpartner : (encodeLacp pdu source).endpointAt 38 = pdu.partner := by
    have hbefore : (header source lacpSubtype ++ endpointOctets 1 pdu.actor).length = 36 := rfl
    rw [encodeLacp, List.append_assoc, List.append_assoc]
    exact (endpointAt_append hbefore _ 2).trans (endpointAt_endpointOctets 2 pdu.partner _)
  have hdelay : (encodeLacp pdu source).wordAt 58 = pdu.collectorMaxDelay := by
    have hbefore : (header source lacpSubtype ++ endpointOctets 1 pdu.actor ++
        endpointOctets 2 pdu.partner ++ [3, 16]).length = 58 := rfl
    rw [encodeLacp, ← List.append_assoc _ [3, 16], List.append_assoc]
    exact (wordAt_append hbefore _ 0).trans (wordAt_wordOctets _ _)
  have hactorPart : (encodeLacp pdu source).expectPart 16 1 20 = .ok () := expectPart_ok rfl rfl
  have hpartnerPart : (encodeLacp pdu source).expectPart 36 2 20 = .ok () := expectPart_ok rfl rfl
  have hdelayPart : (encodeLacp pdu source).expectPart 56 3 16 = .ok () := expectPart_ok rfl rfl
  have hend : (encodeLacp pdu source).expectPart 72 0 0 = .ok () := expectPart_ok rfl rfl
  have hparts : (encodeLacp pdu source).decodeLacp = .ok pdu := by
    rw [decodeLacp, hactorPart, hpartnerPart, hdelayPart, hend, hactor, hpartner, hdelay]
    rfl
  rw [decode_of_header (by simp only [encodeLacp, List.append_assoc]; rfl) hlength (.inl rfl),
    if_pos rfl, hparts]
  rfl

/-- A marker is read as it was written. -/
theorem decode_encodeMarker (marker : Marker) (source : MacAddress) :
    decode (encodeMarker marker source) = .ok (.marker marker) := by
  have hlength : (encodeMarker marker source).length = standardLength :=
    length_encode (.marker marker) source
  have htype : (encodeMarker marker source).octetAt 16 = markerType marker.kind := rfl
  have hsize : (encodeMarker marker source).octetAt 17 = 16 := rfl
  have hkind : (encodeMarker marker source).markerKind = .ok marker.kind := by
    rw [markerKind, htype, hsize]
    cases marker.kind <;> rfl
  have hport : (encodeMarker marker source).wordAt 18 = marker.requesterPort :=
    wordAt_wordOctets _ []
  have hsystem : (encodeMarker marker source).macAt 20 = marker.requesterSystem := rfl
  have htransaction : (encodeMarker marker source).doubleWordAt 26 = marker.transaction :=
    doubleWordAt_doubleWordOctets _ []
  have hend : (encodeMarker marker source).expectPart 32 0 0 = .ok () := expectPart_ok rfl rfl
  have hparts : (encodeMarker marker source).decodeMarker = .ok marker := by
    rw [decodeMarker, hkind, hend, hport, hsystem, htransaction]
    rfl
  rw [decode_of_header (by simp only [encodeMarker, List.append_assoc]; rfl) hlength (.inr rfl),
    if_neg (by decide), hparts]
  rfl

end LinkAggregation.Frame
