import LinkAggregation.Proofs.Frame.Format

/-!
# Frames and their messages

What is written for a message is read as this message, also with something behind it, and no part of
it that is cut off early is. Conversely an accepted frame agrees with what is written for its
message in every part that is read.
-/
namespace LinkAggregation.Frame
variable {f g : Frame} {m : Message} {offset n : Nat} {subtype : UInt8}

/-- The parts that are checked, by offset and length. -/
def checkedParts (subtype : UInt8) : List (Nat × Nat) :=
  [(0, 6), (12, 2), (14, 1)] ++
    if subtype = 1 then [(16, 2), (36, 2), (56, 2), (72, 2)]
    else if subtype = 2 then [(16, 2), (32, 2)]
    else []

/-- The parts that hold the fields of the message. -/
def fieldParts (subtype : UInt8) : List (Nat × Nat) :=
  if subtype = 1 then [(18, 15), (38, 15), (58, 2)]
  else if subtype = 2 then [(18, 12)]
  else []

/-- Two frames have the same octets wherever a frame of this subtype is read. -/
def SameParts (f g : Frame) : Prop :=
  ∀ p ∈ checkedParts (f.octetAt 14) ++ fieldParts (f.octetAt 14), f.part p.1 p.2 = g.part p.1 p.2

theorem sameParts_lacp (h : f.octetAt 14 = 1) :
    SameParts f g ↔
      f.part 0 6 = g.part 0 6 ∧ f.part 12 2 = g.part 12 2 ∧ f.part 14 1 = g.part 14 1 ∧
        f.part 16 2 = g.part 16 2 ∧ f.part 36 2 = g.part 36 2 ∧ f.part 56 2 = g.part 56 2 ∧
          f.part 72 2 = g.part 72 2 ∧ f.part 18 15 = g.part 18 15 ∧
            f.part 38 15 = g.part 38 15 ∧ f.part 58 2 = g.part 58 2 := by
  simp [SameParts, checkedParts, fieldParts, h]

theorem sameParts_marker (h : f.octetAt 14 = 2) :
    SameParts f g ↔
      f.part 0 6 = g.part 0 6 ∧ f.part 12 2 = g.part 12 2 ∧ f.part 14 1 = g.part 14 1 ∧
        f.part 16 2 = g.part 16 2 ∧ f.part 32 2 = g.part 32 2 ∧ f.part 18 12 = g.part 18 12 := by
  simp [SameParts, checkedParts, fieldParts, h]

theorem end_of_mem_parts {p : Nat × Nat} (h : p ∈ checkedParts subtype ++ fieldParts subtype) :
    p.1 + p.2 ≤ 124 := by
  have hall : ∀ p ∈ checkedParts subtype ++ fieldParts subtype, p.1 + p.2 ≤ 124 := by
    unfold checkedParts fieldParts
    split
    · decide
    · split <;> decide
  exact hall p h

/-! ## What is read decides what is said -/

theorem expectPart_congr (h : f.part offset 2 = g.part offset 2) (type length : UInt8) :
    f.expectPart offset type length = g.expectPart offset type length := by
  rw [expectPart, expectPart, octetAt_congr h 1 (by decide)]
  rw [show f.octetAt offset = g.octetAt offset from octetAt_congr h 0 (by decide)]

theorem decodeLacp_congr (hlacp : f.octetAt 14 = 1) (h : SameParts f g) :
    f.decodeLacp = g.decodeLacp := by
  obtain ⟨-, -, -, hactor, hpartner, hdelay, hend, hactorFields, hpartnerFields, hdelayField⟩ :=
    (sameParts_lacp hlacp).mp h
  have hword : f.wordAt 58 = g.wordAt 58 := wordAt_congr hdelayField 0 (by decide)
  rw [decodeLacp, decodeLacp, expectPart_congr hactor, expectPart_congr hpartner,
    expectPart_congr hdelay, expectPart_congr hend, endpointAt_congr hactorFields,
    endpointAt_congr hpartnerFields, hword]

theorem decodeMarker_congr (hmarker : f.octetAt 14 = 2) (h : SameParts f g) :
    f.decodeMarker = g.decodeMarker := by
  obtain ⟨-, -, -, hkind, hend, hfields⟩ := (sameParts_marker hmarker).mp h
  have htype : f.octetAt 16 = g.octetAt 16 := octetAt_congr hkind 0 (by decide)
  have hsize : f.octetAt 17 = g.octetAt 17 := octetAt_congr hkind 1 (by decide)
  have hport : f.wordAt 18 = g.wordAt 18 := wordAt_congr hfields 0 (by decide)
  have hsystem : f.macAt 20 = g.macAt 20 := macAt_congr hfields 2 (by decide)
  have htransaction : f.doubleWordAt 26 = g.doubleWordAt 26 :=
    doubleWordAt_congr hfields 8 (by decide)
  rw [decodeMarker, decodeMarker, markerKind, markerKind, expectPart_congr hend, htype, hsize,
    hport, hsystem, htransaction]

/-- What is not read of a frame has no part in what is said of it. -/
theorem decode_congr (hlength : f.length = g.length ∨ 124 ≤ f.length ∧ 124 ≤ g.length)
    (h : SameParts f g) : f.decode = g.decode := by
  have hheader : ∀ p ∈ [(0, 6), (12, 2), (14, 1)], f.part p.1 p.2 = g.part p.1 p.2 :=
    fun p hp => h p (List.mem_append_left _ (List.mem_append_left _ hp))
  have hdestination : f.macAt 0 = g.macAt 0 :=
    macAt_congr (hheader (0, 6) (by decide)) 0 (by decide)
  have htype : f.wordAt 12 = g.wordAt 12 := wordAt_congr (hheader (12, 2) (by decide)) 0 (by decide)
  have hsubtype : f.octetAt 14 = g.octetAt 14 :=
    octetAt_congr (hheader (14, 1) (by decide)) 0 (by decide)
  have hcut : ∀ k ≤ 124, ∀ result : Except FrameError Message,
      (if f.length < k then .error (.truncated f.length) else result) =
        if g.length < k then .error (.truncated g.length) else result := by
    intro k hk result
    obtain heq | ⟨hf, hg⟩ := hlength
    · rw [heq]
    · rw [if_neg (by omega), if_neg (by omega)]
  unfold decode
  rw [hcut headerLength (by decide), hcut standardLength (by decide), hdestination, htype,
    ← hsubtype]
  by_cases hlacp : f.octetAt 14 = lacpSubtype
  · rw [if_pos hlacp, if_pos hlacp, decodeLacp_congr hlacp h]
  · by_cases hmarker : f.octetAt 14 = markerSubtype
    · rw [if_neg hlacp, if_neg hlacp, decodeMarker_congr hmarker h]
    · have hunknown : f.octetAt 14 ≠ lacpSubtype ∧ f.octetAt 14 ≠ markerSubtype := ⟨hlacp, hmarker⟩
      rw [if_pos hunknown, if_pos hunknown]

/-! ## What is said decides what is read -/

theorem decode_eq_ok : f.decode = .ok m ↔ Standard f ∧ f.contents = m := by
  rw [decode_eq, unlessRefused, ← firstFailure_eq_none]
  cases firstFailure f.checks <;> simp

theorem decode_eq_error {e : FrameError} :
    f.decode = .error e ↔ firstFailure f.checks = some e := by
  rw [decode_eq, unlessRefused]
  cases firstFailure f.checks <;> simp

theorem contents_lacp (h : f.octetAt 14 = 1) :
    f.contents = .lacp ⟨f.endpointAt 18, f.endpointAt 38, f.wordAt 58⟩ := if_pos h

theorem contents_marker (h : f.octetAt 14 = 2) :
    f.contents = .marker ⟨if f.octetAt 16 = 1 then .information else .response, f.wordAt 18,
      f.macAt 20, f.doubleWordAt 26⟩ := by
  rw [contents, if_neg]
  rw [h]
  decide

theorem sameParts_of_endpoints (hf : Standard f) (hg : Standard g) (hlacp : f.part 14 1 = [1])
    (hlacp' : g.part 14 1 = [1]) (h : f.contents = g.contents) : SameParts f g := by
  have hfl := hf.length
  have hgl := hg.length
  have hone : f.octetAt 14 = 1 := (part_eq_one (by omega) 1).mp hlacp
  have hone' : g.octetAt 14 = 1 := (part_eq_one (by omega) 1).mp hlacp'
  have hnot : f.part 14 1 ≠ [2] := by simp [hlacp]
  have hnot' : g.part 14 1 ≠ [2] := by simp [hlacp']
  obtain ⟨-, hactor, hpartner, hdelay, hend⟩ := hf.layout.resolve_right fun h => hnot h.1
  obtain ⟨-, hactor', hpartner', hdelay', hend'⟩ := hg.layout.resolve_right fun h => hnot' h.1
  rw [contents_lacp hone, contents_lacp hone', Message.lacp.injEq, Lacpdu.mk.injEq] at h
  obtain ⟨hactorFields, hpartnerFields, hdelayField⟩ := h
  obtain ⟨hhigh, hlow⟩ := octets_of_wordAt hdelayField
  refine (sameParts_lacp hone).mpr ⟨hf.destination.trans hg.destination.symm,
    hf.type.trans hg.type.symm, hlacp.trans hlacp'.symm, hactor.trans hactor'.symm,
    hpartner.trans hpartner'.symm, hdelay.trans hdelay'.symm, hend.trans hend'.symm,
    part_congr (by omega) (by omega) (octets_of_endpointAt hactorFields),
    part_congr (by omega) (by omega) (octets_of_endpointAt hpartnerFields),
    part_congr (by omega) (by omega) ?_⟩
  intro i hi
  interval_cases i
  exacts [hhigh, hlow]

theorem octets_of_markerFields (hport : f.wordAt 18 = g.wordAt 18)
    (hsystem : f.macAt 20 = g.macAt 20) (htransaction : f.doubleWordAt 26 = g.doubleWordAt 26) :
    ∀ i < 12, f.octetAt (18 + i) = g.octetAt (18 + i) := by
  obtain ⟨h0, h1⟩ := octets_of_wordAt hport
  have h2 := octets_of_macAt hsystem
  obtain ⟨hhigh, hlow⟩ := words_of_doubleWordAt htransaction
  obtain ⟨h8, h9⟩ := octets_of_wordAt hhigh
  obtain ⟨h10, h11⟩ := octets_of_wordAt hlow
  intro i hi
  interval_cases i
  exacts [h0, h1, h2 0 (by decide), h2 1 (by decide), h2 2 (by decide), h2 3 (by decide),
    h2 4 (by decide), h2 5 (by decide), h8, h9, h10, h11]

theorem sameParts_of_marker (hf : Standard f) (hg : Standard g) (hmarker : f.part 14 1 = [2])
    (hmarker' : g.part 14 1 = [2]) (h : f.contents = g.contents) : SameParts f g := by
  have hfl := hf.length
  have hgl := hg.length
  have htwo : f.octetAt 14 = 2 := (part_eq_one (by omega) 2).mp hmarker
  have htwo' : g.octetAt 14 = 2 := (part_eq_one (by omega) 2).mp hmarker'
  have hnot : f.part 14 1 ≠ [1] := by simp [hmarker]
  have hnot' : g.part 14 1 ≠ [1] := by simp [hmarker']
  obtain ⟨-, hkind, hend⟩ := hf.layout.resolve_left fun h => hnot h.1
  obtain ⟨-, hkind', hend'⟩ := hg.layout.resolve_left fun h => hnot' h.1
  rw [contents_marker htwo, contents_marker htwo', Message.marker.injEq, Marker.mk.injEq] at h
  obtain ⟨htype, hport, hsystem, htransaction⟩ := h
  have hfirst : ∀ {frame : Frame} {a b : UInt8}, 124 ≤ frame.length → frame.part 16 2 = [a, b] →
      frame.octetAt 16 = a := fun hlength hpart => ((part_eq_two (by omega) _ _).mp hpart).1
  have hsame : f.part 16 2 = g.part 16 2 := by
    obtain hone | htwo := hkind <;> obtain hone' | htwo' := hkind'
    · exact hone.trans hone'.symm
    · simp [hfirst hfl hone, hfirst hgl htwo'] at htype
    · simp [hfirst hfl htwo, hfirst hgl hone'] at htype
    · exact htwo.trans htwo'.symm
  exact (sameParts_marker htwo).mpr ⟨hf.destination.trans hg.destination.symm,
    hf.type.trans hg.type.symm, hmarker.trans hmarker'.symm, hsame, hend.trans hend'.symm,
    part_congr (by omega) (by omega) (octets_of_markerFields hport hsystem htransaction)⟩

/-- Frames that say the same are the same where they are read. -/
theorem sameParts_of_decode (hf : f.decode = .ok m) (hg : g.decode = .ok m) : SameParts f g := by
  obtain ⟨hfs, hfm⟩ := decode_eq_ok.mp hf
  obtain ⟨hgs, hgm⟩ := decode_eq_ok.mp hg
  have hfl := hfs.length
  have hgl := hgs.length
  have hcontents : f.contents = g.contents := hfm.trans hgm.symm
  obtain ⟨hlacp, -⟩ | ⟨hmarker, -⟩ := hfs.layout <;>
    obtain ⟨hlacp', -⟩ | ⟨hmarker', -⟩ := hgs.layout
  · exact sameParts_of_endpoints hfs hgs hlacp hlacp' hcontents
  · rw [contents_lacp ((part_eq_one (by omega) 1).mp hlacp),
      contents_marker ((part_eq_one (by omega) 2).mp hmarker')] at hcontents
    cases hcontents
  · rw [contents_marker ((part_eq_one (by omega) 2).mp hmarker),
      contents_lacp ((part_eq_one (by omega) 1).mp hlacp')] at hcontents
    cases hcontents
  · exact sameParts_of_marker hfs hgs hmarker hmarker' hcontents

/-! ## Frames that are too long or too short -/

theorem part_append (h : offset + n ≤ f.length) (rest : List UInt8) :
    part (f ++ rest) offset n = f.part offset n := by
  rw [part, part, List.drop_append_of_le_length (by omega), List.take_append_of_le_length]
  rw [List.length_drop]
  omega

theorem part_take {length : Nat} (h : offset + n ≤ length) :
    part (f.take length) offset n = f.part offset n := by
  rw [part, part, List.drop_take, List.take_take, Nat.min_eq_left (by omega)]

/-- What follows the standard length is not read. -/
theorem decode_append (h : 124 ≤ f.length) (rest : List UInt8) : decode (f ++ rest) = f.decode := by
  have hlong : 124 ≤ (f ++ rest).length := by
    rw [List.length_append]
    omega
  refine decode_congr (.inr ⟨hlong, h⟩) fun p hp => part_append ?_ rest
  exact (end_of_mem_parts hp).trans h

/-- An accepted frame that is cut off is refused for its length. -/
theorem decode_take (h : Standard f) (hn : n < 124) :
    decode (f.take n) = .error (.truncated n) := by
  have hlength : (f.take n).length = n := by
    rw [List.length_take, Nat.min_eq_left (by have := h.length; omega)]
  rw [decode_eq_error]
  by_cases hheader : 16 ≤ n
  · have hsubtype : f.part 14 1 = [1] ∨ f.part 14 1 = [2] := h.layout.imp And.left And.left
    simp [firstFailure, checks, headerChecks, hlength, hheader, Nat.not_le.mpr hn,
      part_take (show 0 + 6 ≤ n by omega), part_take (show 12 + 2 ≤ n by omega),
      part_take (show 14 + 1 ≤ n by omega), h.destination, h.type, hsubtype]
  · simp [firstFailure, checks, headerChecks, hlength, hheader]

/-! ## Reading and writing -/

theorem decode_encode (m : Message) (source : MacAddress) : decode (encode m source) = .ok m := by
  cases m with
  | lacp pdu => exact decode_encodeLacp pdu source
  | marker marker => exact decode_encodeMarker marker source

/-- A written frame has 124 octets and is read as its message, whatever follows it. No shorter part
of it is accepted. -/
theorem written_frame_read (m : Message) (source : MacAddress) :
    (encode m source).length = 124 ∧
      (∀ rest, decode (encode m source ++ rest) = .ok m) ∧
      ∀ n < 124, decode ((encode m source).take n) = .error (.truncated n) := by
  have hlength : (encode m source).length = 124 := length_encode m source
  refine ⟨hlength, ?_, ?_⟩
  · intro rest
    rw [decode_append hlength.ge, decode_encode]
  · intro n hn
    exact decode_take (decode_eq_ok.mp (decode_encode m source)).1 hn

/-- A frame is accepted if it has the standard format. Nothing else than the parts that are checked
and the fields has a part in what is said of it: the source address, the version, reserved octets
and what follows the standard length can be anything. A frame that is written for the message of an
accepted one agrees with it in all these parts. A frame that is refused is so for the first check
that it does not pass. -/
theorem read_by_format (f : Frame) :
    ((∃ m, f.decode = .ok m) ↔ Standard f) ∧
      (∀ g : Frame, f.length = g.length ∨ 124 ≤ f.length ∧ 124 ≤ g.length → SameParts f g →
        f.decode = g.decode) ∧
      (∀ m, f.decode = .ok m → SameParts f (encode m f.source)) ∧
      ∀ e, f.decode = .error e ↔ firstFailure f.checks = some e := by
  refine ⟨?_, fun g => decode_congr, ?_, fun e => decode_eq_error⟩
  · constructor
    · rintro ⟨m, hm⟩
      exact (decode_eq_ok.mp hm).1
    · exact fun h => ⟨f.contents, decode_eq_ok.mpr ⟨h, rfl⟩⟩
  · exact fun m hm => sameParts_of_decode hm (decode_encode m f.source)

end LinkAggregation.Frame
