import LinkAggregation.Proofs.Frame.Codec
import Mathlib.Tactic.IntervalCases

/-!
# What is read of a frame

A frame has parts that are checked and parts that hold the fields of its message. Nothing else is
read: the source address, the version, reserved octets and what follows the standard length can be
anything. The parts that are read determine the message, and the message determines them.
-/
namespace LinkAggregation.Frame
variable {f g : Frame} {offset n i : Nat}

/-! ## Parts of a frame -/

/-- The octets from an offset on. -/
def part (f : Frame) (offset n : Nat) : List UInt8 := (f.drop offset).take n

theorem getElem?_part (f : Frame) (hi : i < n) : (f.part offset n)[i]? = f[offset + i]? := by
  rw [part, List.getElem?_take_of_lt hi, List.getElem?_drop]

theorem octetAt_congr (h : f.part offset n = g.part offset n) (i : Nat) (hi : i < n) :
    f.octetAt (offset + i) = g.octetAt (offset + i) := by
  rw [octetAt, octetAt, List.getD_eq_getElem?_getD, List.getD_eq_getElem?_getD,
    ← getElem?_part f hi, ← getElem?_part g hi, h]

theorem part_eq_map (h : offset + n ≤ f.length) :
    f.part offset n = (List.range n).map fun i => f.octetAt (offset + i) := by
  refine List.ext_getElem (by simp [part]; omega) ?_
  intro i hi hi'
  have hi : i < n := by simpa using hi'
  simp [part, octetAt, List.getD_eq_getElem?_getD,
    List.getElem?_eq_getElem (show offset + i < f.length by omega)]

/-- Where both frames go on, parts with the same octets are the same. -/
theorem part_congr (hf : offset + n ≤ f.length) (hg : offset + n ≤ g.length)
    (h : ∀ i < n, f.octetAt (offset + i) = g.octetAt (offset + i)) :
    f.part offset n = g.part offset n := by
  rw [part_eq_map hf, part_eq_map hg]
  exact List.map_congr_left fun i hi => h i (List.mem_range.mp hi)

theorem part_eq_one (h : offset + 1 ≤ f.length) (a : UInt8) :
    f.part offset 1 = [a] ↔ f.octetAt offset = a := by
  simp [part_eq_map h]

theorem part_eq_two (h : offset + 2 ≤ f.length) (a b : UInt8) :
    f.part offset 2 = [a, b] ↔ f.octetAt offset = a ∧ f.octetAt (offset + 1) = b := by
  simp [part_eq_map h, List.range_succ]

theorem part_eq_octets (h : offset + 6 ≤ f.length) (m : MacAddress) :
    f.part offset 6 = m.octets ↔ f.macAt offset = m := by
  obtain ⟨o1, o2, o3, o4, o5, o6⟩ := m
  simp [part_eq_map h, List.range_succ, MacAddress.octets, macAt]

/-! ## What is read determines numbers and endpoints, and is determined by them -/

theorem wordAt_congr (h : f.part offset n = g.part offset n) (i : Nat) (hi : i + 1 < n) :
    f.wordAt (offset + i) = g.wordAt (offset + i) := by
  rw [wordAt, wordAt, octetAt_congr h i (by omega), Nat.add_assoc, octetAt_congr h (i + 1) hi]

theorem macAt_congr (h : f.part offset n = g.part offset n) (i : Nat) (hi : i + 5 < n) :
    f.macAt (offset + i) = g.macAt (offset + i) := by
  have hoctet : ∀ j < 6, f.octetAt (offset + i + j) = g.octetAt (offset + i + j) := by
    intro j hj
    rw [Nat.add_assoc]
    exact octetAt_congr h (i + j) (by omega)
  rw [macAt, macAt, hoctet 1 (by decide), hoctet 2 (by decide), hoctet 3 (by decide),
    hoctet 4 (by decide), hoctet 5 (by decide), octetAt_congr h i (by omega)]

theorem doubleWordAt_congr (h : f.part offset n = g.part offset n) (i : Nat) (hi : i + 3 < n) :
    f.doubleWordAt (offset + i) = g.doubleWordAt (offset + i) := by
  rw [doubleWordAt, doubleWordAt, wordAt_congr h i (by omega), Nat.add_assoc,
    wordAt_congr h (i + 2) hi]

theorem endpointAt_congr (h : f.part offset 15 = g.part offset 15) :
    f.endpointAt offset = g.endpointAt offset := by
  rw [endpointAt, endpointAt, wordAt_congr h 8 (by decide), wordAt_congr h 10 (by decide),
    wordAt_congr h 12 (by decide), macAt_congr h 2 (by decide), octetAt_congr h 14 (by decide)]
  rw [show f.wordAt offset = g.wordAt offset from wordAt_congr h 0 (by decide)]

/-- A number determines its octets. -/
theorem octets_of_wordAt (h : f.wordAt offset = g.wordAt offset) :
    f.octetAt offset = g.octetAt offset ∧ f.octetAt (offset + 1) = g.octetAt (offset + 1) := by
  have hf := (f.octetAt offset).toNat_lt
  have hf' := (f.octetAt (offset + 1)).toNat_lt
  have hg := (g.octetAt offset).toNat_lt
  have hg' := (g.octetAt (offset + 1)).toNat_lt
  have hnumber := congrArg UInt16.toNat h
  rw [wordAt, wordAt, UInt16.toNat_ofNat', UInt16.toNat_ofNat', Nat.mod_eq_of_lt (by omega),
    Nat.mod_eq_of_lt (by omega)] at hnumber
  constructor <;> refine UInt8.toNat_inj.mp ?_ <;> omega

theorem octets_of_macAt (h : f.macAt offset = g.macAt offset) :
    ∀ i < 6, f.octetAt (offset + i) = g.octetAt (offset + i) := by
  simp only [macAt, MacAddress.mk.injEq] at h
  obtain ⟨h0, h1, h2, h3, h4, h5⟩ := h
  intro i hi
  interval_cases i
  exacts [h0, h1, h2, h3, h4, h5]

theorem words_of_doubleWordAt (h : f.doubleWordAt offset = g.doubleWordAt offset) :
    f.wordAt offset = g.wordAt offset ∧ f.wordAt (offset + 2) = g.wordAt (offset + 2) := by
  have hf := (f.wordAt offset).toNat_lt
  have hf' := (f.wordAt (offset + 2)).toNat_lt
  have hg := (g.wordAt offset).toNat_lt
  have hg' := (g.wordAt (offset + 2)).toNat_lt
  have hnumber := congrArg UInt32.toNat h
  rw [doubleWordAt, doubleWordAt, UInt32.toNat_ofNat', UInt32.toNat_ofNat',
    Nat.mod_eq_of_lt (by omega), Nat.mod_eq_of_lt (by omega)] at hnumber
  constructor <;> refine UInt16.toNat_inj.mp ?_ <;> omega

theorem octets_of_endpointAt (h : f.endpointAt offset = g.endpointAt offset) :
    ∀ i < 15, f.octetAt (offset + i) = g.octetAt (offset + i) := by
  simp only [endpointAt, Endpoint.mk.injEq, SystemId.mk.injEq, PortId.mk.injEq] at h
  obtain ⟨⟨hsystem, hmac⟩, hkey, ⟨hpriority, hnumber⟩, hstate⟩ := h
  obtain ⟨h0, h1⟩ := octets_of_wordAt hsystem
  have h2 := octets_of_macAt hmac
  obtain ⟨h8, h9⟩ := octets_of_wordAt hkey
  obtain ⟨h10, h11⟩ := octets_of_wordAt hpriority
  obtain ⟨h12, h13⟩ := octets_of_wordAt hnumber
  have h14 : f.octetAt (offset + 14) = g.octetAt (offset + 14) := by
    simpa using congrArg Flags.bits hstate
  intro i hi
  interval_cases i
  exacts [h0, h1, h2 0 (by decide), h2 1 (by decide), h2 2 (by decide), h2 3 (by decide),
    h2 4 (by decide), h2 5 (by decide), h8, h9, h10, h11, h12, h13, h14]

/-! ## The format -/

/-- A frame that carries a message: a LACP message in its three parts, or a marker in one. -/
structure Standard (f : Frame) : Prop where
  length : 124 ≤ f.length
  destination : f.part 0 6 = [0x01, 0x80, 0xc2, 0x00, 0x00, 0x02]
  type : f.part 12 2 = [0x88, 0x09]
  layout :
    f.part 14 1 = [1] ∧ f.part 16 2 = [1, 20] ∧ f.part 36 2 = [2, 20] ∧ f.part 56 2 = [3, 16] ∧
        f.part 72 2 = [0, 0] ∨
      f.part 14 1 = [2] ∧ (f.part 16 2 = [1, 16] ∨ f.part 16 2 = [2, 16]) ∧ f.part 32 2 = [0, 0]

/-- Whether a part has this type and length, and what the frame is refused for if not. -/
def partCheck (f : Frame) (offset : Nat) (type length : UInt8) : Bool × FrameError :=
  (f.part offset 2 = [type, length],
    .badPart type (f.octetAt offset) (f.octetAt (offset + 1)))

/-- What is checked of every frame, in this order, and what the frame is refused for. -/
def headerChecks (f : Frame) : List (Bool × FrameError) :=
  [(16 ≤ f.length, .truncated f.length),
    (f.part 0 6 = [0x01, 0x80, 0xc2, 0x00, 0x00, 0x02], .badDestination (f.macAt 0)),
    (f.part 12 2 = [0x88, 0x09], .badEtherType (f.wordAt 12)),
    (f.part 14 1 = [1] ∨ f.part 14 1 = [2], .unknownSubtype (f.octetAt 14)),
    (124 ≤ f.length, .truncated f.length)]

/-- What is checked after that, part by part. -/
def partChecks (f : Frame) : List (Bool × FrameError) :=
  if f.part 14 1 = [1] then
    [f.partCheck 16 1 20, f.partCheck 36 2 20, f.partCheck 56 3 16, f.partCheck 72 0 0]
  else
    [(f.part 16 2 = [1, 16] ∨ f.part 16 2 = [2, 16],
        .badPart 1 (f.octetAt 16) (f.octetAt 17)),
      f.partCheck 32 0 0]

def checks (f : Frame) : List (Bool × FrameError) := f.headerChecks ++ f.partChecks

/-- What the first check says that does not pass. -/
def firstFailure (checks : List (Bool × FrameError)) : Option FrameError :=
  (checks.find? fun check => !check.1).map Prod.snd

/-- A message, unless a check does not pass. -/
def unlessRefused (checks : List (Bool × FrameError)) (m : Message) : Except FrameError Message :=
  (firstFailure checks).elim (.ok m) .error

/-- The message in the fields of a frame. -/
def contents (f : Frame) : Message :=
  if f.octetAt 14 = 1 then .lacp ⟨f.endpointAt 18, f.endpointAt 38, f.wordAt 58⟩
  else
    .marker ⟨if f.octetAt 16 = 1 then .information else .response, f.wordAt 18, f.macAt 20,
      f.doubleWordAt 26⟩

theorem firstFailure_eq_none : firstFailure f.checks = none ↔ Standard f := by
  have hparts : firstFailure f.checks = none ↔ 16 ≤ f.length ∧
      f.part 0 6 = [0x01, 0x80, 0xc2, 0x00, 0x00, 0x02] ∧ f.part 12 2 = [0x88, 0x09] ∧
        (f.part 14 1 = [1] ∨ f.part 14 1 = [2]) ∧ 124 ≤ f.length ∧
          ∀ check ∈ f.partChecks, check.1 = true := by
    rw [firstFailure, Option.map_eq_none_iff, List.find?_eq_none]
    simp [checks, headerChecks, or_imp, forall_and]
  rw [hparts]
  by_cases hlacp : f.part 14 1 = [1]
  · have hmarker : f.part 14 1 ≠ [2] := by simp [hlacp]
    simp only [partChecks, partCheck, if_pos hlacp, List.forall_mem_cons, decide_eq_true_eq]
    constructor
    · rintro ⟨-, hdestination, htype, -, hlength, hactor, hpartner, hdelay, hend, -⟩
      exact ⟨hlength, hdestination, htype, .inl ⟨hlacp, hactor, hpartner, hdelay, hend⟩⟩
    · rintro ⟨hlength, hdestination, htype, ⟨-, hactor, hpartner, hdelay, hend⟩ | ⟨hnot, -⟩⟩
      · exact ⟨by omega, hdestination, htype, .inl hlacp, hlength, hactor, hpartner, hdelay, hend,
          by simp⟩
      · exact absurd hnot hmarker
  · simp only [partChecks, partCheck, if_neg hlacp, List.forall_mem_cons, decide_eq_true_eq]
    constructor
    · rintro ⟨-, hdestination, htype, hsubtype, hlength, hkind, hend, -⟩
      exact ⟨hlength, hdestination, htype, .inr ⟨hsubtype.resolve_left hlacp, hkind, hend⟩⟩
    · rintro ⟨hlength, hdestination, htype, ⟨hnot, -⟩ | ⟨hmarker, hkind, hend⟩⟩
      · exact absurd hnot hlacp
      · exact ⟨by omega, hdestination, htype, .inr hmarker, hlength, hkind, hend, by simp⟩

theorem wordAt_eq_etherType :
    f.wordAt offset = etherType ↔ f.octetAt offset = 0x88 ∧ f.octetAt (offset + 1) = 0x09 := by
  constructor
  · intro h
    have hsame : f.wordAt offset = wordAt (List.replicate offset 0 ++ [0x88, 0x09]) offset := by
      rw [h]
      exact (wordAt_append List.length_replicate [0x88, 0x09] 0).symm
    obtain ⟨hhigh, hlow⟩ := octets_of_wordAt hsame
    exact ⟨hhigh.trans (octetAt_append List.length_replicate [0x88, 0x09] 0),
      hlow.trans (octetAt_append List.length_replicate [0x88, 0x09] 1)⟩
  · rintro ⟨hhigh, hlow⟩
    rw [wordAt, hhigh, hlow]
    rfl

theorem expectPart_eq (h : offset + 2 ≤ f.length) (type length : UInt8) :
    f.expectPart offset type length =
      if (f.partCheck offset type length).1 then .ok ()
      else .error (f.partCheck offset type length).2 := by
  simp [expectPart, partCheck, part_eq_two h]

theorem unlessRefused_cons (passed : Bool) (e : FrameError) (rest : List (Bool × FrameError))
    (m : Message) :
    unlessRefused ((passed, e) :: rest) m =
      if passed then unlessRefused rest m else .error e := by
  cases passed <;> rfl

theorem decodeLacp_eq (hlength : 124 ≤ f.length) (hlacp : f.octetAt 14 = 1) :
    f.decodeLacp.map .lacp = unlessRefused f.partChecks f.contents := by
  rw [partChecks, if_pos ((part_eq_one (by omega) 1).mpr hlacp), contents, if_pos hlacp]
  simp only [decodeLacp, expectPart_eq (show 16 + 2 ≤ f.length by omega),
    expectPart_eq (show 36 + 2 ≤ f.length by omega),
    expectPart_eq (show 56 + 2 ≤ f.length by omega),
    expectPart_eq (show 72 + 2 ≤ f.length by omega)]
  generalize f.partCheck 16 1 20 = actor
  generalize f.partCheck 36 2 20 = partner
  generalize f.partCheck 56 3 16 = delay
  generalize f.partCheck 72 0 0 = last
  obtain ⟨_ | _, _⟩ := actor
  · rfl
  obtain ⟨_ | _, _⟩ := partner
  · rfl
  obtain ⟨_ | _, _⟩ := delay
  · rfl
  obtain ⟨_ | _, _⟩ := last <;> rfl

theorem markerKind_eq (hlength : 124 ≤ f.length) :
    f.markerKind =
      if f.part 16 2 = [1, 16] ∨ f.part 16 2 = [2, 16] then
        .ok (if f.octetAt 16 = 1 then .information else .response)
      else .error (.badPart 1 (f.octetAt 16) (f.octetAt 17)) := by
  simp only [part_eq_two (show 16 + 2 ≤ f.length by omega), markerKind]
  by_cases hone : f.octetAt 16 = 1
  · by_cases hsize : f.octetAt 17 = 16 <;> simp [hone, hsize]
  · by_cases hsize : f.octetAt 17 = 16 <;> simp [hone, hsize]

theorem decodeMarker_eq (hlength : 124 ≤ f.length) (hlacp : f.octetAt 14 ≠ 1) :
    f.decodeMarker.map .marker = unlessRefused f.partChecks f.contents := by
  rw [partChecks, if_neg (mt (part_eq_one (by omega) 1).mp hlacp), contents, if_neg hlacp]
  simp only [decodeMarker, markerKind_eq hlength,
    expectPart_eq (show 32 + 2 ≤ f.length by omega)]
  generalize f.partCheck 32 0 0 = last
  by_cases hkind : f.part 16 2 = [1, 16] ∨ f.part 16 2 = [2, 16]
  · rw [if_pos hkind, decide_eq_true hkind]
    obtain ⟨_ | _, _⟩ := last <;> rfl
  · rw [if_neg hkind, decide_eq_false hkind]
    rfl

/-- A frame is refused for the first check that it does not pass. If it passes all, its message is
what its fields say. -/
theorem decode_eq (f : Frame) : f.decode = unlessRefused f.checks f.contents := by
  rw [decode, checks, headerChecks]
  simp only [List.cons_append, List.nil_append, unlessRefused_cons, decide_eq_true_eq]
  by_cases hheader : 16 ≤ f.length
  swap
  · rw [if_neg hheader, if_pos (by simpa [headerLength] using hheader)]
  have hdestination : f.part 0 6 = [0x01, 0x80, 0xc2, 0x00, 0x00, 0x02] ↔
      f.macAt 0 = MacAddress.slowProtocols :=
    part_eq_octets (by omega) MacAddress.slowProtocols
  have htype : f.part 12 2 = [0x88, 0x09] ↔ f.wordAt 12 = etherType :=
    (part_eq_two (by omega) _ _).trans wordAt_eq_etherType.symm
  have hlacp : f.part 14 1 = [1] ↔ f.octetAt 14 = lacpSubtype := part_eq_one (by omega) _
  have hmarker : f.part 14 1 = [2] ↔ f.octetAt 14 = markerSubtype := part_eq_one (by omega) _
  simp only [hdestination, htype, hlacp, hmarker]
  rw [if_pos hheader, if_neg (by simpa [headerLength] using hheader)]
  by_cases hdst : f.macAt 0 = MacAddress.slowProtocols
  swap
  · rw [if_pos hdst, if_neg hdst]
  rw [if_neg (not_not_intro hdst), if_pos hdst]
  by_cases hether : f.wordAt 12 = etherType
  swap
  · rw [if_pos hether, if_neg hether]
  rw [if_neg (not_not_intro hether), if_pos hether]
  by_cases hknown : f.octetAt 14 = lacpSubtype ∨ f.octetAt 14 = markerSubtype
  swap
  · rw [if_pos (not_or.mp hknown), if_neg hknown]
  rw [if_neg fun h => not_or.mpr h hknown, if_pos hknown]
  by_cases hlength : 124 ≤ f.length
  swap
  · rw [if_pos (by simpa [standardLength] using hlength), if_neg hlength]
  rw [if_neg (by simpa [standardLength] using hlength), if_pos hlength]
  by_cases hsubtype : f.octetAt 14 = lacpSubtype
  · rw [if_pos hsubtype, decodeLacp_eq hlength hsubtype]
  · rw [if_neg hsubtype, decodeMarker_eq hlength hsubtype]

end LinkAggregation.Frame
