import DocTables.Http.Url

/-!
Percent-encoded texts: how long they are, and that the encoding of a segment, which holds no slash
and no percent sign as it is, tells what it was made from.
-/
namespace DocTables.Url

/-- Characters that a path may hold as they are and a segment may not. -/
def segmentReserved : List Char := ['/', '\\', '%']

def isSegmentChar (c : Char) : Bool := isPathChar c && !segmentReserved.contains c

section Encode
variable (p : Char → Bool)

@[simp] theorem encode_nil : encode p [] = [] := rfl

theorem encode_cons (c : Char) (cs : List Char) :
    encode p (c :: cs) = encode p [c] ++ encode p cs := by
  simp [encode]

theorem encode_append (cs ds : List Char) : encode p (cs ++ ds) = encode p cs ++ encode p ds :=
  List.flatMap_append

variable {p}

theorem encode_char {c : Char} (h : p c = true) : encode p [c] = [c] := by
  simp [encode, h]

theorem encode_reserved {c : Char} (h : p c = false) :
    encode p [c] = (String.utf8EncodeChar c).flatMap encodeByte := by
  simp [encode, h]

theorem three_le_length_encode {c : Char} (h : p c = false) : 3 ≤ (encode p [c]).length := by
  have hbytes : 0 < (String.utf8EncodeChar c).length := by
    rw [String.length_utf8EncodeChar]
    exact c.utf8Size_pos
  rw [encode_reserved h, List.length_flatMap]
  simp only [encodeByte, List.length_cons, List.length_nil, List.map_const', List.sum_replicate_nat]
  omega

theorem length_encode_pos (c : Char) : 0 < (encode p [c]).length := by
  rcases hc : p c with _ | _
  · have := three_le_length_encode hc
    omega
  · rw [encode_char hc]
    exact Nat.one_pos

theorem encode_eq_self {cs : List Char} (h : ∀ c ∈ cs, p c = true) : encode p cs = cs := by
  induction cs with
  | nil => rfl
  | cons c cs ih =>
    rw [encode_cons, encode_char (h c List.mem_cons_self),
      ih fun d hd => h d (List.mem_cons_of_mem _ hd)]
    rfl

/-- Each character that is left out shortens the text. -/
theorem length_encode_add_le {cs ds : List Char} (h : cs.Sublist ds) :
    (encode p cs).length + ds.length ≤ (encode p ds).length + cs.length := by
  induction h with
  | slnil => exact Nat.le_refl _
  | cons d _ ih =>
    have hd := length_encode_pos (p := p) d
    rw [encode_cons p d, List.length_append, List.length_cons]
    omega
  | @cons_cons cs ds d _ ih =>
    rw [encode_cons p d cs, encode_cons p d ds]
    simp only [List.length_append, List.length_cons]
    omega

end Encode

theorem encode_segmentChar {c : Char} (h : c ∉ segmentReserved) :
    encode isSegmentChar [c] = encode isPathChar [c] := by
  have hc : isSegmentChar c = isPathChar c := by
    simp [isSegmentChar, h]
  rcases hpath : isPathChar c with _ | _
  · rw [encode_reserved (hc.trans hpath), encode_reserved hpath]
  · rw [encode_char (hc.trans hpath), encode_char hpath]

theorem encode_segment {s : List Char} (h : ∀ c ∈ s, c ∉ segmentReserved) :
    encode isSegmentChar s = encode isPathChar s := by
  induction s with
  | nil => rfl
  | cons c cs ih =>
    rw [encode_cons, encode_cons isPathChar, encode_segmentChar (h c List.mem_cons_self),
      ih fun d hd => h d (List.mem_cons_of_mem _ hd)]

theorem length_encode_reserved {c : Char} (h : c ∈ segmentReserved) :
    (encode isPathChar [c]).length < (encode isSegmentChar [c]).length := by
  have hpath : isPathChar c = true := by
    simp only [segmentReserved, List.mem_cons, List.not_mem_nil, or_false] at h
    rcases h with rfl | rfl | rfl <;> decide
  have hsegment : isSegmentChar c = false := by
    simp [isSegmentChar, h]
  have hthree := three_le_length_encode hsegment
  rw [encode_char hpath, List.length_singleton]
  omega

theorem length_encode_segment_le (s : List Char) :
    (encode isPathChar s).length ≤ (encode isSegmentChar s).length := by
  induction s with
  | nil => exact Nat.le_refl _
  | cons c cs ih =>
    rw [encode_cons, encode_cons isSegmentChar, List.length_append, List.length_append]
    by_cases hc : c ∈ segmentReserved
    · have := length_encode_reserved hc
      omega
    · rw [encode_segmentChar hc]
      omega

theorem length_encode_segment_lt {s : List Char} {c : Char} (hc : c ∈ s)
    (h : c ∈ segmentReserved) :
    (encode isPathChar s).length < (encode isSegmentChar s).length := by
  obtain ⟨front, back, rfl⟩ := List.append_of_mem hc
  have hfront := length_encode_segment_le front
  have hback := length_encode_segment_le back
  have hmid := length_encode_reserved h
  rw [encode_append, encode_append isSegmentChar, encode_cons, encode_cons isSegmentChar]
  simp only [List.length_append]
  omega

/-! What the encoding of a segment says is read off it, a byte for each code. -/

def hexValue (c : Char) : Nat := if c.toNat < 0x3A then c.toNat - 0x30 else c.toNat - 0x37

/-- The bytes of a text that are not encoded, and those that are. -/
def decoded : List Char → List UInt8
  | '%' :: a :: b :: cs => UInt8.ofNat (16 * hexValue a + hexValue b) :: decoded cs
  | c :: cs => String.utf8EncodeChar c ++ decoded cs
  | [] => []

theorem hexValue_upperHex : ∀ n < 16, hexValue (upperHex n) = n := by decide

theorem decoded_encodeByte (b : UInt8) (cs : List Char) :
    decoded (encodeByte b ++ cs) = b :: decoded cs := by
  have hb := b.toNat_lt
  change UInt8.ofNat (16 * hexValue (upperHex (b.toNat / 16)) +
    hexValue (upperHex (b.toNat % 16))) :: decoded cs = _
  rw [hexValue_upperHex _ (by omega), hexValue_upperHex _ (by omega), Nat.div_add_mod,
    UInt8.ofNat_toNat]

theorem decoded_encodeBytes (bs : List UInt8) (cs : List Char) :
    decoded (bs.flatMap encodeByte ++ cs) = bs ++ decoded cs := by
  induction bs with
  | nil => rfl
  | cons b bs ih =>
    rw [List.flatMap_cons, List.append_assoc, decoded_encodeByte, ih]
    rfl

theorem decoded_char {c : Char} (h : c ≠ '%') (cs : List Char) :
    decoded (c :: cs) = String.utf8EncodeChar c ++ decoded cs := by
  rw [decoded]
  rintro _ _ _ rfl
  exact absurd rfl h

theorem decoded_encode (cs ds : List Char) :
    decoded (encode isSegmentChar cs ++ ds) =
      cs.flatMap String.utf8EncodeChar ++ decoded ds := by
  induction cs with
  | nil => rfl
  | cons c cs ih =>
    rw [encode_cons, List.append_assoc, List.flatMap_cons, List.append_assoc, ← ih]
    rcases hc : isSegmentChar c with _ | _
    · rw [encode_reserved hc, decoded_encodeBytes]
    · rw [encode_char hc]
      refine decoded_char ?_ _
      rintro rfl
      exact absurd hc (by decide)

theorem encode_segment_injective {s t : List Char}
    (h : encode isSegmentChar s = encode isSegmentChar t) : s = t := by
  have hbytes : s.flatMap String.utf8EncodeChar = t.flatMap String.utf8EncodeChar := by
    have hs := decoded_encode s []
    rw [h, decoded_encode] at hs
    simpa [decoded] using hs.symm
  have htext : String.ofList s = String.ofList t := by
    apply String.toByteArray_inj.mp
    simp only [String.toByteArray_ofList, List.utf8Encode, hbytes]
  simpa using congrArg String.toList htext

end DocTables.Url
