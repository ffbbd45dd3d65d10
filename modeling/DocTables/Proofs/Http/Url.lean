import DocTables.Proofs.Http.Encoding
import Mathlib.Data.List.DropRight

/-!
Addresses written from segments. Reading one never makes its path longer, and leaves its length only
where every segment is kept in one piece.
-/
namespace DocTables.Url

/-! Cutting a path and resolving it. -/

@[simp] theorem joinPath_nil : joinPath [] = [] := rfl

@[simp] theorem joinPath_cons (s : List Char) (ss : List (List Char)) :
    joinPath (s :: ss) = '/' :: (s ++ joinPath ss) := rfl

theorem joinPath_append (ss ts : List (List Char)) :
    joinPath (ss ++ ts) = joinPath ss ++ joinPath ts := List.flatMap_append

/-- Neither slash stands in the segment. -/
def IsUncut (s : List Char) : Prop := ∀ c ∈ s, c ≠ '/' ∧ c ≠ '\\'

theorem segments_append {s t u : List Char} {us : List (List Char)} (hs : IsUncut s)
    (ht : segments t = u :: us) : segments (s ++ t) = (s ++ u) :: us := by
  induction s with
  | nil => exact ht
  | cons c s ih =>
    obtain ⟨hslash, hback⟩ := hs c List.mem_cons_self
    rw [List.cons_append, segments, if_neg (by simp [hslash, hback]),
      ih fun d hd => hs d (List.mem_cons_of_mem _ hd)]
    rfl

theorem segments_append_joinPath {s : List Char} {ss : List (List Char)} (hs : IsUncut s)
    (hss : ∀ t ∈ ss, IsUncut t) : segments (s ++ joinPath ss) = s :: ss := by
  induction ss generalizing s with
  | nil =>
    rw [joinPath_nil, segments_append hs rfl, List.append_nil]
  | cons t ss ih =>
    have hrest : segments (joinPath (t :: ss)) = [] :: t :: ss := by
      rw [joinPath_cons, segments, if_pos (by simp),
        ih (hss t List.mem_cons_self) fun u hu => hss u (List.mem_cons_of_mem _ hu)]
    rw [segments_append hs hrest, List.append_nil]

theorem joinPath_injective {ss ts : List (List Char)} (hss : ∀ s ∈ ss, IsUncut s)
    (hts : ∀ t ∈ ts, IsUncut t) (h : joinPath ss = joinPath ts) : ss = ts := by
  have hcut : ∀ us : List (List Char), (∀ u ∈ us, IsUncut u) →
      segments (joinPath us) = [] :: us := by
    intro us hus
    exact segments_append_joinPath (s := []) (fun _ hc => nomatch hc) hus
  have := (hcut ss hss).symm.trans (h ▸ hcut ts hts)
  exact (List.cons.inj this).2

def isDot (s : List Char) : Bool := isSingleDot s || isDoubleDot s

theorem resolve_of_no_dots {ss : List (List Char)} (h : ∀ s ∈ ss, isDot s = false)
    (parents : List (List Char)) : resolve parents ss = parents.reverse ++ ss := by
  fun_induction resolve parents ss with
  | case1 => rw [List.append_nil]
  | case2 parents s hs | case3 parents s _ hs | case5 parents s _ _ hs | case6 parents s _ _ _ hs =>
    have := h s List.mem_cons_self
    simp [isDot, hs] at this
  | case4 => simp
  | case7 parents s ss _ _ _ ih =>
    rw [ih fun t ht => h t (List.mem_cons_of_mem _ ht)]
    simp

/-- How long a path of these segments is. -/
def weight : List (List Char) → Nat
  | [] => 0
  | s :: ss => (encode isPathChar s).length + 1 + weight ss

theorem length_joinPath (ss : List (List Char)) :
    (joinPath (ss.map (encode isPathChar))).length = weight ss := by
  induction ss with
  | nil => rfl
  | cons s ss ih =>
    simp only [List.map_cons, joinPath_cons, List.length_cons, List.length_append, ih, weight]
    omega

@[simp] theorem weight_nil : weight [] = 0 := rfl

@[simp] theorem weight_cons (s : List Char) (ss : List (List Char)) :
    weight (s :: ss) = (encode isPathChar s).length + 1 + weight ss := rfl

@[simp] theorem weight_append (ss ts : List (List Char)) :
    weight (ss ++ ts) = weight ss + weight ts := by
  rw [← length_joinPath, List.map_append, joinPath_append, List.length_append, length_joinPath,
    length_joinPath]

@[simp] theorem weight_reverse (ss : List (List Char)) : weight ss.reverse = weight ss := by
  induction ss with
  | nil => rfl
  | cons s ss ih =>
    rw [List.reverse_cons, weight_append, ih, weight_cons, weight_cons, weight_nil]
    omega

theorem exists_segments (cs : List Char) : ∃ s ss, segments cs = s :: ss := by
  fun_induction segments cs with
  | case1 => exact ⟨_, _, rfl⟩
  | case2 => exact ⟨_, _, rfl⟩
  | case3 => exact ⟨_, _, rfl⟩
  | case4 => exact ⟨_, _, rfl⟩

theorem weight_segments (cs : List Char) :
    weight (segments cs) = (encode isPathChar cs).length + 1 := by
  fun_induction segments cs with
  | case1 => rfl
  | case2 c cs hc ih =>
    have hchar : isPathChar c = true := by
      rcases (by simpa using hc : c = '/' ∨ c = '\\') with rfl | rfl <;> decide
    rw [weight_cons, ih, encode_cons, encode_char hchar]
    simp only [encode_nil, List.length_nil, List.length_append, List.length_singleton]
    omega
  | case3 c cs _ hnil =>
    obtain ⟨_, _, h⟩ := exists_segments cs
    exact absurd (h.symm.trans hnil) (by simp)
  | case4 c cs _ s ss hss ih =>
    rw [hss, weight_cons] at ih
    rw [weight_cons, encode_cons, encode_cons isPathChar c cs, List.length_append,
      List.length_append]
    omega

theorem weight_above (ss : List (List Char)) : weight (above ss) ≤ weight ss := by
  fun_cases above ss with
  | case1 => exact Nat.le_refl _
  | case2 => exact Nat.le_refl _
  | case3 => simp

theorem length_encode_dot {s : List Char} (h : isDot s = true) :
    0 < (encode isPathChar s).length := by
  cases s with
  | nil => exact absurd h (by decide)
  | cons c cs =>
    have := length_encode_pos (p := isPathChar) c
    rw [encode_cons, List.length_append]
    omega

/-- Each dot segment shortens the path. -/
theorem weight_resolve (parents ss : List (List Char)) :
    weight (resolve parents ss) + ss.countP isDot ≤ weight parents + weight ss := by
  fun_induction resolve parents ss with
  | case1 => simp
  | case2 parents s hs =>
    have := length_encode_dot (s := s) (by simp [isDot, hs])
    have := weight_above parents
    simp [isDot, hs]
    omega
  | case3 parents s _ hs =>
    have := length_encode_dot (s := s) (by simp [isDot, hs])
    simp [isDot, hs]
    omega
  | case4 parents s hd hs =>
    simp [isDot, hs, hd]
  | case5 parents s ss _ hs ih =>
    have := weight_above parents
    rw [List.countP_cons_of_pos (by simp [isDot, hs]), weight_cons]
    omega
  | case6 parents s ss _ _ hs ih =>
    rw [List.countP_cons_of_pos (by simp [isDot, hs]), weight_cons]
    omega
  | case7 parents s ss _ hd hs ih =>
    rw [List.countP_cons_of_neg (by simp [isDot, hs, hd]), weight_cons]
    rw [weight_cons] at ih
    omega

/-! Reading an address. -/

def isPathText (c : Char) : Bool := !isPathEnd c

theorem cleaned_sublist (cs : List Char) : (cleaned cs).Sublist cs :=
  List.filter_sublist.trans (List.rdropWhile_prefix isControlOrSpace cs).sublist

theorem cleaned_slash (cs : List Char) : cleaned ('/' :: cs) = '/' :: cleaned cs := by
  have hdrop : (cs.reverse ++ ['/']).dropWhile isControlOrSpace =
      cs.reverse.dropWhile isControlOrSpace ++ ['/'] := by
    rw [List.dropWhile_append]
    split
    · next h =>
      rw [List.isEmpty_iff.mp h]
      rfl
    · rfl
  unfold cleaned
  rw [List.reverse_cons, hdrop, List.reverse_append]
  rfl

theorem cleaned_eq_self_iff {cs : List Char} : cleaned cs = cs ↔
    (∀ c ∈ cs, isTabOrNewline c = false) ∧ ∀ c ∈ cs.getLast?, isControlOrSpace c = false := by
  have hdrop : cs.rdropWhile isControlOrSpace = cs ↔
      ∀ c ∈ cs.getLast?, isControlOrSpace c = false := by
    rw [List.rdropWhile_eq_self_iff]
    rcases List.eq_nil_or_concat cs with rfl | ⟨_, _, rfl⟩ <;> simp
  have hcleaned : cleaned cs =
      (cs.rdropWhile isControlOrSpace).filter fun c => !isTabOrNewline c := rfl
  rw [← hdrop, hcleaned]
  constructor
  · intro h
    have hlength := List.length_filter_le (fun c => !isTabOrNewline c)
      (cs.rdropWhile isControlOrSpace)
    rw [h] at hlength
    have hwhole := (List.rdropWhile_prefix isControlOrSpace cs).sublist.eq_of_length_le hlength
    rw [hwhole, List.filter_eq_self] at h
    exact ⟨by simpa using h, hwhole⟩
  · rintro ⟨htabs, hend⟩
    rw [hend, List.filter_eq_self]
    simpa using htabs

theorem target?_slash (cs : List Char) :
    target? (String.ofList ('/' :: cs)) =
      some ⟨pathText ((cleaned cs).takeWhile isPathText),
        queryText? ((cleaned cs).dropWhile isPathText)⟩ := by
  unfold target?
  rw [String.toList_ofList, cleaned_slash]
  rfl

theorem length_pathText_add_le (cs : List Char) :
    (pathText cs).length + (segments cs).countP isDot ≤ (encode isPathChar cs).length + 1 := by
  rw [pathText, String.length_ofList, length_joinPath, ← weight_segments]
  simpa using weight_resolve [] (segments cs)

/-- The path that is asked for is at most as long as the text with its codes; if it is as long,
nothing was cut off, dropped or resolved. -/
theorem length_path_le {cs : List Char} {t : Target}
    (h : target? (String.ofList ('/' :: cs)) = some t) :
    t.path.length ≤ (encode isPathChar cs).length + 1 ∧
      (t.path.length = (encode isPathChar cs).length + 1 →
        cleaned cs = cs ∧ (∀ c ∈ cs, isPathEnd c = false) ∧
          ∀ s ∈ segments cs, isDot s = false) := by
  rw [target?_slash] at h
  obtain rfl := Option.some.inj h
  have hsub := (List.takeWhile_sublist isPathText (l := cleaned cs)).trans (cleaned_sublist cs)
  have hpath := length_pathText_add_le ((cleaned cs).takeWhile isPathText)
  have hkept := length_encode_add_le (p := isPathChar) hsub
  have hlength := hsub.length_le
  refine ⟨by dsimp only; omega, fun heq => ?_⟩
  dsimp only at heq
  -- Each step leaves characters out or resolves dots, so none of them has done anything.
  have hwhole : (cleaned cs).takeWhile isPathText = cs := hsub.eq_of_length_le (by omega)
  have hdots : (segments cs).countP isDot = 0 := by
    rw [hwhole] at hpath heq
    omega
  refine ⟨?_, fun c hc => ?_, by simpa using hdots⟩
  · have hcleaned := (List.takeWhile_sublist isPathText (l := cleaned cs)).length_le
    rw [hwhole] at hcleaned
    exact (cleaned_sublist cs).eq_of_length_le hcleaned
  · rw [← hwhole] at hc
    simpa [isPathText] using List.mem_takeWhile_imp hc

/-- A segment that an address keeps in one piece. -/
structure IsWhole (s : List Char) : Prop where
  uncut : IsUncut s
  unended : ∀ c ∈ s, isPathEnd c = false
  kept : ∀ c ∈ s, isTabOrNewline c = false
  undotted : isDot s = false

theorem mem_joinPath {c : Char} {ss : List (List Char)} :
    c ∈ joinPath ss ↔ ∃ s ∈ ss, c = '/' ∨ c ∈ s := by
  simp only [joinPath, List.mem_flatMap, List.mem_cons]

theorem encode_joinPath (ss : List (List Char)) :
    encode isPathChar (joinPath ss) = joinPath (ss.map (encode isPathChar)) := by
  induction ss with
  | nil => rfl
  | cons s ss ih =>
    rw [joinPath_cons, encode_cons, encode_append, ih, encode_char (by decide)]
    rfl

/-- An address of whole segments is asked for segment by segment. -/
theorem target?_of_whole {ss : List (List Char)} (hne : ss ≠ []) (hwhole : ∀ s ∈ ss, IsWhole s)
    (hend : ∀ c ∈ (joinPath ss).getLast?, isControlOrSpace c = false) :
    target? (String.ofList (joinPath ss)) =
      some ⟨String.ofList (joinPath (ss.map (encode isPathChar))), none⟩ := by
  obtain ⟨s, ss, rfl⟩ := List.exists_cons_of_ne_nil hne
  have hchars : ∀ c ∈ joinPath (s :: ss), isTabOrNewline c = false ∧ isPathText c = true := by
    intro c hc
    obtain ⟨t, ht, rfl | hc⟩ := mem_joinPath.mp hc
    · decide
    · simp [isPathText, (hwhole t ht).kept c hc, (hwhole t ht).unended c hc]
  have hcleaned := cleaned_eq_self_iff.mpr ⟨fun c hc => (hchars c hc).1, hend⟩
  rw [joinPath_cons, cleaned_slash, List.cons.injEq] at hcleaned
  have hcut : segments (s ++ joinPath ss) = s :: ss :=
    segments_append_joinPath (hwhole s List.mem_cons_self).uncut
      fun t ht => (hwhole t (List.mem_cons_of_mem _ ht)).uncut
  have htext : ∀ c ∈ s ++ joinPath ss, isPathText c = true := fun c hc =>
    (hchars c (List.mem_cons_of_mem _ hc)).2
  rw [joinPath_cons, target?_slash, hcleaned.2, List.takeWhile_eq_self_iff.mpr htext,
    List.dropWhile_eq_nil_iff.mpr htext, pathText, hcut,
    resolve_of_no_dots fun t ht => (hwhole t ht).undotted]
  rfl

/-- The path asked for is at most as long as the segments with their codes; where it is as long, the
segments are whole. -/
theorem whole_of_target? {ss : List (List Char)} {t : Target} (hne : ss ≠ [])
    (h : target? (String.ofList (joinPath ss)) = some t) :
    t.path.length ≤ weight ss ∧
      (t.path.length = weight ss → (∀ s ∈ ss, IsUncut s) →
        (∀ s ∈ ss, IsWhole s) ∧ ∀ c ∈ (joinPath ss).getLast?, isControlOrSpace c = false) := by
  obtain ⟨s, ss, rfl⟩ := List.exists_cons_of_ne_nil hne
  have hweight := congrArg List.length (encode_joinPath (s :: ss))
  rw [length_joinPath, joinPath_cons, encode_cons, encode_char (by decide), List.length_append,
    List.length_singleton] at hweight
  rw [joinPath_cons] at h
  obtain ⟨hle, hwhole⟩ := length_path_le h
  refine ⟨by omega, fun hlength huncut => ?_⟩
  obtain ⟨hcleaned, hended, hdots⟩ := hwhole (by omega)
  rw [segments_append_joinPath (huncut s List.mem_cons_self)
    fun t ht => huncut t (List.mem_cons_of_mem _ ht)] at hdots
  have htext : cleaned (joinPath (s :: ss)) = joinPath (s :: ss) := by
    rw [joinPath_cons, cleaned_slash, hcleaned]
  obtain ⟨hkept, hend⟩ := cleaned_eq_self_iff.mp htext
  have hmem : ∀ t ∈ s :: ss, ∀ c ∈ t, c ∈ '/' :: (s ++ joinPath ss) := fun t ht c hc =>
    mem_joinPath.mpr ⟨t, ht, .inr hc⟩
  refine ⟨fun t ht => ⟨huncut t ht, fun c hc => ?_, fun c hc => hkept c (hmem t ht c hc),
    hdots t ht⟩, hend⟩
  rcases List.mem_cons.mp (hmem t ht c hc) with rfl | hc
  · rfl
  · exact hended c hc

/-- A segment that needs no codes. -/
structure IsFixed (s : List Char) : Prop extends IsWhole s where
  allowed : ∀ c ∈ s, isPathChar c = true

/-- Characters that an address does not keep in a segment as what they are. -/
def segmentBreaks : List Char := ['/', '\\', '?', '#', '%', '\t', '\n', '\r']

/-- A text that an address keeps as one segment, with no code of its own. -/
structure IsPlain (s : List Char) : Prop where
  unbroken : ∀ c ∈ s, c ∉ segmentBreaks
  single : s ≠ ['.']
  double : s ≠ ['.', '.']

theorem decodeDots_of_uncoded {s : List Char} (h : '%' ∉ s) : decodeDots s = s := by
  fun_induction decodeDots s with
  | case1 => simp at h
  | case2 => simp at h
  | case3 c cs _ _ ih => rw [ih fun hc => h (List.mem_cons_of_mem _ hc)]
  | case4 => rfl

theorem isDot_of_uncoded {s : List Char} (h : '%' ∉ s) :
    isDot s = true ↔ s = ['.'] ∨ s = ['.', '.'] := by
  simp [isDot, isSingleDot, isDoubleDot, decodeDots_of_uncoded h]

theorem isPlain_iff {s : List Char} : IsPlain s ↔ IsWhole s ∧ '%' ∉ s := by
  constructor
  · intro h
    have huncoded : '%' ∉ s := fun hc => h.unbroken _ hc (by decide)
    have hbreaks : ∀ c ∈ s, (c ≠ '/' ∧ c ≠ '\\') ∧ isPathEnd c = false ∧
        isTabOrNewline c = false := by
      intro c hc
      have hbreak := h.unbroken c hc
      simp only [segmentBreaks, List.mem_cons, List.not_mem_nil, or_false, not_or] at hbreak
      simp [isPathEnd, isTabOrNewline, hbreak]
    refine ⟨⟨fun c hc => (hbreaks c hc).1, fun c hc => (hbreaks c hc).2.1,
      fun c hc => (hbreaks c hc).2.2, Bool.eq_false_iff.mpr fun hdot => ?_⟩, huncoded⟩
    exact ((isDot_of_uncoded huncoded).mp hdot).elim h.single h.double
  · rintro ⟨hwhole, huncoded⟩
    have hdot : ¬ (s = ['.'] ∨ s = ['.', '.']) := fun hdot =>
      nomatch hwhole.undotted.symm.trans ((isDot_of_uncoded huncoded).mpr hdot)
    refine ⟨fun c hc hbreak => ?_, fun h => hdot (.inl h), fun h => hdot (.inr h)⟩
    have hended := hwhole.unended c hc
    have hkept := hwhole.kept c hc
    simp only [isPathEnd, isTabOrNewline, Bool.or_eq_false_iff, beq_eq_false_iff_ne,
      decide_eq_false_iff_not] at hended hkept
    simp only [segmentBreaks, List.mem_cons, List.not_mem_nil, or_false, hwhole.uncut c hc, hended,
      hkept, false_or] at hbreak
    exact huncoded (hbreak ▸ hc)

theorem IsWhole.unreserved {s : List Char} (h : IsWhole s) (huncoded : '%' ∉ s) :
    ∀ c ∈ s, c ∉ segmentReserved := by
  intro c hc
  obtain ⟨hslash, hback⟩ := h.uncut c hc
  simp only [segmentReserved, List.mem_cons, List.not_mem_nil, or_false, hslash, hback, false_or]
  rintro rfl
  exact huncoded hc

theorem weight_le_length_joinPath (ss : List (List Char)) :
    weight ss ≤ (joinPath (ss.map (encode isSegmentChar))).length := by
  induction ss with
  | nil => exact Nat.le_refl _
  | cons s ss ih =>
    have := length_encode_segment_le s
    simp only [List.map_cons, joinPath_cons, List.length_cons, List.length_append, weight_cons]
    omega

theorem unreserved_of_length_le {ss : List (List Char)}
    (h : (joinPath (ss.map (encode isSegmentChar))).length ≤ weight ss) :
    ∀ s ∈ ss, ∀ c ∈ s, c ∉ segmentReserved := by
  intro s hs c hc hreserved
  obtain ⟨front, back, rfl⟩ := List.append_of_mem hs
  have hfront := weight_le_length_joinPath front
  have hback := weight_le_length_joinPath back
  have hmid := length_encode_segment_lt hc hreserved
  simp only [List.map_append, List.map_cons, joinPath_append, joinPath_cons, List.length_append,
    List.length_cons, weight_append, weight_cons] at h
  omega

/-- The parts behind a fixed path are asked for as segments just when they are plain and the last
one does not end with what is trimmed. -/
theorem target?_eq_iff {fixed parts : List (List Char)} (hne : parts ≠ [])
    (hfixed : ∀ s ∈ fixed, IsFixed s) :
    target? (String.ofList (joinPath (fixed ++ parts))) =
        some ⟨String.ofList (joinPath (fixed ++ parts.map (encode isSegmentChar))), none⟩ ↔
      (∀ s ∈ parts, IsPlain s) ∧
        ∀ c ∈ (joinPath parts).getLast?, isControlOrSpace c = false := by
  have hall : fixed ++ parts ≠ [] := by simp [hne]
  have hlast : (joinPath (fixed ++ parts)).getLast? = (joinPath parts).getLast? := by
    obtain ⟨s, ss, rfl⟩ := List.exists_cons_of_ne_nil hne
    rw [joinPath_append, joinPath_cons, List.getLast?_append_cons]
  have hcodes : fixed.map (encode isPathChar) = fixed :=
    (List.map_congr_left fun s hs => encode_eq_self (hfixed s hs).allowed).trans (List.map_id _)
  rw [← hlast]
  constructor
  · intro h
    obtain ⟨hle, hwhole⟩ := whole_of_target? hall h
    have hlength : (String.ofList (joinPath (fixed ++ parts.map (encode isSegmentChar)))).length =
        weight fixed + (joinPath (parts.map (encode isSegmentChar))).length := by
      rw [String.length_ofList, joinPath_append, List.length_append, ← length_joinPath, hcodes]
    -- The path is as long as what was asked for and no longer than the segments weigh, and the
    -- encoding of the parts can only exceed their weight: so all of these lengths are one.
    have hparts := weight_le_length_joinPath parts
    rw [hlength, weight_append] at hle hwhole
    have hunreserved : ∀ s ∈ parts, ∀ c ∈ s, c ∉ segmentReserved :=
      unreserved_of_length_le (by omega)
    have huncut : ∀ s ∈ fixed ++ parts, IsUncut s := by
      intro s hs
      rcases List.mem_append.mp hs with hs | hs
      · exact (hfixed s hs).uncut
      · intro c hc
        have := hunreserved s hs c hc
        simp only [segmentReserved, List.mem_cons, not_or] at this
        exact ⟨this.1, this.2.1⟩
    obtain ⟨hwhole, hend⟩ := hwhole (by omega) huncut
    refine ⟨fun s hs => isPlain_iff.mpr ⟨hwhole s (List.mem_append_right _ hs), fun hc => ?_⟩, hend⟩
    exact hunreserved s hs _ hc (by decide)
  · rintro ⟨hplain, hend⟩
    have hparts : ∀ s ∈ parts, IsWhole s ∧ '%' ∉ s := fun s hs => isPlain_iff.mp (hplain s hs)
    have hwhole : ∀ s ∈ fixed ++ parts, IsWhole s := by
      intro s hs
      rcases List.mem_append.mp hs with hs | hs
      · exact (hfixed s hs).toIsWhole
      · exact (hparts s hs).1
    have hencoded : parts.map (encode isPathChar) = parts.map (encode isSegmentChar) :=
      List.map_congr_left fun s hs =>
        (encode_segment ((hparts s hs).1.unreserved (hparts s hs).2)).symm
    rw [target?_of_whole hall hwhole hend, List.map_append, hcodes, hencoded]

theorem uncut_encode (s : List Char) : IsUncut (encode isSegmentChar s) := by
  intro d hd
  obtain ⟨c, -, hd⟩ := List.mem_flatMap.mp hd
  split at hd
  · next hc =>
    obtain rfl := List.mem_singleton.mp hd
    constructor <;> rintro rfl <;> exact absurd hc (by decide)
  · obtain ⟨b, -, hd⟩ := List.mem_flatMap.mp hd
    have hb := b.toNat_lt
    have hhex : ∀ n < 16, upperHex n ≠ '/' ∧ upperHex n ≠ '\\' := by decide
    simp only [encodeByte, List.mem_cons, List.not_mem_nil, or_false] at hd
    rcases hd with rfl | rfl | rfl
    · decide
    · exact hhex _ (by omega)
    · exact hhex _ (by omega)

/-- Paths of encoded segments tell the segments apart. -/
theorem joinPath_encode_injective {fixed ss ts : List (List Char)}
    (h : joinPath (fixed ++ ss.map (encode isSegmentChar)) =
      joinPath (fixed ++ ts.map (encode isSegmentChar))) : ss = ts := by
  rw [joinPath_append, joinPath_append] at h
  have huncut : ∀ us : List (List Char), ∀ u ∈ us.map (encode isSegmentChar), IsUncut u := by
    intro us u hu
    obtain ⟨s, -, rfl⟩ := List.mem_map.mp hu
    exact uncut_encode s
  exact List.map_injective_iff.mpr (fun _ _ => encode_segment_injective)
    (joinPath_injective (huncut ss) (huncut ts) (List.append_cancel_left h))

end DocTables.Url
