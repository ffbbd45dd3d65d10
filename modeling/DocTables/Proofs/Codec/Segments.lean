import Mathlib.Algebra.Order.Floor.Div
import Mathlib.GroupTheory.GroupAction.Ring
import DocTables.Proofs.Store.Written

/-!
How a text is cut into the segments of its property: as few as hold it, each full but the last one,
and read back as one text by records and by filters alike.
-/
namespace DocTables
open Outcome

namespace RichText
variable {α : Type u} {n fuel : Nat} {xs piece : List α}

theorem chunks_eq_nil (h : xs.length ≤ fuel) : chunks n fuel xs = [] ↔ xs = [] := by
  cases fuel with
  | zero => simp [chunks, List.eq_nil_of_length_eq_zero (Nat.le_zero.mp h)]
  | succ fuel => cases xs <;> simp [chunks]

/-- There are as many pieces as it takes to hold the list. -/
theorem length_chunks (hn : 0 < n) (h : xs.length ≤ fuel) :
    (chunks n fuel xs).length = xs.length ⌈/⌉ n := by
  have hnone : (0 + n - 1) / n = 0 := Nat.div_eq_of_lt (by omega)
  rw [Nat.ceilDiv_eq_add_pred_div]
  induction fuel generalizing xs with
  | zero =>
    obtain rfl := List.eq_nil_of_length_eq_zero (Nat.le_zero.mp h)
    exact hnone.symm
  | succ fuel ih =>
    cases xs with
    | nil => exact hnone.symm
    | cons x xs =>
      rw [chunks, List.length_cons, ih (length_drop_le hn h), List.length_drop]
      have hpos : 0 < (x :: xs).length := Nat.succ_pos _
      by_cases hfits : (x :: xs).length ≤ n
      · have hlast : (x :: xs).length + n - 1 = (x :: xs).length - 1 + n := by omega
        rw [Nat.sub_eq_zero_of_le hfits, hnone, hlast, Nat.add_div_right _ hn,
          Nat.div_eq_of_lt (by omega)]
      · have hmore : (x :: xs).length + n - 1 = (x :: xs).length - n + n - 1 + n := by omega
        rw [hmore, Nat.add_div_right _ hn]

/-- No piece is empty or too long. -/
theorem length_of_mem_chunks (hn : 0 < n) (h : piece ∈ chunks n fuel xs) :
    1 ≤ piece.length ∧ piece.length ≤ n := by
  induction fuel generalizing xs with
  | zero => exact nomatch h
  | succ fuel ih =>
    cases xs with
    | nil => exact nomatch h
    | cons x xs =>
      rcases List.mem_cons.mp h with rfl | hrest
      · rw [List.length_take, List.length_cons]
        omega
      · exact ih hrest

/-- A piece that others follow is full. -/
theorem length_of_mem_dropLast_chunks (hn : 0 < n) (hfuel : xs.length ≤ fuel)
    (h : piece ∈ (chunks n fuel xs).dropLast) : piece.length = n := by
  induction fuel generalizing xs with
  | zero => exact nomatch h
  | succ fuel ih =>
    cases xs with
    | nil => exact nomatch h
    | cons x xs =>
      have hmore : chunks n fuel ((x :: xs).drop n) ≠ [] := by
        intro hnone
        rw [chunks, hnone, List.dropLast_singleton] at h
        exact List.not_mem_nil h
      rw [chunks, List.dropLast_cons_of_ne_nil hmore] at h
      rcases List.mem_cons.mp h with rfl | hlater
      · have hleft := mt (chunks_eq_nil (length_drop_le hn hfuel)).mpr hmore
        rw [List.drop_eq_nil_iff, not_le] at hleft
        rw [List.length_take, Nat.min_eq_left hleft.le]
      · exact ih (length_drop_le hn hfuel) hlater

theorem length_pieces (s : String) : (pieces s).length = s.length ⌈/⌉ segmentLimit := by
  rw [pieces, List.length_map, length_chunks (by decide) le_rfl, String.length_toList]

theorem length_of_mem_pieces {s p : String} (h : p ∈ pieces s) :
    1 ≤ p.length ∧ p.length ≤ segmentLimit := by
  obtain ⟨cs, hcs, rfl⟩ := List.mem_map.mp h
  rw [String.length_ofList]
  exact length_of_mem_chunks (by decide) hcs

theorem length_of_mem_dropLast_pieces {s p : String} (h : p ∈ (pieces s).dropLast) :
    p.length = segmentLimit := by
  rw [pieces, ← List.map_dropLast] at h
  obtain ⟨cs, hcs, rfl⟩ := List.mem_map.mp h
  rw [String.length_ofList]
  exact length_of_mem_dropLast_chunks (by decide) le_rfl hcs

end RichText

namespace Codec
open RichText
variable {c : Codec} {s : String} {w : Json}

/-- What a title or text that is accepted is stored as. -/
theorem content_text (hc : c = .title ∨ c = .richText) {j : Json}
    (h : c.content (.string s) = .ok j) :
    j = .array ((pieces (Text.trim s)).map segment) ∧
      c.canonical (.string s) = .string (Text.trim s) := by
  rw [← segments_eq, ← ofText_eq]
  rcases hc with rfl | rfl
  · have hcontent : title.content (.string s) = if Text.trim s = "" then
        .error (.rejected .emptyTitle) else .ok (ofText (Text.trim s)) := rfl
    rw [hcontent] at h
    split at h
    · exact nomatch h
    · exact ⟨(Except.ok.inj h).symm, rfl⟩
  · exact ⟨(Except.ok.inj h).symm, rfl⟩

/-- A title or text that is accepted is stored as the segments of its trimmed form: as few as hold
it, none of them empty and all but the last one full. Joined in order they are that form again, for
records and for filters. -/
theorem segments_settle (hc : c = .title ∨ c = .richText) (h : c.toWire (.string s) = .ok w) :
    ∃ texts : List String, w = property c.type (.array (texts.map segment)) ∧
      texts.length = (Text.trim s).length ⌈/⌉ 2000 ∧
      (∀ t ∈ texts, 1 ≤ t.length ∧ t.length ≤ 2000) ∧
      (∀ t ∈ texts.dropLast, t.length = 2000) ∧
      String.join texts = Text.trim s ∧
      c.ofWire w = .ok (.string (Text.trim s)) ∧
      Facet.ofProperty c.type.key w = .text (Text.trim s) := by
  obtain ⟨j, hj, rfl⟩ := map_eq_ok.mp h
  obtain ⟨hsegments, hcanonical⟩ := content_text hc hj
  refine ⟨pieces (Text.trim s), by rw [hsegments], length_pieces _, fun t => length_of_mem_pieces,
    fun t => length_of_mem_dropLast_pieces, join_pieces _, ?_, ?_⟩
  · rw [ofWire_property hj, hcanonical]
  · rw [facet_content hj, hcanonical]
    rcases hc with rfl | rfl <;> rfl

/-- A text of so many crosses. -/
def crosses (n : Nat) : String := String.ofList (List.replicate n 'x')

theorem length_crosses (n : Nat) : (crosses n).length = n := by
  rw [crosses, String.length_ofList, List.length_replicate]

theorem trim_crosses (n : Nat) : Text.trim (crosses n) = crosses n := by
  have hsolid : ∀ c ∈ List.replicate n 'x', Text.isBlank c = false := fun c hc =>
    (List.eq_of_mem_replicate hc).symm ▸ by decide
  have htrimmed : Text.trimChars (List.replicate n 'x') = List.replicate n 'x' := by
    rw [Text.trimChars_eq, List.dropWhile_eq_self_iff.mpr, List.rdropWhile_eq_self_iff.mpr]
    · intro hne
      rw [hsolid _ (List.getLast_mem hne)]
      exact Bool.false_ne_true
    · intro hpos
      rw [hsolid _ (List.getElem_mem hpos)]
      exact Bool.false_ne_true
  rw [Text.trim, crosses, String.toList_ofList, htrimmed]

/-- Five characters more than one segment holds make a second one of five. -/
theorem segments_settle_crosses :
    ∃ first last : String, richText.toWire (.string (crosses 2005)) =
      .ok (property .richText (.array [segment first, segment last])) ∧
      first.length = 2000 ∧ last.length = 5 := by
  have hstored : ∀ s, richText.toWire (.string s) =
      .ok (property .richText (ofText (Text.trim s))) := fun _ => rfl
  obtain ⟨texts, hwire, hcount, -, hfull, hjoined, -, -⟩ :=
    segments_settle (.inr rfl) (hstored (crosses 2005))
  rw [trim_crosses] at hcount hjoined
  rw [length_crosses, Nat.ceilDiv_eq_add_pred_div] at hcount
  obtain ⟨first, last, rfl⟩ := List.length_eq_two.mp hcount
  have hfirst : first.length = 2000 := hfull first (List.mem_singleton_self first)
  refine ⟨first, last, (hstored _).trans (congrArg _ hwire), hfirst, ?_⟩
  have htotal := congrArg String.length hjoined
  rw [length_crosses, String.join_cons, String.join_cons, String.join_nil, String.append_empty,
    String.length_append] at htotal
  omega

end Codec
end DocTables
