import DocTables.Proofs.Codec.Accepted
import DocTables.Proofs.Text.Forms

/-!
Which texts are addresses and telephone numbers. Each kind has a pattern of characters that follow
each other, and a plain rule about the text as a whole. A mail address may meet its pattern in
several ways, at each dot inside its domain; the rule asks for one such dot.
-/
namespace DocTables
open Outcome

namespace Text
open scoped Computability
variable {cs front rest : List Char} {c d : Char}

def isSolid (c : Char) : Bool := !isBlank c

/-- Mail addresses have neither white space nor an `@` in their parts. -/
def isMailChar (c : Char) : Bool := isSolid c && c != '@'

def urlForm : Language Char :=
  char 'h' * char 't' * char 't' * char 'p' * perhaps (char 's') * char ':' * char '/' * char '/' *
    oneOf isAddressStart * (oneOf isSolid)∗

def emailForm : Language Char :=
  oneOrMore isMailChar * char '@' * oneOrMore isMailChar * char '.' * oneOrMore isMailChar

def phoneForm : Language Char := oneOrMore isPhoneChar

/-- `http://` or `https://`, a first character, and no white space behind it. -/
def IsUrl (cs : List Char) : Prop :=
  ∃ c rest, (cs = "http://".toList ++ c :: rest ∨ cs = "https://".toList ++ c :: rest) ∧
    isBlank c = false ∧ c ∉ ['/', '$', '.', '?', '#'] ∧ ∀ d ∈ rest, isBlank d = false

/-- A dot with something on each side of it. -/
def HasInnerDot (cs : List Char) : Prop :=
  ∃ left right, cs = left ++ '.' :: right ∧ left ≠ [] ∧ right ≠ []

/-- No white space, one `@` with something before it, and a dot inside what is behind it. -/
def IsEmail (cs : List Char) : Prop :=
  (∀ c ∈ cs, isBlank c = false) ∧ cs.count '@' = 1 ∧
    ∃ name domain, cs = name ++ '@' :: domain ∧ name ≠ [] ∧ HasInnerDot domain

/-- Digits and the marks between them, with at least three digits. -/
def IsPhone (cs : List Char) : Prop :=
  cs ≠ [] ∧ (∀ c ∈ cs, isAsciiDigit c = true ∨ c ∈ ['+', '-', '(', ')', '.', ' ']) ∧
    3 ≤ cs.countP isAsciiDigit

theorem toList_http : "http://".toList = ['h', 't', 't', 'p', ':', '/', '/'] := rfl

theorem toList_https : "https://".toList = ['h', 't', 't', 'p', 's', ':', '/', '/'] := rfl

theorem stripScheme_eq_some : stripScheme cs = some rest ↔
    cs = "http://".toList ++ rest ∨ cs = "https://".toList ++ rest := by
  rw [toList_http, toList_https]
  constructor
  · intro h
    unfold stripScheme at h
    split at h
    next => exact .inl (by rw [Option.some.inj h]; rfl)
    next => exact .inr (by rw [Option.some.inj h]; rfl)
    next => exact nomatch h
  · rintro (rfl | rfl) <;> rfl

theorem isAddressStart_iff : isAddressStart c = true ↔
    isBlank c = false ∧ c ∉ ['/', '$', '.', '?', '#'] := by
  simp [isAddressStart, and_assoc]

theorem isUrl_iff : isUrl cs = true ↔ IsUrl cs := by
  have hread : isUrl cs = true ↔ ∃ c rest, stripScheme cs = some (c :: rest) ∧
      isAddressStart c = true ∧ ∀ d ∈ rest, isBlank d = false := by
    rw [isUrl]
    split
    next c rest h => simp [h]
    next h =>
      constructor
      · exact nofun
      · rintro ⟨c, rest, hstrip, -⟩
        exact absurd hstrip (h c rest)
  simp only [hread, stripScheme_eq_some, isAddressStart_iff, IsUrl, and_assoc]

theorem mem_urlForm : cs ∈ urlForm ↔ IsUrl cs := by
  have hsolid : ∀ cs, cs ∈ (oneOf isSolid)∗ ↔ ∀ d ∈ cs, isBlank d = false := by
    intro cs
    simp [kstar_oneOf, mem_allOf, isSolid]
  simp only [urlForm, mul_assoc, mem_char_mul, mem_perhaps_mul, mem_oneOf_mul, hsolid,
    isAddressStart_iff, IsUrl, toList_http, toList_https]
  constructor
  · rintro ⟨_, rfl, _, rfl, _, rfl, _, rfl, h⟩
    rcases h with ⟨_, rfl, _, rfl, _, rfl, c, rest, rfl, hc, hrest⟩ |
      ⟨_, rfl, _, rfl, _, rfl, _, rfl, c, rest, rfl, hc, hrest⟩
    · exact ⟨c, rest, .inl rfl, hc.1, hc.2, hrest⟩
    · exact ⟨c, rest, .inr rfl, hc.1, hc.2, hrest⟩
  · rintro ⟨c, rest, rfl | rfl, hblank, hc, hrest⟩
    · exact ⟨_, rfl, _, rfl, _, rfl, _, rfl,
        .inl ⟨_, rfl, _, rfl, _, rfl, c, rest, rfl, ⟨hblank, hc⟩, hrest⟩⟩
    · exact ⟨_, rfl, _, rfl, _, rfl, _, rfl,
        .inr ⟨_, rfl, _, rfl, _, rfl, _, rfl, c, rest, rfl, ⟨hblank, hc⟩, hrest⟩⟩

/-- A text is cut at the first place of a character. -/
theorem span_ne_eq : cs.span (· != c) = (front, d :: rest) ↔
    d = c ∧ c ∉ front ∧ cs = front ++ c :: rest := by
  rw [List.span_eq_takeWhile_dropWhile, Prod.mk.injEq]
  constructor
  · rintro ⟨rfl, hrest⟩
    have hhead := List.head?_dropWhile_not (· != c) cs
    rw [hrest] at hhead
    obtain rfl : d = c := by simpa using hhead
    refine ⟨rfl, ?_, ?_⟩
    · intro hmem
      simpa using List.mem_takeWhile_imp hmem
    · rw [← hrest, List.takeWhile_append_dropWhile]
  · rintro ⟨rfl, hfront, rfl⟩
    have hpass : ∀ e ∈ front, (e != d) = true := by
      intro e he
      rw [bne_iff_ne]
      rintro rfl
      exact hfront he
    rw [List.takeWhile_append_of_pos hpass, List.dropWhile_append_of_pos hpass]
    simp

theorem hasInnerDot_iff : hasInnerDot cs = true ↔ HasInnerDot cs := by
  rw [hasInnerDot, List.contains_iff_mem]
  constructor
  · intro h
    obtain ⟨left, right, hsplit⟩ := List.append_of_mem h
    cases cs with
    | nil => exact nomatch h
    | cons c cs =>
      have hne : cs ≠ [] := by
        rintro rfl
        exact nomatch h
      rw [List.tail_cons] at hsplit
      have hcs : cs = left ++ '.' :: (right ++ [cs.getLast hne]) := calc
        cs = cs.dropLast ++ [cs.getLast hne] := (List.dropLast_append_getLast hne).symm
        _ = left ++ '.' :: (right ++ [cs.getLast hne]) := by
          rw [hsplit, List.append_assoc, List.cons_append]
      exact ⟨c :: left, _, congrArg (c :: ·) hcs, List.cons_ne_nil _ _, by simp⟩
  · rintro ⟨left, right, rfl, hleft, hright⟩
    obtain ⟨c, left, rfl⟩ := List.exists_cons_of_ne_nil hleft
    rw [List.cons_append, List.tail_cons, List.dropLast_append_of_ne_nil (List.cons_ne_nil _ _),
      List.dropLast_cons_of_ne_nil hright]
    simp

theorem forall_isMailChar : (∀ c ∈ cs, isMailChar c = true) ↔
    (∀ c ∈ cs, isBlank c = false) ∧ '@' ∉ cs := by
  simp only [isMailChar, isSolid, Bool.and_eq_true, Bool.not_eq_true', bne_iff_ne, ne_eq,
    forall_and, and_congr_right_iff]
  intro _
  constructor
  · intro h hmem
    exact h '@' hmem rfl
  · rintro h _ hc rfl
    exact h hc

/-- The parts of a mail address. -/
theorem isEmail_parts : IsEmail cs ↔ ∃ name domain, cs = name ++ '@' :: domain ∧ name ≠ [] ∧
    (∀ c ∈ name, isMailChar c = true) ∧ (∀ c ∈ domain, isMailChar c = true) ∧
      HasInnerDot domain := by
  simp only [IsEmail, forall_isMailChar]
  constructor
  · rintro ⟨hsolid, hcount, name, domain, rfl, hname, hdot⟩
    rw [List.forall_mem_append, List.forall_mem_cons] at hsolid
    rw [List.count_append, List.count_cons_self] at hcount
    have hbefore : name.count '@' = 0 := by omega
    have hbehind : domain.count '@' = 0 := by omega
    exact ⟨name, domain, rfl, hname, ⟨hsolid.1, List.count_eq_zero.mp hbefore⟩,
      ⟨hsolid.2.2, List.count_eq_zero.mp hbehind⟩, hdot⟩
  · rintro ⟨name, domain, rfl, hname, ⟨hsolid, hbefore⟩, ⟨hsolid', hbehind⟩, hdot⟩
    refine ⟨?_, ?_, name, domain, rfl, hname, hdot⟩
    · rw [List.forall_mem_append, List.forall_mem_cons]
      exact ⟨hsolid, rfl, hsolid'⟩
    · rw [List.count_append, List.count_cons_self, List.count_eq_zero.mpr hbefore,
        List.count_eq_zero.mpr hbehind]

theorem isEmail_iff : isEmail cs = true ↔ IsEmail cs := by
  have hread : isEmail cs = true ↔ ∃ name domain, cs.span (· != '@') = (name, '@' :: domain) ∧
      name ≠ [] ∧ (∀ c ∈ name, isBlank c = false) ∧ (∀ c ∈ domain, isMailChar c = true) ∧
        hasInnerDot domain = true := by
    rw [isEmail]
    split
    next c name d domain h =>
      obtain ⟨rfl, -, -⟩ := span_ne_eq.mp h
      rw [h]
      simp [isMailChar, isSolid, and_assoc]
    next h =>
      constructor
      · exact nofun
      · rintro ⟨name, domain, hspan, hname, -⟩
        obtain ⟨c, name, rfl⟩ := List.exists_cons_of_ne_nil hname
        exact absurd hspan (h c name '@' domain)
  rw [hread, isEmail_parts]
  refine exists_congr fun name => exists_congr fun domain => ?_
  simp only [span_ne_eq, true_and, hasInnerDot_iff, forall_isMailChar]
  constructor
  · rintro ⟨⟨hname, rfl⟩, hne, hsolid, hdomain, hdot⟩
    exact ⟨rfl, hne, ⟨hsolid, hname⟩, hdomain, hdot⟩
  · rintro ⟨rfl, hne, ⟨hsolid, hname⟩, hdomain, hdot⟩
    exact ⟨⟨hname, rfl⟩, hne, hsolid, hdomain, hdot⟩

/-- In the pattern the domain is cut at one of its dots. -/
theorem mem_emailForm : cs ∈ emailForm ↔ IsEmail cs := by
  rw [isEmail_parts]
  simp only [emailForm, mul_assoc, mem_oneOrMore_mul, mem_char_mul, mem_oneOrMore, HasInnerDot]
  constructor
  · rintro ⟨name, _, rfl, hname, hmail, _, rfl, left, _, rfl, hleft, hmail', right, rfl, hright⟩
    refine ⟨name, left ++ '.' :: right, rfl, hname, hmail, ?_, left, right, rfl, hleft, hright.1⟩
    rw [List.forall_mem_append, List.forall_mem_cons]
    exact ⟨hmail', rfl, hright.2⟩
  · rintro ⟨name, _, rfl, hname, hmail, hmail', left, right, rfl, hleft, hright⟩
    rw [List.forall_mem_append, List.forall_mem_cons] at hmail'
    exact ⟨name, _, rfl, hname, hmail, _, rfl, left, _, rfl, hleft, hmail'.1, right, rfl, hright,
      hmail'.2.2⟩

theorem isPhone_iff : isPhone cs = true ↔ IsPhone cs := by
  simp [isPhone, isPhoneChar, IsPhone, and_assoc, or_assoc]

theorem mem_phoneForm : cs ∈ phoneForm ∧ 3 ≤ cs.countP isAsciiDigit ↔ IsPhone cs := by
  simp [phoneForm, mem_oneOrMore, isPhoneChar, IsPhone, and_assoc, or_assoc]

end Text

namespace ContactKind
variable {kind : ContactKind} {cs : List Char}

/-- The rule for a kind of contact. -/
def Allows (kind : ContactKind) (cs : List Char) : Prop :=
  match kind with
  | url => Text.IsUrl cs
  | email => Text.IsEmail cs
  | phoneNumber => Text.IsPhone cs

/-- The pattern of a kind of contact. A telephone number is counted besides. -/
def form : ContactKind → Language Char
  | url => Text.urlForm
  | email => Text.emailForm
  | phoneNumber => Text.phoneForm ⊓ {cs | 3 ≤ cs.countP Text.isAsciiDigit}

theorem mem_form : cs ∈ kind.form ↔ kind.Allows cs := by
  cases kind with
  | url => exact Text.mem_urlForm
  | email => exact Text.mem_emailForm
  | phoneNumber => exact Text.mem_phoneForm

theorem ne_nil_of_allows (h : kind.Allows cs) : cs ≠ [] := by
  rintro rfl
  cases kind with
  | url =>
    obtain ⟨c, rest, h | h, -⟩ := h
    · exact nomatch h
    · exact nomatch h
  | email => exact nomatch h.2.1
  | phoneNumber => exact h.1 rfl

end ContactKind

namespace Codec
open Text

theorem contactMatches_iff {kind : ContactKind} {s : String} :
    contactMatches kind s = true ↔ kind.Allows s.toList := by
  cases kind with
  | url => exact isUrl_iff
  | email => exact isEmail_iff
  | phoneNumber => exact isPhone_iff

/-- A text is stored as a contact just when it is, without the blanks around it, one by the rule of
its kind, and that is what is stored. -/
theorem contact_settles (kind : ContactKind) (s : String) :
    (∀ w, (contact kind).toWire (.string s) = .ok w ↔
      kind.Allows (trim s).toList ∧ w = property kind.type (.string (trim s))) ∧
    (∀ e, (contact kind).toWire (.string s) = .error e ↔
      ¬ kind.Allows (trim s).toList ∧
        e = .rejected (if trim s = "" then .emptyContact kind else .badContact (trim s) kind)) ∧
    ∀ cs, cs ∈ kind.form ↔ kind.Allows cs := by
  have hread : readContact kind (.string s) =
      if trim s = "" then .error (.rejected (.emptyContact kind))
      else if contactMatches kind (trim s) = true then .ok (trim s)
      else .error (.rejected (.badContact (trim s) kind)) := rfl
  by_cases hallowed : kind.Allows (trim s).toList
  · have hne : trim s ≠ "" := by
      intro hempty
      apply ContactKind.ne_nil_of_allows hallowed
      rw [hempty]
      rfl
    have hstored : (contact kind).toWire (.string s) =
        .ok (property kind.type (.string (trim s))) := by
      rw [toWire, content, hread, if_neg hne, if_pos (contactMatches_iff.mpr hallowed)]
      rfl
    refine ⟨fun w => ?_, fun e => ?_, fun cs => ContactKind.mem_form⟩
    · rw [hstored, Except.ok.injEq, and_iff_right hallowed]
      exact eq_comm
    · rw [hstored]
      exact ⟨nofun, fun h => absurd hallowed h.1⟩
  · have hrefused : (contact kind).toWire (.string s) = .error (.rejected
        (if trim s = "" then .emptyContact kind else .badContact (trim s) kind)) := by
      rw [toWire, content, hread, if_neg (mt contactMatches_iff.mp hallowed)]
      split <;> rfl
    refine ⟨fun w => ?_, fun e => ?_, fun cs => ContactKind.mem_form⟩
    · rw [hrefused]
      exact ⟨nofun, fun h => absurd h.1 hallowed⟩
    · rw [hrefused, Except.error.injEq, and_iff_right hallowed]
      exact eq_comm

end Codec
end DocTables
