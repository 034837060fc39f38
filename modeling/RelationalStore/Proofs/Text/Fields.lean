import Mathlib.Data.List.Basic
import Mathlib.Data.List.Induction
import RelationalStore.Text.Fields
import RelationalStore.Text.Integer

/-!
# Numbers in the fields of a text

A text is cut into fields without separators, and into no others. A field of digits is read as
the number that the digits stand for. Of all fields of one width just one is made of digits and
read as a given number: the number with zeros in front. Besides, a plus sign is read like a
zero where it stands before other digits.
-/

namespace RelationalStore

namespace Text

section Fields

variable {separator : Char} {text first : List Char} {others : List (List Char)}

/-- A text has a field, even if it is empty. -/
theorem fields_ne_nil (separator : Char) (text : List Char) : fields separator text ≠ [] := by
  cases text with
  | nil => exact List.cons_ne_nil _ _
  | cons c rest =>
    unfold fields
    split
    · exact List.cons_ne_nil _ _
    · split <;> exact List.cons_ne_nil _ _

/-- A character that is no separator belongs to the first field. -/
theorem fields_cons_of_ne {c : Char} (hc : c ≠ separator)
    (h : fields separator text = first :: others) :
    fields separator (c :: text) = (c :: first) :: others := by
  rw [fields, if_neg hc, h]

/-- A text without a separator is one field. -/
theorem fields_of_not_mem (h : separator ∉ text) : fields separator text = [text] := by
  induction text with
  | nil => rfl
  | cons c rest ih =>
    have hc : c ≠ separator := (List.ne_of_not_mem_cons h).symm
    exact fields_cons_of_ne hc (ih (List.not_mem_of_not_mem_cons h))

/-- A first field without a separator ends at the first one. -/
theorem fields_append (h : separator ∉ first) (rest : List Char) :
    fields separator (first ++ separator :: rest) = first :: fields separator rest := by
  induction first with
  | nil => rw [List.nil_append, fields, if_pos rfl]
  | cons c first ih =>
    have hc : c ≠ separator := (List.ne_of_not_mem_cons h).symm
    exact fields_cons_of_ne hc (ih (List.not_mem_of_not_mem_cons h))

/-- The first field has no separator, and behind it the text is at its end or has one. -/
theorem fields_eq_cons_iff : fields separator text = first :: others ↔
    separator ∉ first ∧ (others = [] ∧ text = first ∨
      ∃ rest, text = first ++ separator :: rest ∧ fields separator rest = others) := by
  constructor
  · intro h
    induction text generalizing first with
    | nil =>
      obtain ⟨rfl, rfl⟩ := List.cons.inj h
      exact ⟨List.not_mem_nil, .inl ⟨rfl, rfl⟩⟩
    | cons c rest ih =>
      by_cases hc : c = separator
      · rw [fields, if_pos hc] at h
        obtain ⟨rfl, hothers⟩ := List.cons.inj h
        exact ⟨List.not_mem_nil, .inr ⟨rest, by rw [hc, List.nil_append], hothers⟩⟩
      · obtain ⟨first', others', hrest⟩ := List.exists_cons_of_ne_nil (fields_ne_nil separator rest)
        rw [fields_cons_of_ne hc hrest] at h
        obtain ⟨rfl, rfl⟩ := List.cons.inj h
        obtain ⟨hfirst, hbehind⟩ := ih hrest
        refine ⟨List.not_mem_cons_of_ne_of_not_mem (Ne.symm hc) hfirst, ?_⟩
        rcases hbehind with ⟨hothers, rfl⟩ | ⟨tail, rfl, htail⟩
        · exact .inl ⟨hothers, rfl⟩
        · exact .inr ⟨tail, rfl, htail⟩
  · rintro ⟨hfirst, ⟨rfl, rfl⟩ | ⟨rest, rfl, rfl⟩⟩
    · exact fields_of_not_mem hfirst
    · exact fields_append hfirst rest

/-- Three fields stand around two separators. -/
theorem fields_eq_three_iff {a b c : List Char} : fields separator text = [a, b, c] ↔
    (separator ∉ a ∧ separator ∉ b ∧ separator ∉ c) ∧
      text = a ++ separator :: (b ++ separator :: c) := by
  constructor
  · intro h
    obtain ⟨ha, hbehind⟩ := fields_eq_cons_iff.mp h
    obtain ⟨hnone, _⟩ | ⟨behind, rfl, htwo⟩ := hbehind
    · cases hnone
    obtain ⟨hb, hbehind⟩ := fields_eq_cons_iff.mp htwo
    obtain ⟨hnone, _⟩ | ⟨last, rfl, hone⟩ := hbehind
    · cases hnone
    obtain ⟨hc, ⟨_, rfl⟩ | ⟨rest, _, hnone⟩⟩ := fields_eq_cons_iff.mp hone
    · exact ⟨⟨ha, hb, hc⟩, rfl⟩
    · exact absurd hnone (fields_ne_nil separator rest)
  · rintro ⟨⟨ha, hb, hc⟩, rfl⟩
    rw [fields_append ha, fields_append hb, fields_of_not_mem hc]

end Fields

section Digits

variable {bound value n width : Nat} {c : Char} {digits digits' text : List Char}

/-- A character is read as a number exactly if it is the digit of this number. -/
theorem digit?_eq_some_iff {d : Nat} :
    digit? c = some d ↔ c.isDigit = true ∧ c.toNat - '0'.toNat = d := by
  have hdigit : ('0' ≤ c ∧ c ≤ '9') ↔ c.isDigit = true := by
    simp [Char.isDigit, Char.le_def]
  unfold digit?
  split
  · next hc => simp [hdigit.mp hc]
  · next hc => simp [mt hdigit.mpr hc]

/-- A character is not read exactly if it is no digit. -/
theorem digit?_eq_none_iff : digit? c = none ↔ c.isDigit = false := by
  rw [Option.eq_none_iff_forall_ne_some]
  simp [digit?_eq_some_iff]

/-- More digits do not make a number less. -/
theorem le_ofDigitChars (digits : List Char) (value : Nat) :
    value ≤ Nat.ofDigitChars 10 digits value := by
  induction digits generalizing value with
  | nil => exact Nat.le_refl value
  | cons c rest ih =>
    rw [Nat.ofDigitChars_cons]
    exact Nat.le_trans (by omega) (ih _)

/-- Digits are read as the number that they stand for, unless it exceeds the bound. -/
theorem digitsWithin_eq_ok_iff (hvalue : value ≤ bound) : digitsWithin bound value digits = .ok n ↔
    (∀ c ∈ digits, c.isDigit = true) ∧ Nat.ofDigitChars 10 digits value = n ∧ n ≤ bound := by
  induction digits generalizing value with
  | nil =>
    simp only [digitsWithin, Except.ok.injEq, Nat.ofDigitChars_nil, List.not_mem_nil,
      false_implies, implies_true, true_and]
    exact ⟨fun h => ⟨h, h ▸ hvalue⟩, And.left⟩
  | cons c rest ih =>
    rw [digitsWithin, List.forall_mem_cons, Nat.ofDigitChars_cons]
    cases hc : digit? c with
    | none =>
      have hnot := digit?_eq_none_iff.mp hc
      simp [hnot]
    | some d =>
      obtain ⟨hdigit, rfl⟩ := digit?_eq_some_iff.mp hc
      dsimp only
      split
      · next hwithin => rw [ih hwithin, hdigit, eq_self, true_and]
      · next hbeyond =>
        have hgrows := le_ofDigitChars rest (10 * value + (c.toNat - '0'.toNat))
        simp only [reduceCtorEq, false_iff]
        rintro ⟨_, rfl, hwithin⟩
        exact hbeyond (Nat.le_trans hgrows hwithin)

/-- One more digit at the end is added to ten times the number. -/
theorem ofDigitChars_concat :
    Nat.ofDigitChars 10 (digits ++ [c]) 0 =
      10 * Nat.ofDigitChars 10 digits 0 + (c.toNat - '0'.toNat) := by
  rw [Nat.ofDigitChars_append, Nat.ofDigitChars_cons, Nat.ofDigitChars_nil]

/-- The codes of the ten digits follow one another. -/
theorem toNat_of_isDigit (h : c.isDigit = true) :
    '0'.toNat ≤ c.toNat ∧ c.toNat < '0'.toNat + 10 := by
  simp only [Char.isDigit, Bool.and_eq_true, decide_eq_true_eq] at h
  have hzero : '0'.toNat = 48 := rfl
  have hlow : 48 ≤ c.val.toNat := UInt32.le_iff_toNat_le.mp h.1
  have hhigh : c.val.toNat ≤ 57 := UInt32.le_iff_toNat_le.mp h.2
  have hval : c.toNat = c.val.toNat := rfl
  omega

/-- Among as many digits no others stand for the same number. -/
theorem eq_of_ofDigitChars_eq (hdigits : ∀ c ∈ digits, c.isDigit = true)
    (hdigits' : ∀ c ∈ digits', c.isDigit = true) (hlength : digits.length = digits'.length)
    (h : Nat.ofDigitChars 10 digits 0 = Nat.ofDigitChars 10 digits' 0) : digits = digits' := by
  induction digits using List.reverseRecOn generalizing digits' with
  | nil => exact (List.eq_nil_of_length_eq_zero hlength.symm).symm
  | append_singleton digits c ih =>
    obtain rfl | ⟨others, c', rfl⟩ := List.eq_nil_or_concat' digits'
    · simp at hlength
    · obtain ⟨hfront, hc⟩ := List.forall_mem_append.mp hdigits
      obtain ⟨hfront', hc'⟩ := List.forall_mem_append.mp hdigits'
      have hlast := toNat_of_isDigit (hc c List.mem_cons_self)
      have hlast' := toNat_of_isDigit (hc' c' List.mem_cons_self)
      rw [ofDigitChars_concat, ofDigitChars_concat] at h
      obtain rfl : digits = others := by
        refine ih hfront hfront' ?_ (by omega)
        simpa using hlength
      obtain rfl : c = c' := Char.ext (UInt32.toNat_inj.mp (by
        have hval : c.toNat = c'.toNat := by omega
        exact hval))
      rfl

/-- A number is not written with more digits than it is read from. -/
theorem length_toDigits_ofDigitChars_le (hne : digits ≠ [])
    (hdigits : ∀ c ∈ digits, c.isDigit = true) :
    (Nat.toDigits 10 (Nat.ofDigitChars 10 digits 0)).length ≤ digits.length := by
  induction digits using List.reverseRecOn with
  | nil => exact absurd rfl hne
  | append_singleton digits c ih =>
    obtain ⟨hfront, hc⟩ := List.forall_mem_append.mp hdigits
    have hlast := toNat_of_isDigit (hc c List.mem_cons_self)
    rw [ofDigitChars_concat, List.length_append, List.length_singleton]
    by_cases hsmall : 10 * Nat.ofDigitChars 10 digits 0 + (c.toNat - '0'.toNat) < 10
    · rw [Nat.toDigits_of_lt_base hsmall]
      exact Nat.le_add_left 1 _
    · have hquotient : (10 * Nat.ofDigitChars 10 digits 0 + (c.toNat - '0'.toNat)) / 10 =
          Nat.ofDigitChars 10 digits 0 := by omega
      have hfront_ne : digits ≠ [] := by
        rintro rfl
        rw [Nat.ofDigitChars_nil] at hsmall
        omega
      rw [Nat.toDigits_of_base_le (by decide) (Nat.not_lt.mp hsmall), hquotient,
        List.length_append, List.length_singleton]
      exact Nat.succ_le_succ (ih hfront_ne hfront)

/-- A number is padded by zeros in front of its digits. -/
theorem toList_padZeros (width n : Nat) : (padZeros width n).toList =
    List.replicate (width - (Nat.toDigits 10 n).length) '0' ++ Nat.toDigits 10 n := by
  have hdigits : (toString n).toList = Nat.toDigits 10 n := Nat.toList_repr
  rw [padZeros, String.toList_append, String.toList_ofList, hdigits, ← String.length_toList,
    hdigits]

/-- A padded number consists of digits. -/
theorem isDigit_of_mem_padZeros (hc : c ∈ (padZeros width n).toList) : c.isDigit = true := by
  rw [toList_padZeros] at hc
  rcases List.mem_append.mp hc with hc | hc
  · rw [List.eq_of_mem_replicate hc]
    rfl
  · exact Nat.isDigit_of_mem_toDigits (by decide) (by decide) hc

/-- A padded number has the value of the number. -/
theorem ofDigitChars_padZeros (width n : Nat) :
    Nat.ofDigitChars 10 (padZeros width n).toList 0 = n := by
  rw [toList_padZeros, Nat.ofDigitChars_append, Nat.ofDigitChars_replicate_zero, Nat.mul_zero,
    Nat.ofDigitChars_ten_toDigits]

/-- A number that has no more digits than the width is padded to the width. -/
theorem length_padZeros (h : (Nat.toDigits 10 n).length ≤ width) :
    (padZeros width n).toList.length = width := by
  rw [toList_padZeros, List.length_append, List.length_replicate]
  omega

/-- Digits are read as a number exactly if they are the number with zeros in front. -/
theorem digitsWithin_zero_eq_ok_iff (hne : digits ≠ []) : digitsWithin bound 0 digits = .ok n ↔
    n ≤ bound ∧ (Nat.toDigits 10 n).length ≤ digits.length ∧
      digits = (padZeros digits.length n).toList := by
  rw [digitsWithin_eq_ok_iff (Nat.zero_le bound)]
  constructor
  · rintro ⟨hdigits, rfl, hbound⟩
    have hlength := length_toDigits_ofDigitChars_le hne hdigits
    refine ⟨hbound, hlength, eq_of_ofDigitChars_eq hdigits (fun c => isDigit_of_mem_padZeros) ?_ ?_⟩
    · exact (length_padZeros hlength).symm
    · exact (ofDigitChars_padZeros _ _).symm
  · rintro ⟨hbound, _, hdigits⟩
    refine ⟨fun c hc => isDigit_of_mem_padZeros (hdigits ▸ hc), ?_, hbound⟩
    rw [hdigits, ofDigitChars_padZeros]

/-- The text is the field, or has a plus sign in the place of a zero that leads the field. -/
def Signed (field text : List Char) : Prop :=
  text = field ∨ ∃ rest, field = '0' :: rest ∧ text = '+' :: rest

/-- A text without a plus sign is the field itself. -/
theorem signed_iff_eq {field : List Char} (h : '+' ∉ text) : Signed field text ↔ text = field := by
  constructor
  · rintro (htext | ⟨rest, _, rfl⟩)
    · exact htext
    · exact absurd List.mem_cons_self h
  · exact .inl

/-- A sign takes the place of a zero, and so the field keeps its length. -/
theorem Signed.length_eq {field : List Char} (h : Signed field text) :
    text.length = field.length := by
  rcases h with rfl | ⟨rest, rfl, rfl⟩
  · rfl
  · rfl

/-- What is read for a field of digits has no characters but digits and plus signs. -/
theorem Signed.isDigit_or_eq {field : List Char} (h : Signed field text)
    (hdigits : ∀ c ∈ field, c.isDigit = true) : ∀ c ∈ text, c.isDigit = true ∨ c = '+' := by
  rcases h with rfl | ⟨rest, rfl, rfl⟩
  · exact fun c hc => .inl (hdigits c hc)
  · intro c hc
    rcases List.mem_cons.mp hc with rfl | hc
    · exact .inr rfl
    · exact .inl (hdigits c (List.mem_cons_of_mem _ hc))

/-- Digits and plus signs take one byte each. -/
theorem utf8Length_eq_length (h : ∀ c ∈ text, c.isDigit = true ∨ c = '+') :
    utf8Length text = text.length := by
  induction text with
  | nil => rfl
  | cons c rest ih =>
    obtain ⟨hc, hrest⟩ := List.forall_mem_cons.mp h
    have hsize : c.utf8Size = 1 := by
      refine Char.utf8Size_eq_one_iff.mpr (UInt32.le_iff_toNat_le.mpr ?_)
      have hval : c.toNat = c.val.toNat := rfl
      have htop : '0'.toNat = 48 := rfl
      have hlimit : (127 : UInt32).toNat = 127 := rfl
      rcases hc with hdigit | rfl
      · have := toNat_of_isDigit hdigit
        omega
      · decide
    rw [utf8Length, hsize, ih hrest, List.length_cons, Nat.add_comm]

/-- What does not start with a plus sign is read digit by digit. -/
theorem unsignedWithin_of_ne {rest : List Char} (hc : c ≠ '+') :
    unsignedWithin bound (c :: rest) = digitsWithin bound 0 (c :: rest) := by
  unfold unsignedWithin
  split
  · next hnil => cases hnil
  · next hplus => exact absurd (List.cons.inj hplus).1 hc
  · next hplus => exact absurd (List.cons.inj hplus).1 hc
  · rfl

/-- A plus sign is read like a zero in front of digits. -/
theorem unsignedWithin_plus {rest : List Char} (hne : rest ≠ []) :
    unsignedWithin bound ('+' :: rest) = unsignedWithin bound ('0' :: rest) := by
  obtain ⟨c, tail, rfl⟩ := List.exists_cons_of_ne_nil hne
  have hzero : digit? '0' = some 0 := rfl
  calc unsignedWithin bound ('+' :: c :: tail)
      = digitsWithin bound 0 (c :: tail) := rfl
    _ = digitsWithin bound 0 ('0' :: c :: tail) := by simp [digitsWithin, hzero]
    _ = unsignedWithin bound ('0' :: c :: tail) := (unsignedWithin_of_ne (by decide)).symm

/-- Of all texts of one length, a number is read from the one that has zeros in front of it,
and from that with a plus sign in the place of the first zero. -/
theorem unsignedWithin_eq_ok_iff (hlength : 2 ≤ text.length) :
    unsignedWithin bound text = .ok n ↔
      n ≤ bound ∧ (Nat.toDigits 10 n).length ≤ text.length ∧
        Signed (padZeros text.length n).toList text := by
  cases text with
  | nil => simp at hlength
  | cons c rest =>
    have hrest : rest ≠ [] := by
      rintro rfl
      simp at hlength
    by_cases hc : c = '+'
    · subst hc
      have hplus : ¬ '+' :: rest = (padZeros (rest.length + 1) n).toList := fun htext =>
        absurd (isDigit_of_mem_padZeros (htext ▸ List.mem_cons_self)) (by decide)
      rw [unsignedWithin_plus hrest, unsignedWithin_of_ne (by decide),
        digitsWithin_zero_eq_ok_iff (List.cons_ne_nil _ _)]
      simp [Signed, hplus, eq_comm]
    · have hsigned (field : List Char) : Signed field (c :: rest) ↔ c :: rest = field := by
        simp [Signed, hc]
      rw [unsignedWithin_of_ne hc, digitsWithin_zero_eq_ok_iff (List.cons_ne_nil _ _), hsigned]

/-- What is read as a number is digits, perhaps behind a plus sign. -/
theorem exists_digitsWithin_of_unsignedWithin (h : unsignedWithin bound text = .ok n) :
    ∃ digits, digitsWithin bound 0 digits = .ok n ∧ (text = digits ∨ text = '+' :: digits) := by
  unfold unsignedWithin at h
  split at h
  · cases h
  · cases h
  · exact ⟨_, h, .inr rfl⟩
  · exact ⟨_, h, .inl rfl⟩

/-- A number that is read is within the bound. -/
theorem le_of_unsignedWithin (h : unsignedWithin bound text = .ok n) : n ≤ bound := by
  obtain ⟨digits, hread, _⟩ := exists_digitsWithin_of_unsignedWithin h
  exact ((digitsWithin_eq_ok_iff (Nat.zero_le bound)).mp hread).2.2

/-- A text that is read as a number consists of digits and plus signs. -/
theorem isDigit_or_eq_of_unsignedWithin (h : unsignedWithin bound text = .ok n) :
    ∀ c ∈ text, c.isDigit = true ∨ c = '+' := by
  obtain ⟨digits, hread, htext⟩ := exists_digitsWithin_of_unsignedWithin h
  have hdigits := ((digitsWithin_eq_ok_iff (Nat.zero_le bound)).mp hread).1
  rcases htext with rfl | rfl
  · exact fun c hc => .inl (hdigits c hc)
  · exact List.forall_mem_cons.mpr ⟨.inr rfl, fun c hc => .inl (hdigits c hc)⟩

end Digits

end Text

end RelationalStore
