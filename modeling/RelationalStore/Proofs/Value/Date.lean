import RelationalStore.Proofs.Result
import RelationalStore.Proofs.Text.Fields
import RelationalStore.Value.Date

/-!
# Date literals

A date whose fields are in their ranges is read from the text that is printed for it. It is
read from other texts as well: any of the three fields may have a plus sign in the place of a
leading zero. No other text is read as a date, and so printing undoes reading for all texts
without a plus sign.
-/

namespace RelationalStore

namespace Date

open Text (Signed padZeros)

variable {d : Date} {text : List Char} {width : Nat} {n : UInt32}

/-- The fields of the date are in the ranges that a literal may use. -/
def InRange (d : Date) : Prop :=
  d.year.toNat ≤ 9999 ∧ (1 ≤ d.month.toNat ∧ d.month.toNat ≤ 12) ∧
    (1 ≤ d.day.toNat ∧ d.day.toNat ≤ 31)

instance (d : Date) : Decidable d.InRange :=
  inferInstanceAs (Decidable (_ ∧ _))

/-- Fields make a date exactly if they are in range. -/
theorem ofFields_eq_ok_iff {year month day : UInt32} :
    ofFields year month day = .ok d ↔ d.InRange ∧ d = ⟨year, month, day⟩ := by
  unfold ofFields
  split
  · next hranges =>
    rw [Except.ok.injEq]
    constructor
    · rintro rfl
      exact ⟨hranges, rfl⟩
    · exact fun h => h.2.symm
  · next hranges =>
    simp only [reduceCtorEq, false_iff, not_and]
    rintro hrange rfl
    exact hranges hrange

/-- A field is read as a number of 32 bits. -/
theorem readField_eq_ok_iff_unsignedWithin :
    readField text = .ok n ↔ Text.unsignedWithin (UInt32.size - 1) text = .ok n.toNat := by
  unfold readField
  cases hread : Text.unsignedWithin (UInt32.size - 1) text with
  | ok m =>
    have hbound : m < UInt32.size :=
      Nat.lt_of_le_of_lt (Text.le_of_unsignedWithin hread) (by decide)
    simp only [Except.ok.injEq]
    constructor
    · rintro rfl
      exact (UInt32.toNat_ofNat_of_lt' hbound).symm
    · rintro rfl
      exact UInt32.ofNat_toNat
  | error fault => simp

/-- A number is read from a field of some bytes exactly if the field has the number with zeros
in front, or with a plus sign in the place of the first of them. -/
theorem readField_eq_ok_iff (hwidth : 2 ≤ width)
    (hn : (Nat.toDigits 10 n.toNat).length ≤ width) :
    (Text.utf8Length text = width ∧ readField text = .ok n) ↔
      Signed (padZeros width n.toNat).toList text := by
  rw [readField_eq_ok_iff_unsignedWithin]
  constructor
  · rintro ⟨hlength, hread⟩
    have hbytes := Text.utf8Length_eq_length (Text.isDigit_or_eq_of_unsignedWithin hread)
    obtain rfl : text.length = width := hbytes.symm.trans hlength
    exact ((Text.unsignedWithin_eq_ok_iff hwidth).mp hread).2.2
  · intro hsigned
    have hbytes := Text.utf8Length_eq_length
      (hsigned.isDigit_or_eq fun _ hc => Text.isDigit_of_mem_padZeros hc)
    obtain rfl : text.length = width := hsigned.length_eq.trans (Text.length_padZeros hn)
    have hbound : n.toNat ≤ UInt32.size - 1 := Nat.le_sub_one_of_lt n.toNat_lt
    exact ⟨hbytes, (Text.unsignedWithin_eq_ok_iff hwidth).mpr ⟨hbound, hn, hsigned⟩⟩

/-- Fields in range have no more digits than the literal has places for. -/
theorem InRange.length_toDigits_le (h : d.InRange) :
    (Nat.toDigits 10 d.year.toNat).length ≤ 4 ∧ (Nat.toDigits 10 d.month.toNat).length ≤ 2 ∧
      (Nat.toDigits 10 d.day.toNat).length ≤ 2 := by
  obtain ⟨hyear, ⟨_, hmonth⟩, _, hday⟩ := h
  simp only [Nat.length_toDigits_le_iff (by decide : 1 < 10) (by decide : 0 < 4),
    Nat.length_toDigits_le_iff (by decide : 1 < 10) (by decide : 0 < 2)]
  omega

/-- A text is read as a date if it is cut into three fields of the right lengths, which are read
as the fields of a date in range. -/
theorem parse_eq_ok_iff {literal : String} : parse literal = .ok d ↔
    d.InRange ∧ ∃ y m x, Text.fields '-' literal.toList = [y, m, x] ∧
      (Text.utf8Length y = 4 ∧ readField y = .ok d.year) ∧
      (Text.utf8Length m = 2 ∧ readField m = .ok d.month) ∧
      (Text.utf8Length x = 2 ∧ readField x = .ok d.day) := by
  unfold parse
  dsimp only
  split
  · next y m x hfields =>
    rw [hfields]
    split
    · next hlengths =>
      obtain ⟨hy, hm, hx⟩ := hlengths
      simp only [bind_eq_ok_iff, ofFields_eq_ok_iff]
      constructor
      · rintro ⟨year, hyear, month, hmonth, day, hday, hrange, rfl⟩
        exact ⟨hrange, y, m, x, rfl, ⟨hy, hyear⟩, ⟨hm, hmonth⟩, hx, hday⟩
      · rintro ⟨hrange, _, _, _, heq, ⟨_, hyear⟩, ⟨_, hmonth⟩, _, hday⟩
        obtain ⟨rfl, rfl, rfl⟩ : y = _ ∧ m = _ ∧ x = _ := by simpa using heq
        exact ⟨_, hyear, _, hmonth, _, hday, hrange, rfl⟩
    · next hlengths =>
      simp only [reduceCtorEq, false_iff]
      rintro ⟨_, _, _, _, heq, ⟨hy, _⟩, ⟨hm, _⟩, hx, _⟩
      obtain ⟨rfl, rfl, rfl⟩ : y = _ ∧ m = _ ∧ x = _ := by simpa using heq
      exact hlengths ⟨hy, hm, hx⟩
  · next hfields =>
    simp only [reduceCtorEq, false_iff]
    rintro ⟨_, y, m, x, heq, _⟩
    exact hfields y m x heq

/-- The printed fields of the date, each as it is or with a plus sign in the place of a leading
zero, stand around two dashes. -/
def Written (d : Date) (literal : List Char) : Prop :=
  ∃ y m x, literal = y ++ '-' :: (m ++ '-' :: x) ∧
    Signed (padZeros 4 d.year.toNat).toList y ∧ Signed (padZeros 2 d.month.toNat).toList m ∧
    Signed (padZeros 2 d.day.toNat).toList x

/-- A dash is not part of a field. -/
theorem dash_not_mem_of_signed {m : Nat} (h : Signed (padZeros width m).toList text) :
    '-' ∉ text := by
  intro hdash
  rcases h.isDigit_or_eq (fun _ hc => Text.isDigit_of_mem_padZeros hc) '-' hdash with hc | hc
  · exact absurd hc (by decide)
  · exact absurd hc (by decide)

/-- A literal is read as a date exactly if the date is in range and the literal writes it. -/
theorem parse_eq_ok_iff_written {literal : String} :
    parse literal = .ok d ↔ d.InRange ∧ d.Written literal.toList := by
  rw [parse_eq_ok_iff]
  refine and_congr_right fun hrange => ?_
  obtain ⟨hyear, hmonth, hday⟩ := hrange.length_toDigits_le
  simp only [readField_eq_ok_iff (by decide) hyear, readField_eq_ok_iff (by decide) hmonth,
    readField_eq_ok_iff (by decide) hday, Text.fields_eq_three_iff]
  constructor
  · rintro ⟨y, m, x, ⟨_, hliteral⟩, hfields⟩
    exact ⟨y, m, x, hliteral, hfields⟩
  · rintro ⟨y, m, x, hliteral, hy, hm, hx⟩
    exact ⟨y, m, x, ⟨⟨dash_not_mem_of_signed hy, dash_not_mem_of_signed hm,
      dash_not_mem_of_signed hx⟩, hliteral⟩, hy, hm, hx⟩

/-- The text of a date is its padded fields with dashes between them. -/
theorem toList_text (d : Date) : d.text.toList = (padZeros 4 d.year.toNat).toList ++
    '-' :: ((padZeros 2 d.month.toNat).toList ++ '-' :: (padZeros 2 d.day.toNat).toList) := by
  have hdash : "-".toList = ['-'] := rfl
  simp only [text, String.toList_append, hdash, List.append_assoc, List.cons_append,
    List.nil_append]

/-- The text of a date writes the date. -/
theorem written_text (d : Date) : d.Written d.text.toList :=
  ⟨_, _, _, d.toList_text, .inl rfl, .inl rfl, .inl rfl⟩

/-- Without a plus sign the date is written in no other way than it is printed. -/
theorem Written.eq_text {literal : String} (h : d.Written literal.toList)
    (hplus : '+' ∉ literal.toList) : literal = d.text := by
  obtain ⟨y, m, x, hliteral, hy, hm, hx⟩ := h
  simp only [hliteral, List.mem_append, List.mem_cons, not_or] at hplus
  obtain ⟨hy', _, hm', _, hx'⟩ := hplus
  refine String.toList_inj.mp ?_
  rw [hliteral, toList_text, (Text.signed_iff_eq hy').mp hy, (Text.signed_iff_eq hm').mp hm,
    (Text.signed_iff_eq hx').mp hx]

/-- Which texts are read as a date. The date has its fields in their ranges, and the text has
each of them as it is printed or with a plus sign in the place of a leading zero. So the printed
date is read as the date, and what is read from a text without a plus sign is printed as that
text. -/
theorem parse_exact (literal : String) (d : Date) :
    (parse literal = .ok d ↔ d.InRange ∧ d.Written literal.toList) ∧
    (d.InRange → parse d.text = .ok d) ∧
    ('+' ∉ literal.toList → (parse literal = .ok d ↔ d.InRange ∧ literal = d.text)) := by
  refine ⟨parse_eq_ok_iff_written, fun hrange => ?_, fun hplus => ?_⟩
  · exact parse_eq_ok_iff_written.mpr ⟨hrange, d.written_text⟩
  · rw [parse_eq_ok_iff_written]
    refine and_congr_right fun _ => ⟨fun hwritten => hwritten.eq_text hplus, ?_⟩
    rintro rfl
    exact d.written_text

/-- The ninth of March is read from its printed text, and printed as it is read. -/
theorem parse_exact_sample :
    parse "2024-03-09" = .ok ⟨2024, 3, 9⟩ ∧ "2024-03-09" = (⟨2024, 3, 9⟩ : Date).text := by
  have hexact := parse_exact "2024-03-09" ⟨2024, 3, 9⟩
  have htext : (⟨2024, 3, 9⟩ : Date).text = "2024-03-09" := by decide
  have hread : parse "2024-03-09" = .ok ⟨2024, 3, 9⟩ := htext ▸ hexact.2.1 (by decide)
  exact ⟨hread, ((hexact.2.2 (by decide)).mp hread).2⟩

/-- A text with a plus sign is read as a date, which is printed without it. -/
theorem parse_signed :
    parse "2024-+3-09" = .ok ⟨2024, 3, 9⟩ ∧ "2024-+3-09" ≠ (⟨2024, 3, 9⟩ : Date).text := by
  have htext : (⟨2024, 3, 9⟩ : Date).text = "2024-03-09" := by decide
  have hwritten : Written ⟨2024, 3, 9⟩ "2024-+3-09".toList :=
    ⟨"2024".toList, "+3".toList, "09".toList, rfl, .inl (by decide),
      .inr ⟨['3'], by decide, rfl⟩, .inl (by decide)⟩
  have hread : parse "2024-+3-09" = .ok ⟨2024, 3, 9⟩ :=
    parse_eq_ok_iff_written.mpr ⟨by decide, hwritten⟩
  exact ⟨hread, htext ▸ by decide⟩

end Date

end RelationalStore
