import Mathlib.Data.List.TakeWhile
import Provision.Proofs.Text.Digits
import Provision.Timestamp.Reader

/-!
# Timestamps read back

* `Timestamp.readNumber_padded`, `readYear_yearText`, `readFraction_fractionText`: what is read of
  each part of a text.
* `Timestamp.ofText?_text`: so the text of every timestamp is read as that timestamp.
-/

namespace Provision

namespace Timestamp

open Text (trimStart isBlank)

/-! ## Digits -/

/-- The one unfolding of `padded`: all that follows sees zeros before `Nat.toDigits`. -/
theorem toList_padded (width n : Nat) : (padded width n).toList =
    List.replicate (width - (Nat.toDigits 10 n).length) '0' ++ Nat.toDigits 10 n :=
  String.toList_ofList

theorem isDigit_of_mem_padded {width n : Nat} {c : Char} (h : c ∈ (padded width n).toList) :
    c.isDigit = true :=
  Text.isDigit_of_mem_numeral (toList_padded width n ▸ h)

theorem number_padded (width n : Nat) : number (padded width n).toList = n := by
  rw [toList_padded]
  exact Text.ofDigitChars_zeros _ n

/-- A `padded` number has a first digit, which is what tells a year without a sign from one with
it. -/
theorem exists_padded (width n : Nat) :
    ∃ c cs, (padded width n).toList = c :: cs ∧ c.isDigit = true := by
  have hne : (padded width n).toList ≠ [] := by
    rw [toList_padded]
    exact List.append_ne_nil_of_right_ne_nil _ Nat.toDigits_ne_nil
  obtain ⟨c, cs, hcs⟩ := List.exists_cons_of_ne_nil hne
  exact ⟨c, cs, hcs, isDigit_of_mem_padded (hcs ▸ List.mem_cons_self)⟩

theorem isEmpty_padded (width n : Nat) : ¬ (padded width n).toList.isEmpty = true := by
  obtain ⟨c, cs, hcs, -⟩ := exists_padded width n
  rw [hcs]
  exact Bool.false_ne_true

/-- A number that is not too great for `width` is written with just that many digits. A greater one
is not cut off, so the bound is needed. -/
theorem length_padded {width n : Nat} (hw : 0 < width) (hn : n < Nat.pow 10 width) :
    (padded width n).toList.length = width := by
  have := (Nat.length_toDigits_le_iff (by decide) hw).mpr hn
  rw [toList_padded, List.length_append, List.length_replicate]
  omega

theorem isBlank_of_isDigit {c : Char} (h : c.isDigit = true) : isBlank c = false := by
  obtain ⟨d, hd, rfl⟩ := Text.exists_digitChar h
  decide +revert

theorem trimStart_padded (width n : Nat) (rest : List Char) :
    trimStart ((padded width n).toList ++ rest) = (padded width n).toList ++ rest := by
  obtain ⟨c, cs, hcs, hc⟩ := exists_padded width n
  rw [hcs, List.cons_append]
  exact List.dropWhile_cons_of_neg (by simp [isBlank_of_isDigit hc])

/-- Digits are read up to the next other character `c`, so a number needs no width of its own where
one follows. -/
theorem takeWhile_padded (width n : Nat) {c : Char} (hc : c.isDigit = false) (rest : List Char) :
    ((padded width n).toList ++ c :: rest).takeWhile Char.isDigit = (padded width n).toList := by
  rw [List.takeWhile_append_of_pos fun _ => isDigit_of_mem_padded,
    List.takeWhile_cons_of_neg (by simp [hc]), List.append_nil]

theorem dropWhile_padded (width n : Nat) {c : Char} (hc : c.isDigit = false) (rest : List Char) :
    ((padded width n).toList ++ c :: rest).dropWhile Char.isDigit = c :: rest := by
  rw [List.dropWhile_append_of_pos fun _ => isDigit_of_mem_padded,
    List.dropWhile_cons_of_neg (by simp [hc])]

/-! ## The parts of a text -/

/-- `readNumber` stops after `width` digits, whatever `rest` is: `rest` may start with a digit. -/
theorem readNumber_padded {width n : Nat} (hw : 0 < width) (hn : n < Nat.pow 10 width)
    (rest : List Char) :
    readNumber width ((padded width n).toList ++ rest) = some (n, rest) := by
  have htake : (((padded width n).toList ++ rest).take width).takeWhile Char.isDigit =
      (padded width n).toList := by
    rw [List.take_left' (length_padded hw hn), List.takeWhile_eq_self_iff]
    exact fun _ => isDigit_of_mem_padded
  unfold readNumber
  dsimp only
  rw [trimStart_padded, htake, if_neg (isEmpty_padded width n), number_padded, List.drop_left]

/-- `readMark` skips blanks before the mark, so a mark that is a blank would be lost. -/
theorem readMark_cons {mark : Char} (hm : isBlank mark = false) (cs : List Char) :
    readMark mark (mark :: cs) = some cs := by
  have htrim : trimStart (mark :: cs) = mark :: cs :=
    List.dropWhile_cons_of_neg (by simp [hm])
  unfold readMark
  rw [htrim]
  exact if_pos rfl

theorem toList_signed (sign : Char) (s : String) (rest : List Char) :
    (String.singleton sign ++ s).toList ++ rest = sign :: (s.toList ++ rest) := by
  rw [String.toList_append, String.toList_singleton]
  rfl

/-- Years with a sign: `readYear` takes all digits up to the mark, so the year may have more than
the four that `padded` writes at least. -/
theorem readYear_signed {sign : Char} {year : Int}
    (h : sign = '-' ∧ year ≤ 0 ∨ sign = '+' ∧ 0 ≤ year) (rest : List Char) :
    readYear ((String.singleton sign ++ padded 4 year.natAbs).toList ++ '-' :: rest) =
      some (year, '-' :: rest) := by
  rw [toList_signed]
  have htrim : trimStart (sign :: ((padded 4 year.natAbs).toList ++ '-' :: rest)) =
      sign :: ((padded 4 year.natAbs).toList ++ '-' :: rest) :=
    List.dropWhile_cons_of_neg (by rcases h with ⟨rfl, -⟩ | ⟨rfl, -⟩ <;> decide)
  have htake := takeWhile_padded 4 year.natAbs (c := '-') rfl rest
  unfold readYear
  dsimp only
  rw [htrim]
  -- the sign has to be known before `readYear` chooses its branch
  rcases h with ⟨rfl, hy⟩ | ⟨rfl, hy⟩
  · have habs : (-1 : Int) * year.natAbs = year := by omega
    simp only [htake, if_neg (isEmpty_padded 4 _), number_padded, List.drop_left, habs]
  · have habs : (1 : Int) * year.natAbs = year := by omega
    simp only [htake, if_neg (isEmpty_padded 4 _), number_padded, List.drop_left, habs]

/-- `yearText` writes a sign exactly where four digits do not do, and `readYear` reads all three
forms back. -/
theorem readYear_yearText (year : Int) (rest : List Char) :
    readYear ((yearText year).toList ++ '-' :: rest) = some (year, '-' :: rest) := by
  unfold yearText
  split
  · next hy =>
    obtain ⟨n, rfl⟩ := Int.eq_ofNat_of_zero_le hy.1
    have hread : readNumber 4 ((padded 4 n).toList ++ '-' :: rest) = some (n, '-' :: rest) :=
      readNumber_padded (by decide) (show n < 10000 by omega) _
    -- the first character is a digit, so neither sign is taken off
    obtain ⟨c, cs, hcs, hc⟩ := exists_padded 4 n
    have hdigit {d : Char} {ds : List Char} (h : (padded 4 n).toList ++ '-' :: rest = d :: ds) :
        d.isDigit = true := by
      rw [hcs] at h
      exact (List.cons.inj h).1 ▸ hc
    unfold readYear
    rw [Int.toNat_natCast, trimStart_padded]
    dsimp only
    split
    · next h => exact absurd (hdigit h) (by decide)
    · next h => exact absurd (hdigit h) (by decide)
    · rw [hread]
      rfl
  · split
    · exact readYear_signed (.inl ⟨rfl, by omega⟩) rest
    · exact readYear_signed (.inr ⟨rfl, by omega⟩) rest

/-- A fraction of `width` digits counts in `10 ^ (9 - width)` nanoseconds, however many digits were
written. -/
theorem readFraction_padded {width n nanosecond : Nat} (hw : 0 < width ∧ width ≤ 9)
    (hn : n < Nat.pow 10 width) (h : n * Nat.pow 10 (9 - width) = nanosecond) (rest : List Char) :
    readFraction (("." ++ padded width n).toList ++ 'Z' :: rest) =
      some (nanosecond, 'Z' :: rest) := by
  subst h
  have hlength := length_padded hw.1 hn
  have htake : (((padded width n).toList ++ 'Z' :: rest).take 9).takeWhile Char.isDigit =
      (padded width n).toList := by
    rw [← List.take_takeWhile, takeWhile_padded width n rfl, List.take_of_length_le (by omega)]
  have hpoint : "." = String.singleton '.' := rfl
  rw [hpoint, toList_signed, readFraction, htake, if_neg (isEmpty_padded width n), number_padded,
    hlength, dropWhile_padded width n rfl]

/-- `fractionText` writes nothing, or three, six or nine digits: the fewest that lose nothing. All
four are read back. -/
theorem readFraction_fractionText {nanosecond : Nat} (hn : nanosecond < 1000000000)
    (rest : List Char) :
    readFraction ((fractionText nanosecond).toList ++ 'Z' :: rest) =
      some (nanosecond, 'Z' :: rest) := by
  unfold fractionText
  split
  · next h =>
    subst h
    rfl
  · split
    · exact readFraction_padded (by decide) (show nanosecond / 1000000 < 1000 by omega)
        (show nanosecond / 1000000 * 1000000 = nanosecond by omega) rest
    · split
      · exact readFraction_padded (by decide) (show nanosecond / 1000 < 1000000 by omega)
          (show nanosecond / 1000 * 1000 = nanosecond by omega) rest
      · exact readFraction_padded (by decide) hn (Nat.mul_one nanosecond) rest

/-! ## The whole text -/

theorem daysIn_le (year : Int) (month : Nat) : daysIn year month ≤ 31 := by
  unfold daysIn
  split
  · split <;> decide
  · split <;> decide

theorem toList_text (t : Timestamp) : t.text.toList =
    (yearText t.year).toList ++ '-' :: ((padded 2 t.month).toList ++
      '-' :: ((padded 2 t.day).toList ++ 'T' :: ((padded 2 t.hour).toList ++
        ':' :: ((padded 2 t.minute).toList ++ ':' :: ((padded 2 t.second).toList ++
          ((fractionText t.nanosecond).toList ++ ['Z'])))))) := by
  simp [text]

theorem readNumber_two {n : Nat} (hn : n < 100) (rest : List Char) :
    readNumber 2 ((padded 2 n).toList ++ rest) = some (n, rest) :=
  readNumber_padded (by decide) hn rest

/-- The step that `ofText?` repeats: a mark, then two digits. -/
theorem readMark_two {mark : Char} (hm : isBlank mark = false) {n : Nat} (hn : n < 100)
    (rest : List Char) :
    (readMark mark (mark :: ((padded 2 n).toList ++ rest)) >>= readNumber 2) = some (n, rest) := by
  rw [readMark_cons hm, Option.bind_eq_bind, Option.bind_some, readNumber_two hn]

/-- **Round trip.** `ofText?` reads the `text` of every timestamp as that timestamp. The last check
of `ofText?`, that the date is a possible one, is `Timestamp.possible`, which every timestamp
carries. -/
theorem ofText?_text (t : Timestamp) : ofText? t.text = some t := by
  obtain ⟨hyear, hmonth, hday, hhour, hminute, hsecond, hnanosecond⟩ := t.possible
  have hdays := daysIn_le t.year t.month
  have hof : of? t.year t.month t.day t.hour t.minute t.second t.nanosecond = some t :=
    dif_pos t.possible
  unfold ofText?
  rw [toList_text]
  -- one line for each part of the text, in its order
  refine Option.bind_eq_some_iff.mpr ⟨_, readYear_yearText _ _, ?_⟩
  refine Option.bind_eq_some_iff.mpr ⟨_, readMark_two (by decide) (by omega) _, ?_⟩
  refine Option.bind_eq_some_iff.mpr ⟨_, readMark_two (by decide) (by omega) _, ?_⟩
  dsimp only
  rw [if_pos (.inl rfl)]
  refine Option.bind_eq_some_iff.mpr ⟨_, rfl, ?_⟩
  refine Option.bind_eq_some_iff.mpr ⟨_, readNumber_two (by omega) _, ?_⟩
  refine Option.bind_eq_some_iff.mpr ⟨_, readMark_two (by decide) (by omega) _, ?_⟩
  refine Option.bind_eq_some_iff.mpr ⟨_, readMark_two (by decide) (by omega) _, ?_⟩
  refine Option.bind_eq_some_iff.mpr ⟨_, readFraction_fractionText hnanosecond _, ?_⟩
  exact Option.bind_eq_some_iff.mpr ⟨(0, []), rfl, Option.bind_eq_some_iff.mpr ⟨(), rfl,
    Option.bind_eq_some_iff.mpr ⟨(), rfl, Option.bind_eq_some_iff.mpr ⟨t, hof, rfl⟩⟩⟩⟩

end Timestamp

end Provision
