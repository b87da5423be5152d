import Mathlib.Data.List.Induction
import Provision.Text

/-!
# Decimal numerals

* `Text.exists_zeros`: digits are zeros before the shortest digits of the number they spell.
* `Text.natural?_eq_some_iff`: a text is read as a number if and only if it is a numeral of it,
  perhaps with a plus and zeros in front, and 64 bits hold the number.
-/

namespace Provision

namespace Text

theorem isDigit_iff {c : Char} : c.isDigit = true ↔ '0' ≤ c ∧ c ≤ '9' := by
  simp [Char.isDigit, Char.le_def]

/-- What `Char.isDigit` accepts is a `Nat.digitChar` below ten, the form in which the library speaks
of digits. -/
theorem exists_digitChar {c : Char} (h : c.isDigit = true) : ∃ d < 10, c = Nat.digitChar d := by
  obtain ⟨hlow, hhigh⟩ := isDigit_iff.mp h
  have hlow : 48 ≤ c.toNat := hlow
  have hhigh : c.toNat ≤ 57 := hhigh
  refine ⟨c.toNat - 48, by omega, Char.toNat_inj.mp ?_⟩
  rw [Nat.toNat_digitChar_of_lt_ten (by omega)]
  omega

/-- One more digit on the right, for the induction of `exists_zeros`, which takes digits off that
end. -/
theorem ofDigitChars_concat (ds : List Char) {d : Nat} (h : d < 10) :
    Nat.ofDigitChars 10 (ds ++ [Nat.digitChar d]) 0 = 10 * Nat.ofDigitChars 10 ds 0 + d := by
  rw [Nat.ofDigitChars_append, Nat.ofDigitChars_cons_digitChar_of_lt_ten h, Nat.ofDigitChars_nil]

theorem ofDigitChars_zeros (zeros n : Nat) :
    Nat.ofDigitChars 10 (List.replicate zeros '0' ++ Nat.toDigits 10 n) 0 = n := by
  rw [Nat.ofDigitChars_append, Nat.ofDigitChars_replicate_zero, Nat.mul_zero,
    Nat.ofDigitChars_ten_toDigits]

/-- Digits are zeros before `Nat.toDigits` of the number that they spell. So `IsNumeral` covers
every text of digits, whatever its length. -/
theorem exists_zeros {ds : List Char} (hd : ∀ c ∈ ds, c.isDigit = true) (hne : ds ≠ []) :
    ∃ zeros, ds = List.replicate zeros '0' ++ Nat.toDigits 10 (Nat.ofDigitChars 10 ds 0) := by
  -- from the right, where `Nat.toDigits` adds its digits
  induction ds using List.reverseRecOn with
  | nil => exact absurd rfl hne
  | append_singleton ds c ih =>
    obtain ⟨d, hlt, rfl⟩ := exists_digitChar (hd c (by simp))
    have hd : ∀ c ∈ ds, c.isDigit = true := fun c hc => hd c (List.mem_append_left _ hc)
    have hlast : [Nat.digitChar d] = Nat.toDigits 10 d := (Nat.toDigits_of_lt_base hlt).symm
    rw [ofDigitChars_concat ds hlt, hlast]
    by_cases hds : ds = []
    · subst hds
      exact ⟨0, by simp [Nat.ofDigitChars_nil]⟩
    · obtain ⟨zeros, hzeros⟩ := ih hd hds
      rcases Nat.eq_zero_or_pos (Nat.ofDigitChars 10 ds 0) with hz | hpos
      · -- only zeros so far, so the last digit is the number
        rw [hz, Nat.mul_zero, Nat.zero_add]
        rw [hz, Nat.toDigits_zero, ← List.replicate_succ'] at hzeros
        exact ⟨zeros + 1, by rw [← hzeros]⟩
      · refine ⟨zeros, ?_⟩
        rw [← Nat.toDigits_append_toDigits (by decide) hpos hlt, ← List.append_assoc, ← hzeros]

/-- A decimal numeral of `n`: its shortest digits, perhaps with a plus and zeros in front. -/
def IsNumeral (n : Nat) (s : String) : Prop :=
  ∃ sign zeros, (sign = [] ∨ sign = ['+']) ∧
    s.toList = sign ++ (List.replicate zeros '0' ++ Nat.toDigits 10 n)

theorem isDigit_of_mem_numeral {zeros n : Nat} {c : Char}
    (h : c ∈ List.replicate zeros '0' ++ Nat.toDigits 10 n) : c.isDigit = true := by
  rcases List.mem_append.mp h with h | h
  · rw [List.eq_of_mem_replicate h]
    rfl
  · exact Nat.isDigit_of_mem_toDigits (by decide) (by decide) h

/-- `natural?` taken apart once: a plus at the start is put aside, and the rest is read if it is
digits of a number that 64 bits hold. Without a plus the rest is the whole text, and does not start
with one. -/
theorem natural?_eq (s : String) : ∃ sign ds, (sign = [] ∨ sign = ['+']) ∧ s.toList = sign ++ ds ∧
    (sign = [] → ∀ cs, ds ≠ '+' :: cs) ∧
    ∀ n, natural? s = some n ↔ (ds ≠ [] ∧ ∀ c ∈ ds, c.isDigit = true) ∧
      Nat.ofDigitChars 10 ds 0 = n ∧ n < UInt64.size := by
  -- what is done with the digits, which is the same with and without a plus
  have hread (ds : List Char) (n : Nat) :
      (if (ds.isEmpty || ds.any fun c => c < '0' || '9' < c) = true then none
        else if ds.foldl (fun n c => 10 * n + (c.toNat - '0'.toNat)) 0 < UInt64.size then
          some (ds.foldl (fun n c => 10 * n + (c.toNat - '0'.toNat)) 0) else none) = some n ↔
        (ds ≠ [] ∧ ∀ c ∈ ds, c.isDigit = true) ∧ Nat.ofDigitChars 10 ds 0 = n ∧
          n < UInt64.size := by
    have hbad : (ds.isEmpty || ds.any fun c => c < '0' || '9' < c) = true ↔
        ¬ (ds ≠ [] ∧ ∀ c ∈ ds, c.isDigit = true) := by
      simp only [Bool.or_eq_true, List.isEmpty_iff, List.any_eq_true, decide_eq_true_eq,
        isDigit_iff, ne_eq, not_and_or, not_not, not_forall, Char.not_le, exists_prop]
    rw [← Nat.ofDigitChars_eq_foldl]
    by_cases h : ds ≠ [] ∧ ∀ c ∈ ds, c.isDigit = true
    · rw [if_neg (fun hb => hbad.mp hb h), Option.ite_none_right_eq_some, Option.some_inj]
      constructor
      · rintro ⟨hn, rfl⟩
        exact ⟨h, rfl, hn⟩
      · rintro ⟨-, rfl, hn⟩
        exact ⟨hn, rfl⟩
    · rw [if_pos (hbad.mpr h)]
      exact ⟨nofun, fun hg => absurd hg.1 h⟩
  unfold natural?
  dsimp only
  split
  · next cs hs => exact ⟨['+'], cs, .inr rfl, hs, nofun, hread cs⟩
  · next hs => exact ⟨[], s.toList, .inl rfl, rfl, fun _ => hs, hread s.toList⟩

/-- **Numbers.** `natural?` reads exactly the numerals of numbers that 64 bits hold. Zeros in front
are read however many they are; a minus is not, not even before a zero. -/
theorem natural?_eq_some_iff {s : String} {n : Nat} :
    natural? s = some n ↔ n < UInt64.size ∧ IsNumeral n s := by
  obtain ⟨sign, ds, hsign, hs, hplus, hread⟩ := natural?_eq s
  rw [hread]
  constructor
  · rintro ⟨⟨hne, hds⟩, rfl, hn⟩
    obtain ⟨zeros, hzeros⟩ := exists_zeros hds hne
    exact ⟨hn, sign, zeros, hsign, by rw [hs, ← hzeros]⟩
  · rintro ⟨hn, sign', zeros, hsign', hs'⟩
    have hne : List.replicate zeros '0' ++ Nat.toDigits 10 n ≠ [] := by
      simp [Nat.toDigits_ne_nil]
    -- no digits start with a plus, so there is one way to take the sign off
    have hds : ds = List.replicate zeros '0' ++ Nat.toDigits 10 n := by
      have hs := hs.symm.trans hs'
      rcases hsign with rfl | rfl <;> rcases hsign' with rfl | rfl
      · exact hs
      · exact absurd hs (hplus rfl _)
      · have : '+' ∈ List.replicate zeros '0' ++ Nat.toDigits 10 n := hs ▸ List.mem_cons_self
        exact absurd (isDigit_of_mem_numeral this) (by decide)
      · exact (List.cons.inj hs).2
    subst hds
    exact ⟨⟨hne, fun c hc => isDigit_of_mem_numeral hc⟩, ofDigitChars_zeros zeros n, hn⟩

/-- The text that a number is printed as is an `IsNumeral` of it, so every number has one. -/
theorem isNumeral_toString (n : Nat) : IsNumeral n (toString n) :=
  ⟨[], 0, .inl rfl, by simp⟩

end Text

end Provision
