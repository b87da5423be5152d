import Provision.Json.Printer
import Provision.Json.Reader

/-!
# Reading back texts and integers

* `Json.readString_quote`: a text between quotes is read as it was.
* `Json.readNumeral_toDigits`, `Json.number?_int`: the numeral of an integer that 64 bits hold is
  read as this integer.
-/

namespace Provision

namespace Json

/-! ## Texts -/

theorem hexNumber?_digits : ∀ n < 32,
    hexNumber? ['0', '0', Nat.digitChar (n / 16), Nat.digitChar (n % 16)] = some n := by
  decide

/-- What `escape` wrote for a character is read as its code point, whether it is two characters, six
of them or the one itself. -/
theorem readUnits_escape (c : Char) {cs rest : List Char} {ns : List Nat}
    (h : readUnits cs = some (ns, rest)) :
    readUnits (escape c ++ cs) = some (c.toNat :: ns, rest) := by
  unfold escape
  split
  case h_8 _ hq hb _ _ _ _ _ =>
    split
    · next hc =>
      show readUnits ('\\' :: 'u' :: '0' :: '0' :: Nat.digitChar (c.toNat / 16) ::
        Nat.digitChar (c.toNat % 16) :: cs) = _
      rw [readUnits, hexNumber?_digits _ hc, h]
      rfl
    · next hc =>
      rw [List.singleton_append, readUnits, if_neg (not_or.mpr ⟨hc, hb⟩), h]
      · rfl
      · exact hq
      · rintro _ _ _ _ _ rfl
        exact absurd rfl hb
      · rintro _ _ rfl
        exact absurd rfl hb
  all_goals simp [readUnits, unescape?, h]

theorem not_surrogate (c : Char) : ¬ (0xd800 ≤ c.toNat ∧ c.toNat < 0xe000) := by
  have hc : c.toNat.isValidChar := c.valid
  unfold Nat.isValidChar at hc
  omega

/-- No character is half of a surrogate pair, so `joinUnits?` joins nothing of what was printed. -/
theorem joinUnits?_map : ∀ cs : List Char, joinUnits? (cs.map Char.toNat) = some cs
  | [] => rfl
  | [c] => by
    rw [List.map_cons, List.map_nil, joinUnits?, if_neg (not_surrogate c), Char.ofNat_toNat]
  | c :: d :: cs => by
    have ih := joinUnits?_map (d :: cs)
    have hc := not_surrogate c
    rw [List.map_cons] at ih
    rw [List.map_cons, List.map_cons, joinUnits?, if_neg (by omega), if_neg (by omega), ih,
      Char.ofNat_toNat]
    rfl

/-- A text between quotes is read as it was, up to the closing quote: a quote in the text was
escaped. -/
theorem readString_quote (s : String) (rest : List Char) :
    readString (s.toList.flatMap escape ++ '"' :: rest) = some (some s, rest) := by
  have hunits : ∀ cs : List Char,
      readUnits (cs.flatMap escape ++ '"' :: rest) = some (cs.map Char.toNat, rest) := by
    intro cs
    induction cs with
    | nil => rw [List.flatMap_nil, List.nil_append, readUnits]; rfl
    | cons c cs ih =>
      rw [List.flatMap_cons, List.append_assoc]
      exact readUnits_escape c ih
  rw [readString, hunits]
  simp [joinUnits?_map]

/-! ## Integers -/

/-- What stands after a value in a printed document: nothing, a comma or a line break. -/
def Ends : List Char → Prop
  | [] => True
  | c :: _ => c = ',' ∨ c = '\n'

/-- The decimal digits, most significant first. -/
def digits (n : Nat) : List Nat := (Nat.toDigits 10 n).map fun c => c.toNat - '0'.toNat

theorem digits_of_lt {n : Nat} (h : n < 10) : digits n = [n] := by
  rw [digits, Nat.toDigits_of_lt_base h, List.map_singleton,
    show '0'.toNat = 48 from rfl, Nat.toNat_digitChar_sub_48_of_lt_ten h]

theorem digits_of_le {n : Nat} (h : 10 ≤ n) : digits n = digits (n / 10) ++ [n % 10] := by
  rw [digits, Nat.toDigits_of_base_le (by decide) h, List.map_append, List.map_singleton,
    show '0'.toNat = 48 from rfl, Nat.toNat_digitChar_sub_48_of_lt_ten (Nat.mod_lt n (by decide))]
  rfl

theorem absorb_append {m k d : Nat} {ds : List Nat} (h : Numeral.absorb m ds = (k, []))
    (hd : k * 10 + d < UInt64.size) : Numeral.absorb m (ds ++ [d]) = (k * 10 + d, []) := by
  induction ds generalizing m with
  | nil =>
    obtain ⟨rfl, -⟩ := Prod.mk.inj h
    rw [List.nil_append, Numeral.absorb, if_pos hd, Numeral.absorb]
  | cons c ds ih =>
    rw [Numeral.absorb] at h
    split at h
    · next hc => rw [List.cons_append, Numeral.absorb, if_pos hc, ih h]
    · cases h

/-- `Numeral.absorb` stops where 64 bits overflow. The digits of a number below that are all
absorbed. -/
theorem absorb_digits {n : Nat} (h : n < UInt64.size) : Numeral.absorb 0 (digits n) = (n, []) := by
  induction n using Nat.strongRecOn with
  | ind n ih =>
    rcases Nat.lt_or_ge n 10 with hn | hn
    · have hn' : 0 * 10 + n = n := by omega
      rw [digits_of_lt hn, Numeral.absorb, if_pos (hn'.symm ▸ h), hn', Numeral.absorb]
    · rw [digits_of_le hn, absorb_append (ih (n / 10) (by omega) (by omega)) (by omega)]
      congr 1
      omega

/-- No zero stands before other digits, which `readNumeral` would refuse. -/
theorem head?_digits {n : Nat} (h : 0 < n) : (digits n).head? ≠ some 0 := by
  induction n using Nat.strongRecOn with
  | ind n ih =>
    rcases Nat.lt_or_ge n 10 with hn | hn
    · rw [digits_of_lt hn]
      simpa using Nat.ne_of_gt h
    · have hne : digits (n / 10) ≠ [] := by simp [digits, Nat.toDigits_ne_nil]
      rw [digits_of_le hn, List.head?_append, Option.or_of_isSome (by simpa [List.isSome_head?])]
      exact ih (n / 10) (by omega) (by omega)

theorem wellFormed_digits (n : Nat) :
    ¬ ((digits n).isEmpty ∨ ((digits n).head? = some 0 ∧ 1 < (digits n).length)) := by
  rintro (h | ⟨h0, h1⟩)
  · simp [digits, Nat.toDigits_ne_nil] at h
  · rcases Nat.eq_zero_or_pos n with rfl | hn
    · simp [digits] at h1
    · exact head?_digits hn h0

/-- A numeral starts with a digit, so its sign is told from it. -/
theorem exists_toDigits_eq_cons (n : Nat) :
    ∃ c ds, Nat.toDigits 10 n = c :: ds ∧ c.isDigit = true := by
  obtain ⟨c, ds, hds⟩ := List.exists_cons_of_ne_nil (Nat.toDigits_ne_nil (n := n) (b := 10))
  have hc := Nat.isDigit_of_mem_toDigits (by decide) (by decide) (hds ▸ List.mem_cons_self)
  exact ⟨c, ds, hds, hc⟩

/-- All digits are read, and no more: `Ends` says that `rest` starts with none. -/
theorem readDigits_toDigits (n : Nat) {rest : List Char} (h : Ends rest) :
    readDigits (Nat.toDigits 10 n ++ rest) = (digits n, rest) := by
  have hall : ∀ c ∈ Nat.toDigits 10 n, ('0' ≤ c && c ≤ '9') = true := by
    intro c hc
    have := Nat.isDigit_of_mem_toDigits (by decide) (by decide) hc
    simpa [Char.isDigit, Char.le_def] using this
  have hrest : rest.takeWhile (fun c => '0' ≤ c && c ≤ '9') = [] ∧
      rest.dropWhile (fun c => '0' ≤ c && c ≤ '9') = rest := by
    cases rest with
    | nil => exact ⟨rfl, rfl⟩
    | cons c rest => rcases h with rfl | rfl <;> exact ⟨rfl, rfl⟩
  unfold readDigits
  dsimp only
  rw [List.takeWhile_append_of_pos hall, List.dropWhile_append_of_pos hall, hrest.1, hrest.2,
    List.append_nil]
  rfl

/-- A numeral is read up to its end, with its sign and without fraction or exponent. This is where
`Ends` is needed: a point or an `e` after it would be taken for a part of it. -/
theorem readNumeral_toDigits (n : Nat) {rest : List Char} (h : Ends rest) :
    readNumeral (Nat.toDigits 10 n ++ rest) = some (⟨false, digits n, none, none⟩, rest) ∧
      readNumeral ('-' :: (Nat.toDigits 10 n ++ rest)) =
        some (⟨true, digits n, none, none⟩, rest) := by
  have htail : readFraction rest = some (none, rest) ∧ readExponent rest = some (none, rest) := by
    cases rest with
    | nil => exact ⟨rfl, rfl⟩
    | cons c rest => rcases h with rfl | rfl <;> exact ⟨rfl, rfl⟩
  -- the digits do not start with a sign, so the branch for one is only taken where it stands
  have hsign : ∀ cs, Nat.toDigits 10 n ++ rest ≠ '-' :: cs := by
    intro cs he
    obtain ⟨c, ds, hds, hc⟩ := exists_toDigits_eq_cons n
    rw [hds, List.cons_append] at he
    rw [(List.cons.inj he).1] at hc
    exact absurd hc (by decide)
  constructor
  · unfold readNumeral
    split
    next negative cs hm =>
    split at hm
    · next heq => exact absurd heq (hsign _)
    · obtain ⟨rfl, rfl⟩ := Prod.mk.inj hm
      rw [readDigits_toDigits n h]
      dsimp only
      rw [if_neg (wellFormed_digits n), htail.1, Option.bind_eq_bind, Option.bind_some]
      dsimp only
      rw [htail.2]
      rfl
  · unfold readNumeral
    split
    next negative cs hm =>
    split at hm
    · next heq =>
      obtain ⟨rfl, rfl⟩ := Prod.mk.inj hm
      obtain rfl := (List.cons.inj heq).2
      rw [readDigits_toDigits n h]
      dsimp only
      rw [if_neg (wellFormed_digits n), htail.1, Option.bind_eq_bind, Option.bind_some]
      dsimp only
      rw [htail.2]
      rfl
    · next hne => exact absurd rfl (hne _)

theorem toList_toString (i : Int) : (toString i).toList =
    if i < 0 then '-' :: Nat.toDigits 10 i.natAbs else Nat.toDigits 10 i.natAbs := by
  rw [Int.toString_eq_repr, Int.repr_eq_if]
  by_cases hi : i < 0
  · rw [if_neg (by omega), if_pos hi, String.toList_append, Nat.toList_repr,
      show (-i).toNat = i.natAbs by omega]
    rfl
  · rw [if_pos (by omega), if_neg hi, Nat.toList_repr, show i.toNat = i.natAbs by omega]

/-- The digits and the sign stand for the integer. Below zero the bound is half of that above, hence
`2 * i`. -/
theorem number?_int {i : Int} (h : -UInt64.size ≤ 2 * i) (h' : i < UInt64.size) :
    (⟨decide (i < 0), digits i.natAbs, none, none⟩ : Numeral).number? = some (.int i) := by
  unfold Numeral.number?
  dsimp only
  rw [absorb_digits (by omega)]
  rcases Decidable.em (i < 0) with hi | hi
  · rw [decide_eq_true hi]
    dsimp only
    rw [if_pos (by omega)]
    congr 2
    omega
  · rw [decide_eq_false (by omega)]
    dsimp only
    congr 2
    omega

end Json

end Provision
