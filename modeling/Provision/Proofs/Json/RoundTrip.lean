import Provision.Proofs.Json.Scalars

/-!
# Reading back what was printed

* `Json.Plain`: documents without doubles, in which every text denotes a value.
* `Json.readItems_more`, `Json.readFields_more`: the steps of the reader, one item or field each.
* `Json.Readable`: a document is read from its text, whatever comes after. `Json.readable`: every
  plain document is.
* `Json.parse_pretty`: a plain document is what its text is parsed as.
-/

namespace Provision

/-- An integer that 64 bits hold, with a sign or without. -/
def Number.Integral : Number → Prop
  | .int i => -UInt64.size ≤ 2 * i ∧ i < UInt64.size
  | .float _ => False

namespace Json

mutual

/-- Every number is an integer that 64 bits hold, and every text denotes a value. -/
def Plain : Json → Prop
  | .number n => n.Integral
  | .array items => PlainItems items
  | .object fields => PlainFields fields
  | .unrepresentable => False
  | _ => True

/-- `Plain`, of every item. -/
def PlainItems : List Json → Prop
  | [] => True
  | j :: js => j.Plain ∧ PlainItems js

/-- `Plain`, of every field. -/
def PlainFields : List (String × Json) → Prop
  | [] => True
  | (_, j) :: fs => j.Plain ∧ PlainFields fs

end

theorem plainItems_map {α : Type} {f : α → Json} {xs : List α}
    (h : ∀ x ∈ xs, (f x).Plain) : PlainItems (xs.map f) := by
  induction xs with
  | nil => trivial
  | cons x xs ih =>
    obtain ⟨hx, hxs⟩ := List.forall_mem_cons.mp h
    exact ⟨hx, ih hxs⟩

/-! ## Blanks -/

theorem skipBlanks_newline (level : Nat) (cs : List Char) :
    skipBlanks ((newline level).toList ++ cs) = skipBlanks cs := by
  have hblanks : ∀ n, skipBlanks (List.replicate n ' ' ++ cs) = skipBlanks cs := by
    intro n
    induction n with
    | zero => rfl
    | succ n ih => simpa [List.replicate_succ, skipBlanks] using ih
  simpa [newline, skipBlanks] using hblanks (2 * level)

theorem skipBlanks_space (cs : List Char) : skipBlanks (' ' :: cs) = skipBlanks cs := rfl

theorem skipBlanks_skipBlanks (cs : List Char) : skipBlanks (skipBlanks cs) = skipBlanks cs := by
  induction cs with
  | nil => rfl
  | cons c cs ih =>
    by_cases hc : c = ' ' ∨ c = '\n' ∨ c = '\t' ∨ c = '\r' <;> simp [skipBlanks, hc, ih]

section

variable {cs ds : List Char} (h : skipBlanks cs = skipBlanks ds) (fuel : Nat)

include h

theorem readValue_congr : readValue fuel cs = readValue fuel ds := by
  cases fuel with
  | zero => rw [readValue, readValue]
  | succ fuel => rw [readValue, readValue, h]

theorem readItems_congr : readItems fuel cs = readItems fuel ds := by
  cases fuel with
  | zero => rw [readItems, readItems]
  | succ fuel => rw [readItems, readItems, readValue_congr h]

theorem readFields_congr : readFields fuel cs = readFields fuel ds := by
  cases fuel with
  | zero => rw [readFields, readFields]
  | succ fuel => rw [readFields, readFields, h]

end

/-- No value starts with a closing bracket, so an empty array is not taken for one with items. -/
theorem readValue_eq_none {fuel : Nat} {cs rest : List Char} (h : skipBlanks cs = ']' :: rest) :
    readValue fuel cs = none := by
  cases fuel with
  | zero => rw [readValue]
  | succ fuel =>
    rw [readValue, h]
    rfl

/-! ## Steps of the reader -/

/-- A value that starts with a sign or a digit is left to `readNumeral`. -/
theorem readValue_numeral {c : Char} (hc : c = '-' ∨ c.isDigit = true) (cs : List Char)
    (fuel : Nat) : readValue (fuel + 1) (c :: cs) = (do
      let (n, rest) ← readNumeral (c :: cs)
      return (n.number?.elim .unrepresentable .number, rest)) := by
  have hblank : skipBlanks (c :: cs) = c :: cs := by
    refine if_neg ?_
    rintro (rfl | rfl | rfl | rfl) <;> exact absurd hc (by decide)
  rw [readValue, hblank]
  split
  case h_7 => rfl
  all_goals
    next heq =>
      obtain rfl := (List.cons.inj heq).1
      exact absurd hc (by decide)

theorem readValue_int (i : Int) (fuel : Nat) {rest : List Char} (h : Ends rest)
    (hi : -UInt64.size ≤ 2 * i) (hi' : i < UInt64.size) :
    readValue (fuel + 1) ((toString i).toList ++ rest) = some (.number (.int i), rest) := by
  obtain ⟨hnat, hneg⟩ := readNumeral_toDigits i.natAbs h
  have hnumber := number?_int hi hi'
  rw [toList_toString]
  by_cases hlt : i < 0
  · rw [decide_eq_true hlt] at hnumber
    rw [if_pos hlt, List.cons_append, readValue_numeral (.inl rfl), hneg]
    simp [hnumber]
  · rw [decide_eq_false hlt] at hnumber
    obtain ⟨c, ds, hds, hc⟩ := exists_toDigits_eq_cons i.natAbs
    rw [if_neg hlt]
    rw [hds, List.cons_append] at hnat ⊢
    rw [readValue_numeral (.inr hc), hnat]
    simp [hnumber]

theorem ofFields_map (fs : List (String × Json)) :
    ofFields (fs.map fun f => (some f.1, f.2)) = .object fs := by
  have hmap : ((fs.map fun f => (some f.1, f.2)).mapM fun f => f.1.map (·, f.2)) = some fs := by
    induction fs with
    | nil => rfl
    | cons f fs ih => simp [List.mapM_cons, ih]
  rw [ofFields, hmap]

section

variable {fuel : Nat} {cs ds es rest : List Char} {j : Json} {js : List Json}

theorem readValue_of_items (h : readItems fuel cs = some (js, rest)) :
    readValue (fuel + 1) ('[' :: cs) = some (.array js, rest) := by
  have hblank : skipBlanks ('[' :: cs) = '[' :: cs := rfl
  rw [readValue, hblank]
  split
  case h_5 heq =>
    obtain rfl := (List.cons.inj heq).2
    split
    · next heq =>
      cases fuel with
      | zero => rw [readItems] at h; cases h
      | succ fuel =>
        rw [readItems, readValue_eq_none heq] at h
        cases h
    · rw [readItems_congr (skipBlanks_skipBlanks _), h]
      rfl
  case h_7 hne _ => exact (hne _ rfl).elim
  all_goals
    next heq => exact absurd (List.cons.inj heq).1 (by decide)

theorem readValue_of_fields {fs : List (String × Json)}
    (h : readFields fuel cs = some (fs.map fun f => (some f.1, f.2), rest)) :
    readValue (fuel + 1) ('{' :: cs) = some (.object fs, rest) := by
  have hblank : skipBlanks ('{' :: cs) = '{' :: cs := rfl
  rw [readValue, hblank]
  split
  case h_6 heq =>
    obtain rfl := (List.cons.inj heq).2
    split
    · next heq =>
      cases fuel with
      | zero => rw [readFields] at h; cases h
      | succ fuel =>
        rw [readFields, heq] at h
        cases h
    · rw [readFields_congr (skipBlanks_skipBlanks _), h]
      exact congrArg (fun j => some (j, rest)) (ofFields_map fs)
  case h_7 hne => exact (hne _ rfl).elim
  all_goals
    next heq => exact absurd (List.cons.inj heq).1 (by decide)

theorem readItems_last (h : readValue fuel cs = some (j, ds)) (hd : skipBlanks ds = ']' :: rest) :
    readItems (fuel + 1) cs = some ([j], rest) := by
  rw [readItems, h, Option.bind_eq_bind, Option.bind_some]
  dsimp only
  rw [hd]
  rfl

theorem readItems_more (h : readValue fuel cs = some (j, ds)) (hd : skipBlanks ds = ',' :: es)
    (hes : readItems fuel es = some (js, rest)) :
    readItems (fuel + 1) cs = some (j :: js, rest) := by
  rw [readItems, h, Option.bind_eq_bind, Option.bind_some]
  dsimp only
  rw [hd]
  show (readItems fuel es).bind _ = _
  rw [hes]
  rfl

variable {name : Option String} {fs : List (Option String × Json)}

theorem readFields_last {as bs : List Char} (hc : skipBlanks cs = '"' :: as)
    (hn : readString as = some (name, ':' :: bs)) (h : readValue fuel bs = some (j, ds))
    (hd : skipBlanks ds = '}' :: rest) :
    readFields (fuel + 1) cs = some ([(name, j)], rest) := by
  rw [readFields, hc]
  show (readString as).bind _ = _
  rw [hn]
  show (readValue fuel bs).bind _ = _
  rw [h, Option.bind_some]
  dsimp only
  rw [hd]
  rfl

theorem readFields_more {as bs : List Char} (hc : skipBlanks cs = '"' :: as)
    (hn : readString as = some (name, ':' :: bs)) (h : readValue fuel bs = some (j, ds))
    (hd : skipBlanks ds = ',' :: es) (hes : readFields fuel es = some (fs, rest)) :
    readFields (fuel + 1) cs = some ((name, j) :: fs, rest) := by
  rw [readFields, hc]
  show (readString as).bind _ = _
  rw [hn]
  show (readValue fuel bs).bind _ = _
  rw [h, Option.bind_some]
  dsimp only
  rw [hd]
  show (readFields fuel es).bind _ = _
  rw [hes]
  rfl

end

/-! ## Texts of documents -/

theorem length_newline (level : Nat) : (newline level).toList.length = 2 * level + 1 := by
  simp [newline]

theorem toList_prettyItems (level : Nat) (j : Json) (js : List Json) :
    (prettyItems level (j :: js)).toList = ',' :: ((newline level).toList ++
      ((j.prettyAt level).toList ++ (prettyItems level js).toList)) := by
  simp [prettyItems]

theorem toList_prettyFields (level : Nat) (f : String × Json) (fs : List (String × Json)) :
    (prettyFields level (f :: fs)).toList = ',' :: ((newline level).toList ++
      ('"' :: (f.1.toList.flatMap escape ++ '"' :: ':' :: ' ' :: ((f.2.prettyAt level).toList ++
        (prettyFields level fs).toList)))) := by
  simp [prettyFields, quote]

/-- An array opens and closes around what its items print after the first comma. So `ReadableItems`
speaks of one kind of text, whether an item is the first or not. -/
theorem toList_prettyAt_array {level : Nat} {j : Json} {js : List Json} {cs : List Char}
    (h : (prettyItems (level + 1) (j :: js)).toList = ',' :: cs) :
    ((Json.array (j :: js)).prettyAt level).toList =
      '[' :: (cs ++ ((newline level).toList ++ [']'])) := by
  rw [toList_prettyItems] at h
  obtain rfl := (List.cons.inj h).2
  simp [prettyAt]

/-- The same of an object and `ReadableFields`. -/
theorem toList_prettyAt_object {level : Nat} {f : String × Json} {fs : List (String × Json)}
    {cs : List Char} (h : (prettyFields (level + 1) (f :: fs)).toList = ',' :: cs) :
    ((Json.object (f :: fs)).prettyAt level).toList =
      '{' :: (cs ++ ((newline level).toList ++ ['}'])) := by
  rw [toList_prettyFields] at h
  obtain rfl := (List.cons.inj h).2
  simp [prettyAt, quote]

theorem ends_prettyItems (level level' : Nat) (js : List Json) (rest : List Char) :
    Ends ((prettyItems level js).toList ++ ((newline level').toList ++ rest)) := by
  cases js <;> simp [prettyItems, newline, Ends]

theorem ends_prettyFields (level level' : Nat) (fs : List (String × Json)) (rest : List Char) :
    Ends ((prettyFields level fs).toList ++ ((newline level').toList ++ rest)) := by
  cases fs <;> simp [prettyFields, newline, Ends]

/-! ## Documents -/

/-- The document is read from its text at `level`, whatever comes after it. The text is as long as
the reader goes deep, so its length is fuel enough. -/
def Readable (level : Nat) (j : Json) : Prop :=
  ∀ fuel rest, Ends rest → (j.prettyAt level).toList.length ≤ fuel →
    readValue (fuel + 1) ((j.prettyAt level).toList ++ rest) = some (j, rest)

/-- The items are read from their text after the first comma, up to the end of the array. -/
def ReadableItems (level : Nat) (js : List Json) : Prop :=
  ∀ level' fuel cs rest, (prettyItems level js).toList = ',' :: cs → cs.length ≤ fuel →
    readItems (fuel + 1) (cs ++ ((newline level').toList ++ ']' :: rest)) = some (js, rest)

/-- The fields are read from their text after the first comma, up to the end of the object. -/
def ReadableFields (level : Nat) (fs : List (String × Json)) : Prop :=
  ∀ level' fuel cs rest, (prettyFields level fs).toList = ',' :: cs → cs.length ≤ fuel →
    readFields (fuel + 1) (cs ++ ((newline level').toList ++ '}' :: rest)) =
      some (fs.map fun f => (some f.1, f.2), rest)

theorem Readable.array {level : Nat} {js : List Json} (h : ReadableItems (level + 1) js) :
    Readable level (.array js) := by
  intro fuel rest _ hf
  cases js with
  | nil => simp [prettyAt, leaf, readValue, skipBlanks]
  | cons j js =>
    have hitems := toList_prettyItems (level + 1) j js
    rw [toList_prettyAt_array hitems] at hf ⊢
    -- from here on only the comma in front of `cs` matters, not what `cs` is
    generalize (newline (level + 1)).toList ++ ((j.prettyAt (level + 1)).toList ++
      (prettyItems (level + 1) js).toList) = cs at hitems hf
    simp only [List.length_cons, List.length_append, length_newline] at hf
    obtain ⟨fuel, rfl⟩ : ∃ n, fuel = n + 1 := ⟨fuel - 1, by omega⟩
    have hread := h level fuel cs rest hitems (by omega)
    have htext : '[' :: (cs ++ ((newline level).toList ++ [']'])) ++ rest =
        '[' :: (cs ++ ((newline level).toList ++ ']' :: rest)) := by simp
    exact htext ▸ readValue_of_items hread

theorem Readable.object {level : Nat} {fs : List (String × Json)}
    (h : ReadableFields (level + 1) fs) : Readable level (.object fs) := by
  intro fuel rest _ hf
  cases fs with
  | nil => simp [prettyAt, leaf, readValue, skipBlanks]
  | cons f fs =>
    have hfields := toList_prettyFields (level + 1) f fs
    rw [toList_prettyAt_object hfields] at hf ⊢
    generalize (newline (level + 1)).toList ++ ('"' :: (f.1.toList.flatMap escape ++ '"' :: ':' ::
      ' ' :: ((f.2.prettyAt (level + 1)).toList ++ (prettyFields (level + 1) fs).toList))) = cs
      at hfields hf
    simp only [List.length_cons, List.length_append, length_newline] at hf
    obtain ⟨fuel, rfl⟩ : ∃ n, fuel = n + 1 := ⟨fuel - 1, by omega⟩
    have hread := h level fuel cs rest hfields (by omega)
    have htext : '{' :: (cs ++ ((newline level).toList ++ ['}'])) ++ rest =
        '{' :: (cs ++ ((newline level).toList ++ '}' :: rest)) := by simp
    exact htext ▸ readValue_of_fields hread

theorem ReadableItems.cons {level : Nat} {j : Json} {js : List Json} (hj : Readable level j)
    (hjs : ReadableItems level js) : ReadableItems level (j :: js) := by
  intro level' fuel cs rest hcs hf
  rw [toList_prettyItems] at hcs
  obtain rfl := (List.cons.inj hcs).2
  simp only [List.length_append, length_newline] at hf
  -- the line break before the item pays for the level that reading it takes
  obtain ⟨fuel, rfl⟩ : ∃ n, fuel = n + 1 := ⟨fuel - 1, by omega⟩
  have hread := hj fuel _ (ends_prettyItems level level' js (']' :: rest)) (by omega)
  rw [← readValue_congr (skipBlanks_newline level _)] at hread
  rw [List.append_assoc, List.append_assoc]
  cases js with
  | nil =>
    exact readItems_last hread (skipBlanks_newline _ _)
  | cons j' js =>
    have hitems := toList_prettyItems level j' js
    rw [hitems] at hf hread ⊢
    rw [List.length_cons] at hf
    exact readItems_more hread rfl (hjs level' fuel _ rest hitems (by omega))

theorem ReadableFields.cons {level : Nat} {f : String × Json} {fs : List (String × Json)}
    (hj : Readable level f.2) (hfs : ReadableFields level fs) : ReadableFields level (f :: fs) := by
  intro level' fuel cs rest hcs hf
  rw [toList_prettyFields] at hcs
  obtain rfl := (List.cons.inj hcs).2
  simp only [List.length_append, List.length_cons, length_newline] at hf
  obtain ⟨fuel, rfl⟩ : ∃ n, fuel = n + 1 := ⟨fuel - 1, by omega⟩
  have hread := hj fuel _ (ends_prettyFields level level' fs ('}' :: rest)) (by omega)
  replace hread := (readValue_congr (skipBlanks_space _) _).trans hread
  simp only [List.append_assoc, List.cons_append]
  cases fs with
  | nil =>
    exact readFields_last (skipBlanks_newline _ _) (readString_quote _ _) hread
      (skipBlanks_newline _ _)
  | cons f' fs =>
    have hfields := toList_prettyFields level f' fs
    rw [hfields] at hf hread ⊢
    rw [List.length_cons] at hf
    exact readFields_more (skipBlanks_newline _ _) (readString_quote _ _) hread rfl
      (hfs level' fuel _ rest hfields (by omega))

mutual

/-- Induction over the document, as it is printed. The one case that `Plain` leaves out are doubles,
whose digits are another matter. -/
theorem readable : ∀ j : Json, j.Plain → ∀ level, Readable level j
  | .null, _, _ => fun fuel rest _ _ => by simp [prettyAt, leaf, readValue, skipBlanks]
  | .bool b, _, _ => fun fuel rest _ _ => by
    cases b <;> simp [prettyAt, leaf, readValue, skipBlanks]
  | .number (.int i), h, _ => fun fuel rest he _ => readValue_int i fuel he h.1 h.2
  | .string s, _, _ => fun fuel rest _ _ => by
    simp [prettyAt, leaf, quote, readValue, skipBlanks, readString_quote]
  | .array js, h, level => .array (readableItems js h (level + 1))
  | .object fs, h, level => .object (readableFields fs h (level + 1))

theorem readableItems : ∀ js : List Json, PlainItems js → ∀ level, ReadableItems level js
  | [], _, _ => fun _ _ _ _ hcs _ => by simp [prettyItems] at hcs
  | j :: js, h, level => .cons (readable j h.1 level) (readableItems js h.2 level)

theorem readableFields : ∀ fs : List (String × Json), PlainFields fs →
    ∀ level, ReadableFields level fs
  | [], _, _ => fun _ _ _ _ hcs _ => by simp [prettyFields] at hcs
  | (_, j) :: fs, h, level => .cons (readable j h.1 level) (readableFields fs h.2 level)

end

/-- **Round trip.** `parse` reads the text of a `Plain` document as that document. It starts with
more fuel than the text is long, and `Readable` says that this is enough. -/
theorem parse_pretty {j : Json} (h : j.Plain) : parse j.pretty = some j := by
  have hread := readable j h 0 (2 * j.pretty.toList.length + 1) [] trivial
    (by unfold pretty; omega)
  rw [List.append_nil] at hread
  unfold parse
  show (readValue (2 * j.pretty.toList.length + 1 + 1) (j.prettyAt 0).toList).bind _ = _
  rw [hread]
  rfl

end Json

end Provision
