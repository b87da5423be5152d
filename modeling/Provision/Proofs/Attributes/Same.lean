import Provision.Proofs.Attributes.Commute

/-!
# Trees that are the same

Two trees are the same if they differ in the sign of zeros at most.

* `Value.same_list`, `Value.same_map` and the like: what the same as a given tree looks like.
* `Attributes.same_symm`, `Attributes.same_trans`.
* `Attributes.same_of_resolve`: trees that are the same resolve alike.
-/

namespace Provision

theorem Double.same_symm {x y : Double} (h : x.same y = true) : y.same x = true := by
  simp only [Double.same, Bool.or_eq_true, decide_eq_true_eq, Bool.and_eq_true] at h ⊢
  exact h.imp Eq.symm And.symm

theorem Double.same_trans {x y z : Double} (h : x.same y = true) (h' : y.same z = true) :
    x.same z = true := by
  simp only [Double.same, Bool.or_eq_true, decide_eq_true_eq, Bool.and_eq_true] at h h' ⊢
  rcases h with rfl | ⟨hx, hy⟩
  · exact h'
  · rcases h' with rfl | ⟨-, hz⟩
    · exact .inr ⟨hx, hy⟩
    · exact .inr ⟨hx, hz⟩

theorem Number.same_symm {m n : Number} (h : m.same n = true) : n.same m = true := by
  cases m with
  | int i => cases n with
    | int j => simpa [Number.same, eq_comm] using h
    | float y => cases h
  | float x => cases n with
    | int j => cases h
    | float y => exact Double.same_symm h

theorem Number.same_trans {l m n : Number} (h : l.same m = true) (h' : m.same n = true) :
    l.same n = true := by
  cases l <;> cases m <;> cases n
  case int.int.int => simp_all [Number.same]
  case float.float.float => exact Double.same_trans h h'
  all_goals first | cases h | cases h'

namespace Value

/-! ## What the same as a tree looks like -/

theorem same_null {w : Value} : null.same w = true ↔ w = .null := by
  cases w <;> simp [same]

theorem same_bool {b : Bool} {w : Value} : (bool b).same w = true ↔ w = .bool b := by
  cases w <;> simp [same, eq_comm]

theorem same_number {n : Number} {w : Value} :
    (number n).same w = true ↔ ∃ n', w = .number n' ∧ n.same n' = true := by
  cases w <;> simp [same]

theorem same_string {s : String} {w : Value} : (string s).same w = true ↔ w = .string s := by
  cases w <;> simp [same, eq_comm]

theorem same_list {vs : List Value} {w : Value} :
    (list vs).same w = true ↔ ∃ ws, w = .list ws ∧ sameItems vs ws = true := by
  cases w <;> simp [same]

theorem same_map {fs : List (String × Value)} {w : Value} :
    (map fs).same w = true ↔ ∃ gs, w = .map gs ∧ sameFields fs gs = true := by
  cases w <;> simp [same]

theorem sameItems_nil {ws : List Value} : sameItems [] ws = true ↔ ws = [] := by
  cases ws <;> simp [sameItems]

theorem sameItems_cons {v : Value} {vs us : List Value} : sameItems (v :: vs) us = true ↔
    ∃ w ws, us = w :: ws ∧ v.same w = true ∧ sameItems vs ws = true := by
  cases us with
  | nil => simp [sameItems]
  | cons u us =>
    simp only [sameItems, Bool.and_eq_true, List.cons.injEq]
    exact ⟨fun h => ⟨u, us, ⟨rfl, rfl⟩, h⟩, fun ⟨_, _, ⟨rfl, rfl⟩, h⟩ => h⟩

theorem sameFields_nil {gs : List (String × Value)} : sameFields [] gs = true ↔ gs = [] := by
  cases gs <;> simp [sameFields]

theorem sameFields_cons {k : String} {v : Value} {fs hs : List (String × Value)} :
    sameFields ((k, v) :: fs) hs = true ↔
      ∃ w gs, hs = (k, w) :: gs ∧ v.same w = true ∧ sameFields fs gs = true := by
  cases hs with
  | nil => simp [sameFields]
  | cons f hs =>
    obtain ⟨n, w⟩ := f
    simp only [sameFields, Bool.and_eq_true, decide_eq_true_eq, List.cons.injEq, Prod.mk.injEq]
    constructor
    · rintro ⟨⟨rfl, hv⟩, hfs⟩
      exact ⟨w, hs, ⟨⟨rfl, rfl⟩, rfl⟩, hv, hfs⟩
    · rintro ⟨_, _, ⟨⟨rfl, rfl⟩, rfl⟩, hv, hfs⟩
      exact ⟨⟨rfl, hv⟩, hfs⟩

/-! ## Symmetry and transitivity -/

mutual

theorem same_symm : ∀ v w : Value, v.same w = true → w.same v = true
  | .null, _, h => by obtain rfl := same_null.mp h; rfl
  | .bool _, _, h => by obtain rfl := same_bool.mp h; exact same_refl _
  | .number _, _, h => by
    obtain ⟨n, rfl, hn⟩ := same_number.mp h
    exact same_number.mpr ⟨_, rfl, Number.same_symm hn⟩
  | .string _, _, h => by obtain rfl := same_string.mp h; exact same_refl _
  | .list vs, _, h => by
    obtain ⟨ws, rfl, hs⟩ := same_list.mp h
    exact same_list.mpr ⟨_, rfl, sameItems_symm vs ws hs⟩
  | .map fs, _, h => by
    obtain ⟨gs, rfl, hs⟩ := same_map.mp h
    exact same_map.mpr ⟨_, rfl, sameFields_symm fs gs hs⟩

theorem sameItems_symm : ∀ vs ws : List Value, sameItems vs ws = true → sameItems ws vs = true
  | [], _, h => by obtain rfl := sameItems_nil.mp h; rfl
  | v :: vs, _, h => by
    obtain ⟨w, ws, rfl, hv, hs⟩ := sameItems_cons.mp h
    exact sameItems_cons.mpr ⟨v, vs, rfl, same_symm v w hv, sameItems_symm vs ws hs⟩

theorem sameFields_symm : ∀ fs gs : List (String × Value), sameFields fs gs = true →
    sameFields gs fs = true
  | [], _, h => by obtain rfl := sameFields_nil.mp h; rfl
  | (_, v) :: fs, _, h => by
    obtain ⟨w, gs, rfl, hv, hs⟩ := sameFields_cons.mp h
    exact sameFields_cons.mpr ⟨v, fs, rfl, same_symm v w hv, sameFields_symm fs gs hs⟩

end

mutual

theorem same_trans : ∀ u v w : Value, u.same v = true → v.same w = true → u.same w = true
  | .null, _, _, h, h' => by obtain rfl := same_null.mp h; exact h'
  | .bool _, _, _, h, h' => by obtain rfl := same_bool.mp h; exact h'
  | .number _, _, _, h, h' => by
    obtain ⟨n, rfl, hn⟩ := same_number.mp h
    obtain ⟨n', rfl, hn'⟩ := same_number.mp h'
    exact same_number.mpr ⟨n', rfl, Number.same_trans hn hn'⟩
  | .string _, _, _, h, h' => by obtain rfl := same_string.mp h; exact h'
  | .list us, _, _, h, h' => by
    obtain ⟨vs, rfl, hs⟩ := same_list.mp h
    obtain ⟨ws, rfl, hs'⟩ := same_list.mp h'
    exact same_list.mpr ⟨ws, rfl, sameItems_trans us vs ws hs hs'⟩
  | .map fs, _, _, h, h' => by
    obtain ⟨gs, rfl, hs⟩ := same_map.mp h
    obtain ⟨hs₂, rfl, hs'⟩ := same_map.mp h'
    exact same_map.mpr ⟨hs₂, rfl, sameFields_trans fs gs hs₂ hs hs'⟩

theorem sameItems_trans : ∀ us vs ws : List Value, sameItems us vs = true →
    sameItems vs ws = true → sameItems us ws = true
  | [], _, _, h, h' => by obtain rfl := sameItems_nil.mp h; exact h'
  | u :: us, _, _, h, h' => by
    obtain ⟨v, vs, rfl, hu, hs⟩ := sameItems_cons.mp h
    obtain ⟨w, ws, rfl, hv, hs'⟩ := sameItems_cons.mp h'
    exact sameItems_cons.mpr ⟨w, ws, rfl, same_trans u v w hu hv, sameItems_trans us vs ws hs hs'⟩

theorem sameFields_trans : ∀ es fs gs : List (String × Value), sameFields es fs = true →
    sameFields fs gs = true → sameFields es gs = true
  | [], _, _, h, h' => by obtain rfl := sameFields_nil.mp h; exact h'
  | (_, u) :: es, _, _, h, h' => by
    obtain ⟨v, fs, rfl, hu, hs⟩ := sameFields_cons.mp h
    obtain ⟨w, gs, rfl, hv, hs'⟩ := sameFields_cons.mp h'
    exact sameFields_cons.mpr
      ⟨w, gs, rfl, same_trans u v w hu hv, sameFields_trans es fs gs hs hs'⟩

end

/-! ## Resolving -/

mutual

theorem same_of_resolve {m : Index} : ∀ v w a : Value, v.same w = true → v.resolve m = .ok a →
    ∃ b, w.resolve m = .ok b ∧ a.same b = true
  | .null, _, a, h, ha => by obtain rfl := same_null.mp h; exact ⟨a, ha, same_refl a⟩
  | .bool _, _, a, h, ha => by obtain rfl := same_bool.mp h; exact ⟨a, ha, same_refl a⟩
  | .number _, _, _, h, ha => by
    obtain ⟨n, rfl, hn⟩ := same_number.mp h
    cases ha
    exact ⟨_, rfl, same_number.mpr ⟨n, rfl, hn⟩⟩
  | .string _, _, a, h, ha => by obtain rfl := same_string.mp h; exact ⟨a, ha, same_refl a⟩
  | .list vs, _, _, h, ha => by
    obtain ⟨ws, rfl, hs⟩ := same_list.mp h
    obtain ⟨as, hvs, rfl⟩ := resolve_list.mp ha
    obtain ⟨bs, hws, hab⟩ := sameItems_of_resolve vs ws as hs hvs
    exact ⟨_, resolve_list.mpr ⟨bs, hws, rfl⟩, same_list.mpr ⟨bs, rfl, hab⟩⟩
  | .map fs, _, _, h, ha => by
    obtain ⟨gs, rfl, hs⟩ := same_map.mp h
    obtain ⟨as, hfs, rfl⟩ := resolve_map.mp ha
    obtain ⟨bs, hgs, hab⟩ := sameFields_of_resolve fs gs as hs hfs
    exact ⟨_, resolve_map.mpr ⟨bs, hgs, rfl⟩, same_map.mpr ⟨bs, rfl, hab⟩⟩

theorem sameItems_of_resolve {m : Index} : ∀ vs ws as : List Value, sameItems vs ws = true →
    resolveItems m vs = .ok as → ∃ bs, resolveItems m ws = .ok bs ∧ sameItems as bs = true
  | [], _, _, h, ha => by
    obtain rfl := sameItems_nil.mp h
    cases ha
    exact ⟨[], rfl, rfl⟩
  | v :: vs, _, _, h, ha => by
    obtain ⟨w, ws, rfl, hv, hs⟩ := sameItems_cons.mp h
    obtain ⟨a, as, hva, hvs, rfl⟩ := resolveItems_cons.mp ha
    obtain ⟨b, hwb, hab⟩ := same_of_resolve v w a hv hva
    obtain ⟨bs, hws, habs⟩ := sameItems_of_resolve vs ws as hs hvs
    exact ⟨_, resolveItems_cons.mpr ⟨b, bs, hwb, hws, rfl⟩,
      sameItems_cons.mpr ⟨b, bs, rfl, hab, habs⟩⟩

theorem sameFields_of_resolve {m : Index} : ∀ fs gs as : List (String × Value),
    sameFields fs gs = true → resolveFields m fs = .ok as →
      ∃ bs, resolveFields m gs = .ok bs ∧ sameFields as bs = true
  | [], _, _, h, ha => by
    obtain rfl := sameFields_nil.mp h
    cases ha
    exact ⟨[], rfl, rfl⟩
  | (_, v) :: fs, _, _, h, ha => by
    obtain ⟨w, gs, rfl, hv, hs⟩ := sameFields_cons.mp h
    obtain ⟨a, as, hva, hfs, rfl⟩ := resolveFields_cons.mp ha
    obtain ⟨b, hwb, hab⟩ := same_of_resolve v w a hv hva
    obtain ⟨bs, hgs, habs⟩ := sameFields_of_resolve fs gs as hs hfs
    exact ⟨_, resolveFields_cons.mpr ⟨b, bs, hwb, hgs, rfl⟩,
      sameFields_cons.mpr ⟨b, bs, rfl, hab, habs⟩⟩

end

end Value

namespace Attributes

variable {a b c : Attributes}

theorem same_symm (h : a.same b = true) : b.same a = true := Value.sameFields_symm a b h

theorem same_trans (h : a.same b = true) (h' : b.same c = true) : a.same c = true :=
  Value.sameFields_trans a b c h h'

/-- Trees that are the `same` resolve to trees that are, since references are strings, on which
`same` is equality. With `same_trans` a comparison of resolved trees carries over. -/
theorem same_of_resolve {m : Index} {a' : Attributes} (h : a.same b = true)
    (ha : a.resolve m = .ok a') : ∃ b' : Attributes, b.resolve m = .ok b' ∧ a'.same b' = true :=
  Value.sameFields_of_resolve a b a' h ha

end Attributes

end Provision
