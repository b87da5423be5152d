import Mathlib.Data.List.Basic
import Provision.FileSystem

/-!
# What operations on files leave alone

* `FileSystem.Spares`: all directories stay, and all files but those at given locations.
* `FileSystem.spares_of_write`, `spares_of_remove`, `spares_of_replace`, `spares_makeDirectories`:
  what each operation leaves alone.
* `FileSystem.Spares.look_eq`, `FileSystem.Spares.read_eq`: a file that is left alone is there as it
  was and reads as it did.
* `FileSystem.read_of_write`, `FileSystem.read_of_replace`: a text is read where it was written, and
  where its file was moved.
-/

namespace Provision

namespace FileSystem

/-- Two operations in a row succeed where both do. All that follows takes an operation on files
apart with this. -/
theorem bind_eq_ok {ε α β : Type} {x : Except ε α} {f : α → Except ε β} {b : β} :
    (x >>= f) = .ok b ↔ ∃ a, x = .ok a ∧ f a = .ok b := by
  cases x with
  | error e => exact ⟨nofun, nofun⟩
  | ok a => exact ⟨fun h => ⟨a, rfl, h⟩, fun ⟨_, rfl, h⟩ => h⟩

/-- All that is there in `fs` is there in `fs'`, but for files at the locations `ls`. -/
structure Spares (ls : List Location) (fs fs' : FileSystem) : Prop where
  here : fs'.here = fs.here
  keeps : ∀ l e, fs.entryAt? l = some e → e = .directory ∨ l ∉ ls → fs'.entryAt? l = some e

variable {fs fs' fs'' : FileSystem} {ls ms : List Location} {l : Location} {p : String}

namespace Spares

theorem refl (fs : FileSystem) : Spares ls fs fs := ⟨rfl, fun _ _ h _ => h⟩

theorem trans (h : Spares ls fs fs') (h' : Spares ms fs' fs'') : Spares (ls ++ ms) fs fs'' where
  here := h'.here.trans h.here
  keeps l e he hl := by
    rw [List.mem_append, not_or] at hl
    exact h'.keeps l e (h.keeps l e he (hl.imp_right And.left)) (hl.imp_right And.right)

theorem put_directory (hl : fs.entryAt? l = none) : Spares [] fs (fs.put l .directory) where
  here := rfl
  keeps m e he _ := by
    have hne : l ≠ [] := by
      rintro rfl
      cases hl
    rw [entryAt?_put _ hne, if_neg, he]
    rintro rfl
    cases hl.symm.trans he

theorem put_file {content : Content} (hne : l ≠ []) (hl : fs.entryAt? l ≠ some .directory) :
    Spares [l] fs (fs.put l (.file content)) where
  here := rfl
  keeps m e he hm := by
    rw [entryAt?_put _ hne, if_neg, he]
    rintro rfl
    rcases hm with rfl | hm
    · exact hl he
    · exact hm List.mem_cons_self

theorem drop_file (hne : l ≠ []) (hl : fs.entryAt? l ≠ some .directory) :
    Spares [l] fs (fs.drop l) where
  here := rfl
  keeps m e he hm := by
    rw [entryAt?_drop _ hne, if_neg, he]
    rintro rfl
    rcases hm with rfl | hm
    · exact hl he
    · exact hm List.mem_cons_self

/-! ## Paths -/

/-- The way through directories stays open: `Spares` keeps every directory, even one whose location
is listed. -/
theorem walk_eq (h : Spares ls fs fs') {names : List String} {start : Location}
    (hw : fs.walk start names = .ok l) : fs'.walk start names = .ok l := by
  induction names generalizing start with
  | nil => exact hw
  | cons name names ih =>
    unfold walk at hw ⊢
    split at hw
    · next hi =>
      rw [if_pos hi]
      exact ih hw
    · next hi =>
      rw [if_neg hi]
      split at hw
      · next hup =>
        rw [if_pos hup]
        exact ih hw
      · next hup =>
        rw [if_neg hup]
        split at hw
        · cases hw
        · next hsize =>
          rw [if_neg hsize]
          -- the walk went on, so there is a directory, and directories are kept
          split at hw
          · cases hw
          · cases hw
          · next he =>
            rw [h.keeps _ _ he (.inl rfl)]
            exact ih hw

theorem target_eq (h : Spares ls fs fs') {t : Target} (ht : fs.target p = .ok t) :
    fs'.target p = .ok t := by
  unfold target at ht ⊢
  split at ht
  · cases ht
  · next hnul =>
    rw [if_neg hnul]
    split at ht
    · cases ht
    · next hempty =>
      rw [if_neg hempty]
      split at ht
      · cases ht
      · next hsize =>
        rw [if_neg hsize, h.here]
        dsimp only at ht ⊢
        generalize (List.filter (· ≠ "") (Path.parts p)).reverse = names at ht ⊢
        cases names with
        | nil => exact ht
        | cons last before =>
          obtain ⟨l, hw, ht⟩ := bind_eq_ok.mp ht
          exact bind_eq_ok.mpr ⟨l, h.walk_eq hw, ht⟩

/-- **Frame.** A file that is left alone stays there with what it holds. `ht` is asked of the file
system before; `target_eq` gives it afterwards. -/
theorem look_eq (h : Spares ls fs fs') {name : String} {slash : Bool}
    (ht : fs.target p = .ok (.named l name slash)) (hl : name :: l ∉ ls) {e : FileEntry}
    (hlook : fs.look p = .ok e) : fs'.look p = .ok e := by
  obtain ⟨t, ht', hlook⟩ := bind_eq_ok.mp hlook
  cases ht.symm.trans ht'
  refine bind_eq_ok.mpr ⟨_, h.target_eq ht, ?_⟩
  dsimp only at hlook ⊢
  cases he : fs.entryAt? (name :: l) with
  | none =>
    rw [he] at hlook
    cases hlook
  | some e =>
    rw [he] at hlook
    rw [h.keeps _ _ he (.inr hl)]
    exact hlook

/-- `look_eq` for `read`, which looks before it reads. -/
theorem read_eq (h : Spares ls fs fs') {name : String} {slash : Bool}
    (ht : fs.target p = .ok (.named l name slash)) (hl : name :: l ∉ ls) {text : String}
    (hr : fs.read p = .ok text) : fs'.read p = .ok text := by
  obtain ⟨e, hlook, hr⟩ := bind_eq_ok.mp hr
  exact bind_eq_ok.mpr ⟨e, h.look_eq ht hl hlook, hr⟩

end Spares

/-- Nothing else is touched than files of the given names. -/
def Confined (names : List String) (fs fs' : FileSystem) : Prop :=
  ∃ ls, Spares ls fs fs' ∧ ∀ l ∈ ls, ∃ name ∈ names, l.head? = some name

theorem Confined.trans {names : List String} (h : Confined names fs fs')
    (h' : Confined names fs' fs'') : Confined names fs fs'' := by
  obtain ⟨ls, hs, hls⟩ := h
  obtain ⟨ms, hs', hms⟩ := h'
  exact ⟨_, hs.trans hs', fun l hl => (List.mem_append.mp hl).elim (hls l) (hms l)⟩

theorem Confined.mono {names names' : List String} (h : Confined names fs fs')
    (hs : names ⊆ names') : Confined names' fs fs' := by
  obtain ⟨ls, h, hls⟩ := h
  exact ⟨ls, h, fun l hl => (hls l hl).imp fun _ hn => ⟨hs hn.1, hn.2⟩⟩

theorem Spares.confined (h : Spares [] fs fs') (names : List String) : Confined names fs fs' :=
  ⟨[], h, nofun⟩

/-! ## Operations -/

/-- A file that was written is there, and nothing else was touched. The path cannot end with a
slash, else `write` would have failed. -/
theorem spares_of_write {content : Content} (h : fs.write p content = .ok fs') :
    ∃ l name, fs.target p = .ok (.named l name false) ∧ Spares [name :: l] fs fs' ∧
      fs'.entryAt? (name :: l) = some (.file content) := by
  obtain ⟨t, ht, h⟩ := bind_eq_ok.mp h
  split at h
  · cases h
  · cases h
  · next l name =>
    split at h
    · cases h
    · next hne =>
      cases h
      refine ⟨l, name, ht, .put_file (List.cons_ne_nil _ _) hne, ?_⟩
      rw [entryAt?_put _ (List.cons_ne_nil _ _), if_pos rfl]

/-- A file is found by the path of its entry; it is `target_of_look` the other way round. -/
theorem look_of_target {name : String} {e : FileEntry}
    (ht : fs.target p = .ok (.named l name false)) (he : fs.entryAt? (name :: l) = some e) :
    fs.look p = .ok e := by
  refine bind_eq_ok.mpr ⟨_, ht, ?_⟩
  dsimp only
  rw [he]
  cases e <;> rfl

/-- The path of a file leads to a name, with no slash at the end, so `read_eq` applies to it. -/
theorem target_of_look {content : Content} (h : fs.look p = .ok (.file content)) :
    ∃ l name, fs.target p = .ok (.named l name false) := by
  obtain ⟨t, ht, h⟩ := bind_eq_ok.mp h
  split at h
  · cases h
  · next l name slash =>
    cases he : fs.entryAt? (name :: l) with
    | none =>
      rw [he] at h
      cases h
    | some e =>
      cases slash with
      | false => exact ⟨l, name, ht⟩
      | true => cases e <;> rw [he] at h <;> cases h

theorem read_of_look {s : String} (h : fs.look p = .ok (.file (.text s))) : fs.read p = .ok s :=
  bind_eq_ok.mpr ⟨_, h, rfl⟩

/-- `read` gives back what `write` wrote, by the same path. -/
theorem read_of_write {s : String} (h : fs.write p (.text s) = .ok fs') : fs'.read p = .ok s := by
  obtain ⟨l, name, ht, hs, he⟩ := spares_of_write h
  exact read_of_look (look_of_target (hs.target_eq ht) he)

theorem spares_of_remove (h : fs.remove p = .ok fs') :
    ∃ l name, fs.target p = .ok (.named l name false) ∧ Spares [name :: l] fs fs' := by
  obtain ⟨t, ht, h⟩ := bind_eq_ok.mp h
  split at h
  · cases h
  · next l name slash =>
    split at h
    · cases h
    · cases h
    · cases h
    · next he =>
      cases h
      refine ⟨l, name, ht, .drop_file (List.cons_ne_nil _ _) ?_⟩
      rw [he]
      exact nofun

/-- A file that was moved is at its new place with what it held. Both locations are listed: the old
one, where nothing is left, and the new one, where something else may have stood. -/
theorem spares_of_replace {old new : String} (h : fs.replace old new = .ok fs') :
    ∃ l name m newName, fs.target old = .ok (.named l name false) ∧
      fs.target new = .ok (.named m newName false) ∧ Spares [name :: l, newName :: m] fs fs' ∧
      ∃ content, fs.entryAt? (name :: l) = some (.file content) ∧
        fs'.entryAt? (newName :: m) = some (.file content) := by
  obtain ⟨t, ho, h⟩ := bind_eq_ok.mp h
  obtain ⟨u, hn, h⟩ := bind_eq_ok.mp h
  split at h
  · next l name slash m newName newSlash _ =>
    split at h
    · cases h
    · cases h
    · next content hfile =>
      split at h
      · cases h
      · next hslash =>
        have hslash : slash = false ∧ newSlash = false := by simpa using hslash
        split at h
        · cases h
        · next hnew =>
          cases h
          -- first the old entry is dropped, then the new one is put in
          refine ⟨l, name, m, newName, hslash.1 ▸ ho, hslash.2 ▸ hn, ?_, content, hfile, ?_⟩
          · have hold : fs.entryAt? (name :: l) ≠ some .directory := by
              rw [hfile]
              exact nofun
            have hdrop := Spares.drop_file (List.cons_ne_nil _ _) hold
            refine hdrop.trans (.put_file (List.cons_ne_nil _ _) ?_)
            rw [entryAt?_drop _ (List.cons_ne_nil _ _)]
            split
            · exact nofun
            · exact hnew
          · rw [entryAt?_put _ (List.cons_ne_nil _ _), if_pos rfl]
  · cases h

/-- What `read` gave at the old path it gives at the new one. -/
theorem read_of_replace {old new s : String} (h : fs.replace old new = .ok fs')
    (hr : fs.read old = .ok s) : fs'.read new = .ok s := by
  obtain ⟨l, name, m, newName, ho, hn, hs, content, hfile, hmoved⟩ := spares_of_replace h
  obtain ⟨e, hlook, hr⟩ := bind_eq_ok.mp hr
  cases (look_of_target ho hfile).symm.trans hlook
  exact bind_eq_ok.mpr ⟨_, look_of_target (hs.target_eq hn) hmoved, hr⟩

/-! ## Directories -/

theorem spares_of_makeDirectory (h : fs.makeDirectory p = .ok fs') : Spares [] fs fs' := by
  obtain ⟨t, -, h⟩ := bind_eq_ok.mp h
  split at h
  · cases h
  · split at h
    · cases h
    · next hnone =>
      cases h
      exact .put_directory hnone

theorem spares_of_ensureDirectory (h : fs.ensureDirectory p = .ok fs') : Spares [] fs fs' := by
  unfold ensureDirectory at h
  split at h
  · next hm =>
    cases h
    exact spares_of_makeDirectory hm
  · split at h
    · cases h
      exact .refl _
    · cases h

theorem spares_makeNested (ps : List String) (fs : FileSystem) :
    Spares [] fs (fs.makeNested ps).2 := by
  induction ps with
  | nil => exact .refl fs
  | cons p up ih =>
    unfold makeNested
    split
    · next h => exact spares_of_ensureDirectory h
    · split
      · next fs' hup =>
        rw [hup] at ih
        exact ih
      · next fs' hup =>
        rw [hup] at ih
        split
        · next h => exact ih.trans (spares_of_ensureDirectory h)
        · exact ih
    · exact .refl fs

/-- Making directories touches no file, whether it succeeds or stops half way. -/
theorem spares_makeDirectories (p : String) (fs : FileSystem) :
    Spares [] fs (fs.makeDirectories p).2 := spares_makeNested _ fs

end FileSystem

end Provision
