import Provision.LocalFiles
import Provision.Proofs.Attributes.Storable
import Provision.Proofs.FileSystem.Frame
import Provision.Proofs.Text.Pieces

/-!
# Files of resources

* `FileSystem.target_join`: a path that ends with a name leads to an entry of this name.
* `FileSystem.confined_of_write`, `confined_of_remove`, `confined_of_replace`: an operation touches
  only files with the last names of its paths.
* `LocalFiles.Holds`: the file of a resource has its attributes, so reading gives the resource back.
* `LocalFiles.holds_of_write`: so it is after the resource was written.
* `LocalFiles.read_after_write`, `LocalFiles.read_after_delete`: resources whose files have other
  names read as they did.
-/

namespace Provision

/-! ## Paths -/

namespace Path

/-- A name as it stands between slashes, and not dots alone. -/
structure IsName (name : String) : Prop where
  noSlash : '/' ∉ name.toList
  ne_empty : name ≠ ""
  ne_dot : name ≠ "."
  ne_dots : name ≠ ".."

/-- The names of a path. -/
def names (p : String) : List String := (parts p).filter (· ≠ "")

/-- The last name of a path, if it has any. -/
def lastNames (p : String) : List String := (names p).getLast?.toList

theorem isAbsolute_name {name : String} (h : '/' ∉ name.toList) : isAbsolute name = false := by
  unfold isAbsolute
  cases hn : name.toList with
  | nil => rfl
  | cons c cs =>
    rw [hn, List.mem_cons, not_or] at h
    simpa using Ne.symm h.1

/-- `names` leaves out empty parts, so the last part is the last name if it is not one of them. -/
theorem getLast?_names {p name : String} {before : List String} (hp : parts p = before ++ [name])
    (hne : name ≠ "") : (names p).getLast? = some name := by
  have hname : [name].filter (· ≠ "") = [name] := List.filter_cons_of_pos (by simpa using hne)
  rw [names, hp, List.filter_append, hname, List.getLast?_concat]

theorem lastNames_of_parts {p name : String} {before : List String}
    (hp : parts p = before ++ [name]) (hne : name ≠ "") : lastNames p = [name] := by
  rw [lastNames, getLast?_names hp hne]
  rfl

/-- `join` puts a slash only where there is none, and none before a name on its own; in each case
the name is the last part. -/
theorem parts_join (directory : String) {name : String} (h : IsName name) :
    ∃ before, parts (join directory name) = before ++ [name] := by
  unfold join
  rw [isAbsolute_name h.noSlash, Bool.false_or]
  split
  · exact ⟨[], parts_of_not_mem h.noSlash⟩
  · split
    · next hlast =>
      obtain ⟨ds, hds⟩ := List.getLast?_eq_some_iff.mp hlast
      obtain rfl : directory = String.ofList ds ++ "/" := by
        rw [← String.toList_inj]
        simp [hds]
      exact ⟨_, by rw [parts_append, parts_of_not_mem h.noSlash]⟩
    · exact ⟨_, by rw [parts_append, parts_of_not_mem h.noSlash]⟩

theorem lastNames_join (directory : String) {name : String} (h : IsName name) :
    lastNames (join directory name) = [name] := by
  obtain ⟨before, hparts⟩ := parts_join directory h
  exact lastNames_of_parts hparts h.ne_empty

end Path

namespace FileSystem

variable {fs fs' : FileSystem} {p : String} {t : Target}

/-- What `target` makes of a path: a directory, if there is no last name or it consists of dots,
else an entry with the last name. -/
theorem target_cases (h : fs.target p = .ok t) :
    ((∃ l, t = .directory l) ∧
      ∀ name, (Path.names p).getLast? = some name → name = "." ∨ name = "..") ∨
    ∃ l name, (Path.names p).getLast? = some name ∧ name ≠ "." ∧ name ≠ ".." ∧
      t = .named l name ((Path.parts p).getLast? = some "") := by
  unfold target at h
  split at h
  · cases h
  · split at h
    · cases h
    · split at h
      · cases h
      · have hlast : (Path.names p).getLast? = (Path.names p).reverse.head? :=
          List.getLast?_eq_head?_reverse
        dsimp only at h
        rw [show (Path.parts p).filter (· ≠ "") = Path.names p from rfl] at h
        -- `target` takes the names from the end
        cases hnames : (Path.names p).reverse with
        | nil =>
          rw [hnames] at h hlast
          cases h
          exact .inl ⟨⟨_, rfl⟩, fun name hn => nomatch hlast.symm.trans hn⟩
        | cons last before =>
          rw [hnames] at h hlast
          obtain ⟨l, -, h⟩ := bind_eq_ok.mp h
          by_cases hdots : last = "." ∨ last = ".."
          · refine .inl ⟨?_, fun name hn => Option.some.inj (hlast.symm.trans hn) ▸ hdots⟩
            rcases hdots with rfl | rfl <;> cases h <;> exact ⟨_, rfl⟩
          · rw [not_or] at hdots
            rw [if_neg hdots.1, if_neg hdots.2] at h
            split at h
            · cases h
            · cases h
              exact .inr ⟨l, last, hlast, hdots.1, hdots.2, rfl⟩

/-- A path that `join` ends with a name leads to an entry of this name, wherever the directory
is. -/
theorem target_join {directory name : String} (hn : Path.IsName name)
    (h : fs.target (Path.join directory name) = .ok t) : ∃ l, t = .named l name false := by
  obtain ⟨before, hparts⟩ := Path.parts_join directory hn
  have hlast := Path.getLast?_names hparts hn.ne_empty
  rcases target_cases h with ⟨-, hdots⟩ | ⟨l, last, hl, -, -, rfl⟩
  · rcases hdots name hlast with h | h
    · exact absurd h hn.ne_dot
    · exact absurd h hn.ne_dots
  · obtain rfl := Option.some.inj (hl.symm.trans hlast)
    refine ⟨l, ?_⟩
    rw [hparts, List.getLast?_concat]
    simp [hn.ne_empty]

/-- An entry has the last name of each path that leads to it. So two paths whose `lastNames` differ
never lead to the same file. -/
theorem mem_lastNames {l : Location} {name : String} {slash : Bool}
    (h : fs.target p = .ok (.named l name slash)) : name ∈ Path.lastNames p := by
  rcases target_cases h with ⟨⟨l', ht⟩, -⟩ | ⟨l', last, hlast, -, -, ht⟩
  · cases ht
  · cases ht
    rw [Path.lastNames, hlast]
    exact List.mem_singleton.mpr rfl

theorem confined_of_write {content : Content} (h : fs.write p content = .ok fs') :
    fs.Confined (Path.lastNames p) fs' := by
  obtain ⟨l, name, ht, hs, -⟩ := spares_of_write h
  refine ⟨_, hs, fun m hm => ⟨name, mem_lastNames ht, ?_⟩⟩
  rw [List.mem_singleton.mp hm]
  rfl

theorem confined_of_remove (h : fs.remove p = .ok fs') : fs.Confined (Path.lastNames p) fs' := by
  obtain ⟨l, name, ht, hs⟩ := spares_of_remove h
  refine ⟨_, hs, fun m hm => ⟨name, mem_lastNames ht, ?_⟩⟩
  rw [List.mem_singleton.mp hm]
  rfl

theorem confined_of_replace {old new : String} (h : fs.replace old new = .ok fs') :
    fs.Confined (Path.lastNames old ++ Path.lastNames new) fs' := by
  obtain ⟨l, name, m, newName, hold, hnew, hs, -⟩ := spares_of_replace h
  refine ⟨_, hs, fun m hm => ?_⟩
  rcases List.mem_pair.mp hm with rfl | rfl
  · exact ⟨name, List.mem_append_left _ (mem_lastNames hold), rfl⟩
  · exact ⟨newName, List.mem_append_right _ (mem_lastNames hnew), rfl⟩

end FileSystem

/-! ## Files of resources -/

namespace LocalFiles

variable {root : String} {fs fs' : FileSystem} {q r s : Resource}

theorem isName_fileName (id : String) : Path.IsName (fileName id) := by
  have htext : (fileName id).toList =
      (id.toList.map fun c => if c = '/' ∨ c = '\\' then '_' else c) ++ ".json".toList := by
    simp [fileName]
  have hlong : 5 ≤ (fileName id).toList.length := by
    rw [htext, List.length_append]
    exact Nat.le_add_left _ _
  refine ⟨?_, ?_, ?_, ?_⟩
  · rw [htext, List.mem_append, not_or, List.mem_map]
    refine ⟨?_, by decide⟩
    rintro ⟨c, -, hc⟩
    split at hc
    · exact absurd hc (by decide)
    · next hne => exact hne (.inl hc)
  all_goals
    intro he
    rw [he] at hlong
    exact absurd hlong (by decide)

theorem lastNames_path (root : String) (r : Resource) :
    Path.lastNames (path root r) = [fileName r.id] :=
  Path.lastNames_join root (isName_fileName r.id)

/-- Reading a resource gives it back exactly as it is. -/
def Holds (root : String) (fs : FileSystem) (r : Resource) : Prop :=
  (read root r fs).reply = .returned (some r)

instance : Decidable (Holds root fs r) := inferInstanceAs (Decidable (_ = _))

/-- What `read` gives is what the file says: its `attributes`; the rest of the resource is taken as
it was asked for. -/
theorem read_eq_some_iff : (read root r fs).reply = .returned (some s) ↔
    ∃ text a, fs.read (path root r) = .ok text ∧ parse text = some a ∧
      s = { r with attributes := a } := by
  unfold read refusal
  dsimp only
  split
  · next e he => simp [he]
  · next e he => simp [he]
  · next text he =>
    split
    · next hp => simp [he, hp]
    · next a hp => simp [he, hp, eq_comm]

/-- What is read stays so when files of other names change. -/
theorem read_of_confined {names : List String} (h : fs.Confined names fs')
    (hn : fileName r.id ∉ names) (hr : (read root r fs).reply = .returned (some s)) :
    (read root r fs').reply = .returned (some s) := by
  obtain ⟨text, a, hread, hp, rfl⟩ := read_eq_some_iff.mp hr
  refine read_eq_some_iff.mpr ⟨text, a, ?_, hp, rfl⟩
  obtain ⟨e, hlook, -⟩ := FileSystem.bind_eq_ok.mp hread
  obtain ⟨t, ht, -⟩ := FileSystem.bind_eq_ok.mp hlook
  obtain ⟨l, rfl⟩ := FileSystem.target_join (isName_fileName r.id) ht
  obtain ⟨ls, hs, hls⟩ := h
  refine hs.read_eq ht (fun hl => ?_) hread
  obtain ⟨name, hname, he⟩ := hls _ hl
  exact hn (Option.some.inj he ▸ hname)

/-- `write` makes directories and writes one file. Nothing is said of its success: an attempt that
fails is confined as well. -/
theorem confined_write (root : String) (q : Resource) (fs : FileSystem) :
    fs.Confined [fileName q.id] (write root q fs).2 := by
  have hmake := (fs.spares_makeDirectories root).confined [fileName q.id]
  unfold write
  split
  · next e fs' hm =>
    rw [hm] at hmake
    exact hmake
  · next fs' hm =>
    rw [hm] at hmake
    split
    · exact hmake
    · next fs'' hw =>
      refine hmake.trans ?_
      rw [← lastNames_path root q]
      exact FileSystem.confined_of_write hw

/-- `delete` removes one file at most. -/
theorem confined_delete (root : String) (q : Resource) (fs : FileSystem) :
    fs.Confined [fileName q.id] (delete root q fs).world := by
  unfold delete
  split
  · next fs' hr =>
    rw [← lastNames_path root q]
    exact FileSystem.confined_of_remove hr
  · exact (FileSystem.Spares.refl fs).confined _
  · exact (FileSystem.Spares.refl fs).confined _

section

variable (hne : fileName q.id ≠ fileName r.id) (h : (read root r fs).reply = .returned (some s))

include hne h

/-- `read_of_confined` after a `write` of a resource whose file has another name. -/
theorem read_after_write : (read root r (write root q fs).2).reply = .returned (some s) :=
  read_of_confined (confined_write root q fs) (by simpa using hne.symm) h

/-- `read_of_confined` after a `delete` of such a resource. -/
theorem read_after_delete : (read root r (delete root q fs).world).reply = .returned (some s) :=
  read_of_confined (confined_delete root q fs) (by simpa using hne.symm) h

end

/-- The document of a tree that can be stored is parsed as the tree; each part of `Storable` is
used. -/
theorem parse_pretty {a : Attributes} (h : a.Storable) : parse a.toJson.pretty = some a := by
  unfold parse
  rw [Json.parse_pretty h.plain]
  exact (if_pos h.depth_le).trans h.ordered.ofJson?_toJson

theorem eq_of_write (h : (write root r fs).1 = .returned s) : s = r := by
  unfold write at h
  split at h
  · cases h
  · split at h
    · cases h
    · cases h
      rfl

/-- A resource that was written `Holds`: it can be read back as it is, attributes and all. -/
theorem holds_of_write (ha : r.attributes.Storable) (h : (write root r fs).1 = .returned s) :
    Holds root (write root r fs).2 r := by
  unfold write at h ⊢
  split at h
  · cases h
  · split at h
    · cases h
    · next hw =>
      exact read_eq_some_iff.mpr ⟨_, _, FileSystem.read_of_write hw, parse_pretty ha, rfl⟩

end LocalFiles

end Provision
