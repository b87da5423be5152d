import Provision.Proofs.FileSystem.Resources
import Provision.Proofs.State.Document
import Provision.State.File

/-!
# State files

A state is written to a draft beside the state file first, which then takes its place.

* `Path.exists_withExtension`: the draft has another name than the state file.
* `State.Stopped`: what can be left when storing a state stops on the way.
  `State.stopped_of_persist`: a state that is not stored leaves no more behind.
* `State.Stopped.look_eq`: so the state file is there as it was.
* `State.load_of_persist`: a state that was stored is loaded.
* `State.survives_storage`: resources and states survive their documents, and a state file survives
  what goes wrong.
-/

namespace Provision

namespace Path

variable {name : String} {before : List String}

theorem not_isIdle (h : IsName name) : isIdle name = false := by
  simp [isIdle, h.ne_empty, h.ne_dot]

theorem upToName_concat (h : isIdle name = false) :
    upToName (before ++ [name]) = before ++ [name] := by
  cases before with
  | nil => rfl
  | cons b bs =>
    have hdrop : ((bs ++ [name]).reverse.dropWhile isIdle) = (bs ++ [name]).reverse := by
      rw [List.reverse_concat, List.dropWhile_cons_of_neg (by simp [h])]
    simp only [List.cons_append, upToName, hdrop, List.reverse_reverse]

/-- `parts` undoes `ofParts`, if the last part is not empty. -/
theorem parts_ofParts {before : List String} {last : String} (hne : last ≠ "")
    (h : ∀ q ∈ before ++ [last], '/' ∉ q.toList) :
    parts (ofParts (before ++ [last])) = before ++ [last] := by
  have hroot : before ++ [last] ≠ [""] := by
    intro he
    have hlast := congrArg List.getLast? he
    rw [List.getLast?_concat] at hlast
    exact hne (Option.some.inj hlast)
  unfold ofParts
  rw [if_neg hroot]
  exact parts_eq_iff.mpr ⟨List.concat_ne_nil _ _, h, rfl⟩

/-- `splitName` cuts a name at its last dot, so the extension has none. -/
theorem splitName_cases (name : String) : splitName name = (name, none) ∨
    ∃ stem ext, splitName name = (stem, some ext) ∧ name = stem ++ "." ++ ext ∧
      '.' ∉ ext.toList := by
  unfold splitName
  dsimp only
  split
  · exact .inl rfl
  · exact .inl rfl
  · next c stem _ hdrop =>
    have hsplit := List.takeWhile_append_dropWhile (p := (· ≠ '.')) (l := name.toList.reverse)
    have hdot := List.head?_dropWhile_not (· ≠ '.') name.toList.reverse
    rw [hdrop] at hsplit hdot
    obtain rfl : c = '.' := by simpa using hdot
    have hext : ∀ d ∈ name.toList.reverse.takeWhile (· ≠ '.'), d ≠ '.' := fun d hd => by
      simpa using List.mem_takeWhile_imp hd
    generalize name.toList.reverse.takeWhile (· ≠ '.') = ext at hsplit hext
    refine .inr ⟨_, _, rfl, ?_, fun hmem => ?_⟩
    · rw [← String.toList_inj, ← List.reverse_inj, ← hsplit]
      simp
    · rw [String.toList_ofList, List.mem_reverse] at hmem
      exact hext _ hmem rfl

theorem noSlash_splitName {name : String} (h : '/' ∉ name.toList) :
    '/' ∉ (splitName name).1.toList := by
  rcases splitName_cases name with hs | ⟨stem, ext, hs, hname, -⟩
  · rwa [hs]
  · rw [hs]
    intro hmem
    exact h (by simp [hname, hmem])

/-- An extension with a dot in it makes another name, as no extension that was cut off has one. -/
theorem splitName_append_ne (name : String) {extension : String} (h : '.' ∈ extension.toList) :
    (splitName name).1 ++ "." ++ extension ≠ name := by
  intro he
  rcases splitName_cases name with hs | ⟨stem, ext, hs, hname, hext⟩
  · rw [hs] at he
    have hlength := congrArg (fun s : String => s.toList.length) he
    simp at hlength
  · rw [hs, hname] at he
    have := (String.append_right_inj _).mp he
    exact hext (this ▸ h)

/-- `withExtension` changes the last name, if the extension has a dot in it. Without a dot, the file
could be its own draft. -/
theorem exists_withExtension {p name extension : String} {before : List String}
    (hp : parts p = before ++ [name]) (hn : IsName name) (hslash : '/' ∉ extension.toList)
    (hdot : '.' ∈ extension.toList) :
    ∃ last, lastNames (withExtension p extension) = [last] ∧ last ≠ name := by
  have hfile : fileName? p = some name := by
    unfold fileName?
    rw [hp, upToName_concat (not_isIdle hn)]
    simp [not_isIdle hn, hn.ne_dots]
  have hne : (splitName name).1 ++ "." ++ extension ≠ "" := by
    rw [← String.toList_inj.ne]
    simp
  have hparts : ∀ q ∈ before ++ [(splitName name).1 ++ "." ++ extension], '/' ∉ q.toList := by
    intro q hq
    rcases List.mem_append.mp hq with hq | hq
    · exact (parts_eq_iff.mp hp).2.1 q (List.mem_append_left _ hq)
    · rw [List.mem_singleton.mp hq]
      simp [noSlash_splitName hn.noSlash, hslash]
  refine ⟨_, ?_, splitName_append_ne name hdot⟩
  unfold withExtension
  rw [hfile, hp, upToName_concat (not_isIdle hn), List.dropLast_concat]
  exact lastNames_of_parts (parts_ofParts hne hparts) hne

end Path

namespace FileSystem

variable {fs fs' : FileSystem} {p : String} {l : Location} {name : String}

/-- A path that leads to an entry, without a slash at its end, ends with the name of the entry,
which is a proper name. -/
theorem parts_of_target (h : fs.target p = .ok (.named l name false)) :
    ∃ before, Path.parts p = before ++ [name] ∧ Path.IsName name := by
  rcases target_cases h with ⟨⟨l', ht⟩, -⟩ | ⟨l', name', hname, hdot, hdots, ht⟩
  · cases ht
  · obtain ⟨rfl, rfl, hslash⟩ := Target.named.inj ht
    obtain ⟨hne, hparts, -⟩ := Path.parts_eq_iff.mp (rfl : Path.parts p = Path.parts p)
    rcases List.eq_nil_or_concat' (Path.parts p) with hnil | ⟨before, last, hlast⟩
    · exact absurd hnil hne
    · rw [hlast, List.getLast?_concat] at hslash
      have hempty : last ≠ "" := by simpa using hslash
      obtain rfl := Option.some.inj (hname.symm.trans (Path.getLast?_names hlast hempty))
      have hmem : name ∈ Path.parts p := hlast ▸ List.mem_append_right _ List.mem_cons_self
      exact ⟨before, hlast, hparts name hmem, hempty, hdot, hdots⟩

end FileSystem

namespace State

variable {s : State} {p : String} {fs fs' : FileSystem}

/-! ## Storing -/

theorem spares_makeDirectory (p : String) (fs : FileSystem) :
    fs.Spares [] (makeDirectory fs p).2 := by
  unfold makeDirectory
  split
  · exact .refl fs
  · next directory _ =>
    have hs := fs.spares_makeDirectories directory
    split <;> next hm => rwa [hm] at hs

/-- What can be left when storing a state stops before the new state is in place. -/
inductive Stopped (p : String) (fs : FileSystem) : FileSystem → Prop
  /-- Some directories were made. -/
  | directories {fs₁ : FileSystem} (h : fs.Spares [] fs₁) : Stopped p fs fs₁
  /-- The draft was written, or a part of it. -/
  | draft {fs₁ fs₂ : FileSystem} (h : fs.Spares [] fs₁) (part : Content)
    (hw : fs₁.write (draftPath p) part = .ok fs₂) : Stopped p fs fs₂

/-- Whichever of its steps fails, `persist` leaves no more behind than `Stopped` says. -/
theorem stopped_of_persist {f : Failure} (h : s.persist p fs = (.error f, fs')) :
    Stopped p fs fs' := by
  have hmake := spares_makeDirectory p fs
  unfold persist at h
  split at h
  · next fs₁ hm =>
    rw [hm] at hmake
    cases h
    exact .directories hmake
  · next fs₁ hm =>
    rw [hm] at hmake
    split at h
    · cases h
      exact .directories hmake
    · next fs₂ hw =>
      split at h
      · cases h
        exact .draft hmake _ hw
      · cases h

/-- The three steps of `persist`, when all of them succeed: directories, the draft, the draft in
place of the state file. -/
theorem exists_of_persist (h : s.persist p fs = (.ok (), fs')) :
    ∃ fs₁ fs₂, fs.Spares [] fs₁ ∧ fs₁.write (draftPath p) (.text s.toJson.pretty) = .ok fs₂ ∧
      fs₂.replace (draftPath p) p = .ok fs' := by
  have hmake := spares_makeDirectory p fs
  unfold persist at h
  split at h
  · cases h
  · next fs₁ hm =>
    rw [hm] at hmake
    split at h
    · cases h
    · next fs₂ hw =>
      split at h
      · cases h
      · next hr =>
        cases h
        exact ⟨fs₁, fs₂, hmake, hw, hr⟩

theorem Stopped.confined (h : Stopped p fs fs') :
    fs.Confined (Path.lastNames (draftPath p)) fs' := by
  cases h with
  | directories hs => exact hs.confined _
  | draft hs part hw => exact (hs.confined _).trans (FileSystem.confined_of_write hw)

/-- `persist` touches only files with the last names of the state file and of its draft, whether it
succeeds or not. -/
theorem confined_persist (s : State) (p : String) (fs : FileSystem) :
    fs.Confined (Path.lastNames (draftPath p) ++ Path.lastNames p) (s.persist p fs).2 := by
  obtain ⟨result, fs', h⟩ : ∃ result fs', s.persist p fs = (result, fs') := ⟨_, _, rfl⟩
  rw [h]
  cases result with
  | error f => exact (stopped_of_persist h).confined.mono (List.subset_append_left _ _)
  | ok =>
    obtain ⟨fs₁, fs₂, hs, hw, hr⟩ := exists_of_persist h
    have hdraft := Stopped.confined (.draft hs _ hw)
    exact (hdraft.mono (List.subset_append_left _ _)).trans (FileSystem.confined_of_replace hr)

/-- The draft is another file than the state file: its name has the extension `json.tmp`, and
`splitName` cuts at the last dot only. -/
theorem draft_apart {l : Location} {name : String} (h : fs.target p = .ok (.named l name false))
    {m : Location} {last : String} {slash : Bool}
    (hd : fs'.target (draftPath p) = .ok (.named m last slash)) : name :: l ≠ last :: m := by
  obtain ⟨before, hparts, hn⟩ := FileSystem.parts_of_target h
  obtain ⟨last', hlast, hne⟩ := Path.exists_withExtension hparts hn
    (show '/' ∉ "json.tmp".toList by decide) (by decide)
  have hmem := FileSystem.mem_lastNames hd
  rw [draftPath, hlast, List.mem_singleton] at hmem
  intro he
  exact hne (hmem ▸ (List.cons.inj he).1.symm)

/-- As long as the new state is not in place, the state file is there with what it held. A draft
that was written in part is no exception: `part` is any content. -/
theorem Stopped.look_eq (h : Stopped p fs fs') {content : Content}
    (hlook : fs.look p = .ok (.file content)) : fs'.look p = .ok (.file content) := by
  obtain ⟨l, name, ht⟩ := FileSystem.target_of_look hlook
  cases h with
  | directories hs => exact hs.look_eq ht List.not_mem_nil hlook
  | draft hs part hw =>
    -- only the draft was written, and that is another file
    obtain ⟨m, last, hd, hs', -⟩ := FileSystem.spares_of_write hw
    have hapart := draft_apart ht hd
    exact hs'.look_eq (hs.target_eq ht) (by simpa using hapart)
      (hs.look_eq ht List.not_mem_nil hlook)

/-! ## Reading -/

/-- `parse` reads the text of a state as the state, unless it is nested deeper than
`Json.depthLimit`; then it is refused as a whole. -/
theorem parse_pretty (ho : s.Ordered) (hp : s.Plain) :
    parse s.toJson.pretty = if s.toJson.depth ≤ Json.depthLimit then some s else none := by
  unfold parse
  rw [Json.parse_pretty hp.toJson, Option.bind_eq_bind, Option.bind_some, ofJson?_toJson ho]
  rfl

theorem load_of_read {text : String} (h : fs.read p = .ok text) (now : Timestamp) :
    load fs p now = match parse text with
      | none => .error (.unparsable .stateFile p)
      | some s => .ok s := by
  obtain ⟨e, hlook, -⟩ := FileSystem.bind_eq_ok.mp h
  have hcontains : fs.contains p = true := by
    unfold FileSystem.contains
    rw [hlook]
    rfl
  unfold load
  rw [hcontains, h]
  rfl

/-- A state that was stored is loaded. One that is nested too deeply is stored as well, and can then
not be loaded. -/
theorem load_of_persist (ho : s.Ordered) (hp : s.Plain) (h : s.persist p fs = (.ok (), fs'))
    (now : Timestamp) : load fs' p now =
      if s.toJson.depth ≤ Json.depthLimit then .ok s else .error (.unparsable .stateFile p) := by
  obtain ⟨fs₁, fs₂, -, hw, hr⟩ := exists_of_persist h
  have hread := FileSystem.read_of_replace hr (FileSystem.read_of_write hw)
  rw [load_of_read hread, parse_pretty ho hp]
  by_cases hdepth : s.toJson.depth ≤ Json.depthLimit
  · rw [if_pos hdepth, if_pos hdepth]
  · rw [if_neg hdepth, if_neg hdepth]

/-- **Storage.** Resources and states in key order are what their documents stand for, and documents
stand for no others. A state without doubles that was stored is loaded again, unless it is nested
deeper than documents are read. Until it is in place, whatever goes wrong on the way (`Stopped`),
the state file is there with what it held. -/
theorem survives_storage :
    (∀ r : Resource, r.attributes.Ordered → Resource.ofJson? r.toJson = some r) ∧
    (∀ s : State, s.Ordered → ofJson? s.toJson = some s) ∧
    (∀ j r, Resource.ofJson? j = some r → Resource.ofJson? r.toJson = some r) ∧
    (∀ j s, ofJson? j = some s → ofJson? s.toJson = some s) ∧
    (∀ (s : State) (p : String) (fs fs' : FileSystem) (now : Timestamp), s.Ordered → s.Plain →
      s.persist p fs = (.ok (), fs') → load fs' p now =
        if s.toJson.depth ≤ Json.depthLimit then .ok s else .error (.unparsable .stateFile p)) ∧
    ∀ (p : String) (fs : FileSystem) (content : Content), fs.look p = .ok (.file content) →
      (∀ (s : State) (f : Failure) (fs' : FileSystem), s.persist p fs = (.error f, fs') →
        fs'.look p = .ok (.file content)) ∧
      ∀ fs', Stopped p fs fs' → fs'.look p = .ok (.file content) := by
  refine ⟨fun r => Resource.ofJson?_toJson, fun s => ofJson?_toJson, fun j r h => ?_,
    fun j s h => ?_, fun s p fs fs' now ho hp h => load_of_persist ho hp h now,
    fun p fs content hlook => ⟨fun s f fs' h => ?_, fun fs' h => h.look_eq hlook⟩⟩
  · exact Resource.ofJson?_toJson (Resource.ordered_of_ofJson? h)
  · exact ofJson?_toJson (ordered_of_ofJson? h)
  · exact (stopped_of_persist h).look_eq hlook

end State

end Provision
