import HotkeyTree.Files.Tree
import Mathlib

/-!
# Proofs: what the operations on files do

What a program can learn of the files is where the paths lead and what is there. In these terms the
operations have laws: looking and reading change nothing, making directories only adds directories,
and a file is either written or everything stays as it was. A file system may refuse any operation
and still keep to the laws. The one that is a value keeps to them.
-/

open Std.Do

set_option mvcgen.warning false

namespace HotkeyTree

/-- What can be seen of the files. -/
structure FileMap (P : Type) where
  /-- The place that a path leads to, whether something is there or not. -/
  place? : String → Option P
  /-- What is at a place. -/
  item? : P → Option FileItem

namespace FileMap

variable {P : Type} {inside : P → P → Prop} {a b c : FileMap P} {path : String}
  {paths : List String} {content : ByteArray} {p : P}

/-- What a path leads to. -/
def at? (a : FileMap P) (path : String) : Option FileItem := (a.place? path).bind a.item?

/-- What the file holds that a path leads to. -/
def content? (a : FileMap P) (path : String) : Option ByteArray :=
  match a.at? path with
  | some (.file content) => some content
  | _ => none

theorem content?_eq_none (h : a.at? path = none) : a.content? path = none := by
  rw [content?, h]

/-- What is inside of something is there only if that is there. -/
def IsTree (inside : P → P → Prop) (a : FileMap P) : Prop :=
  ∀ q p, inside q p → a.item? p = none → a.item? q = none

/-! ## Changes -/

/-- The paths still lead where they led. -/
def PathsKept (a b : FileMap P) : Prop := ∀ path p, a.place? path = some p → b.place? path = some p

/-- Where nothing was, there is a directory now that one of some paths leads to. -/
structure NewDirectory (paths : List String) (a b : FileMap P) (p : P) : Prop where
  missing : a.item? p = none
  made : b.item? p = some .directory
  leads : ∃ path ∈ paths, b.place? path = some p

/-- Only directories have been made, and some paths lead to them. -/
structure DirectoriesMade (paths : List String) (a b : FileMap P) : Prop where
  paths_kept : PathsKept a b
  items : ∀ p, b.item? p = a.item? p ∨ NewDirectory paths a b p

/-- The file has been written that a path leads to, and nothing else. -/
structure FileWritten (path : String) (content : ByteArray) (a b : FileMap P) (p : P) : Prop where
  paths_kept : PathsKept a b
  leads : b.place? path = some p
  overwritable : a.item? p ≠ some .directory
  written : b.item? p = some (.file content)
  others : ∀ q, q ≠ p → b.item? q = a.item? q

theorem PathsKept.trans (hab : PathsKept a b) (hbc : PathsKept b c) : PathsKept a c :=
  fun path p h => hbc path p (hab path p h)

theorem NewDirectory.later (h : NewDirectory paths a b p) (hkept : PathsKept b c)
    (hitem : c.item? p = b.item? p) : NewDirectory paths a c p where
  missing := h.missing
  made := hitem.trans h.made
  leads := by
    obtain ⟨path, hmem, hlead⟩ := h.leads
    exact ⟨path, hmem, hkept path p hlead⟩

theorem DirectoriesMade.refl (paths : List String) (a : FileMap P) : DirectoriesMade paths a a where
  paths_kept := fun _ _ h => h
  items := fun _ => Or.inl rfl

theorem DirectoriesMade.trans (hab : DirectoriesMade paths a b) (hbc : DirectoriesMade paths b c) :
    DirectoriesMade paths a c where
  paths_kept := hab.paths_kept.trans hbc.paths_kept
  items := by
    intro p
    rcases hab.items p with hp | hp <;> rcases hbc.items p with hq | hq
    · exact Or.inl (hq.trans hp)
    · exact Or.inr ⟨hp ▸ hq.missing, hq.made, hq.leads⟩
    · exact Or.inr (hp.later hbc.paths_kept hq)
    · exact absurd (hp.made.symm.trans hq.missing) nofun

theorem DirectoriesMade.mono {more : List String} (h : DirectoriesMade paths a b)
    (hsub : paths ⊆ more) : DirectoriesMade more a b where
  paths_kept := h.paths_kept
  items := by
    intro p
    rcases h.items p with hp | hp
    · exact Or.inl hp
    · obtain ⟨path, hmem, hlead⟩ := hp.leads
      exact Or.inr ⟨hp.missing, hp.made, path, hsub hmem, hlead⟩

/-- A directory that has been made in a tree holds nothing but others that have been made. -/
theorem DirectoriesMade.inside_new (h : DirectoriesMade paths a b) (ha : a.IsTree inside)
    (hp : NewDirectory paths a b p) {q : P} (hq : inside q p) :
    b.item? q = none ∨ NewDirectory paths a b q := by
  rcases h.items q with hsame | hnew
  · exact Or.inl (hsame.trans (ha q p hq hp.missing))
  · exact Or.inr hnew

end FileMap

/-! ## The laws -/

theorem triple_iff_run {σ α : Type} {x : StateM σ α} {before : σ → Prop} {after : α → σ → Prop} :
    ⦃fun s => ⌜before s⌝⦄ x ⦃⇓ r s => ⌜after r s⌝⦄ ↔
      ∀ s, before s → after (x.run s).1 (x.run s).2 := Iff.rfl

/-- A file system whose operations do with what can be seen of the files what they are for, or else
report a fault. A fault in making directories may come after some of them have been made. -/
structure FileSystem.Lawful {σ P : Type} [FileSystem (StateM σ)] (look : σ → FileMap P) : Prop where
  pathExists (path : String) (a : FileMap P) :
    ⦃fun s => ⌜look s = a⌝⦄ (FileSystem.pathExists path : StateM σ Bool)
    ⦃⇓ found s => ⌜look s = a ∧ found = (a.at? path).isSome⌝⦄
  readFile (path : String) (a : FileMap P) :
    ⦃fun s => ⌜look s = a⌝⦄ (FileSystem.readFile path : StateM σ (Except String ByteArray))
    ⦃⇓ r s => ⌜look s = a ∧ ∀ content, r = .ok content → a.content? path = some content⌝⦄
  createDirectories (path : String) (a : FileMap P) :
    ⦃fun s => ⌜look s = a⌝⦄ (FileSystem.createDirectories path : StateM σ (Except String Unit))
    ⦃⇓ r s => ⌜FileMap.DirectoriesMade (Path.lineage path) a (look s) ∧
      (r = .ok () → ∀ whole ∈ (Path.lineage path).head?,
        (look s).at? whole = some .directory)⌝⦄
  writeFile (path : String) (content : ByteArray) (a : FileMap P) :
    ⦃fun s => ⌜look s = a⌝⦄ (FileSystem.writeFile path content : StateM σ (Except String Unit))
    ⦃⇓ r s => ⌜match r with
      | .ok () => ∃ p, FileMap.FileWritten path content a (look s) p
      | .error _ => look s = a⌝⦄

/-- An operation may report a fault where the files look like this. -/
def FileSystem.Refuses {σ P α : Type} (look : σ → FileMap P) (x : StateM σ (Except String α))
    (a : FileMap P) : Prop :=
  ∃ s cause, look s = a ∧ (x.run s).1 = .error cause

/-- A fault comes from an operation that may report one. -/
theorem FileSystem.triple_refuses {σ P α : Type} {look : σ → FileMap P}
    {x : StateM σ (Except String α)} {a : FileMap P} {after : Except String α → σ → Prop}
    (h : ⦃fun s => ⌜look s = a⌝⦄ x ⦃⇓ r s => ⌜after r s⌝⦄) :
    ⦃fun s => ⌜look s = a⌝⦄ x
    ⦃⇓ r s => ⌜after r s ∧ ∀ cause, r = .error cause → Refuses look x a⌝⦄ := by
  refine triple_iff_run.2 ?_
  intro s hs
  exact ⟨triple_iff_run.1 h s hs, fun cause hfault => ⟨s, cause, hs, hfault⟩⟩

/-! ## File trees -/

namespace FileTree

variable {t u : FileTree} {p q : Place} {path : String} {content : ByteArray}

/-- What can be seen of a file tree. -/
def map (t : FileTree) : FileMap Place where
  place? path := (t.resolve path).toOption
  item? := t.item?

/-- A place is right inside of another one. -/
def Inside (q p : Place) : Prop := ∃ name, q = name :: p

theorem item?_put_self {i : FileItem} (hp : p ≠ []) : (t.put p i).item? p = some i := by
  simp [item?, put, hp]

theorem item?_put_of_ne {i : FileItem} (h : q ≠ p) : (t.put p i).item? q = t.item? q := by
  have hne : (q == p) = false := beq_false_of_ne h
  simp only [item?, put, List.lookup_cons, hne]

theorem ne_nil_of_item?_ne (h : t.item? p ≠ some .directory) : p ≠ [] := by
  rintro rfl
  exact h rfl

/-- The directories are still there. -/
structure DirectoriesKept (t u : FileTree) : Prop where
  workingDirectory : u.workingDirectory = t.workingDirectory
  items : ∀ p, t.item? p = some .directory → u.item? p = some .directory

theorem directoriesKept_put {i : FileItem} (h : t.item? p ≠ some .directory) :
    DirectoriesKept t (t.put p i) where
  workingDirectory := rfl
  items := by
    intro q hq
    have hne : q ≠ p := by
      rintro rfl
      exact h hq
    rw [item?_put_of_ne hne, hq]

theorem DirectoriesKept.follow (h : DirectoriesKept t u) {here : Place} {part : String}
    (hp : t.follow here part = .ok p) : u.follow here part = .ok p := by
  rcases hitem : t.item? here with _ | ⟨_ | content⟩
  · simp [FileTree.follow, hitem] at hp
  · rw [FileTree.follow, h.items here hitem]
    rwa [FileTree.follow, hitem] at hp
  · simp [FileTree.follow, hitem] at hp

theorem DirectoriesKept.followAll (h : DirectoriesKept t u) {here : Place} {parts : List String}
    (hp : t.followAll here parts = .ok p) : u.followAll here parts = .ok p := by
  induction parts generalizing here with
  | nil => exact hp
  | cons part rest ih =>
    rcases hfollow : t.follow here part with fault | next
    · rw [FileTree.followAll, hfollow] at hp
      cases hp
    · rw [FileTree.followAll, hfollow] at hp
      rw [FileTree.followAll, h.follow hfollow]
      exact ih hp

theorem map_place?_eq_some : t.map.place? path = some p ↔ t.resolve path = .ok p := by
  simp only [map]
  cases t.resolve path <;> simp [Except.toOption]

/-- A path leads where it led as long as the directories are there. -/
theorem DirectoriesKept.pathsKept (h : DirectoriesKept t u) : FileMap.PathsKept t.map u.map := by
  intro path p hp
  rw [map_place?_eq_some] at hp ⊢
  by_cases hpath : isPath path = true
  · rw [resolve, if_pos hpath] at hp ⊢
    rw [h.workingDirectory]
    exact h.followAll hp
  · rw [resolve, if_neg hpath] at hp
    cases hp

theorem at?_map (t : FileTree) (path : String) : t.map.at? path = t.at? path := by
  simp only [FileMap.at?, map, at?]
  cases t.resolve path <;> rfl

theorem content?_map_of_readFile (h : t.readFile path = .ok content) :
    t.map.content? path = some content := by
  rcases hresolve : t.resolve path with fault | p
  · simp [readFile, hresolve, Bind.bind, Except.bind] at h
  · have hat : t.map.at? path = t.item? p := by rw [at?_map, at?, hresolve]
    rw [FileMap.content?, hat]
    simp only [readFile, hresolve, Bind.bind, Except.bind] at h
    rcases hitem : t.item? p with _ | ⟨_ | held⟩ <;> rw [hitem] at h <;> cases h
    rfl

theorem fileWritten_of_writeFile (h : t.writeFile path content = .ok u) :
    ∃ p, FileMap.FileWritten path content t.map u.map p := by
  rcases hresolve : t.resolve path with fault | p
  · simp [writeFile, hresolve, Bind.bind, Except.bind] at h
  · simp only [writeFile, hresolve, Bind.bind, Except.bind] at h
    have hfree : t.item? p ≠ some .directory := by
      intro hdirectory
      rw [hdirectory] at h
      cases h
    have hu : u = t.put p (.file content) := by
      rcases hitem : t.item? p with _ | ⟨_ | held⟩ <;> rw [hitem] at h <;> cases h <;> rfl
    subst hu
    have hkept := (directoriesKept_put (i := .file content) hfree).pathsKept
    exact ⟨p, hkept, hkept path p (map_place?_eq_some.2 hresolve), hfree,
      item?_put_self (ne_nil_of_item?_ne hfree), fun q hq => item?_put_of_ne hq⟩

theorem exists_of_createDirectory (h : t.createDirectory path = .ok u) :
    ∃ p, t.resolve path = .ok p ∧ t.item? p = none ∧ u = t.put p .directory := by
  rcases hresolve : t.resolve path with fault | p
  · simp [createDirectory, hresolve, Bind.bind, Except.bind] at h
  · simp only [createDirectory, hresolve, Bind.bind, Except.bind] at h
    rcases hitem : t.item? p with _ | item <;> rw [hitem] at h <;> cases h
    exact ⟨p, rfl, hitem, rfl⟩

/-- A directory that is made stands where its path leads, before and after. -/
theorem directoriesMade_of_createDirectory (h : t.createDirectory path = .ok u) :
    FileMap.DirectoriesMade [path] t.map u.map ∧ u.at? path = some .directory := by
  obtain ⟨p, hresolve, hitem, rfl⟩ := exists_of_createDirectory h
  have hfree : t.item? p ≠ some .directory := by rw [hitem]; nofun
  have hkept := (directoriesKept_put (i := .directory) hfree).pathsKept
  have hleads := hkept path p (map_place?_eq_some.2 hresolve)
  have hmade := item?_put_self (t := t) (i := .directory) (ne_nil_of_item?_ne hfree)
  refine ⟨⟨hkept, fun q => ?_⟩, ?_⟩
  · by_cases hq : q = p
    · subst hq
      exact Or.inr ⟨hitem, hmade, path, List.mem_singleton_self path, hleads⟩
    · exact Or.inl (item?_put_of_ne hq)
  · rw [at?, map_place?_eq_some.1 hleads]
    exact hmade

theorem directoriesMade_of_ensureDirectory (h : t.ensureDirectory path = .ok u) :
    FileMap.DirectoriesMade [path] t.map u.map ∧ u.at? path = some .directory := by
  rcases hmake : t.createDirectory path with fault | made
  · rw [ensureDirectory, hmake] at h
    dsimp only at h
    split at h
    · rename_i hthere
      cases h
      refine ⟨.refl _ _, ?_⟩
      obtain ⟨item, hitem, hdirectory⟩ := (Option.any_eq_true _ _).1 hthere
      cases item with
      | directory => exact hitem
      | file content => cases hdirectory
    · cases h
  · rw [ensureDirectory, hmake] at h
    cases h
    exact directoriesMade_of_createDirectory hmake

/-- Also where some directories cannot be made, only directories have been made. -/
theorem directoriesMade_createDirectories (t : FileTree) (paths : List String) :
    FileMap.DirectoriesMade paths t.map (t.createDirectories paths).1.map := by
  induction paths with
  | nil => exact .refl _ _
  | cons path above ih =>
    -- the directory itself is made at once, or after those above it
    have hsingle : [path] ⊆ path :: above := by simp
    have habove := ih.mono (List.subset_cons_self path above)
    rw [createDirectories]
    split
    · rename_i made hmake
      exact (directoriesMade_of_ensureDirectory hmake).1.mono hsingle
    · split
      · rename_i between hbetween
        rw [hbetween] at habove
        split
        · rename_i made hmake
          exact habove.trans ((directoriesMade_of_ensureDirectory hmake).1.mono hsingle)
        · exact habove
      · exact habove
    · exact .refl _ _

theorem at?_createDirectories (t : FileTree) (paths : List String)
    (h : (t.createDirectories paths).2 = .ok ()) :
    ∀ path ∈ paths.head?, (t.createDirectories paths).1.at? path = some .directory := by
  rcases paths with _ | ⟨path, above⟩
  · nofun
  · rintro _ ⟨⟩
    rw [createDirectories] at h ⊢
    split at h
    · rename_i made hmake
      exact (directoriesMade_of_ensureDirectory hmake).2
    · split at h
      · split at h
        · rename_i made hmake
          exact (directoriesMade_of_ensureDirectory hmake).2
        · cases h
      · rename_i hfailed
        exact (hfailed _ (Prod.ext rfl h)).elim
    · cases h

theorem worded_eq_ok {α : Type} {r : Except Fault α} {x : α} :
    worded r = .ok x ↔ r = .ok x := by
  cases r <;> simp [worded]

theorem run_pathExists (t : FileTree) (path : String) :
    (FileSystem.pathExists path : StateM FileTree _).run t = ((t.at? path).isSome, t) := rfl

theorem run_readFile (t : FileTree) (path : String) :
    (FileSystem.readFile path : StateM FileTree _).run t = (worded (t.readFile path), t) := rfl

theorem run_createDirectories (t : FileTree) (path : String) :
    (FileSystem.createDirectories path : StateM FileTree _).run t =
      (worded (t.createDirectories (Path.lineage path)).2,
        (t.createDirectories (Path.lineage path)).1) := rfl

theorem run_writeFile (t : FileTree) (path : String) (content : ByteArray) :
    (FileSystem.writeFile path content : StateM FileTree _).run t =
      match t.writeFile path content with
      | .ok u => (.ok (), u)
      | .error fault => (.error fault.text, t) := rfl

/-- A file tree as a file system keeps to the laws. -/
theorem lawful_map : FileSystem.Lawful map where
  pathExists path a := by
    refine triple_iff_run.2 ?_
    rintro t rfl
    rw [run_pathExists, at?_map]
    exact ⟨rfl, rfl⟩
  readFile path a := by
    refine triple_iff_run.2 ?_
    rintro t rfl
    rw [run_readFile]
    refine ⟨rfl, fun content hcontent => ?_⟩
    rcases hread : t.readFile path with fault | held
    · rw [hread] at hcontent
      cases hcontent
    · rw [hread] at hcontent
      cases hcontent
      exact content?_map_of_readFile hread
  createDirectories path a := by
    refine triple_iff_run.2 ?_
    rintro t rfl
    rw [run_createDirectories]
    refine ⟨directoriesMade_createDirectories t (Path.lineage path), fun h whole hwhole => ?_⟩
    rw [at?_map]
    exact at?_createDirectories t (Path.lineage path) (worded_eq_ok.1 h) whole hwhole
  writeFile path content a := by
    refine triple_iff_run.2 ?_
    rintro t rfl
    rw [run_writeFile]
    rcases hwrite : t.writeFile path content with fault | u
    · exact rfl
    · exact fileWritten_of_writeFile hwrite

end FileTree

end HotkeyTree
