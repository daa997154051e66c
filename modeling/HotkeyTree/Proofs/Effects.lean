import HotkeyTree.Program
import HotkeyTree.Proofs.Files.Laws
import HotkeyTree.Proofs.Files.Path

/-!
# Proofs: what a run does to the files

A run first reads all that it needs, then makes the directories above its output, and writes the
output last. So whatever goes wrong on the way, no file differs afterwards. If nothing goes wrong,
the output is the only file that differs, and what it holds follows from what was there before the
run, also where the output is one of the files that were read. Nothing goes wrong unless something
is missing or broken, or the file system reports a fault.
-/

open Std.Do

set_option mvcgen.warning false

namespace HotkeyTree

/-! ## What there is to be read -/

namespace FileMap

variable {P : Type}

/-- The text of the file that a path leads to. -/
def text? (a : FileMap P) (path : String) : Option String :=
  (a.content? path).bind String.fromUTF8?

/-- The nodes in the table that a path leads to. -/
def nodes? (a : FileMap P) (path : String) : Option (List Node) :=
  (a.content? path).bind fun bytes => (VendorTable.ofBytes bytes).toOption

/-- The document that a path leads to. -/
def document? (a : FileMap P) (path : String) : Option Document :=
  (a.text? path).bind Document.read?

/-- The configuration in the file that a path leads to. -/
def configurationAt? (a : FileMap P) (path : String) : Option Configuration :=
  (a.text? path).bind fun text => (Configuration.parse text).toOption

/-- The configuration for a run. -/
def configuration? (a : FileMap P) : Option String → Option Configuration
  | some path => a.configurationAt? path
  | none =>
    if (a.at? defaultConfiguration).isSome then a.configurationAt? defaultConfiguration
    else some {}

end FileMap

/-! ## What a run comes to -/

namespace Program

variable {P : Type} {inside : P → P → Prop} {a b c : FileMap P} {p : P}

open FileMap FileSystem

/-- The document has been built from the table and stands at the output. -/
def Built (s : BuildSettings) (a b : FileMap P) : Prop :=
  ∃ nodes p, a.nodes? s.input = some nodes ∧
    b.place? s.output = some p ∧ a.item? p ≠ some .directory ∧
    b.item? p = some (.file ((documentOf s (Build.ofNodes nodes)).write ++ "\n").toUTF8) ∧
    ∀ q, q ≠ p → b.item? q = a.item? q ∨ NewDirectory (Path.above s.output) a b q

/-- The document has been shown, at the output or on the standard output. -/
def Shown (s : RenderSettings) (a b : FileMap P) (told : String) : Prop :=
  ∃ d, a.document? s.input = some d ∧
    match s.output with
    | none => b = a ∧ told = Rendering.render s.options d
    | some path => ∃ p, FileWritten path (Rendering.render s.options d).toUTF8 a b p

/-- A command has been carried out. -/
def CarriedOut (k : Configuration) (a b : FileMap P) (told : String) : Command → Prop
  | .build arguments => Built (.resolve arguments k.build) a b
  | .render arguments => Shown (.resolve arguments k.render) a b told
  | .completions shell => b = a ∧ told = CommandLine.completionScript shell

/-- The directories that a command makes before it writes. -/
def directoriesFor (k : Configuration) : Command → List String
  | .build arguments => Path.above (BuildSettings.resolve arguments k.build).output
  | _ => []

/-- What was asked for has been done. -/
def Done (i : Invocation) (a b : FileMap P) (told : String) : Prop :=
  ∃ k, a.configuration? i.config = some k ∧ CarriedOut k a b told i.command

/-- A result is what is there. If there is none, nothing is there, or the file system refused it. -/
def Faithful {ε α : Type} (there : Option α) (refused : Prop) : Except ε α → Prop
  | .ok x => there = some x
  | .error _ => there = none ∨ refused

/-- Everything is as it was, except for directories that were made on the way to the output, and
they hold only one another. -/
def Undone (inside : P → P → Prop) (i : Invocation) (a b : FileMap P) : Prop :=
  ∀ p, b.item? p = a.item? p ∨ ∃ k, a.configuration? i.config = some k ∧
    NewDirectory (directoriesFor k i.command) a b p ∧
    ∀ q, inside q p → b.item? q = none ∨ NewDirectory (directoriesFor k i.command) a b q

/-- After the directories above the output are made, writing the text of a document there is all
that building it takes. -/
theorem built_of_fileWritten {s : BuildSettings} {nodes : List Node}
    (hnodes : a.nodes? s.input = some nodes) (hmade : DirectoriesMade (Path.above s.output) a b)
    (hwritten : FileWritten s.output
      (documentText (documentOf s (Build.ofNodes nodes))).toUTF8 b c p) : Built s a c := by
  refine ⟨nodes, p, hnodes, hwritten.leads, ?_, hwritten.written, ?_⟩
  · rcases hmade.items p with hsame | hnew
    · exact fun hdirectory => hwritten.overwritable (hsame.trans hdirectory)
    · exact absurd hnew.made hwritten.overwritable
  · intro q hq
    rcases hmade.items q with hsame | hnew
    · exact Or.inl ((hwritten.others q hq).trans hsame)
    · exact Or.inr (hnew.later hwritten.paths_kept (hwritten.others q hq))

/-- A run that has only made directories has undone the rest: they hold nothing but one another. -/
theorem undone_of_directoriesMade {i : Invocation} {k : Configuration} (ha : a.IsTree inside)
    (hk : a.configuration? i.config = some k)
    (hmade : DirectoriesMade (directoriesFor k i.command) a b) : Undone inside i a b := by
  intro p
  rcases hmade.items p with hsame | hnew
  · exact Or.inl hsame
  · exact Or.inr ⟨k, hk, hnew, fun q hq => hmade.inside_new ha hnew hq⟩

/-- A command that succeeds ends the run with exit code 0 and with what it tells. -/
theorem toOutcome_ok {r : CommandReport} {told : String} (h : r.result = .ok told)
    (verbosity : Nat) :
    (r.toOutcome verbosity).exitCode = 0 ∧ (r.toOutcome verbosity).output = told := by
  rw [CommandReport.toOutcome, h]
  exact ⟨rfl, rfl⟩

/-- A command that fails ends the run with exit code 1 and an empty standard output. -/
theorem toOutcome_error {r : CommandReport} {failure : Failure} (h : r.result = .error failure)
    (verbosity : Nat) :
    (r.toOutcome verbosity).exitCode = 1 ∧ (r.toOutcome verbosity).output = "" := by
  rw [CommandReport.toOutcome, h]
  exact ⟨rfl, rfl⟩

section

variable {σ : Type} [FileSystem (StateM σ)] {look : σ → FileMap P}

/-- What keeps a document from being built, and how the files are then. -/
inductive BuildHindered (look : σ → FileMap P) (s : BuildSettings) (a b : FileMap P) : Prop where
  | noTable (h : a.nodes? s.input = none)
  | unread (h : Refuses look (FileSystem.readFile s.input) a)
  | noDirectory {parent : String} (hparent : parent ∈ (Path.above s.output).head?)
    (h : Refuses look (FileSystem.createDirectories parent) a)
  | unwritten {nodes : List Node} (hnodes : a.nodes? s.input = some nodes)
    (habove : ∀ parent ∈ (Path.above s.output).head?, b.at? parent = some .directory)
    (h : Refuses look (FileSystem.writeFile s.output
      (documentText (documentOf s (Build.ofNodes nodes))).toUTF8) b)

/-- What keeps a document from being shown. -/
inductive RenderHindered (look : σ → FileMap P) (s : RenderSettings) (a : FileMap P) : Prop where
  | noDocument (h : a.document? s.input = none)
  | unread (h : Refuses look (FileSystem.readFile s.input) a)
  | unwritten {d : Document} {path : String} (hd : a.document? s.input = some d)
    (hpath : s.output = some path)
    (h : Refuses look (FileSystem.writeFile path (Rendering.render s.options d).toUTF8) a)

/-- What keeps a command from being carried out. -/
def CommandHindered (look : σ → FileMap P) (k : Configuration) (a b : FileMap P) : Command → Prop
  | .build arguments => BuildHindered look (.resolve arguments k.build) a b
  | .render arguments => RenderHindered look (.resolve arguments k.render) a
  | .completions _ => False

/-- What keeps a run from doing what was asked for. -/
inductive Hindered (look : σ → FileMap P) (i : Invocation) (a b : FileMap P) : Prop where
  | noConfiguration (h : a.configuration? i.config = none)
  | unread (h : Refuses look (FileSystem.readFile (i.config.getD defaultConfiguration)) a)
  | command {k : Configuration} (hk : a.configuration? i.config = some k)
    (h : CommandHindered look k a b i.command)

/-! ## Reading -/

variable (hlaw : FileSystem.Lawful look)

include hlaw

/-- Reading a configuration gives what is in the file, and no file is different afterwards. -/
theorem readConfiguration_spec (path : String) (a : FileMap P) :
    ⦃fun s => ⌜look s = a⌝⦄
      (readConfiguration path : StateM σ (Except Failure Configuration))
    ⦃⇓ r s => ⌜look s = a ∧
      Faithful (a.configurationAt? path) (Refuses look (FileSystem.readFile path) a) r⌝⦄ := by
  have hread := fun a => triple_refuses (hlaw.readFile path a)
  mvcgen [readConfiguration, hread]
  all_goals simp_all [configurationAt?, text?, Faithful, Except.toOption]

/-- A named configuration has to be there. The default one is left out where there is none. -/
theorem loadConfiguration_spec (path? : Option String) (a : FileMap P) :
    ⦃fun s => ⌜look s = a⌝⦄
      (loadConfiguration path? : StateM σ (Except Failure Configuration))
    ⦃⇓ r s => ⌜look s = a ∧ Faithful (a.configuration? path?)
      (Refuses look (FileSystem.readFile (path?.getD defaultConfiguration)) a) r⌝⦄ := by
  have hexists := hlaw.pathExists defaultConfiguration
  have hread := readConfiguration_spec hlaw
  mvcgen [loadConfiguration, hexists, hread]
  all_goals simp_all [configuration?, Faithful]

/-- Loading a table gives the nodes in it, unless it is missing or broken. -/
theorem loadTable_spec (path : String) (a : FileMap P) :
    ⦃fun s => ⌜look s = a⌝⦄
      (loadTable path : StateM σ (Except Failure (List Node)))
    ⦃⇓ r s => ⌜look s = a ∧
      Faithful (a.nodes? path) (Refuses look (FileSystem.readFile path) a) r⌝⦄ := by
  have hexists := hlaw.pathExists path
  have hread := fun a => triple_refuses (hlaw.readFile path a)
  mvcgen [loadTable, hexists, hread]
  case vc5 hlook _ hmissing _ h =>
    subst hlook
    rw [h.2, Bool.not_eq_true, Option.isSome_eq_false_iff, Option.isNone_iff_eq_none] at hmissing
    exact ⟨h.1, Or.inl (by rw [nodes?, content?_eq_none hmissing, Option.bind_none])⟩
  all_goals simp_all [nodes?, Faithful, Except.toOption]

/-- Loading a document gives the document in the file, unless it is missing or broken. -/
theorem loadDocument_spec (path : String) (a : FileMap P) :
    ⦃fun s => ⌜look s = a⌝⦄
      (loadDocument path : StateM σ (Except Failure Document))
    ⦃⇓ r s => ⌜look s = a ∧
      Faithful (a.document? path) (Refuses look (FileSystem.readFile path) a) r⌝⦄ := by
  have hexists := hlaw.pathExists path
  have hread := fun a => triple_refuses (hlaw.readFile path a)
  mvcgen [loadDocument, hexists, hread]
  case vc5 hlook _ hmissing _ h =>
    subst hlook
    rw [h.2, Bool.not_eq_true, Option.isSome_eq_false_iff, Option.isNone_iff_eq_none] at hmissing
    exact ⟨h.1, Or.inl (by rw [document?, text?, content?_eq_none hmissing, Option.bind_none,
      Option.bind_none])⟩
  all_goals simp_all [document?, text?, Faithful]

/-! ## Writing -/

/-- Whether or not the directory above the output could be made, nothing is new but directories on
the way to it. -/
theorem createAbove_spec (path : String) (a : FileMap P) :
    ⦃fun s => ⌜look s = a⌝⦄
      (createAbove path : StateM σ (Except Failure Unit))
    ⦃⇓ r s => ⌜DirectoriesMade (Path.above path) a (look s) ∧ match r with
      | .ok () => ∀ parent ∈ (Path.above path).head?, (look s).at? parent = some .directory
      | .error _ => ∃ parent ∈ (Path.above path).head?,
        Refuses look (FileSystem.createDirectories parent) a⌝⦄ := by
  have hcreate := fun path a => triple_refuses (hlaw.createDirectories path a)
  mvcgen [createAbove, hcreate]
  case vc1 hnone _ hlook =>
    subst hlook
    rw [hnone]
    exact ⟨.refl _ _, nofun⟩
  case vc2 habove _ hlook _ cause _ _ h =>
    subst hlook
    rw [Path.lineage_of_above habove] at h
    exact ⟨h.1.1, _, by rw [habove]; rfl, h.2 cause rfl⟩
  case vc3 habove _ hlook _ _ _ h =>
    subst hlook
    rw [Path.lineage_of_above habove] at h
    exact ⟨h.1.1, h.1.2⟩

/-- Writing a text changes the file that the path leads to, and nothing if it is refused. -/
theorem writeText_spec (path text : String) (a : FileMap P) :
    ⦃fun s => ⌜look s = a⌝⦄
      (writeText path text : StateM σ (Except Failure Unit))
    ⦃⇓ r s => ⌜match r with
      | .ok () => ∃ p, FileWritten path text.toUTF8 a (look s) p
      | .error _ => look s = a ∧ Refuses look (FileSystem.writeFile path text.toUTF8) a⌝⦄ := by
  have hwrite := fun a => triple_refuses (hlaw.writeFile path text.toUTF8 a)
  mvcgen [writeText, hwrite]
  all_goals simp_all

/-! ## The commands -/

/-- Nothing but directories is made before the output is written, and that is the last step. So a
build that fails leaves at most directories. -/
theorem build_spec (s : BuildSettings) (a : FileMap P) :
    ⦃fun t => ⌜look t = a⌝⦄
      (build s : StateM σ CommandReport)
    ⦃⇓ r t => ⌜match r.result with
      | .ok _ => Built s a (look t)
      | .error _ =>
        DirectoriesMade (Path.above s.output) a (look t) ∧ BuildHindered look s a (look t)⌝⦄ := by
  have htable := loadTable_spec hlaw s.input
  have habove := createAbove_spec hlaw s.output
  have hwrite := writeText_spec hlaw s.output
  mvcgen [build, htable, habove, hwrite]
  -- the first three end with a failure: before, in and after the making of directories
  case vc1 hlook _ _ _ _ hload =>
    subst hlook
    rcases hload.2 with hnone | hrefused
    · exact ⟨hload.1 ▸ .refl _ _, .noTable hnone⟩
    · exact ⟨hload.1 ▸ .refl _ _, .unread hrefused⟩
  case vc2 hlook _ _ _ _ _ _ _ hload _ failure _ _ h =>
    rw [hload.1, hlook] at h
    obtain ⟨hmade, parent, hparent, hrefused⟩ := h
    exact ⟨hmade, .noDirectory hparent hrefused⟩
  case vc3 hlook _ _ _ _ _ _ _ hload _ _ _ hmade _ _ _ _ h =>
    obtain ⟨hkept, hrefused⟩ := h
    rw [hload.1, hlook, ← hkept] at hmade
    rw [hlook] at hload
    exact ⟨hmade.1, .unwritten hload.2 hmade.2 (hkept ▸ hrefused)⟩
  case vc4 hlook _ nodes _ _ _ _ _ hload _ _ _ hmade _ _ _ _ _ hwritten =>
    obtain ⟨p, hp⟩ := hwritten
    rw [hload.1, hlook] at hmade
    rw [hlook] at hload
    exact built_of_fileWritten hload.2 hmade.1 hp

/-- A document is shown at the output or on the standard output, or no file is different. -/
theorem render_spec (s : RenderSettings) (a : FileMap P) :
    ⦃fun t => ⌜look t = a⌝⦄
      (render s : StateM σ CommandReport)
    ⦃⇓ r t => ⌜match r.result with
      | .ok told => Shown s a (look t) told
      | .error _ => look t = a ∧ RenderHindered look s a⌝⦄ := by
  have hdocument := loadDocument_spec hlaw s.input
  have hwrite := writeText_spec hlaw
  mvcgen [render, hdocument, hwrite]
  case vc1 hlook _ _ _ _ hload =>
    subst hlook
    rcases hload.2 with hnone | hrefused
    · exact ⟨hload.1, .noDocument hnone⟩
    · exact ⟨hload.1, .unread hrefused⟩
  case vc2 hlook _ d _ _ _ hnone _ hload =>
    subst hlook
    refine ⟨d, hload.2, ?_⟩
    rw [hnone]
    exact ⟨hload.1, rfl⟩
  case vc3 hlook _ _ _ _ _ path hsome _ hload _ _ _ _ h =>
    subst hlook
    rw [hload.1] at h
    exact ⟨h.1, .unwritten hload.2 hsome h.2⟩
  case vc4 hlook _ d _ _ _ _ hsome _ hload _ _ _ hwritten =>
    subst hlook
    refine ⟨d, hload.2, ?_⟩
    rw [hsome, ← hload.1]
    exact hwritten

/-- Each command is carried out, or it is hindered and has at most made the directories it needs. -/
theorem carryOut_spec (k : Configuration) (command : Command) (a : FileMap P) :
    ⦃fun t => ⌜look t = a⌝⦄
      (carryOut k command : StateM σ CommandReport)
    ⦃⇓ r t => ⌜match r.result with
      | .ok told => CarriedOut k a (look t) told command
      | .error _ => DirectoriesMade (directoriesFor k command) a (look t) ∧
        CommandHindered look k a (look t) command⌝⦄ := by
  have hbuild := build_spec hlaw
  have hrender := render_spec hlaw
  mvcgen [carryOut, hbuild, hrender]
  case vc1 hlook _ _ =>
    subst hlook
    exact id
  case vc2 hlook r _ =>
    subst hlook
    rcases r.result with failure | told
    · exact fun h => ⟨h.1 ▸ .refl _ _, h.2⟩
    · exact id

/-! ## The run -/

/-- A run loads the configuration, which changes nothing, and then carries out the command. -/
theorem run_spec {words : List String} {i : Invocation}
    (hread : CommandLine.read words = .ok i) (a : FileMap P) (ha : a.IsTree inside) :
    ⦃fun t => ⌜look t = a⌝⦄
      (run words : StateM σ Outcome)
    ⦃⇓ o t => ⌜(o.exitCode = 0 ∧ Done i a (look t) o.output) ∨
      (o.exitCode = 1 ∧ o.output = "" ∧ Hindered look i a (look t) ∧
        Undone inside i a (look t))⌝⦄ := by
  have hload := loadConfiguration_spec hlaw
  have hcarry := carryOut_spec hlaw
  mvcgen [run, hload, hcarry]
  case vc1 hrefused _ _ =>
    rw [hread] at hrefused
    cases hrefused
  case vc2 hgiven _ hlook _ failure _ _ hbroken =>
    obtain rfl : i = _ := Except.ok.inj (hread.symm.trans hgiven)
    obtain ⟨hkept, hcause⟩ := hbroken
    subst hlook
    refine Or.inr ⟨rfl, rfl, ?_, fun p => Or.inl (by rw [hkept])⟩
    rcases hcause with hnone | hrefused
    · exact .noConfiguration hnone
    · exact .unread hrefused
  case vc3 hgiven _ hlook _ k _ _ hloaded r t hcarried =>
    obtain rfl : i = _ := Except.ok.inj (hread.symm.trans hgiven)
    obtain ⟨hkept, hk⟩ := hloaded
    subst hlook
    rw [hkept] at hcarried
    rcases hresult : r.result with failure | told
    · rw [hresult] at hcarried
      obtain ⟨hexit, htold⟩ := toOutcome_error hresult i.verbosity
      exact Or.inr ⟨hexit, htold, .command hk hcarried.2,
        undone_of_directoriesMade ha hk hcarried.1⟩
    · rw [hresult] at hcarried
      obtain ⟨hexit, htold⟩ := toOutcome_ok hresult i.verbosity
      exact Or.inl ⟨hexit, k, hk, htold ▸ hcarried⟩

/-- **What a run does to the files**: all that was asked for, or nothing but empty directories. -/
theorem done_or_undone {words : List String} {i : Invocation}
    (hread : CommandLine.read words = .ok i) (s : σ) (hs : (look s).IsTree inside) :
    let (o, t) := (run words : StateM σ Outcome).run s
    (o.exitCode = 0 ∧ Done i (look s) (look t) o.output) ∨
      (o.exitCode = 1 ∧ o.output = "" ∧ Hindered look i (look s) (look t) ∧
        Undone inside i (look s) (look t)) :=
  triple_iff_run.1 (run_spec hlaw hread (look s) hs) s rfl

end

/-- Nothing but an empty table. -/
def emptyTable : FileTree where
  items := [(["table"], .file "<array/>".toUTF8)]

theorem isTree_emptyTable : emptyTable.map.IsTree FileTree.Inside := by
  rintro _ p ⟨name, rfl⟩ hp
  have hroot : p ≠ [] := by
    rintro rfl
    cases hp
  show emptyTable.item? (name :: p) = none
  simp [emptyTable, FileTree.item?, hroot]

/-- The words that ask for building from a table what is to stand at an output. -/
def wordsFor (table output : String) : List String :=
  ["build", "--input", table, "--output", output]

/-- What these words ask for. -/
def invocationFor (table output : String) : Invocation where
  command := .build { input := some table, output := some output }

/-- What comes of these words. -/
def buildFrom (table output : String) : Outcome × FileTree :=
  (run (wordsFor table output) : StateM FileTree Outcome).run emptyTable

/-- A table can be replaced by its document. Nothing can be written into a directory that is not
there, and what is above that directory is made in vain. -/
theorem done_or_undone_emptyTable :
    ((buildFrom "table" "table").1.exitCode = 0 ∧
      Done (invocationFor "table" "table") emptyTable.map (buildFrom "table" "table").2.map
        (buildFrom "table" "table").1.output) ∧
    ((buildFrom "table" "new/missing/.").1.exitCode = 1 ∧
      Hindered FileTree.map (invocationFor "table" "new/missing/.") emptyTable.map
        (buildFrom "table" "new/missing/.").2.map ∧
      Undone FileTree.Inside (invocationFor "table" "new/missing/.") emptyTable.map
        (buildFrom "table" "new/missing/.").2.map) := by
  constructor
  · have hread : CommandLine.read (wordsFor "table" "table") =
        .ok (invocationFor "table" "table") := rfl
    have hexit : (buildFrom "table" "table").1.exitCode = 0 := by decide +kernel
    rcases done_or_undone FileTree.lawful_map hread emptyTable isTree_emptyTable with h | h
    · exact h
    · exact absurd (hexit.symm.trans h.1) (by decide)
  · have hread : CommandLine.read (wordsFor "table" "new/missing/.") =
        .ok (invocationFor "table" "new/missing/.") := rfl
    have hexit : (buildFrom "table" "new/missing/.").1.exitCode = 1 := by decide +kernel
    rcases done_or_undone FileTree.lawful_map hread emptyTable isTree_emptyTable with h | h
    · exact absurd (hexit.symm.trans h.1) (by decide)
    · exact ⟨h.1, h.2.2⟩

end Program

end HotkeyTree
