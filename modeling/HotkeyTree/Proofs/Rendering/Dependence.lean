import HotkeyTree.Proofs.Outline
import HotkeyTree.Proofs.Rendering.Formats

/-!
# Proofs: what a rendering depends on

Two documents that agree on what is shown have the same texts, whatever else they hold: the keys of
their mappings, identifiers, defaults, the remarks on where they come from. What is shown depends on
the format and the options. So agreement has two conditions as parameters, one under which ids have
to agree and one for dynamic shortcuts, and each text is the same under the conditions that it
needs.
-/

namespace HotkeyTree

/-! ## Documents that agree -/

structure Shortcut.Agree (ids marks : Prop) (s s' : Shortcut) : Prop where
  key : s.key = s'.key
  name : s.name = s'.name
  id : ids → s.id = s'.id
  dynamic : marks → s.isDynamic = s'.isDynamic

mutual

/-- Entries of one kind that agree at every depth. The keys they are stored under do not matter. -/
inductive Entry.Agree (ids marks : Prop) : Entry → Entry → Prop where
  | shortcut {s s' : Shortcut} (h : s.Agree ids marks s') :
    Entry.Agree ids marks (.shortcut s) (.shortcut s')
  | group {g g' : Group} (h : Group.Agree ids marks g g') :
    Entry.Agree ids marks (.group g) (.group g')

inductive Group.Agree (ids marks : Prop) : Group → Group → Prop where
  | mk {g g' : Group} (key : g.key = g'.key) (name : g.name = g'.name)
    (entries : List.Forall₂ (fun slot slot' => Entry.Agree ids marks slot.2 slot'.2)
      g.entries g'.entries) :
    Group.Agree ids marks g g'

end

structure Category.Agree (ids marks : Prop) (c c' : Category) : Prop where
  key : c.key = c'.key
  name : c.name = c'.name
  shortcuts : List.Forall₂ (fun slot slot' => slot.2.Agree ids marks slot'.2)
    c.shortcuts c'.shortcuts
  subgroups : List.Forall₂ (fun slot slot' => slot.2.Agree ids marks slot'.2)
    c.subgroups c'.subgroups

/-- Documents with trees of one shape, in which what is in the same place agrees. -/
def Document.Agree (ids marks : Prop) (d d' : Document) : Prop :=
  List.Forall₂ (fun slot slot' => slot.2.Agree ids marks slot'.2) d.categories d'.categories

namespace Outline

/-! ## Lines that agree -/

inductive Kind.Agree (ids marks : Prop) : Kind → Kind → Prop where
  | category : Kind.Agree ids marks .category .category
  | group : Kind.Agree ids marks .group .group
  | shortcut {id id' : Int64} {dynamic dynamic' : Bool} (hid : ids → id = id')
    (hdynamic : marks → dynamic = dynamic') :
    Kind.Agree ids marks (.shortcut id dynamic) (.shortcut id' dynamic')

structure Line.Agree (ids marks : Prop) (l l' : Line) : Prop where
  depth : l.depth = l'.depth
  key : l.key = l'.key
  name : l.name = l'.name
  kind : Kind.Agree ids marks l.kind l'.kind

variable {ids marks : Prop}

/-- Lists made of matching elements match. Where the elements match by an induction, this is only
known of those of the first list. -/
theorem forall₂_flatMap {α β γ δ : Type} {R : α → β → Prop} {S : γ → δ → Prop} {f : α → List γ}
    {g : β → List δ} {as : List α} {bs : List β} (h : List.Forall₂ R as bs)
    (hfg : ∀ a ∈ as, ∀ b, R a b → List.Forall₂ S (f a) (g b)) :
    List.Forall₂ S (as.flatMap f) (bs.flatMap g) := by
  induction h with
  | nil => exact .nil
  | @cons a b as bs hab _ ih =>
    rw [List.flatMap_cons, List.flatMap_cons]
    apply List.rel_append
    · exact hfg a List.mem_cons_self b hab
    · exact ih fun a' ha' => hfg a' (List.mem_cons_of_mem _ ha')

theorem agree_ofShortcut {s s' : Shortcut} (h : s.Agree ids marks s') (depth : Nat) :
    (ofShortcut depth s).Agree ids marks (ofShortcut depth s') :=
  ⟨rfl, h.key, h.name, .shortcut h.id h.dynamic⟩

theorem agree_ofEntry (e : Entry) : ∀ e', Entry.Agree ids marks e e' → ∀ depth,
    List.Forall₂ (Line.Agree ids marks) (ofEntry depth e) (ofEntry depth e') := by
  induction e using Entry.induction with
  | shortcut s =>
    rintro _ ⟨h⟩ depth
    exact .cons (agree_ofShortcut h depth) .nil
  | group g ih =>
    rintro _ (_ | @⟨_, g', ⟨key, name, entries⟩⟩) depth
    rw [ofEntry, ofEntry, ofGroup_eq, ofGroup_eq]
    constructor
    · exact ⟨rfl, key, name, .group⟩
    · apply forall₂_flatMap entries
      intro slot hslot slot' h
      exact ih slot hslot slot'.2 h (depth + 1)

theorem agree_ofCategory {c c' : Category} (h : c.Agree ids marks c') :
    List.Forall₂ (Line.Agree ids marks) (ofCategory c) (ofCategory c') := by
  have hline : ∀ slot slot' : String × Shortcut, slot.2.Agree ids marks slot'.2 →
      (ofShortcut 1 slot.2).Agree ids marks (ofShortcut 1 slot'.2) :=
    fun _ _ hs => agree_ofShortcut hs 1
  constructor
  · exact ⟨rfl, h.key, h.name, .category⟩
  · apply List.rel_append
    · exact List.rel_map hline h.shortcuts
    · apply forall₂_flatMap h.subgroups
      intro slot _ slot' hg
      exact agree_ofEntry (.group slot.2) (.group slot'.2) (.group hg) 1

/-- Documents that agree have outlines that agree line by line. -/
theorem agree_ofDocument {d d' : Document} (h : d.Agree ids marks d') :
    List.Forall₂ (Line.Agree ids marks) (ofCategories d.categories) (ofCategories d'.categories) :=
  forall₂_flatMap h fun _ _ _ hc => agree_ofCategory hc

/-- What is the same of lines that agree is the same of lists of them. -/
theorem map_eq_of_agree {α : Type} {f : Line → α} {ls ls' : List Line}
    (h : List.Forall₂ (Line.Agree ids marks) ls ls')
    (hf : ∀ l l', Line.Agree ids marks l l' → f l = f l') : ls.map f = ls'.map f :=
  List.forall₂_eq_eq_eq ▸ List.rel_map hf h

theorem countP_eq_of_agree {p : Line → Bool} {ls ls' : List Line}
    (h : List.Forall₂ (Line.Agree ids marks) ls ls')
    (hp : ∀ l l', Line.Agree ids marks l l' → p l = p l') : ls.countP p = ls'.countP p := by
  have hmap := congrArg (List.countP id) (map_eq_of_agree h hp)
  rwa [List.countP_map, List.countP_map] at hmap

namespace Line.Agree

variable {l l' : Line}

theorem isShortcut_eq (h : l.Agree ids marks l') : l.isShortcut = l'.isShortcut := by
  obtain ⟨depth, key, name, kind⟩ := l
  obtain ⟨depth', key', name', kind'⟩ := l'
  obtain ⟨-, -, -, hkind⟩ := h
  cases hkind <;> rfl

theorem isDynamicShortcut_eq (h : l.Agree ids marks l') (hmarks : marks) :
    l.isDynamicShortcut = l'.isDynamicShortcut := by
  obtain ⟨depth, key, name, kind⟩ := l
  obtain ⟨depth', key', name', kind'⟩ := l'
  obtain ⟨-, -, -, hkind⟩ := h
  cases hkind with
  | category => rfl
  | group => rfl
  | shortcut hid hdynamic => exact hdynamic hmarks

end Line.Agree

end Outline

namespace Rendering

open Outline

variable {ids marks : Prop} {o : Options} {d d' : Document}

/-! ## Segments of lines that agree -/

/-- An id that is shown agrees, and one that is not shown does not matter. -/
theorem idText_congr (hids : o.showIds = true → ids) {id id' : Int64} (h : ids → id = id') :
    idText o id = idText o id' := by
  unfold idText
  by_cases hshow : o.showIds = true
  · rw [h (hids hshow)]
  · rw [if_neg hshow, if_neg hshow]

theorem dynamicText_congr (hmarks : o.showDynamic = true → marks) {dynamic dynamic' : Bool}
    (h : marks → dynamic = dynamic') (mark : String) :
    dynamicText o mark dynamic = dynamicText o mark dynamic' := by
  unfold dynamicText
  by_cases hshow : o.showDynamic = true
  · rw [h (hmarks hshow)]
  · rw [Bool.not_eq_true] at hshow
    rw [hshow, Bool.false_and, Bool.false_and]

theorem compactSegment_congr (hids : o.showIds = true → ids) (hmarks : o.showDynamic = true → marks)
    {l l' : Line} (h : l.Agree ids marks l') : compactSegment o l = compactSegment o l' := by
  obtain ⟨depth, key, name, kind⟩ := l
  obtain ⟨depth', key', name', kind'⟩ := l'
  obtain ⟨rfl, rfl, rfl, hkind⟩ := h
  unfold compactSegment compactText
  cases hkind with
  | category => rfl
  | group => rfl
  | shortcut hid hdynamic =>
    simp only [idText_congr hids hid, dynamicText_congr hmarks hdynamic]

theorem reportSegment_congr (hids : o.showIds = true → ids) (hmarks : o.showDynamic = true → marks)
    {l l' : Line} (h : l.Agree ids marks l') : reportSegment o l = reportSegment o l' := by
  obtain ⟨depth, key, name, kind⟩ := l
  obtain ⟨depth', key', name', kind'⟩ := l'
  obtain ⟨rfl, rfl, rfl, hkind⟩ := h
  unfold reportSegment reportText
  cases hkind with
  | category => rfl
  | group => rfl
  | shortcut hid hdynamic =>
    simp only [idText_congr hids hid, dynamicText_congr hmarks hdynamic]

/-! ## Numbers of documents that agree -/

theorem categories_eq_of_agree (h : d.Agree ids marks d') :
    (Statistics.ofCategories d.categories).categories =
      (Statistics.ofCategories d'.categories).categories :=
  h.length_eq

theorem shortcuts_eq_of_agree (h : d.Agree ids marks d') :
    (Statistics.ofCategories d.categories).total.shortcuts =
      (Statistics.ofCategories d'.categories).total.shortcuts := by
  rw [Statistics.total_eq_tally, Statistics.total_eq_tally]
  exact countP_eq_of_agree (agree_ofDocument h) fun _ _ hl => hl.isShortcut_eq

theorem dynamic_eq_of_agree (h : d.Agree ids marks d') (hmarks : marks) :
    (Statistics.ofCategories d.categories).total.dynamic =
      (Statistics.ofCategories d'.categories).total.dynamic := by
  rw [Statistics.total_eq_tally, Statistics.total_eq_tally]
  exact countP_eq_of_agree (agree_ofDocument h) fun _ _ hl => hl.isDynamicShortcut_eq hmarks

theorem anyDynamic_eq_of_agree (h : d.Agree ids marks d') (hmarks : marks) :
    Statistics.anyDynamic d.categories = Statistics.anyDynamic d'.categories := by
  rw [Bool.eq_iff_iff, Statistics.anyDynamic_eq_true_iff, Statistics.anyDynamic_eq_true_iff,
    dynamic_eq_of_agree h hmarks]

/-! ## Whole texts -/

theorem compact_congr (h : d.Agree ids marks d') (hids : o.showIds = true → ids)
    (hmarks : o.showDynamic = true → marks) : compact o d = compact o d' := by
  have hbody := map_eq_of_agree (agree_ofDocument h) fun _ _ => compactSegment_congr hids hmarks
  rw [compact, compact, hbody]

/-- The end of the report up to the number of dynamic shortcuts. -/
def footerFront (shortcuts : Nat) : String :=
  "\n## Statistics\n\n" ++ "- Total shortcuts: " ++ toString shortcuts ++ "\n"

/-- The line that counts dynamic shortcuts. -/
def dynamicLine (dynamic : Nat) : String := "- Dynamic shortcuts: " ++ toString dynamic ++ "\n"

/-- The end of the report after that line. -/
def footerBack (categories : Nat) : String := "- Categories: " ++ toString categories ++ "\n"

theorem reportFooter_eq_append (s : Statistics) :
    reportFooter s =
      footerFront s.total.shortcuts ++
        (dynamicLine s.total.dynamic ++ footerBack s.categories) := by
  -- literals are left apart: only on one side do two of them come together
  unfold reportFooter footerFront dynamicLine footerBack
  simp only [String.append_assoc, -String.reduceAppend]

/-- The report without its end. -/
def reportTree (o : Options) (d : Document) : String :=
  reportHeader o d (Statistics.ofCategories d.categories)
    ++ (if o.showDynamic && Statistics.anyDynamic d.categories then dynamicNote else "")
    ++ "## " ++ o.rootLabel ++ "\n\n"
    ++ String.join ((Outline.ofCategories d.categories).map (reportSegment o))

theorem report_eq_append (o : Options) (d : Document) :
    report o d = reportTree o d ++ reportFooter (Statistics.ofCategories d.categories) := by
  rw [report, reportTree]

theorem reportHeader_congr (h : d.Agree ids marks d') (hversion : d.version = d'.version) :
    reportHeader o d (Statistics.ofCategories d.categories) =
      reportHeader o d' (Statistics.ofCategories d'.categories) := by
  unfold reportHeader
  rw [hversion, categories_eq_of_agree h]

/-- Whether the note stands in the report depends on marks that are shown. -/
theorem reportTree_congr (h : d.Agree ids marks d') (hversion : d.version = d'.version)
    (hids : o.showIds = true → ids) (hmarks : o.showDynamic = true → marks) :
    reportTree o d = reportTree o d' := by
  have hbody := map_eq_of_agree (agree_ofDocument h) fun _ _ => reportSegment_congr hids hmarks
  have hnote : (o.showDynamic && Statistics.anyDynamic d.categories) =
      (o.showDynamic && Statistics.anyDynamic d'.categories) := by
    by_cases hshow : o.showDynamic = true
    · rw [anyDynamic_eq_of_agree h (hmarks hshow)]
    · rw [Bool.not_eq_true] at hshow
      rw [hshow, Bool.false_and, Bool.false_and]
  rw [reportTree, reportTree, reportHeader_congr h hversion, hbody, hnote]

theorem report_congr (h : d.Agree ids marks d') (hversion : d.version = d'.version)
    (hids : o.showIds = true → ids) (hmarks : marks) : report o d = report o d' := by
  rw [report_eq_append, report_eq_append, reportFooter_eq_append, reportFooter_eq_append,
    reportTree_congr h hversion hids fun _ => hmarks, shortcuts_eq_of_agree h,
    categories_eq_of_agree h, dynamic_eq_of_agree h hmarks]

/-- Around the line that counts dynamic shortcuts, reports without marks are the same. -/
theorem report_eq_around_dynamicLine (h : d.Agree ids marks d') (hversion : d.version = d'.version)
    (hids : o.showIds = true → ids) (hshow : o.showDynamic = false) : ∃ front back,
      report o d =
        front ++ dynamicLine (Statistics.ofCategories d.categories).total.dynamic ++ back ∧
      report o d' =
        front ++ dynamicLine (Statistics.ofCategories d'.categories).total.dynamic ++ back := by
  have hmarks : o.showDynamic = true → marks := by
    intro htrue
    rw [hshow] at htrue
    cases htrue
  refine ⟨reportTree o d ++ footerFront (Statistics.ofCategories d.categories).total.shortcuts,
    footerBack (Statistics.ofCategories d.categories).categories, ?_, ?_⟩
  · rw [report_eq_append, reportFooter_eq_append]
    simp only [String.append_assoc]
  · rw [report_eq_append, reportFooter_eq_append, reportTree_congr h hversion hids hmarks,
      shortcuts_eq_of_agree h, categories_eq_of_agree h]
    simp only [String.append_assoc]

/-- What two documents have in common in their texts, if ids agree under one condition and dynamic
shortcuts under another one. -/
structure RenderedAlike (ids marks : Prop) (d d' : Document) : Prop where
  /-- The compact tree tells nothing that the outline does not tell. -/
  compact : ∀ o : Options, o.format = .compact → (o.showIds = true → ids) →
    (o.showDynamic = true → marks) → render o d = render o d'
  /-- The report also tells the version, and counts the dynamic shortcuts whether they are marked or
  not. -/
  report : ∀ o : Options, (o.showIds = true → ids) → marks → d.version = d'.version →
    render o d = render o d'
  /-- If nothing is marked, that number is all that can differ. -/
  unmarked : ∀ o : Options, o.format = .report → (o.showIds = true → ids) →
    o.showDynamic = false → d.version = d'.version → ∃ front back,
      render o d =
        front ++ dynamicLine (Statistics.ofCategories d.categories).total.dynamic ++ back ∧
      render o d' =
        front ++ dynamicLine (Statistics.ofCategories d'.categories).total.dynamic ++ back

/-- **A rendering depends on nothing but what is shown.** -/
theorem renderedAlike_of_agree (h : d.Agree ids marks d') : RenderedAlike ids marks d d' := by
  constructor
  · intro o hformat hids hmarks
    simp only [render, hformat]
    exact compact_congr h hids hmarks
  · intro o hids hmarks hversion
    cases hformat : o.format with
    | compact =>
      simp only [render, hformat]
      exact compact_congr h hids fun _ => hmarks
    | report =>
      simp only [render, hformat]
      exact report_congr h hversion hids hmarks
  · intro o hformat hids hshow hversion
    simp only [render, hformat]
    exact report_eq_around_dynamicLine h hversion hids hshow

/-- A document with a shortcut in a group in a group; everything that need not be shown can be
chosen. -/
def nestedDocument (hidden : String) (id : Int64) (dynamic : Option Bool) : Document where
  version := "1"
  generatedFrom := hidden
  note := hidden
  categories := [(hidden,
    { name := "Windows"
      key := "windows"
      sourceIdentifier := hidden
      subgroups := [(hidden, ⟨"Move", "move", hidden, [(hidden, .group ⟨"Left", "left", hidden,
        [(hidden, .shortcut
          { id, name := "Half", key := "half", dynamic
            defaultKey := some hidden, sourceIdentifier := some hidden })]⟩)]⟩)] })]

theorem agree_nestedDocument {hidden hidden' : String} {id id' : Int64}
    {dynamic dynamic' : Option Bool} (hid : ids → id = id')
    (hdynamic : marks → dynamic.getD false = dynamic'.getD false) :
    (nestedDocument hidden id dynamic).Agree ids marks (nestedDocument hidden' id' dynamic') := by
  refine .cons ⟨rfl, rfl, .nil, .cons ⟨rfl, rfl, .cons (.group ⟨rfl, rfl, ?_⟩) .nil⟩ .nil⟩ .nil
  exact .cons (.shortcut ⟨rfl, rfl, hid, hdynamic⟩) .nil

theorem renderedAlike_nestedDocument :
    ((nestedDocument "a" 1 none).Agree True True (nestedDocument "b" 1 (some false)) ∧
      RenderedAlike True True (nestedDocument "a" 1 none) (nestedDocument "b" 1 (some false))) ∧
    ((nestedDocument "a" 1 none).Agree False False (nestedDocument "b" 2 (some true)) ∧
      RenderedAlike False False (nestedDocument "a" 1 none)
        (nestedDocument "b" 2 (some true))) := by
  have hshown : (nestedDocument "a" 1 none).Agree True True (nestedDocument "b" 1 (some false)) :=
    agree_nestedDocument (fun _ => rfl) fun _ => rfl
  have hhidden : (nestedDocument "a" 1 none).Agree False False (nestedDocument "b" 2 (some true)) :=
    agree_nestedDocument nofun nofun
  exact ⟨⟨hshown, renderedAlike_of_agree hshown⟩, hhidden, renderedAlike_of_agree hhidden⟩

end Rendering

end HotkeyTree
