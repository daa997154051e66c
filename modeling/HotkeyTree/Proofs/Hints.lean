import HotkeyTree.Failure.Basic
import Mathlib.Data.List.Infix

/-!
# Proofs: what decides about the hints

Hints are found by phrases in the chain of a failure. Some phrases are the program's own words, and
they tell one reason for a failure from another. But the chain also quotes a path and a cause, and a
phrase that comes with them counts as well; it can even be put together from the end of the
program's words and the beginning of a path. So the hints are those for the reason unless something
misleading is quoted, and what is misleading can be listed for each reason.
-/

namespace HotkeyTree

/-! ## Where a phrase occurs -/

namespace Hint

/-- A text as it is searched for phrases. -/
def lowered (text : String) : List Char := text.toList.map Char.toLower

/-- A phrase occurs in a text, in any mixture of upper and lower case. -/
def OccursIn (phrase text : String) : Prop := phrase.toList <:+: lowered text

/-- A phrase that cannot run over the mark between two texts of a chain. -/
structure Solid (phrase : String) : Prop where
  ne_nil : phrase.toList ≠ []
  bar_notMem : '|' ∉ phrase.toList
  head_ne : phrase.toList.head? ≠ some ' '
  getLast_ne : phrase.toList.getLast? ≠ some ' '

theorem occurs_iff (p cs : List Char) : occurs p cs = true ↔ p <:+: cs := by
  induction cs with
  | nil => rw [occurs, List.isEmpty_iff, List.infix_nil]
  | cons c cs ih =>
    rw [occurs, Bool.or_eq_true, List.isPrefixOf_iff_prefix, ih, List.infix_cons_iff]

instance (phrase text : String) : Decidable (OccursIn phrase text) :=
  decidable_of_iff _ (occurs_iff phrase.toList (lowered text))

variable {phrase : String}

theorem Solid.not_prefix (h : Solid phrase) {c : Char} (hc : c = ' ' ∨ c = '|') (cs : List Char) :
    ¬ phrase.toList <+: c :: cs := by
  intro hprefix
  rcases List.prefix_cons_iff.1 hprefix with hnil | ⟨t, ht, -⟩
  · exact h.ne_nil hnil
  · rcases hc with rfl | rfl
    · exact h.head_ne (by rw [ht]; rfl)
    · exact h.bar_notMem (by rw [ht]; exact List.mem_cons_self)

/-- Between two texts of a chain a phrase is not found. -/
theorem Solid.infix_append_iff (h : Solid phrase) (as bs : List Char) :
    phrase.toList <:+: as ++ (" | ".toList ++ bs) ↔
      phrase.toList <:+: as ∨ phrase.toList <:+: bs := by
  have hmark : " | ".toList ++ bs = ' ' :: '|' :: ' ' :: bs := rfl
  have hafter : phrase.toList <:+: ' ' :: '|' :: ' ' :: bs ↔ phrase.toList <:+: bs := by
    rw [List.infix_cons_iff, List.infix_cons_iff, List.infix_cons_iff]
    simp only [h.not_prefix (Or.inl rfl), h.not_prefix (Or.inr rfl), false_or]
  rw [hmark, List.infix_append_iff, hafter]
  constructor
  · rintro (has | hbs | ⟨front, back, hphrase, hfront, hback⟩)
    · exact Or.inl has
    · exact Or.inr hbs
    · rcases List.prefix_cons_iff.1 hback with rfl | ⟨back', rfl, hback'⟩
      · rw [List.append_nil] at hphrase
        exact Or.inl (hphrase ▸ hfront.isInfix)
      · rcases List.prefix_cons_iff.1 hback' with rfl | ⟨back'', rfl, -⟩
        · exact absurd (by rw [hphrase]; simp) h.getLast_ne
        · exact absurd (by rw [hphrase]; simp) h.bar_notMem
  · rintro (has | hbs)
    · exact Or.inl has
    · exact Or.inr (Or.inl hbs)

/-- A chain mentions a phrase if one of its texts does. -/
theorem mentions_iff (h : Solid phrase) (chain : List String) :
    mentions chain phrase = true ↔ ∃ text ∈ chain, OccursIn phrase text := by
  have hmark : " | ".toList.map Char.toLower = " | ".toList := by decide
  rw [mentions, occurs_iff, String.toList_intercalate]
  induction chain with
  | nil => simpa using h.ne_nil
  | cons text rest ih =>
    cases rest with
    | nil => simp [OccursIn, lowered]
    | cons text' rest =>
      rw [List.map_cons, List.map_cons, List.intercalate_cons_cons, ← List.map_cons,
        List.append_assoc, List.map_append, List.map_append, hmark, h.infix_append_iff,
        List.exists_mem_cons_iff]
      exact or_congr Iff.rfl ih

/-- The phrases that are looked for. -/
def phrases : List String :=
  ["input not found", "shortcut document", "expected an array", "invalid property list",
   "failed to parse configuration", "invalid shortcut document"]

theorem solid_of_mem_phrases (h : phrase ∈ phrases) : Solid phrase := by
  have hall : ∀ p ∈ phrases, p.toList ≠ [] ∧ '|' ∉ p.toList ∧ p.toList.head? ≠ some ' ' ∧
      p.toList.getLast? ≠ some ' ' := by decide
  obtain ⟨hnil, hbar, hhead, hlast⟩ := hall phrase h
  exact ⟨hnil, hbar, hhead, hlast⟩

end Hint

/-! ## What a failure says and what it quotes -/

namespace Failure

open Hint

/-- The reasons for a failure, without what is quoted. -/
inductive Reason where
  | missingTable
  | missingDocument
  | brokenConfiguration
  | unreadable
  | notPropertyList
  | notArray
  | notDocument
  | noDirectory
  | unwritable
deriving DecidableEq, Repr

def reason : Failure → Reason
  | missingTable _ => .missingTable
  | missingDocument _ => .missingDocument
  | brokenConfiguration .. => .brokenConfiguration
  | unreadable .. => .unreadable
  | notPropertyList .. => .notPropertyList
  | notArray _ => .notArray
  | notDocument .. => .notDocument
  | noDirectory .. => .noDirectory
  | unwritable .. => .unwritable

/-- The path that is quoted. -/
def path : Failure → String
  | missingTable path | missingDocument path | brokenConfiguration path _ | unreadable path _
  | notPropertyList path _ | notArray path | notDocument path _ | noDirectory path _
  | unwritable path _ => path

/-- The cause that is quoted, if there is one. -/
def cause? : Failure → Option String
  | missingTable _ | missingDocument _ | notArray _ => none
  | brokenConfiguration _ cause | unreadable _ cause | notPropertyList _ cause
  | notDocument _ cause | noDirectory _ cause | unwritable _ cause => some cause

namespace Reason

/-- All reasons. What is computed for them in one go reads the phrases only once. -/
def all : List Reason :=
  [.missingTable, .missingDocument, .brokenConfiguration, .unreadable, .notPropertyList, .notArray,
    .notDocument, .noDirectory, .unwritable]

theorem mem_all (r : Reason) : r ∈ all := by
  cases r <;> decide

/-- The words in front of the path. -/
def opening : Reason → String
  | missingTable => "input not found: shortcut table "
  | missingDocument => "input not found: shortcut document "
  | brokenConfiguration => "Failed to parse configuration "
  | unreadable => "Failed to read "
  | notPropertyList | notArray => "Failed to parse "
  | notDocument => "invalid shortcut document "
  | noDirectory => "Failed to create directory "
  | unwritable => "Failed to write "

/-- The words between the path and the cause. -/
def details : Reason → List String
  | notPropertyList => ["invalid property list"]
  | notArray => ["expected an array at the top level of the shortcut table"]
  | _ => []

/-- The phrases among these words. -/
def phrases : Reason → List String
  | missingTable => ["input not found"]
  | missingDocument => ["input not found", "shortcut document"]
  | brokenConfiguration => ["failed to parse configuration"]
  | notPropertyList => ["invalid property list"]
  | notArray => ["expected an array"]
  | notDocument => ["shortcut document", "invalid shortcut document"]
  | unreadable | noDirectory | unwritable => []

/-- What can be done about it. -/
def hints : Reason → List Hint
  | missingTable => [.copyTable, .otherInput]
  | missingDocument => [.buildFirst, .otherInput]
  | brokenConfiguration => [.checkConfiguration]
  | notPropertyList | notArray => [.genuineTable]
  | notDocument => [.buildAgain]
  | unreadable | noDirectory | unwritable => []

/-- The phrases that lead to other hints where they are quoted. -/
def misleading : Reason → List String
  | missingTable =>
    ["shortcut document", "expected an array", "invalid property list",
     "failed to parse configuration", "invalid shortcut document"]
  | missingDocument =>
    ["expected an array", "invalid property list", "failed to parse configuration",
     "invalid shortcut document"]
  | brokenConfiguration =>
    ["input not found", "expected an array", "invalid property list", "invalid shortcut document"]
  | notPropertyList | notArray =>
    ["input not found", "failed to parse configuration", "invalid shortcut document"]
  | notDocument =>
    ["input not found", "expected an array", "invalid property list",
     "failed to parse configuration"]
  | unreadable | noDirectory | unwritable =>
    ["input not found", "expected an array", "invalid property list",
     "failed to parse configuration", "invalid shortcut document"]

end Reason

/-- A phrase is quoted: it occurs in the path or in the cause, or begins with the words in front of
the path, as `Failed to parse configuration.xml` does. -/
inductive Quotes (f : Failure) (phrase : String) : Prop where
  | path (h : OccursIn phrase f.path)
  | cause {cause : String} (hcause : f.cause? = some cause) (h : OccursIn phrase cause)
  | seam (hf : f.reason = .notPropertyList ∨ f.reason = .notArray)
    (hphrase : phrase = "failed to parse configuration")
    (h : "configuration".toList <+: lowered f.path)

theorem quotes_iff (f : Failure) (phrase : String) :
    f.Quotes phrase ↔ OccursIn phrase f.path ∨ (∃ text ∈ f.cause?.toList, OccursIn phrase text) ∨
      (f.reason = .notPropertyList ∨ f.reason = .notArray) ∧
        phrase = "failed to parse configuration" ∧ "configuration".toList <+: lowered f.path := by
  constructor
  · rintro (h | ⟨hcause, h⟩ | ⟨hf, hphrase, h⟩)
    · exact Or.inl h
    · exact Or.inr (Or.inl ⟨_, Option.mem_toList.2 hcause, h⟩)
    · exact Or.inr (Or.inr ⟨hf, hphrase, h⟩)
  · rintro (h | ⟨text, htext, h⟩ | ⟨hf, hphrase, h⟩)
    · exact .path h
    · exact .cause (Option.mem_toList.1 htext) h
    · exact .seam hf hphrase h

instance (f : Failure) (phrase : String) : Decidable (f.Quotes phrase) :=
  decidable_of_iff _ (quotes_iff f phrase).symm

theorem chain_eq (f : Failure) :
    f.chain = (f.reason.opening ++ f.path) :: (f.reason.details ++ f.cause?.toList) := by
  cases f <;> rfl

/-- The words of the program have the phrases that are noted. -/
theorem occursIn_words_iff (r : Reason) {phrase : String} (hphrase : phrase ∈ Hint.phrases) :
    (OccursIn phrase r.opening ∨ ∃ text ∈ r.details, OccursIn phrase text) ↔
      phrase ∈ r.phrases := by
  have hall : ∀ r ∈ Reason.all, ∀ p ∈ Hint.phrases,
      (OccursIn p r.opening ∨ ∃ text ∈ r.details, OccursIn p text) ↔ p ∈ r.phrases := by
    decide +kernel
  exact hall r r.mem_all phrase hphrase

/-- The words in front of a path can end in the middle of one phrase only. -/
theorem seam_eq (r : Reason) {phrase : String} (hphrase : phrase ∈ Hint.phrases)
    {front back : List Char} (hsplit : phrase.toList = front ++ back)
    (hfront : front <:+ lowered r.opening) :
    front = [] ∨ back = [] ∨ (r = .notPropertyList ∨ r = .notArray) ∧
      phrase = "failed to parse configuration" ∧ back = "configuration".toList := by
  have hall : ∀ r ∈ Reason.all, ∀ p ∈ Hint.phrases, ∀ n ∈ List.range (p.toList.length + 1),
      (p.toList.take n).isSuffixOf (lowered r.opening) = true →
        p.toList.take n = [] ∨ p.toList.drop n = [] ∨ (r = .notPropertyList ∨ r = .notArray) ∧
          p = "failed to parse configuration" ∧ p.toList.drop n = "configuration".toList := by
    decide +kernel
  have hlength : front.length ∈ List.range (phrase.toList.length + 1) := by
    rw [List.mem_range, hsplit, List.length_append]
    omega
  have hsuffix := hall r r.mem_all phrase hphrase front.length hlength
  rw [hsplit, List.take_left, List.drop_left, List.isSuffixOf_iff_suffix] at hsuffix
  exact hsuffix hfront

theorem occursIn_append_iff (f : Failure) {phrase : String} (hphrase : phrase ∈ Hint.phrases) :
    OccursIn phrase (f.reason.opening ++ f.path) ↔
      OccursIn phrase f.reason.opening ∨ OccursIn phrase f.path ∨
        ((f.reason = .notPropertyList ∨ f.reason = .notArray) ∧
          phrase = "failed to parse configuration" ∧
            "configuration".toList <+: lowered f.path) := by
  have hlowered : lowered (f.reason.opening ++ f.path) =
      lowered f.reason.opening ++ lowered f.path := by
    rw [lowered, String.toList_append, List.map_append]
    rfl
  rw [OccursIn, hlowered, List.infix_append_iff]
  constructor
  · rintro (h | h | ⟨front, back, hsplit, hfront, hback⟩)
    · exact Or.inl h
    · exact Or.inr (Or.inl h)
    · rcases seam_eq f.reason hphrase hsplit hfront with rfl | rfl | ⟨hf, hseam, rfl⟩
      · rw [List.nil_append] at hsplit
        rw [← hsplit] at hback
        exact Or.inr (Or.inl hback.isInfix)
      · rw [List.append_nil] at hsplit
        rw [← hsplit] at hfront
        exact Or.inl hfront.isInfix
      · exact Or.inr (Or.inr ⟨hf, hseam, hback⟩)
  · rintro (h | h | ⟨hf, rfl, hback⟩)
    · exact Or.inl h
    · exact Or.inr (Or.inl h)
    · refine Or.inr (Or.inr ⟨"failed to parse ".toList, "configuration".toList, rfl, ?_, hback⟩)
      rcases hf with hf | hf <;> rw [hf] <;> decide

/-- What the chain of a failure mentions is what its reason says or what it quotes. -/
theorem mentions_chain_iff (f : Failure) {phrase : String} (hphrase : phrase ∈ Hint.phrases) :
    mentions f.chain phrase = true ↔ phrase ∈ f.reason.phrases ∨ f.Quotes phrase := by
  have htexts : (∃ text ∈ f.reason.details ++ f.cause?.toList, OccursIn phrase text) ↔
      (∃ text ∈ f.reason.details, OccursIn phrase text) ∨
        ∃ text ∈ f.cause?.toList, OccursIn phrase text := by
    simp only [List.mem_append, or_and_right, exists_or]
  rw [mentions_iff (solid_of_mem_phrases hphrase), chain_eq, List.exists_mem_cons_iff, htexts,
    occursIn_append_iff f hphrase, ← occursIn_words_iff f.reason hphrase, quotes_iff]
  constructor
  · rintro ((h | h | h) | h | h)
    · exact Or.inl (Or.inl h)
    · exact Or.inr (Or.inl h)
    · exact Or.inr (Or.inr (Or.inr h))
    · exact Or.inl (Or.inr h)
    · exact Or.inr (Or.inr (Or.inl h))
  · rintro ((h | h) | h | h | h)
    · exact Or.inl (Or.inl h)
    · exact Or.inr (Or.inl h)
    · exact Or.inl (Or.inr (Or.inl h))
    · exact Or.inr (Or.inr h)
    · exact Or.inl (Or.inr (Or.inr h))

/-- The hints by the phrases that are mentioned. -/
def given (mentioned : String → Bool) : List Hint :=
  (if mentioned "input not found" then
    [if mentioned "shortcut document" then .buildFirst else .copyTable, .otherInput] else [])
    ++ (if mentioned "expected an array" || mentioned "invalid property list" then [.genuineTable]
      else [])
    ++ (if mentioned "failed to parse configuration" then [.checkConfiguration] else [])
    ++ (if mentioned "invalid shortcut document" then [.buildAgain] else [])

theorem ofChain_eq_given (chain : List String) : ofChain chain = given (mentions chain) := rfl

/-- With the phrases of a reason among those that are mentioned, the misleading ones decide. -/
theorem given_eq_hints_iff (r : Reason) {mentioned : String → Bool}
    (h : ∀ p ∈ r.phrases, mentioned p = true) :
    given mentioned = r.hints ↔ ∀ p ∈ r.misleading, mentioned p = false := by
  unfold given
  revert h
  generalize hmissing : mentioned "input not found" = missing,
    hdocument : mentioned "shortcut document" = document,
    harray : mentioned "expected an array" = array,
    hlist : mentioned "invalid property list" = propertyList,
    hconfiguration : mentioned "failed to parse configuration" = configuration,
    hinvalid : mentioned "invalid shortcut document" = invalid
  cases r <;>
    simp only [Reason.phrases, Reason.misleading, Reason.hints, List.forall_mem_cons,
      List.not_mem_nil, false_imp_iff, implies_true, and_true, hmissing, hdocument, harray, hlist,
      hconfiguration, hinvalid] <;>
    clear * - missing document array propertyList configuration invalid <;>
    revert missing document array propertyList configuration invalid <;>
    decide

theorem phrases_subset (r : Reason) : ∀ p ∈ r.phrases, p ∈ Hint.phrases := by
  cases r <;> decide

theorem misleading_subset (r : Reason) :
    ∀ p ∈ r.misleading, p ∈ Hint.phrases ∧ p ∉ r.phrases := by
  cases r <;> decide

/-- The hints are those for the reason as long as nothing misleading is quoted. -/
theorem ofChain_eq_hints_iff (f : Failure) :
    ofChain f.chain = f.reason.hints ↔ ∀ phrase ∈ f.reason.misleading, ¬ f.Quotes phrase := by
  have hsays : ∀ p ∈ f.reason.phrases, mentions f.chain p = true := by
    intro p hp
    exact (mentions_chain_iff f (phrases_subset f.reason p hp)).2 (Or.inl hp)
  rw [ofChain_eq_given, given_eq_hints_iff f.reason hsays]
  refine forall₂_congr fun p hp => ?_
  obtain ⟨hphrase, hother⟩ := misleading_subset f.reason p hp
  rw [← Bool.not_eq_true, mentions_chain_iff f hphrase, or_iff_right hother]

/-- The hints are those for the phrases that the reason says and that the failure quotes. -/
theorem ofChain_eq_given_quotes (f : Failure) :
    ofChain f.chain = given fun p => p ∈ f.reason.phrases ∨ f.Quotes p := by
  have hmentions : ∀ p ∈ Hint.phrases,
      mentions f.chain p = decide (p ∈ f.reason.phrases ∨ f.Quotes p) := by
    intro p hp
    rw [Bool.eq_iff_iff, mentions_chain_iff f hp, decide_eq_true_iff]
  simp only [Hint.phrases, List.forall_mem_cons] at hmentions
  obtain ⟨hmissing, hdocument, harray, hlist, hconfiguration, hinvalid, -⟩ := hmentions
  rw [ofChain_eq_given]
  unfold given
  rw [hmissing, hdocument, harray, hlist, hconfiguration, hinvalid]

/-! ## Missing inputs -/

/-- A missing input is a document if one is mentioned, and a table otherwise. -/
theorem mem_given_iff (mentioned : String → Bool) :
    (.buildFirst ∈ given mentioned ↔
      mentioned "input not found" = true ∧ mentioned "shortcut document" = true) ∧
    (.copyTable ∈ given mentioned ↔
      mentioned "input not found" = true ∧ mentioned "shortcut document" = false) := by
  unfold given
  generalize mentioned "input not found" = missing, mentioned "shortcut document" = document,
    mentioned "expected an array" = array, mentioned "invalid property list" = propertyList,
    mentioned "failed to parse configuration" = configuration,
    mentioned "invalid shortcut document" = invalid
  revert missing document array propertyList configuration invalid
  decide

theorem quotes_missingTable_iff (path phrase : String) :
    (missingTable path).Quotes phrase ↔ OccursIn phrase path := by
  constructor
  · rintro (h | ⟨hcause, -⟩ | ⟨hf | hf, -, -⟩)
    · exact h
    · cases hcause
    · cases hf
    · cases hf
  · exact fun h => .path h

/-- A missing table is taken for a document if its path looks like one. -/
theorem mem_hints_missingTable (path : String) :
    (.buildFirst ∈ ofChain (missingTable path).chain ↔ OccursIn "shortcut document" path) ∧
    (.copyTable ∈ ofChain (missingTable path).chain ↔ ¬ OccursIn "shortcut document" path) := by
  have hsays : "input not found" ∈ (missingTable path).reason.phrases := List.mem_singleton.2 rfl
  have hother : "shortcut document" ∉ (missingTable path).reason.phrases :=
    (by decide : "shortcut document" ∉ Reason.missingTable.phrases)
  rw [ofChain_eq_given_quotes, (mem_given_iff _).1, (mem_given_iff _).2, decide_eq_true_iff,
    decide_eq_true_iff, decide_eq_false_iff_not, or_iff_right hother,
    quotes_missingTable_iff path "shortcut document"]
  exact ⟨and_iff_right (Or.inl hsays), and_iff_right (Or.inl hsays)⟩

theorem mem_hints_missingDocument (path : String) :
    .buildFirst ∈ ofChain (missingDocument path).chain ∧
    .copyTable ∉ ofChain (missingDocument path).chain := by
  have hsays : "input not found" ∈ (missingDocument path).reason.phrases := List.mem_cons_self
  have hdocument : "shortcut document" ∈ (missingDocument path).reason.phrases :=
    List.mem_cons_of_mem _ List.mem_cons_self
  rw [ofChain_eq_given_quotes, (mem_given_iff _).1, (mem_given_iff _).2, decide_eq_true_iff,
    decide_eq_true_iff, decide_eq_false_iff_not]
  exact ⟨⟨Or.inl hsays, Or.inl hdocument⟩, fun h => h.2 (Or.inl hdocument)⟩

/-- **What decides about the hints**: the reason for the failure, and which phrases are quoted. -/
theorem hints_by_reason_and_quotes (f : Failure) (path : String) :
    ofChain f.chain = given (fun p => p ∈ f.reason.phrases ∨ f.Quotes p) ∧
    (ofChain f.chain = f.reason.hints ↔ ∀ phrase ∈ f.reason.misleading, ¬ f.Quotes phrase) ∧
    ((.buildFirst ∈ ofChain (missingTable path).chain ↔ OccursIn "shortcut document" path) ∧
      (.copyTable ∈ ofChain (missingTable path).chain ↔ ¬ OccursIn "shortcut document" path)) ∧
    (.buildFirst ∈ ofChain (missingDocument path).chain ∧
      .copyTable ∉ ofChain (missingDocument path).chain) :=
  ⟨ofChain_eq_given_quotes f, ofChain_eq_hints_iff f, mem_hints_missingTable path,
    mem_hints_missingDocument path⟩

/-- The hints on one and the same failure differ with the path. -/
theorem hints_differ_by_path :
    ofChain (missingTable "data/Table.xml").chain = [.copyTable, .otherInput] ∧
    ofChain (missingTable "Shortcut Documents/Table.xml").chain = [.buildFirst, .otherInput] ∧
    ofChain (notArray "data/Table.xml").chain = [.genuineTable] ∧
    ofChain (notArray "configuration.xml").chain = [.genuineTable, .checkConfiguration] := by
  decide +kernel

end Failure

end HotkeyTree
