import HotkeyTree.Proofs.CommandLine.Spellings

/-!
# Proofs: reading the words of a level

The reader keeps a value that is a word of its own pending until something else is looked at. What
it is given so far therefore stands for what is given once the pending value is taken in, and in
these terms reading the words of a choice is taking in the choice, however it is spelled.
-/

namespace HotkeyTree.CommandLine

theorem exists_of_bind_eq_ok {α β : Type} {x : Except Refusal α} {f : α → Except Refusal β} {b : β}
    (h : x >>= f = .ok b) : ∃ a, x = .ok a ∧ f a = .ok b := by
  cases x with
  | error e => cases h
  | ok a => exact ⟨a, rfl, h⟩

namespace Given

/-- Takes in a choice. -/
def choose (g : Given) (c : Choice) : Except Refusal Given := g.take c.parameter c.value

/-! ## What is pending -/

theorem pending_add {g g' : Given} {p : Parameter} {v : String} (h : g.add p v = .ok g') :
    g'.pending = g.pending := by
  rw [add] at h
  split at h
  · cases h
  · split at h
    · cases h
      rfl
    · cases h

theorem pending_take {g g' : Given} {p : Parameter} {value : Option String}
    (h : g.take p value = .ok g') : g'.pending = g.pending := by
  cases huse : p.use with
  | value =>
    simp only [take, huse] at h
    cases value with
    | none => cases h
    | some v => exact pending_add h
  | switch =>
    simp only [take, huse] at h
    exact pending_add h
  | count =>
    simp only [take, huse] at h
    cases h
    rfl
  | page =>
    simp only [take, huse] at h
    cases h

theorem pending_settle {g g' : Given} (h : g.settle = .ok g') : g'.pending = none := by
  rw [settle] at h
  cases hpending : g.pending with
  | none =>
    rw [hpending] at h
    cases h
    exact hpending
  | some e =>
    obtain ⟨p, value⟩ := e
    rw [hpending] at h
    exact pending_take h

theorem settle_of_pending {g : Given} (h : g.pending = none) : g.settle = .ok g := by
  rw [settle, h]

theorem awaits_of_pending {g : Given} (h : g.pending = none) : g.awaits = false := by
  rw [awaits, h]

/-- After a parameter is taken in nothing is pending. -/
theorem pending_next {g g' : Given} {p : Parameter} {value : Option String}
    (h : g.next p value = .ok g') : g'.pending = none := by
  obtain ⟨g₁, hsettle, htake⟩ := exists_of_bind_eq_ok h
  rw [pending_take htake, pending_settle hsettle]

end Given

/-! ## One word -/

section Word

variable {l : Level} {g : Given} {w : String}

theorem Level.read_long {name : String} {value : Option String} (hg : g.awaits = false)
    (hturn : l.turn? w = none) (hw : Word.ofString w = .long name value) (tail : List String) :
    l.read g (w :: tail) = g.long l name value >>= fun g' => l.read g' tail := by
  rw [Level.read, hg, if_neg Bool.false_ne_true, hturn, hw]

theorem Level.read_short {letters : List Char} (hg : g.awaits = false) (hturn : l.turn? w = none)
    (hw : Word.ofString w = .short letters) (tail : List String) :
    l.read g (w :: tail) = g.short l letters >>= fun g' => l.read g' tail := by
  rw [Level.read, hg, if_neg Bool.false_ne_true, hturn, hw]

theorem Level.read_awaited (hg : g.awaits = true) (hw : Word.ofString w = .plain w)
    (tail : List String) : l.read g (w :: tail) = l.read (g.hold w) tail := by
  rw [Level.read, hg, if_pos rfl, hw]
  rfl

/-- A word that ends the level is not read as a value if none is awaited. -/
theorem Level.read_turn {t : Turn} (hg : g.awaits = false) (hturn : l.turn? w = some t)
    (tail : List String) : l.read g (w :: tail) = .ok { given := g, turn := some (t, tail) } := by
  rw [Level.read, hg, if_neg Bool.false_ne_true, hturn]

end Word

/-! ## One choice -/

/-- Reading the words, where `g` is given, results in `r`, and once everything pending is taken in
the choices have been taken in. -/
structure Comes (l : Level) (g : Given) (ws : List String) (cs : List Choice)
    (r : Except Refusal Given) : Prop where
  /-- The words are read whatever follows them. -/
  read_append : ∀ tail, l.read g (ws ++ tail) = r >>= fun g' => l.read g' tail
  /-- No value is awaited any more. -/
  ready : ∀ g', r = .ok g' → g'.awaits = false
  /-- The choices are taken in. -/
  settled : r >>= Given.settle = g.settle >>= fun g' => cs.foldlM Given.choose g'

section Choice

variable {l : Level} {g : Given} {p : Parameter}

/-- A word that has all of a choice in it. -/
theorem comes_next {w : String} {value : Option String}
    (hread : ∀ tail, l.read g (w :: tail) = g.next p value >>= fun g' => l.read g' tail) :
    Comes l g [w] [⟨p, value⟩] (g.next p value) := by
  refine ⟨hread, fun g' hg' => Given.awaits_of_pending (Given.pending_next hg'), ?_⟩
  have hsettle : ∀ g', g.next p value = .ok g' → g'.settle = .ok g' :=
    fun g' hg' => Given.settle_of_pending (Given.pending_next hg')
  have hnext : g.next p value =
      g.settle >>= fun g' => [Choice.mk p value].foldlM Given.choose g' := by
    simp only [List.foldlM_cons, List.foldlM_nil, bind_pure]
    rfl
  rw [← hnext]
  cases h : g.next p value with
  | error e => rfl
  | ok g' => exact hsettle g' h

/-- A word that names an option, and its value as the next word. -/
theorem comes_offer {w v : String} (hv : v.toList.head? ≠ some '-')
    (hread : ∀ tail, l.read g (w :: tail) = g.offer p none >>= fun g' => l.read g' tail) :
    Comes l g [w, v] [⟨p, some v⟩]
      (g.settle >>= fun g' => .ok { g' with pending := some (p, some v) }) := by
  refine ⟨?_, ?_, ?_⟩
  · intro tail
    have hnext : ∀ g' : Given, l.read { g' with pending := some (p, none) } (v :: tail) =
        l.read { g' with pending := some (p, some v) } tail :=
      fun g' => Level.read_awaited rfl (Word.ofString_plain hv) tail
    rw [List.cons_append, List.cons_append, List.nil_append, hread]
    cases hsettle : g.settle with
    | error e => simp only [Given.offer, hsettle]; rfl
    | ok g' =>
      simp only [Given.offer, hsettle]
      exact hnext g'
  · intro g' hg'
    cases hsettle : g.settle with
    | error e =>
      rw [hsettle] at hg'
      cases hg'
    | ok g₁ =>
      rw [hsettle] at hg'
      cases hg'
      rfl
  · cases hsettle : g.settle with
    | error e => rfl
    | ok g' =>
      -- nothing else is pending, so settling takes in just this value
      have hclear : { g' with pending := none } = g' := by
        rw [← Given.pending_settle hsettle]
      have htake : Given.settle { g' with pending := some (p, some v) } = g'.take p (some v) := by
        rw [Given.settle]
        simp only [hclear]
      simp only [List.foldlM_cons, List.foldlM_nil, bind_pure]
      exact htake

/-- The words in which an option that has a value is named, with the value if it stands in the same
word. -/
theorem read_option {w : String} {value : Option String} (huse : p.use = .value)
    (hp : p ∈ l.parameters) (hg : g.awaits = false) (hdash : w.toList.head? = some '-')
    (hw : (∃ name, p.longName? = some name ∧ Word.ofString w = .long name value) ∨
      ∃ c cs, p.letter? = some c ∧ Word.ofString w = .short (c :: cs) ∧ Word.attached? cs = value)
    (tail : List String) : l.read g (w :: tail) = g.offer p value >>= fun g' => l.read g' tail := by
  have hturn := l.turn?_of_dash hdash
  rcases hw with ⟨name, hname, hw⟩ | ⟨c, cs, hletter, hw, hvalue⟩
  · rw [Level.read_long hg hturn hw, Given.long, Level.long?_eq hp hname]
    simp only [if_pos huse]
  · rw [Level.read_short hg hturn hw, Given.short, Level.short?_eq hp hletter]
    simp only [if_pos huse, hvalue]

/-- **A step of the reader**: the words of a choice come to taking it in. -/
theorem Choice.Spelling.comes {c : Choice} {ws : List String} (h : c.Spelling ws)
    (hc : c.parameter ∈ l.parameters) (hplain : c.Plain) (hg : g.awaits = false) :
    ∃ r, Comes l g ws [c] r := by
  cases h with
  | @switch p name huse hname =>
    refine ⟨_, comes_next fun tail => ?_⟩
    have hnone : ¬ p.use = .value := by simp [huse]
    rw [Level.read_long hg (l.turn?_of_dash (by simp)) (Word.ofString_long hname), Given.long,
      Level.long?_eq hc hname]
    simp only [if_neg hnone]
    rfl
  | @apart p name v huse hname =>
    obtain ⟨-, -, hdash, -⟩ := hplain v rfl
    exact ⟨_, comes_offer hdash
      (read_option huse hc hg (by simp) (.inl ⟨name, hname, Word.ofString_long hname⟩))⟩
  | @joined p name v huse hname =>
    exact ⟨_, comes_next
      (read_option huse hc hg (by simp) (.inl ⟨name, hname, Word.ofString_longJoined hname v⟩))⟩
  | @letterApart p letter v huse hletter =>
    obtain ⟨-, -, hdash, -⟩ := hplain v rfl
    have hword : Word.ofString ("-" ++ String.singleton letter) = .short [letter] := by
      have h := Word.ofString_letter hletter ""
      rwa [String.append_empty] at h
    exact ⟨_, comes_offer hdash
      (read_option huse hc hg (by simp) (.inr ⟨letter, [], hletter, hword, rfl⟩))⟩
  | @letterAttached p letter v huse hletter =>
    obtain ⟨-, hne, -, hequals⟩ := hplain v rfl
    have hword := Word.ofString_letter hletter v
    exact ⟨_, comes_next (read_option huse hc hg (by simp)
      (.inr ⟨letter, v.toList, hletter, hword, Word.attached?_eq hne hequals⟩))⟩
  | @letterJoined p letter v huse hletter =>
    have hword : Word.ofString ("-" ++ String.singleton letter ++ "=" ++ v) =
        .short (letter :: '=' :: v.toList) := by
      have h := Word.ofString_letter hletter ("=" ++ v)
      rwa [← String.append_assoc, String.toList_append] at h
    have hvalue : Word.attached? ('=' :: v.toList) = some v := by
      rw [Word.attached?, String.ofList_toList]
    exact ⟨_, comes_next (read_option huse hc hg (by simp)
      (.inr ⟨letter, '=' :: v.toList, hletter, hword, hvalue⟩))⟩

end Choice

/-! ## All choices of a level -/

theorem comes_nil {l : Level} {g : Given} (hg : g.awaits = false) : Comes l g [] [] (.ok g) := by
  refine ⟨fun tail => rfl, ?_, ?_⟩
  · intro g' hg'
    cases hg'
    exact hg
  · exact (bind_pure g.settle).symm

/-- Words that come to a choice, and words that come to further choices after it. -/
theorem Comes.cons {l : Level} {g : Given} {c : Choice} {cs : List Choice} {ws rest : List String}
    {r : Except Refusal Given} (h : Comes l g ws [c] r)
    (hrest : ∀ g', g'.awaits = false → ∃ r', Comes l g' rest cs r') :
    ∃ r', Comes l g (ws ++ rest) (c :: cs) r' := by
  have hsettled : (r >>= Given.settle) >>= (fun g' => cs.foldlM Given.choose g') =
      g.settle >>= fun g' => (c :: cs).foldlM Given.choose g' := by
    rw [h.settled, bind_assoc]
    simp only [List.foldlM_cons, List.foldlM_nil, bind_pure]
  cases hr : r with
  | error e =>
    refine ⟨.error e, ?_, ?_, ?_⟩
    · intro tail
      rw [List.append_assoc, h.read_append, hr]
      rfl
    · intro g' hg'
      cases hg'
    · rw [← hsettled, hr]
      rfl
  | ok g' =>
    obtain ⟨r', hr'⟩ := hrest g' (h.ready g' hr)
    refine ⟨r', ?_, hr'.ready, ?_⟩
    · intro tail
      rw [List.append_assoc, h.read_append, hr]
      exact hr'.read_append tail
    · rw [← hsettled, hr, hr'.settled]
      rfl

/-- **What a level is read as**: its words come to taking in what they spell, in order. -/
theorem Spells.comes {l : Level} {cs : List Choice} {ws : List String} (h : Spells cs ws)
    (hcs : ∀ c ∈ cs, c.parameter ∈ l.parameters ∧ c.Plain) {g : Given} (hg : g.awaits = false) :
    ∃ r, Comes l g ws cs r := by
  induction h generalizing g with
  | nil => exact ⟨_, comes_nil hg⟩
  | @cons c cs ws rest hc _ ih =>
    obtain ⟨hmem, hplain⟩ := hcs c List.mem_cons_self
    obtain ⟨r, hr⟩ := hc.comes hmem hplain hg
    exact hr.cons fun g' hg' => ih (fun d hd => hcs d (List.mem_cons_of_mem c hd)) hg'

end HotkeyTree.CommandLine
