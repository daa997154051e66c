import HotkeyTree.Json.Reader
import HotkeyTree.Json.Record
import HotkeyTree.Proofs.Json.Scanning

/-!
# Proofs: a value is read back from the text that is written for it

A value stands for a sequence of tokens. The text that is written for the value is cut into just
these tokens, and the reader builds the value from them; neither depends on what surrounds the
value. How deep a text nests can be told from its tokens alone, and is the depth of the value.
-/

namespace HotkeyTree.Json

/-- What holds of a value as soon as it holds of the values in it holds of every value. -/
@[elab_as_elim]
theorem induction {motive : Json → Prop} (null : motive .null) (bool : ∀ b, motive (.bool b))
    (number : ∀ n, motive (.number n)) (string : ∀ s, motive (.string s))
    (array : ∀ items, (∀ v ∈ items, motive v) → motive (.array items))
    (object : ∀ members : List (Literal × Json), (∀ m ∈ members, motive m.2) →
      motive (.object members)) (v : Json) : motive v :=
  @Json.rec motive (fun items => ∀ v ∈ items, motive v)
    (fun members => ∀ m ∈ members, motive m.2) (fun m => motive m.2)
    null bool number string array object
    (fun _ h => absurd h List.not_mem_nil)
    (fun _ _ ihv ihvs v h => (List.mem_cons.1 h).elim (fun hv => hv ▸ ihv) (ihvs v))
    (fun _ h => absurd h List.not_mem_nil)
    (fun _ _ ihm ihms m h => (List.mem_cons.1 h).elim (fun hm => hm ▸ ihm) (ihms m))
    (fun _ _ ih => ih)
    v

/-- Every number and every literal in a value, names of members included, is of some kind. -/
inductive Every (number : Number → Prop) (literal : Literal → Prop) : Json → Prop where
  | null : Every number literal .null
  | bool (b : Bool) : Every number literal (.bool b)
  | number {n : Number} (h : number n) : Every number literal (.number n)
  | string {s : Literal} (h : literal s) : Every number literal (.string s)
  | array {items : List Json} (h : ∀ v ∈ items, Every number literal v) :
      Every number literal (.array items)
  | object {members : List (Literal × Json)} (hnames : ∀ m ∈ members, literal m.1)
      (h : ∀ m ∈ members, Every number literal m.2) : Every number literal (.object members)

/-- Every number in a value can stand in a text. -/
def WellFormed : Json → Prop := Every Number.WellFormed fun _ => True

/-! ## The tokens of a value -/

mutual

/-- The tokens of a value, before further ones. -/
def toTokens : Json → List Token → List Token
  | .null, ts => .null :: ts
  | .bool b, ts => .bool b :: ts
  | .number n, ts => .number n :: ts
  | .string s, ts => .string s :: ts
  | .array [], ts => .openArray :: .closeArray :: ts
  | .array (v :: vs), ts => .openArray :: toTokens v (itemTokens vs (.closeArray :: ts))
  | .object [], ts => .openObject :: .closeObject :: ts
  | .object (m :: ms), ts => .openObject :: memberTokens m (membersTokens ms (.closeObject :: ts))
termination_by structural v => v

/-- The tokens of the items of an array that follow another one. -/
def itemTokens : List Json → List Token → List Token
  | [], ts => ts
  | v :: vs, ts => .comma :: toTokens v (itemTokens vs ts)
termination_by structural vs => vs

/-- The tokens of a member of an object. -/
def memberTokens : Literal × Json → List Token → List Token
  | (k, v), ts => .string k :: .colon :: toTokens v ts
termination_by structural m => m

/-- The tokens of the members of an object that follow another one. -/
def membersTokens : List (Literal × Json) → List Token → List Token
  | [], ts => ts
  | m :: ms, ts => .comma :: memberTokens m (membersTokens ms ts)
termination_by structural ms => ms

end

/-! ## Cutting the text into tokens -/

/-- A text is cut into these tokens, up to its end. -/
def Lexed (cs : List Char) (ts : List Token) : Prop :=
  ∀ n done, cs.length ≤ n → scanTokens n done cs = (done.reverse ++ ts, true)

namespace Lexed

theorem nil : Lexed [] [] := by
  intro n done _
  cases n <;> simp [scanTokens]

/-- Blanks between tokens do not matter. -/
theorem blank {c : Char} {cs : List Char} {ts : List Token} (hc : isBlank c) (h : Lexed cs ts) :
    Lexed (c :: cs) ts := by
  intro n done hn
  rw [List.length_cons] at hn
  have hscan : scanTokens n done (c :: cs) = scanTokens n done cs := by
    cases n <;> simp [scanTokens, hc]
  rw [hscan]
  exact h n done (by omega)

/-- One token, and what follows it. -/
theorem token {c : Char} {cs rest : List Char} {t : Token} {ts : List Token}
    (hc : isBlank c = false) (hscan : scanToken (c :: cs) = some (t, rest))
    (hlength : rest.length ≤ cs.length) (h : Lexed rest ts) : Lexed (c :: cs) (t :: ts) := by
  intro n done hn
  rw [List.length_cons] at hn
  obtain ⟨n, rfl⟩ := Nat.exists_eq_succ_of_ne_zero (n := n) (by omega)
  have htail := h n (t :: done) (by omega)
  simp [scanTokens, hc, hscan, htail]

theorem tokens_eq {cs : List Char} {ts : List Token} (h : Lexed cs ts) : tokens cs = (ts, true) :=
  h cs.length [] (Nat.le_refl _)

end Lexed

theorem lexed_blanks {cs : List Char} (h : ∀ c ∈ cs, isBlank c) : Lexed cs [] := by
  induction cs with
  | nil => exact .nil
  | cons c cs ih => exact .blank (h c (by simp)) (ih fun d hd => h d (by simp [hd]))

theorem lexed_newLine {depth : Nat} {rest : List Char} {ts : List Token} (h : Lexed rest ts) :
    Lexed (newLine depth rest) ts := by
  have hspaces : ∀ n, Lexed (List.replicate n ' ' ++ rest) ts := by
    intro n
    induction n with
    | zero => exact h
    | succ n ih => exact .blank rfl ih
  exact .blank rfl (hspaces (2 * depth))

theorem ends_newLine (depth : Nat) (rest : List Char) : Ends (newLine depth rest) := by
  simp [Ends, newLine]

theorem lexed_quote {s : Literal} {rest : List Char} {ts : List Token} (h : Lexed rest ts) :
    Lexed (quote s ++ rest) (.string s :: ts) := by
  obtain ⟨cs, hquote, hscan⟩ := scanLiteral_quote s rest
  rw [hquote]
  refine .token rfl (by simp [scanToken, hscan]) ?_ h
  have hlength := congrArg List.length hquote
  have hne : 1 ≤ (quote s).length := by cases s <;> simp [quote]
  simp only [List.length_append, List.length_cons] at hlength
  omega

theorem scanToken_number {d : Char} (hd : d.isDigit ∨ d = '-') (cs : List Char) :
    scanToken (d :: cs) = (scanNumber (d :: cs)).map fun r => (.number r.1, r.2) := by
  unfold scanToken
  split
  case h_1 heq => exact nomatch heq
  case h_12 => rfl
  all_goals
    rename_i heq
    obtain ⟨rfl, -⟩ := List.cons.inj heq
    exact absurd hd (by decide)

/-- A number begins with a digit or a minus sign. -/
theorem exists_text_append {n : Number} (hn : n.WellFormed) (rest : List Char) :
    ∃ d cs, n.text ++ rest = d :: cs ∧ (d.isDigit ∨ d = '-') ∧ rest.length ≤ cs.length := by
  obtain ⟨d, ds, hds⟩ := List.exists_cons_of_ne_nil hn.whole_ne
  have hd : d.isDigit := hn.whole_digits d (by simp [hds])
  rw [Number.text_append, hds]
  cases n.negative with
  | true => exact ⟨'-', _, rfl, Or.inr rfl, by simp; omega⟩
  | false => exact ⟨d, _, rfl, Or.inl hd, by simp; omega⟩

theorem isBlank_eq_false_of_number {d : Char} (hd : d.isDigit ∨ d = '-') : isBlank d = false := by
  cases hblank : isBlank d with
  | false => rfl
  | true =>
    simp only [isBlank, Bool.or_eq_true, beq_iff_eq] at hblank
    rcases hblank with ((rfl | rfl) | rfl) | rfl <;> exact absurd hd (by decide)

theorem lexed_number {n : Number} (hn : n.WellFormed) {rest : List Char} (hrest : Ends rest)
    {ts : List Token} (h : Lexed rest ts) : Lexed (n.text ++ rest) (.number n :: ts) := by
  obtain ⟨d, cs, htext, hd, hlength⟩ := exists_text_append hn rest
  have hscan := scanNumber_text hn hrest
  rw [htext] at hscan ⊢
  refine .token (isBlank_eq_false_of_number hd) ?_ hlength h
  rw [scanToken_number hd, hscan]
  rfl

theorem ends_prettyItems (depth : Nat) (vs : List Json) (outer : Nat) (rest : List Char) :
    Ends (prettyItems depth vs (newLine outer rest)) := by
  cases vs with
  | nil => exact ends_newLine outer rest
  | cons v vs => simp [prettyItems, Ends]

theorem ends_prettyMembers (depth : Nat) (ms : List (Literal × Json)) (outer : Nat)
    (rest : List Char) : Ends (prettyMembers depth ms (newLine outer rest)) := by
  cases ms with
  | nil => exact ends_newLine outer rest
  | cons m ms => simp [prettyMembers, Ends]

/-- Wherever the text of a value stands, it is cut into the tokens of the value. -/
def LexedAt (v : Json) : Prop :=
  ∀ depth rest ts, Ends rest → Lexed rest ts → Lexed (prettyAt depth v rest) (toTokens v ts)

theorem lexed_prettyItems {vs : List Json} (hvs : ∀ v ∈ vs, LexedAt v) (depth outer : Nat)
    {rest : List Char} {ts : List Token} (h : Lexed (newLine outer rest) ts) :
    Lexed (prettyItems depth vs (newLine outer rest)) (itemTokens vs ts) := by
  induction vs with
  | nil => exact h
  | cons v vs ih =>
    have htail := ih fun w hw => hvs w (List.mem_cons_of_mem v hw)
    have hhead := hvs v List.mem_cons_self depth _ _ (ends_prettyItems depth vs outer rest) htail
    exact .token rfl rfl (Nat.le_refl _) (lexed_newLine hhead)

theorem lexed_prettyMember {m : Literal × Json} (hm : LexedAt m.2) (depth : Nat)
    {rest : List Char} {ts : List Token} (hrest : Ends rest) (h : Lexed rest ts) :
    Lexed (prettyMember depth m rest) (memberTokens m ts) := by
  obtain ⟨k, v⟩ := m
  have hvalue : Lexed (' ' :: prettyAt depth v rest) (toTokens v ts) :=
    .blank rfl (hm depth rest ts hrest h)
  exact lexed_quote (.token rfl rfl (Nat.le_refl _) hvalue)

theorem lexed_prettyMembers {ms : List (Literal × Json)} (hms : ∀ m ∈ ms, LexedAt m.2)
    (depth outer : Nat) {rest : List Char} {ts : List Token} (h : Lexed (newLine outer rest) ts) :
    Lexed (prettyMembers depth ms (newLine outer rest)) (membersTokens ms ts) := by
  induction ms with
  | nil => exact h
  | cons m ms ih =>
    have htail := ih fun w hw => hms w (List.mem_cons_of_mem m hw)
    have hhead := lexed_prettyMember (hms m List.mem_cons_self) depth
      (ends_prettyMembers depth ms outer rest) htail
    exact .token rfl rfl (Nat.le_refl _) (lexed_newLine hhead)

/-- **The text of a value is cut into the tokens of the value.** -/
theorem lexedAt {v : Json} (hv : v.WellFormed) : LexedAt v := by
  induction v using Json.induction with
  | null => exact fun depth rest ts _ h => .token rfl rfl (by simp; omega) h
  | bool b => cases b <;> exact fun depth rest ts _ h => .token rfl rfl (by simp; omega) h
  | number n =>
    -- nothing but a number has to know what follows it: its end is not marked
    cases hv with
    | number hn => exact fun depth rest ts hrest h => lexed_number hn hrest h
  | string s => exact fun depth rest ts _ h => lexed_quote h
  | array items ih =>
    cases hv with
    | array hitems =>
      have hlexed : ∀ v ∈ items, LexedAt v := fun v hv => ih v hv (hitems v hv)
      intro depth rest ts _ h
      have hclose : Lexed (']' :: rest) (.closeArray :: ts) := .token rfl rfl (Nat.le_refl _) h
      cases items with
      | nil => exact .token rfl rfl (Nat.le_refl _) hclose
      | cons v vs =>
        have htail := lexed_prettyItems (fun w hw => hlexed w (List.mem_cons_of_mem v hw))
          (depth + 1) depth (lexed_newLine hclose)
        have hhead := hlexed v List.mem_cons_self (depth + 1) _ _ (ends_prettyItems _ vs _ _) htail
        exact .token rfl rfl (Nat.le_refl _) (lexed_newLine hhead)
  | object members ih =>
    cases hv with
    | object _ hmembers =>
      have hlexed : ∀ m ∈ members, LexedAt m.2 := fun m hm => ih m hm (hmembers m hm)
      intro depth rest ts _ h
      have hclose : Lexed ('\x7d' :: rest) (.closeObject :: ts) := .token rfl rfl (Nat.le_refl _) h
      cases members with
      | nil => exact .token rfl rfl (Nat.le_refl _) hclose
      | cons m ms =>
        have htail := lexed_prettyMembers (fun w hw => hlexed w (List.mem_cons_of_mem m hw))
          (depth + 1) depth (lexed_newLine hclose)
        have hhead := lexed_prettyMember (hlexed m List.mem_cons_self) (depth + 1)
          (ends_prettyMembers _ ms _ _) htail
        exact .token rfl rfl (Nat.le_refl _) (lexed_newLine hhead)

/-! ## Building the value from its tokens -/

namespace Reader

theorem run_of_step {r r' : Reader} {t : Token} (h : step r t = some r') (ts : List Token) :
    run r (t :: ts) = run r' ts := by
  simp [run, h]

/-- From the tokens of a value the reader builds the value, whatever is open around it. -/
def Builds (v : Json) : Prop :=
  ∀ stack ts, run (.value stack) (toTokens v ts) = run (.after v stack) ts

/-- The first item of an array is read like a further one. -/
theorem run_itemOrEnd (v : Json) (stack : List Frame) (ts : List Token) :
    run (.itemOrEnd stack) (toTokens v ts) = run (.value (.items [] :: stack)) (toTokens v ts) := by
  cases v with
  | array items => cases items <;> rfl
  | object members => cases members <;> rfl
  | _ => rfl

theorem run_itemTokens {vs : List Json} (hvs : ∀ v ∈ vs, Builds v) (v : Json) (done : List Json)
    (stack : List Frame) (ts : List Token) :
    run (.after v (.items done :: stack)) (itemTokens vs (.closeArray :: ts)) =
      run (.after (.array (done.reverse ++ v :: vs)) stack) ts := by
  induction vs generalizing v done with
  | nil => simp [itemTokens, run, step]
  | cons w vs ih =>
    have hvalue := hvs w List.mem_cons_self (.items (v :: done) :: stack)
      (itemTokens vs (.closeArray :: ts))
    have htail := ih (fun u hu => hvs u (List.mem_cons_of_mem w hu)) w (v :: done)
    rw [itemTokens, run_of_step rfl, hvalue, htail]
    simp

theorem run_memberTokens {m : Literal × Json} (hm : Builds m.2)
    (done : List (Literal × Json)) (stack : List Frame) (ts : List Token) :
    run (.name done stack) (memberTokens m ts) =
      run (.after m.2 (.member done m.1 :: stack)) ts := by
  obtain ⟨k, v⟩ := m
  exact hm (.member done k :: stack) ts

theorem run_membersTokens {ms : List (Literal × Json)} (hms : ∀ m ∈ ms, Builds m.2)
    (m : Literal × Json) (done : List (Literal × Json)) (stack : List Frame) (ts : List Token) :
    run (.after m.2 (.member done m.1 :: stack)) (membersTokens ms (.closeObject :: ts)) =
      run (.after (.object (done.reverse ++ m :: ms)) stack) ts := by
  induction ms generalizing m done with
  | nil => simp [membersTokens, run, step]
  | cons w ms ih =>
    have hvalue := run_memberTokens (hms w List.mem_cons_self) (m :: done) stack
      (membersTokens ms (.closeObject :: ts))
    have htail := ih (fun u hu => hms u (List.mem_cons_of_mem w hu)) w (m :: done)
    rw [membersTokens, run_of_step rfl, hvalue, htail]
    simp

/-- **The reader builds every value from its tokens.** -/
theorem builds (v : Json) : Builds v := by
  induction v using Json.induction with
  | array items ih =>
    intro stack ts
    cases items with
    | nil => rfl
    | cons v vs =>
      have hvalue := ih v List.mem_cons_self (.items [] :: stack)
        (itemTokens vs (.closeArray :: ts))
      have htail := run_itemTokens (fun w hw => ih w (List.mem_cons_of_mem v hw)) v [] stack ts
      rw [toTokens, run_of_step rfl, run_itemOrEnd, hvalue, htail]
      rfl
  | object members ih =>
    intro stack ts
    cases members with
    | nil => rfl
    | cons m ms =>
      -- the first name is awaited by `nameOrEnd`, every later one by `name`; they step alike
      obtain ⟨k, v⟩ := m
      have hvalue := run_memberTokens (ih (k, v) List.mem_cons_self) [] stack
        (membersTokens ms (.closeObject :: ts))
      have hrest : ∀ w ∈ ms, Builds w.2 := fun w hw => ih w (List.mem_cons_of_mem _ hw)
      have htail := run_membersTokens hrest (k, v) [] stack ts
      rw [toTokens, run_of_step rfl]
      exact hvalue.trans htail
  | _ => exact fun _ _ => rfl

end Reader

/-! ## From the text to the value -/

theorem newLine_append (depth : Nat) (rest more : List Char) :
    newLine depth rest ++ more = newLine depth (rest ++ more) := by
  simp [newLine]

/-- What follows a value is written after it as it is. -/
def WritesThrough (v : Json) : Prop :=
  ∀ depth rest more, prettyAt depth v rest ++ more = prettyAt depth v (rest ++ more)

theorem prettyItems_append {vs : List Json} (hvs : ∀ v ∈ vs, WritesThrough v) (depth : Nat)
    (rest more : List Char) :
    prettyItems depth vs rest ++ more = prettyItems depth vs (rest ++ more) := by
  induction vs with
  | nil => rfl
  | cons v vs ih =>
    have htail := ih fun w hw => hvs w (List.mem_cons_of_mem v hw)
    have hhead := hvs v List.mem_cons_self depth (prettyItems depth vs rest) more
    rw [prettyItems, List.cons_append, newLine_append, hhead, htail]
    rfl

theorem prettyMember_append {m : Literal × Json} (hm : WritesThrough m.2) (depth : Nat)
    (rest more : List Char) :
    prettyMember depth m rest ++ more = prettyMember depth m (rest ++ more) := by
  obtain ⟨k, v⟩ := m
  have hvalue := hm depth rest more
  simp [prettyMember, hvalue]

theorem prettyMembers_append {ms : List (Literal × Json)} (hms : ∀ m ∈ ms, WritesThrough m.2)
    (depth : Nat) (rest more : List Char) :
    prettyMembers depth ms rest ++ more = prettyMembers depth ms (rest ++ more) := by
  induction ms with
  | nil => rfl
  | cons m ms ih =>
    have htail := ih fun w hw => hms w (List.mem_cons_of_mem m hw)
    have hhead := prettyMember_append (hms m List.mem_cons_self) depth
      (prettyMembers depth ms rest) more
    rw [prettyMembers, List.cons_append, newLine_append, hhead, htail]
    rfl

theorem writesThrough (v : Json) : WritesThrough v := by
  induction v using Json.induction with
  | null => exact fun _ _ _ => rfl
  | bool b => cases b <;> exact fun _ _ _ => rfl
  | number n => exact fun depth rest more => by simp [prettyAt]
  | string s => exact fun depth rest more => by simp [prettyAt]
  | array items ih =>
    intro depth rest more
    cases items with
    | nil => rfl
    | cons v vs =>
      have hhead := ih v List.mem_cons_self
      have htail := prettyItems_append fun w hw => ih w (List.mem_cons_of_mem v hw)
      simp only [prettyAt, List.cons_append, newLine_append, hhead _ _ more, htail _ _ more]
  | object members ih =>
    intro depth rest more
    cases members with
    | nil => rfl
    | cons m ms =>
      have hhead := prettyMember_append (ih m List.mem_cons_self)
      have htail := prettyMembers_append fun w hw => ih w (List.mem_cons_of_mem m hw)
      simp only [prettyAt, List.cons_append, newLine_append, hhead _ _ more, htail _ _ more]

theorem tokens_pretty {v : Json} (hv : v.WellFormed) {blanks : String}
    (hblanks : ∀ c ∈ blanks.toList, isBlank c) :
    tokens (v.pretty ++ blanks).toList = (toTokens v [], true) := by
  have hends : Ends blanks.toList := by
    intro c hc
    have hblank := hblanks c (List.mem_of_mem_head? hc)
    simp only [isBlank, Bool.or_eq_true, beq_iff_eq] at hblank
    rcases hblank with ((rfl | rfl) | rfl) | rfl <;> decide
  rw [String.toList_append, pretty, String.toList_ofList, writesThrough v]
  exact (lexedAt hv 0 blanks.toList [] hends (lexed_blanks hblanks)).tokens_eq

/-- **A value is read back from its text**, whatever blanks follow the text. -/
theorem parse?_pretty {v : Json} (hv : v.WellFormed) {blanks : String}
    (hblanks : ∀ c ∈ blanks.toList, isBlank c) : parse? (v.pretty ++ blanks) = some v := by
  have hrun : Reader.run (.value []) (toTokens v []) = (.after v [], true) := Reader.builds v [] []
  rw [parse?, parse, tokens_pretty hv hblanks]
  simp only [hrun, Reader.finish]
  rfl

/-! ## How deep a text nests -/

/-- How many arrays and objects are open after a token. -/
def Token.openAfter (opened : Nat) : Token → Nat
  | .openArray | .openObject => opened + 1
  | .closeArray | .closeObject => opened - 1
  | _ => opened

/-- The greatest number of arrays and objects that are open at once among tokens. -/
def deepest (opened : Nat) : List Token → Nat
  | [] => opened
  | t :: ts => max opened (deepest (t.openAfter opened) ts)

/-- How deep the arrays and objects of a text nest. -/
def nesting (text : String) : Nat := deepest 0 (tokens text.toList).1

theorem le_deepest (opened : Nat) (ts : List Token) : opened ≤ deepest opened ts := by
  cases ts with
  | nil => exact Nat.le_refl _
  | cons t ts => exact Nat.le_max_left _ _

/-- The tokens of a value nest as deep as the value and leave open what was open. -/
def Nests (v : Json) : Prop :=
  ∀ opened ts, deepest opened (toTokens v ts) = max (opened + v.depth) (deepest opened ts)

theorem deepest_itemTokens {vs : List Json} (hvs : ∀ v ∈ vs, Nests v) (opened : Nat)
    (ts : List Token) :
    deepest opened (itemTokens vs ts) = max (opened + depthOfItems vs) (deepest opened ts) := by
  have hle := le_deepest opened ts
  induction vs with
  | nil =>
    simp only [itemTokens, depthOfItems]
    omega
  | cons v vs ih =>
    have htail := ih fun w hw => hvs w (List.mem_cons_of_mem v hw)
    have hhead := hvs v List.mem_cons_self opened (itemTokens vs ts)
    simp only [itemTokens, depthOfItems, deepest, Token.openAfter, hhead, htail]
    omega

theorem deepest_membersTokens {ms : List (Literal × Json)} (hms : ∀ m ∈ ms, Nests m.2)
    (opened : Nat) (ts : List Token) :
    deepest opened (membersTokens ms ts) =
      max (opened + depthOfMembers ms) (deepest opened ts) := by
  have hle := le_deepest opened ts
  induction ms with
  | nil =>
    simp only [membersTokens, depthOfMembers]
    omega
  | cons m ms ih =>
    obtain ⟨k, v⟩ := m
    have htail := ih fun w hw => hms w (List.mem_cons_of_mem _ hw)
    have hhead := hms (k, v) List.mem_cons_self opened (membersTokens ms ts)
    simp only [membersTokens, memberTokens, depthOfMembers, depthOfMember, deepest,
      Token.openAfter, hhead, htail]
    omega

/-- **The tokens of a value nest as deep as the value.** -/
theorem nests (v : Json) : Nests v := by
  induction v using Json.induction with
  | array items ih =>
    intro opened ts
    have hle := le_deepest opened ts
    cases items with
    | nil =>
      simp only [toTokens, depth, depthOfItems, deepest, Token.openAfter, Nat.add_sub_cancel]
      omega
    | cons v vs =>
      have hhead := ih v List.mem_cons_self (opened + 1) (itemTokens vs (.closeArray :: ts))
      have htail := deepest_itemTokens (fun w hw => ih w (List.mem_cons_of_mem v hw)) (opened + 1)
        (.closeArray :: ts)
      simp only [toTokens, depth, depthOfItems, deepest, Token.openAfter, hhead, htail,
        Nat.add_sub_cancel]
      omega
  | object members ih =>
    intro opened ts
    have hle := le_deepest opened ts
    cases members with
    | nil =>
      simp only [toTokens, depth, depthOfMembers, deepest, Token.openAfter, Nat.add_sub_cancel]
      omega
    | cons m ms =>
      obtain ⟨k, v⟩ := m
      have hhead := ih (k, v) List.mem_cons_self (opened + 1)
        (membersTokens ms (.closeObject :: ts))
      have htail := deepest_membersTokens (fun w hw => ih w (List.mem_cons_of_mem _ hw))
        (opened + 1) (.closeObject :: ts)
      simp only [toTokens, memberTokens, depth, depthOfMembers, depthOfMember, deepest,
        Token.openAfter, hhead, htail, Nat.add_sub_cancel]
      omega
  | _ =>
    intro opened ts
    have hle := le_deepest opened ts
    simp only [toTokens, depth, deepest, Token.openAfter]
    omega

/-- **The text of a value nests as deep as the value.** -/
theorem nesting_pretty {v : Json} (hv : v.WellFormed) {blanks : String}
    (hblanks : ∀ c ∈ blanks.toList, isBlank c) : nesting (v.pretty ++ blanks) = v.depth := by
  have hnests := nests v 0 []
  rw [nesting, tokens_pretty hv hblanks, hnests, deepest]
  omega

end HotkeyTree.Json
