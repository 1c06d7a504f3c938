import Provision.Proofs.Json.Text
/-!
# JSON — the grammar, and values that are passed over

`Derives` is the grammar of JSON on octets, with white space wherever the
grammar has it. It knows nothing of the scanner. What the two have to do
with each other is that **the scanner passes over every value that the
grammar derives**, at any depth, and stops right behind it
(`skipForm_of_derives`), so `raw` keeps its text as it stands.
-/

namespace Provision.Json

/-! ## The grammar -/

/-- White space. -/
def Spaces (ws : Bytes) : Prop := ∀ b ∈ ws, isSpace b = true

/-- What stands between the quotes of a string. -/
inductive Body : Bytes → Prop
  /-- Nothing. -/
  | nil : Body []
  /-- An octet that stands for itself. -/
  | plain {b : UInt8} {bs : Bytes} (hb : Plain b) (rest : Body bs) : Body (b :: bs)
  /-- A short escape. -/
  | short {c : UInt8} {bs : Bytes} (hc : (shortEscape c).isSome) (rest : Body bs) :
      Body (octet '\\' :: c :: bs)
  /-- An escape of four digits. -/
  | hex {h₁ h₂ h₃ h₄ : UInt8} {bs : Bytes} (h : (hex4 h₁ h₂ h₃ h₄).isSome) (rest : Body bs) :
      Body (octet '\\' :: octet 'u' :: h₁ :: h₂ :: h₃ :: h₄ :: bs)

/-- Decimal digits. -/
def Digits (ds : Bytes) : Prop := ∀ d ∈ ds, isDigit d = true

/-- The exponent of a number, which may be missing. -/
inductive Exponent : Bytes → Prop
  | absent : Exponent []
  | present {e d : UInt8} {sign ds : Bytes} (he : e = octet 'e' ∨ e = octet 'E')
      (hsign : sign = [] ∨ sign = [octet '+'] ∨ sign = [octet '-']) (hd : isDigit d = true)
      (hds : Digits ds) : Exponent (e :: (sign ++ d :: ds))

/-- The fraction of a number, which may be missing, and its exponent. -/
inductive Fraction : Bytes → Prop
  | absent {ex : Bytes} (h : Exponent ex) : Fraction ex
  | present {d : UInt8} {ds ex : Bytes} (hd : isDigit d = true) (hds : Digits ds)
      (h : Exponent ex) : Fraction (octet '.' :: d :: (ds ++ ex))

/-- A number without its sign. No digits follow a leading zero. -/
inductive Magnitude : Bytes → Prop
  | zero {fr : Bytes} (h : Fraction fr) : Magnitude (octet '0' :: fr)
  | digits {d : UInt8} {ds fr : Bytes} (hd : isDigit d = true) (hz : d ≠ octet '0')
      (hds : Digits ds) (h : Fraction fr) : Magnitude (d :: (ds ++ fr))

/-- What the grammar derives: values, and the insides of lists and objects
with the bracket that closes them. -/
inductive Form where
  | value
  | items
  | members
  deriving DecidableEq

/-- **The grammar of JSON.** -/
inductive Derives : Form → Bytes → Prop
  | wordNull : Derives .value (octet 'n' :: ull)
  | wordTrue : Derives .value (octet 't' :: rue)
  | wordFalse : Derives .value (octet 'f' :: alse)
  | number {bs : Bytes} (h : Magnitude bs) : Derives .value bs
  | negative {bs : Bytes} (h : Magnitude bs) : Derives .value (octet '-' :: bs)
  | text {bs : Bytes} (h : Body bs) : Derives .value (octet '"' :: (bs ++ [octet '"']))
  | emptyList {ws : Bytes} (hws : Spaces ws) : Derives .value (octet '[' :: (ws ++ [octet ']']))
  | list {ws bs : Bytes} (hws : Spaces ws) (h : Derives .items bs) :
      Derives .value (octet '[' :: (ws ++ bs))
  | emptyObject {ws : Bytes} (hws : Spaces ws) : Derives .value (0x7B :: (ws ++ [0x7D]))
  | object {ws bs : Bytes} (hws : Spaces ws) (h : Derives .members bs) :
      Derives .value (0x7B :: (ws ++ bs))
  | lastItem {v ws : Bytes} (hv : Derives .value v) (hws : Spaces ws) :
      Derives .items (v ++ (ws ++ [octet ']']))
  | item {v ws ws' bs : Bytes} (hv : Derives .value v) (hws : Spaces ws) (hws' : Spaces ws')
      (h : Derives .items bs) : Derives .items (v ++ (ws ++ octet ',' :: (ws' ++ bs)))
  | lastMember {k v ws ws' ws'' : Bytes} (hk : Body k) (hws : Spaces ws) (hws' : Spaces ws')
      (hv : Derives .value v) (hws'' : Spaces ws'') :
      Derives .members
        (octet '"' :: (k ++ octet '"' :: (ws ++ octet ':' :: (ws' ++ (v ++ (ws'' ++ [0x7D]))))))
  | member {k v ws ws' ws'' ws₃ bs : Bytes} (hk : Body k) (hws : Spaces ws) (hws' : Spaces ws')
      (hv : Derives .value v) (hws'' : Spaces ws'') (hws₃ : Spaces ws₃)
      (h : Derives .members bs) :
      Derives .members
        (octet '"' :: (k ++ octet '"' ::
          (ws ++ octet ':' :: (ws' ++ (v ++ (ws'' ++ octet ',' :: (ws₃ ++ bs)))))))

/-- **A text is a JSON value**, without white space around it. -/
def IsValue (s : String) : Prop := Derives .value (Utf8.encode s)

/-! ## Tokens -/

variable {b : UInt8} {bs ws rest : Bytes}

theorem spaces_nil : Spaces [] := fun _ h => by cases h

theorem skipSpace_spaces (hws : Spaces ws) (hb : isSpace b = false) :
    skipSpace (ws ++ b :: bs) = b :: bs := by
  induction ws with
  | nil => rw [List.nil_append, skipSpace, List.dropWhile_cons_of_neg (by simp [hb])]
  | cons w ws ih =>
    rw [List.cons_append, skipSpace, List.dropWhile_cons_of_pos (hws w List.mem_cons_self)]
    exact ih fun d hd => hws d (List.mem_cons_of_mem _ hd)

theorem skipSpace_cons (hb : isSpace b = false) : skipSpace (b :: bs) = b :: bs :=
  skipSpace_spaces spaces_nil hb

/-- What is done by the next token, of which there must be one. -/
def onToken {α : Type} (e : Problem) (next : UInt8 → Bytes → Except Problem α) (bs : Bytes) :
    Except Problem α :=
  match skipSpace bs with
  | [] => .error e
  | b :: rest => next b rest

theorem onToken_spaces {α : Type} {e : Problem} {next : UInt8 → Bytes → Except Problem α}
    (hws : Spaces ws) (hb : isSpace b = false) : onToken e next (ws ++ b :: bs) = next b bs := by
  rw [onToken, skipSpace_spaces hws hb]

theorem word_append (w rest : Bytes) : word w (w ++ rest) = .ok rest := by
  induction w with
  | nil => rw [List.nil_append, word]
  | cons b w ih => rw [List.cons_append, word, if_pos rfl, ih]

/-- A string is passed over. -/
theorem skipText_body (h : Body bs) : skipText (bs ++ octet '"' :: rest) = .ok rest := by
  induction h with
  | nil =>
    rw [List.nil_append, skipText.eq_def]
    rfl
  | plain hb _ ih =>
    rw [List.cons_append, skipText.eq_def]
    simp only [if_neg hb.1, if_neg hb.2.1, if_neg hb.2.2]
    exact ih
  | @short c bs hc _ ih =>
    have hu : c ≠ octet 'u' := by
      rintro rfl
      exact absurd hc (by decide)
    rw [List.cons_append, List.cons_append, skipText.eq_def]
    simp only [if_neg (show octet '\\' ≠ octet '"' by decide), if_neg hu, hc, if_true]
    exact ih
  | hex h _ ih =>
    simp only [List.cons_append]
    rw [skipText.eq_def]
    simp only [if_neg (show octet '\\' ≠ octet '"' by decide), h, if_true]
    exact ih

theorem Body.append {p : Bytes} (hp : ∀ b ∈ p, Plain b) (h : Body bs) : Body (p ++ bs) := by
  induction p with
  | nil => exact h
  | cons b p ih =>
    exact .plain (hp b List.mem_cons_self) (ih fun d hd => hp d (List.mem_cons_of_mem _ hd))

/-- The body of a string ends where it is written to end. -/
theorem body_written (s : String) : Body (written s) := by
  rw [written]
  induction s.toList with
  | nil => exact .nil
  | cons ch cs ih =>
    rw [List.flatMap_cons]
    cases escaped_escape ch with
    | short c x hbs h hx =>
      rw [hbs]
      exact .short (by rw [h]; rfl) ih
    | hex h₁ h₂ h₃ h₄ hbs h hc =>
      rw [hbs]
      exact .hex (by rw [h]; rfl) ih
    | plain hbs h => exact ih.append h

/-! ## Numbers -/

/-- What may follow a number: anything that does not go on with it. -/
def Stops (rest : Bytes) : Prop :=
  ∀ b ∈ rest.head?, isDigit b = false ∧ b ≠ octet '.' ∧ b ≠ octet 'e' ∧ b ≠ octet 'E'

theorem dropWhile_digits {ds : Bytes} (hds : Digits ds)
    (hrest : ∀ b ∈ rest.head?, isDigit b = false) : (ds ++ rest).dropWhile isDigit = rest := by
  induction ds with
  | nil =>
    cases rest with
    | nil => rfl
    | cons b rest => exact List.dropWhile_cons_of_neg (by simp [hrest b rfl])
  | cons d ds ih =>
    rw [List.cons_append, List.dropWhile_cons_of_pos (hds d List.mem_cons_self)]
    exact ih fun x hx => hds x (List.mem_cons_of_mem _ hx)

/-- An exponent does not begin like a digit or a point. -/
theorem Exponent.head (h : Exponent bs) (hrest : Stops rest) :
    ∀ b ∈ (bs ++ rest).head?, isDigit b = false ∧ b ≠ octet '.' := by
  cases h with
  | absent => exact fun b hb => ⟨(hrest b hb).1, (hrest b hb).2.1⟩
  | present he =>
    rintro b ⟨⟩
    rcases he with rfl | rfl <;> decide

theorem Fraction.head (h : Fraction bs) (hrest : Stops rest) :
    ∀ b ∈ (bs ++ rest).head?, isDigit b = false := by
  cases h with
  | absent h => exact fun b hb => (h.head hrest b hb).1
  | present =>
    rintro b ⟨⟩
    decide

theorem skipExponent_append (h : Exponent bs) (hrest : Stops rest) :
    skipExponent (bs ++ rest) = .ok rest := by
  cases h with
  | absent =>
    cases rest with
    | nil => rfl
    | cons b rest =>
      obtain ⟨-, -, he, hE⟩ := hrest b rfl
      rw [List.nil_append, skipExponent.eq_def]
      simp [he, hE]
  | @present e d sign ds he hsign hd hds =>
    have hall : Digits (d :: ds) := List.forall_mem_cons.2 ⟨hd, hds⟩
    have hdrop : ((d :: ds) ++ rest).dropWhile isDigit = rest :=
      dropWhile_digits hall fun b hb => (hrest b hb).1
    -- the sign, if there is one, is told from a digit
    have hnosign : d ≠ octet '+' ∧ d ≠ octet '-' := by
      constructor <;> (rintro rfl; exact absurd hd (by decide))
    have hmark : (e = octet 'e' || e = octet 'E') = true := by simpa using he
    rw [List.cons_append, skipExponent.eq_def]
    simp only [hmark, if_true]
    rcases hsign with rfl | rfl | rfl
    · simp only [List.nil_append, List.cons_append, hnosign.1, hnosign.2] at hdrop ⊢
      simp [hd, hdrop]
    all_goals
      simp only [List.cons_append, List.nil_append] at hdrop ⊢
      simp [hd, hdrop]

theorem skipFraction_append (h : Fraction bs) (hrest : Stops rest) :
    skipFraction (bs ++ rest) = .ok rest := by
  cases h with
  | absent h =>
    have hhead := h.head hrest
    have hskip := skipExponent_append h hrest
    cases hbs : bs ++ rest with
    | nil =>
      rw [List.append_eq_nil_iff] at hbs
      rw [hbs.2]
      rfl
    | cons b tl =>
      rw [hbs] at hhead hskip
      rw [skipFraction, if_neg (hhead b rfl).2, hskip]
  | @present d ds ex hd hds h =>
    have hall : Digits (d :: ds) := List.forall_mem_cons.2 ⟨hd, hds⟩
    have hdrop : ((d :: ds) ++ (ex ++ rest)).dropWhile isDigit = ex ++ rest :=
      dropWhile_digits hall fun b hb => (h.head hrest b hb).1
    simp only [List.cons_append, List.append_assoc] at hdrop ⊢
    rw [skipFraction, if_pos rfl, if_pos (by simpa using hd), hdrop]
    exact skipExponent_append h hrest

/-- A number is passed over, up to what does not go on with it. -/
theorem skipNumber_append (h : Magnitude bs) (hrest : Stops rest) :
    skipNumber (bs ++ rest) = .ok rest := by
  cases h with
  | @zero fr h =>
    have hno : ((fr ++ rest).head?.any isDigit) = false := by
      cases hfr : (fr ++ rest).head? with
      | none => rfl
      | some b => exact h.head hrest b hfr
    rw [List.cons_append, skipNumber, if_pos rfl, hno]
    exact skipFraction_append h hrest
  | @digits d ds fr hd hz hds h =>
    rw [List.cons_append, skipNumber, if_neg hz, if_pos hd, List.append_assoc,
      dropWhile_digits hds (h.head hrest)]
    exact skipFraction_append h hrest

/-! ## Values -/

theorem isSpace_of_isDigit (h : isDigit b = true) : isSpace b = false := by
  cases hs : isSpace b with
  | false => rfl
  | true =>
    simp only [isSpace, Bool.or_eq_true, decide_eq_true_eq] at hs
    rcases hs with ((rfl | rfl) | rfl) | rfl <;> exact absurd h (by decide)

/-- How a derivation begins: with no white space, and with no bracket that
closes. -/
theorem Derives.head {f : Form} (h : Derives f bs) : ∃ b tl, bs = b :: tl ∧
    isSpace b = false ∧ b ≠ octet ']' ∧ b ≠ 0x7D := by
  induction h with
  -- a digit is neither white space nor a bracket
  | number h =>
    cases h with
    | zero => exact ⟨_, _, rfl, by decide⟩
    | @digits d _ _ hd =>
      refine ⟨d, _, rfl, isSpace_of_isDigit hd, ?_, ?_⟩
      all_goals rintro rfl; exact absurd hd (by decide)
  -- items begin like their first value
  | lastItem _ _ ih =>
    obtain ⟨b, tl, rfl, hb⟩ := ih
    exact ⟨b, _, rfl, hb⟩
  | item _ _ _ _ ih =>
    obtain ⟨b, tl, rfl, hb⟩ := ih
    exact ⟨b, _, rfl, hb⟩
  | _ => exact ⟨_, _, rfl, by decide⟩

/-- The scanner of each form. -/
def skipForm : Form → (fuel : Nat) → Bytes → Except Problem Bytes
  | .value => skipValue
  | .items => skipItems
  | .members => skipMembers

/-- The fuel that a form can do without, beyond twice its octets. -/
def Form.slack : Form → Nat
  | .value => 1
  | _ => 0

/-- What stands behind an item or a member stops a number. -/
theorem stops_spaces (hws : Spaces ws) (hb : b = octet ',' ∨ b = octet ']' ∨ b = 0x7D) :
    Stops (ws ++ b :: bs) := by
  cases ws with
  | nil =>
    rintro c ⟨⟩
    rcases hb with rfl | rfl | rfl <;> decide
  | cons w ws =>
    have hw := hws w List.mem_cons_self
    rintro c ⟨⟩
    simp only [isSpace, Bool.or_eq_true, decide_eq_true_eq] at hw
    rcases hw with ((rfl | rfl) | rfl) | rfl <;> decide

variable {fuel : Nat}

/-- The first octet of a number leads to `skipNumber`. -/
theorem skipValue_number (h : Magnitude bs) (hws : Spaces ws) :
    skipValue (fuel + 1) (ws ++ (bs ++ rest)) = skipNumber (bs ++ rest) := by
  obtain ⟨b, tl, rfl, hb, -⟩ := (Derives.number h).head
  have hd : isDigit b = true := by
    cases h with
    | zero => decide
    | digits hd => exact hd
  have hne : ∀ c, isDigit c = false → b ≠ c := by
    rintro c hc rfl
    rw [hd] at hc
    cases hc
  rw [List.cons_append, skipValue, skipSpace_spaces hws hb]
  simp only [hd, hne (octet 'n') (by decide), hne (octet 't') (by decide),
    hne (octet 'f') (by decide), hne (octet '-') (by decide), if_true, if_false]

/-! Each production takes one unit of fuel, and the scanner one step. -/

variable {ws' : Bytes}

theorem Derives.exists_fuel {f : Form} (h : Derives f bs) (hfuel : 2 * bs.length ≤ fuel + f.slack) :
    ∃ k, fuel = k + 1 := by
  obtain ⟨b, tl, rfl, -⟩ := h.head
  refine ⟨fuel - 1, ?_⟩
  rw [List.length_cons] at hfuel
  cases f <;> simp only [Form.slack] at hfuel <;> omega

/-- White space in front of a value is passed over. -/
theorem skipForm_spaces {k : Nat} (hws : Spaces ws) (hb : isSpace b = false) :
    skipForm .value (k + 1) (ws ++ (b :: bs ++ rest)) = skipValue (k + 1) (b :: (bs ++ rest)) := by
  rw [skipForm, List.cons_append, skipValue, skipValue, skipSpace_spaces hws hb, skipSpace_cons hb]

/-- A list goes on by the token behind its bracket. -/
theorem skipValue_list (hws : Spaces ws) :
    skipValue (fuel + 1) (ws ++ octet '[' :: bs) = onToken .endInList
      (fun c after => if c = octet ']' then .ok after else skipItems fuel (c :: after)) bs := by
  rw [skipValue, skipSpace_spaces hws (by decide)]
  rfl

/-- And so does an object. -/
theorem skipValue_object (hws : Spaces ws) :
    skipValue (fuel + 1) (ws ++ 0x7B :: bs) = onToken .endInObject
      (fun c after => if c = 0x7D then .ok after else skipMembers fuel (c :: after)) bs := by
  rw [skipValue, skipSpace_spaces hws (by decide)]
  rfl

/-- Items go on by the token behind a value. -/
theorem skipItems_value (h : skipValue fuel bs = .ok rest) :
    skipItems (fuel + 1) bs = onToken .endInList
      (fun c after => if c = octet ',' then skipItems fuel after
        else if c = octet ']' then .ok after else .error .noCommaOrBracket) rest := by
  rw [skipItems, h]
  rfl

/-- And so do members. -/
theorem skipMembers_value {k : Bytes} (hk : Body k) (hws : Spaces ws) (hws' : Spaces ws')
    (h : skipValue fuel bs = .ok rest) :
    skipMembers (fuel + 1) (ws ++ octet '"' :: (k ++ octet '"' :: (ws' ++ octet ':' :: bs))) =
      onToken .endInObject
        (fun c after => if c = octet ',' then skipMembers fuel after
          else if c = 0x7D then .ok after else .error .noCommaOrBrace) rest := by
  rw [skipMembers, skipSpace_spaces hws (by decide)]
  simp only [if_neg (show ¬ octet '"' ≠ octet '"' by decide), skipText_body hk, bind, Except.bind,
    skipSpace_spaces hws' (show isSpace (octet ':') = false by decide),
    if_neg (show ¬ octet ':' ≠ octet ':' by decide), h]
  rfl

/-- **The scanner passes over what the grammar derives**, behind any white
space and up to any rest that does not go on with a number. -/
theorem skipForm_of_derives {f : Form} (h : Derives f bs) (hws : Spaces ws) (hrest : Stops rest)
    (hfuel : 2 * bs.length ≤ fuel + f.slack) : skipForm f fuel (ws ++ (bs ++ rest)) = .ok rest := by
  induction h generalizing ws rest fuel with
  | wordNull =>
    obtain ⟨k, rfl⟩ := Derives.wordNull.exists_fuel hfuel
    rw [skipForm_spaces hws (by decide)]
    exact word_append ull rest
  | wordTrue =>
    obtain ⟨k, rfl⟩ := Derives.wordTrue.exists_fuel hfuel
    rw [skipForm_spaces hws (by decide)]
    exact word_append rue rest
  | wordFalse =>
    obtain ⟨k, rfl⟩ := Derives.wordFalse.exists_fuel hfuel
    rw [skipForm_spaces hws (by decide)]
    exact word_append alse rest
  | number h =>
    obtain ⟨k, rfl⟩ := (Derives.number h).exists_fuel hfuel
    rw [skipForm, skipValue_number h hws]
    exact skipNumber_append h hrest
  | negative h =>
    obtain ⟨k, rfl⟩ := (Derives.negative h).exists_fuel hfuel
    rw [skipForm_spaces hws (by decide)]
    exact skipNumber_append h hrest
  | text h =>
    obtain ⟨k, rfl⟩ := (Derives.text h).exists_fuel hfuel
    rw [skipForm_spaces hws (by decide), List.append_assoc]
    exact skipText_body h
  | emptyList hws' =>
    obtain ⟨k, rfl⟩ := (Derives.emptyList hws').exists_fuel hfuel
    rw [skipForm, List.cons_append, List.append_assoc, skipValue_list hws, List.singleton_append,
      onToken_spaces hws' (by decide), if_pos rfl]
  | list hws' h ih =>
    obtain ⟨k, rfl⟩ := (Derives.list hws' h).exists_fuel hfuel
    obtain ⟨b, tl, rfl, hb, hclose, -⟩ := h.head
    -- one unit of fuel goes with the bracket, and one makes up for the slack that items lack
    have hitems : skipForm .items k ([] ++ (b :: tl ++ rest)) = .ok rest :=
      ih spaces_nil hrest (by simp [Form.slack] at hfuel ⊢; omega)
    rw [skipForm, List.cons_append, List.append_assoc, skipValue_list hws, List.cons_append,
      onToken_spaces hws' hb, if_neg hclose]
    exact hitems
  | emptyObject hws' =>
    obtain ⟨k, rfl⟩ := (Derives.emptyObject hws').exists_fuel hfuel
    rw [skipForm, List.cons_append, List.append_assoc, skipValue_object hws, List.singleton_append,
      onToken_spaces hws' (by decide), if_pos rfl]
  | object hws' h ih =>
    obtain ⟨k, rfl⟩ := (Derives.object hws' h).exists_fuel hfuel
    obtain ⟨b, tl, rfl, hb, -, hclose⟩ := h.head
    have hmembers : skipForm .members k ([] ++ (b :: tl ++ rest)) = .ok rest :=
      ih spaces_nil hrest (by simp [Form.slack] at hfuel ⊢; omega)
    rw [skipForm, List.cons_append, List.append_assoc, skipValue_object hws, List.cons_append,
      onToken_spaces hws' hb, if_neg hclose]
    exact hmembers
  | @lastItem v ws' hv hws' ih =>
    obtain ⟨k, rfl⟩ := (Derives.lastItem hv hws').exists_fuel hfuel
    -- a number in the value ends at the bracket behind it
    have hskip : skipValue k (ws ++ (v ++ (ws' ++ octet ']' :: rest))) = _ :=
      ih hws (stops_spaces hws' (by simp)) (by simp [Form.slack] at hfuel ⊢; omega)
    simp only [skipForm, List.append_assoc, List.cons_append, List.nil_append]
    rw [skipItems_value hskip, onToken_spaces hws' (by decide)]
    rfl
  | @item v ws' ws'' bs hv hws' hws'' h ih ih' =>
    obtain ⟨k, rfl⟩ := (Derives.item hv hws' hws'' h).exists_fuel hfuel
    have hskip : skipValue k (ws ++ (v ++ (ws' ++ octet ',' :: (ws'' ++ (bs ++ rest))))) = _ :=
      ih hws (stops_spaces hws' (by simp)) (by simp [Form.slack] at hfuel ⊢; omega)
    simp only [skipForm, List.append_assoc, List.cons_append]
    rw [skipItems_value hskip, onToken_spaces hws' (by decide), if_pos rfl]
    exact ih' hws'' hrest (by simp [Form.slack] at hfuel ⊢; omega)
  | @lastMember key v ws₁ ws₂ ws₃ hk hws₁ hws₂ hv hws₃ ih =>
    obtain ⟨k, rfl⟩ := (Derives.lastMember hk hws₁ hws₂ hv hws₃).exists_fuel hfuel
    -- the key and the colon are octets too, so the fuel suffices for the value
    have hskip : skipValue k (ws₂ ++ (v ++ (ws₃ ++ 0x7D :: rest))) = _ :=
      ih hws₂ (stops_spaces hws₃ (by simp)) (by simp [Form.slack] at hfuel ⊢; omega)
    simp only [skipForm, List.append_assoc, List.cons_append, List.nil_append]
    rw [skipMembers_value hk hws hws₁ hskip, onToken_spaces hws₃ (by decide)]
    rfl
  | @member key v ws₁ ws₂ ws₃ ws₄ bs hk hws₁ hws₂ hv hws₃ hws₄ h ih ih' =>
    obtain ⟨k, rfl⟩ := (Derives.member hk hws₁ hws₂ hv hws₃ hws₄ h).exists_fuel hfuel
    have hskip : skipValue k (ws₂ ++ (v ++ (ws₃ ++ octet ',' :: (ws₄ ++ (bs ++ rest))))) = _ :=
      ih hws₂ (stops_spaces hws₃ (by simp)) (by simp [Form.slack] at hfuel ⊢; omega)
    simp only [skipForm, List.append_assoc, List.cons_append]
    rw [skipMembers_value hk hws hws₁ hskip, onToken_spaces hws₃ (by decide), if_pos rfl]
    exact ih' hws₄ hrest (by simp [Form.slack] at hfuel ⊢; omega)

/-! ## Texts of values -/

variable {s : String}

/-- **A value is kept as it stands**, without the white space before it. -/
theorem raw_of_isValue (h : IsValue s) (hws : Spaces ws) (hrest : Stops rest) :
    raw (ws ++ (Utf8.encode s ++ rest)) = .ok (s, rest) := by
  obtain ⟨b, tl, hs, hb, -⟩ := Derives.head h
  have hhere : skipSpace (ws ++ (Utf8.encode s ++ rest)) = Utf8.encode s ++ rest := by
    rw [hs, List.cons_append, skipSpace_spaces hws hb]
  have hskip : skipForm .value (2 * (Utf8.encode s ++ rest).length + 2)
      ([] ++ (Utf8.encode s ++ rest)) = .ok rest :=
    skipForm_of_derives h spaces_nil hrest (by simp [Form.slack]; omega)
  rw [raw, hhere, show skip (Utf8.encode s ++ rest) = .ok rest from hskip]
  simp only [bind, Except.bind, List.length_append, Nat.add_sub_cancel, List.take_left,
    Utf8.decode?_encode]
  rfl

/-! ## What is written is a value -/

theorem isValue_text (s : String) : IsValue (Writer.text s) := by
  rw [IsValue, encode_text]
  exact .text (body_written s)

/-- The octets of a member of an object. -/
def writtenMember (m : String × String) : Bytes :=
  octet '"' :: (written m.1 ++ octet '"' :: octet ':' :: Utf8.encode m.2)

/-- The octets of the members behind the first, each with its comma. -/
def writtenRest (ms : List (String × String)) : Bytes :=
  ms.flatMap fun m => octet ',' :: writtenMember m

/-- The octets of the members of an object. -/
def writtenMembers : List (String × String) → Bytes
  | [] => []
  | m :: ms => writtenMember m ++ writtenRest ms

variable {m : String × String} {ms : List (String × String)}

theorem encode_member (m : String × String) :
    Utf8.encode (Writer.text m.1 ++ ":" ++ m.2) = writtenMember m := by
  simp only [Utf8.encode_append, encode_text, writtenMember, List.append_assoc, List.cons_append]
  rfl

theorem encode_members (m : String × String) (ms : List (String × String)) :
    Utf8.encode (",".intercalate ((m :: ms).map fun m => Writer.text m.1 ++ ":" ++ m.2)) =
      writtenMember m ++ writtenRest ms := by
  induction ms generalizing m with
  | nil =>
    rw [List.map_singleton, String.intercalate_singleton, encode_member, writtenRest,
      List.flatMap_nil, List.append_nil]
  | cons m' ms ih =>
    have hm' := ih m'
    simp only [List.map_cons] at hm' ⊢
    rw [String.intercalate_cons_cons, Utf8.encode_append, Utf8.encode_append, encode_member, hm',
      List.append_assoc]
    rfl

/-- An object is written as its members in braces. -/
theorem encode_object (ms : List (String × String)) :
    Utf8.encode (Writer.object ms) = 0x7B :: (writtenMembers ms ++ [0x7D]) := by
  rw [Writer.object, Utf8.encode_append, Utf8.encode_append]
  cases ms with
  | nil => rfl
  | cons m ms =>
    rw [encode_members]
    rfl

/-- Members that are written are derived, one production for each. -/
theorem derives_members (h : ∀ n ∈ m :: ms, IsValue n.2) :
    Derives .members (writtenMember m ++ (writtenRest ms ++ [0x7D])) := by
  have hm : Derives .value (Utf8.encode m.2) := h m List.mem_cons_self
  induction ms generalizing m with
  | nil =>
    have hlast := Derives.lastMember (body_written m.1) spaces_nil spaces_nil hm spaces_nil
    simpa [writtenMember, writtenRest] using hlast
  | cons m' ms ih =>
    have hrest := ih (fun n hn => h n (List.mem_cons_of_mem _ hn))
      (h m' (List.mem_cons_of_mem _ List.mem_cons_self))
    have hmember := Derives.member (body_written m.1) spaces_nil spaces_nil hm spaces_nil
      spaces_nil hrest
    simpa [writtenMember, writtenRest] using hmember

/-- **An object of values is a value.** -/
theorem isValue_object (h : ∀ m ∈ ms, IsValue m.2) : IsValue (Writer.object ms) := by
  rw [IsValue, encode_object]
  cases ms with
  | nil => exact .emptyObject spaces_nil
  | cons m ms =>
    rw [writtenMembers, List.append_assoc]
    have hobject := Derives.object spaces_nil (derives_members h)
    exact hobject

end Provision.Json
