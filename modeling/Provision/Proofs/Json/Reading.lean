import Provision.Json.Reader
import Provision.Proofs.Json.Scanning
/-!
# JSON — objects in any spelling

`Reader.object` folds the members of an object over a state. An object has
many spellings: white space between its tokens, and any spelling of each of
its keys. `Object` relates each of them to the members as they are meant,
and reading does what `Folds` says, which speaks of keys and texts and no
longer of octets: **each key is judged in the state of its turn, and its
value is read to its end** (`object_spelled`). Where every value is kept as
it stands, nothing else is read (`document_keep_iff`).
-/

namespace Provision.Json

open Reader

variable {σ : Type} {member : String → σ → Except Problem (Reader σ)}
variable {ws ws' bs rest : Bytes}

/-! ## Tokens -/

theorem token_spaces {b : UInt8} (hws : Spaces ws) (hb : isSpace b = false) :
    token (ws ++ b :: bs) = .ok (b, bs) := by
  rw [token, skipSpace_spaces hws hb]

theorem token_ok {b : UInt8} (h : token bs = .ok (b, rest)) :
    ∃ ws, Spaces ws ∧ bs = ws ++ b :: rest := by
  change onToken .endInValue (fun b rest => .ok (b, rest)) bs = _ at h
  obtain ⟨ws, c, tl, hws, rfl, hc⟩ := onToken_ok h
  obtain ⟨rfl, rfl⟩ := Prod.mk.inj (Except.ok.inj hc)
  exact ⟨ws, hws, rfl⟩

theorem nextKey_eq (first : Bool) (bs : Bytes) : nextKey first bs =
    onToken .endInObject (fun b rest => if b = 0x7D then .ok (Sum.inr rest)
      else if first then
        if b = octet '"' then .ok (Sum.inl rest) else .error .keyNotText
      else if b = octet ',' then
        onToken .endInValue (fun c after => if c = octet '"' then .ok (Sum.inl after)
          else if c = 0x7D then .error .trailingComma else .error .keyNotText) rest
      else .error .noCommaOrBrace) bs := rfl

theorem nextKey_first (hws : Spaces ws) : nextKey true (ws ++ octet '"' :: bs) = .ok (.inl bs) := by
  rw [nextKey, skipSpace_spaces hws (by decide)]
  rfl

theorem nextKey_more (hws : Spaces ws) (hws' : Spaces ws') :
    nextKey false (ws ++ octet ',' :: (ws' ++ octet '"' :: bs)) = .ok (.inl bs) := by
  rw [nextKey_eq, onToken_spaces hws (by decide), if_neg (by decide), if_neg Bool.false_ne_true,
    if_pos rfl, onToken_spaces hws' (by decide), if_pos rfl]

theorem nextKey_end (first : Bool) (hws : Spaces ws) :
    nextKey first (ws ++ 0x7D :: rest) = .ok (.inr rest) := by
  rw [nextKey, skipSpace_spaces hws (by decide)]
  rfl

theorem colon_spaces (hws : Spaces ws) : colon (ws ++ octet ':' :: bs) = .ok bs := by
  rw [colon, skipSpace_spaces hws (by decide)]
  rfl

theorem colon_ok (h : colon bs = .ok rest) : ∃ ws, Spaces ws ∧ bs = ws ++ octet ':' :: rest := by
  change onToken .endInObject
    (fun b rest => if b = octet ':' then .ok rest else .error .noColon) bs = _ at h
  obtain ⟨ws, b, tl, hws, rfl, hb⟩ := onToken_ok h
  split at hb
  · next hcolon =>
    obtain rfl := Except.ok.inj hb
    exact ⟨ws, hws, by rw [hcolon]⟩
  · cases hb

/-! ## Values -/

/-- **A reader takes a text for a value**: it passes over white space in
front, and stops behind the text, whatever does not go on with a number. -/
def Takes {α : Type} (value : Reader α) (text : String) (a : α) : Prop :=
  ∀ ws rest, Spaces ws → Stops rest → value (ws ++ (Utf8.encode text ++ rest)) = .ok (a, rest)

/-- A text that stands for a string: any spelling of it between quotes. -/
def Quotes (text s : String) : Prop :=
  ∃ k, Utf8.encode text = octet '"' :: (k ++ [octet '"']) ∧ Denotes k (Utf8.encode s)

theorem quotes_text (s : String) : Quotes (Writer.text s) s :=
  ⟨written s, encode_text s, denotes_written s⟩

theorem quotes_of_text {text s : String} (h : Utf8.encode text = octet '"' :: bs)
    (hread : Json.text bs = .ok (s, [])) : Quotes text s := by
  obtain ⟨k, rfl, hk⟩ := text_eq_ok_iff.1 hread
  exact ⟨k, h, hk⟩

/-- A string is read as a value, in any spelling. -/
theorem takes_text {text s : String} (wanted : String) (h : Quotes text s) :
    Takes (Reader.text wanted) text s := by
  intro ws rest hws _
  obtain ⟨k, htext, hk⟩ := h
  rw [htext, List.cons_append, List.append_assoc, Reader.text, token_spaces hws (by decide)]
  exact text_eq_ok_iff.2 ⟨k, rfl, hk⟩

/-- What is made of a value that is taken. -/
theorem Takes.map {α β : Type} {value : Reader α} {text : String} {a : α} (f : α → β)
    (h : Takes value text a) :
    Takes (fun bs => do
      let (a, bs) ← value bs
      return (f a, bs)) text (f a) := by
  intro ws rest hws hstop
  simp only [h ws rest hws hstop]
  rfl

/-- A value that is passed over is taken for nothing. -/
theorem takes_ignore {text : String} (s : σ) (h : IsValue text) : Takes (ignore s) text s := by
  intro ws rest hws hstop
  have hskip : skip (ws ++ (Utf8.encode text ++ rest)) = .ok rest :=
    skipForm_of_derives h hws hstop (by simp [Form.slack]; omega)
  rw [ignore, hskip]
  rfl

/-! ## Spellings -/

/-- **A member as it may be spelled**, behind its opening quote: the key in
any spelling, and white space on both sides of the colon. -/
inductive Member : String × String → Bytes → Prop
  | mk {key text : String} {k ws ws' : Bytes} (hk : Denotes k (Utf8.encode key))
      (hws : Spaces ws) (hws' : Spaces ws') :
      Member (key, text) (k ++ octet '"' :: (ws ++ octet ':' :: (ws' ++ Utf8.encode text)))

/-- **The members of an object as they may be spelled**, with the brace that
closes it. Only the first has no comma in front. -/
inductive Members : (first : Bool) → List (String × String) → Bytes → Prop
  | done {first : Bool} {ws : Bytes} (hws : Spaces ws) : Members first [] (ws ++ [0x7D])
  | head {m : String × String} {ms : List (String × String)} {ws bs tail : Bytes}
      (hws : Spaces ws) (hm : Member m bs) (h : Members false ms tail) :
      Members true (m :: ms) (ws ++ octet '"' :: (bs ++ tail))
  | more {m : String × String} {ms : List (String × String)} {ws ws' bs tail : Bytes}
      (hws : Spaces ws) (hws' : Spaces ws') (hm : Member m bs) (h : Members false ms tail) :
      Members false (m :: ms) (ws ++ octet ',' :: (ws' ++ octet '"' :: (bs ++ tail)))

/-- **An object as it may be spelled.** -/
def Object (ms : List (String × String)) (bs : Bytes) : Prop :=
  ∃ tl, bs = 0x7B :: tl ∧ Members true ms tl

variable {ms : List (String × String)} {s s' : σ} {first : Bool} {fuel : Nat}

/-- What stands behind a member stops a number. -/
theorem Members.stops (h : Members false ms bs) : Stops (bs ++ rest) := by
  cases h with
  | done hws =>
    rw [List.append_assoc]
    exact stops_spaces hws (by simp)
  | more hws _ _ _ =>
    rw [List.append_assoc]
    exact stops_spaces hws (by simp)

/-- Every member takes octets. -/
theorem Members.length_le (h : Members first ms bs) : ms.length ≤ bs.length := by
  induction h with
  | done => exact Nat.zero_le _
  | head _ _ _ ih =>
    simp only [List.length_append, List.length_cons]
    omega
  | more _ _ _ _ ih =>
    simp only [List.length_append, List.length_cons]
    omega

/-- The octets of a member that is written, behind its opening quote. -/
def writtenBehind (m : String × String) : Bytes :=
  written m.1 ++ octet '"' :: octet ':' :: Utf8.encode m.2

theorem member_written (m : String × String) : Member m (writtenBehind m) :=
  .mk (denotes_written m.1) spaces_nil spaces_nil

theorem members_writtenRest (ms : List (String × String)) :
    Members false ms (writtenRest ms ++ [0x7D]) := by
  induction ms with
  | nil => exact .done spaces_nil
  | cons m ms ih =>
    have hmore := Members.more spaces_nil spaces_nil (member_written m) ih
    simpa [writtenRest, writtenMember, writtenBehind] using hmore

/-- **What is written is one of the spellings.** -/
theorem object_written (ms : List (String × String)) :
    Object ms (Utf8.encode (Writer.object ms)) := by
  rw [encode_object]
  cases ms with
  | nil => exact ⟨_, rfl, .done spaces_nil⟩
  | cons m ms =>
    have hhead := Members.head spaces_nil (member_written m) (members_writtenRest ms)
    exact ⟨_, by simp [writtenMembers, writtenMember, writtenBehind], hhead⟩

/-! ## Objects that are read -/

/-- **What the members of an object make of a state**, one after the
other. -/
inductive Folds (member : String → σ → Except Problem (Reader σ)) :
    List (String × String) → σ → σ → Prop
  | nil (s : σ) : Folds member [] s s
  | cons {key text : String} {ms : List (String × String)} {s s₁ s₂ : σ} {value : Reader σ}
      (hkey : member key s = .ok value) (hvalue : Takes value text s₁)
      (rest : Folds member ms s₁ s₂) : Folds member ((key, text) :: ms) s s₂

/-- One member is read, and then the others. -/
theorem members_key {key text : String} {s₁ : σ} {value : Reader σ} {m tail : Bytes}
    (hm : Member (key, text) m) (hnext : nextKey first bs = .ok (.inl (m ++ tail)))
    (hkey : member key s = .ok value) (hvalue : Takes value text s₁) (htail : Stops tail) :
    members member (fuel + 1) first s bs = members member fuel false s₁ tail := by
  cases hm with
  | @mk _ _ k ws ws' hk hws hws' =>
  have htext : Json.text
      (k ++ octet '"' :: (ws ++ octet ':' :: (ws' ++ (Utf8.encode text ++ tail)))) =
        .ok (key, ws ++ octet ':' :: (ws' ++ (Utf8.encode text ++ tail))) :=
    text_eq_ok_iff.2 ⟨k, rfl, hk⟩
  simp only [List.append_assoc, List.cons_append] at hnext
  rw [members]
  simp only [hnext, bind, Except.bind, htext, hkey, colon_spaces hws, hvalue ws' tail hws' htail]

/-- **Members are folded over the state**, however they are spelled. -/
theorem members_spelled (hms : Members first ms bs) (h : Folds member ms s s')
    (hfuel : ms.length < fuel) : members member fuel first s (bs ++ rest) = .ok (s', rest) := by
  induction hms generalizing s fuel with
  | @done first ws hws =>
    obtain ⟨k, rfl⟩ : ∃ k, fuel = k + 1 := ⟨fuel - 1, by omega⟩
    cases h
    rw [List.append_assoc, members, List.singleton_append, nextKey_end first hws]
    rfl
  | @head m ms ws bs tail hws hm htail ih =>
    rw [List.length_cons] at hfuel
    obtain ⟨k, rfl⟩ : ∃ k, fuel = k + 1 := ⟨fuel - 1, by omega⟩
    cases h with
    | cons hkey hvalue hrest =>
      simp only [List.append_assoc, List.cons_append]
      rw [members_key hm (nextKey_first hws) hkey hvalue htail.stops]
      exact ih hrest (by omega)
  | @more m ms ws ws' bs tail hws hws' hm htail ih =>
    rw [List.length_cons] at hfuel
    obtain ⟨k, rfl⟩ : ∃ k, fuel = k + 1 := ⟨fuel - 1, by omega⟩
    cases h with
    | cons hkey hvalue hrest =>
      simp only [List.append_assoc, List.cons_append]
      rw [members_key hm (nextKey_more hws hws') hkey hvalue htail.stops]
      exact ih hrest (by omega)

/-- The octets of the members are fuel enough. -/
theorem Members.length_lt_fuel (h : Members true ms bs) (rest : Bytes) :
    ms.length < (bs ++ rest).length + 1 := by
  have := h.length_le
  rw [List.length_append]
  omega

/-- **An object is folded over the state**, however it is spelled. -/
theorem object_spelled (hobject : Object ms bs) (h : Folds member ms s s') (hws : Spaces ws) :
    Reader.object member s (ws ++ (bs ++ rest)) = .ok (s', rest) := by
  obtain ⟨tl, rfl, hms⟩ := hobject
  rw [List.cons_append, Reader.object, token_spaces hws (by decide)]
  exact members_spelled hms h (hms.length_lt_fuel rest)

/-- **A record is read from an object** by folding its members over the
record that has no field yet. -/
theorem record_spelled {α : Type} {r : Record σ α} {names : List String} {a : α}
    (hobject : Object ms bs) (h : Folds r.member ms ([], r.start) (names, s))
    (ha : r.finish s = .ok a) (hws : Spaces ws) :
    r.read (ws ++ (bs ++ rest)) = .ok (a, rest) := by
  obtain ⟨tl, rfl, hms⟩ := hobject
  have hmembers : members r.member _ true ([], r.start) (tl ++ rest) = _ :=
    members_spelled hms h (hms.length_lt_fuel rest)
  rw [List.cons_append, Record.read, token_spaces hws (by decide)]
  simp only [bind, Except.bind, if_neg (show (0x7B : UInt8) ≠ octet '[' by decide), if_true,
    hmembers, ha]
  rfl

section

variable {α : Type} {r : Record σ α} {key text : String} {names : List String}
variable {s₂ : List String × σ}

/-- A field changes the record, and is not read again. -/
theorem Folds.field {f : Field σ} {change : σ → σ}
    (hf : r.fields.find? (fun f => f.name = key) = some f) (hnew : key ∉ names)
    (htext : Takes f.read text change) (rest : Folds r.member ms (key :: names, change s) s₂) :
    Folds r.member ((key, text) :: ms) (names, s) s₂ := by
  obtain ⟨value, hkey, hvalue⟩ : ∃ value, r.member key (names, s) = .ok value ∧
      Takes value text (key :: names, change s) := by
    rw [Record.member, hf]
    exact ⟨_, if_neg hnew, htext.map fun change => (key :: names, change s)⟩
  exact .cons hkey hvalue rest

/-- What is no field is passed over, if the record allows it. -/
theorem Folds.other (hr : r.extensible = true)
    (hf : r.fields.find? (fun f => f.name = key) = none) (htext : IsValue text)
    (rest : Folds r.member ms (names, s) s₂) :
    Folds r.member ((key, text) :: ms) (names, s) s₂ := by
  have hkey : r.member key (names, s) = .ok (ignore (names, s)) := by
    rw [Record.member, hf]
    exact if_pos hr
  exact .cons hkey (takes_ignore _ htext) rest

end

/-! ## Nothing else is read -/

/-- What `nextKey` finds: the end, or a key, behind a comma unless it is the
first. -/
theorem nextKey_ok {r : Bytes ⊕ Bytes} (h : nextKey first bs = .ok r) :
    (∃ ws rest, Spaces ws ∧ bs = ws ++ 0x7D :: rest ∧ r = Sum.inr rest) ∨
    (∃ ws tl, first = true ∧ Spaces ws ∧ bs = ws ++ octet '"' :: tl ∧ r = Sum.inl tl) ∨
    ∃ ws ws' tl, first = false ∧ Spaces ws ∧ Spaces ws' ∧
      bs = ws ++ octet ',' :: (ws' ++ octet '"' :: tl) ∧ r = Sum.inl tl := by
  rw [nextKey_eq] at h
  obtain ⟨ws, b, tl, hws, rfl, hb⟩ := onToken_ok h
  by_cases hclose : b = 0x7D
  · rw [if_pos hclose] at hb
    exact .inl ⟨ws, tl, hws, by rw [hclose], (Except.ok.inj hb).symm⟩
  rw [if_neg hclose] at hb
  cases first with
  | true =>
    by_cases hq : b = octet '"'
    · rw [if_pos rfl, if_pos hq] at hb
      exact .inr (.inl ⟨ws, tl, rfl, hws, by rw [hq], (Except.ok.inj hb).symm⟩)
    · rw [if_pos rfl, if_neg hq] at hb
      cases hb
  | false =>
    rw [if_neg Bool.false_ne_true] at hb
    by_cases hcomma : b = octet ','
    · rw [if_pos hcomma] at hb
      obtain ⟨ws', c, tl, hws', rfl, hc⟩ := onToken_ok hb
      split at hc
      · next hq =>
        exact .inr (.inr ⟨ws, ws', tl, rfl, hws, hws', by rw [hcomma, hq], (Except.ok.inj hc).symm⟩)
      · split at hc <;> cases hc
    · rw [if_neg hcomma] at hb
      cases hb

/-- Keeps every value as it stands: its text is put under its key. -/
def keep (put : σ → String × String → σ) (key : String) (s : σ) : Except Problem (Reader σ) :=
  .ok fun bs => do
    let (text, rest) ← raw bs
    return (put s (key, text), rest)

variable {put : σ → String × String → σ}

theorem folds_keep (s : σ) (h : ∀ m ∈ ms, IsValue m.2) :
    Folds (keep put) ms s (ms.foldl put s) := by
  induction ms generalizing s with
  | nil => exact .nil s
  | cons m ms ih =>
    rw [List.forall_mem_cons] at h
    refine .cons rfl (fun ws rest hws hstop => ?_) (ih (put s m) h.2)
    rw [raw_of_isValue h.1 hws hstop]
    rfl

/-- A member that is kept, behind its opening quote. -/
theorem member_keep {s₂ : σ}
    (h : (do
      let (key, bs) ← Json.text bs
      let value ← keep put key s
      let (s, bs) ← value (← colon bs)
      members (keep put) fuel false s bs) = .ok (s₂, rest)) :
    ∃ m spelled tl, bs = spelled ++ tl ∧ Member m spelled ∧ IsValue m.2 ∧
      members (keep put) fuel false (put s m) tl = .ok (s₂, rest) := by
  obtain ⟨⟨key, bs₁⟩, hkey, hbehind⟩ := ok_of_bind h
  obtain ⟨value, hmember, hcolons⟩ := ok_of_bind hbehind
  obtain ⟨bs₂, hcolon, hvalues⟩ := ok_of_bind hcolons
  obtain ⟨⟨s₁, bs₃⟩, hvalue, hrest⟩ := ok_of_bind hvalues
  obtain rfl := Except.ok.inj hmember
  obtain ⟨⟨text, bs₄⟩, hraw, hput⟩ := ok_of_bind hvalue
  obtain ⟨rfl, rfl⟩ := Prod.mk.inj (Except.ok.inj hput)
  -- the octets from the key on, token by token
  obtain ⟨k, rfl, hk⟩ := text_eq_ok_iff.1 hkey
  obtain ⟨ws, hws, rfl⟩ := colon_ok hcolon
  obtain ⟨htext, ws', hws', rfl⟩ := isValue_of_raw hraw
  exact ⟨(key, text), _, bs₄, by simp, .mk hk hws hws', htext, hrest⟩

/-- **Members that are kept are spelled in front of the rest**, and their
texts are JSON values. -/
theorem spelled_of_members (h : members (keep put) fuel first s bs = .ok (s', rest)) :
    ∃ ms tail, bs = tail ++ rest ∧ Members first ms tail ∧ (∀ m ∈ ms, IsValue m.2) ∧
      s' = ms.foldl put s := by
  induction fuel generalizing first s bs with
  | zero => cases h
  | succ fuel ih =>
    rw [members] at h
    obtain ⟨r, hnext, hbehind⟩ := ok_of_bind h
    obtain ⟨ws, tl, hws, rfl, rfl⟩ | ⟨ws, tl, rfl, hws, rfl, rfl⟩ |
      ⟨ws, ws', tl, rfl, hws, hws', rfl, rfl⟩ := nextKey_ok hnext
    · obtain ⟨rfl, rfl⟩ := Prod.mk.inj (Except.ok.inj hbehind)
      exact ⟨[], ws ++ [0x7D], by simp, .done hws, by simp, rfl⟩
    · obtain ⟨m, spelled, tl, rfl, hm, hvalue, hrest⟩ := member_keep hbehind
      obtain ⟨ms, tail, rfl, hms, hvalues, rfl⟩ := ih hrest
      exact ⟨m :: ms, _, by simp, .head hws hm hms, List.forall_mem_cons.2 ⟨hvalue, hvalues⟩, rfl⟩
    · obtain ⟨m, spelled, tl, rfl, hm, hvalue, hrest⟩ := member_keep hbehind
      obtain ⟨ms, tail, rfl, hms, hvalues, rfl⟩ := ih hrest
      exact ⟨m :: ms, _, by simp, .more hws hws' hm hms, List.forall_mem_cons.2 ⟨hvalue, hvalues⟩,
        rfl⟩

/-- **An object that is kept is spelled in front of the rest.** -/
theorem spelled_of_object (h : Reader.object (keep put) s bs = .ok (s', rest)) :
    ∃ ws ms object, Spaces ws ∧ bs = ws ++ (object ++ rest) ∧ Object ms object ∧
      (∀ m ∈ ms, IsValue m.2) ∧ s' = ms.foldl put s := by
  obtain ⟨⟨b, tl⟩, htoken, hbehind⟩ := ok_of_bind h
  obtain ⟨ws, hws, rfl⟩ := token_ok htoken
  change (if b = 0x7B then _ else _) = _ at hbehind
  split at hbehind
  · next hb =>
    obtain ⟨ms, tail, rfl, hms, hvalues, rfl⟩ := spelled_of_members hbehind
    exact ⟨ws, ms, 0x7B :: tail, hws, by rw [hb]; rfl, ⟨tail, rfl, hms⟩, hvalues, rfl⟩
  · cases hbehind

/-! ## Documents -/

theorem skipSpace_eq_nil_iff : skipSpace bs = [] ↔ Spaces bs := by
  induction bs with
  | nil => simp [skipSpace, Spaces]
  | cons b bs ih =>
    rw [Spaces, List.forall_mem_cons, ← Spaces, ← ih, skipSpace, List.dropWhile_cons, ← skipSpace]
    cases isSpace b <;> simp

/-- **A document is what its value is**, if there is nothing but white space
behind it. -/
theorem document_eq_ok_iff {α : Type} {value : Reader α} {a : α} :
    document value bs = .ok a ↔ ∃ ws, Spaces ws ∧ value bs = .ok (a, ws) := by
  constructor
  · intro h
    obtain ⟨⟨a', ws⟩, hvalue, hend⟩ := ok_of_bind h
    cases hskip : skipSpace ws with
    | nil =>
      simp only [hskip] at hend
      obtain rfl := Except.ok.inj hend
      exact ⟨ws, skipSpace_eq_nil_iff.1 hskip, hvalue⟩
    | cons b tl =>
      simp only [hskip] at hend
      cases hend
  · rintro ⟨ws, hws, hvalue⟩
    rw [document, hvalue]
    simp only [bind, Except.bind, skipSpace_eq_nil_iff.2 hws]
    rfl

/-- A document of one object, in any spelling. -/
def ObjectDocument (ms : List (String × String)) (bs : Bytes) : Prop :=
  ∃ ws object ws', Spaces ws ∧ Spaces ws' ∧ bs = ws ++ (object ++ ws') ∧ Object ms object

theorem eq_nil_of_trimmed {text : String} {mid : Bytes} (htext : Trimmed text) (hws : Spaces ws)
    (hws' : Spaces ws') (h : Utf8.encode text = ws ++ (mid ++ ws')) : ws = [] ∧ ws' = [] := by
  obtain ⟨⟨b, tl, hhead, hb⟩, init, c, hlast, hc⟩ := htext
  constructor
  · cases ws with
    | nil => rfl
    | cons w ws =>
      rw [h] at hhead
      rw [← (List.cons.inj hhead).1, hws w List.mem_cons_self] at hb
      cases hb
  · rcases List.eq_nil_or_concat ws' with rfl | ⟨front, w, rfl⟩
    · rfl
    · rw [h, List.concat_eq_append, ← List.append_assoc, ← List.append_assoc] at hlast
      rw [← (List.append_singleton_inj.1 hlast).2, hws' w (by simp)] at hc
      cases hc

/-- A document without white space around it is an object. -/
theorem ObjectDocument.object {text : String} (h : ObjectDocument ms (Utf8.encode text))
    (htext : Trimmed text) : Object ms (Utf8.encode text) := by
  obtain ⟨ws, object, ws', hws, hws', hbs, hobject⟩ := h
  obtain ⟨rfl, rfl⟩ := eq_nil_of_trimmed htext hws hws' hbs
  rwa [hbs, List.nil_append, List.append_nil]

theorem objectDocument_written (ms : List (String × String)) :
    ObjectDocument ms (Utf8.encode (Writer.object ms)) :=
  ⟨[], _, [], spaces_nil, spaces_nil, (List.append_nil _).symm, object_written ms⟩

theorem document_of_read {α : Type} {value : Reader α} {a : α} (h : value bs = .ok (a, [])) :
    document value bs = .ok a :=
  document_eq_ok_iff.2 ⟨[], spaces_nil, h⟩

/-- **A document spells members**: it is an object of them, in any spelling,
and their texts are JSON values. -/
def Spells (bs : Bytes) (ms : List (String × String)) : Prop :=
  ObjectDocument ms bs ∧ ∀ m ∈ ms, IsValue m.2

/-- **A document is kept exactly if it spells members**, and then they are
put one after the other. -/
theorem document_keep_iff : document (Reader.object (keep put) s) bs = .ok s' ↔
    ∃ ms, Spells bs ms ∧ s' = ms.foldl put s := by
  constructor
  · intro h
    obtain ⟨ws', hws', hread⟩ := document_eq_ok_iff.1 h
    obtain ⟨ws, ms, object, hws, rfl, hobject, hvalues, rfl⟩ := spelled_of_object hread
    exact ⟨ms, ⟨⟨ws, object, ws', hws, hws', rfl, hobject⟩, hvalues⟩, rfl⟩
  · rintro ⟨ms, ⟨⟨ws, object, ws', hws, hws', rfl, hobject⟩, hvalues⟩, rfl⟩
    exact document_eq_ok_iff.2 ⟨ws', hws', object_spelled hobject (folds_keep s hvalues) hws⟩

/-- The members of an object in their order. -/
def members? (bs : Bytes) : Except Problem (List (String × String)) :=
  document (Reader.object (keep fun ms m => ms ++ [m]) []) bs

theorem foldl_concat (front : List (String × String)) :
    ms.foldl (fun ms m => ms ++ [m]) front = front ++ ms := by
  induction ms generalizing front with
  | nil => exact (List.append_nil front).symm
  | cons m ms ih => rw [List.foldl_cons, ih, List.append_assoc, List.singleton_append]

/-- **The members that a document spells are found by reading it**, so it
spells no others. -/
theorem members?_eq_ok_iff : members? bs = .ok ms ↔ Spells bs ms := by
  rw [members?, document_keep_iff]
  simp only [foldl_concat, List.nil_append]
  exact ⟨fun ⟨ms', h, heq⟩ => heq ▸ h, fun h => ⟨ms, h, rfl⟩⟩

end Provision.Json
