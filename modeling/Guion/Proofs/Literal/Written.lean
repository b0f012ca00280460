/-
Literals, and how they are read as plain text.

`ReadsAs t v` says that the text `t` is read as `v` wherever it stands. Such a
text is closed, so the reader cuts the text of a list or of a dictionary into
the texts of its parts, whatever stands in quotes: texts of parts put together
are read as the parts put together (`ReadsAs.list`, `ReadsAs.dictionary`).

`IsLiteral` are the values that a program can write down: truth values,
integers, texts, `nulo`, lists and dictionaries of such. `writeLiteral` is
their text, and it is read as the value (`readLiteral_writeLiteral`).
-/
import Guion.Proofs.Entries
import Guion.Proofs.Literal.Closed
import Guion.Value.Literal

namespace Guion

/-! ## Digits -/

namespace Decimal

theorem isDigit_of_mem_digits {n : Nat} {c : Char} (h : c ∈ digits n) : isDigit c = true := by
  have := Nat.isDigit_of_mem_toDigits (by decide) (by decide) h
  simpa [isDigit, Char.isDigit, Char.le_def] using this

theorem toNat_of_isDigit {c : Char} (h : isDigit c = true) : 48 ≤ c.toNat ∧ c.toNat ≤ 57 := by
  simpa [isDigit, Char.le_def, UInt32.le_iff_toNat_le] using h

theorem ne_of_isDigit {c d : Char} (hc : isDigit c = true) (hd : isDigit d = false) : c ≠ d := by
  rintro rfl
  rw [hc] at hd
  cases hd

theorem not_isAsciiLetter_of_isDigit {c : Char} (h : isDigit c = true) : Number.isAsciiLetter c = false := by
  have bounds := toNat_of_isDigit h
  have below : ∀ {d : Char}, 57 < d.toNat → ¬ d ≤ c := by
    intro d hd hle
    have : d.toNat ≤ c.toNat := UInt32.le_iff_toNat_le.mp (Char.le_def.mp hle)
    omega
  simp [Number.isAsciiLetter, below (d := 'a') (by decide), below (d := 'A') (by decide)]

theorem natOfDigits_digits (n : Nat) : natOfDigits (digits n) = n := by
  have := Nat.ofDigitChars_toDigits (b := 10) (n := n) (by decide) (by decide)
  simpa only [natOfDigits, digits, digitValue, Nat.ofDigitChars, Nat.mul_comm 10] using this

theorem readNat?_digits (n : Nat) : readNat? (digits n) = some n := by
  have all : (digits n).all isDigit = true := List.all_eq_true.mpr fun c hc => isDigit_of_mem_digits hc
  have some : (digits n).isEmpty = false := List.isEmpty_eq_false_iff.mpr Nat.toDigits_ne_nil
  simp [readNat?, readRun?, all, some, natOfDigits_digits]

/-- The first character of a number is a digit. -/
theorem digits_cons (n : Nat) : ∃ c rest, digits n = c :: rest ∧ isDigit c = true := by
  obtain ⟨c, rest, h⟩ := List.exists_cons_of_ne_nil (Nat.toDigits_ne_nil (n := n) (b := 10))
  exact ⟨c, rest, h, isDigit_of_mem_digits (n := n) (by rw [digits, h]; exact List.mem_cons_self)⟩

theorem readInt?_ofInt (i : Int) : readInt? (ofInt i) = some i := by
  unfold ofInt
  split
  · next neg =>
    have read : readInt? ('-' :: digits i.natAbs) = (readNat? (digits i.natAbs)).map fun (n : Nat) => -(n : Int) := rfl
    rw [read, readNat?_digits, Option.map_some]
    congr 1
    omega
  · next pos =>
    obtain ⟨c, rest, hd, hc⟩ := digits_cons i.natAbs
    have read : readInt? (digits i.natAbs) = (readNat? (digits i.natAbs)).map fun (n : Nat) => (n : Int) := by
      rw [hd]
      unfold readInt? readSigned?
      split
      · next he => cases he; cases hc
      · next he => cases he; cases hc
      · rfl
    rw [read, readNat?_digits, Option.map_some]
    congr 1
    omega

end Decimal

theorem int64?_toInt (i : Int64) : int64? i.toInt = some i := by
  have low := i.le_toInt
  have high := i.toInt_lt
  rw [int64?, if_pos (by omega), Int64.ofInt_toInt]

theorem readInt64?_ofInt (i : Int64) : readInt64? (Decimal.ofInt i.toInt) = some i := by
  rw [readInt64?_eq, Decimal.readInt?_ofInt, Option.bind_some, int64?_toInt]

/-- An integer has an opposite, the smallest one apart. -/
theorem toInt_neg {i : Int64} (h : i ≠ Int64.minValue) : (-i).toInt = -i.toInt := by
  have low := i.le_toInt
  have high := i.toInt_lt
  have min : i.toInt ≠ -2 ^ 63 := fun he => h (Int64.toInt_inj.mp (he.trans Int64.toInt_minValue.symm))
  rw [Int64.toInt_neg, Int.bmod_eq_of_le (by omega) (by omega)]

namespace Value

/-! ## The text of a literal -/

/-- The values that can be written down. The smallest integer cannot: without its
sign it is no integer. A dictionary is a map: its keys ascend. -/
inductive IsLiteral : Value → Prop
  | boolean (b : Bool) : IsLiteral (.boolean b)
  | integer {i : Int64} (h : i ≠ Int64.minValue) : IsLiteral (.integer i)
  | string (s : String) : IsLiteral (.string s)
  | null : IsLiteral .null
  | list {items : List Value} (h : ∀ v ∈ items, IsLiteral v) : IsLiteral (.list items)
  | dictionary {entries : Entries Value} (h : ∀ e ∈ entries, IsLiteral e.2) (ascending : entries.Ascending) :
      IsLiteral (.dictionary entries)

mutual

/-- The text that writes a value down; values that are no literals have none. -/
def writeLiteral : Value → List Char
  | .boolean b => if b then "verdadero".toList else "falso".toList
  | .integer i => Decimal.ofInt i.toInt
  | .string s => Text.quote s.toList
  | .null => "nulo".toList
  | .list items => '[' :: separated (writeItems items) ++ [']']
  | .dictionary entries => '\x7b' :: separated (writeEntries entries) ++ ['\x7d']
  | _ => []

def writeItems : List Value → List (List Char)
  | [] => []
  | v :: rest => writeLiteral v :: writeItems rest

def writeEntries : List (String × Value) → List (List Char)
  | [] => []
  | (key, v) :: rest => (Text.quote key.toList ++ ':' :: ' ' :: writeLiteral v) :: writeEntries rest

end

theorem writeItems_eq (items : List Value) : writeItems items = items.map writeLiteral := by
  induction items with
  | nil => rfl
  | cons v rest ih => rw [writeItems, ih, List.map_cons]

/-- The text of an entry. -/
def writeEntry (entry : String × Value) : List Char :=
  Text.quote entry.1.toList ++ ':' :: ' ' :: writeLiteral entry.2

theorem writeEntries_eq (entries : Entries Value) : writeEntries entries = entries.map writeEntry := by
  induction entries with
  | nil => rfl
  | cons e rest ih => rw [writeEntries, ih, List.map_cons, writeEntry]

/-! ## What the text is made of -/

/-- Characters of words and numbers: they open, close and separate nothing. -/
def isInner (c : Char) : Bool := Text.isPlain c && c != ',' && c != ':' && !Text.isBlank c

theorem isInner_iff {c : Char} :
    isInner c = true ↔ Text.isPlain c = true ∧ (c ≠ ',' ∧ c ≠ ':') ∧ Text.isBlank c = false := by
  simp [isInner, and_assoc]

theorem isInner_of_isDigit {c : Char} (h : Decimal.isDigit c = true) : isInner c = true := by
  have other : ∀ {d : Char}, Decimal.isDigit d = false → c ≠ d := Decimal.ne_of_isDigit h
  have bounds := Decimal.toNat_of_isDigit h
  refine isInner_iff.mpr ⟨Text.isPlain_iff.mpr ⟨other rfl, ?_, ?_⟩, ⟨other rfl, other rfl⟩, ?_⟩
  · simp [Text.isOpener, other (d := '(') rfl, other (d := '[') rfl, other (d := '\x7b') rfl]
  · simp [Text.isCloser, other (d := ')') rfl, other (d := ']') rfl, other (d := '\x7d') rfl]
  · simp only [Text.isBlank, Bool.or_eq_false_iff, Bool.and_eq_false_iff, decide_eq_false_iff_not, beq_eq_false_iff_ne]
    omega

theorem all_isInner_ofInt (i : Int) : (Decimal.ofInt i).all isInner = true := by
  have digits : (Decimal.digits i.natAbs).all isInner = true :=
    List.all_eq_true.mpr fun c hc => isInner_of_isDigit (Decimal.isDigit_of_mem_digits hc)
  unfold Decimal.ofInt
  split
  · rw [List.all_cons, digits]
    rfl
  · exact digits

theorem ofInt_ne_nil (i : Int) : Decimal.ofInt i ≠ [] := by
  unfold Decimal.ofInt
  split
  · exact List.cons_ne_nil _ _
  · exact Nat.toDigits_ne_nil

theorem trimmed_of_isInner {t : List Char} (h : t.all isInner = true) (hne : t ≠ []) : Text.Trimmed t := by
  have blank : ∀ c ∈ t, Text.isBlank c = false := fun c hc => (isInner_iff.mp (List.all_eq_true.mp h c hc)).2.2
  constructor
  · obtain ⟨c, rest, rfl⟩ := List.exists_cons_of_ne_nil hne
    exact ⟨c, rfl, blank c List.mem_cons_self⟩
  · refine ⟨t.getLast hne, ?_, blank _ (List.getLast_mem hne)⟩
    rw [List.getLast?_eq_some_getLast hne]
    rfl

theorem closed_of_isInner {t : List Char} (h : t.all isInner = true) :
    Text.Closed (fun c => c ≠ ',' ∧ c ≠ ':') t :=
  .of_forall fun c hc =>
    have inner := isInner_iff.mp (List.all_eq_true.mp h c hc)
    ⟨inner.1, inner.2.1⟩

theorem trimmed_between {c d : Char} (hc : Text.isBlank c = false) (hd : Text.isBlank d = false) (body : List Char) :
    Text.Trimmed (c :: body ++ [d]) :=
  ⟨⟨c, rfl, hc⟩, ⟨d, List.getLast?_concat, hd⟩⟩

theorem closed_separated {p : Char → Prop} {texts : List (List Char)} (h : ∀ t ∈ texts, Text.Closed p t)
    (comma : p ',') (space : p ' ') : Text.Closed p (separated texts) := by
  induction texts with
  | nil => exact .nil
  | cons t more ih =>
    obtain ⟨ht, h⟩ := List.forall_mem_cons.mp h
    cases more with
    | nil => exact ht
    | cons u rest =>
      exact .append ht (.append (t := [',']) (.plain rfl comma) (.append (t := [' ']) (.plain rfl space) (ih h)))

/-! ## Reading scalars -/

/-- Which characters a scalar that is not quoted can start with. -/
def startsScalar (c : Char) : Bool :=
  Decimal.isDigit c || Number.isAsciiLetter c || c == '-' || c == '+' || c == '.'

theorem readInt64?_of_head {c : Char} (h : startsScalar c = false) (rest : List Char) :
    readInt64? (c :: rest) = none := by
  simp only [startsScalar, Bool.or_eq_false_iff, beq_eq_false_iff_ne] at h
  obtain ⟨⟨⟨⟨digit, -⟩, minus⟩, plus⟩, -⟩ := h
  have run : Decimal.readRun? Decimal.natOfDigits (c :: rest) = none := by simp [Decimal.readRun?, digit]
  rw [readInt64?_eq, Decimal.readInt?, Decimal.readSigned?]
  · rw [run]; rfl
  · intro more he; cases he; exact minus rfl
  · intro more he; cases he; exact plus rfl

theorem toLower_of_not_isAsciiLetter {c : Char} (h : Number.isAsciiLetter c = false) : c.toLower = c := by
  unfold Char.toLower
  split
  · next upper =>
    have : Number.isAsciiLetter c = true := by
      simp only [Number.isAsciiLetter, Bool.or_eq_true, Bool.and_eq_true, decide_eq_true_eq]
      exact .inr upper
    rw [h] at this
    cases this
  · rfl

/-- What starts with no letter is no word. -/
theorem ofList_ne_word {c d : Char} (hc : Number.isAsciiLetter c = false) (hd : Number.isAsciiLetter d = true)
    (rest more : List Char) : String.ofList (c :: rest) ≠ String.ofList (d :: more) := by
  intro he
  cases String.ofList_injective he
  rw [hc] at hd
  cases hd

theorem readMagnitude?_of_head {c : Char} (letter : Number.isAsciiLetter c = false)
    (digit : Decimal.isDigit c = false) (point : c ≠ '.') (rest : List Char) :
    Decimal.readMagnitude? false (c :: rest) = none := by
  have unsigned : Decimal.readUnsigned? false (c :: rest) = none := by
    have noPoint : ∀ more, c :: rest ≠ '.' :: more := fun more he => by cases he; exact point rfl
    simp [Decimal.readUnsigned?, digit]
  have word : ∀ {d : Char} {more : List Char}, Number.isAsciiLetter d = true →
      String.ofList ((c :: rest).map Char.toLower) ≠ String.ofList (d :: more) := by
    intro d more hd
    rw [List.map_cons, toLower_of_not_isAsciiLetter letter]
    exact ofList_ne_word letter hd _ _
  unfold Decimal.readMagnitude?
  split
  · next he => exact absurd he (word (d := 'i') rfl)
  · next he => exact absurd he (word (d := 'i') rfl)
  · next he => exact absurd he (word (d := 'n') rfl)
  · exact unsigned

theorem readFinite?_of_head {c : Char} (h : startsScalar c = false) (rest : List Char) :
    Number.readFinite? (c :: rest) = none := by
  simp only [startsScalar, Bool.or_eq_false_iff, beq_eq_false_iff_ne] at h
  obtain ⟨⟨⟨⟨digit, letter⟩, minus⟩, plus⟩, point⟩ := h
  have read : Decimal.readBinary64? (c :: rest) = none := by
    rw [Decimal.readBinary64?]
    · exact readMagnitude?_of_head letter digit point rest
    · intro more he; cases he; exact minus rfl
    · intro more he; cases he; exact plus rfl
  unfold Number.readFinite?
  rw [read]
  split <;> rfl

/-- A text that is none of the words is a number or quoted. -/
theorem readScalar?_of_ne {source : List Char} (h : ∀ word ∈ ["verdadero", "true", "falso", "false", "nulo"],
    String.ofList source ≠ word) : readScalar? source =
      match readInt64? source with
      | some i => some (.integer i)
      | none =>
        match Number.readFinite? source with
        | some x => some (.real x)
        | none => (Text.unquote source).map fun content => .string (String.ofList content) := by
  simp only [List.forall_mem_cons] at h
  obtain ⟨h₁, h₂, h₃, h₄, h₅, -⟩ := h
  unfold readScalar?
  split
  · next he => exact absurd he h₁
  · next he => exact absurd he h₂
  · next he => exact absurd he h₃
  · next he => exact absurd he h₄
  · next he => exact absurd he h₅
  · rfl

theorem ofList_ne_scalar {c : Char} (h : Number.isAsciiLetter c = false) (rest : List Char) :
    ∀ word ∈ ["verdadero", "true", "falso", "false", "nulo"], String.ofList (c :: rest) ≠ word := by
  have other : ∀ {d : Char} {more : List Char}, Number.isAsciiLetter d = true →
      String.ofList (c :: rest) ≠ String.ofList (d :: more) := fun hd => ofList_ne_word h hd _ _
  simp only [List.forall_mem_cons]
  exact ⟨other (d := 'v') rfl, other (d := 't') rfl, other (d := 'f') rfl, other (d := 'f') rfl,
    other (d := 'n') rfl, fun _ h => by cases h⟩

/-- What starts like no word and no number is a scalar only if it is quoted. -/
theorem readScalar?_of_head {c : Char} (h : startsScalar c = false) (rest : List Char) :
    readScalar? (c :: rest) =
      (Text.unquote (c :: rest)).map fun content => .string (String.ofList content) := by
  have letter : Number.isAsciiLetter c = false := by
    simp only [startsScalar, Bool.or_eq_false_iff] at h
    exact h.1.1.1.2
  rw [readScalar?_of_ne (ofList_ne_scalar letter rest), readInt64?_of_head h, readFinite?_of_head h]

theorem readScalar?_ofInt (i : Int64) : readScalar? (Decimal.ofInt i.toInt) = some (.integer i) := by
  have first : ∃ c rest, Decimal.ofInt i.toInt = c :: rest ∧ Number.isAsciiLetter c = false := by
    unfold Decimal.ofInt
    split
    · exact ⟨'-', _, rfl, rfl⟩
    · obtain ⟨c, rest, hd, hc⟩ := Decimal.digits_cons i.toInt.natAbs
      exact ⟨c, rest, hd, Decimal.not_isAsciiLetter_of_isDigit hc⟩
  obtain ⟨c, rest, he, hc⟩ := first
  have read := readInt64?_ofInt i
  rw [he] at read ⊢
  rw [readScalar?_of_ne (ofList_ne_scalar hc rest), read]

/-! ## Reading back -/

theorem enclosed?_eq {o c : Char} {inner : List Char} (h : Text.isBalanced (o :: inner ++ [c]) = true) :
    enclosed? o c (o :: inner ++ [c]) = some inner := by
  rw [List.cons_append] at h ⊢
  simp [enclosed?, h]

theorem enclosed?_of_ne {o c d : Char} (h : d ≠ o) (rest : List Char) : enclosed? o c (d :: rest) = none := by
  unfold enclosed?
  dsimp only
  split
  · rw [if_neg fun hd => h hd.1]
  · rfl

/-- The text of a part is no longer than the texts with separators. -/
theorem length_le_separated {t : List Char} {texts : List (List Char)} (h : t ∈ texts) :
    t.length ≤ (separated texts).length := by
  induction texts with
  | nil => cases h
  | cons u more ih =>
    cases more with
    | nil => rw [List.mem_singleton.mp h]; exact Nat.le_refl _
    | cons w rest =>
      rw [separated, List.length_append]
      · obtain rfl | h := List.mem_cons.mp h
        · omega
        · have := ih h
          simp only [List.length_cons]
          omega
      · exact List.cons_ne_nil _ _

section Within

variable {t : List Char} (h : Text.Trimmed t) (depth : Nat)
include h

theorem readLiteralWithin_of_scalar {v : Value} (scalar : readScalar? t = some v) :
    readLiteralWithin (depth + 1) t = v := by
  simp only [readLiteralWithin, h.trim_eq, scalar]

theorem readLiteralWithin_of_brackets {inner : List Char} (scalar : readScalar? t = none)
    (brackets : enclosed? '[' ']' t = some inner) : readLiteralWithin (depth + 1) t =
      .list ((Text.splitTopLevel [','] inner).map (readLiteralWithin depth)) := by
  simp only [readLiteralWithin, h.trim_eq, scalar, brackets]

theorem readLiteralWithin_of_braces {inner : List Char} {entries : List (List Char × List Char)}
    (scalar : readScalar? t = none) (brackets : enclosed? '[' ']' t = none)
    (braces : enclosed? '\x7b' '\x7d' t = some inner)
    (cut : (Text.splitTopLevel [','] inner).mapM splitEntry? = some entries) : readLiteralWithin (depth + 1) t =
      .dictionary (Entries.ofList (entries.map fun entry =>
        ((readLiteralWithin depth entry.1).textForm, readLiteralWithin depth entry.2))) := by
  simp only [readLiteralWithin, h.trim_eq, scalar, brackets, braces, Option.bind_some, cut]

end Within

/-! ## Texts that are read as values -/

/-- A text that is read as the value wherever it stands, at a depth that its
length bounds. -/
structure ReadsAs (t : List Char) (v : Value) : Prop where
  closed : Text.Closed (fun c => c ≠ ',' ∧ c ≠ ':') t
  trimmed : Text.Trimmed t
  read : ∀ {depth : Nat}, t.length < depth → readLiteralWithin depth t = v

theorem ReadsAs.readLiteral {t : List Char} {v : Value} (h : ReadsAs t v) : readLiteral (String.ofList t) = v := by
  rw [Value.readLiteral, String.toList_ofList, String.length_ofList]
  exact h.read (Nat.lt_succ_self _)

theorem ReadsAs.scalar {t : List Char} {v : Value} (closed : Text.Closed (fun c => c ≠ ',' ∧ c ≠ ':') t)
    (trimmed : Text.Trimmed t) (h : readScalar? t = some v) : ReadsAs t v := by
  refine ⟨closed, trimmed, fun {depth} deep => ?_⟩
  obtain ⟨depth, rfl⟩ : ∃ d, depth = d + 1 := ⟨depth - 1, by omega⟩
  exact readLiteralWithin_of_scalar trimmed depth h

/-- Words and numbers. -/
theorem ReadsAs.word {t : List Char} {v : Value} (inner : t.all isInner = true) (some : t ≠ [])
    (h : readScalar? t = Option.some v) : ReadsAs t v :=
  .scalar (closed_of_isInner inner) (trimmed_of_isInner inner some) h

theorem reads_boolean (b : Bool) : ReadsAs (if b then "verdadero".toList else "falso".toList) (.boolean b) := by
  cases b <;> exact .word rfl (List.cons_ne_nil _ _) rfl

theorem reads_null : ReadsAs "nulo".toList .null := .word rfl (List.cons_ne_nil _ _) rfl

theorem reads_integer (i : Int64) : ReadsAs (Decimal.ofInt i.toInt) (.integer i) :=
  .word (all_isInner_ofInt _) (ofInt_ne_nil _) (readScalar?_ofInt i)

theorem reads_quoted {body : List Char} {s : String} (h : Text.Body body s.toList) :
    ReadsAs ('"' :: body ++ ['"']) (.string s) := by
  refine .scalar (.quoted h) (trimmed_between rfl rfl _) ?_
  rw [List.cons_append, readScalar?_of_head rfl, ← List.cons_append, h.unquote, Option.map_some, String.ofList_toList]

theorem ReadsAs.list {text : Value → List Char} {items : List Value} (h : ∀ v ∈ items, ReadsAs (text v) v) :
    ReadsAs ('[' :: separated (items.map text) ++ [']']) (.list items) := by
  have closed : Text.Closed (fun c => c ≠ ',' ∧ c ≠ ':') ('[' :: separated (items.map text) ++ [']']) :=
    .bracketed (o := '[') rfl <| closed_separated (List.forall_mem_map.mpr fun v hv =>
      (h v hv).closed.mono fun _ _ => trivial) trivial trivial
  have pieces : Text.splitTopLevel [','] (separated (items.map text)) = items.map text :=
    Text.splitTopLevel_separated <| List.forall_mem_map.mpr fun v hv =>
      ⟨(h v hv).closed.mono fun _ hc => hc.1, (h v hv).trimmed⟩
  have trimmed := trimmed_between (c := '[') (d := ']') rfl rfl (separated (items.map text))
  refine ⟨closed, trimmed, fun {depth} deep => ?_⟩
  obtain ⟨depth, rfl⟩ : ∃ d, depth = d + 1 := ⟨depth - 1, by omega⟩
  have item : ∀ v ∈ items, readLiteralWithin depth (text v) = v := by
    intro v hv
    have := length_le_separated (List.mem_map_of_mem (f := text) hv)
    exact (h v hv).read (by simp only [List.length_append, List.length_cons] at deep; omega)
  rw [readLiteralWithin_of_brackets trimmed depth (readScalar?_of_head rfl _) (enclosed?_eq closed.isBalanced), pieces,
    List.map_map]
  exact congrArg Value.list ((List.map_congr_left item).trans (List.map_id' _))

/-- The text of an entry, whose key stands in quotes. -/
def entryText (key : String → List Char) (text : Value → List Char) (entry : String × Value) : List Char :=
  '"' :: key entry.1 ++ ['"'] ++ ':' :: ' ' :: text entry.2

section Entry

variable {key : String → List Char} {text : Value → List Char} {entry : String × Value}

theorem trimmed_entryText (hv : ReadsAs (text entry.2) entry.2) : Text.Trimmed (entryText key text entry) := by
  obtain ⟨c, hc, hb⟩ := hv.trimmed.last
  have cut : entryText key text entry = '"' :: key entry.1 ++ ['"', ':', ' '] ++ text entry.2 := by simp [entryText]
  refine ⟨⟨'"', rfl, rfl⟩, c, ?_, hb⟩
  rw [cut, List.getLast?_append, hc, Option.some_or]
  rfl

variable (hk : Text.Body (key entry.1) entry.1.toList) (hv : ReadsAs (text entry.2) entry.2)
include hk hv

theorem closed_entryText {p : Char → Prop} (inner : ∀ c, c ≠ ',' ∧ c ≠ ':' → p c) (colon : p ':') (space : p ' ') :
    Text.Closed p (entryText key text entry) :=
  .append (.quoted hk) (.append (t := [':']) (.plain rfl colon) (.append (t := [' ']) (.plain rfl space)
    (hv.closed.mono inner)))

theorem splitEntry?_entryText :
    splitEntry? (entryText key text entry) = some ('"' :: key entry.1 ++ ['"'], text entry.2) := by
  have quoted : Text.Closed (· ≠ ':') ('"' :: key entry.1 ++ ['"']) := .quoted hk
  have first := Text.splitTopLevelFrom_piece quoted (trimmed_between rfl rfl _) fun c (hc : c ∈ []) => by cases hc
  have second := Text.splitTopLevelFrom_piece (hv.closed.mono fun _ hc => hc.2) hv.trimmed
    fun c => Text.isBlank_of_mem_space
  have nonblank : Text.trim (entryText key text entry) ≠ [] := Text.trim_ne_nil ⟨'"', rfl, rfl⟩
  have split : Text.splitTopLevel [':'] (entryText key text entry) = ['"' :: key entry.1 ++ ['"'], text entry.2] := by
    rw [Text.splitTopLevel, if_neg (by simpa using nonblank), if_neg (by decide), entryText, first.2 _ rfl,
      Text.splitTopLevelFrom_blank (by decide), second.1]
  unfold splitEntry?
  rw [split]

end Entry

theorem mapM_splitEntry? {key : String → List Char} {text : Value → List Char} {entries : Entries Value}
    (hk : ∀ e ∈ entries, Text.Body (key e.1) e.1.toList) (hv : ∀ e ∈ entries, ReadsAs (text e.2) e.2) :
    (entries.map (entryText key text)).mapM splitEntry? =
      some (entries.map fun e => ('"' :: key e.1 ++ ['"'], text e.2)) := by
  induction entries with
  | nil => rfl
  | cons e rest ih =>
    obtain ⟨ke, hk⟩ := List.forall_mem_cons.mp hk
    obtain ⟨ve, hv⟩ := List.forall_mem_cons.mp hv
    rw [List.map_cons, List.mapM_cons, splitEntry?_entryText ke ve, ih hk hv]
    rfl

theorem ReadsAs.dictionary {key : String → List Char} {text : Value → List Char} {entries : Entries Value}
    (hk : ∀ e ∈ entries, Text.Body (key e.1) e.1.toList) (hv : ∀ e ∈ entries, ReadsAs (text e.2) e.2)
    (ascending : entries.Ascending) :
    ReadsAs ('\x7b' :: separated (entries.map (entryText key text)) ++ ['\x7d']) (.dictionary entries) := by
  have closed : Text.Closed (fun c => c ≠ ',' ∧ c ≠ ':')
      ('\x7b' :: separated (entries.map (entryText key text)) ++ ['\x7d']) :=
    .bracketed (o := '\x7b') rfl <| closed_separated (List.forall_mem_map.mpr fun e he =>
      closed_entryText (hk e he) (hv e he) (fun _ _ => trivial) trivial trivial) trivial trivial
  have pieces : Text.splitTopLevel [','] (separated (entries.map (entryText key text))) =
      entries.map (entryText key text) :=
    Text.splitTopLevel_separated <| List.forall_mem_map.mpr fun e he =>
      ⟨closed_entryText (hk e he) (hv e he) (fun _ hc => hc.1) (by decide) (by decide),
        trimmed_entryText (hv e he)⟩
  have trimmed := trimmed_between (c := '\x7b') (d := '\x7d') rfl rfl (separated (entries.map (entryText key text)))
  refine ⟨closed, trimmed, fun {depth} deep => ?_⟩
  obtain ⟨depth, rfl⟩ : ∃ d, depth = d + 1 := ⟨depth - 1, by omega⟩
  have entry : ∀ e ∈ entries, ((readLiteralWithin depth ('"' :: key e.1 ++ ['"'])).textForm,
      readLiteralWithin depth (text e.2)) = e := by
    intro e he
    have := length_le_separated (List.mem_map_of_mem (f := entryText key text) he)
    simp only [entryText, List.length_append, List.length_cons] at this deep
    rw [(reads_quoted (hk e he)).read (by simp only [List.length_append, List.length_cons]; omega),
      (hv e he).read (by omega)]
    rfl
  rw [readLiteralWithin_of_braces trimmed depth (readScalar?_of_head rfl _) (enclosed?_of_ne (by decide) _)
    (enclosed?_eq closed.isBalanced) (by rw [pieces, mapM_splitEntry? hk hv]), List.map_map]
  refine congrArg Value.dictionary (Eq.trans ?_ (Entries.ofList_eq ascending))
  exact congrArg Entries.ofList ((List.map_congr_left entry).trans (List.map_id' _))

/-! ## Literals -/

theorem writeEntry_eq : writeEntry = entryText (fun key => key.toList.flatMap Text.escape) writeLiteral := rfl

theorem reads_writeLiteral {v : Value} (h : v.IsLiteral) : ReadsAs v.writeLiteral v := by
  induction h with
  | boolean b => exact reads_boolean b
  | @integer i _ => exact reads_integer i
  | string s =>
    rw [writeLiteral, Text.quote]
    exact reads_quoted (Text.body_flatMap_escape _)
  | null => exact reads_null
  | list _ ih =>
    rw [writeLiteral, writeItems_eq]
    exact .list ih
  | dictionary _ ascending ih =>
    rw [writeLiteral, writeEntries_eq, writeEntry_eq]
    exact .dictionary (fun e _ => Text.body_flatMap_escape _) ih ascending

theorem trimmed_writeLiteral {v : Value} (h : v.IsLiteral) : Text.Trimmed v.writeLiteral :=
  (reads_writeLiteral h).trimmed

theorem length_pos {v : Value} (h : v.IsLiteral) : 0 < v.writeLiteral.length :=
  List.length_pos_iff.mpr (trimmed_writeLiteral h).ne_nil

theorem length_item {items : List Value} {v : Value} (h : v ∈ items) :
    v.writeLiteral.length + 2 ≤ (writeLiteral (.list items)).length := by
  have := length_le_separated (List.mem_map_of_mem (f := writeLiteral) h)
  simp only [writeLiteral, writeItems_eq, List.cons_append, List.length_cons, List.length_append, List.length_nil]
  omega

/-- A value is shorter than its dictionary by more than the quotes of its key. -/
theorem length_entry {entries : Entries Value} {e : String × Value} (h : e ∈ entries) :
    e.2.writeLiteral.length + 2 < (writeLiteral (.dictionary entries)).length := by
  have := length_le_separated (List.mem_map_of_mem (f := writeEntry) h)
  simp only [writeEntry, List.length_append, List.length_cons] at this
  simp only [writeLiteral, writeEntries_eq, List.cons_append, List.length_cons, List.length_append, List.length_nil]
  omega

theorem readLiteral_writeLiteral {v : Value} (h : v.IsLiteral) : readLiteral (String.ofList v.writeLiteral) = v :=
  (reads_writeLiteral h).readLiteral

end Value
end Guion
