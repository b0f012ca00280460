/-
The displayed form of a collection, read back.

A collection shows its texts in quotes, with the quotes in them escaped, so
that the form can be read again. Nothing else is escaped: the reader takes the
character behind a backslash literally, so a backslash of the text is lost, or
the text ends at another quote. The keys of a dictionary stand in quotes as
they are. `readLiteral_display` says for every collection of truth values,
integers, texts, `nulo`, lists and dictionaries that its form reads back as
the collection exactly when no text has a backslash, and no key a backslash or
a quote.

That no other form reads back is a matter of counting. Reading may drop an
entry of a dictionary, but then it loses a comma; it may take a text without
quotes, but then it loses two of them; and to keep a quote or a backslash in
quotes takes a backslash. So of the commas, the quotes and the backslashes of
a text, compared in this order, the form of what was read has as many only if
every text was read in quotes and every backslash escapes a quote
(`costs_readLiteralWithin`).
-/
import Mathlib
import Guion.Proofs.Literal.Numerals
import Guion.Value.Coerce

namespace Guion.Value

/-! ## The collections -/

/-- Truth values, integers, texts with a property, `nulo`, and the lists and
dictionaries of these, with a property of the keys. A dictionary is a map: its
keys ascend. -/
inductive Composed (text key : String → Prop) : Value → Prop
  | boolean (b : Bool) : Composed text key (.boolean b)
  | integer (i : Int64) : Composed text key (.integer i)
  | string {s : String} (h : text s) : Composed text key (.string s)
  | null : Composed text key .null
  | list {items : List Value} (h : ∀ v ∈ items, Composed text key v) : Composed text key (.list items)
  | dictionary {entries : Entries Value} (hk : ∀ e ∈ entries, key e.1)
      (h : ∀ e ∈ entries, Composed text key e.2) (ascending : entries.Ascending) :
      Composed text key (.dictionary entries)

/-- Values composed of any texts, under any keys. -/
def Plain (v : Value) : Prop := v.Composed (fun _ => True) (fun _ => True)

/-- Values without a backslash in their texts, and without a backslash or a quote
in their keys. -/
def Unescaped (v : Value) : Prop :=
  v.Composed (fun s => '\\' ∉ s.toList) (fun s => '\\' ∉ s.toList ∧ '"' ∉ s.toList)

theorem Unescaped.plain {v : Value} (h : v.Unescaped) : v.Plain := by
  induction h with
  | boolean b => exact .boolean b
  | integer i => exact .integer i
  | string => exact .string trivial
  | null => exact .null
  | list _ ih => exact .list ih
  | dictionary _ _ ascending ih => exact .dictionary (fun _ _ => trivial) ih ascending

/-! ## The form -/

theorem renderItems_eq (items : List Value) : renderItems items = items.map (renderAs true) := by
  induction items with
  | nil => rfl
  | cons v rest ih => rw [renderItems, ih, List.map_cons]

theorem renderEntries_eq (entries : Entries Value) :
    renderEntries entries = entries.map (entryText String.toList (renderAs true)) := by
  induction entries with
  | nil => rfl
  | cons e rest ih => rw [renderEntries, ih, List.map_cons]; simp [entryText]

/-- What stands between the quotes of a text inside a collection. -/
def nestedBody (s : List Char) : List Char := s.flatMap fun c => if c = '"' then ['\\', '"'] else [c]

theorem body_nestedBody {s : List Char} (h : '\\' ∉ s) : Text.Body (nestedBody s) s := by
  refine .flatMap fun c hc => ?_
  split
  · next quote => rw [quote]; exact .escaped '"' .nil
  · next quote => exact .plain quote (fun slash => h (slash ▸ hc)) .nil

theorem body_self {s : List Char} (slash : '\\' ∉ s) (quote : '"' ∉ s) : Text.Body s s := by
  induction s with
  | nil => exact .nil
  | cons c rest ih =>
    obtain ⟨hs, slash⟩ := not_or.mp (mt List.mem_cons.mpr slash)
    obtain ⟨hq, quote⟩ := not_or.mp (mt List.mem_cons.mpr quote)
    exact .plain (Ne.symm hq) (Ne.symm hs) (ih slash quote)

theorem reads_renderAs {v : Value} (h : v.Unescaped) : ReadsAs (renderAs true v) v := by
  induction h with
  | boolean b => rw [renderAs]; exact reads_boolean b
  | integer i => rw [renderAs]; exact reads_integer i
  | string h => rw [renderAs]; exact reads_quoted (body_nestedBody h)
  | null => rw [renderAs]; exact reads_null
  | list _ ih =>
    rw [renderAs, renderItems_eq]
    exact .list ih
  | dictionary hk _ ascending ih =>
    rw [renderAs, renderEntries_eq]
    exact .dictionary (fun e he => body_self (hk e he).1 (hk e he).2) ih ascending

/-! ## Commas, quotes and backslashes -/

/-- How many commas, quotes and backslashes a text has. Of two texts, the one
with fewer commas comes first, then the one with more quotes, then the one with
fewer backslashes. -/
def tally (t : List Char) : ℕ ×ₗ ℕᵒᵈ ×ₗ ℕ :=
  toLex (t.count ',', toLex (OrderDual.toDual (t.count '"'), t.count '\\'))

theorem tally_le {t u : List Char} : tally t ≤ tally u ↔ t.count ',' < u.count ',' ∨ t.count ',' = u.count ',' ∧
    (u.count '"' < t.count '"' ∨ u.count '"' = t.count '"' ∧ t.count '\\' ≤ u.count '\\') := by
  simp only [tally, Prod.Lex.toLex_le_toLex, OrderDual.toDual_lt_toDual, OrderDual.toDual_inj]
  constructor <;> (intro h; omega)

theorem tally_eq {t u : List Char} : tally t = tally u ↔
    t.count ',' = u.count ',' ∧ t.count '"' = u.count '"' ∧ t.count '\\' = u.count '\\' := by
  simp only [tally, toLex_inj, Prod.mk.injEq, OrderDual.toDual_inj]

theorem tally_append (t u : List Char) : tally (t ++ u) = tally t + tally u := by
  simp only [tally, List.count_append]
  rfl

theorem tally_cons (c : Char) (t : List Char) : tally (c :: t) = tally [c] + tally t := tally_append [c] t

theorem tally_of_count {t : List Char} (h : ∀ c ∈ [',', '"', '\\'], t.count c = 0) : tally t = 0 :=
  tally_eq (u := []).mpr ⟨h _ (by simp), h _ (by simp), h _ (by simp)⟩

theorem Numeral.tally {t : List Char} (h : Numeral t) : tally t = 0 := by
  refine tally_of_count fun c hc => List.count_eq_zero.mpr fun hm => ?_
  have starts := h c hm
  simp only [List.mem_cons, List.not_mem_nil, or_false] at hc
  obtain rfl | rfl | rfl := hc <;> cases starts

theorem tally_reverse (t : List Char) : tally t.reverse = tally t := by
  simp only [tally, List.count_reverse]

/-- Blanks count for nothing. -/
theorem tally_of_blank {t : List Char} (h : ∀ c ∈ t, Text.isBlank c = true) : tally t = 0 := by
  refine tally_of_count fun c hc => List.count_eq_zero.mpr fun hm => ?_
  have blank := h c hm
  simp only [List.mem_cons, List.not_mem_nil, or_false] at hc
  obtain rfl | rfl | rfl := hc <;> cases blank

theorem tally_dropWhile (t : List Char) : tally (t.dropWhile Text.isBlank) = tally t := by
  have cut := tally_append (t.takeWhile Text.isBlank) (t.dropWhile Text.isBlank)
  rw [List.takeWhile_append_dropWhile, tally_of_blank (List.all_eq_true.mp List.all_takeWhile), zero_add] at cut
  exact cut.symm

theorem tally_trim (t : List Char) : tally (Text.trim t) = tally t := by
  rw [Text.trim, Text.trimRight, tally_reverse, tally_dropWhile, tally_reverse, tally_dropWhile]

/-- What the pieces of a text and the separators between them have is what the text
has. -/
theorem sum_tally_splitTopLevel (separator : Char) {t : List Char} (h : Text.trim t ≠ []) :
    ((Text.splitTopLevel [separator] t).map fun piece => tally piece + tally [separator]).sum =
      tally t + tally [separator] := by
  have pieces : ∀ (t : List Char) (n : Text.Nesting) (piece : List Char),
      ((Text.splitTopLevelFrom [separator] n piece 0 t).map fun piece => tally piece + tally [separator]).sum =
        tally piece + tally t + tally [separator] := by
    intro t
    induction t with
    | nil =>
      intro n piece
      simp only [Text.splitTopLevelFrom, List.map_cons, List.map_nil, List.sum_cons, List.sum_nil, tally_trim,
        tally_reverse]
      rfl
    | cons c rest ih =>
      intro n piece
      rw [Text.splitTopLevelFrom, tally_cons c rest]
      split
      · next here =>
        obtain rfl : separator = c := by simpa [List.isPrefixOf] using (Bool.and_eq_true_iff.mp here).2
        rw [List.map_cons, List.sum_cons, List.length_singleton, Nat.sub_self, ih, tally_trim, tally_reverse]
        have none : tally [] = 0 := rfl
        rw [none]
        abel
      · rw [ih, tally_cons c piece]
        abel
  have some : (Text.trim t).isEmpty = false := List.isEmpty_eq_false_iff.mpr h
  rw [Text.splitTopLevel, if_neg (by rw [some]; exact Bool.false_ne_true), if_neg (by simp), pieces]
  exact congrArg (· + _) (zero_add _)

theorem tally_separated {texts : List (List Char)} (h : texts ≠ []) :
    (texts.map fun t => tally t + tally [',']).sum = tally (separated texts) + tally [','] := by
  induction texts with
  | nil => exact absurd rfl h
  | cons t more ih =>
    cases more with
    | nil => simp [separated]
    | cons u rest =>
      have joined : tally (separated (t :: u :: rest)) = tally t + tally [','] + tally (separated (u :: rest)) := by
        rw [separated, tally_append, tally_cons ',', tally_cons ' ', add_assoc]
        · exact congrArg (fun more => tally t + (tally [','] + more)) (zero_add _)
        · exact List.cons_ne_nil _ _
      rw [List.map_cons, List.sum_cons, ih (List.cons_ne_nil _ _), joined]
      abel

/-! ## Texts in quotes -/

theorem count_nestedBody (s : List Char) : (nestedBody s).count ',' = s.count ',' ∧
    (nestedBody s).count '"' = s.count '"' ∧ (nestedBody s).count '\\' = s.count '\\' + s.count '"' := by
  induction s with
  | nil => exact ⟨rfl, rfl, rfl⟩
  | cons c rest ih =>
    have cut : nestedBody (c :: rest) = (if c = '"' then ['\\', '"'] else [c]) ++ nestedBody rest := List.flatMap_cons
    rw [cut]
    by_cases quote : c = '"' <;> grind

theorem unescape_eq_iff {c d : Char} (h : d ∈ [',', '"', '\\']) : Text.unescape c = d ↔ c = d := by
  simp only [List.mem_cons, List.not_mem_nil, or_false] at h
  unfold Text.unescape
  split
  · next hc => subst hc; obtain rfl | rfl | rfl := h <;> decide
  split
  · next hc => subst hc; obtain rfl | rfl | rfl := h <;> decide
  · rfl

/-- A body has the commas and the quotes of its content, and a backslash for each
quote and each backslash at least; it has no more only if it escapes nothing but
quotes. -/
theorem count_of_body {body content : List Char} (h : Text.Body body content) :
    body.count ',' = content.count ',' ∧ body.count '"' = content.count '"' ∧
    content.count '\\' + content.count '"' ≤ body.count '\\' ∧
    (content.count '\\' + content.count '"' = body.count '\\' → '\\' ∉ content) := by
  induction h with
  | nil => exact ⟨rfl, rfl, Nat.le_refl _, fun _ => List.not_mem_nil⟩
  | escaped c _ ih =>
    -- An escaped character stands for one of the three only if it is the same one.
    have comma := unescape_eq_iff (c := c) (d := ',') (by decide)
    have quote := unescape_eq_iff (c := c) (d := '"') (by decide)
    have slash := unescape_eq_iff (c := c) (d := '\\') (by decide)
    by_cases same : c = '"' <;> grind
  | plain => grind

/-! ## What reading keeps -/

/-- At most as much, and the property if it is as much. -/
structure Within {M : Type} [LE M] (a b : M) (p : Prop) : Prop where
  le : a ≤ b
  eq : a = b → p

namespace Within

theorem of_lt {M : Type} [Preorder M] {a b : M} {p : Prop} (h : a < b) : Within a b p :=
  ⟨h.le, fun he => absurd he h.ne⟩

theorem mono {M : Type} [LE M] {a b : M} {p q : Prop} (h : Within a b p) (hpq : p → q) : Within a b q :=
  ⟨h.le, fun he => hpq (h.eq he)⟩

theorem of_le {M : Type} [PartialOrder M] {a b c : M} {p : Prop} (h : Within b c p) (hab : a ≤ b) : Within a c p :=
  ⟨hab.trans h.le, fun he => h.eq (le_antisymm h.le (he ▸ hab))⟩

variable {M : Type} [AddCommMonoid M] [PartialOrder M] [IsOrderedCancelAddMonoid M]
variable {a b c d : M} {p q : Prop}

theorem add (h : Within a b p) (h' : Within c d q) : Within (a + c) (b + d) (p ∧ q) := by
  refine ⟨add_le_add h.le h'.le, fun he => ?_⟩
  obtain ⟨eq, eq'⟩ := (add_eq_add_iff_eq_and_eq h.le h'.le).mp he
  exact ⟨h.eq eq, h'.eq eq'⟩

theorem of_add_right (h : Within (a + c) (b + c) p) : Within a b p :=
  ⟨le_of_add_le_add_right h.le, fun he => h.eq (congrArg (· + c) he)⟩

theorem add_right (h : Within a b p) (c : M) : Within (a + c) (b + c) p :=
  ⟨add_le_add_left h.le c, fun he => h.eq (add_right_cancel he)⟩

theorem sum {α : Type} {f g : α → M} {p : α → Prop} {l : List α} (h : ∀ a ∈ l, Within (f a) (g a) (p a)) :
    Within (l.map f).sum (l.map g).sum (∀ a ∈ l, p a) := by
  induction l with
  | nil => exact ⟨le_refl _, fun _ => List.forall_mem_nil _⟩
  | cons a rest ih =>
    obtain ⟨ha, h⟩ := List.forall_mem_cons.mp h
    exact (ha.add (ih h)).mono List.forall_mem_cons.mpr

end Within

/-- The form inside a collection of a value that was read from the text. -/
def Costs (t : List Char) (v : Value) : Prop := Within (tally (renderAs true v)) (tally t) (v.Plain → v.Unescaped)

/-- The form as a key of a text that was read from the text. -/
def KeyCosts (t : List Char) (key : String) : Prop :=
  Within (tally ('"' :: key.toList ++ ['"'])) (tally t) ('\\' ∉ key.toList ∧ '"' ∉ key.toList)

theorem tally_between (t : List Char) : tally ('"' :: t ++ ['"']) = tally t + tally ['"', '"'] := by
  rw [tally_append, tally_cons '"', show tally ['"', '"'] = tally ['"'] + tally ['"'] from rfl]
  abel

/-- Between quotes there are two quotes more. -/
theorem tally_between_lt {body t : List Char} (commas : body.count ',' = t.count ',')
    (quotes : body.count '"' = t.count '"') : tally ('"' :: body ++ ['"']) < tally t := by
  have more : ('"' :: body ++ ['"']).count '"' = t.count '"' + 2 := by simp [quotes]
  refine lt_of_le_of_ne (tally_le.mpr (.inr ⟨by simp [commas], .inl (by omega)⟩)) fun he => ?_
  have := (tally_eq.mp he).2.1
  omega

/-- A text that is read without quotes. -/
theorem costs_bare (t : List Char) : Costs t (.string (String.ofList t)) ∧ KeyCosts t (String.ofList t) := by
  obtain ⟨commas, quotes, -⟩ := count_nestedBody t
  refine ⟨.of_lt ?_, .of_lt ?_⟩
  · rw [renderAs, quoteNested, String.toList_ofList]
    exact tally_between_lt commas quotes
  · rw [String.toList_ofList]
    exact tally_between_lt rfl rfl

/-- A text that is read in quotes. -/
theorem costs_quoted {body content : List Char} (h : Text.Body body content) :
    Costs ('"' :: body ++ ['"']) (.string (String.ofList content)) ∧
    KeyCosts ('"' :: body ++ ['"']) (String.ofList content) := by
  obtain ⟨commas, quotes, slashes, exact⟩ := count_of_body h
  obtain ⟨commas', quotes', slashes'⟩ := count_nestedBody content
  have nested : Within (tally (nestedBody content)) (tally body) ('\\' ∉ content) := by
    refine ⟨tally_le.mpr (by omega), fun he => exact ?_⟩
    have := (tally_eq.mp he).2.2
    omega
  have alone : Within (tally content) (tally body) ('\\' ∉ content ∧ '"' ∉ content) := by
    refine ⟨tally_le.mpr (by omega), fun he => ?_⟩
    have := (tally_eq.mp he).2.2
    exact ⟨exact (by omega), List.count_eq_zero.mp (by omega)⟩
  constructor
  · have form : renderAs true (.string (String.ofList content)) = '"' :: nestedBody content ++ ['"'] := by
      rw [renderAs, quoteNested, String.toList_ofList]
      rfl
    rw [Costs, form, tally_between, tally_between]
    exact (nested.add_right _).mono fun slash _ => .string (by rwa [String.toList_ofList])
  · rw [KeyCosts, String.toList_ofList, tally_between, tally_between]
    exact alone.add_right _

/-- Of a value that is no text, the form is the key too, and it has no quotes around it. -/
theorem Costs.key {t : List Char} {v : Value} (h : Costs t v) (form : v.textForm.toList = renderAs true v) :
    KeyCosts t v.textForm := by
  refine .of_lt (lt_of_lt_of_le ?_ h.le)
  rw [form]
  exact tally_between_lt rfl rfl

theorem textForm_display {v : Value} (h : v.asText? = none) : v.textForm.toList = v.render := by
  rw [textForm, h, Option.getD_none, display, String.toList_ofList]

theorem costs_scalar {t : List Char} {v : Value} (h : readScalar? t = some v) : Costs t v ∧ KeyCosts t v.textForm := by
  have numeral : ∀ {v : Value}, Numeral t → Numeral (renderAs true v) → v.textForm.toList = renderAs true v →
      (v.Plain → v.Unescaped) → Costs t v ∧ KeyCosts t v.textForm := by
    intro v ht hv form plain
    have costs : Costs t v := by
      rw [Costs, ht.tally, hv.tally]
      exact ⟨le_refl _, fun _ => plain⟩
    exact ⟨costs, costs.key form⟩
  have letters : ∀ {word : String}, String.ofList t = word → word.toList.all startsScalar = true → Numeral t := by
    rintro _ rfl letters c hc
    exact List.all_eq_true.mp letters c (by rwa [String.toList_ofList])
  have word : ∀ {word : String}, word.toList.all startsScalar = true → Numeral word.toList :=
    fun letters c hc => List.all_eq_true.mp letters c hc
  unfold readScalar? at h
  split at h
  · next he => cases h; exact numeral (letters he rfl) (word rfl) rfl fun _ => .boolean true
  · next he => cases h; exact numeral (letters he rfl) (word rfl) rfl fun _ => .boolean true
  · next he => cases h; exact numeral (letters he rfl) (word rfl) rfl fun _ => .boolean false
  · next he => cases h; exact numeral (letters he rfl) (word rfl) rfl fun _ => .boolean false
  · next he => cases h; exact numeral (letters he rfl) (word rfl) rfl fun _ => .null
  · split at h
    · next i read =>
      cases h
      refine numeral (numeral_of_readInt64? read) ?_ ?_ fun _ => .integer i
      · rw [renderAs]; exact numeral_ofInt _
      · rw [textForm_display rfl, render, renderAs, renderAs]
    split at h
    · next x read =>
      cases h
      refine numeral (numeral_of_readFinite? read) ?_ ?_ fun plain => by cases plain
      · rw [renderAs]; exact numeral_formatReal _
      · rw [textForm_display rfl, render, renderAs, renderAs]
    · obtain ⟨content, quoted, rfl⟩ := Option.map_eq_some_iff.mp h
      obtain ⟨body, rfl, hb⟩ := Text.unquote_eq_some_iff.mp quoted
      exact costs_quoted hb

theorem eq_of_enclosed? {o c : Char} {t inner : List Char} (h : enclosed? o c t = some inner) :
    t = o :: inner ++ [c] := by
  unfold enclosed? at h
  split at h
  · next d rest =>
    split at h
    · next e more last =>
      split at h
      · next enclosed =>
        obtain ⟨rfl, rfl, -⟩ := enclosed
        cases h
        rw [List.cons_append, ← List.reverse_cons, ← last, List.reverse_reverse]
      · cases h
    · cases h
  · cases h

/-- Brackets count for nothing. -/
theorem tally_enclosed {o c : Char} (ho : tally [o] = 0) (hc : tally [c] = 0) (inner : List Char) :
    tally (o :: inner ++ [c]) = tally inner := by
  rw [tally_append, tally_cons, ho, hc, zero_add, add_zero]

theorem splitTopLevel_ne_nil {separator : Char} {t : List Char} (h : Text.trim t ≠ []) :
    Text.splitTopLevel [separator] t ≠ [] := by
  have pieces : ∀ (t : List Char) (n : Text.Nesting) (piece : List Char) (skip : Nat),
      Text.splitTopLevelFrom [separator] n piece skip t ≠ [] := by
    intro t
    induction t with
    | nil => intro n piece skip; exact List.cons_ne_nil _ _
    | cons c rest ih =>
      intro n piece skip
      cases skip with
      | succ skip => exact ih n piece skip
      | zero =>
        rw [Text.splitTopLevelFrom]
        split
        · exact List.cons_ne_nil _ _
        · exact ih _ _ _
  have some : (Text.trim t).isEmpty = false := List.isEmpty_eq_false_iff.mpr h
  rw [Text.splitTopLevel, if_neg (by rw [some]; exact Bool.false_ne_true), if_neg (by simp)]
  exact pieces t _ _ _

/-- Nothing is in a blank text. -/
theorem blank_of_trim {separator : Char} {t : List Char} (h : Text.trim t = []) :
    Text.splitTopLevel [separator] t = [] ∧ tally t = 0 := by
  constructor
  · rw [Text.splitTopLevel, h]
    rfl
  · rw [← tally_trim, h]
    rfl

/-- Forms put between commas are compared with the pieces between commas. -/
theorem Within.separated {forms : List (List Char)} {inner : List Char} {p : Prop} (some : forms ≠ [])
    (hb : Text.trim inner ≠ [])
    (h : Within (forms.map fun t => tally t + tally [',']).sum
      ((Text.splitTopLevel [','] inner).map fun t => tally t + tally [',']).sum p) :
    Within (tally (separated forms)) (tally inner) p := by
  rw [tally_separated some, sum_tally_splitTopLevel ',' hb] at h
  exact h.of_add_right

theorem costs_list (inner : List Char) {read : List Char → Value}
    (h : ∀ t, Costs t (read t)) :
    Costs ('[' :: inner ++ [']']) (.list ((Text.splitTopLevel [','] inner).map read)) := by
  rw [Costs, renderAs, renderItems_eq, List.map_map, tally_enclosed rfl rfl, tally_enclosed rfl rfl]
  by_cases hb : Text.trim inner = []
  · obtain ⟨none, blank⟩ := blank_of_trim hb
    rw [none, blank]
    exact ⟨le_refl _, fun _ _ => .list (List.forall_mem_nil _)⟩
  · refine .separated (mt List.map_eq_nil_iff.mp (splitTopLevel_ne_nil hb)) hb ?_
    rw [List.map_map]
    refine (Within.sum fun t _ => (h t).add_right _).mono fun clean plain => .list ?_
    cases plain with
    | list plain => exact List.forall_mem_map.mpr fun t ht => clean t ht (plain _ (List.mem_map_of_mem ht))

/-- A key, a colon and a value. -/
theorem tally_of_splitEntry? {t key text : List Char} (h : splitEntry? t = some (key, text)) :
    tally t = tally key + tally text := by
  unfold splitEntry? at h
  split at h
  · next cut =>
    cases h
    have some : Text.trim t ≠ [] := by
      intro hb
      rw [Text.splitTopLevel, hb] at cut
      cases cut
    have pieces := sum_tally_splitTopLevel ':' some
    have colon : tally [':'] = 0 := rfl
    rw [cut, colon] at pieces
    simpa using pieces.symm
  · cases h

theorem sum_tally_of_mapM {pieces : List (List Char)} {parts : List (List Char × List Char)}
    (h : pieces.mapM splitEntry? = some parts) : parts.length = pieces.length ∧
    (pieces.map fun t => tally t + tally [',']).sum =
      (parts.map fun part => tally part.1 + tally part.2 + tally [',']).sum := by
  induction pieces generalizing parts with
  | nil => cases h; exact ⟨rfl, rfl⟩
  | cons t rest ih =>
    rw [List.mapM_cons] at h
    obtain ⟨part, cut, h⟩ := Option.bind_eq_some_iff.mp h
    obtain ⟨more, cuts, h⟩ := Option.bind_eq_some_iff.mp h
    cases h
    obtain ⟨length, sums⟩ := ih cuts
    refine ⟨congrArg (· + 1) length, ?_⟩
    rw [List.map_cons, List.sum_cons, List.map_cons, List.sum_cons, sums, tally_of_splitEntry? cut]

/-- Of several entries under one name the map keeps one. -/
theorem sum_ofList_le {α M : Type} [AddCommMonoid M] [PartialOrder M] [IsOrderedCancelAddMonoid M]
    {f : String × α → M} (pos : ∀ e, 0 ≤ f e) (entries : List (String × α)) :
    ((Entries.ofList entries).map f).sum ≤ (entries.map f).sum := by
  have one : ∀ (name : String) (value : α) (entries : Entries α),
      ((entries.insertNew name value).map f).sum ≤ f (name, value) + (entries.map f).sum := by
    intro name value entries
    induction entries with
    | nil => exact le_refl _
    | cons e rest ih =>
      rw [Entries.insertNew]
      split
      · exact le_add_of_nonneg_left (pos _)
      split
      · exact le_refl _
      · rw [List.map_cons, List.sum_cons, List.map_cons, List.sum_cons, add_left_comm]
        exact add_le_add_right ih _
  induction entries with
  | nil => exact le_refl _
  | cons e rest ih =>
    rw [Entries.ofList, List.map_cons, List.sum_cons]
    exact (one _ _ _).trans (add_le_add_right ih _)

theorem ofList_ne_nil {α : Type} {entries : List (String × α)} (h : entries ≠ []) : Entries.ofList entries ≠ [] := by
  have one : ∀ (name : String) (value : α) (entries : Entries α), entries.insertNew name value ≠ [] := by
    intro name value entries
    cases entries with
    | nil => exact List.cons_ne_nil _ _
    | cons e rest =>
      rw [Entries.insertNew]
      split
      · exact List.cons_ne_nil _ _
      split <;> exact List.cons_ne_nil _ _
  cases entries with
  | nil => exact absurd rfl h
  | cons e rest => exact one _ _ _

theorem tally_entryText (entry : String × Value) : tally (entryText String.toList (renderAs true) entry) =
    tally ('"' :: entry.1.toList ++ ['"']) + tally (renderAs true entry.2) := by
  have colon : tally [':'] = 0 := rfl
  have space : tally [' '] = 0 := rfl
  rw [entryText, tally_append, tally_cons ':', tally_cons ' ', colon, space, zero_add, zero_add]

theorem costs_dictionary {inner : List Char} {parts : List (List Char × List Char)} {read : List Char → Value}
    (cut : (Text.splitTopLevel [','] inner).mapM splitEntry? = some parts)
    (h : ∀ t, Costs t (read t) ∧ KeyCosts t (read t).textForm) :
    Costs ('\x7b' :: inner ++ ['\x7d'])
      (.dictionary (Entries.ofList (parts.map fun part => ((read part.1).textForm, read part.2)))) := by
  rw [Costs, renderAs, renderEntries_eq, tally_enclosed rfl rfl, tally_enclosed rfl rfl]
  by_cases hb : Text.trim inner = []
  · obtain ⟨none, blank⟩ := blank_of_trim hb
    rw [none] at cut
    cases cut
    rw [blank]
    exact ⟨le_refl _, fun _ _ => .dictionary (List.forall_mem_nil _) (List.forall_mem_nil _) List.Pairwise.nil⟩
  · obtain ⟨length, pieces⟩ := sum_tally_of_mapM cut
    have some : parts ≠ [] := by
      rintro rfl
      exact splitTopLevel_ne_nil hb (List.length_eq_zero_iff.mp length.symm)
    have part : ∀ part ∈ parts, Within
        (tally (entryText String.toList (renderAs true) ((read part.1).textForm, read part.2)) + tally [','])
        (tally part.1 + tally part.2 + tally [','])
        (('\\' ∉ (read part.1).textForm.toList ∧ '"' ∉ (read part.1).textForm.toList) ∧
          ((read part.2).Plain → (read part.2).Unescaped)) := by
      intro part _
      rw [tally_entryText]
      exact ((h part.1).2.add (h part.2).1).add_right _
    have positive : ∀ entry, 0 ≤ tally (entryText String.toList (renderAs true) entry) + tally [','] := by
      intro entry
      rw [← tally_append]
      exact tally_le (t := []).mpr (.inl (by simp))
    refine .separated (mt List.map_eq_nil_iff.mp (ofList_ne_nil (mt List.map_eq_nil_iff.mp some))) hb ?_
    rw [pieces, List.map_map]
    have kept := sum_ofList_le positive (parts.map fun part => ((read part.1).textForm, read part.2))
    rw [List.map_map] at kept
    refine ((Within.sum part).of_le kept).mono fun clean plain => ?_
    cases plain with
    | dictionary _ plain ascending =>
      have clean : ∀ e ∈ parts.map fun part => ((read part.1).textForm, read part.2),
          ('\\' ∉ e.1.toList ∧ '"' ∉ e.1.toList) ∧ (e.2.Plain → e.2.Unescaped) := List.forall_mem_map.mpr clean
      exact .dictionary (fun e he => (clean e (Entries.mem_of_mem_ofList he)).1)
        (fun e he => (clean e (Entries.mem_of_mem_ofList he)).2 (plain e he)) ascending

/-- The form of what was read, inside a collection or as a key, has no more commas
than the text; as many and no fewer quotes; and then no more backslashes. It has
as many of each only if no text has a backslash in it, and no key a backslash or
a quote. -/
theorem costs_readLiteralWithin (depth : Nat) (t : List Char) :
    Costs t (readLiteralWithin depth t) ∧ KeyCosts t (readLiteralWithin depth t).textForm := by
  induction depth generalizing t with
  | zero => exact costs_bare t
  | succ depth ih =>
    have trimmed : ∀ {v : Value}, Costs (Text.trim t) v ∧ KeyCosts (Text.trim t) v.textForm →
        Costs t v ∧ KeyCosts t v.textForm := by
      intro v
      rw [Costs, KeyCosts, tally_trim]
      exact id
    refine trimmed ?_
    simp only [readLiteralWithin]
    split
    · next v scalar => exact costs_scalar scalar
    split
    · next inner enclosed =>
      rw [eq_of_enclosed? enclosed]
      have costs := costs_list inner fun t => (ih t).1
      exact ⟨costs, costs.key (by rw [textForm_display rfl, render, renderAs, renderAs])⟩
    split
    · next parts braces =>
      obtain ⟨inner, enclosed, cut⟩ := Option.bind_eq_some_iff.mp braces
      rw [eq_of_enclosed? enclosed]
      have costs := costs_dictionary cut ih
      exact ⟨costs, costs.key (by rw [textForm_display rfl, render, renderAs, renderAs])⟩
    · exact costs_bare _

/-! ## Reading back -/

/-- The form inside a collection is the form of a collection on its own. -/
theorem toList_display {v : Value} (collection : v.kind = .list ∨ v.kind = .dictionary) :
    v.display.toList = renderAs true v := by
  rw [display, String.toList_ofList, render]
  cases v with
  | list items => rw [renderAs, renderAs]
  | dictionary entries => rw [renderAs, renderAs]
  | _ => obtain h | h := collection <;> cases h

theorem unescaped_of_readLiteral {v : Value} (h : v.Plain) (collection : v.kind = .list ∨ v.kind = .dictionary)
    (back : readLiteral v.display = v) : v.Unescaped := by
  have costs := (costs_readLiteralWithin (v.display.length + 1) v.display.toList).1
  rw [← readLiteral, back, Costs, toList_display collection] at costs
  exact costs.eq rfl h

theorem readLiteral_of_unescaped {v : Value} (h : v.Unescaped) (collection : v.kind = .list ∨ v.kind = .dictionary) :
    readLiteral v.display = v := by
  have reads := (reads_renderAs h).readLiteral
  rwa [← toList_display collection, String.ofList_toList] at reads

/-- A text is coerced to the list that it is read as. -/
theorem coerce_list_iff {source v : Value} {s : String} (text : source.asText? = some s) (list : v.kind = .list) :
    coerce .list source = .ok v ↔ readLiteral s = v := by
  cases source with
  | text s' | string s' =>
    cases text
    unfold coerce
    dsimp only
    cases readLiteral s with
    | list items => rw [Except.ok.injEq]
    | _ =>
      constructor
      · intro refused
        cases refused
      · rintro rfl
        cases list
  | _ => cases text

/-- The displayed form of a collection reads back as the collection exactly when
no text in it has a backslash, and no key a backslash or a quote; in the same
case coercing the form to a list gives the list that was displayed. -/
theorem readLiteral_display {v : Value} (h : v.Plain) (collection : v.kind = .list ∨ v.kind = .dictionary) :
    (readLiteral v.display = v ↔ v.Unescaped) ∧
    (v.kind = .list → ∀ source : Value, source.asText? = some v.display →
      (coerce .list source = .ok v ↔ v.Unescaped)) := by
  have back : readLiteral v.display = v ↔ v.Unescaped :=
    ⟨unescaped_of_readLiteral h collection, fun h => readLiteral_of_unescaped h collection⟩
  exact ⟨back, fun list source text => (coerce_list_iff text list).trans back⟩

/-- Quotes, brackets and separators in the texts and keys of a dictionary inside a
list. -/
theorem readLiteral_display_nested :
    let v : Value := .list [.dictionary [("a,b", .string "[\"x\": 1]"), ("c", .null)], .integer (-9223372036854775808)]
    v.display = "[\x7b\"a,b\": \"[\\\"x\\\": 1]\", \"c\": nulo\x7d, -9223372036854775808]" ∧
    readLiteral v.display = v ∧ coerce .list (.string v.display) = .ok v := by
  intro v
  have dictionary : Unescaped (.dictionary [("a,b", .string "[\"x\": 1]"), ("c", .null)]) := by
    refine .dictionary (by decide) ?_ (by decide)
    rintro e (_ | ⟨_, _ | ⟨_, he⟩⟩)
    · exact .string (by decide)
    · exact .null
    · cases he
  have unescaped : v.Unescaped := by
    refine .list ?_
    rintro item (_ | ⟨_, _ | ⟨_, hi⟩⟩)
    · exact dictionary
    · exact .integer _
    · cases hi
  have back := readLiteral_display unescaped.plain (.inl rfl)
  exact ⟨rfl, back.1.mpr unescaped, (back.2 rfl (.string v.display) rfl).mpr unescaped⟩

/-- A backslash in a text is lost on the way back, and a quote in a key keeps the
form from being read as a dictionary at all. -/
theorem display_loses_backslash :
    (Plain (.list [.string "a\\b"]) ∧
      readLiteral (display (.list [.string "a\\b"])) = .list [.string "ab"] ∧
      coerce .list (.string (display (.list [.string "a\\b"]))) = .ok (.list [.string "ab"])) ∧
    (Plain (.dictionary [("a\"b", .null)]) ∧
      readLiteral (display (.dictionary [("a\"b", .null)])) = .string "\x7b\"a\"b\": nulo\x7d") := by
  refine ⟨⟨.list ?_, rfl, rfl⟩, .dictionary (fun _ _ => trivial) ?_ (by decide), rfl⟩
  · exact List.forall_mem_singleton.mpr (.string trivial)
  · exact List.forall_mem_singleton.mpr .null

end Guion.Value
