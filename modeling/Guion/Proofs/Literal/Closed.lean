/-
Texts that leave nothing open.

`Closed p t` says that every bracket in `t` is closed by its partner and every
quote by a quote, and that the characters outside them have the property `p`.
A scan that starts where nothing is quoted passes over such a text and is
where it was: the splitter, if `p` keeps the separator out
(`Closed.splitTopLevelFrom_append`), and the test for balance
(`Closed.isBalancedFrom_append`). So texts that are closed, with separators
between them, are cut where they were put together.

`Body b t` says that `b` is a body for the text `t`: between two quotes it is
closed whatever `t` is. Both ways to read a quoted text take a body and give
`t` back: one needs a quote at either end of the text (`unquote_eq_some_iff`),
the other goes on to the quote that closes the body (`closeQuote_eq_some_iff`).
-/
import Mathlib.Data.List.TakeWhile
import Guion.Text.Pieces
import Guion.Text.Quoted
import Guion.Value.Basic

namespace Guion.Text

/-! ## Bodies of quoted texts -/

/-- What the reader of a quoted text takes between the quotes, and the content it
finds there. -/
inductive Body : List Char → List Char → Prop
  | nil : Body [] []
  | escaped (c : Char) {body content} (h : Body body content) : Body ('\\' :: c :: body) (unescape c :: content)
  | plain {c body content} (quote : c ≠ '"') (slash : c ≠ '\\') (h : Body body content) :
      Body (c :: body) (c :: content)

theorem unquoteBody_plain {c : Char} (quote : c ≠ '"') (slash : c ≠ '\\') (rest : List Char) :
    unquoteBody (c :: rest) = (unquoteBody rest).map (c :: ·) := by
  rw [unquoteBody]
  · exact quote
  · exact fun h _ => slash h
  · exact fun _ _ h _ => slash h

/-- A character that neither of the equations for a backslash is about. -/
theorem ne_backslash {c : Char} {rest : List Char} (alone : c = '\\' → rest = [] → False)
    (escapes : ∀ d more, c = '\\' → rest = d :: more → False) : c ≠ '\\' := by
  intro slash
  cases rest with
  | nil => exact alone slash rfl
  | cons d more => exact escapes d more slash rfl

theorem body_iff {body content : List Char} : Body body content ↔ unquoteBody body = some content := by
  constructor
  · intro h
    induction h with
    | nil => rfl
    | escaped c _ ih => rw [unquoteBody, ih, Option.map_some]
    | plain quote slash _ ih => rw [unquoteBody_plain quote slash, ih, Option.map_some]
  · intro h
    induction body using unquoteBody.induct generalizing content with
    | case1 => cases h; exact .nil
    | case2 => cases h
    | case3 => cases h
    | case4 c rest ih =>
      rw [unquoteBody] at h
      obtain ⟨more, hm, rfl⟩ := Option.map_eq_some_iff.mp h
      exact .escaped c (ih hm)
    | case5 c rest quote alone escapes ih =>
      have slash := ne_backslash alone escapes
      rw [unquoteBody_plain quote slash] at h
      obtain ⟨more, hm, rfl⟩ := Option.map_eq_some_iff.mp h
      exact .plain quote slash (ih hm)

theorem Body.append {body content body' content' : List Char} (h : Body body content) (h' : Body body' content') :
    Body (body ++ body') (content ++ content') := by
  induction h with
  | nil => exact h'
  | escaped c _ ih => exact .escaped c ih
  | plain quote slash _ ih => exact .plain quote slash ih

/-- A body that is put together from bodies of the single characters. -/
theorem Body.flatMap {form : Char → List Char} {content : List Char} (h : ∀ c ∈ content, Body (form c) [c]) :
    Body (content.flatMap form) content := by
  induction content with
  | nil => exact .nil
  | cons c rest ih =>
    obtain ⟨hc, h⟩ := List.forall_mem_cons.mp h
    exact hc.append (ih h)

theorem body_escape (c : Char) : Body (escape c) [c] := by
  unfold escape
  split
  · next h => rw [h]; exact .escaped 'n' .nil
  split
  · next h => rw [h]; exact .escaped 't' .nil
  split
  · next h => obtain rfl | rfl := h <;> exact .escaped _ .nil
  · next h => exact .plain (fun he => h (.inl he)) (fun he => h (.inr he)) .nil

/-- The escaped form of a text is a body for it. -/
theorem body_flatMap_escape (content : List Char) : Body (content.flatMap escape) content :=
  .flatMap fun c _ => body_escape c

theorem Body.unquote {body content : List Char} (h : Body body content) :
    unquote ('"' :: body ++ ['"']) = some content := by
  simp [Text.unquote, body_iff.mp h]

theorem unquote_eq_some_iff {t content : List Char} :
    unquote t = some content ↔ ∃ body, t = '"' :: body ++ ['"'] ∧ Body body content := by
  constructor
  · intro h
    unfold unquote at h
    split at h
    · split at h
      · next rest _ body last =>
        refine ⟨body.reverse, ?_, body_iff.mpr h⟩
        rw [List.cons_append, ← List.reverse_cons, ← last, List.reverse_reverse]
      · cases h
    · cases h
  · rintro ⟨body, rfl, h⟩
    exact h.unquote

theorem closeQuote_plain {c : Char} (quote : c ≠ '"') (slash : c ≠ '\\') (before rest : List Char) :
    closeQuote before (c :: rest) = closeQuote (c :: before) rest := by
  rw [closeQuote]
  · exact quote
  · exact fun h _ => slash h
  · exact fun _ _ h _ => slash h

theorem Body.closeQuote {body content : List Char} (h : Body body content) (before rest : List Char) :
    closeQuote before (body ++ '"' :: rest) = some (before.reverse ++ content, rest) := by
  induction h generalizing before with
  | nil => rw [List.append_nil]; rfl
  | escaped c _ ih =>
    rw [List.cons_append, List.cons_append, Text.closeQuote, ih, List.reverse_cons, List.append_assoc,
      List.singleton_append]
  | plain quote slash _ ih =>
    rw [List.cons_append, closeQuote_plain quote slash, ih, List.reverse_cons, List.append_assoc,
      List.singleton_append]

/-- Nothing closes a body, nor a body with a backslash behind it. -/
theorem Body.closeQuote_eq_none {body content : List Char} (h : Body body content) (before : List Char) :
    Text.closeQuote before body = none ∧ Text.closeQuote before (body ++ ['\\']) = none := by
  induction h generalizing before with
  | nil => exact ⟨rfl, rfl⟩
  | escaped c _ ih => exact ih (unescape c :: before)
  | @plain c _ _ quote slash _ ih =>
    rw [List.cons_append, closeQuote_plain quote slash, closeQuote_plain quote slash]
    exact ih (c :: before)

/-- How a text goes on behind an opening quote: a body that a quote closes, and any
rest; or a body that nothing closes; or one with a backslash that escapes nothing. -/
inductive Opened : List Char → Prop
  | closed {body content} (h : Body body content) (rest : List Char) : Opened (body ++ '"' :: rest)
  | unclosed {body content} (h : Body body content) : Opened body
  | trailing {body content} (h : Body body content) : Opened (body ++ ['\\'])

theorem Opened.behind {body content t : List Char} (h : Opened t) (hb : Body body content) : Opened (body ++ t) := by
  cases h with
  | closed h rest => rw [← List.append_assoc]; exact .closed (hb.append h) rest
  | unclosed h => exact .unclosed (hb.append h)
  | trailing h => rw [← List.append_assoc]; exact .trailing (hb.append h)

theorem opened (t : List Char) : Opened t := by
  induction t using unquoteBody.induct with
  | case1 => exact .unclosed .nil
  | case2 rest => exact .closed .nil rest
  | case3 => exact .trailing .nil
  | case4 c rest ih => exact ih.behind (.escaped c .nil)
  | case5 c rest quote alone escapes ih => exact ih.behind (.plain quote (ne_backslash alone escapes) .nil)

theorem closeQuote_eq_some_iff {before t content rest : List Char} :
    closeQuote before t = some (content, rest) ↔
      ∃ body inner, t = body ++ '"' :: rest ∧ Body body inner ∧ content = before.reverse ++ inner := by
  constructor
  · intro h
    cases opened t with
    | closed hb more =>
      rw [hb.closeQuote] at h
      cases h
      exact ⟨_, _, rfl, hb, rfl⟩
    | unclosed hb => rw [(hb.closeQuote_eq_none before).1] at h; cases h
    | trailing hb => rw [(hb.closeQuote_eq_none before).2] at h; cases h
  · rintro ⟨body, inner, rfl, hb, rfl⟩
    exact hb.closeQuote before rest

/-! ## Closed texts -/

/-- Texts without an open bracket or quote; what stands outside brackets and
quotes has the property. -/
inductive Closed : (Char → Prop) → List Char → Prop
  | nil {p} : Closed p []
  | plain {p c} (hc : isPlain c = true) (hp : p c) : Closed p [c]
  | quoted {p body content} (h : Body body content) : Closed p ('"' :: body ++ ['"'])
  | bracketed {p o inner} (ho : isOpener o = true) (h : Closed (fun _ => True) inner) :
      Closed p (o :: inner ++ [closerOf o])
  | append {p t u} (ht : Closed p t) (hu : Closed p u) : Closed p (t ++ u)

theorem Closed.mono {p q : Char → Prop} {t : List Char} (h : Closed p t) (hpq : ∀ c, p c → q c) : Closed q t := by
  induction h with
  | nil => exact .nil
  | plain hc hp => exact .plain hc (hpq _ hp)
  | quoted h => exact .quoted h
  | bracketed ho h _ => exact .bracketed ho h
  | append _ _ iht ihu => exact .append (iht hpq) (ihu hpq)

/-- A text of plain characters. -/
theorem Closed.of_forall {p : Char → Prop} {t : List Char} (h : ∀ c ∈ t, isPlain c = true ∧ p c) : Closed p t := by
  induction t with
  | nil => exact .nil
  | cons c rest ih =>
    obtain ⟨⟨hc, hp⟩, h⟩ := List.forall_mem_cons.mp h
    exact .append (t := [c]) (.plain hc hp) (ih h)

theorem isCloser_closerOf {o : Char} (h : isOpener o = true) : isCloser (closerOf o) = true := by
  simp only [isOpener, Bool.or_eq_true, beq_iff_eq] at h
  obtain (rfl | rfl) | rfl := h <;> rfl

theorem closerOf_ne_quote (o : Char) : closerOf o ≠ '"' := by
  unfold closerOf
  split
  · decide
  split <;> decide

theorem not_isOpener_closerOf (o : Char) : isOpener (closerOf o) = false := by
  unfold closerOf
  split
  · rfl
  split <;> rfl

theorem ne_quote_of_isOpener {o : Char} (h : isOpener o = true) : o ≠ '"' := by
  rintro rfl
  cases h

theorem isPlain_iff {c : Char} : isPlain c = true ↔ c ≠ '"' ∧ isOpener c = false ∧ isCloser c = false := by
  simp [isPlain, and_assoc]

/-! ## The splitter -/

section Splitter

variable {separator : Char} {piece rest : List Char}

/-- A character that cuts nothing. -/
theorem splitTopLevelFrom_step {n : Nesting} {c : Char}
    (h : (n.isTop && isPlain c && [separator].isPrefixOf (c :: rest)) = false) :
    splitTopLevelFrom [separator] n piece 0 (c :: rest) =
      splitTopLevelFrom [separator] (n.step c) (c :: piece) 0 rest := by
  rw [splitTopLevelFrom, if_neg (by rw [h]; exact Bool.false_ne_true)]

theorem Body.splitTopLevelFrom {body content : List Char} (h : Body body content) (depth : Nat) (piece rest : List Char) :
    splitTopLevelFrom [separator] ⟨depth, false, false⟩ piece 0 ('"' :: body ++ ['"'] ++ rest) =
      splitTopLevelFrom [separator] ⟨depth, false, false⟩ (('"' :: body ++ ['"']).reverse ++ piece) 0 rest := by
  have inside : ∀ piece, Text.splitTopLevelFrom [separator] ⟨depth, true, false⟩ piece 0 (body ++ '"' :: rest) =
      Text.splitTopLevelFrom [separator] ⟨depth, false, false⟩ ('"' :: body.reverse ++ piece) 0 rest := by
    induction h with
    | nil => intro piece; exact splitTopLevelFrom_step (by simp [Nesting.isTop])
    | escaped c _ ih =>
      intro piece
      refine (splitTopLevelFrom_step (by simp [Nesting.isTop])).trans ?_
      refine (splitTopLevelFrom_step (by simp [Nesting.isTop, Nesting.step])).trans ?_
      simpa [Nesting.step] using ih (c :: '\\' :: piece)
    | @plain c _ _ quote slash _ ih =>
      intro piece
      refine (splitTopLevelFrom_step (by simp [Nesting.isTop])).trans ?_
      simpa [Nesting.step, quote, slash] using ih (c :: piece)
  simp only [List.cons_append, List.append_assoc, List.nil_append]
  refine (splitTopLevelFrom_step (by simp [isPlain])).trans ((inside _).trans ?_)
  simp

/-- The splitter passes over a closed text that keeps its separators inside. -/
theorem Closed.splitTopLevelFrom_append {p : Char → Prop} {t : List Char} (h : Closed p t) {depth : Nat}
    (apart : depth = 0 → ∀ c, p c → c ≠ separator) (piece rest : List Char) :
    splitTopLevelFrom [separator] ⟨depth, false, false⟩ piece 0 (t ++ rest) =
      splitTopLevelFrom [separator] ⟨depth, false, false⟩ (t.reverse ++ piece) 0 rest := by
  induction h generalizing depth piece rest with
  | nil => rfl
  | @plain p c hc hp =>
    obtain ⟨quote, opener, closer⟩ := isPlain_iff.mp hc
    refine (splitTopLevelFrom_step ?_).trans ?_
    · by_cases hd : depth = 0
      · have hne := (apart hd c hp).symm
        simp [List.isPrefixOf, hne]
      · simp [Nesting.isTop, hd]
    · simp [Nesting.step, quote, opener, closer]
  | quoted h => exact h.splitTopLevelFrom depth piece rest
  | @bracketed p o inner ho _ ih =>
    have plain : isPlain o = false := by simp [isPlain, ho]
    have plain' : isPlain (closerOf o) = false := by simp [isPlain, isCloser_closerOf ho]
    have opens : Nesting.step ⟨depth, false, false⟩ o = ⟨depth + 1, false, false⟩ := by
      simp [Nesting.step, ne_quote_of_isOpener ho, ho]
    have closes : Nesting.step ⟨depth + 1, false, false⟩ (closerOf o) = ⟨depth, false, false⟩ := by
      simp [Nesting.step, closerOf_ne_quote, not_isOpener_closerOf, isCloser_closerOf ho]
    simp only [List.cons_append, List.append_assoc]
    rw [splitTopLevelFrom_step (by simp [plain]), opens, ih (fun hd => by cases hd)]
    refine (splitTopLevelFrom_step (by simp [plain'])).trans ?_
    rw [closes]
    simp
  | append _ _ iht ihu =>
    rw [List.append_assoc, iht apart, ihu apart, List.reverse_append, List.append_assoc]

end Splitter

/-! ## Balance -/

section Balance

variable {awaited rest : List Char}

theorem Body.isBalancedFrom {body content : List Char} (h : Body body content) (awaited rest : List Char) :
    isBalancedFrom awaited false false ('"' :: body ++ ['"'] ++ rest) = isBalancedFrom awaited false false rest := by
  have inside : Text.isBalancedFrom awaited true false (body ++ '"' :: rest) =
      Text.isBalancedFrom awaited false false rest := by
    induction h with
    | nil => simp [Text.isBalancedFrom]
    | escaped c _ ih => simpa [Text.isBalancedFrom] using ih
    | @plain c _ _ quote slash _ ih =>
      have hq : (c != '"') = true := bne_iff_ne.mpr quote
      simpa [Text.isBalancedFrom, slash, hq] using ih
  simp [Text.isBalancedFrom, inside]

/-- The test for balance passes over a closed text. -/
theorem Closed.isBalancedFrom_append {p : Char → Prop} {t : List Char} (h : Closed p t) (awaited rest : List Char) :
    isBalancedFrom awaited false false (t ++ rest) = isBalancedFrom awaited false false rest := by
  induction h generalizing awaited rest with
  | nil => rfl
  | plain hc _ =>
    obtain ⟨quote, opener, closer⟩ := isPlain_iff.mp hc
    simp [isBalancedFrom, quote, opener, closer]
  | quoted h => exact h.isBalancedFrom awaited rest
  | @bracketed p o inner ho _ ih =>
    simp only [List.cons_append, List.append_assoc]
    have opens : ∀ more, isBalancedFrom awaited false false (o :: more) =
        isBalancedFrom (closerOf o :: awaited) false false more := by
      intro more
      simp [isBalancedFrom, ne_quote_of_isOpener ho, ho]
    rw [opens, ih]
    simp [isBalancedFrom, closerOf_ne_quote, not_isOpener_closerOf, isCloser_closerOf ho]
  | append _ _ iht ihu => rw [List.append_assoc, iht, ihu]

theorem Closed.isBalanced {p : Char → Prop} {t : List Char} (h : Closed p t) : isBalanced t = true := by
  have := h.isBalancedFrom_append [] []
  rwa [List.append_nil] at this

end Balance

/-! ## Pieces -/

/-- Texts with no blank at either end, and something in between. -/
structure Trimmed (t : List Char) : Prop where
  head : ∃ c ∈ t.head?, isBlank c = false
  last : ∃ c ∈ t.getLast?, isBlank c = false

theorem dropWhile_isBlank {t : List Char} (h : ∃ c ∈ t.head?, isBlank c = false) : t.dropWhile isBlank = t := by
  obtain ⟨c, hc, hb⟩ := h
  obtain ⟨rest, rfl⟩ := List.head?_eq_some_iff.mp hc
  rw [List.dropWhile_cons, hb]
  rfl

theorem trim_append {blanks t : List Char} (hb : ∀ c ∈ blanks, isBlank c = true) (h : Trimmed t) :
    trim (blanks ++ t) = t := by
  have front : (blanks ++ t).dropWhile isBlank = t := by
    rw [List.dropWhile_append_of_pos hb, dropWhile_isBlank h.head]
  have back : t.reverse.dropWhile isBlank = t.reverse :=
    dropWhile_isBlank (by rw [List.head?_reverse]; exact h.last)
  rw [trim, front, trimRight, back, List.reverse_reverse]

theorem Trimmed.trim_eq {t : List Char} (h : Trimmed t) : trim t = t := by
  have := trim_append (t := t) (fun c (hc : c ∈ []) => by cases hc) h
  rwa [List.nil_append] at this

theorem Trimmed.ne_nil {t : List Char} (h : Trimmed t) : t ≠ [] := by
  rintro rfl
  obtain ⟨c, hc, -⟩ := h.head
  cases hc

theorem trim_eq_nil_iff {text : List Char} : trim text = [] ↔ ∀ c ∈ text, isBlank c = true := by
  rw [trim, trimRight, List.reverse_eq_nil_iff, List.dropWhile_eq_nil_iff]
  simp only [List.mem_reverse]
  constructor
  · intro h c hc
    rw [← List.takeWhile_append_dropWhile (p := isBlank) (l := text)] at hc
    obtain front | back := List.mem_append.mp hc
    · exact List.mem_takeWhile_imp front
    · exact h c back
  · exact fun h c hc => h c ((List.dropWhile_sublist isBlank).subset hc)

theorem trim_ne_nil {t : List Char} (h : ∃ c ∈ t.head?, isBlank c = false) : trim t ≠ [] := by
  intro none
  obtain ⟨c, hc, hb⟩ := h
  rw [trim_eq_nil_iff.mp none c (List.mem_of_mem_head? hc)] at hb
  cases hb

/-- The splitter behind blanks: the piece that was begun is a text, when the text
keeps the separator inside. -/
theorem splitTopLevelFrom_piece {separator : Char} {t : List Char} (h : Closed (· ≠ separator) t) (ht : Trimmed t)
    {blanks : List Char} (hb : ∀ c ∈ blanks, isBlank c = true) :
    splitTopLevelFrom [separator] {} blanks 0 t = [t] ∧
    ∀ rest, isPlain separator = true → splitTopLevelFrom [separator] {} blanks 0 (t ++ separator :: rest) =
      t :: splitTopLevelFrom [separator] {} [] 0 rest := by
  have passes : ∀ rest, splitTopLevelFrom [separator] {} blanks 0 (t ++ rest) =
      splitTopLevelFrom [separator] {} (t.reverse ++ blanks) 0 rest :=
    h.splitTopLevelFrom_append (fun _ _ hc => hc) blanks
  have trimmed : trim (t.reverse ++ blanks).reverse = t := by
    rw [List.reverse_append, List.reverse_reverse]
    exact trim_append (fun c hc => hb c (List.mem_reverse.mp hc)) ht
  constructor
  · have := passes []
    rw [List.append_nil] at this
    rw [this, splitTopLevelFrom, trimmed]
  · intro rest plain
    rw [passes, splitTopLevelFrom, if_pos (by simp [Nesting.isTop, plain, List.isPrefixOf]), trimmed]
    rfl

/-- A blank in front of a piece belongs to no piece. -/
theorem splitTopLevelFrom_blank {separator : Char} (h : separator ≠ ' ') (rest : List Char) :
    splitTopLevelFrom [separator] {} [] 0 (' ' :: rest) = splitTopLevelFrom [separator] {} [' '] 0 rest :=
  splitTopLevelFrom_step (by simp [List.isPrefixOf, h])

theorem isBlank_of_mem_space {c : Char} (h : c ∈ [' ']) : isBlank c = true := by
  rw [List.mem_singleton.mp h]
  rfl

/-- Closed texts with commas between them are cut at the commas. -/
theorem splitTopLevel_separated {texts : List (List Char)} (h : ∀ t ∈ texts, Closed (· ≠ ',') t ∧ Trimmed t) :
    splitTopLevel [','] (Value.separated texts) = texts := by
  have pieces : ∀ {texts : List (List Char)}, texts ≠ [] → (∀ t ∈ texts, Closed (· ≠ ',') t ∧ Trimmed t) →
      ∀ blanks : List Char, (∀ c ∈ blanks, isBlank c = true) →
      splitTopLevelFrom [','] {} blanks 0 (Value.separated texts) = texts := by
    intro texts
    induction texts with
    | nil => intro hne; exact absurd rfl hne
    | cons t more ih =>
      intro _ h blanks hb
      obtain ⟨⟨closed, trimmed⟩, h⟩ := List.forall_mem_cons.mp h
      have cut := splitTopLevelFrom_piece closed trimmed hb
      cases more with
      | nil => exact cut.1
      | cons u rest =>
        rw [Value.separated, cut.2 _ rfl, splitTopLevelFrom_blank (by decide),
          ih (List.cons_ne_nil _ _) h [' '] fun c => isBlank_of_mem_space]
        exact List.cons_ne_nil _ _
  cases texts with
  | nil => rfl
  | cons t more =>
    have first : ∃ c ∈ (Value.separated (t :: more)).head?, isBlank c = false := by
      obtain ⟨c, hc, hb⟩ := (h t List.mem_cons_self).2.head
      obtain ⟨rest, rfl⟩ := List.head?_eq_some_iff.mp hc
      cases more with
      | nil => exact ⟨c, rfl, hb⟩
      | cons u more => exact ⟨c, rfl, hb⟩
    rw [splitTopLevel, if_neg (by simpa using trim_ne_nil first), if_neg (by decide)]
    exact pieces (List.cons_ne_nil _ _) h [] fun c hc => by cases hc

end Guion.Text
