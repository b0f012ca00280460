/-
What the reader accepts is a printing of what it returns.

Each reader takes the tokens of its part from the front of the run and leaves
the rest as it is. The loops extend a printing that ends where they start:
`binaryRest` goes on with a left operand and `postfixes` with what it is
given, so their facts are about every printing of it. The induction is on the
fuel.
-/
import Guion.Proofs.Parse.Grammar

namespace Guion.Parse

/-! ## Casts -/

theorem castHeader?_eq_some {tokens rest : List Lexeme} {name : String} {pointer : Bool}
    (h : castHeader? tokens = some (name, pointer, rest)) :
    (pointer = false ∧ startsOperand rest = true ∧ ∃ x c, tokens = x :: c :: rest ∧
        x.token = .identifier name ∧ c.token = .symbol .rightParen) ∨
      (pointer = true ∧ ∃ x s c, tokens = x :: s :: c :: rest ∧ x.token = .identifier name ∧
        s.token = .symbol .star ∧ c.token = .symbol .rightParen) ∨
      (pointer = true ∧ ∃ w x c, tokens = w :: x :: c :: rest ∧ w.token = .identifier "puntero" ∧
        x.token = .identifier name ∧ c.token = .symbol .rightParen) := by
  rcases tokens with _ | ⟨first, _ | ⟨second, tokens⟩⟩
  · cases h
  · cases h
  rw [castHeader?] at h
  split at h
  · next hx hc =>
    rcases tokens with _ | ⟨next, tokens⟩
    · cases h
    dsimp only at h
    split at h
    · next hs =>
      cases h
      exact .inl ⟨rfl, hs, first, second, rfl, hx, hc⟩
    · cases h
  · next hw hx =>
    rcases tokens with _ | ⟨close, tokens⟩
    · cases h
    dsimp only at h
    split at h
    · next hc =>
      obtain ⟨rfl, hc⟩ := hc
      cases h
      exact .inr (.inr ⟨rfl, first, second, close, rfl, hw, hx, hc⟩)
    · cases h
  · next hx hs =>
    rcases tokens with _ | ⟨close, tokens⟩
    · cases h
    dsimp only at h
    split at h
    · next hc =>
      cases h
      exact .inr (.inl ⟨rfl, first, second, close, rfl, hx, hs, hc⟩)
    · cases h
  · cases h

theorem Prints.castOperand {e ts rest} (h : Prints .free (.expr (.level 6) e) ts)
    (hs : startsOperand (ts ++ rest) = true) : Prints .free (.expr .castOperand e) ts := by
  obtain ⟨x, more, rfl, -⟩ := h.starts rfl
  cases h with
  | fits bare admits => exact .fits bare ⟨admits, hs⟩
  | group ho inner hc => exact .group ho inner hc fun hs => by cases hs

/-- What a cast header and its operand print. -/
theorem Prints.ofCast {tokens rest more : List Lexeme} {name : String} {pointer : Bool} {operand : Expr}
    {o : Lexeme} {ts : List Lexeme} (ho : o.token = .symbol .leftParen)
    (h : castHeader? tokens = some (name, pointer, rest)) (hrest : rest = ts ++ more)
    (ht : Prints .free (.expr (.level 6) operand) ts) :
    ∃ own, tokens = own ++ more ∧ Prints .free (.bare (.cast name pointer operand o.line)) (o :: own) := by
  subst hrest
  rcases castHeader?_eq_some h with ⟨rfl, hs, x, c, rfl, hx, hc⟩ | ⟨rfl, x, s, c, rfl, hx, hs, hc⟩ |
    ⟨rfl, w, x, c, rfl, hw, hx, hc⟩
  · exact ⟨x :: c :: ts, rfl, .cast ho hx hc (ht.castOperand hs)⟩
  · exact ⟨x :: s :: c :: ts, rfl, .starCast ho hx hs hc ht⟩
  · exact ⟨w :: x :: c :: ts, rfl, .wordCast ho hw hx hc ht rfl⟩

/-- A name in parentheses that is no cast has no bracket behind it. -/
theorem startsWith_of_loneName {o : Lexeme} {ts rest : List Lexeme} (h : LoneName (o :: ts))
    (hc : castHeader? (ts ++ rest) = none) : startsWith .leftBracket rest = false := by
  obtain ⟨name, hname⟩ := h
  obtain ⟨x, ts, rfl, hx, hts⟩ := List.map_eq_cons_iff.mp (List.cons.inj hname).2
  obtain ⟨c, ts, rfl, hclose, hts⟩ := List.map_eq_cons_iff.mp hts
  obtain rfl : ts = [] := List.map_eq_nil_iff.mp hts
  cases rest with
  | nil => rfl
  | cons next rest =>
    simp only [List.cons_append, List.nil_append, castHeader?, hx, hclose] at hc
    by_cases hb : next.token = .symbol .leftBracket
    · have hoperand : next.token.startsOperand = true := by rw [hb]; rfl
      rw [if_pos hoperand] at hc
      cases hc
    · exact beq_eq_false_iff_ne.mpr hb

theorem not_loneName_of_length {tokens : List Lexeme} (h : 3 < tokens.length) : ¬ LoneName tokens := by
  rintro ⟨name, hname⟩
  have hlength := congrArg List.length hname
  simp only [List.length_map, List.length_cons, List.length_nil] at hlength
  omega

theorem not_loneName_of_last {tokens : List Lexeme} {d x : Lexeme} {name : String}
    (hx : x.token = .identifier name) : ¬ LoneName (tokens ++ [d, x]) := by
  rintro ⟨own, hown⟩
  have hlast := congrArg List.getLast? hown
  simp [hx] at hlast

/-! ## Literals -/

theorem dateLiteral_spells {x : Lexeme} {text : String} {tokens rest : List Lexeme} {e : Expr}
    (hx : x.token = .date text) (h : dateLiteral x text tokens = .ok (e, rest)) :
    ∃ ts value, tokens = ts ++ rest ∧ e = .literal value x.line ∧
      Spells (x.token :: ts.map Lexeme.token) value := by
  rw [hx]
  unfold dateLiteral at h
  split at h
  · cases h
  next date hd =>
  split at h
  · next next after =>
    split at h
    · next clock hclock =>
      split at h
      · next time ht =>
        cases h
        refine ⟨[next], _, rfl, rfl, ?_⟩
        simp only [List.map_cons, List.map_nil, hclock]
        exact .dateTime hd ht
      · cases h
    · cases h
      exact ⟨[], _, rfl, rfl, .date hd⟩
  · cases h
    exact ⟨[], _, rfl, rfl, .date hd⟩

/-! ## Readers -/

/-- The tokens that were taken from the front of a run satisfy `P`. -/
def Takes (P : List Lexeme → Prop) (tokens rest : List Lexeme) : Prop :=
  ∃ ts, tokens = ts ++ rest ∧ P ts

/-- The tokens up to a closing symbol satisfy `P`. -/
def TakesTo (closing : Symbol) (P : List Lexeme → Prop) (tokens rest : List Lexeme) : Prop :=
  ∃ ts c, tokens = ts ++ c :: rest ∧ c.token = .symbol closing ∧ P ts

/-- What the readers of expressions take, with some fuel. -/
structure Sound (fuel : Nat) : Prop where
  binary : ∀ {k tokens e rest}, k ≤ 6 → Parse.binary fuel (precedence.drop k) tokens = .ok (e, rest) →
    Takes (Prints .free (.expr (.level k) e)) tokens rest
  binaryRest : ∀ {k left tokens e rest}, k < 6 →
    Parse.binaryRest fuel (precedence.getD k []) (precedence.drop (k + 1)) left tokens = .ok (e, rest) →
    Takes (fun ts => ∀ ls, Prints .free (.expr (.level k) left) ls → Prints .free (.expr (.level k) e) (ls ++ ts))
      tokens rest
  unary : ∀ {tokens e rest}, Parse.unary fuel tokens = .ok (e, rest) →
    Takes (Prints .free (.expr (.level 6) e)) tokens rest
  primary : ∀ {x tokens e rest}, Parse.primary fuel x tokens = .ok (e, rest) →
    Takes (fun ts => Prints .free (.expr (.level 7) e) (x :: ts)) tokens rest
  postfixes : ∀ {expr tokens e rest}, Parse.postfixes fuel expr tokens = .ok (e, rest) →
    Takes (fun ts => ∀ ls, Prints .free (.expr (.level 7) expr) ls →
      (LoneName ls → startsWith .leftBracket tokens = false) → Prints .free (.expr (.level 7) e) (ls ++ ts))
      tokens rest
  items : ∀ {closing line tokens es rest}, Parse.items fuel closing line tokens = .ok (es, rest) →
    TakesTo closing (Prints .free (.items es)) tokens rest
  someItems : ∀ {closing line tokens es rest}, Parse.someItems fuel closing line tokens = .ok (es, rest) →
    es ≠ [] ∧ TakesTo closing (Prints .free (.items es)) tokens rest
  entries : ∀ {line tokens pairs rest}, Parse.entries fuel line tokens = .ok (pairs, rest) →
    TakesTo .rightBrace (Prints .free (.entries pairs)) tokens rest
  someEntries : ∀ {line tokens pairs rest}, Parse.someEntries fuel line tokens = .ok (pairs, rest) →
    pairs ≠ [] ∧ TakesTo .rightBrace (Prints .free (.entries pairs)) tokens rest

theorem expect_eq_ok {symbol : Symbol} {line : Nat} {tokens rest : List Lexeme}
    (h : expect symbol line tokens = .ok rest) : ∃ x, tokens = x :: rest ∧ x.token = .symbol symbol := by
  cases tokens with
  | nil => cases h
  | cons x tokens =>
    rw [expect] at h
    split at h
    · next hx =>
      cases h
      exact ⟨x, rfl, hx⟩
    · cases h

theorem expectIdentifier_eq_ok {line : Nat} {tokens rest : List Lexeme} {name : String}
    (h : expectIdentifier line tokens = .ok (name, rest)) :
    ∃ x, tokens = x :: rest ∧ x.token = .identifier name := by
  cases tokens with
  | nil => cases h
  | cons x tokens =>
    rw [expectIdentifier] at h
    split at h
    · next hx =>
      cases h
      exact ⟨x, rfl, hx⟩
    · cases h

theorem startsWith_eq_true {symbol : Symbol} {tokens : List Lexeme} (h : startsWith symbol tokens = true) :
    ∃ x rest, tokens = x :: rest ∧ x.token = .symbol symbol := by
  cases tokens with
  | nil => cases h
  | cons x rest => exact ⟨x, rest, rfl, eq_of_beq h⟩

namespace Sound

variable {fuel : Nat} (ih : Sound fuel)

include ih

theorem binary_step {k tokens e rest} (hk : k ≤ 6)
    (h : Parse.binary (fuel + 1) (precedence.drop k) tokens = .ok (e, rest)) :
    Takes (Prints .free (.expr (.level k) e)) tokens rest := by
  rcases Nat.lt_or_eq_of_le hk with hlt | rfl
  · rw [drop_precedence hlt, Parse.binary] at h
    split at h
    · cases h
    · next left after hleft =>
      obtain ⟨ls, rfl, hls⟩ := ih.binary hlt hleft
      obtain ⟨ts, rfl, hts⟩ := ih.binaryRest hlt h
      exact ⟨ls ++ ts, (List.append_assoc ..).symm, hts ls (hls.loosen (Nat.le_succ k))⟩
  · rw [drop_precedence_six, Parse.binary] at h
    exact ih.unary h

theorem binaryRest_step {k left tokens e rest} (hk : k < 6)
    (h : Parse.binaryRest (fuel + 1) (precedence.getD k []) (precedence.drop (k + 1)) left tokens =
      .ok (e, rest)) :
    Takes (fun ts => ∀ ls, Prints .free (.expr (.level k) left) ls → Prints .free (.expr (.level k) e) (ls ++ ts))
      tokens rest := by
  have stop : ∀ {tokens}, Except.ok (left, tokens) = (.ok (e, rest) : Parsed Expr) →
      Takes (fun ts => ∀ ls, Prints .free (.expr (.level k) left) ls → Prints .free (.expr (.level k) e) (ls ++ ts))
        tokens rest := by
    intro tokens h
    cases h
    exact ⟨[], rfl, fun ls hls => by rwa [List.append_nil]⟩
  cases tokens with
  | nil =>
    rw [Parse.binaryRest] at h
    exact stop h
  | cons x tokens =>
    rw [Parse.binaryRest] at h
    split at h
    · exact stop h
    next op hop =>
    split at h
    · next hcontains =>
      rw [contains_precedence hk, beq_iff_eq] at hcontains
      subst hcontains
      split at h
      · cases h
      next right after hright =>
      obtain ⟨rs, rfl, hrs⟩ := ih.binary hk hright
      obtain ⟨ts, rfl, hts⟩ := ih.binaryRest hk h
      refine ⟨x :: (rs ++ ts), by simp, fun ls hls => ?_⟩
      have hnode := hts (ls ++ x :: rs) (.fits (.binary hls hop hrs) (Nat.le_refl _))
      simpa using hnode
    · exact stop h

theorem unary_step {tokens e rest} (h : Parse.unary (fuel + 1) tokens = .ok (e, rest)) :
    Takes (Prints .free (.expr (.level 6) e)) tokens rest := by
  cases tokens with
  | nil =>
    rw [Parse.unary] at h
    cases h
  | cons x tokens =>
    rw [Parse.unary] at h
    split at h
    · next op hop =>
      split at h
      · cases h
      next operand after hoperand =>
      cases h
      obtain ⟨ts, rfl, hts⟩ := ih.unary hoperand
      exact ⟨x :: ts, rfl, .fits (.unary hop hts) (Nat.le_refl 6)⟩
    split at h
    · next hx =>
      split at h
      · cases h
      next operand after hoperand =>
      cases h
      obtain ⟨ts, rfl, hts⟩ := ih.unary hoperand
      exact ⟨x :: ts, rfl, .fits (.reference hx hts) (Nat.le_refl 6)⟩
    split at h
    · next hx =>
      split at h
      · cases h
      next operand after hoperand =>
      cases h
      obtain ⟨ts, rfl, hts⟩ := ih.unary hoperand
      exact ⟨x :: ts, rfl, .fits (.deref hx hts) (Nat.le_refl 6)⟩
    split at h
    · next name pointer operandTokens hcast =>
      split at hcast
      · next hx =>
        split at h
        · cases h
        next operand after hoperand =>
        cases h
        obtain ⟨ts, hts, hprints⟩ := ih.unary hoperand
        obtain ⟨own, hown, hbare⟩ := Prints.ofCast hx hcast hts hprints
        exact ⟨x :: own, congrArg (x :: ·) hown, .fits hbare (Nat.le_refl 6)⟩
      · cases hcast
    · next hcast =>
      split at h
      · cases h
      next expr after hprimary =>
      obtain ⟨ts, rfl, hts⟩ := ih.primary hprimary
      obtain ⟨more, rfl, hmore⟩ := ih.postfixes h
      refine ⟨x :: ts ++ more, by simp, (hmore _ hts fun hlone => ?_).loosen (by decide)⟩
      have hx : x.token = .symbol .leftParen := by
        obtain ⟨name, hname⟩ := hlone
        exact (List.cons.inj hname).1
      rw [if_pos hx] at hcast
      exact startsWith_of_loneName hlone hcast

theorem primary_step {x tokens e rest} (h : Parse.primary (fuel + 1) x tokens = .ok (e, rest)) :
    Takes (fun ts => Prints .free (.expr (.level 7) e) (x :: ts)) tokens rest := by
  rw [Parse.primary] at h
  split at h
  · next text hx =>
    obtain ⟨ts, value, rfl, rfl, hts⟩ := dateLiteral_spells hx h
    exact ⟨ts, rfl, .fits (.literal hts) (Nat.le_refl 7)⟩
  · next text hx =>
    split at h
    · next time ht =>
      cases h
      exact ⟨[], rfl, .fits (.literal (by rw [hx]; exact .time ht)) (Nat.le_refl 7)⟩
    · cases h
  · next text hx =>
    split at h
    · next duration hd =>
      cases h
      exact ⟨[], rfl, .fits (.literal (by rw [hx]; exact .duration hd)) (Nat.le_refl 7)⟩
    · cases h
  · next name hx =>
    split at h
    · next hopen =>
      split at h
      · cases h
      next arguments after hitems =>
      cases h
      obtain ⟨o, tokens, rfl, ho⟩ := startsWith_eq_true hopen
      obtain ⟨ts, c, rfl, hc, hts⟩ := ih.items hitems
      exact ⟨o :: (ts ++ [c]), by simp, .fits (.call hx ho hts hc) (Nat.le_refl 7)⟩
    · cases h
      exact ⟨[], rfl, .fits (.variable hx) (Nat.le_refl 7)⟩
  · next hx =>
    split at h
    · cases h
    next expr after hexpr =>
    split at h
    · cases h
    next last hclose =>
    cases h
    obtain ⟨ts, rfl, hts⟩ := ih.binary (Nat.zero_le 6) hexpr
    obtain ⟨c, rfl, hc⟩ := expect_eq_ok hclose
    exact ⟨ts ++ [c], by simp, .group hx hts hc fun hs => by cases hs⟩
  · next hx =>
    split at h
    · cases h
    next elements after hitems =>
    cases h
    obtain ⟨ts, c, rfl, hc, hts⟩ := ih.items hitems
    exact ⟨ts ++ [c], by simp, .fits (.list hx hts hc) (Nat.le_refl 7)⟩
  · next hx =>
    split at h
    · cases h
    next pairs after hentries =>
    cases h
    obtain ⟨ts, c, rfl, hc, hts⟩ := ih.entries hentries
    exact ⟨ts ++ [c], by simp, .fits (.dictionary hx hts hc) (Nat.le_refl 7)⟩
  · split at h
    · next value hvalue =>
      cases h
      exact ⟨[], rfl, .fits (.literal (.token hvalue)) (Nat.le_refl 7)⟩
    · cases h

theorem postfixes_step {expr tokens e rest}
    (h : Parse.postfixes (fuel + 1) expr tokens = .ok (e, rest)) :
    Takes (fun ts => ∀ ls, Prints .free (.expr (.level 7) expr) ls →
      (LoneName ls → startsWith .leftBracket tokens = false) → Prints .free (.expr (.level 7) e) (ls ++ ts))
      tokens rest := by
  cases tokens with
  | nil =>
    rw [Parse.postfixes] at h
    cases h
    exact ⟨[], rfl, fun ls hls _ => by rwa [List.append_nil]⟩
  | cons x tokens =>
    rw [Parse.postfixes] at h
    split at h
    · next hx =>
      split at h
      · cases h
      next index after hindex =>
      split at h
      · cases h
      next last hclose =>
      obtain ⟨is, rfl, his⟩ := ih.binary (Nat.zero_le 6) hindex
      obtain ⟨c, rfl, hc⟩ := expect_eq_ok hclose
      obtain ⟨ts, rfl, hts⟩ := ih.postfixes h
      refine ⟨x :: (is ++ c :: ts), by simp, fun ls hls hlone => ?_⟩
      have hnot : ¬ LoneName ls := fun hl => by simpa [startsWith, hx] using hlone hl
      have hnode := hts (ls ++ x :: (is ++ [c])) (.fits (.index hls hnot hx his hc) (Nat.le_refl 7))
        fun hl => absurd hl (not_loneName_of_length (by
          have := hls.length_pos rfl
          have := his.length_pos rfl
          simp only [List.length_append, List.length_cons, List.length_nil]
          omega))
      simpa using hnode
    split at h
    · next hx =>
      split at h
      · cases h
      next name after hname =>
      obtain ⟨y, rfl, hy⟩ := expectIdentifier_eq_ok hname
      split at h
      · next hopen =>
        split at h
        · cases h
        next arguments last hitems =>
        obtain ⟨o, after, rfl, ho⟩ := startsWith_eq_true hopen
        obtain ⟨is, c, rfl, hc, his⟩ := ih.items hitems
        obtain ⟨ts, rfl, hts⟩ := ih.postfixes h
        refine ⟨x :: y :: o :: (is ++ c :: ts), by simp, fun ls hls _ => ?_⟩
        have hnode := hts (ls ++ x :: y :: o :: (is ++ [c]))
          (.fits (.methodCall hls hx hy ho his hc) (Nat.le_refl 7))
          fun hl => absurd hl (not_loneName_of_length (by
            simp only [List.length_append, List.length_cons, List.length_nil]
            omega))
        simpa using hnode
      · obtain ⟨ts, rfl, hts⟩ := ih.postfixes h
        refine ⟨x :: y :: ts, by simp, fun ls hls _ => ?_⟩
        have hnode := hts (ls ++ [x, y]) (.fits (.field hls hx hy) (Nat.le_refl 7))
          fun hl => absurd hl (not_loneName_of_last hy)
        simpa using hnode
    · cases h
      exact ⟨[], rfl, fun ls hls _ => by rwa [List.append_nil]⟩

theorem items_step {closing line tokens es rest}
    (h : Parse.items (fuel + 1) closing line tokens = .ok (es, rest)) :
    TakesTo closing (Prints .free (.items es)) tokens rest := by
  rw [Parse.items] at h
  split at h
  · next hclose =>
    cases h
    obtain ⟨c, tokens, rfl, hc⟩ := startsWith_eq_true hclose
    exact ⟨[], c, rfl, hc, .noItems⟩
  · exact (ih.someItems h).2

theorem someItems_step {closing line tokens es rest}
    (h : Parse.someItems (fuel + 1) closing line tokens = .ok (es, rest)) :
    es ≠ [] ∧ TakesTo closing (Prints .free (.items es)) tokens rest := by
  rw [Parse.someItems] at h
  split at h
  · cases h
  · cases h
  next item x after hitem =>
  obtain ⟨ts, rfl, hts⟩ := ih.binary (Nat.zero_le 6) hitem
  split at h
  · next hx =>
    split at h
    · cases h
    next more last hmore =>
    cases h
    obtain ⟨hsome, ms, c, rfl, hc, hms⟩ := ih.someItems hmore
    exact ⟨by simp, ts ++ x :: ms, c, by simp, hc, .item hts hx hsome hms⟩
  split at h
  · next hx =>
    cases h
    exact ⟨by simp, ts, x, rfl, hx, .lastItem hts⟩
  · cases h

theorem entries_step {line tokens pairs rest}
    (h : Parse.entries (fuel + 1) line tokens = .ok (pairs, rest)) :
    TakesTo .rightBrace (Prints .free (.entries pairs)) tokens rest := by
  rw [Parse.entries] at h
  split at h
  · next hclose =>
    cases h
    obtain ⟨c, tokens, rfl, hc⟩ := startsWith_eq_true hclose
    exact ⟨[], c, rfl, hc, .noEntries⟩
  · exact (ih.someEntries h).2

theorem someEntries_step {line tokens pairs rest}
    (h : Parse.someEntries (fuel + 1) line tokens = .ok (pairs, rest)) :
    pairs ≠ [] ∧ TakesTo .rightBrace (Prints .free (.entries pairs)) tokens rest := by
  rw [Parse.someEntries] at h
  split at h
  · cases h
  next key afterKey hkey =>
  split at h
  · cases h
  next afterColon hcolon =>
  obtain ⟨ks, rfl, hks⟩ := ih.binary (Nat.zero_le 6) hkey
  obtain ⟨x, rfl, hx⟩ := expect_eq_ok hcolon
  split at h
  · cases h
  · cases h
  next value y after hvalue =>
  obtain ⟨vs, rfl, hvs⟩ := ih.binary (Nat.zero_le 6) hvalue
  split at h
  · next hy =>
    split at h
    · cases h
    next more last hmore =>
    cases h
    obtain ⟨hsome, ms, c, rfl, hc, hms⟩ := ih.someEntries hmore
    exact ⟨by simp, ks ++ x :: (vs ++ y :: ms), c, by simp, hc, .entry hks hx hvs hy hsome hms⟩
  split at h
  · next hy =>
    cases h
    exact ⟨by simp, ks ++ x :: vs, y, by simp, hy, .lastEntry hks hx hvs⟩
  · cases h

end Sound

theorem sound (fuel : Nat) : Sound fuel := by
  induction fuel with
  | zero =>
    constructor <;> intros <;> rename_i h <;>
      simp only [binary, binaryRest, unary, primary, postfixes, items, someItems, entries,
        someEntries] at h <;>
      cases h
  | succ fuel ih =>
    exact ⟨ih.binary_step, ih.binaryRest_step, ih.unary_step, ih.primary_step, ih.postfixes_step,
      ih.items_step, ih.someItems_step, ih.entries_step, ih.someEntries_step⟩

/-- A run that reads as an expression prints it. -/
theorem complete_prints {tokens line e} (h : complete tokens line = .ok e) :
    Prints .free (.expr (.level 0) e) tokens := by
  unfold complete at h
  split at h
  · cases h
  split at h
  · cases h
  · next expr hexpr =>
    cases h
    obtain ⟨ts, rfl, hts⟩ := (sound _).binary (Nat.zero_le 6) hexpr
    rwa [List.append_nil]
  · cases h

end Guion.Parse
