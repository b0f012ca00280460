/-
What one line says: facts about the reading of a line that the readings of
whole programs use.

A line that is a statement is one without a block, and the statement stands
on the line of its first token (`line_simple`). A line that is a header
starts with the word of the header (`line_header`), so the branches of a
conditional are the lines that start with `pero_si` or `si_no`.
-/
import Guion.Parse.Program

namespace Guion

theorem Except.bind_eq_ok {ε α β : Type} {x : Except ε α} {f : α → Except ε β} {y : β} :
    (x >>= f) = .ok y ↔ ∃ a, x = .ok a ∧ f a = .ok y := by
  constructor
  · intro h
    cases x with
    | error e => cases h
    | ok a => exact ⟨a, rfl, h⟩
  · rintro ⟨a, rfl, h⟩
    exact h

theorem Except.map_eq_ok {ε α β : Type} {x : Except ε α} {f : α → β} {y : β} :
    x.map f = .ok y ↔ ∃ a, x = .ok a ∧ f a = y := by
  constructor
  · intro h
    cases x with
    | error e => cases h
    | ok a => exact ⟨a, rfl, Except.ok.inj h⟩
  · rintro ⟨a, rfl, rfl⟩
    rfl

theorem Except.pure_eq_ok {ε α : Type} {a b : α} : (pure a : Except ε α) = .ok b ↔ a = b := by
  simp [pure, Except.pure]

theorem Except.mapError_eq_ok {ε δ α : Type} {x : Except ε α} {f : ε → δ} {a : α} :
    x.mapError f = .ok a ↔ x = .ok a := by
  cases x with
  | error e => exact ⟨fun h => (by cases h), fun h => (by cases h)⟩
  | ok b => exact ⟨fun h => (by cases h; rfl), fun h => (by cases h; rfl)⟩

/-- Every one of some results comes from one of the inputs. -/
theorem Except.of_mem_mapM {ε α β : Type} {f : α → Except ε β} {xs : List α} {ys : List β}
    (h : xs.mapM f = .ok ys) {y : β} (hy : y ∈ ys) : ∃ x ∈ xs, f x = .ok y := by
  induction xs generalizing ys with
  | nil => cases h; cases hy
  | cons x xs ih =>
    simp only [List.mapM_cons, Except.bind_eq_ok, Except.pure_eq_ok] at h
    obtain ⟨z, hz, zs, hzs, rfl⟩ := h
    obtain rfl | hy := List.mem_cons.mp hy
    · exact ⟨x, List.mem_cons_self, hz⟩
    · obtain ⟨w, hw, hy⟩ := ih hzs hy
      exact ⟨w, List.mem_cons_of_mem _ hw, hy⟩

/-- What every result has in common with its input, the results have in common with
the inputs. -/
theorem Except.map_mapM {ε α β γ : Type} {f : α → Except ε β} {g : α → γ} {g' : β → γ} {xs : List α} {ys : List β}
    (h : xs.mapM f = .ok ys) (same : ∀ x y, f x = .ok y → g' y = g x) : ys.map g' = xs.map g := by
  induction xs generalizing ys with
  | nil => cases h; rfl
  | cons x xs ih =>
    simp only [List.mapM_cons, Except.bind_eq_ok, Except.pure_eq_ok] at h
    obtain ⟨y, hy, ys, hys, rfl⟩ := h
    rw [List.map_cons, List.map_cons, same x y hy, ih hys]

theorem Except.length_mapM {ε α β : Type} {f : α → Except ε β} {xs : List α} {ys : List β}
    (h : xs.mapM f = .ok ys) : ys.length = xs.length := by
  have same : ys.map (fun _ => ()) = xs.map (fun _ => ()) := Except.map_mapM h fun _ _ _ => rfl
  simpa using congrArg List.length same

namespace Parse

/-- Whether a statement holds no block. -/
def isPlain : Statement → Bool
  | .conditional .. | .whileLoop .. | .forLoop .. | .function .. | .block .. => false
  | _ => true

/-- A statement on the given line that holds no block. -/
structure PlainAt (line : Nat) (statement : Statement) : Prop where
  line_eq : statement.line = line
  isPlain_eq : isPlain statement = true

/-- The keyword of a header. -/
def Header.word : Header → Keyword
  | .ifIs _ => .ifIs
  | .elseIf _ => .elseIf
  | .otherwise => .otherwise
  | .whileLoop _ => .while
  | .forLoop .. => .for
  | .function .. => .function

/-- Whether a keyword opens a block. -/
def isHeaderWord : Keyword → Bool
  | .ifIs | .elseIf | .otherwise | .while | .for | .function => true
  | _ => false

/-- Whether a line that starts with the token is a header or none at all. -/
def startsHeader : Token → Bool
  | .keyword k => isHeaderWord k
  | _ => false

/-- Whether a line that starts with the token goes on with a conditional. -/
def startsBranch : Token → Bool
  | .keyword .elseIf | .keyword .otherwise => true
  | _ => false

theorem startsBranch_eq_false {token : Token} :
    startsBranch token = false ↔ token ≠ .keyword .elseIf ∧ token ≠ .keyword .otherwise := by
  unfold startsBranch
  split <;> simp_all

/-! ## Statements -/

theorem declaration_plain {scope types text line tokens statement}
    (h : declaration scope types text line tokens = .ok statement) : PlainAt line statement := by
  simp only [declaration, Except.bind_eq_ok] at h
  obtain ⟨_, _, _, _, value, _, h⟩ := h
  split at h
  · cases h
  · cases Except.pure_eq_ok.mp h
    exact ⟨rfl, rfl⟩

theorem callOrExpression_plain {line tokens statement}
    (h : callOrExpression line tokens = .ok statement) : PlainAt line statement := by
  have hexpr : ∀ {result : Except ParseError Expr},
      (result.map fun expr => Statement.expression expr line) = .ok statement → PlainAt line statement := by
    intro result h
    obtain ⟨expr, -, rfl⟩ := Except.map_eq_ok.mp h
    exact ⟨rfl, rfl⟩
  have hcall : ∀ {result : Except ParseError (List Expr)} {name : String},
      (result.map fun arguments => Statement.call name arguments line) = .ok statement →
        PlainAt line statement := by
    intro result name h
    obtain ⟨arguments, -, rfl⟩ := Except.map_eq_ok.mp h
    exact ⟨rfl, rfl⟩
  unfold callOrExpression at h
  split at h
  · split at h
    · split at h
      · exact hcall h
      · split at h
        · exact hcall h
        · exact hexpr h
    · exact hexpr h
  · exact hexpr h

theorem simple_plain {line tokens statement} (h : simple line tokens = .ok statement) :
    PlainAt line statement := by
  unfold simple at h
  split at h
  · simp only [Except.bind_eq_ok, Except.pure_eq_ok] at h
    obtain ⟨_, _, _, _, _, _, rfl⟩ := h
    exact ⟨rfl, rfl⟩
  · exact callOrExpression_plain h

theorem invocation_plain {line tokens statement} (h : invocation line tokens = .ok statement) :
    PlainAt line statement := by
  unfold invocation at h
  split at h
  · cases h
  · simp only [Except.bind_eq_ok, Except.pure_eq_ok] at h
    obtain ⟨_, _, _, _, rfl⟩ := h
    exact ⟨rfl, rfl⟩

/-! ## Headers -/

theorem forHeader_word {line tokens header} (h : forHeader line tokens = .ok header) :
    header.word = .for := by
  simp only [forHeader, Except.bind_eq_ok] at h
  obtain ⟨⟨name, rest⟩, -, h⟩ := h
  cases rest with
  | nil => cases h
  | cons lexeme rest =>
    dsimp only at h
    split at h
    · obtain ⟨_, _, rfl⟩ := Except.map_eq_ok.mp h
      rfl
    · obtain ⟨_, _, rfl⟩ := Except.map_eq_ok.mp h
      rfl
    · cases h

theorem functionHeader_word {types line tokens header}
    (h : functionHeader types line tokens = .ok header) : header.word = .function := by
  simp only [functionHeader, Except.bind_eq_ok] at h
  obtain ⟨⟨name, rest⟩, -, h⟩ := h
  cases rest with
  | nil => cases h
  | cons lexeme rest =>
    dsimp only at h
    split at h
    · cases h
    split at h
    · cases h
    · obtain ⟨_, _, h⟩ := Except.bind_eq_ok.mp h
      cases Except.pure_eq_ok.mp h
      rfl

theorem header_word {keyword types line tokens result} (hk : isHeaderWord keyword = true)
    (h : header keyword types line tokens = .ok result) : result.word = keyword := by
  unfold header at h
  split at h
  · cases h
  · cases keyword with
    | ifIs | elseIf | «while» =>
      obtain ⟨_, _, rfl⟩ := Except.map_eq_ok.mp h
      rfl
    | otherwise =>
      dsimp only at h
      split at h
      · cases h
        rfl
      · cases h
    | «for» => exact forHeader_word h
    | function => exact functionHeader_word h
    | «variable» | constant | global | «from» | «to» | step | «in» | «return» | «break» | invoke => cases hk

/-! ## Lines -/

theorem keywordLine_simple {keyword types text first rest statement}
    (h : keywordLine keyword types text first rest = .ok (.simple statement)) :
    PlainAt first.line statement ∧ isHeaderWord keyword = false := by
  unfold keywordLine at h
  cases keyword with
  | «variable» | constant | global =>
    obtain ⟨_, hs, he⟩ := Except.map_eq_ok.mp h
    cases he
    exact ⟨declaration_plain hs, rfl⟩
  | ifIs | elseIf | otherwise | «while» | «for» | function =>
    obtain ⟨_, _, he⟩ := Except.map_eq_ok.mp h
    cases he
  | «return» =>
    dsimp only at h
    split at h
    · cases h
      exact ⟨⟨rfl, rfl⟩, rfl⟩
    · obtain ⟨_, _, he⟩ := Except.map_eq_ok.mp h
      cases he
      exact ⟨⟨rfl, rfl⟩, rfl⟩
  | «break» =>
    dsimp only at h
    split at h
    · cases h
      exact ⟨⟨rfl, rfl⟩, rfl⟩
    · cases h
  | invoke =>
    obtain ⟨_, hs, he⟩ := Except.map_eq_ok.mp h
    cases he
    exact ⟨invocation_plain hs, rfl⟩
  | «from» | «to» | step | «in» =>
    obtain ⟨_, hs, he⟩ := Except.map_eq_ok.mp h
    cases he
    exact ⟨simple_plain hs, rfl⟩

theorem keywordLine_header {keyword types text first rest result}
    (h : keywordLine keyword types text first rest = .ok (.header result)) : result.word = keyword := by
  unfold keywordLine at h
  cases keyword with
  | ifIs | elseIf | otherwise | «while» | «for» | function =>
    obtain ⟨_, hs, he⟩ := Except.map_eq_ok.mp h
    cases he
    exact header_word rfl hs
  | «variable» | constant | global | invoke | «from» | «to» | step | «in» =>
    obtain ⟨_, _, he⟩ := Except.map_eq_ok.mp h
    cases he
  | «return» =>
    dsimp only at h
    split at h
    · cases h
    · obtain ⟨_, _, he⟩ := Except.map_eq_ok.mp h
      cases he
  | «break» =>
    dsimp only at h
    split at h <;> cases h

/-- A line that is a statement. -/
theorem line_simple {types text first rest statement}
    (h : line types text (first :: rest) = .ok (.simple statement)) :
    PlainAt first.line statement ∧ startsHeader first.token = false := by
  rw [line] at h
  split at h
  · next keyword hk =>
    obtain ⟨hp, hw⟩ := keywordLine_simple h
    exact ⟨hp, by rw [hk]; exact hw⟩
  · next hk =>
    have hw : startsHeader first.token = false := by
      unfold startsHeader
      split
      · next k he => exact absurd he (hk k)
      · rfl
    split at h
    · obtain ⟨_, hs, he⟩ := Except.map_eq_ok.mp h
      cases he
      exact ⟨declaration_plain hs, hw⟩
    · obtain ⟨_, hs, he⟩ := Except.map_eq_ok.mp h
      cases he
      exact ⟨simple_plain hs, hw⟩

/-- A line that is a header. -/
theorem line_header {types text first rest result}
    (h : line types text (first :: rest) = .ok (.header result)) :
    first.token = .keyword result.word := by
  rw [line] at h
  split at h
  · next keyword hk => rw [hk, keywordLine_header h]
  · split at h
    · obtain ⟨_, _, he⟩ := Except.map_eq_ok.mp h
      cases he
    · obtain ⟨_, _, he⟩ := Except.map_eq_ok.mp h
      cases he

/-- Tokens without unknown text, or of a declaration, which puts up with it. -/
def Admitted (tokens : List Lexeme) : Prop :=
  (∀ lexeme ∈ tokens, isUnknown lexeme.token = false) ∨ isDeclaration tokens = true

theorem firstUnknown?_eq_none {tokens : List Lexeme} :
    firstUnknown? tokens = none ↔ ∀ lexeme ∈ tokens, isUnknown lexeme.token = false := by
  simp [firstUnknown?]

theorem lineAt_eq_ok {types text number tokens result} :
    lineAt types text number tokens = .ok result ↔
      Admitted tokens ∧ line types text tokens = .ok result := by
  rw [Admitted, ← firstUnknown?_eq_none]
  unfold lineAt
  cases hu : firstUnknown? tokens with
  | none =>
    dsimp only
    split
    · next hline => simp [hline]
    · simp
  | some e =>
    cases hd : isDeclaration tokens with
    | false =>
      dsimp only
      split <;> simp_all
    | true =>
      dsimp only
      split
      · next hline =>
        rw [if_pos rfl] at hline
        simp [hline]
      · simp

end Parse
end Guion
