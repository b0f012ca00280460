/-
Texts joined and cut again.

A piece leaves nothing open when it is read from where nothing is open, and
holds the separator only where something is open. Its brackets need not match:
a closing bracket too many is ignored, and any bracket closes any other.
Pieces with separators between them are cut where they were joined
(`splitTopLevel_intercalate`).

The scan has the same state at every place of joining. Depth and quotes are
back where they started by what a piece is; that no backslash waits for its
character follows, since it waits only inside quotes (`Nesting.behind_eq_top`).
Between two such places the scan passes over a piece and takes its characters
into the piece that it reads (`splitTopLevelFrom_append`).
-/
import Guion.Proofs.Literal.Closed

namespace Guion.Text

/-! ## What is open behind a text -/

namespace Nesting

/-- What is open behind a text, from what is open in front of it. -/
def behind (n : Nesting) (text : List Char) : Nesting := text.foldl step n

/-- A backslash waits for the character that it escapes only inside quotes. -/
def Sound (n : Nesting) : Prop := n.escaped = true → n.quoted = true

theorem Sound.step {n : Nesting} (h : n.Sound) (c : Char) : (n.step c).Sound := by
  unfold Nesting.step
  split
  · next quoted =>
    split
    · exact fun waits => nomatch waits
    split
    · exact fun _ => quoted
    split
    · next calm _ _ => exact fun waits => absurd waits calm
    · exact fun _ => quoted
  · next unquoted =>
    have calm : n.escaped ≠ true := fun waits => unquoted (h waits)
    split
    · exact fun _ => rfl
    split
    · exact fun waits => absurd waits calm
    split
    · exact fun waits => absurd waits calm
    · exact h

theorem Sound.behind {n : Nesting} (h : n.Sound) (text : List Char) : (n.behind text).Sound := by
  induction text generalizing n with
  | nil => exact h
  | cons c rest ih => exact ih (h.step c)

theorem Sound.eq_top {n : Nesting} (h : n.Sound) (top : n.isTop = true) : n = {} := by
  obtain ⟨depth, quoted, escaped⟩ := n
  simp only [isTop, Bool.and_eq_true, beq_iff_eq, Bool.not_eq_true'] at top
  obtain ⟨rfl, rfl⟩ := top
  cases escaped with
  | true => cases h rfl
  | false => rfl

/-- Where nothing is open, the scan is as it was at the start. -/
theorem behind_eq_top {text : List Char} (h : (behind {} text).isTop = true) : behind {} text = {} :=
  (Sound.behind (fun waits => waits) text).eq_top h

end Nesting

/-- A text that leaves nothing open, and holds the separator only where something is. -/
structure Piece (separator : Char) (text : List Char) : Prop where
  leaves : (Nesting.behind {} text).isTop = true
  inside : ∀ before after, text = before ++ separator :: after → (Nesting.behind {} before).isTop = false

instance (separator : Char) (text : List Char) : Decidable (Piece separator text) :=
  decidable_of_iff
    ((Nesting.behind {} text).isTop = true ∧
      ∀ i < text.length, text[i]? = some separator → (Nesting.behind {} (text.take i)).isTop = false)
    ⟨fun ⟨leaves, inside⟩ => ⟨leaves, fun before after cut => by
        have unfinished := inside before.length (by simp [cut]) (by simp [cut])
        rwa [cut, List.take_left] at unfinished⟩,
      fun h => ⟨h.leaves, fun i hi hc => h.inside _ (text.drop (i + 1)) (by
        obtain ⟨_, rfl⟩ := List.getElem?_eq_some_iff.mp hc
        rw [← List.drop_eq_getElem_cons hi, List.take_append_drop])⟩⟩

/-! ## Passing over a piece -/

section Splitter

variable {separator : Char}

/-- The splitter passes over a text that holds the separator only where something is open. -/
theorem splitTopLevelFrom_append {n : Nesting} {text : List Char}
    (inside : ∀ before after, text = before ++ separator :: after → (n.behind before).isTop = false)
    (piece rest : List Char) :
    splitTopLevelFrom [separator] n piece 0 (text ++ rest) =
      splitTopLevelFrom [separator] (n.behind text) (text.reverse ++ piece) 0 rest := by
  induction text generalizing n piece with
  | nil => rfl
  | cons c more ih =>
    have passes : (n.isTop && isPlain c && [separator].isPrefixOf (c :: (more ++ rest))) = false := by
      by_cases hc : separator = c
      · have closed : n.isTop = false := inside [] more (by rw [hc]; rfl)
        rw [closed, Bool.false_and, Bool.false_and]
      · simp [List.isPrefixOf, hc]
    have further : ∀ before after, more = before ++ separator :: after →
        ((n.step c).behind before).isTop = false := by
      rintro before after rfl
      exact inside (c :: before) after rfl
    rw [List.cons_append, splitTopLevelFrom_step passes, ih further, List.reverse_cons, List.append_assoc]
    rfl

variable {pieces : List (List Char)}

theorem Piece.splitTopLevelFrom {piece : List Char} (h : Piece separator piece) (rest : List Char) :
    splitTopLevelFrom [separator] {} [] 0 (piece ++ rest) =
      splitTopLevelFrom [separator] {} piece.reverse 0 rest := by
  rw [splitTopLevelFrom_append h.inside, Nesting.behind_eq_top h.leaves, List.append_nil]

/-- Joined pieces are cut at the separators between them. -/
theorem splitTopLevelFrom_intercalate (plain : isPlain separator = true) (some : pieces ≠ [])
    (h : ∀ piece ∈ pieces, Piece separator piece) :
    splitTopLevelFrom [separator] {} [] 0 ([separator].intercalate pieces) = pieces.map trim := by
  induction pieces with
  | nil => exact absurd rfl some
  | cons piece more ih =>
    obtain ⟨hp, h⟩ := List.forall_mem_cons.mp h
    cases more with
    | nil =>
      have last := hp.splitTopLevelFrom []
      rw [List.append_nil] at last
      rw [List.intercalate_singleton, last, Text.splitTopLevelFrom, List.reverse_reverse]
      rfl
    | cons next more =>
      rw [List.intercalate_cons_cons, List.append_assoc, hp.splitTopLevelFrom, List.singleton_append,
        Text.splitTopLevelFrom, if_pos (by simp [Nesting.isTop, plain, List.isPrefixOf]), List.reverse_reverse]
      exact congrArg (trim piece :: ·) (ih (List.cons_ne_nil _ _) h)

end Splitter

/-! ## Joined pieces -/

/-- Joined pieces are blank exactly if there is but one, and it is. -/
theorem trim_intercalate_eq_nil_iff {separator : Char} {pieces : List (List Char)}
    (visible : isBlank separator = false) (some : pieces ≠ []) :
    trim ([separator].intercalate pieces) = [] ↔ pieces.map trim = [[]] := by
  match pieces, some with
  | [piece], _ => rw [List.intercalate_singleton]; simp
  | piece :: next :: more, _ =>
    rw [List.intercalate_cons_cons, trim_eq_nil_iff]
    constructor
    · intro blank
      exact absurd (blank separator (by simp)) (by simp [visible])
    · exact fun single => by simp at single

/-- **The splitter inverts joining.** Pieces that are joined by a separator come back
in order, each trimmed, if the separator is one character that is neither blank
nor a quote nor a bracket. A blank text has no pieces, so one blank piece is lost. -/
theorem splitTopLevel_intercalate {separator : Char} {pieces : List (List Char)}
    (visible : isBlank separator = false) (plain : isPlain separator = true) (some : pieces ≠ [])
    (h : ∀ piece ∈ pieces, Piece separator piece) :
    splitTopLevel [separator] ([separator].intercalate pieces) =
      if pieces.map trim = [[]] then [] else pieces.map trim := by
  have lost := trim_intercalate_eq_nil_iff visible some
  by_cases blank : pieces.map trim = [[]]
  · rw [splitTopLevel, if_pos (List.isEmpty_iff.mpr (lost.mpr blank)), if_pos blank]
  · rw [splitTopLevel, if_neg (mt List.isEmpty_iff.mp (mt lost.mp blank)), if_neg (by simp),
      splitTopLevelFrom_intercalate plain some h, if_neg blank]

/-- Separators in brackets and in quotes, an escaped quote, a bracket too many, a piece
without characters; and one blank piece alone. -/
theorem splitTopLevel_intercalate_commas :
    let pieces := [" 1".toList, "[2, 3]".toList, "\"a,\\\",\" ".toList, ")".toList, []]
    (isBlank ',' = false ∧ isPlain ',' = true ∧ ∀ piece ∈ pieces, Piece ',' piece) ∧
    splitTopLevel [','] ([','].intercalate pieces) =
      ["1".toList, "[2, 3]".toList, "\"a,\\\",\"".toList, ")".toList, []] ∧
    splitTopLevel [','] ([','].intercalate ["  ".toList]) = [] := by
  intro pieces
  have each : ∀ piece ∈ pieces, Piece ',' piece := by decide
  refine ⟨⟨rfl, rfl, each⟩, ?_, ?_⟩
  · exact splitTopLevel_intercalate rfl rfl (List.cons_ne_nil _ _) each
  · exact splitTopLevel_intercalate rfl rfl (List.cons_ne_nil _ _) (by decide)

end Guion.Text
