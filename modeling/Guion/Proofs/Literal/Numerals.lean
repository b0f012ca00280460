/-
The characters of numbers.

The texts of integers and reals, and all texts that are read as one, have only
characters that a number can start with: digits, letters, signs and points
(`numeral_of_readInt64?`, `numeral_of_readFinite?`, `numeral_formatReal`). So
no number has a separator, a quote or a backslash in it.
-/
import Guion.Proofs.Literal.Written

namespace Guion

open Decimal

namespace Value

/-- Texts of the characters that numbers and words start with. -/
def Numeral (t : List Char) : Prop := ∀ c ∈ t, startsScalar c = true

theorem Numeral.cons {c : Char} {t : List Char} (hc : startsScalar c = true) (h : Numeral t) : Numeral (c :: t) :=
  List.forall_mem_cons.mpr ⟨hc, h⟩

theorem Numeral.append {t u : List Char} (ht : Numeral t) (hu : Numeral u) : Numeral (t ++ u) :=
  List.forall_mem_append.mpr ⟨ht, hu⟩

theorem Numeral.sublist {t u : List Char} (h : Numeral u) (sub : t.Sublist u) : Numeral t :=
  fun c hc => h c (sub.subset hc)

theorem startsScalar_of_isDigit {c : Char} (h : isDigit c = true) : startsScalar c = true := by
  simp [startsScalar, h]

theorem Numeral.of_digits {t : List Char} (h : ∀ c ∈ t, isDigit c = true) : Numeral t :=
  fun c hc => startsScalar_of_isDigit (h c hc)

/-! ## Texts that are written -/

theorem numeral_digits (n : Nat) : Numeral (digits n) := .of_digits fun _ => isDigit_of_mem_digits

theorem numeral_ofInt (i : Int) : Numeral (ofInt i) := by
  unfold ofInt
  split
  · exact .cons rfl (numeral_digits _)
  · exact numeral_digits _

theorem numeral_withPoint {places : Nat} {t : List Char} (h : Numeral t) : Numeral (withPoint places t) := by
  have padded : Numeral (padZeros (places + 1) t) :=
    .append (fun c hc => by rw [List.eq_of_mem_replicate hc]; rfl) h
  unfold withPoint
  split
  · exact h
  · exact .append (padded.sublist (List.take_sublist _ _)) (.cons rfl (padded.sublist (List.drop_sublist _ _)))

theorem numeral_scientificMagnitude (places units : Nat) : Numeral (scientificMagnitude places units).1 := by
  simp only [scientificMagnitude]
  split <;> exact numeral_withPoint (numeral_digits _)

theorem Numeral.trimFraction {t : List Char} (h : Numeral t) : Numeral (Number.trimFraction t) := by
  unfold Number.trimFraction
  split
  · refine h.sublist (List.reverse_sublist.mp ?_)
    rw [List.reverse_reverse]
    exact (List.dropWhile_sublist _).trans (List.dropWhile_sublist _)
  · exact h

theorem numeral_formatMagnitude (x : Binary64) : Numeral (Number.formatMagnitude x) := by
  simp only [Number.formatMagnitude]
  split
  · exact .append (numeral_scientificMagnitude _ _).trimFraction (.cons rfl (numeral_ofInt _))
  · exact (numeral_withPoint (numeral_digits _)).trimFraction

theorem numeral_formatReal (x : Binary64) : Numeral (Number.formatReal x) := by
  unfold Number.formatReal
  split
  · exact fun c hc => List.all_eq_true.mp rfl c hc
  · split <;> exact fun c hc => List.all_eq_true.mp rfl c hc
  · split
    · exact .cons rfl nofun
    simp only
    split
    · exact .cons rfl (numeral_formatMagnitude _)
    · exact numeral_formatMagnitude _

/-! ## Texts that are read -/

theorem numeral_of_readRun? {value : List Char → Nat} {t : List Char} {n : Nat} (h : readRun? value t = some n) :
    Numeral t := by
  unfold readRun? at h
  split at h
  · cases h
  · next run =>
    simp only [Bool.or_eq_true, Bool.not_eq_true', not_or, Bool.not_eq_false] at run
    exact .of_digits (List.all_eq_true.mp run.2)

theorem numeral_of_readSigned? {value : List Char → Nat} {t : List Char} {i : Int}
    (h : readSigned? value t = some i) : Numeral t := by
  unfold readSigned? at h
  split at h <;> obtain ⟨n, run, -⟩ := Option.map_eq_some_iff.mp h
  · exact .cons rfl (numeral_of_readRun? run)
  · exact .cons rfl (numeral_of_readRun? run)
  · exact numeral_of_readRun? run

theorem numeral_of_readInt64? {t : List Char} {i : Int64} (h : readInt64? t = some i) : Numeral t := by
  obtain ⟨_, signed, -⟩ := Option.bind_eq_some_iff.mp h
  exact numeral_of_readSigned? signed

theorem numeral_of_readExponent? {t : List Char} {i : Int} (h : readExponent? t = some i) : Numeral t := by
  unfold readExponent? at h
  split at h
  · exact nofun
  · split at h
    · next mark => exact .cons (by obtain rfl | rfl := mark <;> rfl) (numeral_of_readSigned? h)
    · cases h

/-- A text is a numeral if what its first digits leave is one. -/
theorem Numeral.of_dropWhile {t : List Char} (h : Numeral (t.dropWhile isDigit)) : Numeral t := by
  rw [← List.takeWhile_append_dropWhile (p := isDigit) (l := t)]
  exact .append (.of_digits (List.all_eq_true.mp List.all_takeWhile)) h

theorem numeral_of_readUnsigned? {negative : Bool} {t : List Char} {x : Binary64}
    (h : readUnsigned? negative t = some x) : Numeral t := by
  -- Whether there is a point or not, an exponent or nothing is behind the digits.
  simp only [readUnsigned?] at h
  refine .of_dropWhile ?_
  split at h
  · next rest point =>
    split at h
    · cases h
    obtain ⟨i, exponent, -⟩ := Option.bind_eq_some_iff.mp h
    rw [point]
    exact .cons rfl (.of_dropWhile (numeral_of_readExponent? exponent))
  · split at h
    · cases h
    obtain ⟨i, exponent, -⟩ := Option.bind_eq_some_iff.mp h
    exact numeral_of_readExponent? exponent

/-- A word for a number that is not finite has letters only. -/
theorem numeral_of_toLower {t : List Char} {word : String} (h : String.ofList (t.map Char.toLower) = word)
    (letters : word.toList.all Number.isAsciiLetter = true) : Numeral t := by
  intro c hc
  have lower : Number.isAsciiLetter c.toLower = true := by
    refine List.all_eq_true.mp letters _ ?_
    rw [← h, String.toList_ofList]
    exact List.mem_map_of_mem hc
  have letter : Number.isAsciiLetter c = true := by
    cases hl : Number.isAsciiLetter c with
    | true => rfl
    | false => rwa [toLower_of_not_isAsciiLetter hl, hl] at lower
  simp [startsScalar, letter]

theorem numeral_of_readMagnitude? {negative : Bool} {t : List Char} {x : Binary64}
    (h : readMagnitude? negative t = some x) : Numeral t := by
  unfold readMagnitude? at h
  split at h
  · next word => exact numeral_of_toLower word rfl
  · next word => exact numeral_of_toLower word rfl
  · next word => exact numeral_of_toLower word rfl
  · exact numeral_of_readUnsigned? h

theorem numeral_of_readFinite? {t : List Char} {x : Binary64} (h : Number.readFinite? t = some x) : Numeral t := by
  unfold Number.readFinite? at h
  split at h
  · cases h
  have read : readBinary64? t = some x := Option.eq_some_of_filter_eq_some h
  unfold readBinary64? at read
  split at read
  · exact .cons rfl (numeral_of_readMagnitude? read)
  · exact .cons rfl (numeral_of_readMagnitude? read)
  · exact numeral_of_readMagnitude? read

end Value
end Guion
