import CLibs.BitStreamRoundTrip

/-!
# Syntax in a sequence of bits

A syntax is a program over any way to take a field of so many bits, so that it can be run on a list
of bits and on a stream of the source.  What relates the two ways to take a field relates the two
runs of the program.
-/

namespace CLibs.BitSyntax

open BitStrings

/-! ## Programs in two monads -/

/-- A relation between the programs of two monads that sequencing keeps. -/
structure Relating (First Second : Type → Type) [Monad First] [Monad Second] where
  Rel : {Value : Type} → First Value → Second Value → Prop
  pure : ∀ {Value : Type} (value : Value), Rel (Pure.pure value) (Pure.pure value)
  bind : ∀ {Value Result : Type} {first : First Value} {second : Second Value}
    {next : Value → First Result} {after : Value → Second Result}, Rel first second →
      (∀ value, Rel (next value) (after value)) → Rel (first >>= next) (second >>= after)

/-! ## Fields of a list -/

abbrev Reader := StateT (List Bool) Option

def field (count : Nat) : Reader Nat := fun sequence =>
  if count ≤ sequence.length then some (number (sequence.take count), sequence.drop count) else none

theorem field_some {count : Nat} {sequence : List Bool} (fits : count ≤ sequence.length) :
    field count sequence = some (number (sequence.take count), sequence.drop count) := if_pos fits

theorem field_none {count : Nat} {sequence : List Bool} (short : sequence.length < count) :
    field count sequence = none := if_neg (Nat.not_le.mpr short)

theorem field_append {first : List Bool} {count : Nat} (length : first.length = count)
    (second : List Bool) : field count (first ++ second) = some (number first, second) := by
  subst length
  rw [field_some (by simp), List.take_left, List.drop_left]

theorem field_numberBits {count value : Nat} (small : value < 2 ^ count) (rest : List Bool) :
    field count (numberBits count value ++ rest) = some (value, rest) := by
  rw [field_append (length_numberBits count value), number_numberBits, Nat.mod_eq_of_lt small]

/-- A reader takes a beginning, whatever is behind. -/
def Prefixing {Value : Type} (reader : Reader Value) : Prop :=
  ∀ sequence value rest, reader sequence = some (value, rest) →
    ∃ used, sequence = used ++ rest ∧ ∀ more, reader (used ++ more) = some (value, more)

theorem prefixing_field (count : Nat) : Prefixing (field count) := by
  intro sequence value rest found
  rcases Nat.lt_or_ge sequence.length count with short | fits
  · rw [field_none short] at found
    cases found
  · rw [field_some fits] at found
    cases found
    refine ⟨sequence.take count, (List.take_append_drop _ _).symm, fun more => ?_⟩
    exact field_append (List.length_take_of_le fits) more

theorem prefixing_pure {Value : Type} (value : Value) :
    Prefixing (Pure.pure value : Reader Value) := by
  intro sequence result rest found
  cases found
  exact ⟨[], rfl, fun _ => rfl⟩

theorem Prefixing.bind {Value Result : Type} {reader : Reader Value}
    {next : Value → Reader Result} (first : Prefixing reader)
    (second : ∀ value, Prefixing (next value)) : Prefixing (reader >>= next) := by
  intro sequence result rest found
  cases taken : reader sequence with
  | none =>
    have nothing : (reader >>= next) sequence = none := by
      change (reader sequence).bind _ = none
      rw [taken]
      rfl
    rw [nothing] at found
    cases found
  | some pair =>
    obtain ⟨value, middle⟩ := pair
    have goes : (reader >>= next) sequence = next value middle := by
      change (reader sequence).bind _ = _
      rw [taken]
      rfl
    rw [goes] at found
    obtain ⟨used, split, again⟩ := first sequence value middle taken
    obtain ⟨later, tail, repeated⟩ := second value middle result rest found
    refine ⟨used ++ later, by rw [split, tail, List.append_assoc], fun more => ?_⟩
    change (reader (used ++ later ++ more)).bind _ = _
    rw [List.append_assoc, again]
    exact repeated more

/-- `Prefixing` as a relation of a reader to itself. -/
def prefixes : Relating Reader Reader where
  Rel reader _ := Prefixing reader
  pure := prefixing_pure
  bind := Prefixing.bind

end CLibs.BitSyntax
