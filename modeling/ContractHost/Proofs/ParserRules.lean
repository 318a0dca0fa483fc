import Mathlib.Data.List.TakeWhile
import ContractHost.Parser

/-! How parsers go on. What a parser reads from the front of a text decides what is read next, alternatives are tried
in turn from one place, and repeated reading follows the steps that it takes. -/

namespace ContractHost

namespace Parser

variable {α β : Type} {parser first second : Parser α} {next : α → Parser β} {input middle rest : List Char} {value : α}

theorem bind_some (reads : parser input = some (value, rest)) : (parser >>= next) input = next value rest := by
  simp only [Bind.bind, andThen, reads]

theorem bind_none (fails : parser input = none) : (parser >>= next) input = none := by
  simp only [Bind.bind, andThen, fails]

theorem of_bind {result : β × List Char} (reads : (parser >>= next) input = some result) :
    ∃ value middle, parser input = some (value, middle) ∧ next value middle = some result := by
  cases found : parser input with
  | none =>
    rw [bind_none found] at reads
    cases reads
  | some found' =>
    rw [bind_some found] at reads
    exact ⟨_, _, rfl, reads⟩

/-- What follows decides, whatever was read before. -/
theorem bind_blocked (blocked : ∀ value middle, parser input = some (value, middle) → next value middle = none) :
    (parser >>= next) input = none := by
  cases found : (parser >>= next) input with
  | none => rfl
  | some result =>
    obtain ⟨value, middle, reads, later⟩ := of_bind found
    rw [blocked value middle reads] at later
    cases later

theorem orElse_some {result : α × List Char} (reads : first input = some result) :
    (first <|> second) input = some result := by
  simp only [HOrElse.hOrElse, OrElse.orElse, either, reads]

theorem orElse_none (fails : first input = none) : (first <|> second) input = second input := by
  simp only [HOrElse.hOrElse, OrElse.orElse, either, fails]

theorem optional_some (reads : parser input = some (value, rest)) :
    optional parser input = some (some value, rest) := by
  rw [optional, either, bind_some reads]
  rfl

theorem optional_none (fails : parser input = none) : optional parser input = some (none, input) := by
  rw [optional, either, bind_none fails]
  rfl

theorem satisfy_some {accept : Char → Bool} {char : Char} (accepted : accept char = true) :
    satisfy accept (char :: rest) = some (char, rest) :=
  if_pos accepted

theorem of_satisfy {accept : Char → Bool} {char : Char} (reads : satisfy accept input = some (char, rest)) :
    input = char :: rest ∧ accept char = true := by
  cases input with
  | nil => cases reads
  | cons first others =>
    rw [satisfy] at reads
    split at reads
    next accepted =>
      cases reads
      exact ⟨rfl, accepted⟩
    next => cases reads

theorem of_char {expected : Char} (reads : char expected input = some ((), rest)) : input = expected :: rest := by
  cases input with
  | nil => cases reads
  | cons first others =>
    rw [char] at reads
    split at reads
    next same =>
      cases reads
      rw [same]
    next => cases reads

theorem ne_of_accepted {accept : Char → Bool} {char other : Char} (accepted : accept char = true)
    (refused : accept other = false) : char ≠ other := by
  rintro rfl
  exact Bool.false_ne_true (refused.symm.trans accepted)

theorem char_same (expected : Char) : char expected (expected :: rest) = some ((), rest) := if_pos rfl

theorem char_other {expected found : Char} (other : found ≠ expected) : char expected (found :: rest) = none :=
  if_neg other

theorem literal_same (expected : Char) (others : List Char) :
    literal (expected :: others) (expected :: rest) = literal others rest :=
  bind_some (char_same expected)

theorem literal_append (text : List Char) : literal text (text ++ rest) = some ((), rest) := by
  induction text with
  | nil => rfl
  | cons first others ih =>
    rw [List.cons_append, literal_same]
    exact ih

theorem literal_other {expected found : Char} {others : List Char} (other : found ≠ expected) :
    literal (expected :: others) (found :: rest) = none :=
  bind_none (char_other other)

theorem takeWhile_append {accept : Char → Bool} {run : List Char} (accepted : ∀ char ∈ run, accept char = true)
    (stops : rest.takeWhile accept = []) : takeWhile accept (run ++ rest) = some (run, rest) := by
  have left : rest.dropWhile accept = rest := by
    have whole := List.takeWhile_append_dropWhile (p := accept) (l := rest)
    rwa [stops] at whole
  rw [takeWhile, List.takeWhile_append_of_pos accepted, List.dropWhile_append_of_pos accepted, stops, left,
    List.append_nil]

/-- Reading again and again: every step reads something, and where the parser fails the reading is over. -/
inductive Repeats (parser : Parser α) : List Char → List α → List Char → Prop where
  | stop {input : List Char} (fails : parser input = none) : Repeats parser input [] input
  | step {input middle rest : List Char} {value : α} {values : List α} (reads : parser input = some (value, middle))
      (shorter : middle.length < input.length) (further : Repeats parser middle values rest) :
      Repeats parser input (value :: values) rest

/-- A run of characters that are each read as themselves. -/
theorem Repeats.run {parser : Parser Char} {chars : List Char}
    (each : ∀ char ∈ chars, ∀ tail, parser (char :: tail) = some (char, tail)) (fails : parser rest = none) :
    Repeats parser (chars ++ rest) chars rest := by
  induction chars with
  | nil => exact .stop fails
  | cons first others ih =>
    exact .step (each first List.mem_cons_self _) (Nat.lt_succ_self _)
      (ih (fun char member => each char (List.mem_cons_of_mem _ member)))

private theorem Repeats.collect {values : List α} (repeats : Repeats parser input values rest) {bound : List Char}
    (enough : input.length ≤ bound.length) : collect parser bound input = (values, rest) := by
  induction repeats generalizing bound with
  | stop fails =>
    cases bound with
    | nil => rfl
    | cons => simp only [Parser.collect, fails]
  | step reads shorter _ ih =>
    cases bound with
    | nil => exact absurd enough (by simp only [List.length_nil]; omega)
    | cons char bound =>
      rw [List.length_cons] at enough
      simp only [Parser.collect, reads, ih (Nat.le_of_lt_succ (Nat.lt_of_lt_of_le shorter enough))]

theorem Repeats.many {values : List α} (repeats : Repeats parser input values rest) :
    many parser input = some (values, rest) := by
  rw [Parser.many, repeats.collect (Nat.le_refl _)]

end Parser

end ContractHost
