import ContractHost.Proofs.ParserRules
import ContractHost.Toml.Parser
import ContractHost.Toml.Quoted

/-! Quoted texts. Each of the four forms is read back as the text inside it, the two long ones up to quotes that stand
right before the closing ones, and the form that a text is given is one that can hold it. -/

namespace ContractHost

namespace Toml

open ContractHost.Parser

variable {rest : List Char}

/-- How a character may be written between double quotes: bare, or by an escape that does not look like a joined
line. -/
inductive Spells : Char → List Char → Prop where
  | bare {char : Char} (text : isText char = true) (quote : char ≠ '"') (slash : char ≠ '\\') : Spells char [char]
  | escaped {char mark : Char} {others : List Char} (blank : isBlank mark = false) (line : mark ≠ '\n')
      (turn : mark ≠ '\r')
      (reads : ∀ tail, escape ('\\' :: mark :: (others ++ tail)) = some (char, tail)) :
      Spells char ('\\' :: mark :: others)

private theorem Spells.quote : Spells '"' ['\\', '"'] :=
  have reads : ∀ tail, escape ('\\' :: '"' :: ([] ++ tail)) = some ('"', tail) := fun _ => rfl
  .escaped (by decide) (by decide) (by decide) reads

private theorem Spells.first {char : Char} {written : List Char} (spells : Spells char written) :
    ∃ first others, written = first :: others ∧ first ≠ '"' := by
  cases spells with
  | bare _ quote _ => exact ⟨_, _, rfl, quote⟩
  | escaped => exact ⟨_, _, rfl, by decide⟩

private theorem Spells.basicChar {char : Char} {written : List Char} (spells : Spells char written) (tail : List Char) :
    basicChar (written ++ tail) = some (char, tail) := by
  cases spells with
  | bare text quote slash =>
    refine orElse_some (satisfy_some ?_)
    rw [text, bne_iff_ne.mpr quote, bne_iff_ne.mpr slash]
    rfl
  | escaped _ _ _ reads => exact (orElse_none rfl).trans (reads tail)

private theorem go_digits {digits : List Char} (hexadecimal : ∀ digit ∈ digits, isHexDigit digit = true)
    (tail : List Char) :
    codePoint.go digits.length (digits ++ tail) = some (digits, tail) := by
  induction digits with
  | nil => rfl
  | cons first others ih =>
    have later := ih (fun digit member => hexadecimal digit (List.mem_cons_of_mem _ member))
    rw [List.length_cons, codePoint.go, List.cons_append,
      bind_some (satisfy_some (hexadecimal first List.mem_cons_self)), bind_some later]
    rfl

private theorem codePoint_digits {digits : List Char} (hexadecimal : ∀ digit ∈ digits, isHexDigit digit = true)
    (valid : (number 16 digits).isValidChar) (tail : List Char) :
    codePoint digits.length (digits ++ tail) = some (Char.ofNat (number 16 digits), tail) := by
  rw [codePoint, bind_some (go_digits hexadecimal tail)]
  simp only [valid, if_true]
  rfl

/-- The escape of a character by its code has four hexadecimal digits. -/
theorem escape_code {code : Nat} (small : code < 128) (tail : List Char) :
    escape ('\\' :: 'u' :: ('0' :: '0' :: (Hex.byteDigits (UInt8.ofNat code)).map Char.toUpper ++ tail)) =
      some (Char.ofNat code, tail) := by
  have facts : ∀ code < 128,
      let digits := '0' :: '0' :: (Hex.byteDigits (UInt8.ofNat code)).map Char.toUpper
      digits.all isHexDigit = true ∧ number 16 digits = code ∧ code.isValidChar := by decide
  obtain ⟨hexadecimal, value, valid⟩ := facts code small
  have reads := codePoint_digits (List.all_eq_true.mp hexadecimal) (by rwa [value]) tail
  rw [value] at reads
  exact reads

private theorem isText_of_needsEscape {char : Char} (plain : needsEscape char = false) (line : char ≠ '\n') :
    isText char = true := by
  by_cases tab : char = '\t'
  · rw [tab]
    rfl
  · rw [needsEscape, bne_iff_ne.mpr tab, bne_iff_ne.mpr line, Bool.true_and, Bool.true_and, Bool.or_eq_false_iff,
      decide_eq_false_iff_not, Nat.not_lt] at plain
    rw [isText, decide_eq_true plain.1, bne, plain.2]
    exact Bool.or_true _

private theorem basicEscape_spells {char : Char} {long : Bool} (quote : char ≠ '"')
    (line : ¬(char = '\n' ∧ long = true)) :
    Spells char (basicEscape long char) := by
  rw [basicEscape]
  split
  · subst char
    exact .escaped (by decide) (by decide) (by decide) (fun _ => rfl)
  split
  · subst char
    exact .escaped (by decide) (by decide) (by decide) (fun _ => rfl)
  split
  next ends =>
    rw [if_neg (fun isLong => line ⟨ends, isLong⟩), ends]
    exact .escaped (by decide) (by decide) (by decide) (fun _ => rfl)
  split
  · subst char
    exact .escaped (by decide) (by decide) (by decide) (fun _ => rfl)
  split
  · subst char
    exact .escaped (by decide) (by decide) (by decide) (fun _ => rfl)
  split
  · subst char
    exact .escaped (by decide) (by decide) (by decide) (fun _ => rfl)
  split
  next code =>
    have small : char.toNat < 128 := by
      rw [needsEscape, Bool.and_eq_true, Bool.or_eq_true, decide_eq_true_eq, beq_iff_eq] at code
      omega
    refine .escaped (by decide) (by decide) (by decide) (fun tail => ?_)
    have reads := escape_code small tail
    rwa [Char.ofNat_toNat] at reads
  next plain =>
    exact .bare (isText_of_needsEscape (Bool.of_not_eq_true plain) (by assumption)) quote (by assumption)

private theorem literalString_form {text : List Char} (plain : ∀ char ∈ text, isText char = true ∧ char ≠ '\'')
    (rest : List Char) : literalString (literalForm text ++ rest) = some (String.ofList text, rest) := by
  have inside : ∀ char ∈ text, (isText char && char != '\'') = true := by
    intro char member
    rw [(plain char member).1, bne_iff_ne.mpr (plain char member).2]
    rfl
  have reads : takeWhile (fun char => isText char && char != '\'') (text ++ '\'' :: rest) = some (text, '\'' :: rest) :=
    takeWhile_append inside rfl
  have form : literalForm text ++ rest = '\'' :: (text ++ '\'' :: rest) := by
    simp [literalForm]
  rw [form, literalString, bind_some (char_same _), bind_some reads, bind_some (char_same _)]
  rfl

private theorem basicBody_char {char : Char} (quote : char ≠ '"') (long : Bool) (room run : Nat) (others : List Char) :
    basicBody long room run (char :: others) = basicEscape long char ++ basicBody long room 0 others := by
  rw [basicBody]
  exact quote

private theorem basicBody_cons (char : Char) (others : List Char) :
    ∃ written, Spells char written ∧
      basicBody false 0 0 (char :: others) = written ++ basicBody false 0 0 others := by
  by_cases quote : char = '"'
  · subst quote
    exact ⟨_, .quote, rfl⟩
  · exact ⟨_, basicEscape_spells quote (fun absurd => Bool.false_ne_true absurd.2), basicBody_char quote _ _ _ _⟩

/-- The inside of a basic string is read one character after another. -/
theorem repeats_basic (text rest : List Char) :
    Repeats basicChar (basicBody false 0 0 text ++ '"' :: rest) text ('"' :: rest) := by
  induction text with
  | nil => exact .stop rfl
  | cons char others ih =>
    obtain ⟨written, spells, body⟩ := basicBody_cons char others
    rw [body, List.append_assoc]
    refine .step (spells.basicChar _) ?_ ih
    obtain ⟨first, later, rfl, -⟩ := spells.first
    simp only [List.length_append, List.length_cons]
    omega

private theorem basic_append (text rest : List Char) :
    basic text ++ rest = '"' :: (basicBody false 0 0 text ++ '"' :: rest) := by
  simp [basic]

private theorem basicString_basic (text rest : List Char) :
    basicString (basic text ++ rest) = some (String.ofList text, rest) := by
  rw [basic_append, basicString, bind_some (char_same _), bind_some (repeats_basic text rest).many,
    bind_some (char_same _)]
  rfl

/-- The inside of a long string and the text that it stands for, after so many bare quotes: pieces that start with no
quote, and bare quotes of which no three come together. -/
inductive Inside (quote : Char) (piece : Parser (List Char)) : Nat → List Char → List Char → Prop where
  | ends {run : Nat} : Inside quote piece run [] []
  | bare {run : Nat} {written text : List Char} (room : run < 2) (further : Inside quote piece (run + 1) written text) :
      Inside quote piece run (quote :: written) (quote :: text)
  | part {run : Nat} {first : Char} {others part written text : List Char} (start : first ≠ quote)
      (reads : ∀ tail, piece (first :: (others ++ tail)) = some (part, tail))
      (further : Inside quote piece 0 written text) :
      Inside quote piece run (first :: (others ++ written)) (part ++ text)

private theorem takeWhile_run {quote : Char} (clear : rest.head? ≠ some quote) (count : Nat) :
    takeWhile (· == quote) (List.replicate count quote ++ rest) = some (List.replicate count quote, rest) := by
  refine takeWhile_append ?_ ?_
  · intro char member
    rw [(List.mem_replicate.mp member).2]
    exact beq_self_eq_true quote
  · cases rest with
    | nil => rfl
    | cons char others =>
      rw [List.takeWhile_cons_of_neg]
      rw [beq_iff_eq]
      rintro rfl
      exact clear rfl

private theorem innerQuotes_run {quote : Char} (clear : rest.head? ≠ some quote) {count : Nat}
    (few : count = 1 ∨ count = 2) :
    innerQuotes quote (List.replicate count quote ++ rest) = some (List.replicate count quote, rest) := by
  rw [innerQuotes, bind_some (takeWhile_run clear count), List.length_replicate, if_pos few]
  rfl

private theorem innerQuotes_many {quote : Char} (clear : rest.head? ≠ some quote) {count : Nat} (many : 3 ≤ count) :
    innerQuotes quote (List.replicate count quote ++ rest) = none := by
  rw [innerQuotes, bind_some (takeWhile_run clear count), List.length_replicate, if_neg (by omega)]
  rfl

private theorem closingQuotes_run {quote : Char} (clear : rest.head? ≠ some quote) {count : Nat} (few : count ≤ 2) :
    closingQuotes quote (List.replicate (count + 3) quote ++ rest) = some (List.replicate count quote, rest) := by
  have fits : 3 ≤ count + 3 ∧ count + 3 ≤ 5 := by omega
  rw [closingQuotes, bind_some (takeWhile_run clear (count + 3)), List.length_replicate, if_pos fits,
    List.drop_replicate]
  rfl

/-- Up to two quotes are a piece of their own before one that starts with no quote. -/
theorem repeats_quotes {quote : Char} {piece : Parser (List Char)} {run : Nat} {input closing : List Char}
    {pieces : List (List Char)} (blocked : ∀ tail, piece (quote :: tail) = none) (apart : input.head? ≠ some quote)
    (few : run ≤ 2) (repeats : Repeats (piece <|> innerQuotes quote) input pieces closing) :
    ∃ earlier, Repeats (piece <|> innerQuotes quote) (List.replicate run quote ++ input) (earlier ++ pieces) closing ∧
      earlier.flatten = List.replicate run quote := by
  rcases Nat.eq_zero_or_pos run with rfl | pending
  · exact ⟨[], repeats, rfl⟩
  have quotes : (piece <|> innerQuotes quote) (List.replicate run quote ++ input) =
      some (List.replicate run quote, input) := by
    refine (orElse_none ?_).trans (innerQuotes_run apart (by omega))
    obtain ⟨fewer, rfl⟩ := Nat.exists_eq_succ_of_ne_zero (Nat.ne_of_gt pending)
    exact blocked _
  refine ⟨[List.replicate run quote], .step quotes ?_ repeats, List.append_nil _⟩
  simp only [List.length_append, List.length_replicate]
  omega

/-- The quotes before the inside and those in it are read two at a time at most, and the last ones with the closing
ones. -/
theorem Inside.reads {quote : Char} {piece : Parser (List Char)} {run : Nat} {written text : List Char}
    (inside : Inside quote piece run written text) (blocked : ∀ tail, piece (quote :: tail) = none)
    (clear : rest.head? ≠ some quote) (few : run ≤ 2) :
    ∃ pieces last closing,
      Repeats (piece <|> innerQuotes quote)
        (List.replicate run quote ++ (written ++ (List.replicate 3 quote ++ rest))) pieces closing ∧
      closingQuotes quote closing = some (last, rest) ∧ pieces.flatten ++ last = List.replicate run quote ++ text := by
  induction inside with
  | @ends run =>
    have joined : List.replicate run quote ++ ([] ++ (List.replicate 3 quote ++ rest)) =
        List.replicate (run + 3) quote ++ rest := by
      rw [List.nil_append, ← List.append_assoc, List.replicate_append_replicate]
    rw [joined]
    refine ⟨[], List.replicate run quote, _, .stop ?_, closingQuotes_run clear few, (List.append_nil _).symm⟩
    exact (orElse_none (blocked _)).trans (innerQuotes_many clear (Nat.le_add_left 3 run))
  -- A bare quote joins those that are pending: nothing is read until it is known how many stand together.
  | @bare run written text room _ ih =>
    obtain ⟨pieces, last, closing, repeats, closes, whole⟩ := ih room
    have moved (tail : List Char) :
        List.replicate run quote ++ quote :: tail = List.replicate (run + 1) quote ++ tail := by
      rw [List.replicate_succ', List.append_assoc]
      rfl
    rw [List.cons_append, moved, moved]
    exact ⟨pieces, last, closing, repeats, closes, whole⟩
  | @part run first others part written text start reads _ ih =>
    obtain ⟨pieces, last, closing, repeats, closes, whole⟩ := ih (Nat.zero_le 2)
    have stepped : Repeats (piece <|> innerQuotes quote)
        (first :: (others ++ (written ++ (List.replicate 3 quote ++ rest)))) (part :: pieces) closing := by
      refine .step (orElse_some (reads _)) ?_ repeats
      simp only [List.length_append, List.length_cons, List.length_replicate]
      omega
    have apart : (first :: (others ++ (written ++ (List.replicate 3 quote ++ rest)))).head? ≠ some quote :=
      fun same => start (Option.some.inj same)
    obtain ⟨earlier, read, pending⟩ := repeats_quotes blocked apart few stepped
    rw [List.cons_append, List.append_assoc]
    refine ⟨earlier ++ part :: pieces, last, closing, read, closes, ?_⟩
    rw [List.flatten_append, List.flatten_cons, pending, List.append_assoc, List.append_assoc, whole]
    rfl

theorem newline_none {char : Char} (line : char ≠ '\n') (turn : char ≠ '\r') (tail : List Char) :
    newline (char :: tail) = none :=
  (orElse_none (char_other line)).trans (literal_other turn)

/-- A text between three quotes, on a line of its own where it has several lines, is read back from its inside. -/
theorem longString_reads {quote : Char} {piece : Parser (List Char)} {body text : List Char}
    (inside : Inside quote piece 0 body text) (blocked : ∀ tail, piece (quote :: tail) = none)
    (plain : '\n' ∉ text → ∀ tail, newline (body ++ quote :: tail) = none) (clear : rest.head? ≠ some quote) :
    longString quote piece (long quote text body ++ rest) = some (String.ofList text, rest) := by
  obtain ⟨pieces, last, closing, repeats, closes, whole⟩ := inside.reads blocked clear (Nat.zero_le 2)
  rw [List.replicate_zero, List.nil_append] at repeats whole
  have opened : ∃ found, optional newline ((if text.contains '\n' then ['\n'] else []) ++
      (body ++ (List.replicate 3 quote ++ rest))) = some (found, body ++ (List.replicate 3 quote ++ rest)) := by
    cases lines : text.contains '\n' with
    | true => exact ⟨_, optional_some (orElse_some (char_same _))⟩
    | false =>
      have none : '\n' ∉ text := by
        rw [← List.contains_iff_mem, lines]
        exact Bool.false_ne_true
      exact ⟨_, optional_none (plain none _)⟩
  obtain ⟨found, opened⟩ := opened
  have form : long quote text body ++ rest = [quote, quote, quote] ++
      ((if text.contains '\n' then ['\n'] else []) ++ (body ++ (List.replicate 3 quote ++ rest))) := by
    simp only [long, List.append_assoc]
    rfl
  rw [form, longString, bind_some (literal_append _), bind_some opened, bind_some repeats.many, bind_some closes, whole]
  rfl

private theorem newline_isText {char : Char} (text : isText char = true) (tail : List Char) :
    newline (char :: tail) = none :=
  newline_none (ne_of_accepted text (by decide)) (ne_of_accepted text (by decide)) tail

private theorem Spells.newline {char : Char} {written : List Char} (spells : Spells char written) (tail : List Char) :
    Toml.newline (written ++ tail) = none := by
  cases spells with
  | bare text _ _ => exact newline_isText text tail
  | escaped => exact newline_none (by decide) (by decide) _

theorem blanks_none {char : Char} (blank : isBlank char = false) (tail : List Char) :
    blanks (char :: tail) = some ((), char :: tail) := by
  have none : (char :: tail).takeWhile isBlank = [] :=
    List.takeWhile_cons_of_neg (by rw [blank]; exact Bool.false_ne_true)
  have reads : takeWhile isBlank ([] ++ char :: tail) = some ([], char :: tail) := takeWhile_append nofun none
  exact bind_some reads

private theorem Spells.longBasicPiece {char : Char} {written : List Char} (spells : Spells char written)
    (tail : List Char) :
    longBasicPiece (written ++ tail) = some ([char], tail) := by
  have reads := spells.basicChar tail
  have joins : lineJoin (written ++ tail) = none := by
    cases spells with
    | bare _ _ slash => exact bind_none (char_other slash)
    | escaped blank line turn _ =>
      refine (bind_some (char_same _)).trans ((bind_some (blanks_none blank _)).trans ?_)
      exact bind_none (newline_none line turn _)
  refine (orElse_none (bind_none joins)).trans (orElse_some ?_)
  rw [bind_some reads]
  rfl

private theorem inside_basic (run : Nat) (text : List Char) :
    Inside '"' longBasicPiece run (basicBody true 2 run text) text := by
  induction text generalizing run with
  | nil => exact .ends
  | cons char others ih =>
    by_cases quote : char = '"'
    · subst quote
      rw [basicBody]
      split
      next room => exact .bare room (ih _)
      next => exact .part (by decide) (Spells.quote.longBasicPiece) (ih 0)
    · rw [basicBody_char quote]
      by_cases line : char = '\n'
      · subst line
        have reads : ∀ tail, longBasicPiece ('\n' :: ([] ++ tail)) = some (['\n'], tail) := fun _ => rfl
        exact .part (by decide) reads (ih 0)
      · have spells : Spells char (basicEscape true char) := basicEscape_spells quote (fun absurd => line absurd.1)
        obtain ⟨first, later, written, start⟩ := spells.first
        rw [written] at spells ⊢
        exact .part start spells.longBasicPiece (ih 0)

/-- The length of the run that a character ends, and that of the longest one. -/
def nextRun (char : Char) (runs : Nat × Nat) (found : Char) : Nat × Nat :=
  let current := if found = char then runs.1 + 1 else 0
  (current, max runs.2 current)

private theorem le_foldl_nextRun (char : Char) (text : List Char) (runs : Nat × Nat) :
    runs.2 ≤ (text.foldl (nextRun char) runs).2 := by
  induction text generalizing runs with
  | nil => exact Nat.le_refl _
  | cons found others ih => exact Nat.le_trans (Nat.le_max_left runs.2 _) (ih (nextRun char runs found))

private theorem run_lt {char : Char} {others : List Char} {runs : Nat × Nat} {limit : Nat}
    (bounded : ((char :: others).foldl (nextRun char) runs).2 ≤ limit) : runs.1 < limit := by
  have longest := le_foldl_nextRun char others (nextRun char runs char)
  have current : runs.1 + 1 ≤ (nextRun char runs char).2 := by
    rw [nextRun, if_pos rfl]
    exact Nat.le_max_right _ _
  exact Nat.le_trans current (Nat.le_trans longest bounded)

private theorem not_mem_of_longestRun {char : Char} {text : List Char} (none : longestRun char text = 0) :
    char ∉ text := by
  intro member
  obtain ⟨front, others, rfl⟩ := List.append_of_mem member
  have bounded : ((char :: others).foldl (nextRun char) (front.foldl (nextRun char) (0, 0))).2 ≤ 0 := by
    rw [← List.foldl_append]
    exact Nat.le_of_eq none
  exact Nat.not_lt_zero _ (run_lt bounded)

private theorem inside_literal {text : List Char} {run longest : Nat}
    (plain : ∀ char ∈ text, isText char = true ∨ char = '\n')
    (bounded : (text.foldl (nextRun '\'') (run, longest)).2 ≤ 2) : Inside '\'' longLiteralPiece run text text := by
  induction text generalizing run longest with
  | nil => exact .ends
  | cons char others ih =>
    have later := fun found member => plain found (List.mem_cons_of_mem _ member)
    by_cases quote : char = '\''
    · subst quote
      exact .bare (run_lt bounded) (ih later bounded)
    · have next : nextRun '\'' (run, longest) char = (0, max longest 0) := by
        rw [nextRun, if_neg quote]
      rw [List.foldl_cons, next] at bounded
      have reads : ∀ tail, longLiteralPiece (char :: ([] ++ tail)) = some ([char], tail) := by
        intro tail
        rcases plain char List.mem_cons_self with isText | rfl
        · refine orElse_some (bind_some (satisfy_some ?_))
          rw [isText, bne_iff_ne.mpr quote]
          rfl
        · rfl
      exact .part quote reads (ih later bounded)

private theorem string_reads {text : String} {input : List Char}
    (reads : (longString '"' longBasicPiece <|> basicString <|> longString '\'' longLiteralPiece <|>
      literalString) input = some (text, rest)) : string input = some (.string text, rest) :=
  bind_some reads

/-- The empty text is why the clear rest matters: its two quotes with a third one would open a long text. -/
theorem string_basic (text : List Char) (clear : rest.head? ≠ some '"') :
    string (basic text ++ rest) = some (.string (String.ofList text), rest) := by
  have two : literal ['"', '"'] (basicBody false 0 0 text ++ '"' :: rest) = none := by
    cases text with
    | nil =>
      refine (literal_same '"' ['"']).trans ?_
      cases rest with
      | nil => rfl
      | cons char others => exact literal_other (fun same => clear (congrArg some same))
    | cons char others =>
      obtain ⟨written, spells, body⟩ := basicBody_cons char others
      obtain ⟨first, later, rfl, start⟩ := spells.first
      rw [body]
      exact literal_other start
  have short : longString '"' longBasicPiece (basic text ++ rest) = none := by
    rw [basic_append]
    exact bind_none ((literal_same '"' ['"', '"']).trans two)
  exact string_reads ((orElse_none short).trans (orElse_some (basicString_basic text rest)))

private theorem string_longBasic (text : List Char) (clear : rest.head? ≠ some '"') :
    string (longBasic text ++ rest) = some (.string (String.ofList text), rest) := by
  refine string_reads (orElse_some (longString_reads (inside_basic 0 text) (fun _ => rfl) ?_ clear))
  intro oneLine tail
  cases text with
  | nil => rfl
  | cons char others =>
    by_cases quote : char = '"'
    · subst quote
      rfl
    · have line : char ≠ '\n' := fun same => oneLine (same ▸ List.mem_cons_self)
      rw [basicBody_char quote, List.append_assoc]
      exact (basicEscape_spells quote (fun absurd => line absurd.1)).newline _

private theorem string_single {input : List Char} {text : String}
    (reads : (longString '\'' longLiteralPiece <|> literalString) ('\'' :: input) = some (text, rest)) :
    string ('\'' :: input) = some (.string text, rest) :=
  string_reads ((orElse_none rfl).trans ((orElse_none rfl).trans reads))

private theorem string_literal {text : List Char} (plain : ∀ char ∈ text, isText char = true ∧ char ≠ '\'')
    (filled : text ≠ []) : string (literalForm text ++ rest) = some (.string (String.ofList text), rest) := by
  obtain ⟨first, others, rfl⟩ := List.exists_cons_of_ne_nil filled
  have short : longString '\'' longLiteralPiece (literalForm (first :: others) ++ rest) = none :=
    bind_none ((literal_same '\'' ['\'', '\'']).trans (literal_other (plain first List.mem_cons_self).2))
  exact string_single ((orElse_none short).trans (literalString_form plain rest))

private theorem string_longLiteral {text : List Char} (plain : ∀ char ∈ text, isText char = true ∨ char = '\n')
    (bounded : longestRun '\'' text ≤ 2) (clear : rest.head? ≠ some '\'') :
    string (longLiteral text ++ rest) = some (.string (String.ofList text), rest) := by
  refine string_single (orElse_some (longString_reads (inside_literal plain bounded) (fun _ => rfl) ?_ clear))
  intro oneLine tail
  cases text with
  | nil => rfl
  | cons char others =>
    rcases plain char List.mem_cons_self with text | line
    · exact newline_isText text _
    · exact absurd (line ▸ List.mem_cons_self) oneLine

private theorem isText_of_codes {text : List Char} (codes : text.any needsEscape = false) {char : Char}
    (member : char ∈ text) :
    isText char = true ∨ char = '\n' :=
  (em (char = '\n')).symm.imp
    (isText_of_needsEscape (Bool.of_not_eq_true (List.any_eq_false.mp codes char member))) id

/-- Whatever text is quoted, the form that it is given is read back as the text. -/
theorem string_quote (text : List Char) (double : rest.head? ≠ some '"') (single : rest.head? ≠ some '\'') :
    string (quote text ++ rest) = some (.string (String.ofList text), rest) := by
  simp only [quote, Bool.and_eq_true, Bool.not_eq_true', beq_iff_eq, decide_eq_true_eq]
  split
  next => exact string_basic text double
  next bare =>
    split
    next fits =>
      obtain ⟨⟨codes, singles⟩, lines⟩ := fits
      have line : '\n' ∉ text := by
        rw [← List.contains_iff_mem, lines]
        exact Bool.false_ne_true
      refine string_literal (fun char member => ⟨?_, ?_⟩) ?_
      · exact (isText_of_codes codes member).resolve_right (fun same => line (same ▸ member))
      · rintro rfl
        exact not_mem_of_longestRun singles member
      · rintro rfl
        exact bare ⟨⟨⟨rfl, rfl⟩, rfl⟩, rfl⟩
    next =>
      split
      next => exact string_longBasic text double
      next =>
        split
        next fits => exact string_longLiteral (fun _ => isText_of_codes fits.1) fits.2 single
        next =>
          split
          · exact string_longBasic text double
          · exact string_basic text double

end Toml

end ContractHost
