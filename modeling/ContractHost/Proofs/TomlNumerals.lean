import Mathlib.Data.List.Basic
import ContractHost.Proofs.Numerals
import ContractHost.Proofs.ParserRules
import ContractHost.Toml.Parser

/-! Decimal numbers at the end of a line. None of the longer forms that start with digits goes on with a line end, so
that dates, times and floats all fail on them, and the number is read as it was written. -/

namespace ContractHost

namespace Toml

open ContractHost.Parser

/-- Digits up to the end of a line. -/
def DigitLine (input : List Char) : Prop :=
  ∃ run tail, input = run ++ '\n' :: tail ∧ ∀ char ∈ run, isDigit char = true

variable {input rest : List Char}

namespace DigitLine

private theorem of_cons {char : Char} (held : DigitLine (char :: rest)) (digit : isDigit char = true) :
    DigitLine rest := by
  obtain ⟨run, tail, form, digits⟩ := held
  cases run with
  | nil =>
    cases form
    exact absurd digit (by decide)
  | cons first others =>
    cases form
    exact ⟨others, tail, rfl, fun char member => digits char (List.mem_cons_of_mem _ member)⟩

/-- No mark stands between the digits and the line end. -/
theorem char_none (held : DigitLine input) {mark : Char} (other : isDigit mark = false) (line : mark ≠ '\n') :
    char mark input = none := by
  obtain ⟨run, tail, rfl, digits⟩ := held
  cases run with
  | nil => exact char_other line.symm
  | cons first others => exact char_other (ne_of_accepted (digits first List.mem_cons_self) other)

private theorem digits (held : DigitLine input) {count : Nat} {read : List Char}
    (reads : Toml.digits count input = some (read, rest)) : DigitLine rest := by
  induction count generalizing input read with
  | zero =>
    cases reads
    exact held
  | succ count ih =>
    obtain ⟨first, middle, one, later⟩ := of_bind reads
    obtain ⟨others, left, two, ended⟩ := of_bind later
    obtain ⟨rfl, digit⟩ := of_satisfy one
    cases ended
    exact ih (held.of_cons digit) two

private theorem bounded (held : DigitLine input) {count low high value : Nat}
    (reads : Toml.bounded count low high input = some (value, rest)) : DigitLine rest := by
  obtain ⟨read, middle, found, ended⟩ := of_bind reads
  have left := held.digits found
  by_cases fits : low ≤ number 10 read ∧ number 10 read ≤ high
  · rw [if_pos fits] at ended
    cases ended
    exact left
  · rw [if_neg fits] at ended
    cases ended

private theorem sign (held : DigitLine input) : Toml.sign input = some (false, input) :=
  (orElse_none (bind_none (held.char_none (by decide) (by decide)))).trans
    (orElse_none (bind_none (held.char_none (by decide) (by decide))))

private theorem based (held : DigitLine input) {mark : Char} (other : isDigit mark = false) (line : mark ≠ '\n')
    (base : Nat) (accept : Char → Bool) : Toml.based mark base accept input = none := by
  refine bind_none (bind_blocked (fun _ middle zero => ?_))
  rw [of_char zero] at held
  exact bind_none ((held.of_cons (by decide)).char_none other line)

private theorem date (held : DigitLine input) : Toml.date input = none :=
  bind_blocked (fun _ _ reads => bind_none ((held.bounded reads).char_none (by decide) (by decide)))

private theorem clock (held : DigitLine input) : Toml.clock input = none :=
  bind_blocked (fun _ _ reads => bind_none ((held.bounded reads).char_none (by decide) (by decide)))

private theorem time (held : DigitLine input) : Toml.time input = none :=
  bind_none ((orElse_none (bind_none held.date)).trans held.clock)

private theorem string (held : DigitLine input) : Toml.string input = none := by
  have double : char '"' input = none := held.char_none (by decide) (by decide)
  have single : char '\'' input = none := held.char_none (by decide) (by decide)
  refine bind_none ((orElse_none (bind_none (bind_none double))).trans ?_)
  refine (orElse_none (bind_none double)).trans ?_
  exact (orElse_none (bind_none (bind_none single))).trans (bind_none single)

end DigitLine

private theorem number_toDigits (value : Nat) : number 10 (Nat.toDigits 10 value) = value := by
  have same : number 10 (Nat.toDigits 10 value) = Json.decimal (Nat.toDigits 10 value) := by
    refine List.foldl_ext _ _ _ (fun total char member => ?_)
    have digit := Json.isDigit_of_mem_toDigits member
    rw [Json.isDigit, Bool.and_eq_true, decide_eq_true_eq, decide_eq_true_eq] at digit
    have small : char.toNat ≤ 57 := digit.2
    rw [digitValue, if_pos small]
  rw [same, Json.decimal_toDigits]

private theorem digitLine_toDigits (value : Nat) (tail : List Char) :
    DigitLine (Nat.toDigits 10 value ++ '\n' :: tail) :=
  ⟨_, _, rfl, fun _ => Json.isDigit_of_mem_toDigits⟩

private theorem wholeDigits_toDigits (value : Nat) (tail : List Char) :
    wholeDigits (Nat.toDigits 10 value ++ '\n' :: tail) = some (Nat.toDigits 10 value, '\n' :: tail) := by
  rcases Nat.eq_zero_or_pos value with rfl | positive
  · rfl
  have digits : ∀ char ∈ Nat.toDigits 10 value, isDigit char = true := fun _ => Json.isDigit_of_mem_toDigits
  have front := Json.head?_toDigits positive
  obtain ⟨first, others, form⟩ := List.exists_cons_of_ne_nil (Nat.toDigits_ne_nil (b := 10) (n := value))
  rw [form] at digits front ⊢
  have nonzero : first ≠ '0' := fun same => front (congrArg some same)
  have run : Repeats (satisfy isDigit <|> (do char '_'; satisfy isDigit)) (others ++ '\n' :: tail) others
      ('\n' :: tail) :=
    .run (fun char member tail => orElse_some (satisfy_some (digits char (List.mem_cons_of_mem _ member)))) rfl
  rw [wholeDigits, List.cons_append, bind_some (satisfy_some (digits first List.mem_cons_self)), if_neg nonzero,
    bind_some run.many]
  rfl

/-- Neither a fraction nor an exponent follows. -/
theorem float_toDigits (value : Nat) (tail : List Char) : float (Nat.toDigits 10 value ++ '\n' :: tail) = none := by
  have held := digitLine_toDigits value tail
  have special : ((literal ['i', 'n', 'f'] <|> literal ['n', 'a', 'n'] : Parser Unit) >>= fun _ => done Node.float)
      (Nat.toDigits 10 value ++ '\n' :: tail) = none :=
    bind_none ((orElse_none (bind_none (held.char_none (by decide) (by decide)))).trans
      (bind_none (held.char_none (by decide) (by decide))))
  refine (bind_some held.sign).trans ((orElse_none special).trans ?_)
  rw [bind_some (wholeDigits_toDigits value tail)]
  rfl

/-- A number below the bound is read back from its digits on a line. -/
theorem scalar_integer {value : Nat} (small : (value : Int) < integerBound) (tail : List Char) :
    scalar (Nat.toDigits 10 value ++ '\n' :: tail) = some (.integer value, '\n' :: tail) := by
  have held := digitLine_toDigits value tail
  have reads : decimal (Nat.toDigits 10 value ++ '\n' :: tail) = some (.integer value, '\n' :: tail) := by
    have fits : -integerBound ≤ (value : Int) ∧ (value : Int) < integerBound :=
      ⟨Int.le_trans (by decide) (Int.natCast_nonneg value), small⟩
    rw [decimal, bind_some held.sign, bind_some (wholeDigits_toDigits value tail), number_toDigits]
    simp only [Bool.false_eq_true, if_false]
    rw [ofRange, if_pos fits]
    rfl
  have whole : integer (Nat.toDigits 10 value ++ '\n' :: tail) = some (.integer value, '\n' :: tail) :=
    (orElse_none (held.based (by decide) (by decide) _ _)).trans
      ((orElse_none (held.based (by decide) (by decide) _ _)).trans
        ((orElse_none (held.based (by decide) (by decide) _ _)).trans reads))
  exact (orElse_none held.string).trans ((orElse_none held.time).trans
    ((orElse_none (float_toDigits value tail)).trans (orElse_some whole)))

end Toml

end ContractHost
