/-!
# Digits

Numbers in a radix of at most sixteen.  Digits beyond nine are letters, written in lower case and
read in either; digits other than those of ASCII are not read.  What is written in decimal reads
back (`number?_decimal`).
-/
namespace ImportAtlas
namespace Text

/-- The digit of a number below sixteen. -/
def digit (n : Nat) : Char :=
  if n < 10 then Char.ofNat ('0'.toNat + n) else Char.ofNat ('a'.toNat + (n - 10))

/-- The value of a digit, if the radix has it. -/
def digitValue? (radix : Nat) (c : Char) : Option Nat :=
  let n := if '0' ≤ c ∧ c ≤ '9' then c.toNat - '0'.toNat
    else if 'a' ≤ c ∧ c ≤ 'f' then c.toNat - 'a'.toNat + 10
    else if 'A' ≤ c ∧ c ≤ 'F' then c.toNat - 'A'.toNat + 10
    else radix
  if n < radix then some n else none

theorem digitValue?_digit_ten : ∀ n < 10, digitValue? 10 (digit n) = some n := by decide

theorem digitValue?_digit_sixteen : ∀ n < 16, digitValue? 16 (digit n) = some n := by decide

/-- The number that values of digits spell, the greatest place first. -/
def spelled (radix : Nat) (values : List Nat) : Nat := values.foldl (fun n d => radix * n + d) 0

/-- The number that a row of at least one digit spells. -/
def number? (radix : Nat) (ds : List Char) : Option Nat :=
  if ds = [] then none else (ds.mapM (digitValue? radix)).map (spelled radix)

/-- A number that fits 64 bits. -/
def word64? (radix : Nat) (ds : List Char) : Option UInt64 :=
  ((number? radix ds).filter (· < UInt64.size)).map .ofNat

/-- The number in decimal. -/
def decimal (n : Nat) : List Char :=
  if n < 10 then [digit n] else decimal (n / 10) ++ [digit (n % 10)]

theorem spelled_append_singleton (radix : Nat) (values : List Nat) (d : Nat) :
    spelled radix (values ++ [d]) = radix * spelled radix values + d := by
  simp [spelled]

theorem decimal_ne_nil (n : Nat) : decimal n ≠ [] := by
  unfold decimal
  split <;> simp

theorem mapM_digitValue?_decimal (n : Nat) :
    ∃ values, (decimal n).mapM (digitValue? 10) = some values ∧ spelled 10 values = n := by
  induction n using Nat.strongRecOn with
  | ind n ih =>
    unfold decimal
    split
    · next h => exact ⟨[n], by simp [digitValue?_digit_ten n h], by simp [spelled]⟩
    · next h =>
      obtain ⟨values, hv, hs⟩ := ih (n / 10) (by omega)
      refine ⟨values ++ [n % 10], ?_, ?_⟩
      · simp [List.mapM_append, hv, digitValue?_digit_ten (n % 10) (by omega)]
      · rw [spelled_append_singleton, hs]
        omega

/-- **A number written in decimal reads back.** -/
theorem number?_decimal (n : Nat) : number? 10 (decimal n) = some n := by
  obtain ⟨values, hv, hs⟩ := mapM_digitValue?_decimal n
  rw [number?, if_neg (decimal_ne_nil n), hv, Option.map_some, hs]

end Text
end ImportAtlas
