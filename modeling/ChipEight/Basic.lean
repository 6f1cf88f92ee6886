/-!
# Digits, addresses, numerals and tables

The machine counts many things by sixteens: registers, keys, the rows of a sprite. Each of them is
one hexadecimal digit, and where a wider number names one, its lowest digit counts. Addresses are
twelve bits wide, and where a wider number names one, its lowest twelve bits count.
-/

namespace ChipEight

/-! ## Digits and addresses -/

/-- A hexadecimal digit. -/
abbrev Digit := Fin 16

/-- The lowest digit of a number. -/
def Digit.lowest (n : Nat) : Digit :=
  ⟨n % 16, by omega⟩

theorem Digit.val_lowest (n : Nat) : (Digit.lowest n).val = n % 16 :=
  rfl

/-- The address of a byte of memory. -/
abbrev Address := Fin 4096

/-- The address in the lowest twelve bits of a number. -/
def Address.lowest (n : Nat) : Address :=
  ⟨n % 4096, by omega⟩

theorem Address.val_lowest (n : Nat) : (Address.lowest n).val = n % 4096 :=
  rfl

theorem Address.lowest_eq_iff {a b : Nat} :
    Address.lowest a = Address.lowest b ↔ a % 4096 = b % 4096 := by
  simp [Address.lowest]

/-! ## Hexadecimal numerals

Messages show addresses, words and register numbers in upper-case hexadecimal. A numeral may be
padded on the left with zeros; a number that needs more digits than the width asks for keeps them
all. -/

namespace Hex

/-- The digits of `n`, most significant first, without leading zeros. -/
def digits (n : Nat) : List Char :=
  (Nat.toDigits 16 n).map Char.toUpper

def numeral (n : Nat) : String :=
  String.ofList (digits n)

/-- The numeral of `n` with at least `width` digits. -/
def padded (width n : Nat) : String :=
  String.ofList ((digits n).leftpad width '0')

/-- An address: the mark `0x` and at least four digits. -/
def address (n : Nat) : String :=
  "0x" ++ padded 4 n

/-- A memory word: exactly four digits. -/
def word (w : UInt16) : String :=
  padded 4 w.toNat

end Hex

/-! ## Tables -/

section Tables
variable {α : Type} {n : Nat}

/-- The vector whose entry at `k` is `f k`. It comes from a list, so an entry of a closed table is
found by computation alone. -/
def tabulate (f : Fin n → α) : Vector α n :=
  ⟨(List.ofFn f).toArray, by simp⟩

@[simp] theorem getElem_tabulate (f : Fin n → α) (k : Nat) (h : k < n) :
    (tabulate f)[k] = f ⟨k, h⟩ := by
  simp [tabulate]

end Tables
end ChipEight
