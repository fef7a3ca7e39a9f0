import Mathlib.Data.List.Basic

/-! Integers in base ten, as they are printed and as a 64-bit reader takes them. -/
namespace Decimal

def format (n : Int) : List Char :=
  if n < 0 then '-' :: Nat.toDigits 10 n.natAbs else Nat.toDigits 10 n.natAbs

def unsigned (cs : List Char) : Option Nat :=
  if cs ≠ [] ∧ cs.all Char.isDigit then some (Nat.ofDigitChars 10 cs 0) else none

/-- One sign at most, then digits, and the value in an `int64`. -/
def parse : List Char → Option Int
  | '-' :: cs => (unsigned cs).bind fun n =>
    if n ≤ 9223372036854775808 then some (-(n : Int)) else none
  | '+' :: cs => (unsigned cs).bind fun n =>
    if n < 9223372036854775808 then some (n : Int) else none
  | cs => (unsigned cs).bind fun n =>
    if n < 9223372036854775808 then some (n : Int) else none

theorem unsigned_toDigits (n : Nat) : unsigned (Nat.toDigits 10 n) = some n := by
  have hall : (Nat.toDigits 10 n).all Char.isDigit := by
    rw [List.all_eq_true]
    intro c hc
    exact Nat.isDigit_of_mem_toDigits (by omega) (by omega) hc
  simp [unsigned, hall, Nat.toDigits_ne_nil]

theorem isDigit_minus : Char.isDigit '-' = false := by decide

theorem isDigit_plus : Char.isDigit '+' = false := by decide

/-- A reader takes digits without a sign as they are. -/
theorem parse_toDigits (n : Nat) : parse (Nat.toDigits 10 n) =
    if n < 9223372036854775808 then some (n : Int) else none := by
  have hdigit : ∀ c ∈ Nat.toDigits 10 n, c.isDigit = true := by
    intro c hc
    exact Nat.isDigit_of_mem_toDigits (by omega) (by omega) hc
  have hread := unsigned_toDigits n
  unfold parse
  split
  · rename_i cs heq
    have hc := hdigit '-' (by simp [heq])
    simp [isDigit_minus] at hc
  · rename_i cs heq
    have hc := hdigit '+' (by simp [heq])
    simp [isDigit_plus] at hc
  · simp [hread]

theorem parse_digits {n : Nat} (h : n < 9223372036854775808) :
    parse (Nat.toDigits 10 n) = some (n : Int) := by
  rw [parse_toDigits, if_pos h]

/-- What is printed of an `int64` is read back. -/
theorem parse_format {n : Int} (hlow : -9223372036854775808 ≤ n) (hhigh : n < 9223372036854775808) :
    parse (format n) = some n := by
  by_cases hn : n < 0
  · have hle : n.natAbs ≤ 9223372036854775808 := by omega
    have habs : -(n.natAbs : Int) = n := by omega
    rw [format, if_pos hn, parse, unsigned_toDigits, Option.bind_some, if_pos hle, habs]
  · have hlt : n.natAbs < 9223372036854775808 := by omega
    have habs : (n.natAbs : Int) = n := by omega
    rw [format, if_neg hn, parse_digits hlt, habs]

/-- A sign or digits. -/
def Numeral (cs : List Char) : Prop := ∀ c ∈ cs, c = '-' ∨ c = '+' ∨ c.isDigit = true

theorem numeral_toDigits (n : Nat) : Numeral (Nat.toDigits 10 n) := by
  intro c hc
  exact Or.inr (Or.inr (Nat.isDigit_of_mem_toDigits (by omega) (by omega) hc))

/-- A numeral has signs and digits only. -/
theorem Numeral.range {cs : List Char} (h : Numeral cs) {c : Char} (hc : c ∈ cs) :
    43 ≤ c.toNat ∧ c.toNat ≤ 57 := by
  rcases h c hc with rfl | rfl | hdigit
  · decide
  · decide
  · have hrange := Char.isDigit_iff_toNat.mp hdigit
    have hzero : '0'.toNat = 48 := rfl
    have hnine : '9'.toNat = 57 := rfl
    omega

theorem numeral_format (n : Int) : Numeral (format n) := by
  intro c hc
  by_cases hn : n < 0
  · rw [format, if_pos hn] at hc
    rcases List.mem_cons.mp hc with rfl | hc
    · exact Or.inl rfl
    · exact numeral_toDigits _ c hc
  · rw [format, if_neg hn] at hc
    exact numeral_toDigits _ c hc

theorem numeral_of_unsigned {cs : List Char} {n : Nat} (h : unsigned cs = some n) :
    Numeral cs := by
  intro c hc
  unfold unsigned at h
  split at h
  · rename_i hall
    exact Or.inr (Or.inr (List.all_eq_true.mp hall.2 c hc))
  · cases h

theorem numeral_of_parse {cs : List Char} {n : Int} (h : parse cs = some n) : Numeral cs := by
  unfold parse at h
  split at h
  · obtain ⟨m, hm, -⟩ := Option.bind_eq_some_iff.mp h
    intro c hc
    rcases List.mem_cons.mp hc with rfl | hc
    · exact Or.inl rfl
    · exact numeral_of_unsigned hm c hc
  · obtain ⟨m, hm, -⟩ := Option.bind_eq_some_iff.mp h
    intro c hc
    rcases List.mem_cons.mp hc with rfl | hc
    · exact Or.inr (Or.inl rfl)
    · exact numeral_of_unsigned hm c hc
  · obtain ⟨m, hm, -⟩ := Option.bind_eq_some_iff.mp h
    exact numeral_of_unsigned hm

theorem toDigits_injective {m n : Nat} (h : Nat.toDigits 10 m = Nat.toDigits 10 n) : m = n := by
  have hm := unsigned_toDigits m
  rw [h, unsigned_toDigits] at hm
  exact (Option.some.inj hm).symm

theorem minus_notMem_toDigits (n : Nat) : '-' ∉ Nat.toDigits 10 n := by
  intro hm
  have hd := Nat.isDigit_of_mem_toDigits (by omega) (by omega) hm
  rw [isDigit_minus] at hd
  cases hd

theorem format_injective : Function.Injective format := by
  intro m n h
  by_cases hm : m < 0 <;> by_cases hn : n < 0
  · rw [format, if_pos hm, format, if_pos hn] at h
    have := toDigits_injective (List.cons.inj h).2
    omega
  · rw [format, if_pos hm, format, if_neg hn] at h
    exact (minus_notMem_toDigits n.natAbs (h ▸ List.mem_cons_self)).elim
  · rw [format, if_neg hm, format, if_pos hn] at h
    exact (minus_notMem_toDigits m.natAbs (h.symm ▸ List.mem_cons_self)).elim
  · rw [format, if_neg hm, format, if_neg hn] at h
    have := toDigits_injective h
    omega

theorem format_ne_nil (n : Int) : format n ≠ [] := by
  by_cases hn : n < 0
  · rw [format, if_pos hn]
    simp
  · rw [format, if_neg hn]
    exact Nat.toDigits_ne_nil

end Decimal
