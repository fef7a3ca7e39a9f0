import Mathlib.Data.List.DropRight

/-! Go's functions on text. A string here is valid UTF-8. -/
namespace Scimage.Store

/-- `unicode.IsSpace`. -/
def isSpace (c : Char) : Bool :=
  let n := c.toNat
  (9 ≤ n && n ≤ 13) || n == 32 || n == 0x85 || n == 0xA0 || n == 0x1680 ||
    (0x2000 ≤ n && n ≤ 0x200A) || n == 0x2028 || n == 0x2029 || n == 0x202F || n == 0x205F ||
    n == 0x3000

/-- `strings.TrimSpace`. -/
def trimSpace (s : String) : String :=
  String.ofList (((s.toList.dropWhile isSpace).reverse.dropWhile isSpace).reverse)

theorem trimSpace_toList (s : String) :
    (trimSpace s).toList = (s.toList.dropWhile isSpace).rdropWhile isSpace :=
  String.toList_ofList

theorem exists_trimSpace (s : String) : ∃ a b, s = a ++ trimSpace s ++ b := by
  obtain ⟨a, ha⟩ := List.dropWhile_suffix isSpace (l := s.toList)
  obtain ⟨b, hb⟩ := List.rdropWhile_prefix isSpace (s.toList.dropWhile isSpace)
  refine ⟨String.ofList a, String.ofList b, ?_⟩
  apply String.toList_injective
  rw [String.toList_append, String.toList_append, String.toList_ofList, String.toList_ofList,
    trimSpace_toList, List.append_assoc, hb, ha]

theorem utf8ByteSize_trimSpace_le (s : String) : (trimSpace s).utf8ByteSize ≤ s.utf8ByteSize := by
  obtain ⟨a, b, hs⟩ := exists_trimSpace s
  have hsize := congrArg String.utf8ByteSize hs
  rw [String.utf8ByteSize_append, String.utf8ByteSize_append] at hsize
  omega

theorem dropWhile_of_isPrefix {p : α → Bool} {l m : List α} (hm : m <+: l)
    (hl : l.dropWhile p = l) : m.dropWhile p = m := by
  cases m with
  | nil => rfl
  | cons a m =>
    obtain ⟨t, rfl⟩ := hm
    by_cases ha : p a
    · have hlen := congrArg List.length hl
      rw [List.cons_append, List.dropWhile_cons_of_pos ha] at hlen
      have hle := (List.dropWhile_sublist p (l := m ++ t)).length_le
      simp only [List.length_cons] at hlen
      omega
    · exact List.dropWhile_cons_of_neg ha

@[simp] theorem trimSpace_trimSpace (s : String) : trimSpace (trimSpace s) = trimSpace s := by
  apply String.toList_injective
  rw [trimSpace_toList, trimSpace_toList]
  have hkeep := dropWhile_of_isPrefix
    (List.rdropWhile_prefix isSpace (s.toList.dropWhile isSpace))
    (List.dropWhile_idempotent isSpace _)
  rw [hkeep, List.rdropWhile_idempotent]

theorem trimSpace_eq_self {s : String} {a b : Char} {cs : List Char} (hs : s.toList = a :: cs ++ [b])
    (ha : isSpace a = false) (hb : isSpace b = false) : trimSpace s = s := by
  apply String.toList_injective
  rw [trimSpace_toList, hs, List.cons_append, List.dropWhile_cons_of_neg (by simp [ha]),
    ← List.cons_append, List.rdropWhile_concat_neg _ _ _ (by simp [hb])]

def maxCauseLen : Nat := 500

/-- What is kept of an error's text: no NUL, and at most `maxCauseLen` runes. -/
def truncateCause (s : String) : String :=
  let r := s.toList.filter fun c => c.toNat ≠ 0
  if r.length ≤ maxCauseLen then String.ofList r
  else String.ofList (r.take maxCauseLen) ++ "…"

end Scimage.Store
