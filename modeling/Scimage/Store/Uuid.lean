import Mathlib.Data.List.Basic

/-! PostgreSQL's uuid: what its text input accepts and what it prints. -/
namespace Scimage.Store

/-- Eight groups of four hexadecimal digits. -/
structure Uuid where
  groups : List (Fin 65536)
  length_eq : groups.length = 8
  deriving DecidableEq

namespace Uuid

def hexDigit (n : Fin 16) : Char :=
  if n.val < 10 then Char.ofNat (48 + n.val) else Char.ofNat (87 + n.val)

local instance hexBase : @NeZero Nat (@Zero.ofOfNat0 Nat (instOfNatNat 0)) 16 := ⟨Nat.succ_ne_zero 15⟩
local instance groupSize : @NeZero Nat (@Zero.ofOfNat0 Nat (instOfNatNat 0)) 65536 := ⟨Nat.succ_ne_zero 65535⟩

/-- `isxdigit` and the value of the digit, in either case. -/
def hexValue (c : Char) : Option (Fin 16) :=
  let n := c.toNat
  if 48 ≤ n ∧ n ≤ 57 then some (Fin.ofNat 16 (n - 48))
  else if 97 ≤ n ∧ n ≤ 102 then some (Fin.ofNat 16 (n - 87))
  else if 65 ≤ n ∧ n ≤ 70 then some (Fin.ofNat 16 (n - 55))
  else none

def digits (g : Fin 65536) : List Char :=
  [hexDigit (Fin.ofNat 16 (g.val / 4096)), hexDigit (Fin.ofNat 16 (g.val / 256)),
    hexDigit (Fin.ofNat 16 (g.val / 16)), hexDigit (Fin.ofNat 16 g.val)]

def combine (a b c d : Fin 16) : Fin 65536 :=
  Fin.ofNat 65536 (4096 * a.val + 256 * b.val + 16 * c.val + d.val)

/-- Reads `n` groups; a hyphen may follow any group but the last. -/
def readGroups : Nat → List Char → Option (List (Fin 65536) × List Char)
  | 0, cs => some ([], cs)
  | n + 1, a :: b :: c :: d :: cs =>
    match hexValue a, hexValue b, hexValue c, hexValue d with
    | some a, some b, some c, some d =>
      let rest := match n, cs with
        | _ + 1, '-' :: cs => cs
        | _, cs => cs
      (readGroups n rest).map fun r => (combine a b c d :: r.1, r.2)
    | _, _, _, _ => none
  | _ + 1, _ => none

theorem readGroups_zero (cs : List Char) : readGroups 0 cs = some ([], cs) := rfl

theorem readGroups_length {n : Nat} {cs : List Char} {r : List (Fin 65536) × List Char}
    (h : readGroups n cs = some r) : r.1.length = n := by
  induction n generalizing cs r with
  | zero =>
    rw [readGroups_zero, Option.some.injEq] at h
    subst h
    rfl
  | succ n ih =>
    match cs with
    | a :: b :: c :: d :: cs =>
      simp only [readGroups] at h
      split at h
      · obtain ⟨r', hr, rfl⟩ := Option.map_eq_some_iff.mp h
        simp [ih hr]
      · simp at h
    | [] | [_] | [_, _] | [_, _, _] => simp [readGroups] at h

/-- Eight groups with exactly `ending` after them. -/
def readAll (cs ending : List Char) : Option Uuid :=
  match h : readGroups 8 cs with
  | some (gs, rest) => if rest = ending then some ⟨gs, readGroups_length h⟩ else none
  | none => none

/-- `uuid_in`: thirty-two digits of either case, with optional hyphens after every fourth
digit, possibly between braces. -/
def parse (s : String) : Option Uuid :=
  match s.toList with
  | '{' :: cs => readAll cs ['}']
  | cs => readAll cs []

/-- `uuid_out`: lower case, hyphens after digits 8, 12, 16 and 20. -/
def text (u : Uuid) : String :=
  match u.groups with
  | [a, b, c, d, e, f, g, h] =>
    String.ofList (digits a ++ digits b ++ '-' :: digits c ++ '-' :: digits d ++ '-' :: digits e ++
      '-' :: digits f ++ digits g ++ digits h)
  | _ => ""

theorem hexValue_hexDigit (n : Fin 16) : hexValue (hexDigit n) = some n := by
  revert n
  decide

theorem hexDigit_ne_hyphen (n : Fin 16) : hexDigit n ≠ '-' := by
  revert n
  decide

theorem hexDigit_ne_brace (n : Fin 16) : hexDigit n ≠ '{' := by
  revert n
  decide

theorem combine_digits (g : Fin 65536) :
    combine (Fin.ofNat 16 (g.val / 4096)) (Fin.ofNat 16 (g.val / 256))
      (Fin.ofNat 16 (g.val / 16)) (Fin.ofNat 16 g.val) = g := by
  apply Fin.ext
  have := g.isLt
  simp only [combine, Fin.ofNat]
  omega

theorem readGroups_digits (n : Nat) (g : Fin 65536) (cs : List Char) :
    readGroups (n + 1) (digits g ++ cs) =
      (readGroups n (match n, cs with
        | _ + 1, '-' :: cs => cs
        | _, cs => cs)).map fun r => (g :: r.1, r.2) := by
  simp only [digits, List.cons_append, List.nil_append, readGroups, hexValue_hexDigit,
    combine_digits]

theorem readGroups_hyphen (n : Nat) (g : Fin 65536) (cs : List Char) :
    readGroups (n + 2) (digits g ++ '-' :: cs) =
      (readGroups (n + 1) cs).map fun r => (g :: r.1, r.2) :=
  readGroups_digits (n + 1) g ('-' :: cs)

theorem readGroups_plain (n : Nat) (g g' : Fin 65536) (cs : List Char) :
    readGroups (n + 2) (digits g ++ (digits g' ++ cs)) =
      (readGroups (n + 1) (digits g' ++ cs)).map fun r => (g :: r.1, r.2) := by
  rw [readGroups_digits]
  congr 2
  simp only [digits, List.cons_append]
  split
  · rename_i h
    exact (hexDigit_ne_hyphen _ (List.cons.inj h).1).elim
  · rfl

theorem readGroups_last (g : Fin 65536) : readGroups 1 (digits g) = some ([g], []) := by
  have h := readGroups_digits 0 g []
  simpa [readGroups_zero] using h

theorem readAll_of_readGroups {cs ending : List Char} {gs : List (Fin 65536)}
    (h : readGroups 8 cs = some (gs, ending)) (hlen : gs.length = 8) :
    readAll cs ending = some ⟨gs, hlen⟩ := by
  unfold readAll
  split
  · rename_i h'
    rw [h, Option.some.injEq, Prod.mk.injEq] at h'
    obtain ⟨rfl, rfl⟩ := h'
    simp
  · rename_i h'
    simp [h] at h'

/-- What PostgreSQL prints it reads back. -/
@[simp] theorem parse_text (u : Uuid) : parse u.text = some u := by
  obtain ⟨groups, hlen⟩ := u
  match groups, hlen with
  | [a, b, c, d, e, f, g, h], hlen =>
    have hread : readGroups 8 (digits a ++ (digits b ++ '-' :: (digits c ++ '-' :: (digits d ++
        '-' :: (digits e ++ '-' :: (digits f ++ (digits g ++ digits h))))))) =
        some ([a, b, c, d, e, f, g, h], []) := by
      have hg : readGroups 2 (digits g ++ digits h) = some ([g, h], []) := by
        have := readGroups_plain 0 g h []
        simpa [readGroups_last] using this
      have hf := readGroups_plain 1 f g (digits h)
      rw [readGroups_plain, readGroups_hyphen, readGroups_hyphen, readGroups_hyphen,
        readGroups_hyphen, hf, hg]
      rfl
    have htext : (text ⟨[a, b, c, d, e, f, g, h], hlen⟩).toList =
        digits a ++ (digits b ++ '-' :: (digits c ++ '-' :: (digits d ++
        '-' :: (digits e ++ '-' :: (digits f ++ (digits g ++ digits h)))))) := by
      simp [text]
    unfold parse
    rw [htext]
    split
    · rename_i h
      simp only [digits, List.cons_append] at h
      exact (hexDigit_ne_brace _ (List.cons.inj h).1).elim
    · exact readAll_of_readGroups hread hlen

theorem text_injective {u v : Uuid} (h : u.text = v.text) : u = v := by
  have := congrArg parse h
  simpa using this

/-- The order of the sixteen bytes. -/
def ble (u v : Uuid) : Bool := !v.groups.lex u.groups fun a b => a.val < b.val

end Uuid

def someUuid : Uuid := ⟨List.replicate 8 ⟨1, by decide⟩, rfl⟩
end Scimage.Store
