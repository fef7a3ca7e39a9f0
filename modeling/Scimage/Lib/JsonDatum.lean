import Scimage.Lib.JsonMap
import Mathlib.Algebra.Order.Field.Rat

/-! What a JSON value denotes, however its numbers, strings and objects are spelt. -/
namespace Json

open Relational (Table)

/-- Numbers by what they amount to, objects by what they hold under each key. -/
inductive Datum where
  | null
  | bool (b : Bool)
  | num (q : ℚ)
  | str (s : String)
  | arr (xs : List Datum)
  | obj (f : String → Option Datum)

def natOf (cs : List Char) : Nat := cs.foldl (fun n c => 10 * n + (c.toNat - 48)) 0

/-- A sign and digits. -/
def intOf (cs : List Char) : Int :=
  match cs with
  | '-' :: ds => -natOf ds
  | '+' :: ds => natOf ds
  | ds => natOf ds

def Number.value (n : Number) : ℚ :=
  let body := n.val.dropWhile (· == '-')
  let mantissa := body.takeWhile fun c => c != 'e' && c != 'E'
  let exponent := intOf ((body.drop mantissa.length).drop 1)
  let whole := mantissa.takeWhile (· != '.')
  let fraction := (mantissa.drop whole.length).drop 1
  let size := (natOf (whole ++ fraction) : ℚ) * 10 ^ (exponent - fraction.length)
  if n.val.head? = some '-' then -size else size

mutual

/-- Of the members of one name the last counts. -/
def Value.datum : Value → Datum
  | .null => .null
  | .bool b => .bool b
  | .num n => .num n.value
  | .str s => .str s.string
  | .arr xs => .arr (datumAll xs)
  | .obj ms => .obj (datumMembers ms)

def datumAll : List Value → List Datum
  | [] => []
  | x :: xs => x.datum :: datumAll xs

def datumMembers : List (Text × Value) → String → Option Datum
  | [] => fun _ => none
  | (k, x) :: ms => fun key => (datumMembers ms key).or (if k.string = key then some x.datum else none)

end

/-! ### Respelling -/

mutual

/-- What is respelt denotes the same. -/
@[simp] theorem datum_escape (v : Value) : v.escape.datum = v.datum := by
  match v with
  | .str s => rw [Value.escape, Value.datum, Value.datum, string_escape]
  | .arr xs => rw [Value.escape, Value.datum, Value.datum, datumAll_escape xs]
  | .obj ms => rw [Value.escape, Value.datum, Value.datum, datumMembers_escape ms]
  | .null | .bool _ | .num _ => rfl

theorem datumAll_escape (xs : List Value) : datumAll (escapeAll xs) = datumAll xs := by
  match xs with
  | [] => rfl
  | x :: xs => rw [escapeAll, datumAll, datumAll, datum_escape x, datumAll_escape xs]

theorem datumMembers_escape (ms : List (Text × Value)) :
    datumMembers (escapeMembers ms) = datumMembers ms := by
  match ms with
  | [] => rfl
  | (k, x) :: ms =>
    funext key
    rw [escapeMembers, datumMembers, datumMembers, string_escape, datum_escape x,
      datumMembers_escape ms]

end

/-! ### Maps -/

/-- What a map holds under a key. -/
def Map.held (m : Map) (k : String) : Option Datum := (m.find? k).map fun e => e.2.datum

theorem held_fold (ms : List (Text × Value)) (m : Map) (k : String) :
    Map.held (ms.foldl (fun m e => m.put (e.1.string, e.2)) m) k = (datumMembers ms k).or (m.held k) := by
  induction ms generalizing m with
  | nil => rfl
  | cons e ms ih =>
    rw [List.foldl_cons, ih, datumMembers, Option.or_assoc]
    congr 1
    rw [Map.held, Table.find?_put, Map.held]
    by_cases hk : e.1.string = k
    · rw [if_pos hk.symm, if_pos hk]
      rfl
    · rw [if_neg fun h => hk h.symm, if_neg hk]
      rfl

/-- An object holds what it denotes. -/
theorem held_of (ms : List (Text × Value)) (k : String) : (Map.of ms).held k = datumMembers ms k := by
  rw [Map.of, held_fold]
  exact Option.or_none

/-- A map is written as an object that denotes what the map holds. -/
theorem datum_json (m : Map) : m.json.datum = .obj m.held := by
  obtain ⟨n, hread, hperm⟩ := readMap_json m
  rw [Map.json] at hread ⊢
  cases hread
  rw [Value.datum]
  congr 1
  funext k
  rw [← held_of, Map.held, find?_of_perm hperm, Option.map_map, Map.held]
  congr 1
  funext e
  exact datum_escape e.2

/-- Two maps hold the same under every key. -/
def Map.Alike (m n : Map) : Prop :=
  ∀ k, (m.find? k).map (fun e => e.2.datum) = (n.find? k).map fun e => e.2.datum

namespace Map.Alike

variable {m n o : Map}

theorem refl (m : Map) : m.Alike m := fun _ => rfl

theorem symm (h : m.Alike n) : n.Alike m := fun k => (h k).symm

theorem trans (h : m.Alike n) (h' : n.Alike o) : m.Alike o := fun k => (h k).trans (h' k)

theorem put (h : m.Alike n) (e : String × Value) : Map.Alike (Table.put m e) (Table.put n e) := by
  intro k
  rw [Table.find?_put, Table.find?_put]
  by_cases hk : k = e.1
  · rw [if_pos hk, if_pos hk]
  · rw [if_neg hk, if_neg hk]
    exact h k

theorem remove (h : m.Alike n) (a : String) : Map.Alike (Table.remove m a) (Table.remove n a) := by
  intro k
  rw [Table.find?_remove, Table.find?_remove]
  by_cases hk : k = a
  · rw [if_pos hk, if_pos hk]
  · rw [if_neg hk, if_neg hk]
    exact h k

theorem rows_nil (h : m.Alike n) (hm : m.rows = []) : n.rows = [] := by
  refine List.eq_nil_iff_forall_not_mem.mpr fun e he => ?_
  have hk := h e.1
  rw [Table.find?_of_mem he, Table.find?, hm] at hk
  cases hk

end Map.Alike

end Json
