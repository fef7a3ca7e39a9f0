import Scimage.Lib.Json
import Scimage.Lib.Table
import Mathlib.Data.List.Sort

/-! JSON objects as maps: a repeated key keeps its last value, and no order is promised. -/
namespace Json

open Relational (Table)

abbrev Map := Table String (String × Value) Prod.fst

def Map.of (ms : List (Text × Value)) : Map :=
  ms.foldl (fun m e => m.put (e.1.string, e.2)) .empty

/-- An object, or no map at all. -/
def readMap : Value → Option Map
  | .null => some .empty
  | .obj ms => some (.of ms)
  | _ => none

/-! ### Keys in order -/

def charsLe : List Char → List Char → Bool
  | [], _ => true
  | _ :: _, [] => false
  | a :: as, b :: bs => Nat.blt a.toNat b.toNat || (Nat.beq a.toNat b.toNat && charsLe as bs)

def keyLe (a b : String) : Bool := charsLe a.toList b.toList

theorem charsLe_cons {a b : Char} {as bs : List Char} : charsLe (a :: as) (b :: bs) = true ↔
    a.toNat < b.toNat ∨ a.toNat = b.toNat ∧ charsLe as bs = true := by
  simp [charsLe, Nat.blt_eq, Nat.beq_eq]

theorem charsLe_total (as bs : List Char) : charsLe as bs = true ∨ charsLe bs as = true := by
  induction as generalizing bs with
  | nil => exact Or.inl rfl
  | cons a as ih =>
    cases bs with
    | nil => exact Or.inr rfl
    | cons b bs =>
      rw [charsLe_cons, charsLe_cons]
      rcases Nat.lt_trichotomy a.toNat b.toNat with hlt | heq | hgt
      · exact Or.inl (Or.inl hlt)
      · exact (ih bs).imp (fun h => Or.inr ⟨heq, h⟩) fun h => Or.inr ⟨heq.symm, h⟩
      · exact Or.inr (Or.inl hgt)

theorem charsLe_trans {as bs cs : List Char} (hab : charsLe as bs = true)
    (hbc : charsLe bs cs = true) : charsLe as cs = true := by
  induction as generalizing bs cs with
  | nil => rfl
  | cons a as ih =>
    cases bs with
    | nil => cases hab
    | cons b bs =>
      cases cs with
      | nil => cases hbc
      | cons c cs =>
        rw [charsLe_cons] at hab hbc ⊢
        rcases hab with hab | ⟨hab, has⟩
        · omega
        · rcases hbc with hbc | ⟨hbc, hbs⟩
          · omega
          · exact Or.inr ⟨hab.trans hbc, ih has hbs⟩

theorem charsLe_antisymm {as bs : List Char} (hab : charsLe as bs = true)
    (hba : charsLe bs as = true) : as = bs := by
  induction as generalizing bs with
  | nil =>
    cases bs with
    | nil => rfl
    | cons b bs => cases hba
  | cons a as ih =>
    cases bs with
    | nil => cases hab
    | cons b bs =>
      rw [charsLe_cons] at hab hba
      rcases hab with hab | ⟨hab, has⟩
      · omega
      · rcases hba with hba | ⟨-, hbs⟩
        · omega
        · rw [Char.toNat_inj.mp hab, ih has hbs]

theorem keyLe_total (a b : String) : keyLe a b = true ∨ keyLe b a = true := charsLe_total _ _

theorem keyLe_trans {a b c : String} (hab : keyLe a b = true) (hbc : keyLe b c = true) :
    keyLe a c = true := charsLe_trans hab hbc

theorem keyLe_antisymm {a b : String} (hab : keyLe a b = true) (hba : keyLe b a = true) : a = b :=
  String.toList_injective (charsLe_antisymm hab hba)

/-! ### Iteration -/

/-- In which order a loop goes over the keys of a map; keys of one rank go by their text. -/
abbrev Ranking := String → Nat

def Ranking.le (ω : Ranking) (a b : String × Value) : Bool :=
  Nat.blt (ω a.1) (ω b.1) || (Nat.beq (ω a.1) (ω b.1) && keyLe a.1 b.1)

def Map.range (ω : Ranking) (m : Map) : List (String × Value) := m.rows.insertionSort fun a b => ω.le a b

variable {ω : Ranking} {m n : Map}

theorem le_iff {a b : String × Value} : Ranking.le ω a b = true ↔
    ω a.1 < ω b.1 ∨ ω a.1 = ω b.1 ∧ keyLe a.1 b.1 = true := by
  simp [Ranking.le, Nat.blt_eq, Nat.beq_eq]

theorem le_total (ω : Ranking) (a b : String × Value) :
    Ranking.le ω a b = true ∨ Ranking.le ω b a = true := by
  rw [le_iff, le_iff]
  rcases Nat.lt_trichotomy (ω a.1) (ω b.1) with hlt | heq | hgt
  · exact Or.inl (Or.inl hlt)
  · exact (keyLe_total a.1 b.1).imp (fun h => Or.inr ⟨heq, h⟩) fun h => Or.inr ⟨heq.symm, h⟩
  · exact Or.inr (Or.inl hgt)

theorem le_trans {a b c : String × Value} (hab : Ranking.le ω a b = true)
    (hbc : Ranking.le ω b c = true) : Ranking.le ω a c = true := by
  rw [le_iff] at hab hbc ⊢
  rcases hab with hab | ⟨hab, ha⟩
  · omega
  · rcases hbc with hbc | ⟨hbc, hb⟩
    · omega
    · exact Or.inr ⟨hab.trans hbc, keyLe_trans ha hb⟩

theorem le_antisymm {a b : String × Value} (hab : Ranking.le ω a b = true)
    (hba : Ranking.le ω b a = true) : a.1 = b.1 := by
  rw [le_iff] at hab hba
  rcases hab with hab | ⟨heq, hab⟩
  · omega
  · rcases hba with hba | ⟨-, hba⟩
    · omega
    · exact keyLe_antisymm hab hba

instance : Std.Total fun a b : String × Value => Ranking.le ω a b = true where
  total := le_total ω

instance : IsTrans (String × Value) fun a b => Ranking.le ω a b = true where
  trans _ _ _ := le_trans

theorem range_perm (ω : Ranking) (m : Map) : (m.range ω).Perm m.rows :=
  List.perm_insertionSort _ _

theorem range_sorted (ω : Ranking) (m : Map) :
    (m.range ω).Pairwise fun a b => Ranking.le ω a b = true :=
  List.pairwise_insertionSort (fun a b => Ranking.le ω a b = true) m.rows

@[simp] theorem mem_range {e : String × Value} : e ∈ m.range ω ↔ e ∈ m.rows :=
  (range_perm ω m).mem_iff

theorem range_nodup (ω : Ranking) (m : Map) : ((m.range ω).map Prod.fst).Nodup :=
  ((range_perm ω m).map Prod.fst).nodup_iff.mpr m.nodup

theorem eq_of_key_eq {m : Map} {a b : String × Value} (ha : a ∈ m.rows) (hb : b ∈ m.rows)
    (h : a.1 = b.1) : a = b := by
  have hfa := Table.find?_of_mem ha
  rw [h, Table.find?_of_mem hb] at hfa
  exact (Option.some.inj hfa).symm

/-- A list of a map's entries is the order of iteration when it is sorted. -/
theorem range_eq {xs : List (String × Value)} (hp : xs.Perm m.rows)
    (hs : xs.Pairwise fun a b => Ranking.le ω a b = true) : m.range ω = xs := by
  refine List.Perm.eq_of_pairwise ?_ (range_sorted ω m) hs ((range_perm ω m).trans hp.symm)
  intro a b ha hb hab hba
  exact eq_of_key_eq (mem_range.mp ha) (hp.mem_iff.mp hb) (le_antisymm hab hba)

/-- A list of keys, each ranked where it stands. -/
theorem pairwise_idxOf {xs : List (String × Value)} (h : (xs.map Prod.fst).Nodup) :
    xs.Pairwise fun a b => (xs.map Prod.fst).idxOf a.1 < (xs.map Prod.fst).idxOf b.1 := by
  rw [List.pairwise_iff_getElem]
  intro i j hi hj hij
  have hidx : ∀ k (hk : k < xs.length), (xs.map Prod.fst).idxOf (xs[k]).1 = k := by
    intro k hk
    have hget := h.idxOf_getElem k (by simpa using hk)
    simpa using hget
  rw [hidx i hi, hidx j hj]
  exact hij

/-- Every order of the keys is the order of some ranking. -/
theorem exists_range {xs : List (String × Value)} (h : xs.Perm m.rows) :
    ∃ ω, m.range ω = xs := by
  have hnodup := (h.map Prod.fst).nodup_iff.mpr m.nodup
  refine ⟨fun k => (xs.map Prod.fst).idxOf k, range_eq h ?_⟩
  exact (pairwise_idxOf hnodup).imp fun hlt => le_iff.mpr (Or.inl hlt)

/-- The order of a part of a map is the map's. -/
theorem range_filter (ω : Ranking) (m : Map) (p : String × Value → Bool) :
    Map.range ω (m.filter p) = (m.range ω).filter p := by
  refine range_eq ((range_perm ω m).filter p) ?_
  exact (range_sorted ω m).sublist List.filter_sublist

/-- What is done to the values leaves the order as it is. -/
theorem range_map {f : Value → Value} (h : n.rows.Perm (m.rows.map fun e => (e.1, f e.2))) :
    n.range ω = (m.range ω).map fun e => (e.1, f e.2) := by
  refine range_eq (((range_perm ω m).map _).trans h.symm) ?_
  exact (range_sorted ω m).map _ fun a b hab => hab

/-! ### Writing -/

/-- `json.Marshal` of a map of raw messages: sorted by key, each value respelt. -/
def Map.json (m : Map) : Value := .obj ((m.range fun _ => 0).map fun e => (quote e.1, e.2.escape))

/-- The order in which a map was filled shows nowhere. -/
theorem foldl_put_rows {ms : List (Text × Value)} (m : Map)
    (h : (m.rows.map Prod.fst ++ ms.map fun e => e.1.string).Nodup) :
    (ms.foldl (fun m e => m.put (e.1.string, e.2)) m).rows =
      m.rows ++ ms.map fun e => (e.1.string, e.2) := by
  induction ms generalizing m with
  | nil => simp
  | cons e ms ih =>
    have hfresh : e.1.string ∉ m.rows.map Prod.fst := by
      intro hm
      exact (List.nodup_append.mp h).2.2 _ hm _ List.mem_cons_self rfl
    have hput : (m.put (e.1.string, e.2)).rows = m.rows ++ [(e.1.string, e.2)] :=
      Table.overwrite_fresh hfresh
    rw [List.foldl_cons, ih, hput]
    · simp
    · rw [hput]
      simpa using h

theorem of_rows {ms : List (Text × Value)} (h : (ms.map fun e => e.1.string).Nodup) :
    (Map.of ms).rows = ms.map fun e => (e.1.string, e.2) := by
  have hnil : (Table.empty : Map).rows.map Prod.fst = [] := rfl
  rw [Map.of, foldl_put_rows .empty (by simpa [hnil] using h)]
  rfl

theorem put_mem {m : Map} {e a : String × Value} (h : a ∈ (m.put e).rows) : a = e ∨ a ∈ m.rows := by
  have hfind := Table.find?_of_mem h
  rw [Table.find?_put] at hfind
  split_ifs at hfind
  · exact Or.inl (Option.some.inj hfind).symm
  · exact Or.inr (Table.find?_mem hfind)

/-- A map holds members of what it was read from. -/
theorem of_mem {ms : List (Text × Value)} {a : String × Value} (h : a ∈ (Map.of ms).rows) :
    ∃ m ∈ ms, a = (m.1.string, m.2) := by
  have hfrom : ∀ (ms : List (Text × Value)) (n : Map), a ∈ (ms.foldl (fun m e =>
      m.put (e.1.string, e.2)) n).rows → a ∈ n.rows ∨ ∃ m ∈ ms, a = (m.1.string, m.2) := by
    intro ms
    induction ms with
    | nil => exact fun n h => Or.inl h
    | cons e ms ih =>
      intro n h
      rcases ih (n.put (e.1.string, e.2)) h with h | ⟨m, hm, rfl⟩
      · rcases put_mem h with rfl | h
        · exact Or.inr ⟨e, List.mem_cons_self, rfl⟩
        · exact Or.inl h
      · exact Or.inr ⟨m, List.mem_cons_of_mem e hm, rfl⟩
  rcases hfrom ms .empty h with h | h
  · cases h
  · exact h

/-- Where the values were all done the same to, a look-up finds what was done to the value. -/
theorem find?_of_perm {f : Value → Value} (h : n.rows.Perm (m.rows.map fun e => (e.1, f e.2)))
    (k : String) : n.find? k = (m.find? k).map fun e => (e.1, f e.2) := by
  cases hm : m.find? k with
  | some e =>
    have hmem : (e.1, f e.2) ∈ n.rows :=
      h.mem_iff.mpr (List.mem_map.mpr ⟨e, Table.find?_mem hm, rfl⟩)
    have hkey : e.1 = k := Table.find?_key hm
    have hfind := Table.find?_of_mem hmem
    rw [hkey] at hfind
    rw [hfind, Option.map_some, hkey]
  | none =>
    cases hn : n.find? k with
    | none => rfl
    | some a =>
      obtain ⟨e, he, rfl⟩ := List.mem_map.mp (h.mem_iff.mp (Table.find?_mem hn))
      have hkey : (e.1, f e.2).1 = k := Table.find?_key hn
      have hfind := Table.find?_of_mem he
      rw [hkey, hm] at hfind
      cases hfind

/-- What is marshalled of a map reads back as the map, its values respelt. -/
theorem readMap_json (m : Map) : ∃ n, readMap m.json = some n ∧
    n.rows.Perm (m.rows.map fun e => (e.1, e.2.escape)) := by
  have hperm := range_perm (fun _ => 0) m
  have hkeys : (((m.range fun _ => 0).map fun e => (quote e.1, e.2.escape)).map fun e =>
      e.1.string) = (m.range fun _ => 0).map Prod.fst := by
    rw [List.map_map]
    apply List.map_congr_left
    intro e _
    exact string_quote e.1
  refine ⟨_, rfl, ?_⟩
  rw [of_rows]
  · rw [List.map_map]
    refine (List.Perm.of_eq ?_).trans (hperm.map _)
    apply List.map_congr_left
    intro e _
    simp
  · rw [hkeys]
    exact range_nodup _ m

end Json
