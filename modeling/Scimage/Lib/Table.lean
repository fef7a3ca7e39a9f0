import Mathlib.Data.List.Nodup

/-! Tables with a primary key. -/
namespace Relational

variable {κ ρ : Type} [DecidableEq κ]

structure Table (κ ρ : Type) (key : ρ → κ) where
  rows : List ρ
  nodup : (rows.map key).Nodup

namespace Table

variable {key : ρ → κ}

def empty : Table κ ρ key := ⟨[], List.nodup_nil⟩

def find? (t : Table κ ρ key) (k : κ) : Option ρ := t.rows.find? fun r => key r = k

def filter (t : Table κ ρ key) (p : ρ → Bool) : Table κ ρ key :=
  ⟨t.rows.filter p, t.nodup.sublist (List.filter_sublist.map key)⟩

def remove (t : Table κ ρ key) (k : κ) : Table κ ρ key := t.filter fun r => key r ≠ k

def overwrite (key : ρ → κ) (r : ρ) : List ρ → List ρ
  | [] => [r]
  | x :: xs => if key x = key r then r :: xs else x :: overwrite key r xs

theorem map_overwrite (r : ρ) (xs : List ρ) :
    (overwrite key r xs).map key =
      if key r ∈ xs.map key then xs.map key else xs.map key ++ [key r] := by
  induction xs with
  | nil => simp [overwrite]
  | cons x xs ih =>
    by_cases hx : key x = key r
    · simp [overwrite, hx]
    · by_cases hm : key r ∈ xs.map key
      · simp only [hm, if_true] at ih
        simp [overwrite, hx, ih, hm]
      · simp only [hm, if_false] at ih
        have hr : ¬ key r = key x := fun he => hx he.symm
        have hm' : key r ∉ (x :: xs).map key := by
          rw [List.map_cons, List.mem_cons]
          exact not_or.mpr ⟨hr, hm⟩
        rw [if_neg hm']
        simp [overwrite, hx, ih]

theorem overwrite_fresh {r : ρ} {xs : List ρ} (h : key r ∉ xs.map key) :
    overwrite key r xs = xs ++ [r] := by
  induction xs with
  | nil => rfl
  | cons x xs ih =>
    rw [List.map_cons, List.mem_cons, not_or] at h
    have hx : key x ≠ key r := fun he => h.1 he.symm
    rw [overwrite, if_neg hx, ih h.2, List.cons_append]

/-- A selection by key sees a row inserted only if it selects that row's key. -/
theorem filter_overwrite {p : ρ → Bool} {r : ρ} (hp : ∀ x, key x = key r → p x = p r)
    (xs : List ρ) : (overwrite key r xs).filter p =
      if p r then overwrite key r (xs.filter p) else xs.filter p := by
  induction xs with
  | nil => by_cases hr : p r <;> simp [overwrite, hr]
  | cons x xs ih =>
    by_cases hx : key x = key r
    · by_cases hr : p r <;> simp [overwrite, hx, hp x hx, hr]
    · by_cases hr : p r <;> by_cases hpx : p x <;> simp_all [overwrite]

theorem filter_filter_of_imp {p q : ρ → Bool} (h : ∀ x, p x → q x) (xs : List ρ) :
    (xs.filter q).filter p = xs.filter p := by
  rw [List.filter_filter]
  apply List.filter_congr
  intro x _
  cases hp : p x with
  | false => rfl
  | true => simp [h x hp]

/-- Inserts a row, or replaces the one with its key in place. -/
def put (t : Table κ ρ key) (r : ρ) : Table κ ρ key where
  rows := overwrite key r t.rows
  nodup := by
    rw [map_overwrite]
    split
    · exact t.nodup
    · rename_i hm
      exact List.nodup_append.mpr ⟨t.nodup, List.nodup_singleton _, by
        intro a ha b hb hab
        rw [List.mem_singleton] at hb
        exact hm (hb ▸ hab ▸ ha)⟩

@[simp] theorem find?_empty (k : κ) : (empty : Table κ ρ key).find? k = none := rfl

theorem find?_key {t : Table κ ρ key} {k : κ} {r : ρ} (h : t.find? k = some r) : key r = k := by
  simpa using List.find?_some h

theorem find?_mem {t : Table κ ρ key} {k : κ} {r : ρ} (h : t.find? k = some r) : r ∈ t.rows :=
  List.mem_of_find?_eq_some h

theorem find?_overwrite (r : ρ) (xs : List ρ) (k : κ) :
    (overwrite key r xs).find? (fun x => key x = k) =
      if k = key r then some r else xs.find? fun x => key x = k := by
  induction xs with
  | nil => by_cases hk : k = key r <;> simp [overwrite, hk, eq_comm]
  | cons x xs ih =>
    by_cases hx : key x = key r
    · by_cases hk : k = key r
      · simp [overwrite, hx, hk]
      · simp [overwrite, hx, hk, eq_comm]
    · by_cases hk : key x = k
      · have : k ≠ key r := fun he => hx (hk.trans he)
        simp [overwrite, hk, this]
      · simp [overwrite, hx, hk, ih]

@[simp] theorem find?_put (t : Table κ ρ key) (r : ρ) (k : κ) :
    (t.put r).find? k = if k = key r then some r else t.find? k :=
  find?_overwrite r t.rows k

theorem find?_filter_rows {xs : List ρ} (hn : (xs.map key).Nodup) (p : ρ → Bool) (k : κ) :
    (xs.filter p).find? (fun x => key x = k) =
      (xs.find? fun x => key x = k).filter p := by
  induction xs with
  | nil => rfl
  | cons x xs ih =>
    rw [List.map_cons, List.nodup_cons] at hn
    by_cases hx : key x = k
    · by_cases hp : p x
      · simp [hx, hp, Option.filter]
      · have hnone : (xs.filter p).find? (fun x => key x = k) = none := by
          rw [List.find?_eq_none]
          intro y hy he
          apply hn.1
          rw [hx, ← of_decide_eq_true he]
          exact List.mem_map_of_mem (List.mem_of_mem_filter hy)
        simp [hx, hp, Option.filter, hnone]
    · by_cases hp : p x <;> simp [hx, hp, ih hn.2]

@[simp] theorem find?_filter (t : Table κ ρ key) (p : ρ → Bool) (k : κ) :
    (t.filter p).find? k = (t.find? k).filter p :=
  find?_filter_rows t.nodup p k

@[simp] theorem find?_remove (t : Table κ ρ key) (a k : κ) :
    (t.remove a).find? k = if k = a then none else t.find? k := by
  rw [remove, find?_filter]
  cases h : t.find? k with
  | none => simp
  | some r =>
    have := find?_key h
    by_cases hk : k = a <;> simp [Option.filter, this, hk]

theorem find?_of_mem {t : Table κ ρ key} {r : ρ} (h : r ∈ t.rows) : t.find? (key r) = some r := by
  obtain ⟨rows, nodup⟩ := t
  simp only [find?] at h ⊢
  induction rows with
  | nil => simp at h
  | cons x xs ih =>
    rw [List.map_cons, List.nodup_cons] at nodup
    rcases List.mem_cons.mp h with rfl | h
    · simp
    · have hx : key x ≠ key r := fun he => nodup.1 (he ▸ List.mem_map_of_mem h)
      simp [hx, ih nodup.2 h]

theorem mem_rows_iff {t : Table κ ρ key} {r : ρ} : r ∈ t.rows ↔ t.find? (key r) = some r :=
  ⟨find?_of_mem, find?_mem⟩

theorem mem_put {t : Table κ ρ key} {r x : ρ} :
    x ∈ (t.put r).rows ↔ x = r ∨ x ∈ t.rows ∧ key x ≠ key r := by
  rw [mem_rows_iff, find?_put]
  by_cases hid : key x = key r
  · rw [if_pos hid, Option.some.injEq]
    exact ⟨fun h => Or.inl h.symm, fun h => h.elim Eq.symm fun h => (h.2 hid).elim⟩
  · rw [if_neg hid, ← mem_rows_iff]
    constructor
    · intro h
      exact Or.inr ⟨h, hid⟩
    · rintro (rfl | h)
      · exact (hid rfl).elim
      · exact h.1

end Table
end Relational
