import Scimage.Lib.Engine

/-! The part of a database that belongs to one key, and what commits of other keys leave of it. -/
namespace Txn

variable {Stmt : Type} {Rows : Stmt → Type} {ε Db Write Key Env β : Type}

/-- `see` shows what the database holds under `key`; only writes of that key change it. -/
structure Focus (E : Engine Rows ε Db Write Key Env) (β : Type) where
  key : Key
  see : Db → β
  act : Write → β → β
  see_apply : ∀ db w, see (E.apply db w) = act w (see db)
  act_other : ∀ w b, key ∉ E.keys w → act w b = b

/-- The newest version comes of an earlier one by the commits since. -/
theorem Engine.current_drop (E : Engine Rows ε Db Write Key Env) (db : Db)
    (log : List (Commit Rows Write Env)) (n : Nat) : E.current db log =
      (log.drop n).foldl (fun d c => E.applyAll d c.writes) (E.dbAt db log n) := by
  simp only [Engine.current, Engine.dbAt, List.take_length]
  rw [← List.foldl_append, List.take_append_drop]

namespace Focus

variable {E : Engine Rows ε Db Write Key Env} (F : Focus E β)
  {log : List (Commit Rows Write Env)}

theorem see_applyAll (db : Db) (ws : List Write) :
    F.see (E.applyAll db ws) = ws.foldl (fun b w => F.act w b) (F.see db) := by
  induction ws generalizing db with
  | nil => rfl
  | cons w ws ih => simp [ih, F.see_apply]

theorem see_applyAll_congr {a b : Db} (h : F.see a = F.see b) (ws : List Write) :
    F.see (E.applyAll a ws) = F.see (E.applyAll b ws) := by
  rw [F.see_applyAll, F.see_applyAll, h]

theorem see_applyAll_other (db : Db) {ws : List Write} (h : F.key ∉ E.keysOf ws) :
    F.see (E.applyAll db ws) = F.see db := by
  induction ws generalizing db with
  | nil => rfl
  | cons w ws ih =>
    rw [Engine.keysOf_cons, List.mem_append, not_or] at h
    rw [Engine.applyAll_cons, ih _ h.2, F.see_apply, F.act_other w _ h.1]

theorem see_commits (db : Db) {cs : List (Commit Rows Write Env)}
    (h : ∀ c ∈ cs, F.key ∉ E.keysOf c.writes) :
    F.see (cs.foldl (fun d c => E.applyAll d c.writes) db) = F.see db := by
  induction cs generalizing db with
  | nil => rfl
  | cons c cs ih =>
    rw [List.foldl_cons, ih _ fun x hx => h x (List.mem_cons_of_mem _ hx),
      F.see_applyAll_other db (h c List.mem_cons_self)]

/-- Versions between which nobody committed the key show the same of it. -/
theorem see_dbAt (db : Db) {n : Nat} (h : ∀ c ∈ log.drop n, F.key ∉ E.keysOf c.writes) :
    F.see (E.dbAt db log n) = F.see (E.current db log) := by
  rw [E.current_drop db log n, F.see_commits _ h]

/-- The same up to a commit in the middle of the log. -/
theorem see_dbAt_take (db : Db) {n p : Nat} (hn : n ≤ p)
    (h : ∀ c ∈ (log.take p).drop n, F.key ∉ E.keysOf c.writes) :
    F.see (E.dbAt db log n) = F.see (E.dbAt db log p) := by
  have hsee := F.see_dbAt db h
  rwa [Engine.dbAt_take E hn, Engine.current_take] at hsee

theorem see_view (db : Db) {n : Nat} (h : ∀ c ∈ log.drop n, F.key ∉ E.keysOf c.writes)
    (hist : List (Record Rows Write Env)) :
    F.see (E.view (E.dbAt db log n) hist) = F.see (E.view (E.current db log) hist) :=
  F.see_applyAll_congr (F.see_dbAt db h) _

end Focus

/-- A property of all commits from one number on, in two stretches. -/
theorem drop_of_take {α : Type} {P : α → Prop} {l : List α} {m n : Nat} (hmn : m ≤ n)
    (h₁ : ∀ c ∈ (l.take n).drop m, P c) (h₂ : ∀ c ∈ l.drop n, P c) : ∀ c ∈ l.drop m, P c := by
  intro c hc
  by_cases hn : n ≤ l.length
  · have hsplit : l.drop m = (l.take n).drop m ++ l.drop n := by
      conv_lhs => rw [← List.take_append_drop n l]
      rw [List.drop_append_of_le_length (by simp; omega)]
    rw [hsplit, List.mem_append] at hc
    exact hc.elim (h₁ c) (h₂ c)
  · rw [List.take_of_length_le (by omega)] at h₁
    exact h₁ c hc

theorem drop_take_subset {α : Type} {l : List α} {m n p q : Nat} (hm : n ≤ m) (hp : p ≤ q) :
    (l.take p).drop m ⊆ (l.take q).drop n := by
  have htake : l.take p = (l.take q).take p := by rw [List.take_take, Nat.min_eq_left hp]
  rw [htake, List.drop_take]
  exact fun c hc => List.drop_subset_drop_left _ hm (List.mem_of_mem_take hc)

end Txn
