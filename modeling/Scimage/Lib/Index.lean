import Scimage.Lib.Focus
import Scimage.Lib.ReadCommitted
import Mathlib.Data.List.Induction

/-!
Unique indexes under READ COMMITTED. A statement checks the rows it puts against those it
sees, and locks for each of them a key that it shares with every row it must not stand
beside.
-/
namespace Txn

variable {Stmt : Type} {Rows : Stmt → Type} {ε Db Write Key Env κ ρ : Type}

/-- Nobody has committed what a statement of an open transaction wrote. -/
theorem Engine.Sound.held_of_mem {E : Engine Rows ε Db Write Key Env} {db : Db}
    {R : Engine.Condition Rows Write Env} {log : List (Commit Rows Write Env)} {now : Time}
    {before hist : List (Record Rows Write Env)} {d : Record Rows Write Env}
    (h : E.Sound db R log now before hist) (hd : d ∈ hist) :
    ∀ c ∈ log.drop d.pos, List.Disjoint (E.keysOf d.writes) (E.keysOf c.writes) := by
  induction hist generalizing before with
  | nil => cases hd
  | cons r hist ih =>
    rcases List.mem_cons.mp hd with rfl | hd
    · exact h.1.held
    · exact ih h.2 hd

/-- Every statement of a transaction ran on versions of its own. -/
theorem Engine.Sound.ran_of_mem {E : Engine Rows ε Db Write Key Env} {db : Db}
    {R : Engine.Condition Rows Write Env} {log : List (Commit Rows Write Env)} {now : Time}
    {before hist : List (Record Rows Write Env)} {d : Record Rows Write Env}
    (h : E.Sound db R log now before hist) (hd : d ∈ hist) :
    ∃ snap cur, E.exec now d.env d.stmt snap cur = .ok (d.rows, d.writes) := by
  induction hist generalizing before with
  | nil => cases hd
  | cons r hist ih =>
    rcases List.mem_cons.mp hd with rfl | hd
    · exact ⟨_, _, h.1.ran⟩
    · exact ih h.2 hd

/-- A table of which no two rows may clash. `row k` is the row under the primary key `k`. -/
structure Index (E : Engine Rows ε Db Write Key Env) (κ ρ : Type) where
  row : κ → Focus E (Option ρ)
  puts : Write → Option (κ × ρ)
  clash : ρ → ρ → Prop
  symm : ∀ x y, clash x y → clash y x
  arrives : ∀ db w k x, (row k).see (E.apply db w) = some x →
    (row k).see db = some x ∨ puts w = some (k, x)
  locks : ∀ w k x, puts w = some (k, x) → (row k).key ∈ E.keys w
  shares : ∀ w w' k k' x y, puts w = some (k, x) → puts w' = some (k', y) → clash x y →
    ¬ List.Disjoint (E.keys w) (E.keys w')
  /-- A statement that puts a row writes nothing else, and has found no row that it clashes
  with. -/
  checked : ∀ {now env s snap cur rows ws}, E.exec now env s snap cur = .ok (rows, ws) →
    ∀ w ∈ ws, ∀ k x, puts w = some (k, x) →
      ws = [w] ∧ ∀ k' y, k' ≠ k → (row k').see cur = some y → ¬ clash y x

namespace Index

variable {E : Engine Rows ε Db Write Key Env} (I : Index E κ ρ)

/-- No two rows clash. -/
def Clear (db : Db) : Prop :=
  ∀ k k' x y, k ≠ k' → (I.row k).see db = some x → (I.row k').see db = some y → ¬ I.clash x y

variable {I} {db : Db} {log : List (Commit Rows Write Env)} {ws : List Write}

/-- A row that is there was there before, or was put. -/
theorem arrives_applyAll {k : κ} {x : ρ} (h : (I.row k).see (E.applyAll db ws) = some x) :
    (I.row k).see db = some x ∨ ∃ w ∈ ws, I.puts w = some (k, x) := by
  induction ws generalizing db with
  | nil => exact Or.inl h
  | cons w ws ih =>
    rcases ih h with hold | ⟨w', hw', hput⟩
    · rcases I.arrives db w k x hold with hold | hput
      · exact Or.inl hold
      · exact Or.inr ⟨w, List.mem_cons_self, hput⟩
    · exact Or.inr ⟨w', List.mem_cons_of_mem _ hw', hput⟩

theorem arrives_commits {cs : List (Commit Rows Write Env)} {k : κ} {x : ρ}
    (h : (I.row k).see (cs.foldl (fun d c => E.applyAll d c.writes) db) = some x) :
    (I.row k).see db = some x ∨ ∃ c ∈ cs, ∃ w ∈ c.writes, I.puts w = some (k, x) := by
  induction cs generalizing db with
  | nil => exact Or.inl h
  | cons c cs ih =>
    rcases ih h with hold | ⟨c', hc', hput⟩
    · rcases arrives_applyAll hold with hold | hput
      · exact Or.inl hold
      · exact Or.inr ⟨c, List.mem_cons_self, hput⟩
    · exact Or.inr ⟨c', List.mem_cons_of_mem _ hc', hput⟩

/-- A row that clashes with none comes in. -/
theorem clear_put {w : Write} {k : κ} {x : ρ} (h : I.Clear db) (hw : I.puts w = some (k, x))
    (hx : ∀ k' y, k' ≠ k → (I.row k').see db = some y → ¬ I.clash y x) :
    I.Clear (E.apply db w) := by
  intro a b y z hab hy hz hclash
  rcases I.arrives db w a y hy with hy | hy <;> rcases I.arrives db w b z hz with hz | hz
  · exact h a b y z hab hy hz hclash
  · obtain ⟨rfl, rfl⟩ := Prod.mk.inj (Option.some.inj (hw.symm.trans hz))
    exact hx a y hab hy hclash
  · obtain ⟨rfl, rfl⟩ := Prod.mk.inj (Option.some.inj (hw.symm.trans hy))
    exact hx b z hab.symm hz (I.symm _ _ hclash)
  · obtain ⟨rfl, rfl⟩ := Prod.mk.inj (Option.some.inj (hw.symm.trans hy))
    exact hab (Prod.mk.inj (Option.some.inj (hy.symm.trans hz))).1

theorem clear_of_no_put (h : I.Clear db) (hws : ∀ w ∈ ws, I.puts w = none) :
    I.Clear (E.applyAll db ws) := by
  have hold : ∀ k x, (I.row k).see (E.applyAll db ws) = some x → (I.row k).see db = some x := by
    intro k x hx
    rcases arrives_applyAll hx with hx | ⟨w, hw, hput⟩
    · exact hx
    · cases (hws w hw).symm.trans hput
  intro k k' x y hne hx hy
  exact h k k' x y hne (hold k x hx) (hold k' y hy)

/-- A statement leaves no clash, where the rows it would clash with are among those it saw. -/
theorem clear_ran {now : Time} {env : Env} {s : Stmt} {snap cur : Db} {rows : Rows s}
    (h : I.Clear db) (hx : E.exec now env s snap cur = .ok (rows, ws))
    (hseen : ∀ w ∈ ws, ∀ k x, I.puts w = some (k, x) → ∀ k' y, k' ≠ k →
      (I.row k').see db = some y → I.clash y x → (I.row k').see cur = some y) :
    I.Clear (E.applyAll db ws) := by
  by_cases hput : ∃ w ∈ ws, ∃ k x, I.puts w = some (k, x)
  · obtain ⟨w, hw, k, x, hput⟩ := hput
    obtain ⟨rfl, hfree⟩ := I.checked hx w hw k x hput
    refine clear_put h hput fun k' y hne hy hclash => ?_
    exact hfree k' y hne (hseen w hw k x hput k' y hne hy hclash) hclash
  · refine clear_of_no_put h fun w hw => ?_
    cases hp : I.puts w with
    | none => rfl
    | some a => exact (hput ⟨w, hw, a.1, a.2, hp⟩).elim

/-- A row that is there when a transaction's statement has run, and that was not when it ran,
comes from a commit since. -/
theorem seen_since {R : Engine.Condition Rows Write Env} {now : Time}
    {hist : List (Record Rows Write Env)} {r : Record Rows Write Env} {k : κ} {y : ρ}
    (hs : E.Sound db R log now [] hist) (hr : E.StepOk db R log now hist r)
    (hy : (I.row k).see (E.view (E.current db log) hist) = some y) :
    (I.row k).see (E.view (E.dbAt db log r.pos) hist) = some y ∨
      ∃ c ∈ log.drop r.pos, ∃ w ∈ c.writes, I.puts w = some (k, y) := by
  by_cases hk : ∃ c ∈ log.drop r.pos, (I.row k).key ∈ E.keysOf c.writes
  · obtain ⟨c, hc, hkc⟩ := hk
    -- The transaction has not written this row itself: it would hold its lock.
    have hown : (I.row k).key ∉ E.keysOf (writesOf hist) := by
      intro hmem
      obtain ⟨w, hw, hkw⟩ := List.mem_flatMap.mp hmem
      obtain ⟨d, hd, hwd⟩ := List.mem_flatMap.mp hw
      have hheld := Engine.Sound.held_of_mem hs hd
      have hle : d.pos ≤ r.pos := Nat.le_trans (hr.after d hd) hr.snap_le
      exact hheld c (List.drop_subset_drop_left _ hle hc)
        (List.mem_flatMap.mpr ⟨w, hwd, hkw⟩) hkc
    rw [Engine.view, (I.row k).see_applyAll_other _ hown, E.current_drop db log r.pos] at hy
    rcases arrives_commits hy with hold | hput
    · left
      rwa [Engine.view, (I.row k).see_applyAll_other _ hown]
    · exact Or.inr hput
  · left
    rw [(I.row k).see_view db (fun c hc hkc => hk ⟨c, hc, hkc⟩)]
    exact hy

theorem clear_sound {R : Engine.Condition Rows Write Env} {now : Time}
    {hist : List (Record Rows Write Env)} (h : I.Clear (E.current db log))
    (hs : E.Sound db R log now [] hist) : I.Clear (E.view (E.current db log) hist) := by
  induction hist using List.reverseRecOn with
  | nil => exact h
  | append_singleton hist r ih =>
    obtain ⟨hs, hr⟩ := Engine.sound_snoc.mp hs
    rw [List.nil_append] at hr
    have hview : E.view (E.current db log) (hist ++ [r]) =
        E.applyAll (E.view (E.current db log) hist) r.writes := by
      simp [Engine.view]
    rw [hview]
    refine clear_ran (ih hs) hr.ran fun w hw k x hput k' y hne hy hclash => ?_
    rcases seen_since hs hr hy with hold | ⟨c, hc, w', hw', hput'⟩
    · exact hold
    · refine (I.shares w w' k k' x y hput hput' (I.symm _ _ hclash) ?_).elim
      intro κ hκ hκ'
      exact hr.held c hc (List.mem_flatMap.mpr ⟨w, hw, hκ⟩) (List.mem_flatMap.mpr ⟨w', hw', hκ'⟩)

/-- Whatever the discipline, no commit leaves two rows that clash. -/
theorem clear_history {D : Discipline Rows} {R : Engine.Condition Rows Write Env}
    (hdb : I.Clear db) (h : E.History D db R log) : I.Clear (E.current db log) := by
  induction h with
  | nil => exact hdb
  | tx _ _ hs ih =>
    rw [E.current_commit]
    exact clear_sound ih hs
  | pool _ _ hx ih =>
    rw [E.current_snoc, Commit.writes, writesOf_cons, writesOf_nil, List.append_nil]
    exact clear_ran ih hx fun _ _ _ _ _ _ _ _ hy _ => hy

end Index

end Txn
