import Scimage.Lib.Engine

/-! Calls one after another, each of whose effects may also fail. -/
namespace Txn

variable {Stmt : Type} {Rows : Stmt → Type} {ε Db Write Key Env α : Type}

/-- What the outside gives to one effect: the values it generates, the database's and the
process's clock, and whether it fails. -/
structure Supply (Env ε : Type) where
  env : Env
  now : Time
  wall : Time
  fault : Option ε

structure World (Rows : Stmt → Type) (Db Write Env : Type) where
  db : Db
  tx : Tx Rows Write Env
  count : Nat

def World.start (db : Db) : World Rows Db Write Env := ⟨db, .closed, 0⟩

namespace Engine

variable (E : Engine Rows ε Db Write Key Env)

def performTx (σ : Supply Env ε) (s : Stmt) (w : World Rows Db Write Env) :
    Except ε (Rows s) × World Rows Db Write Env :=
  match w.tx with
  | .opened now h =>
    match E.exec now σ.env s (E.view w.db h) (E.view w.db h) with
    | .ok (r, ws) => (.ok r, { w with tx := .opened now (h ++ [⟨s, r, ws, σ.env, 0, 0⟩]) })
    | .error e => (.error e, { w with tx := .aborted })
  | .aborted | .closed => (.error E.aborted, w)

def performPool (σ : Supply Env ε) (s : Stmt) (w : World Rows Db Write Env) :
    Except ε (Rows s) × World Rows Db Write Env :=
  match E.exec σ.now σ.env s w.db w.db with
  | .ok (r, ws) => (.ok r, { w with db := E.applyAll w.db ws })
  | .error e => (.error e, w)

/-- Committing a transaction in which a statement failed rolls it back. -/
def performCommit (w : World Rows Db Write Env) :
    Except ε Unit × World Rows Db Write Env :=
  match w.tx with
  | .opened _ h => (.ok (), { w with db := E.view w.db h, tx := .closed })
  | .aborted | .closed => (.error E.aborted, { w with tx := .closed })

/-- An effect that does not fail. -/
def perform (σ : Supply Env ε) : (e : Effect Stmt) → World Rows Db Write Env →
    e.Answer Rows ε × World Rows Db Write Env
  | .begin, w => (.ok (), { w with tx := .opened σ.now [] })
  | .tx s, w => E.performTx σ s w
  | .pool s, w => E.performPool σ s w
  | .commit, w => E.performCommit w
  | .rollback, w => ((), { w with tx := .closed })
  | .now, w => (σ.wall, w)

/-- A failed statement aborts its transaction and a failed commit ends it; a statement on a
connection of its own has no effect. -/
def fail (e : ε) (σ : Supply Env ε) : (f : Effect Stmt) → World Rows Db Write Env →
    f.Answer Rows ε × World Rows Db Write Env
  | .begin, w | .pool _, w => (.error e, w)
  | .tx _, w => (.error e, { w with tx := .aborted })
  | .commit, w => (.error e, { w with tx := .closed })
  | .rollback, w => ((), { w with tx := .closed })
  | .now, w => (σ.wall, w)

def answer (σ : Supply Env ε) (e : Effect Stmt) (w : World Rows Db Write Env) :
    e.Answer Rows ε × World Rows Db Write Env :=
  match σ.fault with
  | some err => fail err σ e { w with count := w.count + 1 }
  | none => E.perform σ e { w with count := w.count + 1 }

def run (supply : Nat → Supply Env ε) :
    Prog Rows ε α → World Rows Db Write Env → α × World Rows Db Write Env
  | .done a, w => (a, w)
  | .call e k, w =>
    run supply (k (E.answer (supply w.count) e w).1) (E.answer (supply w.count) e w).2

variable {E}
variable {D : Discipline Rows}

def anyStep : Condition Rows Write Env := fun _ _ _ => True

/-- A transaction run with nothing else happening to the database. -/
def Alone (E : Engine Rows ε Db Write Key Env) (db : Db) (now : Time)
    (hist : List (Record Rows Write Env)) : Prop :=
  E.Sound db anyStep [] now [] hist

theorem Alone.imp {E : Engine Rows ε Db Write Key Env} {db : Db} {now : Time}
    {R : Condition Rows Write Env} {before hist : List (Record Rows Write Env)}
    (hR : ∀ before x, R [] before x) (h : E.Sound db anyStep [] now before hist) :
    E.Sound db R [] now before hist := by
  induction hist generalizing before with
  | nil => trivial
  | cons r hist ih =>
    obtain ⟨hr, hist⟩ := h
    exact ⟨⟨hr.snap_le, hr.pos_le, hr.after, hr.ran, hr.held, by simpa using hR before r.turn⟩, ih hist⟩

/-- A call refused with a note: the database is `db`, or `db` with that note. -/
def Noted (E : Engine Rows ε Db Write Key Env) (D : Discipline Rows) (db db' : Db) : Prop :=
  db' = db ∨ ∃ s now env r ws, D.note s ∧ E.exec now env s db db = .ok (r, ws) ∧
    db' = E.applyAll db ws

/-- What the stage of a call says about the world it runs in. -/
def Matches (E : Engine Rows ε Db Write Key Env) (D : Discipline Rows) (db : Db) :
    Stage Rows → World Rows Db Write Env → Prop
  | .idle, w => w.db = db ∧ w.tx = .closed
  | .opened h, w => w.db = db ∧ ∃ now hist, w.tx = .opened now hist ∧
      hist.map Record.entry = h ∧ E.Alone db now hist
  | .failed, w => w.db = db
  | .refused, w => E.Noted D db w.db
  | .committed h, w => D.commits h ∧ ∃ now hist, hist.map Record.entry = h ∧
      E.Alone db now hist ∧ w.db = E.view db hist

/-- Reads outside a transaction write nothing. -/
def ReadsQuietly (E : Engine Rows ε Db Write Key Env) (D : Discipline Rows) : Prop :=
  ∀ s, D.reads s → ∀ now env snap cur r ws, E.exec now env s snap cur = .ok (r, ws) → ws = []

theorem start_matches (db : Db) :
    E.Matches D db .idle (World.start db : World Rows Db Write Env) :=
  ⟨rfl, rfl⟩

theorem matches_count {db : Db} {st : Stage Rows} {w : World Rows Db Write Env} {n : Nat}
    (h : E.Matches D db st w) : E.Matches D db st { w with count := n } := by
  cases st <;> exact h

theorem alone_snoc {db : Db} {now : Time} {hist : List (Record Rows Write Env)} {env : Env}
    {s : Stmt} {r : Rows s} {ws : List Write} (h : E.Alone db now hist)
    (hz : ∀ d ∈ hist, d.pos = 0)
    (hx : E.exec now env s (E.view db hist) (E.view db hist) = .ok (r, ws)) :
    E.Alone db now (hist ++ [⟨s, r, ws, env, 0, 0⟩]) := by
  refine sound_snoc.mpr ⟨h, ?_⟩
  refine ⟨Nat.le_refl _, Nat.le_refl _, ?_, ?_, by simp, trivial⟩
  · intro d hd
    exact Nat.le_of_eq (hz d hd)
  · simpa using hx

theorem tx_matches {db : Db} {st : Stage Rows} {w : World Rows Db Write Env} {s : Stmt}
    {k : Except ε (Rows s) → Prog Rows ε α} {Q : α → Stage Rows → Prop} {σ : Supply Env ε}
    (h : wp D (.call (.tx s) k) Q st) (hm : E.Matches D db st w) :
    ∃ st', wp D (k (E.answer σ (.tx s) w).1) Q st' ∧
      E.Matches D db st' (E.answer σ (.tx s) w).2 := by
  obtain ⟨l, rfl, hok, herr⟩ := h
  obtain ⟨rfl, now, hist, htx, hl, ha⟩ := hm
  cases hf : σ.fault with
  | some e =>
    exact ⟨.failed, by simpa [answer, hf, fail] using herr e, by simp [answer, hf, fail, Matches]⟩
  | none =>
    cases hx : E.exec now σ.env s (E.view w.db hist) (E.view w.db hist) with
    | error e =>
      refine ⟨.failed, ?_, ?_⟩
      · simpa [answer, hf, perform, performTx, htx, hx] using herr e
      · simp [answer, hf, perform, performTx, htx, hx, Matches]
    | ok a =>
      obtain ⟨r, ws⟩ := a
      refine ⟨.opened (l ++ [⟨s, r⟩]), ?_, ?_⟩
      · simpa [answer, hf, perform, performTx, htx, hx] using hok r
      · refine ⟨?_, now, hist ++ [⟨s, r, ws, σ.env, 0, 0⟩], ?_, ?_, ?_⟩
        · simp [answer, hf, perform, performTx, htx, hx]
        · simp [answer, hf, perform, performTx, htx, hx]
        · simp [hl, Record.entry]
        · exact alone_snoc ha (fun d hd => Nat.le_zero.mp (ha.pos_le_length d hd)) hx

theorem pool_matches {db : Db} {st : Stage Rows} {w : World Rows Db Write Env} {s : Stmt}
    {k : Except ε (Rows s) → Prog Rows ε α} {Q : α → Stage Rows → Prop} {σ : Supply Env ε}
    (hq : E.ReadsQuietly D) (h : wp D (.call (.pool s) k) Q st) (hm : E.Matches D db st w) :
    ∃ st', wp D (k (E.answer σ (.pool s) w).1) Q st' ∧
      E.Matches D db st' (E.answer σ (.pool s) w).2 := by
  rcases h with ⟨hs, h⟩ | ⟨hs, hst, h⟩
  · refine ⟨st, h _, ?_⟩
    have hw : ∃ n, (E.answer σ (.pool s) w).2 = { w with count := n } := by
      cases hf : σ.fault with
      | some e => exact ⟨_, by simp [answer, hf, fail]; rfl⟩
      | none =>
        cases hx : E.exec σ.now σ.env s w.db w.db with
        | error e => exact ⟨_, by simp [answer, hf, perform, performPool, hx]; rfl⟩
        | ok a =>
          have he := hq s hs _ _ _ _ a.1 a.2 hx
          exact ⟨w.count + 1, by simp [answer, hf, perform, performPool, hx, he]⟩
    obtain ⟨n, hn⟩ := hw
    rw [hn]
    exact matches_count hm
  · refine ⟨.refused, h _, ?_⟩
    obtain rfl : w.db = db := by
      rcases hst with rfl | ⟨l, rfl⟩
      · exact hm
      · exact hm.1
    cases hf : σ.fault with
    | some e => exact Or.inl (by simp [answer, hf, fail])
    | none =>
      cases hx : E.exec σ.now σ.env s w.db w.db with
      | error e => exact Or.inl (by simp [answer, hf, perform, performPool, hx])
      | ok a =>
        refine Or.inr ⟨s, σ.now, σ.env, a.1, a.2, hs, hx, ?_⟩
        simp [answer, hf, perform, performPool, hx]

theorem commit_matches {db : Db} {st : Stage Rows} {w : World Rows Db Write Env}
    {k : Except ε Unit → Prog Rows ε α} {Q : α → Stage Rows → Prop} {σ : Supply Env ε}
    (h : wp D (.call .commit k) Q st) (hm : E.Matches D db st w) :
    ∃ st', wp D (k (E.answer σ .commit w).1) Q st' ∧
      E.Matches D db st' (E.answer σ .commit w).2 := by
  obtain ⟨l, rfl, hc, hok, herr⟩ := h
  obtain ⟨rfl, now, hist, htx, hl, ha⟩ := hm
  cases hf : σ.fault with
  | some e =>
    exact ⟨.failed, by simpa [answer, hf, fail] using herr e, by simp [answer, hf, fail, Matches]⟩
  | none =>
    refine ⟨.committed l, ?_, hc, now, hist, hl, ha, ?_⟩
    · simpa [answer, hf, perform, performCommit, htx] using hok
    · simp [answer, hf, perform, performCommit, htx]

theorem rollback_matches {db : Db} {st : Stage Rows} {w w' : World Rows Db Write Env}
    (hm : E.Matches D db st w) (hdb : w'.db = w.db) (htx : w'.tx = .closed) :
    E.Matches D db st.rollback w' := by
  cases st with
  | idle => exact ⟨hdb.trans hm.1, htx⟩
  | opened h => exact hdb.trans hm.1
  | failed => exact hdb.trans hm
  | refused => simpa [Matches, Stage.rollback, hdb] using hm
  | committed h => simpa [Matches, Stage.rollback, hdb] using hm

/-- One effect takes the stage and the world of a disciplined call forward together. -/
theorem answer_matches {db : Db} {st : Stage Rows} {w : World Rows Db Write Env}
    {e : Effect Stmt} {k : e.Answer Rows ε → Prog Rows ε α} {Q : α → Stage Rows → Prop}
    (σ : Supply Env ε) (hq : E.ReadsQuietly D) (h : wp D (.call e k) Q st)
    (hm : E.Matches D db st w) :
    ∃ st', wp D (k (E.answer σ e w).1) Q st' ∧ E.Matches D db st' (E.answer σ e w).2 := by
  cases e with
  | begin =>
    obtain ⟨rfl, hok, herr⟩ := h
    cases hf : σ.fault with
    | some e =>
      refine ⟨.idle, by simpa [answer, hf, fail] using herr e, ?_⟩
      simpa [answer, hf, fail] using matches_count hm
    | none =>
      refine ⟨.opened [], by simpa [answer, hf, perform] using hok, ?_⟩
      exact ⟨by simpa [answer, hf, perform] using hm.1, σ.now, [], by simp [answer, hf, perform],
        rfl, trivial⟩
  | tx s => exact tx_matches h hm
  | pool s => exact pool_matches hq h hm
  | commit => exact commit_matches h hm
  | rollback =>
    refine ⟨st.rollback, h, rollback_matches hm ?_ ?_⟩ <;>
      cases hf : σ.fault <;> simp [answer, hf, fail, perform]
  | now =>
    refine ⟨st, h _, ?_⟩
    cases hf : σ.fault <;> simpa [answer, hf, fail, perform] using matches_count hm

/-- A disciplined call, whatever fails in it, ends in a stage its postcondition allows. -/
theorem run_wp {db : Db} (hq : E.ReadsQuietly D) (supply : Nat → Supply Env ε)
    {p : Prog Rows ε α} {Q : α → Stage Rows → Prop} {st : Stage Rows}
    {w : World Rows Db Write Env} (h : wp D p Q st) (hm : E.Matches D db st w) :
    ∃ st', E.Matches D db st' (E.run supply p w).2 ∧ Q (E.run supply p w).1 st' := by
  induction p generalizing st w with
  | done a => exact ⟨st, hm, h⟩
  | call e k ih =>
    obtain ⟨st', hp, hm'⟩ := answer_matches (supply w.count) hq h hm
    exact ih _ hp hm'

end Engine
end Txn
