import Mathlib.Logic.Function.Basic

/-! Programs that talk to a database through transactions, and what they may commit. -/
namespace Txn

abbrev Time := Int

/-- What a call asks of the outside: a transaction, statements in it, statements on a
connection of their own, and the process clock. -/
inductive Effect (Stmt : Type) where
  | begin
  | tx (s : Stmt)
  | pool (s : Stmt)
  | commit
  | rollback
  | now

variable {Stmt : Type} {Rows : Stmt → Type} {ε α β : Type}

abbrev Effect.Answer (Rows : Stmt → Type) (ε : Type) : Effect Stmt → Type
  | .begin | .commit => Except ε Unit
  | .tx s | .pool s => Except ε (Rows s)
  | .rollback => Unit
  | .now => Time

inductive Prog (Rows : Stmt → Type) (ε α : Type) where
  | done (a : α)
  | call (e : Effect Stmt) (k : e.Answer Rows ε → Prog Rows ε α)

namespace Prog

def bind : Prog Rows ε α → (α → Prog Rows ε β) → Prog Rows ε β
  | .done a, f => f a
  | .call e k, f => .call e fun a => (k a).bind f

instance : Monad (Prog Rows ε) where
  pure := .done
  bind := .bind

def perform (e : Effect Stmt) : Prog Rows ε (e.Answer Rows ε) := .call e .done

@[simp] theorem pure_eq (a : α) : (pure a : Prog Rows ε α) = .done a := rfl

@[simp] theorem done_bind (a : α) (f : α → Prog Rows ε β) : (Prog.done a >>= f) = f a := rfl

@[simp] theorem call_bind (e : Effect Stmt) (k : e.Answer Rows ε → Prog Rows ε α)
    (f : α → Prog Rows ε β) : (Prog.call e k >>= f) = .call e fun a => k a >>= f := rfl

end Prog

/-- A statement together with the rows it returned. -/
abbrev Entry (Rows : Stmt → Type) := (s : Stmt) × Rows s

/-- How far a call has come with its transaction. `refused` means that it has recorded a
refusal outside the transaction, which can then only be rolled back. -/
inductive Stage (Rows : Stmt → Type) where
  | idle
  | opened (h : List (Entry Rows))
  | failed
  | refused
  | committed (h : List (Entry Rows))

def Stage.rollback : Stage Rows → Stage Rows
  | .opened _ => .failed
  | st => st

@[simp] theorem Stage.rollback_opened (h : List (Entry Rows)) :
    (Stage.opened h).rollback = .failed := rfl
@[simp] theorem Stage.rollback_failed : (Stage.failed : Stage Rows).rollback = .failed := rfl
@[simp] theorem Stage.rollback_refused : (Stage.refused : Stage Rows).rollback = .refused := rfl
@[simp] theorem Stage.rollback_committed (h : List (Entry Rows)) :
    (Stage.committed h).rollback = .committed h := rfl

/-- Which histories may be committed, and which statements may run outside the transaction:
reads at any time, a note only instead of a commit. -/
structure Discipline (Rows : Stmt → Type) where
  commits : List (Entry Rows) → Prop
  reads : Stmt → Prop
  note : Stmt → Prop

/-- The weakest precondition of a program over the stages of its transaction, whatever
the database answers. -/
def wp (D : Discipline Rows) :
    Prog Rows ε α → (α → Stage Rows → Prop) → Stage Rows → Prop
  | .done a, Q, st => Q a st
  | .call .begin k, Q, st => st = .idle ∧ wp D (k (.ok ())) Q (.opened []) ∧
      ∀ e, wp D (k (.error e)) Q .idle
  | .call (.tx s) k, Q, st => ∃ h, st = .opened h ∧
      (∀ r, wp D (k (.ok r)) Q (.opened (h ++ [⟨s, r⟩]))) ∧ ∀ e, wp D (k (.error e)) Q .failed
  | .call (.pool s) k, Q, st => (D.reads s ∧ ∀ a, wp D (k a) Q st) ∨
      (D.note s ∧ (st = .failed ∨ ∃ h, st = .opened h) ∧ ∀ a, wp D (k a) Q .refused)
  | .call .commit k, Q, st => ∃ h, st = .opened h ∧ D.commits h ∧
      wp D (k (.ok ())) Q (.committed h) ∧ ∀ e, wp D (k (.error e)) Q .failed
  | .call .rollback k, Q, st => wp D (k ()) Q st.rollback
  | .call .now k, Q, st => ∀ t, wp D (k t) Q st

variable {D : Discipline Rows}

@[simp] theorem wp_done (a : α) (Q : α → Stage Rows → Prop) (st : Stage Rows) :
    wp D (.done a : Prog Rows ε α) Q st ↔ Q a st := Iff.rfl

theorem wp_mono {p : Prog Rows ε α} {Q R : α → Stage Rows → Prop} {st : Stage Rows}
    (hQR : ∀ a st, Q a st → R a st) (h : wp D p Q st) : wp D p R st := by
  induction p generalizing st with
  | done a => exact hQR a st h
  | call e k ih =>
    cases e with
    | begin => exact ⟨h.1, ih _ h.2.1, fun e => ih _ (h.2.2 e)⟩
    | tx s =>
      obtain ⟨l, hst, hok, herr⟩ := h
      exact ⟨l, hst, fun r => ih _ (hok r), fun e => ih _ (herr e)⟩
    | pool s =>
      rcases h with ⟨hs, h⟩ | ⟨hs, hst, h⟩
      · exact Or.inl ⟨hs, fun a => ih a (h a)⟩
      · exact Or.inr ⟨hs, hst, fun a => ih a (h a)⟩
    | commit =>
      obtain ⟨l, hst, hc, hok, herr⟩ := h
      exact ⟨l, hst, hc, ih _ hok, fun e => ih _ (herr e)⟩
    | rollback => exact ih () h
    | now => exact fun t => ih t (h t)

theorem wp_bind {p : Prog Rows ε α} {f : α → Prog Rows ε β} {Q : β → Stage Rows → Prop}
    {st : Stage Rows} : wp D (p >>= f) Q st ↔ wp D p (fun a => wp D (f a) Q) st := by
  induction p generalizing st with
  | done a => exact Iff.rfl
  | call e k ih =>
    cases e <;> simp only [Prog.call_bind, wp, ih]

end Txn
