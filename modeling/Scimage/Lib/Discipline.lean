import Scimage.Lib.Program

/-! Programs held to a weaker discipline, and programs that only read. -/
namespace Txn

variable {Stmt : Type} {Rows : Stmt → Type} {ε α β : Type} {D D' : Discipline Rows}

/-- What `D` allows, `D'` allows. -/
structure Discipline.Within (D D' : Discipline Rows) : Prop where
  commits : ∀ h, D.commits h → D'.commits h
  reads : ∀ s, D.reads s → D'.reads s
  note : ∀ s, D.note s → D'.note s

theorem wp_within (hD : D.Within D') {p : Prog Rows ε α} {Q : α → Stage Rows → Prop}
    {st : Stage Rows} (h : wp D p Q st) : wp D' p Q st := by
  induction p generalizing st with
  | done a => exact h
  | call e k ih =>
    cases e with
    | begin => exact ⟨h.1, ih _ h.2.1, fun e => ih _ (h.2.2 e)⟩
    | tx s =>
      obtain ⟨l, hst, hok, herr⟩ := h
      exact ⟨l, hst, fun r => ih _ (hok r), fun e => ih _ (herr e)⟩
    | pool s =>
      rcases h with ⟨hs, h⟩ | ⟨hs, hst, h⟩
      · exact Or.inl ⟨hD.reads s hs, fun a => ih a (h a)⟩
      · exact Or.inr ⟨hD.note s hs, hst, fun a => ih a (h a)⟩
    | commit =>
      obtain ⟨l, hst, hc, hok, herr⟩ := h
      exact ⟨l, hst, hD.commits l hc, ih _ hok, fun e => ih _ (herr e)⟩
    | rollback => exact ih () h
    | now => exact fun t => ih t (h t)

/-- A program that only reads, each time on a connection of its own. -/
def Looks (reads : Stmt → Prop) : Prog Rows ε α → Prop
  | .done _ => True
  | .call (.pool s) k => reads s ∧ ∀ a, Looks reads (k a)
  | .call .now k => ∀ t, Looks reads (k t)
  | .call _ _ => False

theorem looks_bind {reads : Stmt → Prop} {p : Prog Rows ε α} {f : α → Prog Rows ε β}
    (hp : Looks reads p) (hf : ∀ a, Looks reads (f a)) : Looks reads (p >>= f) := by
  induction p with
  | done a => exact hf a
  | call e k ih =>
    cases e with
    | pool s => exact ⟨hp.1, fun a => ih a (hp.2 a)⟩
    | now => exact fun t => ih t (hp t)
    | begin | tx | commit | rollback => exact hp.elim

/-- It leaves its transaction, if there is one, as it is. -/
theorem Looks.wp {p : Prog Rows ε α} (hp : Looks D.reads p) (st : Stage Rows) :
    wp D p (fun _ st' => st' = st) st := by
  induction p with
  | done a => rfl
  | call e k ih =>
    cases e with
    | pool s => exact Or.inl ⟨hp.1, fun a => ih a (hp.2 a)⟩
    | now => exact fun t => ih t (hp t)
    | begin | tx | commit | rollback => exact hp.elim

end Txn
