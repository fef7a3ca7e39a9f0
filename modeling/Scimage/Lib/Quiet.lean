import Scimage.Lib.Sequential

/-! Calls whose effects do not fail, and where they lead. -/
namespace Txn

variable {Stmt : Type} {Rows : Stmt → Type} {ε Db Write Key Env α β δ δ' : Type}

/-- Nothing fails. -/
def Quiet (supply : Nat → Supply Env ε) : Prop := ∀ n, (supply n).fault = none

/-- One effect of a call that may be refused for reasons of its own. -/
def Prog.ask (e : Effect Stmt) : ExceptT δ (Prog Rows ε) (e.Answer Rows ε) :=
  ExceptT.mk (.call e fun a => .done (.ok a))

namespace World

variable {w : World Rows Db Write Env} {db : Db}

/-- No transaction is open. -/
def Idle (w : World Rows Db Write Env) (db : Db) : Prop := w.db = db ∧ w.tx = .closed

end World

namespace Engine

variable (E : Engine Rows ε Db Write Key Env) (supply : Nat → Supply Env ε)

/-- A transaction begun at `now` over `db` sees `v`. -/
def Open (now : Time) (db v : Db) (w : World Rows Db Write Env) : Prop :=
  w.db = db ∧ ∃ hist, w.tx = .opened now hist ∧ E.view db hist = v

/-- What a call made in the world `w` ends with. -/
def Leads (c : ExceptT δ (Prog Rows ε) α) (ok : α → World Rows Db Write Env → Prop)
    (err : δ → World Rows Db Write Env → Prop) (w : World Rows Db Write Env) : Prop :=
  match E.run supply c.run w with
  | (.ok a, w') => ok a w'
  | (.error e, w') => err e w'

variable {E supply}
variable {ok : α → World Rows Db Write Env → Prop} {err : δ → World Rows Db Write Env → Prop}
  {w : World Rows Db Write Env} {now : Time} {db v : Db}

theorem run_bind (p : Prog Rows ε α) (f : α → Prog Rows ε β) (w : World Rows Db Write Env) :
    E.run supply (p >>= f) w = E.run supply (f (E.run supply p w).1) (E.run supply p w).2 := by
  induction p generalizing w with
  | done a => rfl
  | call e k ih => exact ih _ _

@[simp] theorem leads_pure (a : α) : E.Leads supply (pure a) ok err w ↔ ok a w :=
  Iff.rfl

@[simp] theorem leads_throw (e : δ) :
    E.Leads supply (throw e : ExceptT δ (Prog Rows ε) α) ok err w ↔ err e w :=
  Iff.rfl

theorem leads_bind {c : ExceptT δ (Prog Rows ε) β} {f : β → ExceptT δ (Prog Rows ε) α} :
    E.Leads supply (c >>= f) ok err w ↔
      E.Leads supply c (fun b => E.Leads supply (f b) ok err) err w := by
  unfold Leads
  rw [ExceptT.run_bind, run_bind]
  rcases E.run supply c.run w with ⟨e | a, w'⟩ <;> rfl

theorem Leads.mono {c : ExceptT δ (Prog Rows ε) α} {ok' : α → World Rows Db Write Env → Prop}
    {err' : δ → World Rows Db Write Env → Prop} (hok : ∀ a w, ok a w → ok' a w)
    (herr : ∀ e w, err e w → err' e w) (h : E.Leads supply c ok err w) :
    E.Leads supply c ok' err' w := by
  unfold Leads at h ⊢
  revert h
  rcases E.run supply c.run w with ⟨e | a, w'⟩
  · exact herr e w'
  · exact hok a w'

/-- A call that hands its failure on in other words. -/
theorem leads_mapError {c : ExceptT δ' (Prog Rows ε) α} {f : δ' → δ} :
    E.Leads supply (ExceptT.mk (c.run >>= fun r => pure (r.mapError f))) ok err w ↔
      E.Leads supply c ok (fun e => err (f e)) w := by
  unfold Leads
  rw [ExceptT.run_mk, run_bind]
  rcases E.run supply c.run w with ⟨e | a, w'⟩ <;> rfl

/-- A call whose failure is looked at. -/
theorem Leads.and {c : ExceptT δ (Prog Rows ε) α} {ok' : α → World Rows Db Write Env → Prop}
    {err' : δ → World Rows Db Write Env → Prop} (h : E.Leads supply c ok err w)
    (h' : E.Leads supply c ok' err' w) :
    E.Leads supply c (fun a w => ok a w ∧ ok' a w) (fun e w => err e w ∧ err' e w) w := by
  unfold Leads at h h' ⊢
  revert h h'
  rcases E.run supply c.run w with ⟨e | a, w'⟩
  · exact And.intro
  · exact And.intro

theorem leads_any {c : ExceptT δ (Prog Rows ε) α} :
    E.Leads supply c (fun _ _ => True) (fun _ _ => True) w := by
  unfold Leads
  rcases E.run supply c.run w with ⟨e | a, w'⟩ <;> trivial

theorem leads_catch {c : ExceptT δ' (Prog Rows ε) α} {ok : Except δ' α → World Rows Db Write Env → Prop} :
    E.Leads supply (ExceptT.mk (c.run >>= fun r => pure (.ok r))) ok err w ↔
      E.Leads supply c (fun a => ok (.ok a)) (fun e => ok (.error e)) w := by
  unfold Leads
  rw [ExceptT.run_mk, run_bind]
  rcases E.run supply c.run w with ⟨e | a, w'⟩ <;> rfl

/-! ### Single effects

A failure is the database's own answer, unless the supply is not quiet. -/

theorem answer_cases (e : Effect Stmt) (w : World Rows Db Write Env) :
    E.answer (supply w.count) e w =
        E.perform (supply w.count) e { w with count := w.count + 1 } ∨
      ¬ Quiet supply ∧ ∃ x, E.answer (supply w.count) e w =
        fail x (supply w.count) e { w with count := w.count + 1 } := by
  rw [answer]
  cases hf : (supply w.count).fault with
  | none => exact Or.inl rfl
  | some x =>
    refine Or.inr ⟨?_, x, rfl⟩
    intro hq
    rw [hq w.count] at hf
    cases hf

theorem leads_ask {e : Effect Stmt} {ok : e.Answer Rows ε → World Rows Db Write Env → Prop}
    (hok : ok (E.perform (supply w.count) e { w with count := w.count + 1 }).1
      (E.perform (supply w.count) e { w with count := w.count + 1 }).2)
    (hfail : ¬ Quiet supply → ∀ x, ok (fail x (supply w.count) e { w with count := w.count + 1 }).1
      (fail x (supply w.count) e { w with count := w.count + 1 }).2) :
    E.Leads supply (Prog.ask e) ok err w := by
  change ok (E.answer (supply w.count) e w).1 (E.answer (supply w.count) e w).2
  rcases answer_cases e w with ha | ⟨hq, x, ha⟩
  · rw [ha]
    exact hok
  · rw [ha]
    exact hfail hq x

theorem leads_begin (hw : w.Idle db) {ok : Except ε Unit → World Rows Db Write Env → Prop}
    (hok : ∀ now w', E.Open now db db w' → ok (.ok ()) w')
    (herr : ∀ e w', ¬ Quiet supply → w'.Idle db → ok (.error e) w') :
    E.Leads supply (Prog.ask .begin) ok err w :=
  leads_ask (hok _ _ ⟨hw.1, [], rfl, rfl⟩) fun hq x => herr x _ hq hw

theorem leads_commit (hw : E.Open now db v w)
    {ok : Except ε Unit → World Rows Db Write Env → Prop} (hok : ∀ w', w'.Idle v → ok (.ok ()) w')
    (herr : ∀ e w', ¬ Quiet supply → w'.db = db → ok (.error e) w') :
    E.Leads supply (Prog.ask .commit) ok err w := by
  obtain ⟨rfl, hist, htx, rfl⟩ := hw
  refine leads_ask ?_ fun hq x => herr x _ hq rfl
  simp only [perform, performCommit, htx]
  exact hok _ ⟨rfl, rfl⟩

theorem rollback_idle (w : World Rows Db Write Env) :
    (E.answer (supply w.count) .rollback w).2.Idle w.db := by
  rcases answer_cases .rollback w with ha | ⟨-, x, ha⟩
  · rw [ha]
    exact ⟨rfl, rfl⟩
  · rw [ha]
    exact ⟨rfl, rfl⟩

/-- Whatever a call ends with, a rollback after it closes the transaction. -/
theorem leads_rollback {c : ExceptT δ (Prog Rows ε) α}
    (h : E.Leads supply c (fun a w => ∀ w', w'.Idle w.db → ok a w')
      (fun e w => ∀ w', w'.Idle w.db → err e w') w) :
    E.Leads supply (ExceptT.mk do
      let r ← c.run
      Prog.perform .rollback
      pure r) ok err w := by
  unfold Leads at h ⊢
  rw [ExceptT.run_mk, run_bind]
  revert h
  rcases E.run supply c.run w with ⟨e | a, w'⟩
  · intro h
    exact h _ (rollback_idle w')
  · intro h
    exact h _ (rollback_idle w')

theorem leads_now {ok : Time → World Rows Db Write Env → Prop}
    (h : ∀ t w', w'.db = w.db → w'.tx = w.tx → ok t w') : E.Leads supply (Prog.ask .now) ok err w :=
  leads_ask (h _ _ rfl rfl) fun _ _ => h _ _ rfl rfl

/-- A statement in the transaction, which reads what the transaction sees and takes what it
needs to generate from the supply. -/
theorem leads_tx_supplied (hw : E.Open now db v w) {s : Stmt}
    {ok : Except ε (Rows s) → World Rows Db Write Env → Prop}
    (hok : ∀ n r ws w', E.exec now (supply n).env s v v = .ok (r, ws) →
      E.Open now db (E.applyAll v ws) w' → ok (.ok r) w')
    (herr : ∀ e w', (Quiet supply → ∃ n, E.exec now (supply n).env s v v = .error e) → w'.db = db →
      ok (.error e) w') :
    E.Leads supply (Prog.ask (.tx s)) ok err w := by
  obtain ⟨rfl, hist, htx, rfl⟩ := hw
  refine leads_ask ?_ fun hq x => herr x _ (fun h => (hq h).elim) rfl
  simp only [perform, performTx, htx]
  cases hx : E.exec now (supply w.count).env s (E.view w.db hist) (E.view w.db hist) with
  | error e => exact herr e _ (fun _ => ⟨_, hx⟩) rfl
  | ok a =>
    obtain ⟨r, ws⟩ := a
    refine hok _ r ws _ hx ⟨rfl, _, rfl, ?_⟩
    simp [view]

theorem leads_tx (hw : E.Open now db v w) {s : Stmt}
    {ok : Except ε (Rows s) → World Rows Db Write Env → Prop}
    (hok : ∀ env r ws w', E.exec now env s v v = .ok (r, ws) →
      E.Open now db (E.applyAll v ws) w' → ok (.ok r) w')
    (herr : ∀ e w', (Quiet supply → ∃ env, E.exec now env s v v = .error e) → w'.db = db →
      ok (.error e) w') :
    E.Leads supply (Prog.ask (.tx s)) ok err w :=
  leads_tx_supplied hw (fun n => hok (supply n).env) fun e w' hx =>
    herr e w' fun hq => (hx hq).imp' (fun n => (supply n).env) fun _ h => h

/-- A statement on a connection of its own. -/
theorem leads_pool {s : Stmt} {ok : Except ε (Rows s) → World Rows Db Write Env → Prop}
    (hok : ∀ now env r ws w', E.exec now env s w.db w.db = .ok (r, ws) →
      w'.db = E.applyAll w.db ws → w'.tx = w.tx → ok (.ok r) w')
    (herr : ∀ e w', (Quiet supply → ∃ now env, E.exec now env s w.db w.db = .error e) →
      w'.db = w.db → w'.tx = w.tx → ok (.error e) w') :
    E.Leads supply (Prog.ask (.pool s)) ok err w := by
  refine leads_ask ?_ fun hq x => herr x _ (fun h => (hq h).elim) rfl rfl
  simp only [perform, performPool]
  cases hx : E.exec (supply w.count).now (supply w.count).env s w.db w.db with
  | error e => exact herr e _ (fun _ => ⟨_, _, hx⟩) rfl rfl
  | ok a =>
    obtain ⟨r, ws⟩ := a
    exact hok _ _ r ws _ hx rfl rfl

/-! ### Failures traced to where they come from

A failure is the database's own answer, or one that the supply has. -/

/-- The supply has the failure `x`. -/
def Faults (supply : Nat → Supply Env ε) (x : ε) : Prop := ∃ n, (supply n).fault = some x

theorem leads_ask_fault {e : Effect Stmt} {ok : e.Answer Rows ε → World Rows Db Write Env → Prop}
    (hok : ok (E.perform (supply w.count) e { w with count := w.count + 1 }).1
      (E.perform (supply w.count) e { w with count := w.count + 1 }).2)
    (hfail : ∀ x, Faults supply x → ok (fail x (supply w.count) e { w with count := w.count + 1 }).1
      (fail x (supply w.count) e { w with count := w.count + 1 }).2) :
    E.Leads supply (Prog.ask e) ok err w := by
  change ok (E.answer (supply w.count) e w).1 (E.answer (supply w.count) e w).2
  rw [answer]
  cases hf : (supply w.count).fault with
  | none => exact hok
  | some x => exact hfail x ⟨_, hf⟩

theorem leads_tx_fault (hw : E.Open now db v w) {s : Stmt}
    {ok : Except ε (Rows s) → World Rows Db Write Env → Prop}
    (hok : ∀ env r ws w', E.exec now env s v v = .ok (r, ws) → ok (.ok r) w')
    (herr : ∀ e w', (Faults supply e ∨ ∃ env, E.exec now env s v v = .error e) → ok (.error e) w') :
    E.Leads supply (Prog.ask (.tx s)) ok err w := by
  obtain ⟨rfl, hist, htx, rfl⟩ := hw
  refine leads_ask_fault ?_ fun x hx => herr x _ (Or.inl hx)
  simp only [perform, performTx, htx]
  cases hx : E.exec now (supply w.count).env s (E.view w.db hist) (E.view w.db hist) with
  | error e => exact herr e _ (Or.inr ⟨_, hx⟩)
  | ok a =>
    obtain ⟨r, ws⟩ := a
    exact hok _ r ws _ hx

theorem leads_pool_fault {s : Stmt} {ok : Except ε (Rows s) → World Rows Db Write Env → Prop}
    (hok : ∀ now env r ws w', E.exec now env s w.db w.db = .ok (r, ws) → ok (.ok r) w')
    (herr : ∀ e w', (Faults supply e ∨ ∃ now env, E.exec now env s w.db w.db = .error e) → ok (.error e) w') :
    E.Leads supply (Prog.ask (.pool s)) ok err w := by
  refine leads_ask_fault ?_ fun x hx => herr x _ (Or.inl hx)
  simp only [perform, performPool]
  cases hx : E.exec (supply w.count).now (supply w.count).env s w.db w.db with
  | error e => exact herr e _ (Or.inr ⟨_, _, hx⟩)
  | ok a =>
    obtain ⟨r, ws⟩ := a
    exact hok _ _ r ws _ hx

/-! ### Calls that fail in certain ways only -/

/-- Wherever it is made, the call fails with what `P` allows. -/
def Only (E : Engine Rows ε Db Write Key Env) (supply : Nat → Supply Env ε) (P : δ → Prop)
    (c : ExceptT δ (Prog Rows ε) α) : Prop :=
  ∀ w, E.Leads supply c (fun _ _ => True) (fun e _ => P e) w

variable {P : δ → Prop}

theorem only_pure (a : α) : E.Only supply P (pure a) := fun _ => trivial

theorem only_throw {e : δ} (h : P e) : E.Only supply P (throw e : ExceptT δ (Prog Rows ε) α) := fun _ => h

theorem only_ask (e : Effect Stmt) : E.Only supply P (Prog.ask e) := fun _ => trivial

theorem Only.bind {c : ExceptT δ (Prog Rows ε) β} {f : β → ExceptT δ (Prog Rows ε) α}
    (hc : E.Only supply P c) (hf : ∀ b, E.Only supply P (f b)) : E.Only supply P (c >>= f) := by
  intro w
  refine leads_bind.mpr ((hc w).mono ?_ fun _ _ h => h)
  exact fun b w' _ => hf b w'

end Engine
end Txn
