import Scimage.Lib.ReadCommitted

/-! Threads that only look at a database of which something stays known. -/
namespace Txn

variable {Stmt : Type} {Rows : Stmt → Type} {ε Db Write Key Env α ι : Type}

/-- Whose event it is. -/
def Event.thread : Event ι Env ε → Option ι
  | .tick _ => none
  | .wait t | .run t _ _ | .fail t _ => some t

namespace Engine

variable (E : Engine Rows ε Db Write Key Env)

/-- A program that runs no transaction, writes nothing and ends as `Q` says, whatever versions that
meet `I` it reads. -/
def Observes (I : Db → Prop) (Q : α → Prop) : Prog Rows ε α → Prop
  | .done a => Q a
  | .call (.pool s) k =>
    (∀ now env d r ws, I d → E.exec now env s d d = .ok (r, ws) → ws = [] ∧ Observes I Q (k (.ok r))) ∧
      ∀ e, Observes I Q (k (.error e))
  | .call .now k => ∀ t, Observes I Q (k t)
  | .call .begin _ | .call (.tx _) _ | .call .commit _ | .call .rollback _ => False

variable {E} {I : Db → Prop} {β : Type}

theorem observes_bind {Q : β → Prop} {p : Prog Rows ε α} {f : α → Prog Rows ε β}
    (h : E.Observes I (fun a => E.Observes I Q (f a)) p) : E.Observes I Q (p >>= f) := by
  induction p with
  | done a => exact h
  | call e k ih =>
    cases e with
    | pool s =>
      exact ⟨fun now env d r ws hd hx => ⟨(h.1 now env d r ws hd hx).1, ih _ (h.1 now env d r ws hd hx).2⟩,
        fun e => ih _ (h.2 e)⟩
    | now => exact fun t => ih _ (h t)
    | begin | tx | commit | rollback => exact h.elim

theorem observes_mono {Q Q' : α → Prop} (hQ : ∀ a, Q a → Q' a) {p : Prog Rows ε α}
    (h : E.Observes I Q p) : E.Observes I Q' p := by
  induction p with
  | done a => exact hQ a h
  | call e k ih =>
    cases e with
    | pool s =>
      exact ⟨fun now env d r ws hd hx => ⟨(h.1 now env d r ws hd hx).1, ih _ (h.1 now env d r ws hd hx).2⟩,
        fun e => ih _ (h.2 e)⟩
    | now => exact fun t => ih _ (h t)
    | begin | tx | commit | rollback => exact h.elim

variable (E) [DecidableEq ι] [Fintype ι] [DecidableEq Key]

/-- The states that a run comes to from `s` on. -/
inductive Onward (db : Db) (s : Shared Rows ε Write Env α ι) : Shared Rows ε Write Env α ι → Prop where
  | refl : Onward db s s
  | step {m m' : Shared Rows ε Write Env α ι} {e : Event ι Env ε} : Onward db s m →
      E.step db m e = some m' → Onward db s m'

variable {E} {db : Db} {s m m' : Shared Rows ε Write Env α ι} {t : ι} {Q : α → Prop}

theorem Reach.onward {progs : ι → Prog Rows ε α} (h : E.Reach db progs (fun _ _ => True) s)
    (ho : E.Onward db s m) : E.Reach db progs (fun _ _ => True) m := by
  induction ho with
  | refl => exact h
  | step _ hs ih => exact ih.step trivial hs

/-- An event keeps the commits there are, and the threads but its own. -/
theorem step_frame {e : Event ι Env ε} (h : E.step db m e = some m') :
    m.log <+: m'.log ∧ ∀ u, e.thread ≠ some u → m'.threads u = m.threads u := by
  have hset : ∀ {u : ι} {th : Thread Rows ε Write Env α} {log : List (Commit Rows Write Env)},
      m.log <+: log → m' = { (m.set u th) with log := log } → e.thread = some u →
      m.log <+: m'.log ∧ ∀ v, e.thread ≠ some v → m'.threads v = m.threads v := by
    rintro u th log hlog rfl hu
    refine ⟨hlog, fun v hv => ?_⟩
    have hne : v ≠ u := fun huv => hv (huv ▸ hu)
    simp [Shared.set, hne]
  cases e with
  | tick d =>
    obtain rfl := Option.some.inj h
    exact ⟨List.prefix_rfl, fun _ _ => rfl⟩
  | wait u =>
    simp only [step] at h
    split at h
    · exact hset List.prefix_rfl (Option.some.inj h).symm rfl
    · cases h
  | fail u e =>
    simp only [step, failThread] at h
    split at h
    any_goals exact hset List.prefix_rfl (Option.some.inj h).symm rfl
    cases h
  | run u env wall =>
    simp only [step, runThread] at h
    split at h
    · cases h
    · exact hset List.prefix_rfl (Option.some.inj h).symm rfl
    · unfold runTx at h
      repeat' split at h
      any_goals cases h
      all_goals exact hset List.prefix_rfl rfl rfl
    · unfold runPool at h
      dsimp only at h
      repeat' split at h
      any_goals cases h
      · exact hset (List.prefix_append _ _) rfl rfl
      · exact hset List.prefix_rfl rfl rfl
    · split at h
      · exact hset (List.prefix_append _ _) (Option.some.inj h).symm rfl
      all_goals exact hset List.prefix_rfl (Option.some.inj h).symm rfl
    · exact hset List.prefix_rfl (Option.some.inj h).symm rfl
    · exact hset List.prefix_rfl (Option.some.inj h).symm rfl

theorem Onward.log_prefix (h : E.Onward db s m) : s.log <+: m.log := by
  induction h with
  | refl => exact List.prefix_rfl
  | step _ hs ih => exact ih.trans (step_frame hs).1

theorem onward_steps {G : Shared Rows ε Write Env α ι → Event ι Env ε → Prop}
    [∀ s e, Decidable (G s e)] {es : List (Event ι Env ε)} (h : E.Onward db s m)
    (hs : E.steps db G m es = some m') : E.Onward db s m' := by
  induction es generalizing m with
  | nil =>
    obtain rfl := Option.some.inj hs
    exact h
  | cons e es ih =>
    unfold steps at hs
    split at hs
    · obtain ⟨n, hn, hs⟩ := Option.bind_eq_some_iff.mp hs
      exact ih (h.step hn) hs
    · cases hs

/-- A thread without a transaction that only looks. -/
def Watching (E : Engine Rows ε Db Write Key Env) (I : Db → Prop) (Q : α → Prop)
    (th : Thread Rows ε Write Env α) : Prop :=
  th.tx = .closed ∧ E.Observes I Q th.prog

/-- Its next effect leaves it looking, and the database as it is. -/
theorem watching_run {e : Event ι Env ε} (he : e.thread = some t) (hI : I (E.current db m.log))
    (h : E.step db m e = some m') (hw : E.Watching I Q (m.threads t)) :
    E.Watching I Q (m'.threads t) ∧ E.current db m'.log = E.current db m.log := by
  obtain ⟨htx, hprog⟩ := hw
  cases e with
  | tick d => cases he
  | wait u =>
    obtain rfl := Option.some.inj he
    simp only [step] at h
    split at h
    · obtain rfl := Option.some.inj h
      simpa [Watching, Shared.set] using ⟨htx, hprog⟩
    · cases h
  | fail u x =>
    obtain rfl := Option.some.inj he
    simp only [step, failThread] at h
    cases hp : (m.threads u).prog with
    | done a => simp [hp] at h
    | call f k =>
      rw [hp] at hprog h
      cases f with
      | pool stmt =>
        obtain rfl := Option.some.inj h
        simpa [Watching, Shared.set] using ⟨htx, hprog.2 x⟩
      | now => cases h
      | begin | tx | commit | rollback => exact hprog.elim
  | run u env wall =>
    obtain rfl := Option.some.inj he
    simp only [step, runThread] at h
    cases hp : (m.threads u).prog with
    | done a => simp [hp] at h
    | call f k =>
      rw [hp] at hprog h
      cases f with
      | pool stmt =>
        unfold runPool at h
        dsimp only at h
        split at h
        · rename_i rows ws hx
          obtain ⟨rfl, hk⟩ := hprog.1 _ _ _ _ _ hI hx
          split at h
          · obtain rfl := Option.some.inj h
            simpa [Watching, Shared.set, Shared.append, Commit.writes] using ⟨htx, hk⟩
          · cases h
        · rename_i x _
          obtain rfl := Option.some.inj h
          simpa [Watching, Shared.set] using ⟨htx, hprog.2 x⟩
      | now =>
        obtain rfl := Option.some.inj h
        simpa [Watching, Shared.set] using ⟨htx, hprog wall⟩
      | begin | tx | commit | rollback => exact hprog.elim

/-- A thread that looks on goes on looking, as long as the database is known to meet `I`. -/
theorem Onward.watching (h : E.Onward db s m)
    (hI : ∀ n, E.Onward db s n → I (E.current db n.log)) (hw : E.Watching I Q (s.threads t)) :
    E.Watching I Q (m.threads t) := by
  induction h with
  | refl => exact hw
  | @step n m' e hn hs ih =>
    by_cases he : e.thread = some t
    · exact (watching_run he (hI n hn) hs ih).1
    · rw [(step_frame hs).2 t he]
      exact ih

end Engine

end Txn
