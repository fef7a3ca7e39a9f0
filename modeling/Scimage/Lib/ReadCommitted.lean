import Scimage.Lib.Engine
import Mathlib.Data.Fintype.Basic

/-!
Transactions interleaved under READ COMMITTED. Every statement reads the version committed
when it starts. A statement that writes a row waits until no other open transaction has
written it, and then acts on the newest version.
-/
namespace Txn

variable {Stmt : Type} {Rows : Stmt → Type} {ε Db Write Key Env α ι : Type}

/-- A call in progress. `waiting` is the snapshot, as a number of commits, of a statement
that waits for its row. -/
structure Thread (Rows : Stmt → Type) (ε Write Env α : Type) where
  prog : Prog Rows ε α
  tx : Tx Rows Write Env
  waiting : Option Nat

structure Shared (Rows : Stmt → Type) (ε Write Env α ι : Type) where
  log : List (Commit Rows Write Env)
  threads : ι → Thread Rows ε Write Env α
  clock : Time

/-- What happens next: time passes, a thread's statement takes its snapshot, or a thread's
next effect completes or fails. -/
inductive Event (ι Env ε : Type) where
  | tick (d : Nat)
  | wait (t : ι)
  | run (t : ι) (env : Env) (wall : Time)
  | fail (t : ι) (e : ε)

def Thread.pending (th : Thread Rows ε Write Env α) : List Write :=
  match th.tx with
  | .opened _ h => writesOf h
  | _ => []

namespace Shared

variable [DecidableEq ι]

def set (s : Shared Rows ε Write Env α ι) (t : ι) (th : Thread Rows ε Write Env α) :
    Shared Rows ε Write Env α ι :=
  { s with threads := Function.update s.threads t th }

def append (s : Shared Rows ε Write Env α ι) (c : Commit Rows Write Env) :
    Shared Rows ε Write Env α ι :=
  { s with log := s.log ++ [c] }

def start (progs : ι → Prog Rows ε α) : Shared Rows ε Write Env α ι :=
  ⟨[], fun t => ⟨progs t, .closed, none⟩, 0⟩

end Shared

namespace Engine

variable (E : Engine Rows ε Db Write Key Env)

/-- What the committed transactions of a run did, in commit order: each transaction is one
the discipline allows, ran on versions committed before it, and wrote rows that nobody
committed between its write and its own commit. -/
inductive History (D : Discipline Rows) (db : Db) (R : Condition Rows Write Env) :
    List (Commit Rows Write Env) → Prop where
  | nil : History D db R []
  | tx {log : List (Commit Rows Write Env)} {c : Commit Rows Write Env} : History D db R log →
      D.commits (c.hist.map Record.entry) → E.Sound db R log c.now [] c.hist →
      History D db R (log ++ [c])
  | pool {log : List (Commit Rows Write Env)} {now : Time} {r : Record Rows Write Env} :
      History D db R log → D.reads r.stmt ∨ D.note r.stmt →
      E.exec now r.env r.stmt (E.current db log) (E.current db log) = .ok (r.rows, r.writes) →
      History D db R (log ++ [⟨now, [r]⟩])

variable {E} in
theorem History.of_prefix {D : Discipline Rows} {db : Db} {R : Condition Rows Write Env}
    {pre log : List (Commit Rows Write Env)} (h : E.History D db R log) (hp : pre <+: log) :
    E.History D db R pre := by
  induction h with
  | nil => exact List.prefix_nil.mp hp ▸ .nil
  | tx h hc hs ih =>
    rcases List.prefix_concat_iff.mp hp with rfl | hp
    · exact .tx h hc hs
    · exact ih hp
  | pool h hd hx ih =>
    rcases List.prefix_concat_iff.mp hp with rfl | hp
    · exact .pool h hd hx
    · exact ih hp

/-- A thread runs the rest of a disciplined call, and what its open transaction did is sound. -/
def ThreadOk (D : Discipline Rows) (Q : α → Stage Rows → Prop) (db : Db)
    (R : Condition Rows Write Env) (log : List (Commit Rows Write Env))
    (th : Thread Rows ε Write Env α) : Prop :=
  ∃ st, wp D th.prog Q st ∧ ∀ h, st = .opened h → ∃ now hist, th.tx = .opened now hist ∧
    hist.map Record.entry = h ∧ E.Sound db R log now [] hist ∧
    ∀ n, th.waiting = some n → n ≤ log.length ∧ ∀ r ∈ hist, r.pos ≤ n

structure Inv (D : Discipline Rows) (Q : α → Stage Rows → Prop) (db : Db)
    (R : Condition Rows Write Env) (s : Shared Rows ε Write Env α ι) : Prop where
  threads : ∀ t, E.ThreadOk D Q db R s.log (s.threads t)
  apart : ∀ t u, t ≠ u →
    List.Disjoint (E.keysOf (s.threads t).pending) (E.keysOf (s.threads u).pending)
  history : E.History D db R s.log

section Invariant

variable {E}
variable {D : Discipline Rows} {Q : α → Stage Rows → Prop} {db : Db}
  {R : Condition Rows Write Env} {log : List (Commit Rows Write Env)}
  {s : Shared Rows ε Write Env α ι} {t : ι} {th : Thread Rows ε Write Env α}

theorem ThreadOk.append {c : Commit Rows Write Env} (h : E.ThreadOk D Q db R log th)
    (hc : List.Disjoint (E.keysOf th.pending) (E.keysOf c.writes)) :
    E.ThreadOk D Q db R (log ++ [c]) th := by
  obtain ⟨st, hp, hst⟩ := h
  refine ⟨st, hp, ?_⟩
  intro l hl
  obtain ⟨now, hist, htx, hh, hs, hw⟩ := hst l hl
  refine ⟨now, hist, htx, hh, hs.append (by simpa [Thread.pending, htx] using hc), ?_⟩
  intro n hn
  exact ⟨by have := (hw n hn).1; simp; omega, (hw n hn).2⟩

/-- A thread with no open transaction only has its program to be held to. -/
theorem threadOk_of_wp {st : Stage Rows} (hp : wp D th.prog Q st) (hst : ∀ h, st ≠ .opened h) :
    E.ThreadOk D Q db R log th :=
  ⟨st, hp, fun h hh => (hst h hh).elim⟩

theorem Inv.set [DecidableEq ι] (hi : E.Inv D Q db R s) (hth : E.ThreadOk D Q db R s.log th)
    (hp : ∀ u, u ≠ t → List.Disjoint (E.keysOf th.pending) (E.keysOf (s.threads u).pending)) :
    E.Inv D Q db R (s.set t th) := by
  refine ⟨?_, ?_, hi.history⟩
  · intro u
    by_cases hu : u = t
    · subst u
      simpa [Shared.set] using hth
    · simpa [Shared.set, hu] using hi.threads u
  · intro u v huv
    by_cases hu : u = t
    · subst u
      simpa [Shared.set, huv.symm] using hp v huv.symm
    · by_cases hv : v = t
      · subst v
        simpa [Shared.set, hu] using (hp u hu).symm
      · simpa [Shared.set, hu, hv] using hi.apart u v huv

/-- A commit leaves the threads whose writes it does not touch as they were. -/
theorem Inv.append {c : Commit Rows Write Env} (hi : E.Inv D Q db R s)
    (hh : E.History D db R (s.log ++ [c]))
    (hc : ∀ u, List.Disjoint (E.keysOf (s.threads u).pending) (E.keysOf c.writes)) :
    E.Inv D Q db R (s.append c) :=
  ⟨fun u => (hi.threads u).append (hc u), hi.apart, hh⟩

/-- A thread that drops its writes, or keeps those it has, stays apart from the others. -/
theorem Inv.set_same [DecidableEq ι] (hi : E.Inv D Q db R s)
    (hth : E.ThreadOk D Q db R s.log th)
    (hp : th.pending = [] ∨ th.pending = (s.threads t).pending) :
    E.Inv D Q db R (s.set t th) := by
  apply hi.set hth
  intro u hu
  rcases hp with hp | hp
  · simp [hp]
  · rw [hp]
    exact hi.apart t u hu.symm

end Invariant

variable [DecidableEq ι] [Fintype ι] [DecidableEq Key]

/-- No other open transaction has written any of these rows. -/
def Free (s : Shared Rows ε Write Env α ι) (t : ι) (ws : List Write) : Prop :=
  ∀ u, u ≠ t → ∀ k ∈ E.keysOf ws, k ∉ E.keysOf (s.threads u).pending

instance (s : Shared Rows ε Write Env α ι) (t : ι) (ws : List Write) : Decidable (E.Free s t ws) :=
  inferInstanceAs (Decidable (∀ u, u ≠ t → ∀ k ∈ E.keysOf ws, k ∉ E.keysOf (s.threads u).pending))

/-- The snapshot of the statement that thread `t` runs next: one that waits for a row has
taken it already, any other takes it now. -/
def snapshot (s : Shared Rows ε Write Env α ι) (t : ι) (stmt : Stmt) : Option Nat :=
  if (E.row stmt).isSome then (s.threads t).waiting else some s.log.length

def runTx (db : Db) (s : Shared Rows ε Write Env α ι) (t : ι) (env : Env) (stmt : Stmt)
    (k : Except ε (Rows stmt) → Prog Rows ε α) : Option (Shared Rows ε Write Env α ι) :=
  match (s.threads t).tx, E.snapshot s t stmt with
  | .opened now h, some n =>
    match E.exec now env stmt (E.view (E.dbAt db s.log n) h) (E.view (E.current db s.log) h) with
    | .ok (r, ws) =>
      if E.Free s t ws then
        some (s.set t ⟨k (.ok r), .opened now (h ++ [⟨stmt, r, ws, env, n, s.log.length⟩]), none⟩)
      else none
    | .error e => some (s.set t ⟨k (.error e), .aborted, none⟩)
  | _, _ => none

/-- A statement on a connection of its own commits by itself. -/
def runPool (db : Db) (s : Shared Rows ε Write Env α ι) (t : ι) (env : Env) (stmt : Stmt)
    (k : Except ε (Rows stmt) → Prog Rows ε α) : Option (Shared Rows ε Write Env α ι) :=
  let th := s.threads t
  match E.exec s.clock env stmt (E.current db s.log) (E.current db s.log) with
  | .ok (r, ws) =>
    if ∀ u, ∀ k ∈ E.keysOf ws, k ∉ E.keysOf (s.threads u).pending then
      some ((s.append ⟨s.clock, [⟨stmt, r, ws, env, s.log.length, s.log.length⟩]⟩).set t
        { th with prog := k (.ok r) })
    else none
  | .error e => some (s.set t { th with prog := k (.error e) })

/-- The next effect of thread `t` completes. -/
def runThread (db : Db) (s : Shared Rows ε Write Env α ι) (t : ι) (env : Env) (wall : Time) :
    Option (Shared Rows ε Write Env α ι) :=
  let th := s.threads t
  match th.prog with
  | .done _ => none
  | .call .begin k => some (s.set t ⟨k (.ok ()), .opened s.clock [], none⟩)
  | .call (.tx stmt) k => E.runTx db s t env stmt k
  | .call (.pool stmt) k => E.runPool db s t env stmt k
  | .call .commit k =>
    match th.tx with
    | .opened now h =>
      some ((s.append ⟨now, h⟩).set t ⟨k (.ok ()), .closed, none⟩)
    | .aborted | .closed => some (s.set t ⟨k (.error E.aborted), .closed, none⟩)
  | .call .rollback k => some (s.set t ⟨k (), .closed, none⟩)
  | .call .now k => some (s.set t { th with prog := k wall })

/-- The next effect of thread `t` fails; a rollback and the clock do not. -/
def failThread (s : Shared Rows ε Write Env α ι) (t : ι) (e : ε) :
    Option (Shared Rows ε Write Env α ι) :=
  let th := s.threads t
  match th.prog with
  | .call .begin k => some (s.set t { th with prog := k (.error e) })
  | .call (.tx _) k => some (s.set t ⟨k (.error e), .aborted, none⟩)
  | .call (.pool _) k => some (s.set t { th with prog := k (.error e) })
  | .call .commit k => some (s.set t ⟨k (.error e), .closed, none⟩)
  | _ => none

/-- Whether thread `t` is about to wait for a row and has no snapshot yet. -/
def awaits (s : Shared Rows ε Write Env α ι) (t : ι) : Bool :=
  match (s.threads t).prog with
  | .call (.tx stmt) _ => (E.row stmt).isSome && (s.threads t).waiting.isNone
  | _ => false

def step (db : Db) (s : Shared Rows ε Write Env α ι) :
    Event ι Env ε → Option (Shared Rows ε Write Env α ι)
  | .tick d => some { s with clock := s.clock + d }
  | .wait t =>
    if E.awaits s t then some (s.set t { s.threads t with waiting := some s.log.length })
    else none
  | .run t env wall => E.runThread db s t env wall
  | .fail t e => failThread s t e

/-- The states that a run reaches by events that all meet `G`. -/
inductive Reach (db : Db) (progs : ι → Prog Rows ε α)
    (G : Shared Rows ε Write Env α ι → Event ι Env ε → Prop) :
    Shared Rows ε Write Env α ι → Prop where
  | start : Reach db progs G (.start progs)
  | step {s s' : Shared Rows ε Write Env α ι} {e : Event ι Env ε} : Reach db progs G s →
      G s e → E.step db s e = some s' → Reach db progs G s'

/-- The run of a list of events, if each of them can happen and meets `G`. -/
def steps (db : Db) (G : Shared Rows ε Write Env α ι → Event ι Env ε → Prop)
    [∀ s e, Decidable (G s e)] (s : Shared Rows ε Write Env α ι) :
    List (Event ι Env ε) → Option (Shared Rows ε Write Env α ι)
  | [] => some s
  | e :: es => if G s e then (E.step db s e).bind fun s => steps db G s es else none

/-- The statement that thread `t` runs next in its transaction, after those before it. -/
def upcoming (s : Shared Rows ε Write Env α ι) (t : ι) (env : Env) :
    Option (List (Record Rows Write Env) × Turn Stmt Env) :=
  match (s.threads t).prog, (s.threads t).tx with
  | .call (.tx stmt) _, .opened _ h => (E.snapshot s t stmt).map fun n => (h, ⟨stmt, env, n⟩)
  | _, _ => none

/-- The guard that every statement of a transaction meets `R` when it takes effect. -/
def Meets (R : Condition Rows Write Env) (s : Shared Rows ε Write Env α ι) :
    Event ι Env ε → Prop
  | .run t env _ => ∀ x ∈ E.upcoming s t env, R s.log x.1 x.2
  | _ => True

instance (R : Condition Rows Write Env) [∀ l b x, Decidable (R l b x)]
    (s : Shared Rows ε Write Env α ι) : (e : Event ι Env ε) → Decidable (E.Meets R s e)
  | .run t env _ => inferInstanceAs (Decidable (∀ x ∈ E.upcoming s t env, R s.log x.1 x.2))
  | .tick _ | .wait _ | .fail _ _ => isTrue trivial

variable {E}
variable {D : Discipline Rows} {Q : α → Stage Rows → Prop} {db : Db}
  {R : Condition Rows Write Env} {s s' : Shared Rows ε Write Env α ι} {t : ι}
  {G : Shared Rows ε Write Env α ι → Event ι Env ε → Prop}

theorem Reach.mono {progs : ι → Prog Rows ε α}
    {G' : Shared Rows ε Write Env α ι → Event ι Env ε → Prop} (hG : ∀ s e, G s e → G' s e)
    (h : E.Reach db progs G s) : E.Reach db progs G' s := by
  induction h with
  | start => exact .start
  | step _ hg hs ih => exact ih.step (hG _ _ hg) hs

theorem reach_steps {progs : ι → Prog Rows ε α} [∀ s e, Decidable (G s e)]
    {es : List (Event ι Env ε)} (h : E.Reach db progs G s) (hs : E.steps db G s es = some s') :
    E.Reach db progs G s' := by
  induction es generalizing s with
  | nil =>
    obtain rfl := Option.some.inj hs
    exact h
  | cons e es ih =>
    unfold steps at hs
    split at hs
    · rename_i hg
      obtain ⟨m, hm, hs⟩ := Option.bind_eq_some_iff.mp hs
      exact ih (h.step hg hm) hs
    · simp at hs

omit [DecidableEq ι] [Fintype ι] [DecidableEq Key] in
/-- The snapshot of a statement lies between the statements before it and the last commit. -/
theorem snapshot_bounds {stmt : Stmt} {n : Nat} {now : Time}
    {hist : List (Record Rows Write Env)} (h : E.snapshot s t stmt = some n)
    (hs : E.Sound db R s.log now [] hist)
    (hw : ∀ m, (s.threads t).waiting = some m → m ≤ s.log.length ∧ ∀ r ∈ hist, r.pos ≤ m) :
    n ≤ s.log.length ∧ ∀ r ∈ hist, r.pos ≤ n := by
  unfold snapshot at h
  split at h
  · exact hw n h
  · simp only [Option.some.injEq] at h
    subst n
    exact ⟨Nat.le_refl _, hs.pos_le_length⟩

theorem inv_runTx {stmt : Stmt} {k : Except ε (Rows stmt) → Prog Rows ε α} {env : Env}
    {wall : Time} (hi : E.Inv D Q db R s) (hG : E.Meets R s (.run t env wall))
    (hk : (s.threads t).prog = .call (.tx stmt) k)
    (h : E.runTx db s t env stmt k = some s') : E.Inv D Q db R s' := by
  obtain ⟨st, hp, hst⟩ := hi.threads t
  rw [hk] at hp
  obtain ⟨l, rfl, hok, herr⟩ := hp
  obtain ⟨now, hist, htx, hl, hs, hw⟩ := hst l rfl
  unfold runTx at h
  rw [htx] at h
  cases hn : E.snapshot s t stmt with
  | none => simp [hn] at h
  | some n =>
    obtain ⟨hle, hpos⟩ := snapshot_bounds hn hs hw
    simp only [hn] at h
    cases hx : E.exec now env stmt (E.view (E.dbAt db s.log n) hist)
        (E.view (E.current db s.log) hist) with
    | error e =>
      simp only [hx, Option.some.injEq] at h
      subst h
      exact hi.set_same (threadOk_of_wp (herr e) (by simp)) (Or.inl rfl)
    | ok a =>
      obtain ⟨r, ws⟩ := a
      simp only [hx] at h
      split at h
      · rename_i hfree
        simp only [Option.some.injEq] at h
        subst h
        apply hi.set
        · refine ⟨.opened (l ++ [⟨stmt, r⟩]), hok r, ?_⟩
          rintro _ ⟨⟩
          refine ⟨now, _, rfl, by simp [hl, Record.entry], sound_snoc.mpr ⟨hs, ?_⟩, by simp⟩
          refine ⟨hle, Nat.le_refl _, by simpa using hpos, by simpa [current] using hx,
            by simp, ?_⟩
          simpa [Record.turn] using hG (hist, ⟨stmt, env, n⟩) (by simp [upcoming, hk, htx, hn])
        · intro u hu
          have ha := hi.apart t u hu.symm
          simp only [Thread.pending, htx, writesOf_append, writesOf_cons, writesOf_nil,
            List.append_nil, keysOf_append, List.disjoint_append_left] at ha ⊢
          exact ⟨ha, fun k hk hk' => hfree u hu k hk hk'⟩
      · simp at h

theorem inv_runPool {stmt : Stmt} {k : Except ε (Rows stmt) → Prog Rows ε α} {env : Env}
    (hi : E.Inv D Q db R s) (hk : (s.threads t).prog = .call (.pool stmt) k)
    (h : E.runPool db s t env stmt k = some s') : E.Inv D Q db R s' := by
  obtain ⟨st, hp, hst⟩ := hi.threads t
  rw [hk] at hp
  have hth : ∀ a, E.ThreadOk D Q db R s.log { s.threads t with prog := k a } := by
    rcases hp with ⟨_, hp⟩ | ⟨_, _, hp⟩
    · exact fun a => ⟨st, hp a, hst⟩
    · exact fun a => threadOk_of_wp (hp a) (by simp)
  have hset := fun a => hi.set_same (t := t) (hth a) (Or.inr rfl)
  unfold runPool at h
  cases hx : E.exec s.clock env stmt (E.current db s.log) (E.current db s.log) with
  | error e =>
    simp only [hx, Option.some.injEq] at h
    exact h ▸ hset (.error e)
  | ok a =>
    obtain ⟨r, ws⟩ := a
    simp only [hx] at h
    split at h
    · rename_i hfree
      simp only [Option.some.injEq] at h
      subst h
      refine (hset (.ok r)).append (.pool hi.history ?_ hx) ?_
      · exact hp.imp And.left And.left
      · intro u k hk hk'
        refine hfree u k (by simpa [Commit.writes] using hk') ?_
        by_cases hu : u = t
        · subst u
          simpa [Shared.set, Thread.pending] using hk
        · simpa [Shared.set, hu] using hk
    · simp at h

theorem inv_runThread {env : Env} {wall : Time} (hi : E.Inv D Q db R s)
    (hG : E.Meets R s (.run t env wall))
    (h : E.runThread db s t env wall = some s') : E.Inv D Q db R s' := by
  unfold runThread at h
  cases hprog : (s.threads t).prog with
  | done a => simp [hprog] at h
  | call e k =>
    obtain ⟨st, hp, hst⟩ := hi.threads t
    rw [hprog] at hp
    cases e with
    | begin =>
      simp only [hprog, Option.some.injEq] at h
      subst h
      refine hi.set_same ⟨.opened [], hp.2.1, ?_⟩ (Or.inl rfl)
      rintro _ ⟨⟩
      exact ⟨s.clock, [], rfl, rfl, trivial, by simp⟩
    | tx stmt =>
      simp only [hprog] at h
      exact inv_runTx hi hG hprog h
    | pool stmt =>
      simp only [hprog] at h
      exact inv_runPool hi hprog h
    | commit =>
      obtain ⟨l, rfl, hc, hok, _⟩ := hp
      obtain ⟨now, hist, htx, hl, hs, _⟩ := hst l rfl
      simp only [hprog, htx, Option.some.injEq] at h
      subst h
      have hset : E.Inv D Q db R (s.set t ⟨k (.ok ()), .closed, none⟩) :=
        hi.set_same (threadOk_of_wp hok (by simp)) (Or.inl rfl)
      refine hset.append (.tx hi.history (by simpa [hl] using hc) hs) ?_
      intro u
      by_cases hu : u = t
      · subst u
        simp [Shared.set, Thread.pending]
      · simpa [Shared.set, hu, Commit.writes, Thread.pending, htx] using hi.apart u t hu
    | rollback =>
      simp only [hprog, Option.some.injEq] at h
      subst h
      exact hi.set_same (threadOk_of_wp hp (by cases st <;> simp [Stage.rollback])) (Or.inl rfl)
    | now =>
      simp only [hprog, Option.some.injEq] at h
      subst h
      exact hi.set_same ⟨st, hp wall, hst⟩ (Or.inr rfl)

omit [Fintype ι] [DecidableEq Key] in
theorem inv_failThread {e : ε} (hi : E.Inv D Q db R s)
    (h : failThread s t e = some s') : E.Inv D Q db R s' := by
  unfold failThread at h
  obtain ⟨st, hp, hst⟩ := hi.threads t
  cases hprog : (s.threads t).prog with
  | done a => simp [hprog] at h
  | call f k =>
    rw [hprog] at hp
    cases f with
    | begin =>
      simp only [hprog, Option.some.injEq] at h
      subst h
      exact hi.set_same (threadOk_of_wp (hp.2.2 e) (by simp)) (Or.inr rfl)
    | tx stmt =>
      obtain ⟨l, rfl, _, herr⟩ := hp
      simp only [hprog, Option.some.injEq] at h
      subst h
      exact hi.set_same (threadOk_of_wp (herr e) (by simp)) (Or.inl rfl)
    | pool stmt =>
      simp only [hprog, Option.some.injEq] at h
      subst h
      rcases hp with ⟨_, hp⟩ | ⟨_, _, hp⟩
      · exact hi.set_same ⟨st, hp _, hst⟩ (Or.inr rfl)
      · exact hi.set_same (threadOk_of_wp (hp _) (by simp)) (Or.inr rfl)
    | commit =>
      obtain ⟨l, rfl, _, _, herr⟩ := hp
      simp only [hprog, Option.some.injEq] at h
      subst h
      exact hi.set_same (threadOk_of_wp (herr e) (by simp)) (Or.inl rfl)
    | rollback => simp [hprog] at h
    | now => simp [hprog] at h

theorem inv_step {e : Event ι Env ε} (hi : E.Inv D Q db R s) (hG : E.Meets R s e)
    (h : E.step db s e = some s') : E.Inv D Q db R s' := by
  cases e with
  | tick d =>
    simp only [step, Option.some.injEq] at h
    subst h
    exact ⟨hi.threads, hi.apart, hi.history⟩
  | wait t =>
    simp only [step] at h
    split at h
    · simp only [Option.some.injEq] at h
      subst h
      obtain ⟨st, hp, hst⟩ := hi.threads t
      refine hi.set_same ⟨st, hp, ?_⟩ (Or.inr rfl)
      intro l hl
      obtain ⟨now, hist, htx, hh, hs, _⟩ := hst l hl
      refine ⟨now, hist, htx, hh, hs, ?_⟩
      rintro _ ⟨⟩
      exact ⟨Nat.le_refl _, hs.pos_le_length⟩
    · simp at h
  | run t env wall => exact inv_runThread hi hG h
  | fail t e => exact inv_failThread hi h

/-- Whatever the interleaving, the commits of disciplined calls form a sound history. -/
theorem reach_inv {progs : ι → Prog Rows ε α} (hp : ∀ t, wp D (progs t) Q .idle)
    (h : E.Reach db progs (E.Meets R) s) : E.Inv D Q db R s := by
  induction h with
  | start =>
    refine ⟨fun t => threadOk_of_wp (hp t) (by simp), ?_, .nil⟩
    intro t u _
    simp [Shared.start, Thread.pending]
  | step _ hg hs ih => exact inv_step ih hg hs

end Engine
end Txn
