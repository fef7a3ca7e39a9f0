import Scimage.Lib.Program
import Mathlib.Data.List.Basic

/-! What a transaction did: its statements, the versions they read and the rows they wrote. -/
namespace Txn

variable {Stmt : Type} {Rows : Stmt → Type} {ε Db Write Key Env : Type}

/-- A database seen from one statement. `exec now env s snap cur` runs `s` in a transaction
begun at `now`: `snap` is the version its snapshot reads, `cur` the newest one, which a
statement that waits for a row (`row`) finds once it holds the row's lock. -/
structure Engine (Rows : Stmt → Type) (ε Db Write Key Env : Type) where
  exec : Time → Env → (s : Stmt) → (snap cur : Db) → Except ε (Rows s × List Write)
  apply : Db → Write → Db
  keys : Write → List Key
  row : Stmt → Option Key
  aborted : ε

/-- One statement of a transaction: what it returned and wrote, how many commits its
snapshot saw and how many had happened when it took effect. -/
structure Record (Rows : Stmt → Type) (Write Env : Type) where
  stmt : Stmt
  rows : Rows stmt
  writes : List Write
  env : Env
  snap : Nat
  pos : Nat

def Record.entry (r : Record Rows Write Env) : Entry Rows := ⟨r.stmt, r.rows⟩

/-- A statement about to take effect. -/
structure Turn (Stmt Env : Type) where
  stmt : Stmt
  env : Env
  snap : Nat

def Record.turn (r : Record Rows Write Env) : Turn Stmt Env := ⟨r.stmt, r.env, r.snap⟩

theorem Record.entry_eq {r : Record Rows Write Env} {s : Stmt} {x : Rows s} :
    r.entry = ⟨s, x⟩ ↔ ∃ ws env snap pos, r = ⟨s, x, ws, env, snap, pos⟩ := by
  constructor
  · intro h
    obtain ⟨s', x', ws, env, snap, pos⟩ := r
    obtain ⟨rfl, hx⟩ := Sigma.mk.inj h
    obtain rfl := eq_of_heq hx
    exact ⟨ws, env, snap, pos, rfl⟩
  · rintro ⟨ws, env, snap, pos, rfl⟩
    rfl

/-- A history that starts with a known statement. -/
theorem map_entry_eq_cons {hist : List (Record Rows Write Env)} {s : Stmt} {x : Rows s}
    {es : List (Entry Rows)} : hist.map Record.entry = ⟨s, x⟩ :: es ↔
      ∃ ws env snap pos rest, hist = ⟨s, x, ws, env, snap, pos⟩ :: rest ∧
        rest.map Record.entry = es := by
  rw [List.map_eq_cons_iff]
  constructor
  · rintro ⟨r, rest, rfl, hr, hrest⟩
    obtain ⟨ws, env, snap, pos, rfl⟩ := Record.entry_eq.mp hr
    exact ⟨ws, env, snap, pos, rest, rfl, hrest⟩
  · rintro ⟨ws, env, snap, pos, rest, rfl, hrest⟩
    exact ⟨_, rest, rfl, rfl, hrest⟩

theorem map_entry_eq_singleton {hist : List (Record Rows Write Env)} {s : Stmt} {x : Rows s} :
    hist.map Record.entry = [⟨s, x⟩] ↔ ∃ ws env snap pos, hist = [⟨s, x, ws, env, snap, pos⟩] := by
  rw [map_entry_eq_cons]
  constructor
  · rintro ⟨ws, env, snap, pos, rest, rfl, hrest⟩
    rw [List.map_eq_nil_iff.mp hrest]
    exact ⟨ws, env, snap, pos, rfl⟩
  · rintro ⟨ws, env, snap, pos, rfl⟩
    exact ⟨ws, env, snap, pos, [], rfl, rfl⟩

inductive Tx (Rows : Stmt → Type) (Write Env : Type) where
  | closed
  | opened (now : Time) (hist : List (Record Rows Write Env))
  | aborted

structure Commit (Rows : Stmt → Type) (Write Env : Type) where
  now : Time
  hist : List (Record Rows Write Env)

def writesOf (hist : List (Record Rows Write Env)) : List Write := hist.flatMap Record.writes

@[simp] theorem writesOf_nil : writesOf ([] : List (Record Rows Write Env)) = [] := rfl

@[simp] theorem writesOf_cons (r : Record Rows Write Env) (hist : List (Record Rows Write Env)) :
    writesOf (r :: hist) = r.writes ++ writesOf hist := rfl

@[simp] theorem writesOf_append (a b : List (Record Rows Write Env)) :
    writesOf (a ++ b) = writesOf a ++ writesOf b := List.flatMap_append

def Commit.writes (c : Commit Rows Write Env) : List Write := writesOf c.hist

namespace Engine

variable (E : Engine Rows ε Db Write Key Env)

def applyAll (db : Db) (ws : List Write) : Db := ws.foldl E.apply db

@[simp] theorem applyAll_nil (db : Db) : E.applyAll db [] = db := rfl

@[simp] theorem applyAll_cons (db : Db) (w : Write) (ws : List Write) :
    E.applyAll db (w :: ws) = E.applyAll (E.apply db w) ws := rfl

@[simp] theorem applyAll_append (db : Db) (a b : List Write) :
    E.applyAll db (a ++ b) = E.applyAll (E.applyAll db a) b := List.foldl_append

/-- What a transaction sees: a committed version under its own writes. -/
def view (db : Db) (hist : List (Record Rows Write Env)) : Db := E.applyAll db (writesOf hist)

@[simp] theorem view_nil (db : Db) : E.view db [] = db := rfl

/-- The version after the first `n` commits. -/
def dbAt (db : Db) (log : List (Commit Rows Write Env)) (n : Nat) : Db :=
  (log.take n).foldl (fun d c => E.applyAll d c.writes) db

def current (db : Db) (log : List (Commit Rows Write Env)) : Db := E.dbAt db log log.length

@[simp] theorem dbAt_nil (db : Db) (n : Nat) :
    E.dbAt db ([] : List (Commit Rows Write Env)) n = db := by
  simp [dbAt]

theorem dbAt_append {db : Db} {log more : List (Commit Rows Write Env)} {n : Nat}
    (h : n ≤ log.length) : E.dbAt db (log ++ more) n = E.dbAt db log n := by
  simp [dbAt, List.take_append_of_le_length h]

@[simp] theorem current_nil (db : Db) : E.current db ([] : List (Commit Rows Write Env)) = db :=
  rfl

theorem dbAt_take {db : Db} {log : List (Commit Rows Write Env)} {n p : Nat} (h : n ≤ p) :
    E.dbAt db (log.take p) n = E.dbAt db log n := by
  simp [dbAt, List.take_take, Nat.min_eq_left h]

theorem current_take (db : Db) (log : List (Commit Rows Write Env)) (p : Nat) :
    E.current db (log.take p) = E.dbAt db log p := by
  simp only [current, dbAt, List.take_length]

@[simp] theorem current_snoc (db : Db) (log : List (Commit Rows Write Env))
    (c : Commit Rows Write Env) :
    E.current db (log ++ [c]) = E.applyAll (E.current db log) c.writes := by
  simp [current, dbAt, List.take_of_length_le]

theorem current_commit (db : Db) (log : List (Commit Rows Write Env)) (c : Commit Rows Write Env) :
    E.current db (log ++ [c]) = E.view (E.current db log) c.hist :=
  current_snoc E db log c

def keysOf (ws : List Write) : List Key := ws.flatMap E.keys

@[simp] theorem keysOf_nil : E.keysOf [] = [] := rfl

@[simp] theorem keysOf_cons (w : Write) (ws : List Write) :
    E.keysOf (w :: ws) = E.keys w ++ E.keysOf ws := rfl

@[simp] theorem keysOf_append (a b : List Write) :
    E.keysOf (a ++ b) = E.keysOf a ++ E.keysOf b := List.flatMap_append

/-- The number of commits that the snapshot of a transaction's first statement saw, where a
statement that sees `next` comes after `hist`. -/
def firstSnap (hist : List (Record Rows Write Env)) (next : Nat) : Nat :=
  match hist with
  | [] => next
  | r :: _ => r.snap

/-- A condition on a statement, given the commits before it takes effect and the statements
of its transaction before it. -/
abbrev Condition (Rows : Stmt → Type) (Write Env : Type) :=
  List (Commit Rows Write Env) → List (Record Rows Write Env) → Turn Stmt Env → Prop

/-- A statement of a transaction that is still open when `log` has been committed: it ran on
versions of that log, and nobody has since committed a row that it wrote. -/
structure StepOk (db : Db) (R : Condition Rows Write Env) (log : List (Commit Rows Write Env))
    (now : Time) (before : List (Record Rows Write Env)) (r : Record Rows Write Env) : Prop where
  snap_le : r.snap ≤ r.pos
  pos_le : r.pos ≤ log.length
  after : ∀ d ∈ before, d.pos ≤ r.snap
  ran : E.exec now r.env r.stmt (E.view (E.dbAt db log r.snap) before)
    (E.view (E.dbAt db log r.pos) before) = .ok (r.rows, r.writes)
  held : ∀ c ∈ log.drop r.pos, List.Disjoint (E.keysOf r.writes) (E.keysOf c.writes)
  cond : R (log.take r.pos) before r.turn

def Sound (db : Db) (R : Condition Rows Write Env) (log : List (Commit Rows Write Env))
    (now : Time) : (before hist : List (Record Rows Write Env)) → Prop
  | _, [] => True
  | before, r :: hist =>
    E.StepOk db R log now before r ∧ Sound db R log now (before ++ [r]) hist

variable {E}
variable {db : Db} {R : Condition Rows Write Env} {log : List (Commit Rows Write Env)}
  {now : Time} {before hist : List (Record Rows Write Env)} {r : Record Rows Write Env}

theorem sound_snoc : E.Sound db R log now before (hist ++ [r]) ↔
    E.Sound db R log now before hist ∧ E.StepOk db R log now (before ++ hist) r := by
  induction hist generalizing before with
  | nil => simp [Sound]
  | cons d hist ih => simp [Sound, ih, and_assoc]

theorem sound_append {a b : List (Record Rows Write Env)} : E.Sound db R log now before (a ++ b) ↔
    E.Sound db R log now before a ∧ E.Sound db R log now (before ++ a) b := by
  induction a generalizing before with
  | nil => simp [Sound]
  | cons d a ih => simp [Sound, ih, and_assoc]

theorem StepOk.append {c : Commit Rows Write Env} (h : E.StepOk db R log now before r)
    (hc : List.Disjoint (E.keysOf r.writes) (E.keysOf c.writes)) :
    E.StepOk db R (log ++ [c]) now before r := by
  have hp := h.pos_le
  have hs : r.snap ≤ log.length := Nat.le_trans h.snap_le hp
  refine ⟨h.snap_le, by simp; omega, h.after, ?_, ?_, ?_⟩
  · rw [E.dbAt_append hs, E.dbAt_append hp]
    exact h.ran
  · intro d hd
    rw [List.drop_append_of_le_length hp, List.mem_append] at hd
    rcases hd with hd | hd
    · exact h.held d hd
    · simpa [List.mem_singleton.mp hd] using hc
  · rw [List.take_append_of_le_length hp]
    exact h.cond

theorem Sound.pos_le_length (h : E.Sound db R log now before hist) :
    ∀ d ∈ hist, d.pos ≤ log.length := by
  induction hist generalizing before with
  | nil => simp
  | cons d hist ih =>
    intro c hc
    rcases List.mem_cons.mp hc with rfl | hc
    · exact h.1.pos_le
    · exact ih h.2 c hc

/-- What an open transaction did stays valid when another one commits other rows. -/
theorem Sound.append {c : Commit Rows Write Env} (h : E.Sound db R log now before hist)
    (hc : List.Disjoint (E.keysOf (writesOf hist)) (E.keysOf c.writes)) :
    E.Sound db R (log ++ [c]) now before hist := by
  induction hist generalizing before with
  | nil => trivial
  | cons d hist ih =>
    simp only [writesOf_cons, keysOf_append, List.disjoint_append_left] at hc
    exact ⟨h.1.append hc.1, ih h.2 hc.2⟩

end Engine
end Txn
