import Scimage.Scim.Batch
import Scimage.Scim.Frame

/-! Requests that write one user, statement by statement. -/
namespace Scimage.Scim

open Txn Engine
open Store (engine Db Env DbError Postgres UserRow execSelectUser execUpdateUser execDeactivateUser scanUser
  replaceUser)
open Json (Value quote)

/-! ### Statements -/

/-- A request is a PATCH, a PUT or a DELETE of a user. -/
structure Ask where
  r : Request
  m : Method

/-- A statement of a request: what it reads of the user, what it reads of the registry, what it writes. -/
inductive Event (n : Nat) where
  | read (i : Fin n)
  | registry (i : Fin n)
  | write (i : Fin n) (now : Store.Time)

def Event.writer {n : Nat} : Event n → Option (Fin n × Store.Time)
  | .write i now => some (i, now)
  | _ => none

/-- The database, and what each request has read so far. -/
structure Progress (n : Nat) where
  db : Db
  seen : Fin n → Option Store.User
  known : Fin n → Option Registry

def Progress.start (n : Nat) (db : Db) : Progress n := ⟨db, fun _ => none, fun _ => none⟩

/-- The row that a PUT or a PATCH hands to `UpdateUser`. -/
def Handler.replacement (h : Handler) (a : Ask) (seen : Option Store.User) (registry : Registry) :
    Option Store.User :=
  match a.m with
  | .put => Except.toOption do
    let (u, keys) ← h.decodedUser a.r
    sameID a.r u.id
    return h.userRow a.r registry u keys
  | .patch => do
    let p ← (receivedPatch a.r).toOption
    let existing ← seen
    (h.patchedUser a.r registry existing p).toOption
  | _ => none

def updated (pg : Postgres) (db : Db) : Store.Effects (Option Store.Change) → Option Db
  | .ok (some _, ws) => some ((engine pg).applyAll db ws)
  | _ => none

def Handler.wrote (pg : Postgres) (h : Handler) (a : Ask) (seen : Option Store.User)
    (known : Option Registry) (now : Store.Time) (db : Db) : Option Db :=
  if a.m = .delete then updated pg db (execDeactivateUser pg now a.r.tenantID a.r.id db db)
  else do
    let registry ← known
    let su ← h.replacement a seen registry
    updated pg db (execUpdateUser pg now a.r.tenantID a.r.id su db db)

variable {n : Nat}

/-- A statement that succeeds. -/
def Progress.step (pg : Postgres) (h : Handler) (asks : Fin n → Ask) (st : Progress n) :
    Event n → Option (Progress n)
  | .read i =>
    match execSelectUser (asks i).r.tenantID (asks i).r.id st.db with
    | .ok (some u, _) => some { st with seen := Function.update st.seen i (some u) }
    | _ => none
  | .registry i =>
    some { st with
      known := Function.update st.known i (some (h.registryOf st.db (asks i).r.tenantID)) }
  | .write i now =>
    (h.wrote pg (asks i) (st.seen i) (st.known i) now st.db).map fun db => { st with db }

def Progress.run (pg : Postgres) (h : Handler) (asks : Fin n → Ask) (st : Progress n)
    (es : List (Event n)) : Option (Progress n) := es.foldlM (Progress.step pg h asks) st

/-- The requests in the order of their writes. -/
def writers (es : List (Event n)) : List (Fin n × Store.Time) := es.filterMap Event.writer

/-- A request from its first statement to its last. -/
def whole (asks : Fin n → Ask) (o : Fin n × Store.Time) : List (Event n) :=
  (if (asks o.1).m = .patch then [.read o.1] else []) ++
    (if (asks o.1).m = .delete then [] else [.registry o.1]) ++ [.write o.1 o.2]

def serial (asks : Fin n → Ask) (order : List (Fin n × Store.Time)) : List (Event n) :=
  order.flatMap (whole asks)

/-- Nothing is written between what a PATCH reads and what it writes. -/
def Undisturbed (asks : Fin n → Ask) (es : List (Event n)) : Prop :=
  ∀ before after i now, es = before ++ .write i now :: after → (asks i).m = .patch →
    ∃ first between, before = first ++ .read i :: between ∧ ∀ e ∈ between, e.writer = none

/-! ### Runs -/

variable {pg : Postgres} {h : Handler} {asks : Fin n → Ask} {st st' : Progress n} {db db' : Db}

theorem run_append (es es' : List (Event n)) : st.run pg h asks (es ++ es') =
    (st.run pg h asks es).bind fun st => st.run pg h asks es' := by
  rw [Progress.run, List.foldlM_append]
  rfl

theorem updated_attributes {x : Store.Effects (Option Store.Change)} (hx : updated pg db x = some db')
    (hput : ∀ ch ws, x = .ok (some ch, ws) → ∃ row, ws = [.putUser row]) :
    db'.attributes = db.attributes := by
  unfold updated at hx
  split at hx
  · rename_i ch ws
    obtain ⟨row, rfl⟩ := hput _ _ rfl
    cases hx
    rfl
  · cases hx

theorem wrote_attributes {a : Ask} {seen : Option Store.User} {known : Option Registry}
    {now : Store.Time} (hw : h.wrote pg a seen known now db = some db') :
    db'.attributes = db.attributes := by
  rw [Handler.wrote] at hw
  split_ifs at hw
  · refine updated_attributes hw ?_
    intro ch ws hx
    obtain ⟨c, -, -, rfl⟩ := Store.execDeactivateUser_ok hx
    exact ⟨_, rfl⟩
  · obtain ⟨registry, -, hw⟩ := Option.bind_eq_some_iff.mp hw
    obtain ⟨su, -, hw⟩ := Option.bind_eq_some_iff.mp hw
    refine updated_attributes hw ?_
    intro ch ws hx
    obtain ⟨c, ext, -, -, -, -, rfl⟩ := Store.execUpdateUser_ok.mp hx
    exact ⟨_, rfl⟩

/-- What the requests know of the registry is what it is. -/
def UpToDate (h : Handler) (asks : Fin n → Ask) (st : Progress n) : Prop :=
  ∀ i registry, st.known i = some registry → registry = h.registryOf st.db (asks i).r.tenantID

theorem registryOf_congr (h : Handler) (tenantID : String) (hdb : db'.attributes = db.attributes) :
    h.registryOf db' tenantID = h.registryOf db tenantID := by
  rw [Handler.registryOf, Handler.registryOf, Db.attributesOf, Db.attributesOf, hdb]

theorem step_upToDate {e : Event n} (hst : UpToDate h asks st)
    (hstep : st.step pg h asks e = some st') : UpToDate h asks st' := by
  cases e with
  | read i =>
    rw [Progress.step] at hstep
    split at hstep
    · cases hstep
      exact hst
    · cases hstep
  | registry i =>
    cases hstep
    intro j registry hj
    dsimp only at hj
    by_cases hij : j = i
    · subst hij
      rw [Function.update_self] at hj
      exact (Option.some.inj hj).symm
    · rw [Function.update_of_ne hij] at hj
      exact hst j registry hj
  | write i now =>
    obtain ⟨db, hw, rfl⟩ := Option.map_eq_some_iff.mp hstep
    intro j registry hj
    rw [hst j registry hj]
    exact (registryOf_congr h _ (wrote_attributes hw)).symm

theorem run_upToDate {es : List (Event n)} (hst : UpToDate h asks st)
    (hrun : st.run pg h asks es = some st') : UpToDate h asks st' := by
  induction es generalizing st with
  | nil =>
    cases hrun
    exact hst
  | cons e es ih =>
    rw [Progress.run, List.foldlM_cons] at hrun
    obtain ⟨s, hs, hrest⟩ := Option.bind_eq_some_iff.mp hrun
    exact ih (step_upToDate hst hs) hrest

/-- What a request has seen of the user is what is there. -/
def Sees (asks : Fin n → Ask) (st : Progress n) (i : Fin n) : Prop :=
  ∃ u, st.seen i = some u ∧ execSelectUser (asks i).r.tenantID (asks i).r.id st.db = .ok (some u, [])

theorem selectUser_writes {tenantID id : String} {u : Store.User} {ws : List Store.Write}
    (hx : execSelectUser tenantID id db = .ok (some u, ws)) : ws = [] := by
  rw [execSelectUser] at hx
  split at hx
  · cases hx
  · rw [Except.ok.injEq, Prod.mk.injEq] at hx
    exact hx.2.symm

theorem read_sees {i : Fin n} (hstep : st.step pg h asks (.read i) = some st') : Sees asks st' i := by
  rw [Progress.step] at hstep
  split at hstep
  · rename_i u ws hx
    obtain rfl := selectUser_writes hx
    cases hstep
    exact ⟨u, Function.update_self .., hx⟩
  · cases hstep

/-- Statements that write nothing leave the user, and what was seen of it, as they are. -/
theorem step_sees {i : Fin n} {e : Event n} (he : e.writer = none) (hsees : Sees asks st i)
    (hstep : st.step pg h asks e = some st') : Sees asks st' i := by
  cases e with
  | read j =>
    by_cases hij : i = j
    · subst hij
      exact read_sees hstep
    · rw [Progress.step] at hstep
      split at hstep
      · cases hstep
        obtain ⟨u, hu, hx⟩ := hsees
        exact ⟨u, (Function.update_of_ne hij ..).trans hu, hx⟩
      · cases hstep
  | registry j =>
    cases hstep
    exact hsees
  | write j now => cases he

theorem run_sees {i : Fin n} {es : List (Event n)} (hes : ∀ e ∈ es, e.writer = none)
    (hsees : Sees asks st i) (hrun : st.run pg h asks es = some st') : Sees asks st' i := by
  induction es generalizing st with
  | nil =>
    cases hrun
    exact hsees
  | cons e es ih =>
    rw [Progress.run, List.foldlM_cons] at hrun
    obtain ⟨s, hs, hrest⟩ := Option.bind_eq_some_iff.mp hrun
    exact ih (fun e' he' => hes e' (List.mem_cons_of_mem e he'))
      (step_sees (hes e List.mem_cons_self) hsees hs) hrest

/-- At its write, a request has seen what it would see now. -/
theorem write_sees {es : List (Event n)} {before after : List (Event n)} {i : Fin n} {now : Store.Time}
    (hund : Undisturbed asks es) (hes : es = before ++ .write i now :: after)
    (hpatch : (asks i).m = .patch) (hrun : st.run pg h asks before = some st') : Sees asks st' i := by
  obtain ⟨first, between, rfl, hquiet⟩ := hund before after i now hes hpatch
  rw [run_append] at hrun
  obtain ⟨s, -, hrun⟩ := Option.bind_eq_some_iff.mp hrun
  rw [Progress.run, List.foldlM_cons] at hrun
  obtain ⟨s', hread, hrest⟩ := Option.bind_eq_some_iff.mp hrun
  exact run_sees hquiet (read_sees hread) hrest

/-- What a PUT and a DELETE write does not hang on what was read of the user. -/
theorem wrote_congr {a : Ask} {seen seen' : Option Store.User} {known known' : Option Registry}
    {now : Store.Time} (hseen : a.m = .patch → seen = seen') (hknown : a.m ≠ .delete → known = known') :
    h.wrote pg a seen known now db = h.wrote pg a seen' known' now db := by
  rw [Handler.wrote, Handler.wrote]
  by_cases hm : a.m = .delete
  · rw [if_pos hm, if_pos hm]
  · rw [if_neg hm, if_neg hm, hknown hm]
    have hsame : ∀ registry, h.replacement a seen registry = h.replacement a seen' registry := by
      intro registry
      unfold Handler.replacement
      by_cases hp : a.m = .patch
      · rw [hseen hp]
      · cases hmethod : a.m with
        | patch => exact (hp hmethod).elim
        | _ => rfl
    simp only [hsame]

/-- From the same database, a whole request writes what its last statement wrote. -/
theorem whole_runs {s : Progress n} {i : Fin n} {now : Store.Time} (hdb : s.db = st.db)
    (hknown : UpToDate h asks st) (hsees : (asks i).m = .patch → Sees asks st i)
    (hstep : st.step pg h asks (.write i now) = some st') :
    ∃ s', s.run pg h asks (whole asks (i, now)) = some s' ∧ s'.db = st'.db := by
  obtain ⟨db, hw, rfl⟩ := Option.map_eq_some_iff.mp hstep
  -- the reads
  obtain ⟨s₁, hs₁, hdb₁, hseen₁⟩ : ∃ s₁, s.run pg h asks
      (if (asks i).m = .patch then [.read i] else []) = some s₁ ∧ s₁.db = st.db ∧
        ((asks i).m = .patch → st.seen i = s₁.seen i) := by
    by_cases hp : (asks i).m = .patch
    · obtain ⟨u, hu, hx⟩ := hsees hp
      rw [if_pos hp, Progress.run, List.foldlM_cons, Progress.step, hdb, hx]
      refine ⟨_, rfl, rfl, fun _ => ?_⟩
      dsimp only
      rw [hu, Function.update_self]
    · rw [if_neg hp]
      exact ⟨s, rfl, hdb, fun h => (hp h).elim⟩
  obtain ⟨s₂, hs₂, hdb₂, hseen₂, hknown₂⟩ : ∃ s₂, s₁.run pg h asks
      (if (asks i).m = .delete then [] else [.registry i]) = some s₂ ∧ s₂.db = st.db ∧
        s₂.seen = s₁.seen ∧ ((asks i).m ≠ .delete → st.known i = s₂.known i) := by
    by_cases hd : (asks i).m = .delete
    · rw [if_pos hd]
      exact ⟨s₁, rfl, hdb₁, rfl, fun h => (h hd).elim⟩
    · rw [if_neg hd, Progress.run, List.foldlM_cons]
      refine ⟨_, rfl, hdb₁, rfl, fun _ => ?_⟩
      rw [Handler.wrote, if_neg hd] at hw
      obtain ⟨registry, hregistry, -⟩ := Option.bind_eq_some_iff.mp hw
      dsimp only
      rw [hregistry, hknown i registry hregistry, hdb₁, Function.update_self]
  have hsame : h.wrote pg (asks i) (s₂.seen i) (s₂.known i) now s₂.db = some db := by
    rw [hdb₂, ← hw, hseen₂]
    exact wrote_congr (fun hp => (hseen₁ hp).symm) fun hd => (hknown₂ hd).symm
  have hlast : s₂.step pg h asks (.write i now) = some { s₂ with db } := by
    rw [Progress.step, hsame]
    rfl
  refine ⟨{ s₂ with db }, ?_, rfl⟩
  rw [whole, run_append, run_append, hs₁, Option.bind_some, hs₂, Option.bind_some, Progress.run,
    List.foldlM_cons, hlast]
  rfl

theorem undisturbed_front {es es' : List (Event n)} (hund : Undisturbed asks (es ++ es')) :
    Undisturbed asks es := by
  intro before after i now hes hpatch
  exact hund before (after ++ es') i now (by rw [hes, List.append_assoc, List.cons_append]) hpatch

theorem writers_read (es : List (Event n)) {e : Event n} (he : e.writer = none) :
    writers (es ++ [e]) = writers es := by
  simp [writers, he]

theorem writers_write (es : List (Event n)) (i : Fin n) (now : Store.Time) :
    writers (es ++ [.write i now]) = writers es ++ [(i, now)] := by
  simp [writers, Event.writer]

/-- A run without disturbance ends as the serial one in the order of its writes. -/
theorem undisturbed_serial {es : List (Event n)} (hund : Undisturbed asks es)
    (hrun : (Progress.start n db).run pg h asks es = some st) :
    ∃ s, (Progress.start n db).run pg h asks (serial asks (writers es)) = some s ∧ s.db = st.db := by
  induction es using List.reverseRecOn generalizing st with
  | nil =>
    cases hrun
    exact ⟨_, rfl, rfl⟩
  | append_singleton es e ih =>
    rw [run_append] at hrun
    obtain ⟨st₁, hst₁, hlast⟩ := Option.bind_eq_some_iff.mp hrun
    rw [Progress.run, List.foldlM_cons] at hlast
    obtain ⟨st₂, hstep, hdone⟩ := Option.bind_eq_some_iff.mp hlast
    cases hdone
    obtain ⟨s, hs, hdb⟩ := ih (undisturbed_front hund) hst₁
    cases e with
    | read i =>
      rw [Progress.step] at hstep
      split at hstep
      · cases hstep
        rw [writers_read es rfl]
        exact ⟨s, hs, hdb⟩
      · cases hstep
    | registry i =>
      cases hstep
      rw [writers_read es rfl]
      exact ⟨s, hs, hdb⟩
    | write i now =>
      have hnew : UpToDate h asks (Progress.start n db) := fun _ _ hj => nomatch hj
      obtain ⟨s', hs', hdb'⟩ := whole_runs hdb (run_upToDate hnew hst₁)
        (fun hpatch => write_sees hund rfl hpatch hst₁) hstep
      refine ⟨s', ?_, hdb'⟩
      rw [writers_write, serial, List.flatMap_append, List.flatMap_singleton, run_append]
      exact Option.bind_eq_some_iff.mpr ⟨s, hs, hs'⟩

/-! ### Deactivation -/

variable {tenantID id : String}

/-- A request on the user that is a DELETE, or a PATCH that does not name `active`. -/
def LeavesActive (h : Handler) (registered : Registry) (a : Ask) : Prop :=
  a.m = .delete ∨ a.m = .patch ∧ ∀ p, receivedPatch a.r = .ok p →
    ∀ s ∈ scheduled a.r.orders p.operations.items,
      ¬ s.op.Names h.unicode registered (.column .active)

/-- What has been written to the user so far, `deleted` telling whether a DELETE was among it. -/
structure Standing (tenantID id : String) (db : Db) (deleted : Prop) : Prop where
  valid : ∀ c, db.userAt tenantID id = some c → Validated (scanUser c)
  inactive : deleted → ∃ c, db.userAt tenantID id = some c ∧ c.active = false

theorem Standing.put {deleted deleted' : Prop} {c row : UserRow} (hst : Standing tenantID id db deleted)
    (hc : db.userAt tenantID id = some c) (hid : row.id = c.id) (htenant : row.tenantID = c.tenantID)
    (hvalid : Validated (scanUser c) → Validated (scanUser row))
    (hactive : deleted' → row.active = false) :
    Standing tenantID id ((engine pg).applyAll db [.putUser row]) deleted' := by
  have hrow : ((engine pg).applyAll db [.putUser row]).userAt tenantID id = some row :=
    userAt_put hc hid htenant rfl
  refine ⟨?_, fun hd => ⟨row, hrow, hactive hd⟩⟩
  intro c' hc'
  cases hrow.symm.trans hc'
  exact hvalid (hst.valid c hc)

theorem updated_ok {x : Store.Effects (Option Store.Change)} (hx : updated pg db x = some db') :
    ∃ ch ws, x = .ok (some ch, ws) ∧ db' = (engine pg).applyAll db ws := by
  unfold updated at hx
  split at hx
  · cases hx
    exact ⟨_, _, rfl, rfl⟩
  · cases hx

theorem seen_user {u : Store.User} {c : UserRow}
    (hx : execSelectUser tenantID id db = .ok (some u, [])) (hc : db.userAt tenantID id = some c) :
    u = scanUser c := by
  obtain ⟨k, hk, hfind⟩ := Option.bind_eq_some_iff.mp hc
  rw [execSelectUser, Store.parseID, hk] at hx
  dsimp only at hx
  rw [hfind, Except.ok.injEq, Prod.mk.injEq] at hx
  exact (Option.some.inj hx.1).symm

theorem write_standing {i : Fin n} {now : Store.Time} {deleted : Prop}
    (hat : (asks i).r.tenantID = tenantID ∧ (asks i).r.id = id)
    (hleaves : LeavesActive h (h.registryOf st.db tenantID) (asks i)) (hknown : UpToDate h asks st)
    (hsees : (asks i).m = .patch → Sees asks st i) (hst : Standing tenantID id st.db deleted)
    (hstep : st.step pg h asks (.write i now) = some st') :
    Standing tenantID id st'.db (deleted ∨ (asks i).m = .delete) := by
  obtain ⟨db, hw, rfl⟩ := Option.map_eq_some_iff.mp hstep
  dsimp only
  rw [Handler.wrote, hat.1, hat.2] at hw
  rcases hleaves with hm | ⟨hm, hnames⟩
  · rw [if_pos hm] at hw
    obtain ⟨ch, ws, hx, rfl⟩ := updated_ok hw
    obtain ⟨c, hc, -, rfl⟩ := Store.execDeactivateUser_ok hx
    refine hst.put hc rfl rfl ?_ fun _ => rfl
    intro hvalid
    refine hvalid.inactive rfl ?_
    intro col hcol
    cases col with
    | active => exact (hcol rfl).elim
    | _ => rfl
  · have hnot : (asks i).m ≠ .delete := by
      rw [hm]
      decide
    rw [if_neg hnot] at hw
    obtain ⟨registry, hregistry, hw⟩ := Option.bind_eq_some_iff.mp hw
    obtain ⟨su, hsu, hw⟩ := Option.bind_eq_some_iff.mp hw
    obtain ⟨ch, ws, hx, rfl⟩ := updated_ok hw
    obtain ⟨c, ext, hc, -, -, -, rfl⟩ := Store.execUpdateUser_ok.mp hx
    obtain ⟨u, hu, hselect⟩ := hsees hm
    rw [hat.1, hat.2] at hselect
    obtain rfl := seen_user hselect hc
    obtain rfl := hknown i registry hregistry
    rw [Handler.replacement, hm, hu, hat.1] at hsu
    obtain ⟨p, hp, hsu⟩ := Option.bind_eq_some_iff.mp hsu
    have hreceived : receivedPatch (asks i).r = .ok p := by
      cases hr : receivedPatch (asks i).r with
      | error e =>
        rw [hr] at hp
        cases hp
      | ok p' =>
        rw [hr] at hp
        cases hp
        rfl
    have hpatched : h.patchedUser (asks i).r (h.registryOf st.db tenantID) (scanUser c) p = .ok su := by
      change (h.patchedUser (asks i).r (h.registryOf st.db tenantID) (scanUser c) p).toOption = some su at hsu
      cases hr : h.patchedUser (asks i).r (h.registryOf st.db tenantID) (scanUser c) p with
      | error e =>
        rw [hr] at hsu
        cases hsu
      | ok su' =>
        rw [hr] at hsu
        cases hsu
        rfl
    have hpatch := checked_ok hpatched
    have hcols : ∀ col : Column, col.get (scanUser (replaceUser now su ext c)) = col.get su := by
      intro col
      cases col <;> rfl
    refine hst.put hc rfl rfl (fun _ => (patchUser_validated hpatch).congr hcols) ?_
    intro hdeleted
    obtain ⟨c', hc', hinactive⟩ := hst.inactive (hdeleted.resolve_right hnot)
    cases hc.symm.trans hc'
    obtain ⟨chs, blob, hres, -, rfl⟩ := patchUser_ok hpatch
    have hkept : Column.active.get
        (toStoreUser (runAll chs (fromStoreUser (scanUser c) (asks i).r.baseURL))) =
          Column.active.get (scanUser c) :=
      unnamed_kept (hst.valid c hc).written hres (hnames p hreceived) fun hsub => (hsub rfl).elim
    exact (Stored.flag.inj hkept).trans hinactive

theorem step_standing {e : Event n} {deleted : Prop} (he : e.writer = none)
    (hst : Standing tenantID id st.db deleted) (hstep : st.step pg h asks e = some st') :
    Standing tenantID id st'.db deleted := by
  cases e with
  | read i =>
    rw [Progress.step] at hstep
    split at hstep
    · cases hstep
      exact hst
    · cases hstep
  | registry i =>
    cases hstep
    exact hst
  | write i now => cases he

theorem step_attributes {e : Event n} (hstep : st.step pg h asks e = some st') :
    st'.db.attributes = st.db.attributes := by
  cases e with
  | read i =>
    rw [Progress.step] at hstep
    split at hstep
    · cases hstep
      rfl
    · cases hstep
  | registry i =>
    cases hstep
    rfl
  | write i now =>
    obtain ⟨db, hw, rfl⟩ := Option.map_eq_some_iff.mp hstep
    exact wrote_attributes hw

/-- Whether a DELETE has written. -/
def Deleted (asks : Fin n → Ask) (es : List (Event n)) : Prop :=
  ∃ o ∈ writers es, (asks o.1).m = .delete

theorem run_standing (hat : ∀ i, (asks i).r.tenantID = tenantID ∧ (asks i).r.id = id)
    (hleaves : ∀ i, LeavesActive h (h.registryOf db tenantID) (asks i))
    (hvalid : ∀ c, db.userAt tenantID id = some c → Validated (scanUser c)) {es : List (Event n)}
    (hund : Undisturbed asks es) (hrun : (Progress.start n db).run pg h asks es = some st) :
    Standing tenantID id st.db (Deleted asks es) ∧ st.db.attributes = db.attributes := by
  induction es using List.reverseRecOn generalizing st with
  | nil =>
    cases hrun
    refine ⟨⟨hvalid, ?_⟩, rfl⟩
    rintro ⟨o, ho, -⟩
    cases ho
  | append_singleton es e ih =>
    rw [run_append] at hrun
    obtain ⟨st₁, hst₁, hlast⟩ := Option.bind_eq_some_iff.mp hrun
    rw [Progress.run, List.foldlM_cons] at hlast
    obtain ⟨st₂, hstep, hdone⟩ := Option.bind_eq_some_iff.mp hlast
    cases hdone
    obtain ⟨hstanding, hattributes⟩ := ih (undisturbed_front hund) hst₁
    refine ⟨?_, (step_attributes hstep).trans hattributes⟩
    cases hwriter : e.writer with
    | none =>
      rw [Deleted, writers_read es hwriter]
      exact step_standing hwriter hstanding hstep
    | some o =>
      cases e with
      | read i => cases hwriter
      | registry i => cases hwriter
      | write i now =>
        have hnew : UpToDate h asks (Progress.start n db) := fun _ _ hj => nomatch hj
        have hregistry := registryOf_congr h tenantID hattributes
        have hwrite := write_standing (hat i) (hregistry ▸ hleaves i) (run_upToDate hnew hst₁)
          (fun hpatch => write_sees hund rfl hpatch hst₁) hstanding hstep
        refine ⟨hwrite.valid, fun hdeleted => hwrite.inactive ?_⟩
        obtain ⟨o, ho, hm⟩ := hdeleted
        rw [writers_write, List.mem_append, List.mem_singleton] at ho
        rcases ho with ho | rfl
        · exact Or.inl ⟨o, ho, hm⟩
        · exact Or.inr hm

/-- Each of the requests writes once. -/
def Complete (es : List (Event n)) : Prop := ((writers es).map Prod.fst).Perm (List.finRange n)

theorem undisturbed_serialisable {U : Unicode} {T : TimeText} (tenantID id : String)
    (hreach : Reachable pg U T db) {es : List (Event n)} (hcomplete : Complete es) (hund : Undisturbed asks es)
    (hrun : (Progress.start n db).run pg h asks es = some st) :
    (∃ order s, (order.map Prod.fst).Perm (List.finRange n) ∧
      (Progress.start n db).run pg h asks (serial asks order) = some s ∧ s.db = st.db) ∧
    ((∀ i, (asks i).r.tenantID = tenantID ∧ (asks i).r.id = id) → (∃ i, (asks i).m = .delete) →
      (∀ i, LeavesActive h (h.registryOf db tenantID) (asks i)) →
      ∃ c, st.db.userAt tenantID id = some c ∧ c.active = false) := by
  constructor
  · obtain ⟨s, hs, hdb⟩ := undisturbed_serial hund hrun
    exact ⟨writers es, s, hcomplete, hs, hdb⟩
  · rintro hat ⟨i, hi⟩ hleaves
    have hvalid : ∀ c, db.userAt tenantID id = some c → Validated (scanUser c) := by
      intro c hc
      exact ((reachable_kept hreach).users c
        (Relational.Table.find?_mem (Store.userAt_eq_some.mp hc).2.1)).validated
    obtain ⟨o, ho, rfl⟩ := List.mem_map.mp (hcomplete.mem_iff.mpr (List.mem_finRange i))
    exact (run_standing hat hleaves hvalid hund hrun).1.inactive ⟨o, ho, hi⟩

/-! ### A PATCH and a DELETE -/

def renameAndDelete (i : Fin 2) : Ask :=
  if i = 0 then ⟨renamed, .patch⟩ else ⟨requestFor Store.someUuid.text .null, .delete⟩

def oneByOne : List (Event 2) := [.read 0, .registry 0, .write 0 7, .write 1 8]

theorem oneByOne_undisturbed : Undisturbed renameAndDelete oneByOne := by
  intro before after i now hes hpatch
  rcases before with _ | ⟨a, _ | ⟨b, _ | ⟨c, _ | ⟨d, rest⟩⟩⟩⟩
  · cases hes
  · cases hes
  · cases hes
    exact ⟨[], [.registry 0], rfl, by simp [Event.writer]⟩
  · cases hes
    cases hpatch
  · have hlength := congrArg List.length hes
    simp [oneByOne] at hlength

theorem renamed_leavesActive (registered : Registry) (hnone : registered = .empty) :
    LeavesActive plainHandler registered ⟨renamed, .patch⟩ := by
  subst hnone
  refine Or.inr ⟨rfl, ?_⟩
  intro p hp s hs
  cases hp
  obtain rfl := List.mem_singleton.mp hs
  rintro ⟨e, he, -, hname⟩
  obtain rfl := List.mem_singleton.mp he
  rcases hname with hkey | ⟨-, sub, hsub, -⟩
  · have hne : pathKey .plain "userName" ≠ "active" := by decide
    exact hne hkey
  · cases hsub

theorem undisturbed_serialisable_rename : ∃ st,
    (Progress.start 2 oneAnn).run blobless plainHandler renameAndDelete oneByOne = some st ∧
      (∃ order s, (order.map Prod.fst).Perm (List.finRange 2) ∧
        (Progress.start 2 oneAnn).run blobless plainHandler renameAndDelete
          (serial renameAndDelete order) = some s ∧ s.db = st.db) ∧
      ∃ c, st.db.userAt "tenant" Store.someUuid.text = some c ∧ c.active = false := by
  have hcomplete : Complete oneByOne := List.Perm.refl [0, 1]
  have hruns : ((Progress.start 2 oneAnn).run blobless plainHandler renameAndDelete oneByOne).isSome =
      true := by rfl
  obtain ⟨st, hrun⟩ := Option.isSome_iff_exists.mp hruns
  have hserialises := undisturbed_serialisable "tenant" Store.someUuid.text oneAnn_reachable hcomplete
    oneByOne_undisturbed hrun
  refine ⟨st, hrun, hserialises.1, hserialises.2 ?_ ⟨1, rfl⟩ ?_⟩
  · intro i
    rw [renameAndDelete]
    by_cases hi : i = 0
    · rw [if_pos hi]
      exact ⟨rfl, rfl⟩
    · rw [if_neg hi]
      exact ⟨rfl, rfl⟩
  · intro i
    rw [renameAndDelete]
    by_cases hi : i = 0
    · rw [if_pos hi]
      exact renamed_leavesActive _ rfl
    · rw [if_neg hi]
      exact Or.inl rfl

def interleaved : List (Event 2) := [.read 0, .registry 0, .write 1 7, .write 0 8]

/-- Whether the users are active. -/
def activities (st : Progress 2) : List Bool := st.db.users.rows.map Store.UserRow.active

/-- A PATCH that names no `active` undoes the DELETE that falls between its statements. -/
theorem interleaved_delete_lost : Complete interleaved ∧
    ((Progress.start 2 oneAnn).run blobless plainHandler renameAndDelete interleaved).map activities =
      some [true] ∧
    ∀ order : List (Fin 2), order.Perm (List.finRange 2) →
      ((Progress.start 2 oneAnn).run blobless plainHandler renameAndDelete
        (serial renameAndDelete (order.zip [7, 8]))).map activities = some [false] := by
  refine ⟨List.Perm.swap 0 1 [], by rfl, ?_⟩
  intro order hperm
  have hlength := hperm.length_eq
  rw [List.length_finRange] at hlength
  obtain ⟨i, j, rfl⟩ := List.length_eq_two.mp hlength
  have hdistinct : i ≠ j := by
    have hnodup := hperm.nodup_iff.mpr (List.nodup_finRange 2)
    simpa using hnodup
  obtain ⟨rfl, rfl⟩ | ⟨rfl, rfl⟩ : i = 0 ∧ j = 1 ∨ i = 1 ∧ j = 0 := by omega
  · rfl
  · rfl

end Scimage.Scim
