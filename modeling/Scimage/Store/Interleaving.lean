import Scimage.Store.Trail
import Scimage.Lib.ReadCommitted

/-! Mutations interleaved under READ COMMITTED. -/
namespace Scimage.Store

open Txn Engine

variable {ι : Type} {pg : Postgres} {s : Store} {R : Condition Stmt.Rows Write Env}
  {log : List (Commit Stmt.Rows Write Env)} {c : Commit Stmt.Rows Write Env} {t : Target}

/-- Each thread runs one mutation. -/
def mutationProgs (s : Store) (ms : ι → Mutation) (i : ι) :
    Prog Stmt.Rows DbError (Except StoreError Unit) :=
  ((ms i).call s).run

abbrev System (ι : Type) := Shared Stmt.Rows DbError Write Env (Except StoreError Unit) ι

/-- What the committed transactions of a run have left in the database. -/
def System.db (pg : Postgres) (st : System ι) : Db := (engine pg).current .empty st.log

/-- The commits of a run of mutations. -/
abbrev Commits (pg : Postgres) (s : Store) (R : Condition Stmt.Rows Write Env)
    (log : List (Commit Stmt.Rows Write Env)) : Prop :=
  (engine pg).History (mutations fun es => ∃ m : Mutation, m.History s es) .empty R log

theorem reach_commits [DecidableEq ι] [Fintype ι] {ms : ι → Mutation} {st : System ι}
    (h : (engine pg).Reach .empty (mutationProgs s ms) ((engine pg).Meets R) st) :
    Commits pg s R st.log :=
  (reach_inv (Q := Settled) (fun i => (ms i).call_wp fun _ hm => ⟨_, hm⟩) h).history

/-- A commit is a mutation or the note of a refusal. -/
theorem commits_snoc (h : Commits pg s R (log ++ [c])) :
    (∃ m t dir entry queue, Footprint pg s m .empty R log c.now c.hist t dir entry queue) ∨
      Denial ((engine pg).current .empty log) ((engine pg).current .empty (log ++ [c])) := by
  generalize hl : log ++ [c] = l at h
  cases h with
  | nil => simp at hl
  | tx h hc hs =>
    obtain ⟨rfl, hc'⟩ := List.append_inj' hl rfl
    obtain rfl := (List.cons.inj hc').1
    obtain ⟨m, hm⟩ := hc
    exact Or.inl ⟨m, history_footprint hm hs⟩
  | pool h hd hx =>
    obtain ⟨rfl, hc'⟩ := List.append_inj' hl rfl
    obtain rfl := (List.cons.inj hc').1
    refine Or.inr ?_
    rw [current_snoc]
    simpa [Commit.writes] using denied_denial (hd.resolve_left fun h => h.elim) hx

/-- A property of the committed database that mutations and notes of refusals keep. -/
theorem commits_induction {P : List (Commit Stmt.Rows Write Env) → Prop} (hnil : P [])
    (hmutation : ∀ log c m t dir entry queue, Commits pg s R log → P log →
      Footprint pg s m .empty R log c.now c.hist t dir entry queue → P (log ++ [c]))
    (hdenial : ∀ log c, Commits pg s R log → P log →
      Denial ((engine pg).current .empty log) ((engine pg).current .empty (log ++ [c])) →
      P (log ++ [c]))
    (h : Commits pg s R log) : P log := by
  induction log using List.reverseRecOn with
  | nil => exact hnil
  | append_singleton log c ih =>
    have hlog := h.of_prefix (List.prefix_append _ _)
    rcases commits_snoc h with ⟨m, t, dir, entry, queue, hf⟩ | hd
    · exact hmutation log c m t dir entry queue hlog (ih hlog) hf
    · exact hdenial log c hlog (ih hlog) hd

/-- Where nobody disturbs the writes of a row, the trail accounts for it in every state. -/
theorem commits_mirrored (hR : ∀ l b x, R l b x → Undisturbed pg t.key l b x)
    (h : Commits pg s R log) : Mirrored t ((engine pg).current .empty log) := by
  refine commits_induction (P := fun log => Mirrored t ((engine pg).current .empty log))
    (mirrored_empty t) ?_ ?_ h
  · intro log c m u dir entry queue _ ih hf
    rw [current_commit]
    exact hf.mirrored hR ih
  · intro log c _ ih hd
    exact hd.mirrored ih

/-- A row that no committed transaction has written has no entries. -/
theorem commits_unwritten (hR : ∀ l b x, R l b x → Undisturbed pg t.key l b x)
    (h : Commits pg s R log) (hc : ∀ c ∈ log, t.key ∉ (engine pg).keysOf c.writes) :
    ∀ a ∈ ((engine pg).current .empty log).successes, a.target ≠ some t := by
  revert hc
  refine commits_induction (P := fun log => (∀ c ∈ log, t.key ∉ (engine pg).keysOf c.writes) →
    ∀ a ∈ ((engine pg).current .empty log).successes, a.target ≠ some t) ?_ ?_ ?_ h
  · intro _ a ha
    simp [Db.successes, Db.empty] at ha
  · intro log c m u dir entry queue _ ih hf hc a ha
    rw [current_commit, hf.toWrote.successes, List.mem_append] at ha
    rcases ha with ha | ha
    · exact ih (fun c hc' => hc c (List.mem_append_left _ hc')) a ha
    · obtain rfl := List.mem_singleton.mp ha
      rintro hut
      obtain rfl : u = t := Option.some.inj (hf.target.symm.trans hut)
      refine hc c (by simp) ?_
      rw [Commit.writes, hf.writes_eq, keysOf_append]
      exact List.mem_append_left _ (hf.written (hf.chained hR).1)
  · intro log c _ ih hd hc a ha
    rw [hd.successes] at ha
    exact ih (fun c hc' => hc c (List.mem_append_left _ hc')) a ha

/-- A group is only ever created once. -/
theorem commits_fresh {k : Uuid}
    (hR : ∀ l b x, R l b x → Undisturbed pg (.group k) l b x ∧ FreshID pg (.group k) l b x)
    (h : Commits pg s R log) :
    auditJournal.Fresh (some (.group k)) ((engine pg).current .empty log).successes := by
  refine commits_induction (P := fun log => auditJournal.Fresh (some (.group k))
    ((engine pg).current .empty log).successes) List.Pairwise.nil ?_ ?_ h
  · intro log c m u dir entry queue hlog ih hf
    rw [current_commit, hf.toWrote.successes]
    refine List.pairwise_append.mpr ⟨ih, List.pairwise_singleton _ _, ?_⟩
    intro a ha x hx hka hkx hnone
    obtain rfl := List.mem_singleton.mp hx
    obtain rfl : u = .group k := Option.some.inj (hf.target.symm.trans hkx)
    exact commits_unwritten (t := .group k) (fun l b x hx => (hR l b x hx).1) hlog
      (hf.fresh k rfl hnone fun l b x hx => (hR l b x hx).2) a ha hka
  · intro log c _ ih hd
    simpa only [hd.successes] using ih

/-- The deliveries of one user or group, in the order they were committed. -/
def Db.queue (db : Db) (t : Target) : List DeliveryRow :=
  db.deliveries.filter fun d => d.target = some t

/-- What an entry and a delivery say of a change: the images and whether it was a deletion. -/
def AuditRow.change (a : AuditRow) : Option Image × Option Image × Bool :=
  (a.before, a.after, a.action = .delete)

def DeliveryRow.change (d : DeliveryRow) : Option Image × Option Image × Bool :=
  (d.payload.before, d.payload.after, d.eventType = .groupDeleted)

/-- The deliveries of a user or group are those of its successful entries. -/
theorem commits_announced (t : Target) (h : Commits pg ⟨true⟩ R log) :
    (((engine pg).current .empty log).queue t).map DeliveryRow.change =
      (((engine pg).current .empty log).trail t).map AuditRow.change := by
  refine commits_induction (P := fun log =>
    (((engine pg).current .empty log).queue t).map DeliveryRow.change =
      (((engine pg).current .empty log).trail t).map AuditRow.change) rfl ?_ ?_ h
  · intro log c m u dir entry queue _ ih hf
    simp only [Db.queue, Db.trail] at ih
    obtain ⟨d, rfl⟩ := List.length_eq_one_iff.mp hf.queue_length
    have hd := hf.announced d (by simp)
    have hkey : auditJournal.key entry = some u := hf.target
    rw [current_commit, Db.trail, hf.toWrote.successes, Journal.Format.linesOf_snoc, hkey, Db.queue,
      (hf.logs _).2, List.filter_append, List.map_append]
    by_cases hu : u = t
    · subst u
      have hchange : d.change = entry.change := by
        simp [DeliveryRow.change, AuditRow.change, hd.before, hd.after, hd.deleted, hf.deleted]
      simpa [hd.target, hchange] using ih
    · have hne : some u ≠ some t := fun he => hu (Option.some.inj he)
      simpa [hd.target, hne] using ih
  · intro log c _ ih hd
    simpa only [Db.queue, Db.trail, hd.deliveries, hd.successes] using ih

theorem commits_deleted (h : Commits pg s R log) :
    ∀ a ∈ ((engine pg).current .empty log).successes, a.action = .delete ↔ a.after = none := by
  refine commits_induction (P := fun log => ∀ a ∈ ((engine pg).current .empty log).successes,
    a.action = .delete ↔ a.after = none) ?_ ?_ ?_ h
  · intro a ha
    simp [Db.successes, Db.empty] at ha
  · intro log c m u dir entry queue _ ih hf a ha
    rw [current_commit, hf.toWrote.successes, List.mem_append] at ha
    rcases ha with ha | ha
    · exact ih a ha
    · obtain rfl := List.mem_singleton.mp ha
      exact hf.deleted
  · intro log c _ ih hd
    simpa only [hd.successes] using ih

/-- The deliveries that a commit queues. -/
def deliveriesOf (c : Commit Stmt.Rows Write Env) : List DeliveryRow :=
  c.writes.filterMap fun w => match w with
    | .addDelivery d => some d
    | _ => none

theorem Wrote.deliveriesOf {m : Mutation} {dir : List Write} {entry : AuditRow}
    {queue : List DeliveryRow} (h : Wrote pg s m c.now (writesOf c.hist) t dir entry queue) :
    deliveriesOf c = queue := by
  have hdir : dir.filterMap (fun w => match w with
      | .addDelivery d => some d
      | _ => none) = [] := by
    rw [List.filterMap_eq_nil_iff]
    intro w hw
    have hd := h.directory w hw
    cases w <;> first | rfl | exact hd.elim
  rw [Store.deliveriesOf, Commit.writes, h.writes_eq, List.filterMap_append, hdir,
    List.filterMap_cons, List.filterMap_map]
  simp

/-- The commit that turns an active user inactive announces a deactivation. -/
theorem commits_deactivated {k : Uuid} {b a : UserRow}
    (hR : ∀ l b x, R l b x → Undisturbed pg (.user k) l b x)
    (h : Commits pg ⟨true⟩ R (log ++ [c]))
    (hb : ((engine pg).current .empty log).users.find? k = some b)
    (ha : ((engine pg).current .empty (log ++ [c])).users.find? k = some a)
    (hbefore : b.active = true) (hafter : a.active = false) :
    ∃ d, deliveriesOf c = [d] ∧ d.target = some (.user k) ∧ d.eventType = .userDeactivated := by
  have hib : ((engine pg).current .empty log).image (.user k) = some (.user (scanUser b)) := by
    rw [image_user, hb, Option.map_some]
  have hia : ((engine pg).current .empty (log ++ [c])).image (.user k) =
      some (.user (scanUser a)) := by
    rw [image_user, ha, Option.map_some]
  have hchanged : ((engine pg).current .empty (log ++ [c])).image (.user k) ≠
      ((engine pg).current .empty log).image (.user k) := by
    rw [hib, hia]
    intro he
    have hactive : a.active = b.active :=
      congrArg User.active (Image.user.inj (Option.some.inj he))
    simp [hbefore, hafter] at hactive
  rcases commits_snoc h with ⟨m, t, dir, entry, queue, hf⟩ | hd
  · rw [current_commit] at hchanged hia
    obtain rfl : Target.user k = t := by
      by_contra hne
      exact hchanged (hf.image_ne _ hne)
    obtain ⟨hne, hchain⟩ := hf.chained hR
    obtain ⟨d, rfl⟩ := List.length_eq_one_iff.mp hf.queue_length
    have hd := hf.announced d (by simp)
    refine ⟨d, hf.deliveriesOf, hd.target, ?_⟩
    exact hd.deactivated (scanUser b) (scanUser a) (hchain.trans hib)
      ((hf.after hne).symm.trans hia) hbefore hafter
  · exact (hchanged (hd.image _)).elim

end Scimage.Store
