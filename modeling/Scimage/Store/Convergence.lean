import Scimage.Store.UserChain
import Scimage.Lib.Newest

/-! Receivers that keep the event with the newest `occurredAt`. -/
namespace Scimage.Store

open Txn Engine

/-- `gen_random_uuid()` gives each new group an id that no committed transaction has written. -/
def FreshIDs (pg : Postgres) : Condition Stmt.Rows Write Env :=
  fun log _ x => x.stmt.insertsGroup = true →
    ∀ c ∈ log, .group x.env.uuid ∉ (engine pg).keysOf c.writes

instance (pg : Postgres) (log : List (Commit Stmt.Rows Write Env)) (prior : History)
    (x : Turn Stmt Env) : Decidable (FreshIDs pg log prior x) :=
  inferInstanceAs (Decidable (_ → ∀ c ∈ _, _))

variable {ι : Type} {pg : Postgres} {s : Store} {log : List (Commit Stmt.Rows Write Env)}
  {t : Target} {k : Uuid} {n : Nat}

theorem FreshIDs.freshID {κ : Key} {prior : History} {x : Turn Stmt Env}
    (h : FreshIDs pg log prior x) : FreshID pg κ log prior x :=
  fun hinsert hid => hid ▸ h hinsert

/-! ### What is gone stays gone -/

/-- A group that has been written stays with its tenant until it goes, and then it is gone. -/
theorem commits_owner_step {c : Commit Stmt.Rows Write Env}
    (h : Commits pg s (FreshIDs pg) (log ++ [c]))
    (hw : ∃ c ∈ log, .group k ∈ (engine pg).keysOf c.writes) :
    ((engine pg).current .empty (log ++ [c])).owner k = none ∨
      ((engine pg).current .empty (log ++ [c])).owner k =
        ((engine pg).current .empty log).owner k := by
  rcases commits_snoc h with ⟨m, u, dir, entry, queue, hf⟩ | hd
  · rw [current_commit]
    by_cases hu : u = .group k
    · subst hu
      rcases hf.kept k rfl with hcreated | hkept
      · obtain ⟨c, hc, hk⟩ := hw
        exact (hf.fresh k rfl hcreated (fun _ _ _ hx => hx.freshID) c hc hk).elim
      · exact hkept
    · rw [hf.toWrote.view_owner]
      exact Or.inr (owner_other (hf.apart (.group k) fun he => hu he.symm))
  · exact Or.inr (by rw [Db.owner, hd.groups, Db.owner])

theorem commits_owner (h : Commits pg s (FreshIDs pg) log) (hn : n ≤ log.length)
    (hw : ∃ c ∈ log.take n, .group k ∈ (engine pg).keysOf c.writes) :
    ((engine pg).current .empty log).owner k = none ∨
      ((engine pg).current .empty log).owner k = ((engine pg).dbAt .empty log n).owner k := by
  induction log using List.reverseRecOn with
  | nil => exact Or.inl rfl
  | append_singleton log c ih =>
    have hlog := h.of_prefix (List.prefix_append _ _)
    rcases Nat.lt_or_ge log.length n with hlast | hn'
    · have hall : n = (log ++ [c]).length := by
        simp only [List.length_append, List.length_singleton] at hn ⊢
        omega
      subst hall
      exact Or.inr rfl
    · rw [List.take_append_of_le_length hn'] at hw
      rw [dbAt_append _ hn']
      have hwritten : ∃ c ∈ log, .group k ∈ (engine pg).keysOf c.writes := by
        obtain ⟨c, hc, hk⟩ := hw
        exact ⟨c, List.mem_of_mem_take hc, hk⟩
      rcases commits_owner_step h hwritten with hgone | hsame
      · exact Or.inl hgone
      · rw [hsame]
        exact ih hlog hn' hw

theorem written_of_owner {tenantID : String}
    (h : ((engine pg).dbAt .empty log n).owner k = some tenantID) :
    ∃ c ∈ log.take n, .group k ∈ (engine pg).keysOf c.writes := by
  by_contra hcon
  have hunwritten : ∀ c ∈ log.take n, (groupFocus pg k).key ∉ (engine pg).keysOf c.writes :=
    fun c hc hk => hcon ⟨c, hc, hk⟩
  have hsee := (groupFocus pg k).see_commits Db.empty hunwritten
  have hnone : ((engine pg).dbAt .empty log n).groups.find? k = none :=
    congrArg Prod.fst hsee
  simp [Db.owner, hnone] at h

/-- A group that one transaction sees and a later statement misses is gone for good. -/
theorem commits_missed {tenantID : String} {n₁ n₂ : Nat} (h : Commits pg s (FreshIDs pg) log)
    (h₁₂ : n₁ ≤ n₂) (h₂ : n₂ ≤ log.length)
    (hseen : ((engine pg).dbAt .empty log n₁).groupOf tenantID k ≠ none)
    (hmissed : ((engine pg).dbAt .empty log n₂).groupOf tenantID k = none) :
    ((engine pg).current .empty log).image (.group k) = none := by
  obtain ⟨r, hr⟩ := Option.ne_none_iff_exists'.mp hseen
  obtain ⟨hfind, ht⟩ := groupOf_eq_some.mp hr
  have howner : ((engine pg).dbAt .empty log n₁).owner k = some tenantID := by
    rw [Db.owner, hfind, Option.map_some, ht]
  have hwritten := written_of_owner howner
  have hgone : ((engine pg).dbAt .empty log n₂).owner k = none := by
    have htake := h.of_prefix (List.take_prefix n₂ log)
    have hlen : n₁ ≤ (log.take n₂).length := by simp; omega
    have hkept := commits_owner htake hlen (k := k)
      (by rwa [List.take_take, Nat.min_eq_left h₁₂])
    rw [current_take, dbAt_take _ h₁₂, howner] at hkept
    refine hkept.resolve_right fun hsame => ?_
    obtain ⟨r', hr', ht'⟩ := Option.map_eq_some_iff.mp hsame
    rw [groupOf_eq_some.mpr ⟨hr', ht'⟩] at hmissed
    exact absurd hmissed (by simp)
  have hnone : ((engine pg).current .empty log).owner k = none := by
    obtain ⟨c, hc, hk⟩ := hwritten
    have hc₂ : c ∈ log.take n₂ := (List.take_subset_take_left _ h₁₂) hc
    rcases commits_owner h h₂ ⟨c, hc₂, hk⟩ with hnone | hsame
    · exact hnone
    · exact hsame.trans hgone
  have hrow : ((engine pg).current .empty log).groups.find? k = none :=
    Option.map_eq_none_iff.mp hnone
  simp [Db.image, Db.groupImage, hrow]

/-! ### The last event of a row shows what was committed -/

def ShowsLast (db : Db) (t : Target) : Prop :=
  (db.queue t = [] → db.image t = none) ∧
    ∀ d, (db.queue t).getLast? = some d → db.image t = d.payload.after

theorem commits_shows_last (h : Commits pg ⟨true⟩ (FreshIDs pg) log) (t : Target) :
    ShowsLast ((engine pg).current .empty log) t := by
  refine commits_induction (P := fun log => ShowsLast ((engine pg).current .empty log) t)
    ?_ ?_ ?_ h
  · refine ⟨fun _ => ?_, fun d hd => ?_⟩
    · cases t <;> rfl
    · simp [Db.queue, Db.empty] at hd
  · intro log c m u dir entry queue hlog ih hf
    obtain ⟨d, rfl⟩ := List.length_eq_one_iff.mp hf.queue_length
    have hd := hf.announced d (by simp)
    rw [current_commit]
    have hqueue : ((engine pg).view ((engine pg).current .empty log) c.hist).queue t =
        ((engine pg).current .empty log).queue t ++ [d].filter fun x => x.target = some t := by
      rw [Db.queue, (hf.logs _).2, List.filter_append, Db.queue]
    by_cases hu : u = t
    · subst hu
      have himage : ((engine pg).view ((engine pg).current .empty log) c.hist).image u =
          d.payload.after := by
        rw [hd.after]
        by_cases hdir : dir = []
        · obtain ⟨hafter, k, n₁, n₂, rfl, h₁₂, h₂, hseen, hmissed⟩ := hf.missed hdir
          rw [hf.toWrote.view_image, hdir, applyAll_nil, hafter]
          exact commits_missed hlog h₁₂ h₂ hseen hmissed
        · exact hf.after hdir
      simp [ShowsLast, hqueue, hd.target, himage]
    · have hne : some u ≠ some t := fun he => hu (Option.some.inj he)
      rw [ShowsLast, hqueue, hf.toWrote.image_ne _ fun he => hu he.symm]
      simpa [ShowsLast, hd.target, hne] using ih
  · intro log c _ ih hd
    rw [ShowsLast, hd.image, Db.queue, hd.deliveries]
    exact ih

/-- Only `group.deleted` carries no image, and every other event carries the time at which the
transaction that queued it started. -/
theorem commits_stamped (h : Commits pg s (FreshIDs pg) log) :
    ∀ d ∈ ((engine pg).current .empty log).deliveries,
      (d.payload.after = none ↔ d.eventType = .groupDeleted) ∧
        (d.payload.after ≠ none → ∃ c ∈ log, d ∈ deliveriesOf c ∧
          d.payload.occurredAt = c.now) := by
  refine commits_induction (P := fun log => ∀ d ∈ ((engine pg).current .empty log).deliveries,
    (d.payload.after = none ↔ d.eventType = .groupDeleted) ∧
      (d.payload.after ≠ none → ∃ c ∈ log, d ∈ deliveriesOf c ∧ d.payload.occurredAt = c.now))
    ?_ ?_ ?_ h
  · intro d hd
    simp [Db.empty] at hd
  · intro log c m u dir entry queue _ ih hf d hd
    rw [current_commit, (hf.logs _).2, List.mem_append] at hd
    rcases hd with hd | hd
    · refine ⟨(ih d hd).1, fun hne => ?_⟩
      obtain ⟨x, hx, hstamp⟩ := (ih d hd).2 hne
      exact ⟨x, List.mem_append_left _ hx, hstamp⟩
    · have ha := hf.announced d hd
      refine ⟨by rw [ha.after, ha.deleted], fun hne => ?_⟩
      exact ⟨c, by simp, by rwa [hf.deliveriesOf], ha.occurredAt (ha.after ▸ hne)⟩
  · intro log c _ ih hd d hmem
    rw [hd.deliveries] at hmem
    refine ⟨(ih d hmem).1, fun hne => ?_⟩
    obtain ⟨x, hx, hstamp⟩ := (ih d hmem).2 hne
    exact ⟨x, List.mem_append_left _ hx, hstamp⟩

/-! ### Receivers -/

/-- What a receiver reads off an event. -/
def eventFeed : Newest.Feed DeliveryRow (Option Target) Time Image where
  key := DeliveryRow.target
  stamp d := d.payload.occurredAt
  value d := d.payload.after

/-- Every event with the greatest `occurredAt` shows what the event committed last shows. -/
def NewestIsLast (queue : List DeliveryRow) : Prop :=
  ∀ d ∈ queue, (∀ e ∈ queue, e.payload.occurredAt ≤ d.payload.occurredAt) →
    ∀ last ∈ queue.getLast?, d.payload.after = last.payload.after

instance (queue : List DeliveryRow) : Decidable (NewestIsLast queue) :=
  inferInstanceAs (Decidable (∀ d ∈ queue, (∀ e ∈ queue, _ ≤ _) → ∀ last ∈ queue.getLast?, _ = _))

theorem latest_iff {db : Db} {d : DeliveryRow} :
    eventFeed.Latest db.deliveries (some t) d ↔
      d ∈ db.queue t ∧ ∀ e ∈ db.queue t, e.payload.occurredAt ≤ d.payload.occurredAt := by
  constructor
  · intro h
    refine ⟨List.mem_filter.mpr ⟨h.mem, decide_eq_true h.key⟩, fun e he => ?_⟩
    obtain ⟨hmem, hkey⟩ := List.mem_filter.mp he
    exact h.newest e hmem (of_decide_eq_true hkey)
  · rintro ⟨hd, hnewest⟩
    obtain ⟨hmem, hkey⟩ := List.mem_filter.mp hd
    refine ⟨hmem, of_decide_eq_true hkey, fun e he hk => ?_⟩
    exact hnewest e (List.mem_filter.mpr ⟨he, decide_eq_true hk⟩)

/-- The deactivation starts after the activation and commits before it. -/
def overtaken : List (Event Client Env DbError) :=
  effects .first 6 ++ [.tick 1] ++ effects .second 1 ++ [.tick 1] ++ effects .third 1 ++
    [.wait .third] ++ effects .third 5 ++ [.wait .second] ++ effects .second 5

end Scimage.Store
