import Scimage.Aria.Permuted

/-! What a flag counts, and what it shows. -/
namespace Scimage.Aria

open Store (Time AuditRow)

variable {entries : List AuditRow} {tenantID : String} {since now : Time} {loc : Location} {t : Tally}
  {f : Flag}

def FlagKind.threshold : FlagKind → Nat
  | .bulkDeactivation => bulkCount
  | .denialBurst => denialCount
  | .offHours => 1
  | .highVolume => volumeCount

/-- The entries that a flag is about. -/
def Flag.counts (loc : Location) (f : Flag) (e : AuditRow) : Bool :=
  match f.kind with
  | .bulkDeactivation => e.actorToken = f.actor ∧ isDeactivation e ∧ f.windowStart ≤ e.loggedAt ∧
      e.loggedAt ≤ f.windowEnd
  | .denialBurst => e.actorToken = f.actor ∧ isDenial e
  | .offHours => isOffHours loc e.loggedAt
  | .highVolume => e.actorToken = f.actor

/-- The count reaches the threshold and is that of the entries the flag is about, and each example
is one of them. -/
structure Evidenced (entries : List AuditRow) (loc : Location) (f : Flag) : Prop where
  threshold : f.kind.threshold ≤ f.count
  count : f.count = (entries.filter (f.counts loc)).length
  examples : ∀ x ∈ f.examples, ∃ e ∈ entries, f.counts loc e = true ∧ toEvent e = x

/-- The entries of a caller that `examplesFor` shows. -/
def shown (entries : List AuditRow) (actor : String) (keep : AuditRow → Bool) : List AuditRow :=
  (entries.filter fun e => e.actorToken = actor ∧ keep e).take maxExamples

theorem mem_examplesFor {actor : String} {keep : AuditRow → Bool} {x : Event} :
    x ∈ examplesFor entries actor keep ↔ ∃ e ∈ shown entries actor keep, toEvent e = x :=
  List.mem_map

theorem mem_of_shown {actor : String} {keep : AuditRow → Bool} {e : AuditRow}
    (h : e ∈ shown entries actor keep) : e ∈ entries ∧ e.actorToken = actor ∧ keep e = true := by
  have hmem := List.mem_of_mem_take h
  rw [List.mem_filter, decide_eq_true_eq] at hmem
  exact hmem

theorem filter_mine (entries : List AuditRow) (actor : String) (keep : AuditRow → Bool) :
    (mine actor entries).filter keep = entries.filter fun e => e.actorToken = actor ∧ keep e := by
  rw [mine, List.filter_filter]
  refine List.filter_congr fun e _ => ?_
  simp [Bool.and_comm]

theorem denialFlag_evidenced (h : t ∈ callersOf entries) (hf : denialFlag entries t = some f) :
    Evidenced entries loc f := by
  rw [denialFlag] at hf
  split_ifs at hf with hthreshold
  cases hf
  have hown : t.denials = (tallyOf t.actor entries).denials := congrArg _ (mem_callersOf.mp h).2
  refine ⟨hthreshold, ?_, ?_⟩
  · change t.denials = (entries.filter fun e => decide (e.actorToken = t.actor ∧ isDenial e = true)).length
    rw [← filter_mine, hown]
    rfl
  · intro x hx
    obtain ⟨e, he, rfl⟩ := mem_examplesFor.mp hx
    obtain ⟨hmem, hactor, hkeep⟩ := mem_of_shown he
    exact ⟨e, hmem, decide_eq_true ⟨hactor, hkeep⟩, rfl⟩

theorem volumeFlag_evidenced (h : t ∈ callersOf entries) (hf : volumeFlag entries t = some f) :
    Evidenced entries loc f := by
  rw [volumeFlag] at hf
  split_ifs at hf with hthreshold
  cases hf
  have hown : t.total = (tallyOf t.actor entries).total := congrArg _ (mem_callersOf.mp h).2
  refine ⟨hthreshold, hown, ?_⟩
  intro x hx
  obtain ⟨e, he, rfl⟩ := mem_examplesFor.mp hx
  obtain ⟨hmem, hactor, -⟩ := mem_of_shown he
  exact ⟨e, hmem, decide_eq_true hactor, rfl⟩

theorem offHoursFlag_evidenced
    (hf : f ∈ offHoursFlag ((entries.filter fun e => isOffHours loc e.loggedAt).map toEvent)) :
    Evidenced entries loc f := by
  rw [offHoursFlag] at hf
  split_ifs at hf with hnil
  · cases hf
  · rw [List.mem_singleton] at hf
    subst hf
    refine ⟨List.length_pos_of_ne_nil hnil, List.length_map _, ?_⟩
    intro x hx
    obtain ⟨e, he, rfl⟩ := List.mem_map.mp (List.mem_of_mem_take hx)
    obtain ⟨hmem, hoff⟩ := List.mem_filter.mp he
    exact ⟨e, hmem, hoff, rfl⟩

/-! ### Bulk deactivations -/

/-- The instants at which a caller deactivated or deleted. -/
def deactivations (entries : List AuditRow) (actor : String) : List Time :=
  (entries.filter fun e => e.actorToken = actor ∧ isDeactivation e).map AuditRow.loggedAt

theorem mutationTimes_tallyOf (entries : List AuditRow) (actor : String) :
    (tallyOf actor entries).mutationTimes = deactivations entries actor := by
  rw [deactivations, ← filter_mine]
  rfl

/-- A caller is flagged for the earliest of the densest runs of its deactivations. -/
theorem bulkFlag_eq_some (h : t ∈ callersOf entries) : bulkFlag entries t = some f ↔
    ∃ count start stop,
      Cluster.Densest bulkWindow (deactivations entries t.actor) count start stop ∧
      bulkCount ≤ count ∧ f = ⟨.bulkDeactivation, t.actor, count, start, stop,
        examplesFor entries t.actor isDeactivation⟩ := by
  have hexact : Exact bulkWindow (deactivations entries t.actor) :=
    exact_of_short (by decide) (by decide) _
  have htimes : t.mutationTimes = deactivations entries t.actor := by
    rw [← mutationTimes_tallyOf]
    exact congrArg _ (mem_callersOf.mp h).2
  rw [bulkFlag, htimes, Option.map_eq_some_iff]
  constructor
  · rintro ⟨⟨count, start, stop⟩, hc, rfl⟩
    obtain ⟨hdensest, hle⟩ := (maxCluster_eq_some_iff hexact (by decide)).mp hc
    exact ⟨count, start, stop, hdensest, hle, rfl⟩
  · rintro ⟨count, start, stop, hdensest, hle, rfl⟩
    exact ⟨(count, start, stop), (maxCluster_eq_some_iff hexact (by decide)).mpr ⟨hdensest, hle⟩, rfl⟩

/-- A run of a caller's deactivations has its count in the log. -/
theorem count_between (actor : String) (start stop : Time) :
    Cluster.between start stop (deactivations entries actor) =
      (entries.filter fun e => decide (e.actorToken = actor ∧ isDeactivation e = true ∧
        start ≤ e.loggedAt ∧ e.loggedAt ≤ stop)).length := by
  rw [Cluster.between, deactivations, List.filter_map, List.length_map, List.filter_filter]
  congr 1
  refine List.filter_congr fun e _ => ?_
  simp only [Function.comp_apply, ← Bool.decide_and, decide_eq_decide]
  tauto

theorem bulkFlag_evidenced_iff (h : t ∈ callersOf entries) (hf : bulkFlag entries t = some f) :
    Evidenced entries loc f ↔ ∀ e ∈ shown entries t.actor isDeactivation,
      f.windowStart ≤ e.loggedAt ∧ e.loggedAt ≤ f.windowEnd := by
  obtain ⟨count, start, stop, hdensest, hle, rfl⟩ := (bulkFlag_eq_some h).mp hf
  constructor
  · intro hev e he
    obtain ⟨e', -, hcounts, heq⟩ := hev.examples (toEvent e) (mem_examplesFor.mpr ⟨e, he, rfl⟩)
    have hat : e'.loggedAt = e.loggedAt := congrArg Event.loggedAt heq
    rw [← hat]
    exact (of_decide_eq_true hcounts).2.2
  · intro hin
    refine ⟨hle, hdensest.count.symm.trans (count_between t.actor start stop), ?_⟩
    intro x hx
    obtain ⟨e, he, rfl⟩ := mem_examplesFor.mp hx
    obtain ⟨hmem, hactor, hkeep⟩ := mem_of_shown he
    exact ⟨e, hmem, decide_eq_true ⟨hactor, hkeep, hin e he⟩, rfl⟩

/-- The first deactivations of each caller with a burst lie in the earliest of its densest runs. -/
def ShowsBursts (entries : List AuditRow) : Prop :=
  ∀ actor count start stop,
    Cluster.Densest bulkWindow (deactivations entries actor) count start stop → bulkCount ≤ count →
    ∀ e ∈ shown entries actor isDeactivation, start ≤ e.loggedAt ∧ e.loggedAt ≤ stop

theorem mem_flags : f ∈ (detect entries tenantID since now loc).flags ↔
    (∃ t ∈ callersOf entries, bulkFlag entries t = some f) ∨
      (∃ t ∈ callersOf entries, denialFlag entries t = some f) ∨
      f ∈ offHoursFlag ((entries.filter fun e => isOffHours loc e.loggedAt).map toEvent) ∨
      ∃ t ∈ callersOf entries, volumeFlag entries t = some f := by
  rw [detect_flags]
  simp only [List.mem_append, List.mem_filterMap, or_assoc]

/-- Whatever else a report flags, its evidence is short of a burst's window only. -/
theorem detect_evidenced_iff (entries : List AuditRow) (tenantID : String) (since now : Time)
    (loc : Location) : (∀ f ∈ (detect entries tenantID since now loc).flags, Evidenced entries loc f) ↔
      ShowsBursts entries := by
  constructor
  · intro h actor count start stop hdensest hle
    have hcaller : tallyOf actor entries ∈ callersOf entries := by
      refine mem_callersOf.mpr ⟨fun hnil => ?_, rfl⟩
      change mine actor entries = [] at hnil
      have hmem := hdensest.start_mem
      rw [deactivations, ← filter_mine, hnil] at hmem
      cases hmem
    have hflag := (bulkFlag_eq_some hcaller).mpr ⟨count, start, stop, hdensest, hle, rfl⟩
    exact (bulkFlag_evidenced_iff hcaller hflag).mp (h _ (mem_flags.mpr (Or.inl ⟨_, hcaller, hflag⟩)))
  · intro h f hf
    rcases mem_flags.mp hf with ⟨t, ht, hf⟩ | ⟨t, ht, hf⟩ | hf | ⟨t, ht, hf⟩
    · rw [bulkFlag_evidenced_iff ht hf]
      obtain ⟨count, start, stop, hdensest, hle, rfl⟩ := (bulkFlag_eq_some ht).mp hf
      exact h t.actor count start stop hdensest hle
    · exact denialFlag_evidenced ht hf
    · exact offHoursFlag_evidenced hf
    · exact volumeFlag_evidenced ht hf

/-- One deactivation an hour before five at once. -/
def lateBurst : List AuditRow := deactivatedAt 0 :: List.replicate 5 (deactivatedAt 3600000000000)

/-- The first example is from before the burst. -/
theorem detect_not_evidenced :
    ¬ ∀ f ∈ (detect lateBurst "" 0 3600000000000 noon).flags, Evidenced lateBurst noon f := by
  intro h
  have hflags : (detect lateBurst "" 0 3600000000000 noon).flags =
      [⟨.bulkDeactivation, "key", 5, 3600000000000, 3600000000000,
        toEvent (deactivatedAt 0) :: List.replicate 4 (toEvent (deactivatedAt 3600000000000))⟩] := by
    decide +kernel
  rw [hflags] at h
  obtain ⟨e, -, hcounts, heq⟩ := (h _ List.mem_cons_self).examples _ List.mem_cons_self
  have hat : e.loggedAt = 0 := congrArg Event.loggedAt heq
  have hstart := (of_decide_eq_true hcounts).2.2.1
  rw [hat] at hstart
  exact absurd hstart (by decide)

end Scimage.Aria
