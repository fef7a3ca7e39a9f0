import Scimage.Aria.Pointers

/-! A review reads the entries in any order. -/
namespace Scimage.Aria

open Store (Time AuditRow)

variable {entries entries' : List AuditRow} {tenantID : String} {since now : Time} {loc : Location}
  {a b c : Tally}

/-! ### The order of callers -/

theorem before_iff : a.before b = true ↔
    b.total < a.total ∨ a.total = b.total ∧ Json.keyLe a.actor b.actor = true := by
  simp [Tally.before, Nat.blt_eq, Nat.beq_eq]

theorem before_total (a b : Tally) : a.before b = true ∨ b.before a = true := by
  rw [before_iff, before_iff]
  rcases Nat.lt_trichotomy a.total b.total with hlt | heq | hlt
  · exact Or.inr (Or.inl hlt)
  · exact (Json.keyLe_total a.actor b.actor).imp (fun h => Or.inr ⟨heq, h⟩)
      fun h => Or.inr ⟨heq.symm, h⟩
  · exact Or.inl (Or.inl hlt)

theorem before_trans (hab : a.before b = true) (hbc : b.before c = true) : a.before c = true := by
  rw [before_iff] at *
  rcases hab with hab | ⟨hab, hactor⟩
  · left
    rcases hbc with hbc | ⟨hbc, -⟩ <;> omega
  · rcases hbc with hbc | ⟨hbc, hactor'⟩
    · left
      omega
    · exact Or.inr ⟨hab.trans hbc, Json.keyLe_trans hactor hactor'⟩

/-- Two callers never tie. -/
theorem before_antisymm (hab : a.before b = true) (hba : b.before a = true) : a.actor = b.actor := by
  rw [before_iff] at *
  rcases hab with hab | ⟨htotal, hactor⟩
  · rcases hba with hba | ⟨hba, -⟩ <;> omega
  · rcases hba with hba | ⟨-, hactor'⟩
    · omega
    · exact Json.keyLe_antisymm hactor hactor'

instance : Std.Total fun a b : Tally => a.before b = true where
  total := before_total

instance : IsTrans Tally fun a b => a.before b = true where
  trans _ _ _ := before_trans

/-- The callers as the flags are written, busiest first. -/
def callersOf (entries : List AuditRow) : List Tally :=
  (entries.foldl tallyEntry .empty).rows.insertionSort fun a b => a.before b

theorem callersOf_perm (entries : List AuditRow) :
    (callersOf entries).Perm (entries.foldl tallyEntry .empty).rows :=
  List.perm_insertionSort _ _

theorem callersOf_sorted (entries : List AuditRow) :
    (callersOf entries).Pairwise fun a b => a.before b = true :=
  List.pairwise_insertionSort (fun a b : Tally => a.before b = true) _

theorem mem_callersOf : a ∈ callersOf entries ↔
    mine a.actor entries ≠ [] ∧ a = tallyOf a.actor entries := by
  rw [(callersOf_perm entries).mem_iff, mem_tallies]

/-- The map may be walked in any order. -/
theorem callersOf_walked {walked : List Tally}
    (h : walked.Perm (entries.foldl tallyEntry .empty).rows) :
    walked.insertionSort (fun a b => a.before b) = callersOf entries := by
  have hperm : (walked.insertionSort fun a b => a.before b).Perm (callersOf entries) :=
    (List.perm_insertionSort _ _).trans (h.trans (callersOf_perm entries).symm)
  refine hperm.eq_of_pairwise ?_
    (List.pairwise_insertionSort (fun a b : Tally => a.before b = true) _) (callersOf_sorted entries)
  intro a b ha hb hab hba
  have ha' := (mem_callersOf.mp (hperm.mem_iff.mp ha)).2
  rw [ha', before_antisymm hab hba]
  exact (mem_callersOf.mp hb).2.symm

/-! ### Callers of the same entries -/

theorem mine_perm (h : entries'.Perm entries) (actor : String) :
    (mine actor entries').Perm (mine actor entries) :=
  h.filter _

/-- Tallies of one caller that differ in the order of its instants only. -/
structure SameTally (a b : Tally) : Prop where
  actor : a.actor = b.actor
  total : a.total = b.total
  denials : a.denials = b.denials
  times : a.mutationTimes.Perm b.mutationTimes

theorem tallyOf_perm (h : entries'.Perm entries) (actor : String) :
    SameTally (tallyOf actor entries') (tallyOf actor entries) where
  actor := rfl
  total := (mine_perm h actor).length_eq
  denials := ((mine_perm h actor).filter _).length_eq
  times := ((mine_perm h actor).filter _).map _

theorem callersOf_eq (entries : List AuditRow) :
    callersOf entries = ((callersOf entries).map Tally.actor).map fun actor => tallyOf actor entries := by
  rw [List.map_map]
  exact (List.map_id _).symm.trans (List.map_congr_left fun t ht => (mem_callersOf.mp ht).2)

theorem actors_nodup (entries : List AuditRow) : ((callersOf entries).map Tally.actor).Nodup :=
  ((callersOf_perm entries).map Tally.actor).nodup_iff.mpr (entries.foldl tallyEntry .empty).nodup

theorem mem_actors {actor : String} :
    actor ∈ (callersOf entries).map Tally.actor ↔ mine actor entries ≠ [] := by
  rw [List.mem_map]
  constructor
  · rintro ⟨t, ht, rfl⟩
    exact (mem_callersOf.mp ht).1
  · intro h
    exact ⟨tallyOf actor entries, mem_callersOf.mpr ⟨h, rfl⟩, rfl⟩

theorem actors_perm (h : entries'.Perm entries) :
    (callersOf entries').map Tally.actor = (callersOf entries).map Tally.actor := by
  have hperm : ((callersOf entries').map Tally.actor).Perm ((callersOf entries).map Tally.actor) := by
    rw [List.perm_ext_iff_of_nodup (actors_nodup entries') (actors_nodup entries)]
    intro actor
    rw [mem_actors, mem_actors, Ne, Ne, ← List.length_eq_zero_iff, (mine_perm h actor).length_eq,
      List.length_eq_zero_iff]
  have hbefore : ∀ (es : List AuditRow),
      ((callersOf es).map Tally.actor).Pairwise fun x y => (tallyOf x es).before (tallyOf y es) = true := by
    intro es
    rw [List.pairwise_map]
    refine (callersOf_sorted es).imp_of_mem fun hx hy hxy => ?_
    rw [← (mem_callersOf.mp hx).2, ← (mem_callersOf.mp hy).2]
    exact hxy
  refine hperm.eq_of_pairwise (fun x y _ _ hxy hyx => before_antisymm hxy hyx) ?_ (hbefore entries)
  refine (hbefore entries').imp fun hxy => ?_
  -- the totals are those of the other order
  rw [before_iff] at *
  rw [← (tallyOf_perm h _).total, ← (tallyOf_perm h _).total]
  exact hxy

/-! ### Flags without their examples -/

/-- What a flag says but for its examples. -/
def Flag.headline (f : Flag) : FlagKind × String × Nat × Time × Time :=
  (f.kind, f.actor, f.count, f.windowStart, f.windowEnd)

theorem bulkFlag_headline (h : SameTally a b) :
    (bulkFlag entries' a).map Flag.headline = (bulkFlag entries b).map Flag.headline := by
  rw [bulkFlag, bulkFlag, maxCluster_perm h.times, h.actor, Option.map_map, Option.map_map]
  rfl

theorem denialFlag_headline (h : SameTally a b) :
    (denialFlag entries' a).map Flag.headline = (denialFlag entries b).map Flag.headline := by
  rw [denialFlag, denialFlag, h.denials, h.actor]
  split <;> rfl

theorem volumeFlag_headline (h : SameTally a b) :
    (volumeFlag entries' a).map Flag.headline = (volumeFlag entries b).map Flag.headline := by
  rw [volumeFlag, volumeFlag, h.total, h.actor]
  split <;> rfl

theorem offHoursFlag_headline {events events' : List Event} (h : events'.Perm events) :
    (offHoursFlag events').map Flag.headline = (offHoursFlag events).map Flag.headline := by
  rw [offHoursFlag, offHoursFlag, h.length_eq]
  by_cases hnil : events = []
  · subst hnil
    rw [h.eq_nil]
  · have hnil' : events' ≠ [] := by
      rintro rfl
      exact hnil h.symm.eq_nil
    rw [if_neg hnil, if_neg hnil']
    rfl

/-- A kind of flag that is read off tallies is read off in the same order. -/
theorem headlines_perm (h : entries'.Perm entries) {flag flag' : Tally → Option Flag}
    (hflag : ∀ {a b}, SameTally a b → (flag' a).map Flag.headline = (flag b).map Flag.headline) :
    ((callersOf entries').filterMap flag').map Flag.headline =
      ((callersOf entries).filterMap flag).map Flag.headline := by
  rw [callersOf_eq entries', callersOf_eq entries, actors_perm h]
  generalize (callersOf entries).map Tally.actor = actors
  rw [List.map_filterMap, List.map_filterMap, List.filterMap_map, List.filterMap_map]
  refine List.filterMap_congr fun actor _ => ?_
  exact hflag (tallyOf_perm h actor)

theorem detect_flags (entries : List AuditRow) :
    (detect entries tenantID since now loc).flags =
      (callersOf entries).filterMap (bulkFlag entries) ++
        (callersOf entries).filterMap (denialFlag entries) ++
        offHoursFlag ((entries.filter fun e => isOffHours loc e.loggedAt).map toEvent) ++
        (callersOf entries).filterMap (volumeFlag entries) :=
  rfl

/-- A report is the same for every order of the entries, and of the map of callers, up to the
examples. -/
theorem detect_perm (entries entries' : List AuditRow) (h : entries'.Perm entries)
    (tenantID : String) (since now : Time) (loc : Location) :
    (detect entries' tenantID since now loc).total = (detect entries tenantID since now loc).total ∧
      (detect entries' tenantID since now loc).callers =
        (detect entries tenantID since now loc).callers ∧
      (detect entries' tenantID since now loc).flags.map Flag.headline =
        (detect entries tenantID since now loc).flags.map Flag.headline ∧
      ∀ walked : List Tally, walked.Perm (entries.foldl tallyEntry .empty).rows →
        walked.insertionSort (fun a b => a.before b) =
          (entries.foldl tallyEntry .empty).rows.insertionSort fun a b => a.before b := by
  refine ⟨h.length_eq, ?_, ?_, fun walked => callersOf_walked⟩
  · have hlength := congrArg List.length (actors_perm h)
    rw [List.length_map, List.length_map, (callersOf_perm entries').length_eq,
      (callersOf_perm entries).length_eq] at hlength
    exact hlength
  · rw [detect_flags, detect_flags]
    simp only [List.map_append]
    rw [headlines_perm h bulkFlag_headline, headlines_perm h denialFlag_headline,
      headlines_perm h volumeFlag_headline, offHoursFlag_headline ((h.filter _).map toEvent)]

/-- A deactivation by one caller. -/
def deactivatedAt (loggedAt : Time) : AuditRow where
  id := 0
  loggedAt := loggedAt
  tenantID := "tenant"
  resourceType := .user
  actorToken := "key"
  actorIP := none
  action := .deactivate
  result := .success
  detail := none
  targetID := none
  before := none
  after := none

/-- A place where it is always noon on a Monday. -/
def noon : Location := ⟨fun _ => 1, fun _ => 12⟩

theorem detect_perm_two : (detect [deactivatedAt 2, deactivatedAt 1] "" 0 9 noon).flags.map Flag.headline =
    (detect [deactivatedAt 1, deactivatedAt 2] "" 0 9 noon).flags.map Flag.headline :=
  (detect_perm [deactivatedAt 1, deactivatedAt 2] [deactivatedAt 2, deactivatedAt 1]
    (List.Perm.swap _ _ _) "" 0 9 noon).2.2.1

end Scimage.Aria
