import Scimage.Lib.Cluster
import Scimage.Lib.JsonMap
import Scimage.Store.Schema
import Scimage.Webhook.Signer

/-! The deterministic read of an audit window. -/
namespace Scimage.Aria

open Store (Time AuditRow Action Outcome Resource)
open Relational (Table)

/-! ### Thresholds -/

/-- Ten minutes in nanoseconds. -/
def bulkWindow : Int := 10 * 60 * 1000000000
def bulkCount : Nat := 5
def volumeCount : Nat := 50
def denialCount : Nat := 5

def businessStartHour : Nat := 7
def businessEndHour : Nat := 19

def maxExamples : Nat := 5

/-! ### Reports -/

inductive FlagKind where
  | bulkDeactivation | denialBurst | offHours | highVolume
  deriving DecidableEq

/-- An audit row without its images. -/
structure Event where
  loggedAt : Time
  actorToken : String
  tenantID : String
  resourceType : Resource
  action : Action
  result : Outcome
  targetID : String
  deriving DecidableEq

/-- The bounds are set for clustered flags, the actor where one is responsible. -/
structure Flag where
  kind : FlagKind
  actor : String
  count : Nat
  windowStart : Time
  windowEnd : Time
  examples : List Event
  deriving DecidableEq

/-- An empty `tenantID` is a review of every tenant. -/
structure Report where
  tenantID : String
  since : Time
  now : Time
  total : Nat
  callers : Nat
  truncated : Bool
  flags : List Flag
  deriving DecidableEq

/-- `time.Location`: the local day of the week, Sunday being 0, and hour. -/
structure Location where
  weekday : Time → Nat
  hour : Time → Nat

def isOffHours (loc : Location) (t : Time) : Bool :=
  loc.weekday t = 6 ∨ loc.weekday t = 0 ∨ loc.hour t < businessStartHour ∨
    businessEndHour ≤ loc.hour t

/-! ### Clusters -/

/-- The densest run within the window and its bounds, when it reaches `minCount`. -/
def maxCluster (times : List Time) (window : Int) (minCount : Nat) : Option (Nat × Time × Time) :=
  if times.length < minCount then none
  else
    let run := Cluster.scan (fun t s => window < Webhook.sub t s) (times.insertionSort (· ≤ ·))
    if minCount ≤ run.best then some (run.best, run.start, run.stop) else none

/-! ### Detection -/

def isDeactivation (e : AuditRow) : Bool := e.action = .deactivate ∨ e.action = .delete

def isDenial (e : AuditRow) : Bool := e.result = .denied

def anyEvent (_ : AuditRow) : Bool := true

def toEvent (e : AuditRow) : Event :=
  ⟨e.loggedAt, e.actorToken, e.tenantID, e.resourceType, e.action, e.result,
    (e.targetID.map Store.Uuid.text).getD ""⟩

def examplesFor (entries : List AuditRow) (actor : String) (keep : AuditRow → Bool) : List Event :=
  ((entries.filter fun e => e.actorToken = actor ∧ keep e).take maxExamples).map toEvent

def capExamples (events : List Event) : List Event := events.take maxExamples

structure Tally where
  actor : String
  total : Nat
  denials : Nat
  mutationTimes : List Time

def Tally.of (actor : String) : Tally := ⟨actor, 0, 0, []⟩

def Tally.add (t : Tally) (e : AuditRow) : Tally where
  actor := t.actor
  total := t.total + 1
  denials := if isDenial e then t.denials + 1 else t.denials
  mutationTimes := if isDeactivation e then t.mutationTimes ++ [e.loggedAt] else t.mutationTimes

abbrev Tallies := Table String Tally Tally.actor

def tallyEntry (ts : Tallies) (e : AuditRow) : Tallies :=
  ts.put (((ts.find? e.actorToken).getD (.of e.actorToken)).add e)

/-- Busiest first, then by name. -/
def Tally.before (a b : Tally) : Bool :=
  Nat.blt b.total a.total || (Nat.beq a.total b.total && Json.keyLe a.actor b.actor)

def bulkFlag (entries : List AuditRow) (t : Tally) : Option Flag :=
  (maxCluster t.mutationTimes bulkWindow bulkCount).map fun c =>
    ⟨.bulkDeactivation, t.actor, c.1, c.2.1, c.2.2, examplesFor entries t.actor isDeactivation⟩

def denialFlag (entries : List AuditRow) (t : Tally) : Option Flag :=
  if denialCount ≤ t.denials then
    some ⟨.denialBurst, t.actor, t.denials, 0, 0, examplesFor entries t.actor isDenial⟩
  else none

def offHoursFlag (events : List Event) : List Flag :=
  if events = [] then [] else [⟨.offHours, "", events.length, 0, 0, capExamples events⟩]

def volumeFlag (entries : List AuditRow) (t : Tally) : Option Flag :=
  if volumeCount ≤ t.total then
    some ⟨.highVolume, t.actor, t.total, 0, 0, examplesFor entries t.actor anyEvent⟩
  else none

def detect (entries : List AuditRow) (tenantID : String) (since now : Time) (loc : Location) :
    Report :=
  let tallies := entries.foldl tallyEntry .empty
  let offHours := (entries.filter fun e => isOffHours loc e.loggedAt).map toEvent
  let callers := tallies.rows.insertionSort fun a b => a.before b
  { tenantID, since, now
    total := entries.length
    callers := tallies.rows.length
    truncated := false
    flags := callers.filterMap (bulkFlag entries) ++ callers.filterMap (denialFlag entries) ++
      offHoursFlag offHours ++ callers.filterMap (volumeFlag entries) }

/-! ### What a tally counts -/

def mine (actor : String) (entries : List AuditRow) : List AuditRow :=
  entries.filter fun e => e.actorToken = actor

def tallyOf (actor : String) (entries : List AuditRow) : Tally :=
  ⟨actor, (mine actor entries).length, ((mine actor entries).filter isDenial).length,
    ((mine actor entries).filter isDeactivation).map AuditRow.loggedAt⟩

theorem tallyOf_snoc (es : List AuditRow) (e : AuditRow) :
    tallyOf e.actorToken (es ++ [e]) = (tallyOf e.actorToken es).add e := by
  have hmine : mine e.actorToken (es ++ [e]) = mine e.actorToken es ++ [e] := by simp [mine]
  rw [tallyOf, hmine, tallyOf, Tally.add]
  by_cases hd : isDenial e <;> by_cases hm : isDeactivation e <;> simp [hd, hm]

theorem tallyOf_other {actor : String} {e : AuditRow} (h : e.actorToken ≠ actor)
    (es : List AuditRow) : tallyOf actor (es ++ [e]) = tallyOf actor es := by
  have hmine : mine actor (es ++ [e]) = mine actor es := by simp [mine, h]
  rw [tallyOf, hmine, tallyOf]

/-- Each caller has the tally of its own entries. -/
theorem tallies_find? (es : List AuditRow) (actor : String) :
    (es.foldl tallyEntry .empty).find? actor =
      if mine actor es = [] then none else some (tallyOf actor es) := by
  induction es using List.reverseRecOn with
  | nil => rfl
  | append_singleton es e ih =>
    have hactor : (((es.foldl tallyEntry .empty).find? e.actorToken).getD (.of e.actorToken)).actor =
        e.actorToken := by
      cases hf : (es.foldl tallyEntry .empty).find? e.actorToken with
      | none => rfl
      | some t => exact Table.find?_key hf
    have hkey : (Tally.add (((es.foldl tallyEntry .empty).find? e.actorToken).getD
        (.of e.actorToken)) e).actor = e.actorToken := hactor
    rw [List.foldl_append, List.foldl_cons, List.foldl_nil, tallyEntry, Table.find?_put, hkey]
    by_cases he : e.actorToken = actor
    · subst he
      have hne : mine e.actorToken (es ++ [e]) ≠ [] := by simp [mine]
      rw [if_pos rfl, if_neg hne, tallyOf_snoc, ih]
      by_cases hnil : mine e.actorToken es = []
      · rw [if_pos hnil, tallyOf, hnil]
        rfl
      · rw [if_neg hnil]
        rfl
    · have hmine : mine actor (es ++ [e]) = mine actor es := by simp [mine, he]
      rw [if_neg fun h => he h.symm, ih, hmine, tallyOf_other he]

theorem mem_tallies {es : List AuditRow} {t : Tally} : t ∈ (es.foldl tallyEntry .empty).rows ↔
    mine t.actor es ≠ [] ∧ t = tallyOf t.actor es := by
  rw [Table.mem_rows_iff, tallies_find?]
  by_cases hnil : mine t.actor es = []
  · simp [hnil]
  · rw [if_neg hnil, Option.some.injEq]
    exact ⟨fun h => ⟨hnil, h.symm⟩, fun h => h.2.symm⟩

/-! ### When a bulk flag is raised -/

def Report.flagsBulk (r : Report) (caller : String) : Prop :=
  ∃ f ∈ r.flags, f.kind = .bulkDeactivation ∧ f.actor = caller

/-- Ages saturate far beyond any window. -/
theorem lt_sub_iff {window : Int} (hlow : 0 ≤ window) (hhigh : window < Webhook.maxDuration)
    (t s : Int) : window < Webhook.sub t s ↔ window < t - s := by
  unfold Webhook.maxDuration at hhigh
  unfold Webhook.sub Webhook.maxDuration
  split_ifs <;> omega

/-- Where ages are compared as they are, the pass reads them as they are. -/
theorem scan_exact {times : List Time} {window : Int}
    (h : ∀ t ∈ times, ∀ s ∈ times, decide (window < Webhook.sub t s) = decide (window < t - s)) :
    Cluster.scan (fun t s => window < Webhook.sub t s) (times.insertionSort (· ≤ ·)) =
      Cluster.scan (fun t s => decide (window < t - s)) (times.insertionSort (· ≤ ·)) := by
  refine (Cluster.scan_congr fun t ht s hs => ?_).1
  rw [List.mem_insertionSort] at ht hs
  exact h t ht s hs

theorem maxCluster_isSome {times : List Time} {window : Int} {minCount : Nat}
    (h : ∀ t ∈ times, ∀ s ∈ times, decide (window < Webhook.sub t s) = decide (window < t - s))
    (hcount : 0 < minCount) :
    (maxCluster times window minCount).isSome ↔ ∃ a, minCount ≤ Cluster.within window a times := by
  have hfar : ∀ t s : Int, decide (window < t - s) = true ↔ window < t - s :=
    fun t s => decide_eq_true_iff
  have hbest := Cluster.le_best_iff hfar (List.pairwise_insertionSort (· ≤ ·) times) hcount
  simp only [Cluster.within_perm (List.perm_insertionSort (· ≤ ·) times)] at hbest
  rw [maxCluster, scan_exact h]
  by_cases hlen : times.length < minCount
  · rw [if_pos hlen]
    refine iff_of_false Bool.false_ne_true ?_
    rintro ⟨a, ha⟩
    have hle := Cluster.within_le_length window a times
    omega
  · rw [if_neg hlen, ← hbest]
    dsimp only
    split_ifs with h <;> simp [h]

/-- A caller is flagged when some window holds enough of its deactivations and deletions. -/
theorem flagsBulk_iff {entries : List AuditRow} {tenantID : String} {since now : Time}
    {loc : Location} {caller : String} : (detect entries tenantID since now loc).flagsBulk caller ↔
      ∃ a, bulkCount ≤ Cluster.within bulkWindow a (tallyOf caller entries).mutationTimes := by
  have hcluster : (maxCluster (tallyOf caller entries).mutationTimes bulkWindow bulkCount).isSome ↔
      ∃ a, bulkCount ≤ Cluster.within bulkWindow a (tallyOf caller entries).mutationTimes :=
    maxCluster_isSome (fun t _ s _ => decide_eq_decide.mpr (lt_sub_iff (by decide) (by decide) t s))
      (by decide)
  rw [← hcluster]
  constructor
  · rintro ⟨f, hf, hkind, hactor⟩
    simp only [detect, List.mem_append, List.mem_filterMap, List.mem_insertionSort] at hf
    rcases hf with ((⟨t, ht, hf⟩ | ⟨t, ht, hf⟩) | hf) | ⟨t, ht, hf⟩
    · obtain ⟨c, hc, rfl⟩ := Option.map_eq_some_iff.mp hf
      have hown : t = tallyOf caller entries := by
        rw [← hactor]
        exact (mem_tallies.mp ht).2
      rw [← hown, hc]
      rfl
    · rw [denialFlag] at hf
      split_ifs at hf
      cases hf
      cases hkind
    · rw [offHoursFlag] at hf
      split_ifs at hf
      · cases hf
      · rw [List.mem_singleton.mp hf] at hkind
        cases hkind
    · rw [volumeFlag] at hf
      split_ifs at hf
      cases hf
      cases hkind
  · intro h
    obtain ⟨c, hc⟩ := Option.isSome_iff_exists.mp h
    have hmine : mine caller entries ≠ [] := by
      intro hnil
      rw [tallyOf, hnil] at hc
      cases hc
    refine ⟨⟨.bulkDeactivation, caller, c.1, c.2.1, c.2.2,
      examplesFor entries caller isDeactivation⟩, ?_, rfl, rfl⟩
    simp only [detect, List.mem_append, List.mem_filterMap, List.mem_insertionSort]
    refine Or.inl (Or.inl (Or.inl ⟨tallyOf caller entries, mem_tallies.mpr ⟨hmine, rfl⟩, ?_⟩))
    rw [bulkFlag, hc]
    rfl

end Scimage.Aria
