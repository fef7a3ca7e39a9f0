import Scimage.Scim.Batch
import Scimage.Scim.OnePass

/-! PATCH with a registry, against PATCH without one. -/
namespace Scimage.Scim

open Store (Db Postgres UserRow scanUser trimSpace)
open Json (Value Map Ranking readMap)

variable {pg : Postgres} {U : Unicode} {T : TimeText} {db : Db} {registered : Registry}

/-! ### What a PATCH shows -/

/-- The status, the `scimType` and what is to be stored. -/
def outcome : Except Refusal Store.User → Nat × String × Option Store.User
  | .error e => (400, e.scimType, none)
  | .ok su => (200, "", some su)

/-- An action other than the three that PATCH has. -/
def Operation.Unknown (U : Unicode) (op : Operation) : Prop :=
  op.action U ≠ "add" ∧ op.action U ≠ "replace" ∧ op.action U ≠ "remove"

/-- The path is one that the registry has. -/
def Operation.Captured (U : Unicode) (registered : Registry) (op : Operation) : Prop :=
  trimSpace op.path ≠ "" ∧ registered.canonical U (trimSpace op.path) ≠ none

/-- A pathless `add` or `replace` whose object has no key. -/
def Operation.Idle (U : Unicode) (op : Operation) : Prop :=
  trimSpace op.path = "" ∧ (op.action U = "add" ∨ op.action U = "replace") ∧
    ∃ m, op.value.bind readMap = some m ∧ m.rows = []

/-! ### An operation that the registry does not have -/

theorem unnamed_entries {s : Scheduled} (h : ∀ name, ¬ s.op.Names U registered (.extended name))
    (ω : Ranking) : ∀ e ∈ entries U ω s.op, e.canonical U registered = none := by
  intro e he
  by_contra hsome
  obtain ⟨name, hname⟩ := Option.ne_none_iff_exists'.mp hsome
  exact h name ⟨e, entries_mem he, hname⟩

/-- Nothing of it goes to the blob. -/
theorem unnamed_steps {s : Scheduled} (h : ∀ name, ¬ s.op.Names U registered (.extended name)) :
    coreSteps U registered s = coreSteps U .empty s ∧ extendedSteps U registered s = [] := by
  refine ⟨?_, ?_⟩
  · rw [coreSteps, coreSteps]
    refine List.filterMap_congr fun e he => ?_
    rw [Entry.core, Entry.core, unnamed_entries h s.apply e he, entry_unregistered rfl]
  · refine List.filterMap_eq_nil_iff.mpr fun e he => ?_
    rw [Entry.extended, unnamed_entries h s.split e he]
    rfl

/-- It stays an operation of the core unless it is idle. -/
theorem unnamed_split {s : Scheduled} (h : ∀ name, ¬ s.op.Names U registered (.extended name)) :
    (splitOp U registered s).1 = [] ↔ s.op.Idle U := by
  have hentries := unnamed_entries h fun _ => 0
  rw [splitOp, Operation.Idle]
  rw [entries] at hentries
  by_cases hpath : trimSpace s.op.path ≠ ""
  · rw [if_pos hpath] at hentries ⊢
    have hnone : registered.canonical U (trimSpace s.op.path) = none := hentries _ (List.mem_singleton_self _)
    rw [hnone]
    exact iff_of_false (List.cons_ne_nil _ _) fun hidle => hpath hidle.1
  rw [if_neg hpath] at hentries ⊢
  by_cases haction : s.op.action U ≠ "add" ∧ s.op.action U ≠ "replace"
  · rw [if_pos haction]
    exact iff_of_false (List.cons_ne_nil _ _) fun hidle => hidle.2.1.elim haction.1 haction.2
  rw [if_neg haction] at hentries ⊢
  have hvalue : s.op.action U = "add" ∨ s.op.action U = "replace" :=
    (not_and_or.mp haction).imp not_not.mp not_not.mp
  cases hobj : s.op.value.bind readMap with
  | none =>
    refine iff_of_false (List.cons_ne_nil _ _) ?_
    rintro ⟨-, -, m, hm, -⟩
    cases hm
  | some attrs =>
    rw [hobj] at hentries
    have hall : (coreAttrs U registered attrs).rows = attrs.rows := by
      refine List.filter_eq_self.mpr fun e he => ?_
      have hnone : registered.canonical U e.1 = none :=
        hentries (.ofMember e) (List.mem_map_of_mem (Json.mem_range.mpr he))
      rw [hnone]
      rfl
    dsimp only
    rw [coreObject, hall]
    constructor
    · intro hnil
      split_ifs at hnil with hrows
      exact ⟨not_not.mp hpath, hvalue, attrs, rfl, hrows⟩
    · rintro ⟨-, -, m, hm, hrows⟩
      cases hm
      rw [if_pos hrows]

/-- An idle operation has no step. -/
theorem idle_steps {s : Scheduled} (h : s.op.Idle U) : coreSteps U registered s = [] := by
  obtain ⟨hpath, haction, m, hm, hrows⟩ := h
  have hentries : entries U s.apply s.op = [] := by
    rw [entries, if_neg (not_not.mpr hpath), if_neg fun hne => haction.elim hne.1 hne.2, hm]
    dsimp only
    have hrange : m.range s.apply = [] := ((Json.range_perm s.apply m).trans (.of_eq hrows)).eq_nil
    rw [hrange]
    rfl
  rw [coreSteps, hentries]
  rfl

theorem flatMap_unnamed {ops : List Scheduled}
    (h : ∀ s ∈ ops, ∀ name, ¬ s.op.Names U registered (.extended name)) :
    ops.flatMap (coreSteps U registered) = ops.flatMap (coreSteps U .empty) ∧
      ops.flatMap (extendedSteps U registered) = [] := by
  refine ⟨List.flatMap_congr fun s hs => (unnamed_steps (h s hs)).1, ?_⟩
  exact List.flatMap_eq_nil_iff.mpr fun s hs => (unnamed_steps (h s hs)).2

/-! ### A body that names no registered attribute -/

/-- With a registry, nothing is left of a body of idle operations, and it counts as empty. -/
def DropsAll (U : Unicode) (registered : Registry) (ops : List Scheduled) : Prop :=
  registered.rows ≠ [] ∧ ops ≠ [] ∧ ∀ s ∈ ops, s.op.Idle U

theorem split_nil {ops : List Scheduled}
    (h : ∀ s ∈ ops, ∀ name, ¬ s.op.Names U registered (.extended name)) :
    ((splitExtendedOps U registered ops).1 = [] ∧ (splitExtendedOps U registered ops).2 = []) ↔
      ops = [] ∨ DropsAll U registered ops := by
  have hext : (splitExtendedOps U registered ops).2 = [] := by
    rw [(splitExtendedOps_steps U registered ops).2]
    exact (flatMap_unnamed h).2
  rw [and_iff_left hext, splitExtendedOps, DropsAll]
  by_cases hnone : registered.rows = []
  · rw [if_pos hnone]
    simp [hnone]
  · rw [if_neg hnone]
    dsimp only
    rw [List.flatMap_eq_nil_iff]
    have hidle : (∀ s ∈ ops, (splitOp U registered s).1 = []) ↔ ∀ s ∈ ops, s.op.Idle U :=
      forall₂_congr fun s hs => unnamed_split (h s hs)
    rw [hidle]
    by_cases hops : ops = []
    · simp [hops]
    · simp [hnone, hops]

theorem patchUser_neutral {existing : Store.User} {ops : List Scheduled}
    (hvalid : validate (fromStoreUser existing baseURL) = "")
    (h : ∀ s ∈ ops, ∀ name, ¬ s.op.Names U registered (.extended name)) :
    outcome (patchUser U registered existing baseURL ops) = outcome (patchUser U .empty existing baseURL ops) ↔
      ¬ DropsAll U registered ops := by
  have hplain : ∀ s ∈ ops, ∀ name, ¬ s.op.Names U .empty (.extended name) := by
    rintro s - name ⟨e, -, hname⟩
    rw [entry_unregistered rfl] at hname
    cases hname
  obtain ⟨hcore, hext⟩ := flatMap_unnamed h
  obtain ⟨-, hext'⟩ := flatMap_unnamed hplain
  have hsplit := split_nil h
  have hsplit' : ((splitExtendedOps U .empty ops).1 = [] ∧ (splitExtendedOps U .empty ops).2 = []) ↔ ops = [] := by
    rw [split_nil hplain]
    exact or_iff_left fun hdrops => hdrops.1 rfl
  rw [patchUser_steps, patchUser_steps, hcore, hext, hext']
  by_cases hdrops : DropsAll U registered ops
  · have hsteps : ops.flatMap (coreSteps U .empty) = [] :=
      List.flatMap_eq_nil_iff.mpr fun s hs => idle_steps (hdrops.2.2 s hs)
    rw [if_pos (hsplit.mpr (Or.inr hdrops)), if_neg fun hnil => hdrops.2.1 (hsplit'.mp hnil), hsteps]
    refine iff_of_false ?_ (not_not.mpr hdrops)
    change _ ≠ outcome (finishPatch existing (fromStoreUser existing baseURL) [])
    rw [finishPatch, if_neg (not_not.mpr hvalid), applyExtendedOps, if_pos rfl]
    intro heq
    cases heq
  · refine iff_of_true ?_ hdrops
    by_cases hops : ops = []
    · rw [if_pos (hsplit.mpr (Or.inl hops)), if_pos (hsplit'.mpr hops)]
    · rw [if_neg fun hnil => (hsplit.mp hnil).elim hops hdrops, if_neg fun hnil => hops (hsplit'.mp hnil)]

/-! ### An action that PATCH does not have -/

theorem unknown_step {op : Operation} (h : op.Unknown U) : pathStep U op = .refuse (.unsupportedOp op.op) := by
  rw [pathStep, if_neg (not_or.mpr ⟨h.1, h.2.1⟩), if_neg h.2.2]

/-- Unless it is captured, its refusal is a step of the core. -/
theorem unknown_uncaptured {s : Scheduled} (h : s.op.Unknown U) (hfree : ¬ s.op.Captured U registered) :
    Step.refuse (.unsupportedOp s.op.op) ∈ coreSteps U registered s := by
  rw [coreSteps, entries]
  by_cases hpath : trimSpace s.op.path ≠ ""
  · have hnone : registered.canonical U (trimSpace s.op.path) = none :=
      not_not.mp fun hsome => hfree ⟨hpath, hsome⟩
    rw [if_pos hpath, unknown_step h, List.filterMap_cons, core_keyed, hnone]
    exact List.mem_cons_self
  · rw [if_neg hpath, if_pos ⟨h.1, h.2.1⟩, unknown_step h]
    exact List.mem_cons_self

theorem unknown_refused {existing : Store.User} {ops : List Scheduled} {s : Scheduled} (hs : s ∈ ops)
    (h : s.op.Unknown U) (hfree : ¬ s.op.Captured U registered) (baseURL : String) :
    ∃ e, patchUser U registered existing baseURL ops = .error e := by
  cases hpatch : patchUser U registered existing baseURL ops with
  | error e => exact ⟨e, rfl⟩
  | ok su =>
    obtain ⟨chs, -, hres, -⟩ := patchUser_ok hpatch
    obtain ⟨ch, hch⟩ := resolveAll_of_mem hres (List.mem_flatMap.mpr ⟨s, hs, unknown_uncaptured h hfree⟩)
    cases hch

/-- Captured, it is taken for an operation on the blob, and does nothing there. -/
theorem unknown_captured {existing : Store.User} {s : Scheduled} (hcaptured : s.op.Captured U registered)
    (hvalid : validate (fromStoreUser existing baseURL) = "")
    (hblob : (readBlob existing.extendedAttributes).isSome) :
    ∃ su, patchUser U registered existing baseURL [s] = .ok su := by
  obtain ⟨hpath, hsome⟩ := hcaptured
  obtain ⟨canon, hcanon⟩ := Option.ne_none_iff_exists'.mp hsome
  obtain ⟨m, hm⟩ := Option.isSome_iff_exists.mp hblob
  have hcore : [s].flatMap (coreSteps U registered) = [] := by
    rw [List.flatMap_singleton, coreSteps, entries, if_pos hpath, List.filterMap_cons, core_keyed, hcanon]
    rfl
  have hext : [s].flatMap (extendedSteps U registered) = [⟨s.op.action U, canon, s.op.value⟩] := by
    rw [List.flatMap_singleton, extendedSteps, entries, if_pos hpath, List.filterMap_cons, extended_keyed,
      hcanon]
    rfl
  have happly : applyExtendedOps existing.extendedAttributes ([s].flatMap (extendedSteps U registered)) =
      some (blobText ([(⟨s.op.action U, canon, s.op.value⟩ : ExtendedOp)].foldl ExtendedOp.apply m)) := by
    rw [hext]
    exact (applyExtendedOps_some (List.cons_ne_nil _ _)).mpr ⟨m, hm, rfl⟩
  refine ⟨_, patchUser_ok_iff.mpr ⟨?_, [], _, ?_, hvalid, happly, rfl⟩⟩
  · rw [(splitExtendedOps_steps U registered [s]).2, hext]
    exact fun hnil => List.cons_ne_nil _ _ hnil.2
  · rw [hcore]
    rfl

def inactiveOp : Scheduled := .sorted ⟨"replace", "active", some (.bool false)⟩

def emptyReplace : Scheduled := .sorted ⟨"replace", "", some (.obj [])⟩

def unknownOp : Scheduled := .sorted ⟨"frobnicate", "costCenter", none⟩

end Scimage.Scim
