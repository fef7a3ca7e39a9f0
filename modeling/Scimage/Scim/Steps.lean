import Scimage.Scim.Extended

/-! A PATCH as a list of steps, each of which is refused or assigns constants. -/
namespace Scimage.Scim

open Store (trimSpace)
open Json (Value Map Ranking readMap)

/-! ### Steps -/

/-- A path with its value, a path to clear, or what is refused before there is a path. -/
inductive Step where
  | set (path : String) (raw : Option Value)
  | clear (path : String)
  | refuse (e : PatchError)

def applyStep (U : Unicode) (u : User) : Step → Patched User
  | .set path raw => setPath U u path raw
  | .clear path => clearPath U u path
  | .refuse e => .error e

/-- A step with the name under which the registry is asked, if it is, and the raw value. -/
structure Entry where
  key : Option String
  raw : Option Value
  step : Step

def Entry.ofMember (e : String × Value) : Entry := ⟨some e.1, some e.2, .set e.1 (some e.2)⟩

def pathStep (U : Unicode) (op : Operation) : Step :=
  if op.action U = "add" ∨ op.action U = "replace" then .set op.path op.value
  else if op.action U = "remove" then .clear op.path
  else .refuse (.unsupportedOp op.op)

/-- The steps of an operation. -/
def entries (U : Unicode) (ω : Ranking) (op : Operation) : List Entry :=
  if trimSpace op.path ≠ "" then [⟨some (trimSpace op.path), op.value, pathStep U op⟩]
  else if op.action U ≠ "add" ∧ op.action U ≠ "replace" then [⟨none, op.value, pathStep U op⟩]
  else
    match op.value.bind readMap with
    | none => [⟨none, op.value, .refuse .notAnObject⟩]
    | some attrs => (attrs.range ω).map .ofMember

theorem applyOp_pathStep {U : Unicode} {op : Operation} (ω : Ranking) (u : User)
    (h : trimSpace op.path ≠ "" ∨ op.action U ≠ "add" ∧ op.action U ≠ "replace") :
    applyOp U u (op, ω) = applyStep U u (pathStep U op) := by
  rw [applyOp, pathStep]
  by_cases hvalue : op.action U = "add" ∨ op.action U = "replace"
  · have hpath := h.resolve_right fun hne => hvalue.elim hne.1 hne.2
    rw [if_pos hvalue, if_pos hvalue, applyValue, if_neg hpath]
    rfl
  · rw [if_neg hvalue, if_neg hvalue]
    by_cases hremove : op.action U = "remove"
    · rw [if_pos hremove, if_pos hremove]
      rfl
    · rw [if_neg hremove, if_neg hremove]
      rfl

theorem applyOp_object {U : Unicode} {op : Operation} {attrs : Map} (ω : Ranking) (u : User)
    (haction : op.action U = "add" ∨ op.action U = "replace") (hpath : trimSpace op.path = "")
    (hvalue : op.value.bind readMap = some attrs) : applyOp U u (op, ω) =
      (attrs.range ω).foldlM (fun u e => setPath U u e.1 (some e.2)) u := by
  rw [applyOp, if_pos haction, applyValue, if_pos hpath, hvalue]

theorem applyOp_notAnObject {U : Unicode} {op : Operation} (ω : Ranking) (u : User)
    (haction : op.action U = "add" ∨ op.action U = "replace") (hpath : trimSpace op.path = "")
    (hvalue : op.value.bind readMap = none) : applyOp U u (op, ω) = .error .notAnObject := by
  rw [applyOp, if_pos haction, applyValue, if_pos hpath, hvalue]

/-- Spelt another way, a value sets the same. -/
theorem setPath_escape (U : Unicode) (u : User) (path : String) (v : Value) :
    setPath U u path (some v.escape) = setPath U u path (some v) := by
  have hstring := readString_escape "" v
  have hname := readName_escape .zero v
  have hemail := readEmail_escape U .zero v
  have hemails := readSlice_escape (z := Email.zero) (readEmail_escape U) .nil v
  simp only [setPath, assignString, decode, setEmail, Option.bind_some, hstring, hname, hemail,
    hemails, readBool_escape]

/-! ### What splitting leaves -/

def Entry.canonical (U : Unicode) (registered : Registry) (e : Entry) : Option String :=
  e.key.bind (registered.canonical U)

def Entry.core (U : Unicode) (registered : Registry) (e : Entry) : Option Step :=
  if (e.canonical U registered).isNone then some e.step else none

def Entry.extended (U : Unicode) (registered : Registry) (action : String) (e : Entry) :
    Option ExtendedOp :=
  (e.canonical U registered).map fun canon => ⟨action, canon, e.raw⟩

def coreSteps (U : Unicode) (registered : Registry) (s : Scheduled) : List Step :=
  (entries U s.apply s.op).filterMap (Entry.core U registered)

def extendedSteps (U : Unicode) (registered : Registry) (s : Scheduled) : List ExtendedOp :=
  (entries U s.split s.op).filterMap (Entry.extended U registered (s.op.action U))

theorem core_keyed (U : Unicode) (registered : Registry) (key : String) (raw : Option Value)
    (step : Step) : Entry.core U registered ⟨some key, raw, step⟩ =
      if (registered.canonical U key).isNone then some step else none := rfl

theorem extended_keyed (U : Unicode) (registered : Registry) (action key : String)
    (raw : Option Value) (step : Step) :
    Entry.extended U registered action ⟨some key, raw, step⟩ =
      (registered.canonical U key).map fun canon => ⟨action, canon, raw⟩ := rfl

theorem core_unkeyed (U : Unicode) (registered : Registry) (raw : Option Value) (step : Step) :
    Entry.core U registered ⟨none, raw, step⟩ = some step := rfl

theorem extended_unkeyed (U : Unicode) (registered : Registry) (action : String)
    (raw : Option Value) (step : Step) :
    Entry.extended U registered action ⟨none, raw, step⟩ = none := rfl

theorem foldlM_single {α σ : Type} (f : σ → α → Patched σ) (s : σ) (x : α) :
    [x].foldlM f s = f s x := bind_pure _

/-- The core keys of an object, applied as an operation of their own. -/
theorem coreObject_fold {U : Unicode} {registered : Registry} {op : Operation} (ω : Ranking)
    (attrs : Map) (u : User) (haction : op.action U = "add" ∨ op.action U = "replace") :
    (coreObject op.op ω (coreAttrs U registered attrs)).foldlM (applyOp U) u =
      ((attrs.range ω).filter fun e => (registered.canonical U e.1).isNone).foldlM
        (fun u e => setPath U u e.1 (some e.2)) u := by
  rw [coreObject]
  by_cases hnone : (coreAttrs U registered attrs).rows = []
  · have hrange : (attrs.range ω).filter (fun e => (registered.canonical U e.1).isNone) = [] := by
      rw [← Json.range_filter]
      exact ((Json.range_perm ω _).trans (.of_eq hnone)).eq_nil
    rw [if_pos hnone, hrange]
    rfl
  · obtain ⟨n, hread, hperm⟩ := Json.readMap_json (coreAttrs U registered attrs)
    have hrange : n.range ω = ((attrs.range ω).filter fun e =>
        (registered.canonical U e.1).isNone).map fun e => (e.1, e.2.escape) := by
      rw [Json.range_map hperm, coreAttrs, Json.range_filter]
    have hobject : applyOp U u (⟨op.op, "", some (coreAttrs U registered attrs).json⟩, ω) =
        (n.range ω).foldlM (fun u e => setPath U u e.1 (some e.2)) u := by
      refine applyOp_object ω u haction ?_ hread
      rfl
    rw [if_neg hnone, List.foldlM_cons, hobject, hrange, List.foldlM_map]
    simp only [setPath_escape]
    exact bind_pure _

theorem filterMap_members (U : Unicode) (registered : Registry) (es : List (String × Value)) :
    (es.map Entry.ofMember).filterMap (Entry.core U registered) =
      (es.filter fun e => (registered.canonical U e.1).isNone).map fun e =>
        .set e.1 (some e.2) := by
  induction es with
  | nil => rfl
  | cons e es ih =>
    have hcore : Entry.core U registered (.ofMember e) = _ :=
      core_keyed U registered e.1 (some e.2) (.set e.1 (some e.2))
    by_cases hreg : (registered.canonical U e.1).isNone
    · rw [if_pos hreg] at hcore
      rw [List.map_cons, List.filterMap_cons_some hcore, ih, List.filter_cons,
        if_pos hreg, List.map_cons]
    · rw [if_neg hreg] at hcore
      rw [List.map_cons, List.filterMap_cons_none hcore, ih, List.filter_cons,
        if_neg hreg]

theorem extendedAttrs_members (U : Unicode) (registered : Registry) (action : String)
    (es : List (String × Value)) : extendedAttrs U registered action es =
      (es.map Entry.ofMember).filterMap (Entry.extended U registered action) := by
  rw [List.filterMap_map]
  rfl

theorem splitOp_steps (U : Unicode) (registered : Registry) (s : Scheduled) :
    (∀ u, (splitOp U registered s).1.foldlM (applyOp U) u =
      (coreSteps U registered s).foldlM (applyStep U) u) ∧
    (splitOp U registered s).2 = extendedSteps U registered s := by
  rw [splitOp, coreSteps, extendedSteps, entries, entries]
  by_cases hpath : trimSpace s.op.path ≠ ""
  · rw [if_pos hpath, if_pos hpath, if_pos hpath]
    cases hreg : registered.canonical U (trimSpace s.op.path) with
    | none =>
      simp only [List.filterMap_cons, List.filterMap_nil, core_keyed, extended_keyed, hreg,
        Option.isNone_none, if_true, Option.map_none, foldlM_single]
      exact ⟨fun u => applyOp_pathStep s.apply u (Or.inl hpath), trivial⟩
    | some canon =>
      simp only [List.filterMap_cons, List.filterMap_nil, core_keyed, extended_keyed, hreg,
        Option.isNone_some, Bool.false_eq_true, if_false, Option.map_some]
      exact ⟨fun u => rfl, trivial⟩
  · rw [if_neg hpath, if_neg hpath, if_neg hpath]
    by_cases haction : s.op.action U ≠ "add" ∧ s.op.action U ≠ "replace"
    · rw [if_pos haction, if_pos haction, if_pos haction]
      simp only [List.filterMap_cons, List.filterMap_nil, core_unkeyed, extended_unkeyed,
        foldlM_single]
      exact ⟨fun u => applyOp_pathStep s.apply u (Or.inr haction), trivial⟩
    · rw [if_neg haction, if_neg haction, if_neg haction]
      have hvalue : s.op.action U = "add" ∨ s.op.action U = "replace" :=
        (not_and_or.mp haction).imp not_not.mp not_not.mp
      cases hobj : s.op.value.bind readMap with
      | none =>
        simp only [List.filterMap_cons, List.filterMap_nil, core_unkeyed, extended_unkeyed,
          foldlM_single]
        exact ⟨fun u => applyOp_notAnObject s.apply u hvalue (not_not.mp hpath) hobj, trivial⟩
      | some attrs =>
        refine ⟨?_, extendedAttrs_members U registered _ _⟩
        intro u
        dsimp only
        rw [coreObject_fold s.apply attrs u hvalue, filterMap_members, List.foldlM_map]
        rfl

/-! ### The whole list -/

theorem canonical_unregistered {U : Unicode} {registered : Registry} (h : registered.rows = [])
    (name : String) : registered.canonical U name = none := by
  rw [Registry.canonical, Relational.Table.find?, h]
  rfl

theorem entry_unregistered {U : Unicode} {registered : Registry} (h : registered.rows = [])
    (e : Entry) : e.canonical U registered = none := by
  rw [Entry.canonical]
  cases e.key with
  | none => rfl
  | some key => exact canonical_unregistered h key

/-- Where nothing is registered, an operation as it came is its steps. -/
theorem unregistered_steps {U : Unicode} {registered : Registry} (h : registered.rows = [])
    (s : Scheduled) (u : User) :
    applyOp U u (s.op, s.apply) = (coreSteps U registered s).foldlM (applyStep U) u ∧
      extendedSteps U registered s = [] := by
  have hext : extendedSteps U registered s = [] := by
    refine List.filterMap_eq_nil_iff.mpr ?_
    intro e _
    rw [Entry.extended, entry_unregistered h]
    rfl
  refine ⟨?_, hext⟩
  have hcore : coreSteps U registered s = (entries U s.apply s.op).map Entry.step := by
    rw [coreSteps, ← List.filterMap_eq_map]
    congr 1
    funext e
    rw [Entry.core, entry_unregistered h]
    rfl
  rw [hcore, entries]
  by_cases hpath : trimSpace s.op.path ≠ ""
  · rw [if_pos hpath, applyOp_pathStep s.apply u (Or.inl hpath), List.map_singleton, foldlM_single]
  · rw [if_neg hpath]
    by_cases haction : s.op.action U ≠ "add" ∧ s.op.action U ≠ "replace"
    · rw [if_pos haction, applyOp_pathStep s.apply u (Or.inr haction), List.map_singleton,
        foldlM_single]
    · rw [if_neg haction]
      have hvalue : s.op.action U = "add" ∨ s.op.action U = "replace" :=
        (not_and_or.mp haction).imp not_not.mp not_not.mp
      cases hobj : s.op.value.bind readMap with
      | none =>
        rw [applyOp_notAnObject s.apply u hvalue (not_not.mp hpath) hobj, List.map_singleton,
          foldlM_single]
        rfl
      | some attrs =>
        rw [applyOp_object s.apply u hvalue (not_not.mp hpath) hobj, List.map_map, List.foldlM_map]
        rfl

theorem foldlM_flatMap {α β σ : Type} {f : σ → α → Patched σ} {g : σ → β → Patched σ}
    {left : γ → List α} {right : γ → List β} {xs : List γ}
    (h : ∀ x ∈ xs, ∀ s, (left x).foldlM f s = (right x).foldlM g s) (s : σ) :
    (xs.flatMap left).foldlM f s = (xs.flatMap right).foldlM g s := by
  induction xs generalizing s with
  | nil => rfl
  | cons x xs ih =>
    rw [List.flatMap_cons, List.flatMap_cons, List.foldlM_append, List.foldlM_append,
      h x List.mem_cons_self]
    congr 1
    funext s'
    exact ih (fun y hy => h y (List.mem_cons_of_mem x hy)) s'

/-- The core operations do what the core steps do, and the extended ones are the others. -/
theorem splitExtendedOps_steps (U : Unicode) (registered : Registry) (ops : List Scheduled) :
    (∀ u, (splitExtendedOps U registered ops).1.foldlM (applyOp U) u =
      (ops.flatMap (coreSteps U registered)).foldlM (applyStep U) u) ∧
    (splitExtendedOps U registered ops).2 = ops.flatMap (extendedSteps U registered) := by
  rw [splitExtendedOps]
  by_cases hreg : registered.rows = []
  · rw [if_pos hreg]
    refine ⟨?_, ?_⟩
    · intro u
      have hsingle : (ops.map fun s => (s.op, s.apply)) = ops.flatMap fun s => [(s.op, s.apply)] :=
        List.map_eq_flatMap
      dsimp only
      rw [hsingle]
      refine foldlM_flatMap ?_ u
      intro s _ u
      rw [foldlM_single, (unregistered_steps hreg s u).1]
    · symm
      rw [List.flatMap_eq_nil_iff]
      intro s _
      exact (unregistered_steps hreg s .zero).2
  · rw [if_neg hreg]
    refine ⟨fun u => foldlM_flatMap (fun s _ u => (splitOp_steps U registered s).1 u) u, ?_⟩
    dsimp only
    congr 1
    funext s
    exact (splitOp_steps U registered s).2

end Scimage.Scim
