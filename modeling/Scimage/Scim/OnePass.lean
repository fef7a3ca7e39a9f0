import Scimage.Scim.Steps

/-! A PATCH read in one pass, each attribute going where it is kept. -/
namespace Scimage.Scim

open Store (trimSpace)
open Json (Value Map Ranking readMap)
open Lanes (both)

/-! ### The reference -/

/-- The blob as it is stored, until something is done to it. -/
inductive Blob where
  | stored (raw : String)
  | edited (m : Map)

def Blob.edit : Blob → ExtendedOp → Option Blob
  | .stored raw, o => (readBlob raw).map fun m => .edited (o.apply m)
  | .edited m, o => some (.edited (o.apply m))

def Blob.text : Blob → String
  | .stored raw => raw
  | .edited m => if m.rows = [] then "" else marshal m

/-- One attribute: to the blob when it is registered, to the resource otherwise. -/
def assign (U : Unicode) (registered : Registry) (action name : String) (value : Option Value)
    (core : User → Patched User) (st : User × Blob) : Option (User × Blob) :=
  match registered.canonical U name with
  | some canon => (st.2.edit ⟨action, canon, value⟩).map fun b => (st.1, b)
  | none => (core st.1).toOption.map fun u => (u, st.2)

def onePassOp (U : Unicode) (registered : Registry) (st : User × Blob) (s : Scheduled) :
    Option (User × Blob) :=
  if trimSpace s.op.path ≠ "" then
    assign U registered (s.op.action U) (trimSpace s.op.path) s.op.value
      (fun u => applyOp U u (s.op, s.apply)) st
  else if s.op.action U ≠ "add" ∧ s.op.action U ≠ "replace" then
    (applyOp U st.1 (s.op, s.apply)).toOption.map fun u => (u, st.2)
  else
    match s.op.value.bind readMap with
    | none => (applyOp U st.1 (s.op, s.apply)).toOption.map fun u => (u, st.2)
    | some attrs => (attrs.range s.apply).foldlM (fun st e =>
      assign U registered (s.op.action U) e.1 (some e.2) (fun u => setPath U u e.1 (some e.2)) st) st

/-- The operations in order, and the row they leave. -/
def onePass (U : Unicode) (registered : Registry) (existing : Store.User) (baseURL : String)
    (ops : List Scheduled) : Option Store.User := do
  let st ← ops.foldlM (onePassOp U registered)
    (fromStoreUser existing baseURL, .stored existing.extendedAttributes)
  if validate st.1 ≠ "" then none
  else return { toStoreUser st.1 with extendedAttributes := st.2.text }

/-! ### The core lane -/

theorem toOption_foldlM {α ε σ : Type} (f : σ → α → Except ε σ) (xs : List α) (s : σ) :
    (xs.foldlM f s).toOption = xs.foldlM (fun s x => (f s x).toOption) s := by
  induction xs generalizing s with
  | nil => rfl
  | cons x xs ih =>
    rw [List.foldlM_cons, List.foldlM_cons]
    cases hf : f s x with
    | error e => rfl
    | ok s' => exact ih s'

def coreOp (U : Unicode) (u : User) (o : Operation × Ranking) : Option User :=
  (applyOp U u o).toOption

theorem applyValue_object {U : Unicode} {ω : Ranking} {u : User} {op : Operation} {attrs : Map}
    (hpath : trimSpace op.path = "") (hvalue : op.value.bind readMap = some attrs) :
    applyValue U ω u op =
      (attrs.range ω).foldlM (fun u e => setPath U u e.1 (some e.2)) u := by
  rw [applyValue, if_pos hpath, hvalue]

/-- What is left of an object for the core sets what it did in the object. -/
theorem applyValue_coreAttrs (U : Unicode) (registered : Registry) (ω : Ranking) (u : User)
    (op : String) (attrs : Map) :
    applyValue U ω u ⟨op, "", some (coreAttrs U registered attrs).json⟩ =
      ((attrs.range ω).filter fun e => (registered.canonical U e.1).isNone).foldlM
        (fun u e => setPath U u e.1 (some e.2)) u := by
  obtain ⟨n, hread, hperm⟩ := Json.readMap_json (coreAttrs U registered attrs)
  have hrange : n.range ω = ((attrs.range ω).filter fun e =>
      (registered.canonical U e.1).isNone).map fun e => (e.1, e.2.escape) := by
    rw [Json.range_map hperm, coreAttrs, Json.range_filter]
  have hobject : applyValue U ω u ⟨op, "", some (coreAttrs U registered attrs).json⟩ =
      (n.range ω).foldlM (fun u e => setPath U u e.1 (some e.2)) u := by
    refine applyValue_object ?_ hread
    rfl
  rw [hobject, hrange, List.foldlM_map]
  simp only [setPath_escape]

theorem applyOp_value {U : Unicode} {u : User} {o : Operation × Ranking}
    (h : o.1.action U = "add" ∨ o.1.action U = "replace") :
    applyOp U u o = applyValue U o.2 u o.1 := by
  rw [applyOp, if_pos h]

/-! ### One operation -/

theorem assign_both (U : Unicode) (registered : Registry) (action name : String)
    (value : Option Value) (core : User → Patched User) (st : User × Blob) :
    assign U registered action name value core st = both
      (if (registered.canonical U name).isNone then (core st.1).toOption else some st.1)
      (match registered.canonical U name with
        | some canon => st.2.edit ⟨action, canon, value⟩
        | none => some st.2) := by
  rw [assign]
  cases registered.canonical U name with
  | none => cases (core st.1).toOption <;> rfl
  | some canon => cases st.2.edit ⟨action, canon, value⟩ <;> rfl

/-- An object, key by key, is its core keys and its extended keys. -/
theorem object_lanes (U : Unicode) (registered : Registry) (action : String)
    (es : List (String × Value)) (u : User) (b : Blob) :
    es.foldlM (fun st e =>
        assign U registered action e.1 (some e.2) (fun u => setPath U u e.1 (some e.2)) st) (u, b) =
      both
        (((es.filter fun e => (registered.canonical U e.1).isNone).foldlM
          (fun u e => setPath U u e.1 (some e.2)) u).toOption)
        ((extendedAttrs U registered action es).foldlM Blob.edit b) := by
  have hlanes := Lanes.foldlM_both
    (fun u (e : String × Value) => if (registered.canonical U e.1).isNone then
      (setPath U u e.1 (some e.2)).toOption else some u)
    (fun (b : Blob) (e : String × Value) => match registered.canonical U e.1 with
      | some canon => b.edit ⟨action, canon, some e.2⟩
      | none => some b) es u b
  simp only [assign_both]
  refine hlanes.trans ?_
  congr 1
  · rw [toOption_foldlM, List.foldlM_filter]
    rfl
  · rw [extendedAttrs, List.foldlM_filterMap]
    congr 1
    funext b e
    cases registered.canonical U e.1 <;> rfl

theorem coreLane_single {U : Unicode} (u : User) (b : Blob) (o : Operation × Ranking) :
    ((applyOp U u o).toOption.map fun u => (u, b)) =
      both ([o].foldlM (coreOp U) u) (([] : List ExtendedOp).foldlM Blob.edit b) := by
  rw [List.foldlM_cons]
  change Option.map _ (coreOp U u o) = both ((coreOp U u o).bind fun u => some u) (some b)
  cases coreOp U u o <;> rfl

theorem extendedLane_single {U : Unicode} (u : User) (b : Blob) (o : ExtendedOp) :
    ((b.edit o).map fun b => (u, b)) =
      both (([] : List (Operation × Ranking)).foldlM (coreOp U) u) ([o].foldlM Blob.edit b) := by
  rw [List.foldlM_cons]
  change Option.map _ (b.edit o) = both (some u) ((b.edit o).bind fun b => some b)
  cases b.edit o <;> rfl

/-- The core keys of an object, applied as an operation of their own. -/
theorem coreObject_lane {U : Unicode} {registered : Registry} {op : Operation} (ω : Ranking)
    (attrs : Map) (u : User) (haction : op.action U = "add" ∨ op.action U = "replace") :
    (coreObject op.op ω (coreAttrs U registered attrs)).foldlM (coreOp U) u =
      (((attrs.range ω).filter fun e => (registered.canonical U e.1).isNone).foldlM
        (fun u e => setPath U u e.1 (some e.2)) u).toOption := by
  rw [coreObject]
  by_cases hnone : (coreAttrs U registered attrs).rows = []
  · have hrange : (attrs.range ω).filter (fun e => (registered.canonical U e.1).isNone) = [] := by
      rw [← Json.range_filter]
      exact ((Json.range_perm ω _).trans (.of_eq hnone)).eq_nil
    rw [if_pos hnone, hrange]
    rfl
  · rw [if_neg hnone, List.foldlM_cons, ← applyValue_coreAttrs U registered ω u op.op attrs]
    have hop : applyOp U u (⟨op.op, "", some (coreAttrs U registered attrs).json⟩, ω) =
        applyValue U ω u ⟨op.op, "", some (coreAttrs U registered attrs).json⟩ :=
      applyOp_value haction
    rw [coreOp, hop]
    cases applyValue U ω u ⟨op.op, "", some (coreAttrs U registered attrs).json⟩ <;> rfl

theorem onePassOp_lanes (U : Unicode) (registered : Registry) {s : Scheduled}
    (hsame : s.split = s.apply) (u : User) (b : Blob) :
    onePassOp U registered (u, b) s =
      both ((splitOp U registered s).1.foldlM (coreOp U) u)
        ((splitOp U registered s).2.foldlM Blob.edit b) := by
  rw [onePassOp, splitOp]
  by_cases hpath : trimSpace s.op.path ≠ ""
  · rw [if_pos hpath, if_pos hpath, assign]
    cases registered.canonical U (trimSpace s.op.path) with
    | none => exact coreLane_single u b (s.op, s.apply)
    | some canon => exact extendedLane_single u b ⟨s.op.action U, canon, s.op.value⟩
  · rw [if_neg hpath, if_neg hpath]
    by_cases haction : s.op.action U ≠ "add" ∧ s.op.action U ≠ "replace"
    · rw [if_pos haction, if_pos haction]
      exact coreLane_single u b (s.op, s.apply)
    · rw [if_neg haction, if_neg haction]
      cases s.op.value.bind readMap with
      | none => exact coreLane_single u b (s.op, s.apply)
      | some attrs =>
        have hvalue : s.op.action U = "add" ∨ s.op.action U = "replace" :=
          (not_and_or.mp haction).imp not_not.mp not_not.mp
        dsimp only
        rw [object_lanes, coreObject_lane s.apply attrs u hvalue, hsame]

/-! ### A whole PATCH -/

/-- Where nothing is registered, the operation as it came does what splitting leaves of it. -/
theorem unregistered_lanes {U : Unicode} {registered : Registry} (h : registered.rows = [])
    (s : Scheduled) (u : User) :
    (splitOp U registered s).1.foldlM (coreOp U) u = coreOp U u (s.op, s.apply) ∧
      (splitOp U registered s).2 = [] := by
  have hsingle : [(s.op, s.apply)].foldlM (coreOp U) u = coreOp U u (s.op, s.apply) := by
    rw [List.foldlM_cons]
    exact bind_pure _
  rw [splitOp]
  by_cases hpath : trimSpace s.op.path ≠ ""
  · rw [if_pos hpath, canonical_unregistered h]
    exact ⟨hsingle, rfl⟩
  · rw [if_neg hpath]
    by_cases haction : s.op.action U ≠ "add" ∧ s.op.action U ≠ "replace"
    · rw [if_pos haction]
      exact ⟨hsingle, rfl⟩
    · rw [if_neg haction]
      cases hobj : s.op.value.bind readMap with
      | none => exact ⟨hsingle, rfl⟩
      | some attrs =>
        have hvalue : s.op.action U = "add" ∨ s.op.action U = "replace" :=
          (not_and_or.mp haction).imp not_not.mp not_not.mp
        have hall : (attrs.range s.apply).filter (fun e => (registered.canonical U e.1).isNone) =
            attrs.range s.apply := by
          rw [List.filter_eq_self]
          intro e _
          rw [canonical_unregistered h]
          rfl
        have hop : applyOp U u (s.op, s.apply) = applyValue U s.apply u s.op := applyOp_value hvalue
        refine ⟨?_, ?_⟩
        · rw [coreObject_lane s.apply attrs u hvalue, hall, coreOp, hop,
            applyValue_object (not_not.mp hpath) hobj]
        · refine List.filterMap_eq_nil_iff.mpr ?_
          intro e _
          rw [canonical_unregistered h]
          rfl

/-! ### A whole PATCH -/

/-- Each operation in its two lanes is the split list in its two lanes. -/
theorem onePass_lanes (U : Unicode) (registered : Registry) {ops : List Scheduled}
    (hsame : ∀ s ∈ ops, s.split = s.apply) (u : User) (b : Blob) :
    ops.foldlM (onePassOp U registered) (u, b) =
      both ((splitExtendedOps U registered ops).1.foldlM (coreOp U) u)
        ((splitExtendedOps U registered ops).2.foldlM Blob.edit b) := by
  have hlanes := Lanes.foldlM_lanes (fun s hs u b => onePassOp_lanes U registered (hsame s hs) u b) u b
  rw [splitExtendedOps, hlanes]
  by_cases hreg : registered.rows = []
  · rw [if_pos hreg]
    have hright : (ops.flatMap fun s => (splitOp U registered s).2) = [] := by
      rw [List.flatMap_eq_nil_iff]
      intro s _
      exact (unregistered_lanes hreg s u).2
    rw [hright]
    congr 1
    clear hlanes hright hsame
    induction ops generalizing u with
    | nil => rfl
    | cons s ops ih =>
      rw [List.flatMap_cons, List.foldlM_append, List.map_cons, List.foldlM_cons,
        (unregistered_lanes hreg s u).1]
      congr 1
      funext u
      exact ih u
  · rw [if_neg hreg]

theorem edited_text (m : Map) (ops : List ExtendedOp) :
    (ops.foldlM Blob.edit (.edited m)).map Blob.text =
      some (Blob.edited (ops.foldl ExtendedOp.apply m)).text := by
  induction ops generalizing m with
  | nil => rfl
  | cons o ops ih => exact ih (o.apply m)

/-- The blob is read once, and written when all is done. -/
theorem stored_text (raw : String) (ops : List ExtendedOp) :
    (ops.foldlM Blob.edit (.stored raw)).map Blob.text = applyExtendedOps raw ops := by
  cases ops with
  | nil => rfl
  | cons o ops =>
    rw [applyExtendedOps, if_neg (List.cons_ne_nil o ops), List.foldlM_cons, Blob.edit]
    cases readBlob raw with
    | none => rfl
    | some m => exact edited_text (o.apply m) ops

/-- An operation with a path, or with an object that has a key. -/
def NamesAttribute (o : Operation) : Prop :=
  trimSpace o.path ≠ "" ∨ ∃ attrs, o.value.bind readMap = some attrs ∧ attrs.rows ≠ []

theorem coreObject_nil {op : String} {ω : Ranking} {attrs : Map} (h : coreObject op ω attrs = []) :
    attrs.rows = [] := by
  rw [coreObject] at h
  by_contra hne
  rw [if_neg hne] at h
  cases h

/-- What names an attribute leaves something on one side. -/
theorem splitOp_names {U : Unicode} {registered : Registry} {s : Scheduled}
    (hnames : NamesAttribute s.op)
    (h : (splitOp U registered s).1 = [] ∧ (splitOp U registered s).2 = []) : False := by
  rw [splitOp] at h
  by_cases hpath : trimSpace s.op.path ≠ ""
  · rw [if_pos hpath] at h
    cases hreg : registered.canonical U (trimSpace s.op.path) with
    | none =>
      rw [hreg] at h
      cases h.1
    | some canon =>
      rw [hreg] at h
      cases h.2
  · rw [if_neg hpath] at h
    by_cases haction : s.op.action U ≠ "add" ∧ s.op.action U ≠ "replace"
    · rw [if_pos haction] at h
      cases h.1
    · rw [if_neg haction] at h
      obtain ⟨attrs, hobj, hrows⟩ := hnames.resolve_left hpath
      rw [hobj] at h
      obtain ⟨e, he⟩ := List.exists_mem_of_ne_nil _ hrows
      cases hreg : registered.canonical U e.1 with
      | none =>
        have hcore : e ∈ (coreAttrs U registered attrs).rows :=
          List.mem_filter.mpr ⟨he, by rw [hreg]; rfl⟩
        rw [coreObject_nil h.1] at hcore
        cases hcore
      | some canon =>
        have hnone := (List.filterMap_eq_nil_iff.mp h.2) e (Json.mem_range.mpr he)
        rw [hreg] at hnone
        cases hnone

theorem splitExtendedOps_names {U : Unicode} {registered : Registry} {ops : List Scheduled}
    (hnames : ∃ s ∈ ops, NamesAttribute s.op) :
    (splitExtendedOps U registered ops).1 ≠ [] ∨ (splitExtendedOps U registered ops).2 ≠ [] := by
  obtain ⟨s, hs, hname⟩ := hnames
  rw [splitExtendedOps]
  by_cases hreg : registered.rows = []
  · rw [if_pos hreg]
    left
    intro hnil
    rw [List.map_eq_nil_iff] at hnil
    subst hnil
    cases hs
  · rw [if_neg hreg]
    by_contra hnil
    rw [not_or, not_not, not_not] at hnil
    exact splitOp_names hname
      ⟨List.flatMap_eq_nil_iff.mp hnil.1 s hs, List.flatMap_eq_nil_iff.mp hnil.2 s hs⟩

/-- Whether the core PATCH runs or is left out, it is the core lane. -/
theorem patchCore_lane {U : Unicode} {u : User} {core : List (Operation × Ranking)}
    {ext : List ExtendedOp} (h : core ≠ [] ∨ ext ≠ []) :
    (patchCore U u core ext).toOption = core.foldlM (coreOp U) u := by
  rw [patchCore]
  by_cases hcore : core = []
  · subst hcore
    have hskip : ¬ (([] : List (Operation × Ranking)) ≠ [] ∨ ext = []) := by
      rintro (hc | he)
      · exact hc rfl
      · exact (h.resolve_left fun hc => hc rfl) he
    rw [if_neg hskip]
    rfl
  · rw [if_pos (Or.inl hcore), applyPatch, if_neg hcore, toOption_foldlM]
    rfl

/-- The handler's regrouping of the operations is a pass over them in order. -/
theorem patch_one_pass (U : Unicode) (registered : Registry) (existing : Store.User)
    (baseURL : String) (ops : List Scheduled) (hnames : ∃ s ∈ ops, NamesAttribute s.op)
    (hsame : ∀ s ∈ ops, s.split = s.apply) :
    (patchUser U registered existing baseURL ops).toOption =
      onePass U registered existing baseURL ops := by
  have hsplit : (splitExtendedOps U registered ops).1 ≠ [] ∨ (splitExtendedOps U registered ops).2 ≠ [] :=
    splitExtendedOps_names hnames
  have hcore := patchCore_lane (U := U) (u := fromStoreUser existing baseURL) hsplit
  have htext := stored_text existing.extendedAttributes (splitExtendedOps U registered ops).2
  rw [onePass, onePass_lanes U registered hsame, ← hcore, patchUser]
  cases patchCore U (fromStoreUser existing baseURL) (splitExtendedOps U registered ops).1
    (splitExtendedOps U registered ops).2 with
  | error e => rfl
  | ok patched =>
    dsimp only
    rw [finishPatch, ← htext]
    cases (splitExtendedOps U registered ops).2.foldlM Blob.edit
      (.stored existing.extendedAttributes) with
    | none => by_cases hv : validate patched ≠ "" <;> simp [hv, Except.toOption]
    | some b => by_cases hv : validate patched ≠ "" <;> simp [hv, Except.toOption]

def costCenter : Registry := registeredAttributes .plain [⟨"t1", "costCenter", "string", 0, none⟩]

def ann : Store.User :=
  ⟨"u1", "ann", none, none, none, none, true, 0, 0, marshal (Map.of (field "costCenter" .null))⟩

def mixedPatch : List Scheduled :=
  [.sorted ⟨"replace", "COSTCENTER", some (.bool true)⟩,
    .sorted ⟨"add", "", some (.obj (field "externalId" (string "x") ++ field "costCenter" .null))⟩]

theorem patch_one_pass_mixed : (patchUser .plain costCenter ann "" mixedPatch).toOption =
    onePass .plain costCenter ann "" mixedPatch := by
  apply patch_one_pass
  · exact ⟨_, List.mem_cons_self, Or.inl (by decide)⟩
  · intro s hs
    simp only [mixedPatch, List.mem_cons, List.not_mem_nil, or_false] at hs
    rcases hs with rfl | rfl <;> rfl

end Scimage.Scim
