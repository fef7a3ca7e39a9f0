import Scimage.Scim.GroupPatch

/-! What an operation on the members of a group does to the set of them. -/
namespace Scimage.Scim

open Store (trimSpace)
open Json (Value Ranking quote)

inductive Action where
  | add | replace | remove
  deriving DecidableEq

def Action.word : Action → String
  | .add => "add"
  | .replace => "replace"
  | .remove => "remove"

/-! ### The values that denote members -/

/-- A member object, or an id by itself. -/
inductive One : Value → String → Prop
  | object {ms : List (Json.Text × Value)} {m : Member}
    (h : readMember .zero (.obj ms) = some m) (hv : m.value ≠ "") : One (.obj ms) m.value
  | id {t : Json.Text} (h : t.string ≠ "") : One (.str t) t.string

/-- One of them, or an array of either. -/
inductive Denotes : Value → List String → Prop
  | one {v : Value} {id : String} (h : One v id) : Denotes v [id]
  | many {vs : List Value} {ids : List String} (h : List.Forall₂ One vs ids) : Denotes (.arr vs) ids

def isObject : Value → Bool
  | .obj _ => true
  | _ => false

/-- An array has something in it, and objects only. -/
def isMemberList : Value → Bool
  | .arr vs => !vs.isEmpty && vs.all isObject
  | _ => true

theorem decode_object {ms : List (Json.Text × Value)} {m : Member}
    (h : readMember .zero (.obj ms) = some m) (hv : m.value ≠ "") :
    decodeMemberValues (some (.obj ms)) = .ok [m.value] := by
  simp [decodeMemberValues, h, Option.filter, hv]

theorem decode_id {t : Json.Text} (h : t.string ≠ "") :
    decodeMemberValues (some (.str t)) = .ok [t.string] := by
  simp [decodeMemberValues, readMember, readStruct, readSlice, readString, Option.filter, h]

theorem decode_one {v : Value} {id : String} (h : One v id) :
    decodeMemberValues (some v) = .ok [id] := by
  cases h with
  | object h hv => exact decode_object h hv
  | id h => exact decode_id h

theorem readElems_objects {vs : List Value} {ids : List String} (h : List.Forall₂ One vs ids)
    (ho : vs.all isObject = true) : ∃ ms, readElems readMember .zero [] vs = some ms ∧
      ms.map Member.value = ids := by
  induction h with
  | nil => exact ⟨[], rfl, rfl⟩
  | @cons v id vs ids hone _ ih =>
    rw [List.all_cons, Bool.and_eq_true] at ho
    obtain ⟨ms, hms, hids⟩ := ih ho.2
    cases hone with
    | id _ => cases ho.1
    | @object _ m hm _ => exact ⟨m :: ms, by simp [readElems, hm, hms], by simp [hids]⟩

theorem readElems_id {vs : List Value} (ho : vs.all isObject = false)
    {ids : List String} (h : List.Forall₂ One vs ids) :
    readElems readMember .zero [] vs = none := by
  induction h with
  | nil => simp at ho
  | @cons v id vs ids hone _ ih =>
    cases hone with
    | id _ => rfl
    | @object ms m hm _ =>
      have hrest : readElems readMember .zero [] vs = none := ih (by simpa [isObject] using ho)
      simp [readElems, hm, hrest]

theorem one_ne_empty {v : Value} {id : String} (h : One v id) : id ≠ "" := by
  cases h with
  | object _ hv => exact hv
  | id h => exact h

theorem ids_ne_empty {vs : List Value} {ids : List String} (h : List.Forall₂ One vs ids) :
    ∀ id ∈ ids, id ≠ "" := by
  induction h with
  | nil => simp
  | cons hone _ ih =>
    intro id hid
    rcases List.mem_cons.mp hid with rfl | hid
    · exact one_ne_empty hone
    · exact ih id hid

theorem decode_many {vs : List Value} {ids : List String} (h : List.Forall₂ One vs ids)
    (hl : isMemberList (.arr vs) = true) : decodeMemberValues (some (.arr vs)) = .ok ids := by
  rw [isMemberList, Bool.and_eq_true] at hl
  obtain ⟨ms, hms, hids⟩ := readElems_objects h hl.2
  cases h with
  | nil => exact absurd hl.1 (by decide)
  | @cons v id vs ids hone hmany =>
    have hne : ms ≠ [] := by
      rintro rfl
      cases hids
    have hfilter : (id :: ids).filter (fun v => v ≠ "") = id :: ids := by
      rw [List.filter_eq_self]
      intro a ha
      exact decide_eq_true (ids_ne_empty (.cons hone hmany) a ha)
    have hread : readSlice readMember .zero .nil (.arr (v :: vs)) = some ⟨ms, []⟩ := by
      simp [readSlice, Slice.nil, hms]
    have hobj : readMember .zero (.arr (v :: vs)) = none := rfl
    simp only [decodeMemberValues, Option.bind_some, hobj, hread, Option.filter, hne, hids, hfilter,
      ne_eq, not_false_eq_true, decide_true, if_true]

theorem decode_refused {vs : List Value} {ids : List String} (h : List.Forall₂ One vs ids)
    (hl : isMemberList (.arr vs) = false) :
    decodeMemberValues (some (.arr vs)) = .error .members := by
  have hobj : readMember .zero (.arr vs) = none := rfl
  have hstr : readString "" (.arr vs) = none := rfl
  cases vs with
  | nil => rfl
  | cons v vs =>
    have ho : (v :: vs).all isObject = false := by
      rw [isMemberList, Bool.and_eq_false_iff] at hl
      rcases hl with hl | hl
      · exact absurd hl (by simp)
      · exact hl
    have hread : readSlice readMember .zero .nil (.arr (v :: vs)) = none := by
      simp [readSlice, Slice.nil, readElems_id ho h]
    simp only [decodeMemberValues, Option.bind_some, hobj, hread, hstr, Option.filter]

/-- Of the values that denote members, the empty array and an array with a bare id in it are
refused. -/
theorem decode_denotes {v : Value} {ids : List String} (h : Denotes v ids) :
    decodeMemberValues (some v) = if isMemberList v then .ok ids else .error .members := by
  cases h with
  | one h =>
    have hlist : isMemberList v = true := by cases h <;> rfl
    rw [hlist, if_pos rfl]
    exact decode_one h
  | @many vs _ h =>
    cases hl : isMemberList (.arr vs) with
    | true => exact decode_many h hl
    | false => exact decode_refused h hl

/-! ### Adding -/

/-- `new` is `old` and then each of `ids` that was not there, once. -/
def IsUnion (old : List Member) (ids : List String) (new : List Member) : Prop :=
  ∃ extra : List String, new = old ++ extra.map .of ∧ extra.Nodup ∧
    ∀ id, id ∈ extra ↔ id ∈ ids ∧ id ∉ old.map Member.value

theorem map_value_of (ids : List String) : (ids.map Member.of).map Member.value = ids := by
  rw [List.map_map]
  exact List.map_id _

theorem addMembers_step {old : List Member} {ids : List String} {new : List Member} {v : String}
    (h : IsUnion old ids new) : IsUnion old (ids ++ [v])
      (if v ∈ new.map Member.value then new else new ++ [.of v]) := by
  obtain ⟨extra, rfl, hnodup, hmem⟩ := h
  have hvalues : (old ++ extra.map Member.of).map Member.value = old.map Member.value ++ extra := by
    rw [List.map_append, map_value_of]
  rw [hvalues]
  by_cases hv : v ∈ old.map Member.value ++ extra
  · rw [if_pos hv]
    refine ⟨extra, rfl, hnodup, ?_⟩
    intro id
    rw [hmem, List.mem_append, List.mem_singleton]
    constructor
    · rintro ⟨hid, hold⟩
      exact ⟨Or.inl hid, hold⟩
    · rintro ⟨hid | rfl, hold⟩
      · exact ⟨hid, hold⟩
      · rcases List.mem_append.mp hv with hv | hv
        · exact absurd hv hold
        · exact (hmem id).mp hv
  · rw [if_neg hv]
    rw [List.mem_append, not_or] at hv
    refine ⟨extra ++ [v], by simp, ?_, ?_⟩
    · rw [List.nodup_append]
      refine ⟨hnodup, List.nodup_singleton v, ?_⟩
      intro a ha b hb hab
      rw [List.mem_singleton] at hb
      exact hv.2 (hb ▸ hab ▸ ha)
    · intro id
      rw [List.mem_append, List.mem_singleton, hmem, List.mem_append, List.mem_singleton]
      constructor
      · rintro (⟨hid, hold⟩ | rfl)
        · exact ⟨Or.inl hid, hold⟩
        · exact ⟨Or.inr rfl, hv.1⟩
      · rintro ⟨hid | rfl, hold⟩
        · exact Or.inl ⟨hid, hold⟩
        · exact Or.inr rfl

theorem addMembers_from {old : List Member} {ids : List String} {new : List Member}
    (h : IsUnion old ids new) (values : List String) :
    IsUnion old (ids ++ values) (addMembers new values) := by
  induction values generalizing ids new with
  | nil => simpa [addMembers] using h
  | cons v values ih =>
    have hstep := ih (addMembers_step (v := v) h)
    rwa [List.append_assoc] at hstep

theorem addMembers_union (old : List Member) (values : List String) :
    IsUnion old values (addMembers old values) := by
  have hnone : IsUnion old [] old := ⟨[], by simp, List.nodup_nil, by simp⟩
  exact addMembers_from hnone values

theorem IsUnion.mem_iff {old new : List Member} {ids : List String} (h : IsUnion old ids new)
    (id : String) : id ∈ new.map Member.value ↔ id ∈ old.map Member.value ∨ id ∈ ids := by
  obtain ⟨extra, rfl, -, hmem⟩ := h
  rw [List.map_append, map_value_of, List.mem_append, hmem]
  tauto

/-- Distinct members stay distinct. -/
theorem IsUnion.nodup {old new : List Member} {ids : List String} (h : IsUnion old ids new)
    (hold : (old.map Member.value).Nodup) : (new.map Member.value).Nodup := by
  obtain ⟨extra, rfl, hnodup, hmem⟩ := h
  rw [List.map_append, map_value_of, List.nodup_append]
  refine ⟨hold, hnodup, ?_⟩
  rintro a ha b hb rfl
  exact ((hmem a).mp hb).2 ha

/-! ### Paths -/

theorem isMembersPath_members : isMembersPath "members" = true := by decide

theorem isMembersPath_ne {key : String} (h : isMembersPath key = true) :
    key ≠ "displayname" ∧ key ≠ "externalid" ∧ key ≠ "" := by
  refine ⟨?_, ?_, ?_⟩
  · rintro rfl
    exact absurd h (by decide)
  · rintro rfl
    exact absurd h (by decide)
  · rintro rfl
    exact absurd h (by decide)

theorem setGroupPath_members {U : Unicode} {g : Group} {path : String} {isAdd : Bool}
    {raw : Option Value} (h : isMembersPath (U.lower (trimSpace path)) = true) :
    setGroupPath U isAdd g path raw = setMembers g raw isAdd := by
  obtain ⟨hname, hext, -⟩ := isMembersPath_ne h
  simp only [setGroupPath, hname, hext, h, if_true, if_false]

theorem trimSpace_ne_of_lower {U : Unicode} {path : String}
    (h : isMembersPath (U.lower (trimSpace path)) = true) : trimSpace path ≠ "" := by
  intro he
  rw [he] at h
  exact (isMembersPath_ne h).2.2 rfl

theorem applyGroupValue_members {U : Unicode} {ω : Ranking} {isAdd : Bool} {g : Group}
    {op : Operation} (h : isMembersPath (U.lower (trimSpace op.path)) = true) :
    applyGroupValue U ω isAdd g op = setMembers g op.value isAdd := by
  rw [applyGroupValue, if_neg (trimSpace_ne_of_lower h), setGroupPath_members h]

theorem setMembers_ok {g : Group} {raw : Option Value} {isAdd : Bool} {values : List String}
    (h : decodeMemberValues raw = .ok values) : setMembers g raw isAdd = .ok { g with
      members := .of (if isAdd then addMembers g.members.items values else values.map .of) } := by
  cases isAdd <;> simp only [setMembers, h, toMembers] <;> rfl

theorem setMembers_refused {g : Group} {raw : Option Value} {isAdd : Bool} {e : PatchError}
    (h : decodeMemberValues raw = .error e) : setMembers g raw isAdd = .error e := by
  simp only [setMembers, h]
  rfl

theorem applyGroupOp_add {U : Unicode} {g : Group} {o : Operation × Ranking}
    (h : o.1.action U = Action.add.word) : applyGroupOp U g o = applyGroupValue U o.2 true g o.1 := by
  simp [applyGroupOp, h, Action.word]

theorem applyGroupOp_replace {U : Unicode} {g : Group} {o : Operation × Ranking}
    (h : o.1.action U = Action.replace.word) :
    applyGroupOp U g o = applyGroupValue U o.2 false g o.1 := by
  simp [applyGroupOp, h, Action.word]

theorem applyGroupOp_remove {U : Unicode} {g : Group} {o : Operation × Ranking}
    (h : o.1.action U = Action.remove.word) : applyGroupOp U g o = clearGroupPath U g o.1.path := by
  simp [applyGroupOp, h, Action.word]

theorem clearGroupPath_members {U : Unicode} {g : Group} {path : String}
    (h : U.lower (trimSpace path) = "members") :
    clearGroupPath U g path = .ok { g with members := .nil } := by
  simp [clearGroupPath, h]

/-! ### The whole set -/

/-- What each action makes of the members there were. -/
def Action.Effect (a : Action) (old : List Member) (ids : List String) (new : List Member) : Prop :=
  match a with
  | .add => IsUnion old ids new
  | .replace => new.map Member.value = ids
  | .remove => new = []

/-- The operation is accepted, and only the members change, as its action says. -/
def FollowsSetLaw (U : Unicode) (g : Group) (o : Operation × Ranking) (a : Action)
    (ids : List String) : Prop :=
  ∃ g', applyGroupOp U g o = .ok g' ∧ g'.displayName = g.displayName ∧
    g'.externalID = g.externalID ∧ a.Effect g.members.items ids g'.members.items

theorem setMembers_law {g : Group} {v : Value} {ids : List String} {b : Bool}
    {P : List Member → Prop} (h : Denotes v ids)
    (hP : P (if b then addMembers g.members.items ids else ids.map .of)) :
    (∃ g', setMembers g (some v) b = .ok g' ∧ g'.displayName = g.displayName ∧
      g'.externalID = g.externalID ∧ P g'.members.items) ↔ isMemberList v = true := by
  have hdecode := decode_denotes h
  cases hl : isMemberList v with
  | true =>
    rw [hl, if_pos rfl] at hdecode
    rw [setMembers_ok hdecode]
    exact ⟨fun _ => rfl, fun _ => ⟨_, rfl, rfl, rfl, hP⟩⟩
  | false =>
    rw [hl, if_neg Bool.false_ne_true] at hdecode
    rw [setMembers_refused hdecode]
    constructor
    · rintro ⟨g', hg', -⟩
      cases hg'
    · intro h
      cases h

/-- A value is what an `add` and a `replace` come with. -/
def Carries (o : Operation) (a : Action) (v : Value) : Prop :=
  o.value = if a = .remove then none else some v

theorem member_set_law (U : Unicode) (g : Group) (o : Operation × Ranking) (a : Action)
    {v : Value} {ids : List String} (hdenotes : Denotes v ids)
    (haction : o.1.action U = a.word) (hpath : U.lower (trimSpace o.1.path) = "members")
    (hvalue : Carries o.1 a v) :
    FollowsSetLaw U g o a ids ↔ a = .remove ∨ isMemberList v = true := by
  have hmembers : isMembersPath (U.lower (trimSpace o.1.path)) = true := by
    rw [hpath]
    exact isMembersPath_members
  cases a with
  | add =>
    have hv : o.1.value = some v := hvalue
    have hlaw := setMembers_law (g := g) (b := true)
      (P := Action.Effect .add g.members.items ids) hdenotes (addMembers_union _ ids)
    rw [FollowsSetLaw, applyGroupOp_add haction, applyGroupValue_members hmembers, hv, hlaw]
    simp
  | replace =>
    have hv : o.1.value = some v := hvalue
    have hlaw := setMembers_law (g := g) (b := false)
      (P := Action.Effect .replace g.members.items ids) hdenotes (map_value_of ids)
    rw [FollowsSetLaw, applyGroupOp_replace haction, applyGroupValue_members hmembers, hv, hlaw]
    simp
  | remove =>
    rw [FollowsSetLaw, applyGroupOp_remove haction, clearGroupPath_members hpath]
    exact ⟨fun _ => Or.inl rfl, fun _ => ⟨_, rfl, rfl, rfl, rfl⟩⟩

/-- An empty array, or an array with an id in it, is refused although `setMembers` takes a
member, an id "or an array of either". -/
theorem member_array_refused :
    Denotes (.arr []) [] ∧ Denotes (.arr [string "u1"]) ["u1"] ∧
      ¬ FollowsSetLaw .plain .zero (⟨"replace", "members", some (.arr [])⟩, fun _ => 0) .replace [] ∧
      ¬ FollowsSetLaw .plain .zero (⟨"add", "members", some (.arr [string "u1"])⟩, fun _ => 0) .add
        ["u1"] := by
  refine ⟨.many .nil, .many (.cons ?_ .nil), ?_, ?_⟩
  · have hid : One (string "u1") (quote "u1").string := .id (by decide)
    rwa [Json.string_quote] at hid
  · rintro ⟨g', hg', -⟩
    cases hg'
  · rintro ⟨g', hg', -⟩
    cases hg'

theorem member_set_law_single :
    FollowsSetLaw .plain .zero (⟨"Add", " Members", some (string "u1")⟩, fun _ => 0) .add ["u1"] := by
  have hid : One (string "u1") (quote "u1").string := .id (by decide)
  rw [Json.string_quote] at hid
  refine (member_set_law .plain .zero (⟨"Add", " Members", some (string "u1")⟩, fun _ => 0) .add
    (.one hid) ?_ ?_ ?_).mpr (Or.inr rfl)
  · decide
  · decide
  · rfl

/-! ### Singling out -/

theorem afterFolded_length {ws cs rest : List Char} (h : afterFolded ws cs = some rest) :
    cs.length = ws.length + rest.length := by
  induction ws generalizing cs with
  | nil =>
    obtain rfl : cs = rest := by simpa [afterFolded] using h
    simp
  | cons w ws ih =>
    cases cs with
    | nil => cases h
    | cons c cs =>
      rw [afterFolded] at h
      by_cases hw : w = foldRune c
      · rw [if_pos hw] at h
        have hlen := ih h
        simp only [List.length_cons]
        omega
      · rw [if_neg hw] at h
        cases h

theorem filtered_long {path id : String} (h : filteredMemberValue path = some id) :
    8 ≤ path.toList.length := by
  change (afterFolded "members[".toList path.toList).bind _ = _ at h
  cases hrest : afterFolded "members[".toList path.toList with
  | none =>
    rw [hrest] at h
    cases h
  | some rest =>
    have hlen := afterFolded_length hrest
    have hword : "members[".toList.length = 8 := by decide
    omega

theorem filtered_ne_members {U : Unicode} {path id : String}
    (h : filteredMemberValue path = some id) : U.lower path ≠ "members" := by
  intro he
  have hlen := congrArg (fun s => s.toList.length) he
  have hlong := filtered_long h
  have hseven : "members".toList.length = 7 := by decide
  simp only [Unicode.lower, String.toList_ofList, List.length_map, hseven] at hlen
  omega

/-- The operation singles out `ids`: by the filter in its path, or by the value of a `remove`. -/
inductive SinglesOut (U : Unicode) (o : Operation) : Action → List String → Prop
  | filtered {a : Action} {id : String} (haction : o.action U = a.word)
    (hpath : isMembersPath (U.lower (trimSpace o.path)) = true)
    (h : filteredMemberValue (trimSpace o.path) = some id) : SinglesOut U o a [id]
  | listed {v : Value} {ids : List String} (haction : o.action U = Action.remove.word)
    (hpath : U.lower (trimSpace o.path) = "members") (hvalue : o.value = some v)
    (h : Denotes v ids) : SinglesOut U o .remove ids

/-- Whoever is not among `ids` is still a member. -/
def Keeps (ids : List String) (g g' : Group) : Prop :=
  ∀ m ∈ g.members.items, m.value ∉ ids → m.value ∈ g'.members.items.map Member.value

/-- What an action needs to touch only `ids`: a `replace`, to find everyone else in its value
again; a `remove` without a filter, that there is no one else. -/
def Spares (U : Unicode) (g : Group) (o : Operation) (ids : List String) : Action → Prop
  | .add => True
  | .replace => ∀ values, decodeMemberValues o.value = .ok values →
    ∀ m ∈ g.members.items, m.value ∉ ids → m.value ∈ values
  | .remove => U.lower (trimSpace o.path) = "members" → ∀ m ∈ g.members.items, m.value ∈ ids

theorem add_keeps {g g' : Group} {raw : Option Value} (ids : List String)
    (h : setMembers g raw true = .ok g') : Keeps ids g g' := by
  intro m hm _
  cases hdecode : decodeMemberValues raw with
  | error e =>
    rw [setMembers_refused hdecode] at h
    cases h
  | ok values =>
    rw [setMembers_ok hdecode] at h
    cases h
    exact ((addMembers_union g.members.items values).mem_iff m.value).mpr
      (Or.inl (List.mem_map_of_mem hm))

theorem replace_keeps {g : Group} {raw : Option Value} {ids : List String} :
    (∀ g', setMembers g raw false = .ok g' → Keeps ids g g') ↔
      ∀ values, decodeMemberValues raw = .ok values →
        ∀ m ∈ g.members.items, m.value ∉ ids → m.value ∈ values := by
  constructor
  · intro h values hdecode m hm hids
    have hkept := h _ (setMembers_ok hdecode) m hm hids
    simpa [map_value_of] using hkept
  · intro h g' hg' m hm hids
    cases hdecode : decodeMemberValues raw with
    | error e =>
      rw [setMembers_refused hdecode] at hg'
      cases hg'
    | ok values =>
      rw [setMembers_ok hdecode] at hg'
      cases hg'
      simpa [map_value_of] using h values hdecode m hm hids

theorem remove_keeps {members : List Member} {id : String} {m : Member} (hm : m ∈ members)
    (hid : m.value ≠ id) : m.value ∈ (removeMember members id).map Member.value := by
  have hkept : m ∈ removeMember members id := List.mem_filter.mpr ⟨hm, decide_eq_true hid⟩
  exact List.mem_map_of_mem hkept

theorem clear_keeps {g : Group} {ids : List String} :
    Keeps ids g { g with members := .nil } ↔ ∀ m ∈ g.members.items, m.value ∈ ids := by
  constructor
  · intro h m hm
    by_contra hids
    cases h m hm hids
  · intro h m hm hids
    exact absurd (h m hm) hids

theorem clearGroupPath_filtered {U : Unicode} {g : Group} {path id : String}
    (hpath : isMembersPath (U.lower (trimSpace path)) = true)
    (h : filteredMemberValue (trimSpace path) = some id) : clearGroupPath U g path =
      .ok { g with members := .of (removeMember g.members.items id) } := by
  obtain ⟨-, hext, hempty⟩ := isMembersPath_ne hpath
  have hbare := filtered_ne_members (U := U) h
  simp [clearGroupPath, hext, hempty, hbare, hpath, h]

/-- The path that clients send does. -/
theorem filterPath_singles_out {U : Unicode} {o : Operation} {a : Action} {id : String}
    (haction : o.action U = a.word) (hpath : o.path = filterPath id) (hq : '"' ∉ id.toList)
    (hc : ']' ∉ id.toList) : SinglesOut U o a [id] := by
  have htrim : trimSpace o.path = filterPath id := by rw [hpath, trim_filterPath]
  refine .filtered haction ?_ ?_
  · rw [htrim]
    exact filterPath_members hc
  · rw [htrim]
    exact filterPath_value hq hc

/-- An operation that names members leaves the others exactly when its action is one that reads
the names, or there is no one else to lose. -/
theorem singled_out_frame (U : Unicode) (g : Group) (o : Operation × Ranking) (a : Action)
    (ids : List String) (h : SinglesOut U o.1 a ids) :
    (∀ g', applyGroupOp U g o = .ok g' → Keeps ids g g') ↔ Spares U g o.1 ids a := by
  cases h with
  | @filtered _ id haction hpath hfilter =>
    cases a with
    | add =>
      rw [applyGroupOp_add haction, applyGroupValue_members hpath]
      exact ⟨fun _ => trivial, fun _ g' hg' => add_keeps [id] hg'⟩
    | replace =>
      rw [applyGroupOp_replace haction, applyGroupValue_members hpath]
      exact replace_keeps
    | remove =>
      rw [applyGroupOp_remove haction, clearGroupPath_filtered hpath hfilter]
      constructor
      · intro _ hbare
        exact absurd hbare (filtered_ne_members hfilter)
      · rintro _ g' hg' m hm hid
        cases hg'
        exact remove_keeps hm (by simpa using hid)
  | listed haction hpath hvalue hdenotes =>
    rw [applyGroupOp_remove haction, clearGroupPath_members hpath]
    constructor
    · intro hkeeps _
      exact clear_keeps.mp (hkeeps _ rfl)
    · rintro hspares g' hg'
      cases hg'
      exact clear_keeps.mpr (hspares hpath)

def twoMembers : Group := { Group.zero with members := .of [.of "u1", .of "u2"] }

def replaceOne : Operation := ⟨"replace", "members[value eq \"u2\"]", some (string "u3")⟩

def removeListed : Operation :=
  ⟨"remove", "members", some (.arr [.obj (field "value" (string "u2"))])⟩

/-- Members are dropped that neither the path nor the value names. -/
theorem unnamed_member_lost :
    SinglesOut .plain replaceOne .replace ["u2"] ∧ SinglesOut .plain removeListed .remove ["u2"] ∧
      ¬ (∀ g', applyGroupOp .plain twoMembers (replaceOne, fun _ => 0) = .ok g' →
        Keeps ["u2"] twoMembers g') ∧
      ¬ (∀ g', applyGroupOp .plain twoMembers (removeListed, fun _ => 0) = .ok g' →
        Keeps ["u2"] twoMembers g') := by
  have hu1 : (Member.of "u1") ∈ twoMembers.members.items := List.mem_cons_self
  refine ⟨?_, ?_, ?_, ?_⟩
  · exact filterPath_singles_out (by decide) (by decide) (by decide) (by decide)
  · have hone : One (.obj (field "value" (string "u2"))) (Member.of "u2").value :=
      .object (by decide) (by decide)
    exact .listed (by decide) (by decide) rfl (.many (.cons hone .nil))
  · intro h
    have hkept := h { twoMembers with members := .of [.of "u3"] } (by rfl) _ hu1 (by decide)
    revert hkept
    decide
  · intro h
    have hkept := h { twoMembers with members := .nil } (by rfl) _ hu1 (by decide)
    revert hkept
    decide

theorem singled_out_frame_remove :
    ∃ g', applyGroupOp .plain twoMembers (⟨"Remove", filterPath "u2", none⟩, fun _ => 0) = .ok g' ∧
      Keeps ["u2"] twoMembers g' := by
  have hsingled : SinglesOut .plain ⟨"Remove", filterPath "u2", none⟩ .remove ["u2"] :=
    filterPath_singles_out (by decide) rfl (by decide) (by decide)
  refine ⟨_, rfl, (singled_out_frame .plain twoMembers
    (⟨"Remove", filterPath "u2", none⟩, fun _ => 0) .remove ["u2"] hsingled).mpr ?_ _ rfl⟩
  intro hbare
  revert hbare
  decide

end Scimage.Scim
