import Scimage.Scim.BlobKeys
import Scimage.Scim.Handler

/-! The answer to a read of a user: the core with the blob beside it. -/
namespace Scimage.Scim

open Store (Db Postgres UserRow scanUser reservedAttribute reservedAttributes)
open Relational (Table)
open Json (Value Text Datum Map Ranking quote readMap datumMembers)

variable {pg : Postgres} {U : Unicode} {T : TimeText} {db : Db}

/-! ### The list of schemas -/

def strings (ss : List String) : Value := .arr (ss.map string)

theorem readElems_strings (ss old : List String) :
    readElems readString "" old (ss.map string) = some ss := by
  induction ss generalizing old with
  | nil => rfl
  | cons s ss ih =>
    have hread : readString (old.headD "") (string s) = some s := by
      rw [string, readString, Json.string_quote]
    rw [List.map_cons, readElems, hread, ih]
    rfl

theorem readSlice_strings (ss : List String) :
    (((some (strings ss)).bind (readSlice readString "" .nil)).getD .nil).items = ss := by
  cases ss with
  | nil => rfl
  | cons s ss =>
    have hread := readElems_strings (s :: ss) []
    rw [List.map_cons] at hread
    rw [strings, Option.bind_some, List.map_cons, readSlice, Slice.nil, List.nil_append, hread]
    · rfl
    · exact List.cons_ne_nil _ _

theorem datum_strings (ss : List String) : (strings ss).datum = .arr (ss.map .str) := by
  rw [strings, Value.datum]
  congr 1
  induction ss with
  | nil => rfl
  | cons s ss ih =>
    rw [List.map_cons, Json.datumAll, ih, string, Value.datum, Json.string_quote, List.map_cons]

/-- An extension that is not in the list yet. -/
def isNewURN (ss : List String) (k : String) : Bool := k.startsWith "urn:" && !ss.contains k

def declare (ss : List String) (k : String) : List String := if isNewURN ss k then ss ++ [k] else ss

/-- Each new extension is declared once, in the order in which they come. -/
theorem foldl_declare {ks : List String} (h : ks.Nodup) (ss : List String) :
    ks.foldl declare ss = ss ++ ks.filter (isNewURN ss) := by
  induction ks generalizing ss with
  | nil => simp
  | cons k ks ih =>
    obtain ⟨hk, hks⟩ := List.nodup_cons.mp h
    rw [List.foldl_cons, ih hks, declare, List.filter_cons]
    by_cases hnew : isNewURN ss k = true
    · have hrest : ks.filter (isNewURN (ss ++ [k])) = ks.filter (isNewURN ss) := by
        refine List.filter_congr fun x hx => ?_
        have hne : x ≠ k := fun he => hk (he ▸ hx)
        simp [isNewURN, hne]
      rw [if_pos hnew, if_pos hnew, hrest, List.append_assoc, List.singleton_append]
    · rw [if_neg hnew, if_neg hnew]

/-! ### Merging -/

theorem addSchemaURN_strings {core : Map} {ss : List String} (urn : String)
    (hss : core.find? "schemas" = some ("schemas", strings ss)) :
    addSchemaURN core urn = if urn ∈ ss then core else core.put ("schemas", strings (ss ++ [urn])) := by
  simp only [addSchemaURN, addURN, hss, Option.map_some, readSlice_strings]
  rfl

/-- A key that the core has not got comes in, and its extension is declared. -/
theorem mergeExtended_fresh {core : Map} {e : String × Value} {ss : List String}
    (hss : core.find? "schemas" = some ("schemas", strings ss)) (hfree : core.find? e.1 = none) :
    Table.find? (mergeExtended core e) "schemas" = some ("schemas", strings (declare ss e.1)) ∧
      ∀ k, k ≠ "schemas" → Table.find? (mergeExtended core e) k = if k = e.1 then some e else core.find? k := by
  have hne : "schemas" ≠ e.1 := by
    intro he
    rw [← he, hss] at hfree
    cases hfree
  have hput : (core.put e).find? "schemas" = some ("schemas", strings ss) := by
    rw [Table.find?_put, if_neg hne, hss]
  have hnot : ¬ (core.find? e.1).isSome := by simp [hfree]
  rw [mergeExtended, if_neg hnot, declare, isNewURN]
  by_cases hurn : e.1.startsWith "urn:" = true
  · rw [if_pos hurn, addSchemaURN_strings e.1 hput]
    by_cases hmem : e.1 ∈ ss
    · rw [if_pos hmem]
      refine ⟨?_, fun k _ => Table.find?_put _ _ _⟩
      simp [hput, hmem]
    · rw [if_neg hmem]
      refine ⟨?_, ?_⟩
      · simp [hurn, hmem, strings]
      · intro k hk
        rw [Table.find?_put, if_neg hk, Table.find?_put]
  · rw [if_neg hurn]
    refine ⟨?_, fun k _ => Table.find?_put _ _ _⟩
    simp [hput, hurn]

/-- Keys that are new to the core and to each other all come in. -/
theorem merge_all {es : List (String × Value)} {core : Map} {ss : List String}
    (hss : core.find? "schemas" = some ("schemas", strings ss))
    (hfree : ∀ e ∈ es, core.find? e.1 = none) (hnodup : (es.map Prod.fst).Nodup) :
    Table.find? (es.foldl mergeExtended core) "schemas" =
        some ("schemas", strings ((es.map Prod.fst).foldl declare ss)) ∧
      ∀ k, k ≠ "schemas" → Table.find? (es.foldl mergeExtended core) k =
        (es.find? fun e => e.1 = k).or (core.find? k) := by
  induction es generalizing core ss with
  | nil => exact ⟨hss, fun k _ => rfl⟩
  | cons e es ih =>
    obtain ⟨hfresh, hnodup⟩ := List.nodup_cons.mp hnodup
    obtain ⟨hdeclared, hcore⟩ := mergeExtended_fresh hss (hfree e List.mem_cons_self)
    have hapart : ∀ x ∈ es, x.1 ≠ e.1 := fun x hx he => hfresh (List.mem_map.mpr ⟨x, hx, he⟩)
    have hfree' : ∀ x ∈ es, Table.find? (mergeExtended core e) x.1 = none := by
      intro x hx
      have hx' := hfree x (List.mem_cons_of_mem e hx)
      have hne : x.1 ≠ "schemas" := by
        intro he
        rw [he, hss] at hx'
        cases hx'
      rw [hcore x.1 hne, if_neg (hapart x hx), hx']
    obtain ⟨hall, hkeys⟩ := ih hdeclared hfree' hnodup
    refine ⟨hall, ?_⟩
    intro k hk
    rw [List.foldl_cons, hkeys k hk, hcore k hk, List.find?_cons]
    by_cases hke : k = e.1
    · subst hke
      have hnone : es.find? (fun x => x.1 = e.1) = none := by
        refine List.find?_eq_none.mpr fun x hx => ?_
        simpa using hapart x hx
      simp [hnone]
    · have hke' : ¬ e.1 = k := fun h => hke h.symm
      simp [hke, hke']

/-! ### The core -/

/-- The keys of the typed encoding beside `schemas`. -/
def optionalKeys : List String := ["id", "externalId", "userName", "name", "emails", "active", "meta"]

theorem field_key {name : String} {v : Value} {e : Text × Value} (h : e ∈ field name v) :
    e.1.string = name := by
  rw [List.mem_singleton.mp h]
  exact Json.string_quote name

theorem nonEmptyField_key {name value : String} {e : Text × Value} (h : e ∈ nonEmptyField name value) :
    e.1.string = name := by
  unfold nonEmptyField at h
  split_ifs at h
  · cases h
  · exact field_key h

theorem optField_key {name : String} {json : α → Value} {x : Option α} {e : Text × Value}
    (h : e ∈ optField name json x) : e.1.string = name := by
  cases x with
  | none => cases h
  | some a => exact field_key h

theorem itemsField_key {name : String} {json : α → Value} {s : Slice α} {e : Text × Value}
    (h : e ∈ itemsField name json s) : e.1.string = name := by
  unfold itemsField at h
  split_ifs at h
  · cases h
  · exact field_key h

theorem members_eq (T : TimeText) (u : User) : ∃ rest,
    u.members T = (quote "schemas", strings u.schemas.items) :: rest ∧
      ∀ e ∈ rest, e.1.string ∈ optionalKeys := by
  refine ⟨nonEmptyField "id" u.id ++ nonEmptyField "externalId" u.externalID ++
    field "userName" (string u.userName) ++ optField "name" Name.json u.name ++
    itemsField "emails" Email.json u.emails ++ optField "active" .bool u.active ++
    optField "meta" (Meta.json T) u.info, ?_, ?_⟩
  · simp [User.members, field, strings]
  · intro e he
    simp only [List.mem_append] at he
    rcases he with (((((he | he) | he) | he) | he) | he) | he
    · simp [nonEmptyField_key he, optionalKeys]
    · simp [nonEmptyField_key he, optionalKeys]
    · simp [field_key he, optionalKeys]
    · simp [optField_key he, optionalKeys]
    · simp [itemsField_key he, optionalKeys]
    · simp [optField_key he, optionalKeys]
    · simp [optField_key he, optionalKeys]

theorem fold_absent {ms : List (Text × Value)} {k : String} (h : ∀ e ∈ ms, e.1.string ≠ k) (m : Map) :
    Table.find? (ms.foldl (fun m e => m.put (e.1.string, e.2)) m) k = m.find? k := by
  induction ms generalizing m with
  | nil => rfl
  | cons e ms ih =>
    have hne : k ≠ e.1.string := fun he => h e List.mem_cons_self he.symm
    rw [List.foldl_cons, ih fun x hx => h x (List.mem_cons_of_mem e hx), Table.find?_put, if_neg hne]

theorem members_schemas (T : TimeText) (u : User) :
    (Map.of (u.members T)).find? "schemas" = some ("schemas", strings u.schemas.items) := by
  obtain ⟨rest, hmembers, hrest⟩ := members_eq T u
  rw [hmembers, Map.of, List.foldl_cons, fold_absent, Table.find?_put]
  · dsimp only
    rw [Json.string_quote, if_pos rfl]
  · intro e he hkey
    have hmem := hrest e he
    rw [hkey] at hmem
    simp [optionalKeys] at hmem

def coreKeys : List String := "schemas" :: optionalKeys

theorem core_key {u : User} {k : String} (h : ((Map.of (u.members T)).find? k).isSome) : k ∈ coreKeys := by
  obtain ⟨rest, hmembers, hrest⟩ := members_eq T u
  obtain ⟨e, he⟩ := Option.isSome_iff_exists.mp h
  obtain ⟨m, hm, rfl⟩ := Json.of_mem (Table.find?_mem he)
  have hkey : (m.1.string, m.2).1 = k := Table.find?_key he
  rw [hmembers] at hm
  rcases List.mem_cons.mp hm with rfl | hm
  · rw [← hkey, Json.string_quote]
    exact List.mem_cons_self
  · exact List.mem_cons_of_mem _ (hkey ▸ hrest m hm)

/-- Every key of the core is a reserved name. -/
theorem core_reserved {u : User} {k : String} (h : ((Map.of (u.members T)).find? k).isSome) :
    reservedAttribute k = true := by
  have hall : coreKeys.all
      (fun k => reservedAttributes.contains (String.ofList (k.toList.map Store.asciiLower))) = true := by
    rfl
  unfold reservedAttribute
  exact decide_eq_true (List.contains_iff_mem.mp (List.all_eq_true.mp hall k (core_key h)))

/-! ### The response -/

/-- The object `f` against the typed encoding `plain` and the blob `ext`, gone over as `ω` says. -/
structure Shaped (plain : String → Option Datum) (declared : List String) (ω : Ranking) (ext : Map)
    (f : String → Option Datum) : Prop where
  keys : ∀ k, (f k).isSome ↔ (plain k).isSome ∨ (ext.held k).isSome
  core : ∀ k, k ≠ "schemas" → (plain k).isSome → f k = plain k
  extended : ∀ k, (ext.held k).isSome → f k = ext.held k
  listed : plain "schemas" = some (.arr (declared.map .str))
  schemas : f "schemas" = some (.arr ((declared ++
    ((ext.range ω).map Prod.fst).filter (isNewURN declared)).map .str))
  once : (((ext.range ω).map Prod.fst).filter (isNewURN declared)).Nodup

theorem find?_range (ω : Ranking) (m : Map) (k : String) :
    (m.range ω).find? (fun e => e.1 = k) = m.find? k := by
  cases hfind : (m.range ω).find? fun e => e.1 = k with
  | some e =>
    have hmem := Json.mem_range.mp (List.mem_of_find?_eq_some hfind)
    have hkey := List.find?_some hfind
    rw [decide_eq_true_eq] at hkey
    rw [← hkey]
    exact (Table.find?_of_mem hmem).symm
  | none =>
    cases hm : m.find? k with
    | none => rfl
    | some e =>
      have hkey : e.1 = k := Table.find?_key hm
      have hno := List.find?_eq_none.mp hfind e (Json.mem_range.mpr (Table.find?_mem hm))
      exact (hno (decide_eq_true hkey)).elim

theorem filter_new_nodup (ω : Ranking) (m : Map) (ss : List String) :
    (((m.range ω).map Prod.fst).filter (isNewURN ss)).Nodup := (Json.range_nodup ω m).filter _

theorem held_isSome {m : Map} {k : String} : (m.held k).isSome = (m.find? k).isSome := Option.isSome_map

theorem shaped_merge {u : User} {ext : Map} (ω : Ranking)
    (hfree : ∀ k, (ext.find? k).isSome → reservedAttribute k = false) :
    Shaped (datumMembers (u.members T)) u.schemas.items ω ext
      (Map.held ((ext.range ω).foldl mergeExtended (Map.of (u.members T)))) := by
  have hapart : ∀ k, (ext.find? k).isSome → (Map.of (u.members T)).find? k = none := by
    intro k hk
    by_contra hcore
    have hreserved := core_reserved (T := T) (u := u) (Option.isSome_iff_ne_none.mpr hcore)
    rw [hfree k hk] at hreserved
    cases hreserved
  have hschemas : ext.find? "schemas" = none := by
    by_contra hin
    have hnone := hapart "schemas" (Option.isSome_iff_ne_none.mpr hin)
    rw [members_schemas] at hnone
    cases hnone
  obtain ⟨hlist, hkeys⟩ := merge_all (members_schemas T u)
    (fun e he => hapart e.1 (by rw [Table.find?_of_mem (Json.mem_range.mp he)]; rfl)) (Json.range_nodup ω ext)
  rw [foldl_declare (Json.range_nodup ω ext)] at hlist
  have hother : ∀ k, k ≠ "schemas" → Map.held ((ext.range ω).foldl mergeExtended (Map.of (u.members T))) k =
      (ext.held k).or (datumMembers (u.members T) k) := by
    intro k hk
    rw [Map.held, hkeys k hk, find?_range, ← Json.held_of, Map.held, Map.held]
    cases ext.find? k <;> rfl
  have hplain : datumMembers (u.members T) "schemas" = some (.arr (u.schemas.items.map .str)) := by
    rw [← Json.held_of, Map.held, members_schemas, Option.map_some, datum_strings]
  have hdeclared : Map.held ((ext.range ω).foldl mergeExtended (Map.of (u.members T))) "schemas" =
      some (.arr ((u.schemas.items ++ ((ext.range ω).map Prod.fst).filter
        (isNewURN u.schemas.items)).map .str)) := by
    rw [Map.held, hlist, Option.map_some, datum_strings]
  have hnot : ∀ k, (ext.held k).isSome → datumMembers (u.members T) k = none := by
    intro k hk
    rw [← Json.held_of, Map.held, hapart k (held_isSome ▸ hk)]
    rfl
  have hne : ∀ k, (ext.held k).isSome → k ≠ "schemas" := by
    rintro k hk rfl
    rw [held_isSome, hschemas] at hk
    cases hk
  refine ⟨?_, ?_, ?_, hplain, hdeclared, filter_new_nodup ω ext _⟩
  · intro k
    by_cases hk : k = "schemas"
    · subst hk
      simp [hdeclared, hplain]
    · rw [hother k hk, Option.isSome_or, Bool.or_eq_true]
      exact or_comm
  · intro k hk hcore
    have hext : ext.held k = none := by
      by_contra hext
      rw [hnot k (Option.isSome_iff_ne_none.mpr hext)] at hcore
      cases hcore
    rw [hother k hk, hext]
    rfl
  · intro k hk
    obtain ⟨x, hx⟩ := Option.isSome_iff_exists.mp hk
    rw [hother k (hne k hk), hx]
    rfl

/-- Nothing is merged where there is no blob. -/
theorem shaped_plain (T : TimeText) (u : User) (ω : Ranking) :
    Shaped (datumMembers (u.members T)) u.schemas.items ω .empty (datumMembers (u.members T)) := by
  have hmerge : Shaped (datumMembers (u.members T)) u.schemas.items ω .empty
      (Map.held ((Map.range ω .empty).foldl mergeExtended (Map.of (u.members T)))) :=
    shaped_merge ω (fun k hk => (nomatch hk))
  have hsame : Map.held (Map.of (u.members T)) = datumMembers (u.members T) := funext (Json.held_of _)
  rw [← hsame]
  rw [← hsame] at hmerge
  exact hmerge

theorem shapeUser_shaped {u : User} {raw : String} {ext : Map} (ω : Ranking)
    (hext : readBlob raw = some ext) (hfree : ∀ k, (ext.find? k).isSome → reservedAttribute k = false) :
    ∃ f, (shapeUser T ω u raw).datum = .obj f ∧
      Shaped (datumMembers (u.members T)) u.schemas.items ω ext f := by
  unfold readBlob at hext
  unfold shapeUser
  by_cases hraw : raw = ""
  · rw [if_pos hraw] at hext ⊢
    cases hext
    exact ⟨_, rfl, shaped_plain T u ω⟩
  · rw [if_neg hraw] at hext ⊢
    refine ⟨_, ?_, shaped_merge ω hfree⟩
    split at hext
    · rename_i ms hread
      cases hext
      rw [hread]
      exact Json.datum_json _
    · cases hext

end Scimage.Scim
