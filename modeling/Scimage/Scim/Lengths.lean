import Scimage.Scim.Batch

/-! How long a text can get that is written into an indexed column. -/
namespace Scimage.Scim

open Store (trimSpace trimSpace_eq_self)
open Json (Value Map Ranking quote readMap)

/-! ### Indexed columns -/

/-- Above this an entry of a btree raises an error. -/
def btreeEntry : Nat := 2704

/-- Within the bound for attributes, and so within an entry. -/
def FitsIndex (s : String) : Prop := s.utf8ByteSize ≤ maxAttrLen ∧ s.utf8ByteSize ≤ btreeEntry

theorem fitsIndex_iff {s : String} : FitsIndex s ↔ s.utf8ByteSize ≤ maxAttrLen := by
  refine and_iff_left_of_imp fun h => ?_
  unfold maxAttrLen at h
  unfold btreeEntry
  omega

def IndexedUser (su : Store.User) : Prop := FitsIndex su.userName ∧ FitsIndex (su.externalID.getD "")

def IndexedGroup (sg : Store.Group) : Prop := FitsIndex sg.displayName ∧ FitsIndex (sg.externalID.getD "")

theorem nonEmpty_getD_self (s : String) : (nonEmpty s).getD "" = s := by
  by_cases hs : s = ""
  · simp [nonEmpty, hs]
  · simp [nonEmpty, hs]

/-- `validate` bounds the user name. -/
theorem indexedUser_iff {u : User} {su : Store.User} (h : validate u = "")
    (huser : su.userName = trimSpace u.userName) (hext : su.externalID = nonEmpty (trimSpace u.externalID)) :
    IndexedUser su ↔ (trimSpace u.externalID).utf8ByteSize ≤ maxAttrLen := by
  have hname : (trimSpace u.userName).utf8ByteSize ≤ maxAttrLen := (((validate_iff u).mp h).2 .userName).2
  rw [IndexedUser, huser, hext, nonEmpty_getD_self, fitsIndex_iff, fitsIndex_iff, and_iff_right hname]

theorem toStoreUser_indexed {u : User} (h : validate u = "") (blob : String) :
    IndexedUser { toStoreUser u with extendedAttributes := blob } ↔
      (trimSpace u.externalID).utf8ByteSize ≤ maxAttrLen := by
  have huser : ({ toStoreUser u with extendedAttributes := blob } : Store.User).userName =
      trimSpace u.userName := rfl
  have hext : ({ toStoreUser u with extendedAttributes := blob } : Store.User).externalID =
      nonEmpty (trimSpace u.externalID) := rfl
  exact indexedUser_iff h huser hext

/-- `validateGroup` bounds the display name. -/
theorem indexedGroup_iff {g : Group} {sg : Store.Group} (h : validateGroup g = "")
    (hdisplay : sg.displayName = trimSpace g.displayName)
    (hext : sg.externalID = nonEmpty (trimSpace g.externalID)) :
    IndexedGroup sg ↔ (trimSpace g.externalID).utf8ByteSize ≤ maxAttrLen := by
  have hname : (trimSpace g.displayName).utf8ByteSize ≤ maxAttrLen := by
    have hschema : "schemas must contain " ++ groupSchema ≠ "" := by decide
    have hrequired : "displayName is required" ≠ "" := by decide
    rw [validateGroup] at h
    split_ifs at h with hschemas hempty
    · exact (hrequired h).elim
    · cases hlong : tooLong "displayName" (trimSpace g.displayName) with
      | none => exact tooLong_none.mp hlong
      | some detail =>
        rw [hlong] at h
        exact (tooLong_ne_empty (hlong.trans (congrArg some h))).elim
    · exact (hschema h).elim
  rw [IndexedGroup, hdisplay, hext, nonEmpty_getD_self, fitsIndex_iff, fitsIndex_iff, and_iff_right hname]

theorem toStoreGroup_indexed {g : Group} (h : validateGroup g = "") :
    IndexedGroup (toStoreGroup g) ↔ (trimSpace g.externalID).utf8ByteSize ≤ maxAttrLen := by
  have hdisplay : (toStoreGroup g).displayName = trimSpace g.displayName := rfl
  have hext : (toStoreGroup g).externalID = nonEmpty (trimSpace g.externalID) := rfl
  exact indexedGroup_iff h hdisplay hext

/-! ### The externalId that a PATCH comes to -/

/-- What a path and its value give `externalId`, if anything. -/
def externalSet (U : Unicode) (e : String × Option Value) : Option String :=
  if pathKey U e.1 = "externalid" then e.2.bind (readString "") else none

/-- The text that a step of the core leaves `externalId` with. -/
def Step.externalAfter (U : Unicode) (x : String) : Step → String
  | .set path raw => (externalSet U (path, raw)).getD x
  | .clear path => if pathKey U path = "externalid" then "" else x
  | .refuse _ => x

/-- The last `externalId` that an operation of the core gives or clears, or else the one that there was. -/
def externalAfter (U : Unicode) (registered : Registry) (x : String) (ops : List Scheduled) : String :=
  (ops.flatMap (coreSteps U registered)).foldl (Step.externalAfter U) x

theorem email_not_external {key : String} (h : isEmailPath key = true) : key ≠ "externalid" := by
  rintro rfl
  have hno : isEmailPath "externalid" = false := by rfl
  rw [hno] at h
  cases h

theorem resolve_external {U : Unicode} {st : Step} {ch : Change} (h : resolve U st = .ok ch) (u : User) :
    (ch.run u).externalID = st.externalAfter U u.externalID := by
  cases st with
  | refuse e => cases h
  | set path raw =>
    have hsets := resolveSet_ok h
    rw [Step.externalAfter, externalSet]
    cases hsets with
    | externalID hkey hs =>
      rw [if_pos hkey, hs]
      rfl
    | emails hkey => rw [if_neg (email_not_external hkey)]; rfl
    | _ hkey hs =>
      rw [if_neg (by rw [hkey]; decide)]
      rfl
  | clear path =>
    have hclears := resolveClear_ok h
    rw [Step.externalAfter]
    cases hclears with
    | externalID hkey => rw [if_pos hkey]; rfl
    | emails hkey => rw [if_neg (email_not_external hkey)]; rfl
    | _ hkey =>
      rw [if_neg (by rw [hkey]; decide)]
      rfl

theorem resolveAll_external {U : Unicode} {sts : List Step} {chs : List Change}
    (h : resolveAll U sts = .ok chs) (u : User) :
    (runAll chs u).externalID = sts.foldl (Step.externalAfter U) u.externalID := by
  induction sts generalizing chs u with
  | nil =>
    cases h
    rfl
  | cons st sts ih =>
    rw [resolveAll] at h
    cases hst : resolve U st with
    | error e =>
      rw [hst] at h
      cases h
    | ok ch =>
      rw [hst] at h
      obtain ⟨chs', hrest, rfl⟩ := map_ok h
      rw [List.foldl_cons, ← resolve_external hst u]
      exact ih hrest (ch.run u)

/-- The paths that an operation on a group sets, in the order in which it sets them. -/
def groupSettings (o : Operation × Ranking) : List (String × Option Value) :=
  if trimSpace o.1.path = "" then
    ((o.1.value.bind readMap).map fun m => (m.range o.2).map fun e => (e.1, some e.2)).getD []
  else [(o.1.path, o.1.value)]

def groupExternalAfter (U : Unicode) (x : String) (o : Operation × Ranking) : String :=
  if o.1.action U = "add" ∨ o.1.action U = "replace" then
    (groupSettings o).foldl (fun x e => (externalSet U e).getD x) x
  else if pathKey U o.1.path = "externalid" then ""
  else x

variable {U : Unicode} {T : TimeText} {g h : Group} {isAdd : Bool} {path : String} {raw : Option Value}

theorem members_not_external {key : String} (h : isMembersPath key = true) : key ≠ "externalid" := by
  rintro rfl
  have hno : isMembersPath "externalid" = false := by rfl
  rw [hno] at h
  cases h

theorem bind_ok {x : Patched α} {f : α → Patched β} {b : β} (h : (x >>= f) = .ok b) :
    ∃ a, x = .ok a ∧ f a = .ok b := by
  cases x with
  | error e => cases h
  | ok a => exact ⟨a, rfl, h⟩

theorem setMembers_external (hok : setMembers g raw isAdd = .ok h) : h.externalID = g.externalID := by
  obtain ⟨values, -, hok⟩ := bind_ok hok
  split_ifs at hok <;> (cases hok; rfl)

theorem setGroupPath_external (hok : setGroupPath U isAdd g path raw = .ok h) :
    h.externalID = (externalSet U (path, raw)).getD g.externalID := by
  unfold setGroupPath at hok
  rw [externalSet, pathKey]
  dsimp only at hok ⊢
  generalize U.lower (trimSpace path) = key at hok ⊢
  split_ifs at hok with hname hext hmembers
  · obtain ⟨v, -, hv⟩ := bind_ok hok
    cases hv
    rw [if_neg (by rw [hname]; decide)]
    rfl
  · obtain ⟨v, hread, hv⟩ := bind_ok hok
    cases hv
    rw [if_pos hext, decode_ok hread]
    rfl
  · rw [if_neg (members_not_external hmembers), setMembers_external hok]
    rfl

theorem foldlM_external (isAdd : Bool) {es : List (String × Option Value)}
    (hok : es.foldlM (fun g e => setGroupPath U isAdd g e.1 e.2) g = .ok h) :
    h.externalID = es.foldl (fun x e => (externalSet U e).getD x) g.externalID := by
  induction es generalizing g with
  | nil =>
    cases hok
    rfl
  | cons e es ih =>
    rw [List.foldlM_cons] at hok
    obtain ⟨g', hset, hrest⟩ := bind_ok hok
    rw [List.foldl_cons, ← setGroupPath_external hset]
    exact ih hrest

theorem applyGroupValue_external {ω : Ranking} {op : Operation}
    (hok : applyGroupValue U ω isAdd g op = .ok h) :
    h.externalID = (groupSettings (op, ω)).foldl (fun x e => (externalSet U e).getD x) g.externalID := by
  rw [applyGroupValue] at hok
  rw [groupSettings]
  by_cases hpath : trimSpace op.path = ""
  · rw [if_pos hpath] at hok ⊢
    dsimp only
    cases hobj : op.value.bind readMap with
    | none =>
      rw [hobj] at hok
      cases hok
    | some m =>
      rw [hobj] at hok
      refine foldlM_external isAdd ?_
      rw [Option.map_some, Option.getD_some, List.foldlM_map]
      exact hok
  · rw [if_neg hpath] at hok ⊢
    rw [List.foldl_cons, List.foldl_nil]
    exact setGroupPath_external hok

theorem clearGroupPath_external (hok : clearGroupPath U g path = .ok h) :
    h.externalID = if pathKey U path = "externalid" then "" else g.externalID := by
  unfold clearGroupPath at hok
  rw [pathKey]
  dsimp only at hok
  generalize hkey : U.lower (trimSpace path) = key at hok ⊢
  split_ifs at hok with hempty hext hmembers hfiltered
  · cases hok
    rw [if_pos hext]
  · cases hok
    rw [if_neg hext]
  · cases hvalue : filteredMemberValue (trimSpace path) with
    | none =>
      rw [hvalue] at hok
      cases hok
    | some value =>
      rw [hvalue] at hok
      cases hok
      rw [if_neg hext]

theorem applyGroupOp_external {o : Operation × Ranking} (hok : applyGroupOp U g o = .ok h) :
    h.externalID = groupExternalAfter U g.externalID o := by
  rw [applyGroupOp] at hok
  rw [groupExternalAfter]
  by_cases hadd : o.1.action U = "add"
  · rw [if_pos hadd] at hok
    rw [if_pos (Or.inl hadd)]
    exact applyGroupValue_external hok
  · rw [if_neg hadd] at hok
    by_cases hreplace : o.1.action U = "replace"
    · rw [if_pos hreplace] at hok
      rw [if_pos (Or.inr hreplace)]
      exact applyGroupValue_external hok
    · rw [if_neg hreplace] at hok
      rw [if_neg (not_or.mpr ⟨hadd, hreplace⟩)]
      split_ifs at hok
      exact clearGroupPath_external hok

theorem applyGroupPatch_external {ops : List (Operation × Ranking)}
    (hok : applyGroupPatch U g ops = .ok h) :
    h.externalID = ops.foldl (groupExternalAfter U) g.externalID := by
  rw [applyGroupPatch] at hok
  split_ifs at hok
  induction ops generalizing g with
  | nil =>
    cases hok
    rfl
  | cons o ops ih =>
    rw [List.foldlM_cons] at hok
    obtain ⟨g', hop, hrest⟩ := bind_ok hok
    rw [List.foldl_cons, ← applyGroupOp_external hop]
    cases ops with
    | nil =>
      cases hrest
      rfl
    | cons o' ops => exact ih (List.cons_ne_nil _ _) hrest

/-! ### Every route -/

theorem decoded_indexed {ω : Ranking} {registered : Registry} {body : Value} {u : User} {keys : Map}
    (hok : decodeUser U T body = .ok (u, keys)) :
    IndexedUser (storeUserOf U ω registered u keys) ↔ (trimSpace u.externalID).utf8ByteSize ≤ maxAttrLen := by
  unfold decodeUser at hok
  split at hok
  · cases hok
  · split_ifs at hok with hvalid
    cases hok
    exact toStoreUser_indexed (not_not.mp hvalid) _

/-- What is written into an indexed column fits it exactly if the `externalId` does that a body has, or that
a PATCH comes to. -/
theorem indexed_bounded_iff (U : Unicode) (T : TimeText) :
    (∀ ω registered body u keys, decodeUser U T body = .ok (u, keys) →
      (IndexedUser (storeUserOf U ω registered u keys) ↔ (trimSpace u.externalID).utf8ByteSize ≤ maxAttrLen)) ∧
    (∀ registered existing baseURL ops su, patchUser U registered existing baseURL ops = .ok su →
      (IndexedUser su ↔
        (trimSpace (externalAfter U registered (existing.externalID.getD "") ops)).utf8ByteSize ≤ maxAttrLen)) ∧
    (∀ body g, decodeGroup T body = .ok g →
      (IndexedGroup (toStoreGroup g) ↔ (trimSpace g.externalID).utf8ByteSize ≤ maxAttrLen)) ∧
    ∀ (h : Handler) r existing p sg, h.patchedGroup r existing p = .ok sg →
      (IndexedGroup sg ↔ (trimSpace ((applied r.orders p.operations.items).foldl
        (groupExternalAfter h.unicode) (existing.externalID.getD ""))).utf8ByteSize ≤ maxAttrLen) := by
  refine ⟨?_, ?_, ?_, ?_⟩
  · intro ω registered body u keys hok
    exact decoded_indexed hok
  · intro registered existing baseURL ops su hok
    obtain ⟨-, chs, blob, hres, hvalid, -, rfl⟩ := patchUser_ok_iff.mp hok
    refine (toStoreUser_indexed hvalid blob).trans ?_
    rw [resolveAll_external hres]
    rfl
  · intro body g hok
    unfold decodeGroup at hok
    split at hok
    · cases hok
    · split_ifs at hok with hvalid
      cases hok
      exact toStoreGroup_indexed (not_not.mp hvalid)
  · intro h r existing p sg hok
    obtain ⟨g, happly, hvalid, rfl⟩ := patchedGroup_ok hok
    refine (toStoreGroup_indexed hvalid).trans ?_
    rw [applyGroupPatch_external happly]
    rfl

def annMembers : List (Json.Text × Value) :=
  [(quote "schemas", .arr [string userSchema]), (quote "userName", string "ann")]

/-- A body with an `externalId`. -/
def bodyWith (externalID : String) : Value := .obj (annMembers ++ [(quote "externalId", string externalID)])

def annWith (externalID : String) : User :=
  ⟨.of [(quote userSchema).string], "", externalID, (quote "ann").string, none, .nil, none, none⟩

theorem read_bodyWith (s : String) : readUser .plain noTimes (bodyWith s) = some (annWith s) := by
  have hann : annMembers.foldlM (fun u m => User.set .plain noTimes u m.1.string m.2) User.zero =
      some (annWith "") := by rfl
  have hset : User.set .plain noTimes (annWith "") "externalId" (string s) = some (annWith s) := by
    have hquoted : User.set .plain noTimes (annWith "") "externalId" (string s) =
        some (annWith (quote s).string) := by rfl
    rw [hquoted, Json.string_quote]
  change (annMembers ++ [(quote "externalId", string s)]).foldlM
    (fun u m => User.set .plain noTimes u m.1.string m.2) User.zero = _
  simp only [List.foldlM_append, hann, Option.bind_eq_bind, Option.bind_some, List.foldlM_cons,
    Json.string_quote, hset, List.foldlM_nil]
  rfl

theorem decode_bodyWith (s : String) :
    ∃ u keys, decodeUser .plain noTimes (bodyWith s) = .ok (u, keys) ∧ u.externalID = s := by
  have hvalid : validate (annWith "") = "" := by rfl
  have hsame : validate (annWith s) = validate (annWith "") := rfl
  refine ⟨annWith s, (readMap (bodyWith s)).getD .empty, ?_, rfl⟩
  rw [decodeUser, read_bodyWith]
  dsimp only
  rw [if_neg (not_not.mpr (hsame.trans hvalid))]

theorem indexed_bounded_short : ∃ u keys, decodeUser .plain noTimes (bodyWith "e1") = .ok (u, keys) ∧
    IndexedUser (storeUserOf .plain (fun _ => 0) .empty u keys) := by
  obtain ⟨u, keys, hdecode, hext⟩ := decode_bodyWith "e1"
  refine ⟨u, keys, hdecode, ?_⟩
  refine ((indexed_bounded_iff .plain noTimes).1 (fun _ => 0) .empty _ u keys hdecode).mpr ?_
  rw [hext]
  decide

def longID : String := String.ofList (List.replicate 257 'x')

theorem size_replicate (n : Nat) : (String.ofList (List.replicate n 'x')).utf8ByteSize = n := by
  induction n with
  | zero => rfl
  | succ n ih =>
    have hone : (String.ofList ['x']).utf8ByteSize = 1 := by rfl
    rw [List.replicate_succ, ← List.singleton_append, String.ofList_append, String.utf8ByteSize_append, ih]
    omega

theorem replicate_ends (n : Nat) (c : Char) : List.replicate (n + 2) c = c :: List.replicate n c ++ [c] := by
  rw [List.replicate_succ', List.replicate_succ]

theorem longID_trimmed : trimSpace longID = longID := by
  have hchars : longID.toList = 'x' :: List.replicate 255 'x' ++ ['x'] :=
    String.toList_ofList.trans (replicate_ends 255 'x')
  exact trimSpace_eq_self hchars (by rfl) (by rfl)

/-- `validate` lets it pass. -/
theorem long_externalID_accepted : ∃ u keys, decodeUser .plain noTimes (bodyWith longID) = .ok (u, keys) ∧
    ¬ IndexedUser (storeUserOf .plain (fun _ => 0) .empty u keys) := by
  obtain ⟨u, keys, hdecode, hext⟩ := decode_bodyWith longID
  refine ⟨u, keys, hdecode, ?_⟩
  intro hfits
  have hsize : longID.utf8ByteSize = 257 := size_replicate 257
  have hle := (decoded_indexed hdecode).mp hfits
  rw [hext, longID_trimmed, hsize] at hle
  unfold maxAttrLen at hle
  omega

end Scimage.Scim
