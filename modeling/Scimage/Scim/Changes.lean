import Scimage.Scim.Steps

/-! What an accepted step does to a user: it writes constants into columns. -/
namespace Scimage.Scim

open Store (trimSpace)
open Json (Value)

/-! ### Changes -/

inductive Change where
  | userName (s : String)
  | externalID (s : String)
  | active (b : Bool)
  | givenName (s : String)
  | familyName (s : String)
  | name (n : Name)
  | emails (es : Slice Email)
  | clearGivenName
  | clearFamilyName
  | clearName

def Change.run : Change → User → User
  | .userName s, u => { u with userName := s }
  | .externalID s, u => { u with externalID := s }
  | .active b, u => { u with active := some b }
  | .givenName s, u => { u with name := some { u.name.getD .zero with givenName := s } }
  | .familyName s, u => { u with name := some { u.name.getD .zero with familyName := s } }
  | .name n, u => { u with name := some n }
  | .emails es, u => { u with emails := es }
  | .clearGivenName, u => { u with name := u.name.map fun n => { n with givenName := "" } }
  | .clearFamilyName, u => { u with name := u.name.map fun n => { n with familyName := "" } }
  | .clearName, u => { u with name := none }

/-- The three readings of an address. -/
def readEmails (U : Unicode) (path : String) (raw : Option Value) : Patched (Slice Email) :=
  match raw.bind (readString "") with
  | some value => .ok (.of [⟨value, true⟩])
  | none =>
    match (raw.bind (readEmail U .zero)).filter fun one => one.value ≠ "" with
    | some one => .ok (.of [{ one with primary := true }])
    | none =>
      match (raw.bind (readSlice (readEmail U) .zero .nil)).filter fun many => many.items ≠ [] with
      | some many => .ok (.of [⟨primaryEmail many.items, true⟩])
      | none => .error (.expectedEmail path)

/-- What a key and its value come to, whatever they are applied to. -/
def resolveSet (U : Unicode) (key path : String) (raw : Option Value) : Patched Change :=
  if key = "username" then (assignString raw path).map .userName
  else if key = "externalid" then (assignString raw path).map .externalID
  else if key = "active" then (decode (readBool U) raw .active).map .active
  else if key = "name.givenname" then (assignString raw path).map .givenName
  else if key = "name.familyname" then (assignString raw path).map .familyName
  else if key = "name" then (decode (readName .zero) raw .name).map .name
  else if isEmailPath key then (readEmails U path raw).map .emails
  else .error (.unsupportedPath path)

def resolveClear (key path : String) : Patched Change :=
  if key = "" then .error .removeRequiresPath
  else if key = "externalid" then .ok (.externalID "")
  else if key = "name.givenname" then .ok .clearGivenName
  else if key = "name.familyname" then .ok .clearFamilyName
  else if key = "name" then .ok .clearName
  else if key = "active" then .ok (.active true)
  else if isEmailPath key then .ok (.emails .nil)
  else .error (.unsupportedPath path)

def pathKey (U : Unicode) (path : String) : String := U.lower (trimSpace path)

def resolve (U : Unicode) : Step → Patched Change
  | .set path raw => resolveSet U (pathKey U path) path raw
  | .clear path => resolveClear (pathKey U path) path
  | .refuse e => .error e

theorem setEmail_resolve (U : Unicode) (u : User) (raw : Option Value) (path : String) :
    setEmail U u raw path = (readEmails U path raw).map fun es => { u with emails := es } := by
  rw [setEmail, readEmails]
  cases raw.bind (readString "") with
  | some value => rfl
  | none =>
    dsimp only
    cases (raw.bind (readEmail U .zero)).filter fun one => one.value ≠ "" with
    | some one => rfl
    | none =>
      dsimp only
      cases (raw.bind (readSlice (readEmail U) .zero .nil)).filter fun many => many.items ≠ [] with
      | some many => rfl
      | none => rfl

theorem map_bind_pure {α β : Type} (x : Patched α) (f : α → β) :
    (x >>= fun a => pure (f a)) = x.map f := by
  cases x <;> rfl

theorem map_ok {α β : Type} {x : Patched α} {f : α → β} {b : β} (h : x.map f = .ok b) :
    ∃ a, x = .ok a ∧ f a = b := by
  cases x with
  | error e => cases h
  | ok a =>
    cases h
    exact ⟨a, rfl, rfl⟩

theorem map_map {α β γ : Type} (x : Patched α) (f : α → β) (g : β → γ) :
    (x.map f).map g = x.map fun a => g (f a) := by
  cases x <;> rfl

theorem setPath_resolve (U : Unicode) (u : User) (path : String) (raw : Option Value) :
    setPath U u path raw = (resolveSet U (pathKey U path) path raw).map fun ch => ch.run u := by
  rw [setPath, resolveSet, pathKey]
  dsimp only
  split_ifs
  · rw [map_bind_pure, map_map]
    rfl
  · rw [map_bind_pure, map_map]
    rfl
  · rw [map_bind_pure, map_map]
    rfl
  · rw [map_bind_pure, map_map]
    rfl
  · rw [map_bind_pure, map_map]
    rfl
  · rw [map_bind_pure, map_map]
    rfl
  · rw [setEmail_resolve, map_map]
    rfl
  · rfl

theorem clearPath_resolve (U : Unicode) (u : User) (path : String) :
    clearPath U u path = (resolveClear (pathKey U path) path).map fun ch => ch.run u := by
  rw [clearPath, resolveClear, pathKey]
  split_ifs <;> rfl

theorem applyStep_resolve (U : Unicode) (u : User) (st : Step) :
    applyStep U u st = (resolve U st).map fun ch => ch.run u := by
  cases st with
  | set path raw => exact setPath_resolve U u path raw
  | clear path => exact clearPath_resolve U u path
  | refuse e => rfl

def resolveAll (U : Unicode) : List Step → Patched (List Change)
  | [] => .ok []
  | st :: sts =>
    match resolve U st with
    | .error e => .error e
    | .ok ch => (resolveAll U sts).map (ch :: ·)

def runAll (chs : List Change) (u : User) : User := chs.foldl (fun u ch => ch.run u) u

/-- The first refused step decides, whatever the resource is. -/
theorem foldlM_resolveAll (U : Unicode) (sts : List Step) (u : User) :
    sts.foldlM (applyStep U) u = (resolveAll U sts).map fun chs => runAll chs u := by
  induction sts generalizing u with
  | nil => rfl
  | cons st sts ih =>
    rw [List.foldlM_cons, applyStep_resolve, resolveAll]
    cases resolve U st with
    | error e => rfl
    | ok ch =>
      change sts.foldlM (applyStep U) (ch.run u) = _
      rw [ih, map_map]
      rfl

/-- The core PATCH runs unless there are extended operations only. -/
theorem patchCore_steps (U : Unicode) (registered : Registry) (u : User) (ops : List Scheduled) :
    patchCore U u (splitExtendedOps U registered ops).1 (splitExtendedOps U registered ops).2 =
      if (splitExtendedOps U registered ops).1 = [] ∧ (splitExtendedOps U registered ops).2 = [] then
        .error .operationsRequired
      else (resolveAll U (ops.flatMap (coreSteps U registered))).map fun chs => runAll chs u := by
  have hfold := (splitExtendedOps_steps U registered ops).1 u
  rw [foldlM_resolveAll] at hfold
  rw [patchCore, ← hfold]
  by_cases hcore : (splitExtendedOps U registered ops).1 = []
  · by_cases hext : (splitExtendedOps U registered ops).2 = []
    · rw [if_pos (Or.inr hext), if_pos ⟨hcore, hext⟩, applyPatch, if_pos hcore]
    · rw [if_neg (not_or.mpr ⟨not_not.mpr hcore, hext⟩), if_neg fun h => hext h.2, hcore]
      rfl
  · rw [if_pos (Or.inl hcore), if_neg fun h => hcore h.1, applyPatch, if_neg hcore]

/-- A PATCH, its steps resolved. -/
theorem patchUser_steps (U : Unicode) (registered : Registry) (existing : Store.User)
    (baseURL : String) (ops : List Scheduled) :
    patchUser U registered existing baseURL ops =
      if (splitExtendedOps U registered ops).1 = [] ∧ (splitExtendedOps U registered ops).2 = [] then
        .error (.patch .operationsRequired)
      else match resolveAll U (ops.flatMap (coreSteps U registered)) with
        | .error e => .error (.patch e)
        | .ok chs => finishPatch existing (runAll chs (fromStoreUser existing baseURL))
            (ops.flatMap (extendedSteps U registered)) := by
  rw [patchUser, patchCore_steps, (splitExtendedOps_steps U registered ops).2]
  split_ifs with h
  · rfl
  · cases resolveAll U (ops.flatMap (coreSteps U registered)) <;> rfl

theorem patchUser_ok {U : Unicode} {registered : Registry} {existing : Store.User} {baseURL : String}
    {ops : List Scheduled} {row : Store.User}
    (h : patchUser U registered existing baseURL ops = .ok row) :
    ∃ chs blob, resolveAll U (ops.flatMap (coreSteps U registered)) = .ok chs ∧
      applyExtendedOps existing.extendedAttributes (ops.flatMap (extendedSteps U registered)) =
        some blob ∧
      row = { toStoreUser (runAll chs (fromStoreUser existing baseURL)) with
        extendedAttributes := blob } := by
  rw [patchUser_steps] at h
  split_ifs at h
  cases hresolve : resolveAll U (ops.flatMap (coreSteps U registered)) with
  | error e =>
    rw [hresolve] at h
    cases h
  | ok chs =>
    rw [hresolve] at h
    dsimp only at h
    rw [finishPatch] at h
    split_ifs at h
    cases hblob : applyExtendedOps existing.extendedAttributes
        (ops.flatMap (extendedSteps U registered)) with
    | none =>
      rw [hblob] at h
      cases h
    | some blob =>
      rw [hblob] at h
      cases h
      exact ⟨chs, blob, rfl, rfl, rfl⟩

/-- Each change comes from a step. -/
theorem mem_resolveAll {U : Unicode} {sts : List Step} {chs : List Change}
    (h : resolveAll U sts = .ok chs) {ch : Change} :
    ch ∈ chs ↔ ∃ st ∈ sts, resolve U st = .ok ch := by
  induction sts generalizing chs with
  | nil =>
    cases h
    simp
  | cons st sts ih =>
    rw [resolveAll] at h
    cases hst : resolve U st with
    | error e =>
      rw [hst] at h
      cases h
    | ok ch' =>
      rw [hst] at h
      cases hsts : resolveAll U sts with
      | error e =>
        rw [hsts] at h
        cases h
      | ok chs' =>
        rw [hsts] at h
        cases h
        rw [List.mem_cons, ih hsts]
        simp [hst, eq_comm]

theorem resolveAll_of_mem {U : Unicode} {sts : List Step} {chs : List Change}
    (h : resolveAll U sts = .ok chs) {st : Step} (hst : st ∈ sts) : ∃ ch, resolve U st = .ok ch := by
  induction sts generalizing chs with
  | nil => cases hst
  | cons st' sts ih =>
    rw [resolveAll] at h
    cases hst' : resolve U st' with
    | error e =>
      rw [hst'] at h
      cases h
    | ok ch =>
      rcases List.mem_cons.mp hst with rfl | hst
      · exact ⟨ch, hst'⟩
      · rw [hst'] at h
        obtain ⟨chs', hsts, -⟩ := map_ok h
        exact ih hsts hst

/-! ### Columns -/

inductive Column where
  | userName | externalID | active | givenName | familyName | email
  deriving DecidableEq

/-- What a resource holds for a column. -/
inductive Cell where
  | text (s : String)
  | flag (b : Bool)
  deriving DecidableEq

/-- What a row holds in it. -/
inductive Stored where
  | text (s : Option String)
  | flag (b : Bool)
  deriving DecidableEq

def cell (u : User) : Column → Cell
  | .userName => .text u.userName
  | .externalID => .text u.externalID
  | .active => .flag (u.active.getD true)
  | .givenName => .text (u.name.getD .zero).givenName
  | .familyName => .text (u.name.getD .zero).familyName
  | .email => .text (primaryEmail u.emails.items)

def Column.get (su : Store.User) : Column → Stored
  | .userName => .text (some su.userName)
  | .externalID => .text su.externalID
  | .active => .flag su.active
  | .givenName => .text su.givenName
  | .familyName => .text su.familyName
  | .email => .text su.email

/-- The blob is none of the columns. -/
theorem get_blob (c : Column) (su : Store.User) (blob : String) :
    c.get { su with extendedAttributes := blob } = c.get su := by
  cases c <;> rfl

def Column.store : Column → Cell → Stored
  | .userName, .text s => .text (some (trimSpace s))
  | _, .text s => .text (nonEmpty (trimSpace s))
  | _, .flag b => .flag b

def Change.writes : Change → Column → Option Cell
  | .userName s, .userName => some (.text s)
  | .externalID s, .externalID => some (.text s)
  | .active b, .active => some (.flag b)
  | .givenName s, .givenName => some (.text s)
  | .familyName s, .familyName => some (.text s)
  | .name n, .givenName => some (.text n.givenName)
  | .name n, .familyName => some (.text n.familyName)
  | .emails es, .email => some (.text (primaryEmail es.items))
  | .clearGivenName, .givenName => some (.text "")
  | .clearFamilyName, .familyName => some (.text "")
  | .clearName, .givenName => some (.text "")
  | .clearName, .familyName => some (.text "")
  | _, _ => none

theorem cell_run (ch : Change) (u : User) (c : Column) :
    cell (ch.run u) c = (ch.writes c).getD (cell u c) := by
  cases ch with
  | clearGivenName =>
    cases hname : u.name <;> cases c <;> simp [cell, Change.run, Change.writes, hname, Name.zero]
  | clearFamilyName =>
    cases hname : u.name <;> cases c <;> simp [cell, Change.run, Change.writes, hname, Name.zero]
  | _ => cases c <;> rfl

theorem cell_runAll (chs : List Change) (u : User) (c : Column) :
    cell (runAll chs u) c = chs.foldl (fun x ch => (ch.writes c).getD x) (cell u c) := by
  induction chs generalizing u with
  | nil => rfl
  | cons ch chs ih =>
    change cell (runAll chs (ch.run u)) c = _
    rw [ih, cell_run]
    rfl

/-- A column that nothing writes keeps what it had. -/
theorem cell_unwritten {chs : List Change} {c : Column} (h : ∀ ch ∈ chs, ch.writes c = none)
    (u : User) : cell (runAll chs u) c = cell u c := by
  rw [cell_runAll]
  induction chs with
  | nil => rfl
  | cons ch chs ih =>
    rw [List.foldl_cons, h ch List.mem_cons_self]
    exact ih fun ch' hch' => h ch' (List.mem_cons_of_mem ch hch')

theorem foldl_writes {chs : List Change} {c : Column} {w x : Cell}
    (h : ∀ ch ∈ chs, ch.writes c = none ∨ ch.writes c = some w)
    (hx : x = w ∨ ∃ ch ∈ chs, ch.writes c = some w) :
    chs.foldl (fun x ch => (ch.writes c).getD x) x = w := by
  induction chs generalizing x with
  | nil =>
    rcases hx with hx | ⟨ch, hch, -⟩
    · exact hx
    · cases hch
  | cons ch chs ih =>
    rw [List.foldl_cons]
    refine ih (fun ch' hch' => h ch' (List.mem_cons_of_mem ch hch')) ?_
    rcases h ch List.mem_cons_self with hnone | hsome
    · rw [hnone]
      rcases hx with hx | ⟨ch', hch', hw⟩
      · exact Or.inl hx
      · rcases List.mem_cons.mp hch' with rfl | hch'
        · rw [hnone] at hw
          cases hw
        · exact Or.inr ⟨ch', hch', hw⟩
    · rw [hsome]
      exact Or.inl rfl

/-- A column into which only one thing is written holds it. -/
theorem cell_written {chs : List Change} {c : Column} {w : Cell}
    (h : ∀ ch ∈ chs, ch.writes c = none ∨ ch.writes c = some w)
    (hw : ∃ ch ∈ chs, ch.writes c = some w) (u : User) : cell (runAll chs u) c = w := by
  rw [cell_runAll]
  exact foldl_writes h (Or.inr hw)

/-! ### Rows -/

theorem trimSpace_empty : trimSpace "" = "" := by rfl

@[simp] theorem trimSpace_nonEmpty_getD (s : String) :
    nonEmpty (trimSpace ((nonEmpty (trimSpace s)).getD "")) = nonEmpty (trimSpace s) := by
  by_cases h : trimSpace s = ""
  · simp [nonEmpty, h, trimSpace_empty]
  · simp [nonEmpty, h]

@[simp] theorem trimSpace_primaryEmail (es : List Email) :
    trimSpace (primaryEmail es) = primaryEmail es := by
  unfold primaryEmail
  split
  · exact Store.trimSpace_trimSpace _
  · split
    · exact Store.trimSpace_trimSpace _
    · exact trimSpace_empty

theorem get_toStoreUser (u : User) (c : Column) : c.get (toStoreUser u) = c.store (cell u c) := by
  cases c with
  | givenName => cases hname : u.name <;>
      simp [Column.get, toStoreUser, Column.store, cell, hname, Name.zero, trimSpace_empty, nonEmpty]
  | familyName => cases hname : u.name <;>
      simp [Column.get, toStoreUser, Column.store, cell, hname, Name.zero, trimSpace_empty, nonEmpty]
  | email => simp [Column.get, toStoreUser, Column.store, cell]
  | _ => rfl

/-- The columns of a row that was written from a resource. -/
def Written (su : Store.User) : Prop := ∃ u : User, ∀ c : Column, c.get su = c.get (toStoreUser u)

theorem cell_fromStoreUser (su : Store.User) (baseURL : String) (c : Column) :
    cell (fromStoreUser su baseURL) c =
      match c.get su with
      | .text s => if c = .email then .text (trimSpace (s.getD "")) else .text (s.getD "")
      | .flag b => .flag b := by
  have hname : ((fromStoreUser su baseURL).name.getD .zero) =
      ⟨su.givenName.getD "", su.familyName.getD ""⟩ := by
    cases hg : su.givenName <;> cases hf : su.familyName <;> simp [fromStoreUser, hg, hf, Name.zero]
  cases c with
  | givenName => simp [cell, Column.get, hname]
  | familyName => simp [cell, Column.get, hname]
  | email =>
    cases he : su.email <;> simp [cell, Column.get, fromStoreUser, he, primaryEmail, trimSpace_empty]
  | _ => rfl

/-- A row that was written from a resource is what its own resource stores. -/
theorem store_fromStoreUser {su : Store.User} (h : Written su) (baseURL : String) (c : Column) :
    c.store (cell (fromStoreUser su baseURL) c) = c.get su := by
  obtain ⟨u, hu⟩ := h
  have hemail := trimSpace_nonEmpty_getD (primaryEmail u.emails.items)
  rw [trimSpace_primaryEmail] at hemail
  rw [cell_fromStoreUser, hu c, get_toStoreUser]
  cases c <;> simp [Column.store, cell, hemail]

/-! ### Validation -/

/-- What `validate` asks of a column. -/
def Column.Valid : Column → Cell → Prop
  | .userName, .text s => trimSpace s ≠ "" ∧ (trimSpace s).utf8ByteSize ≤ maxAttrLen
  | .givenName, .text s | .familyName, .text s | .email, .text s => s.utf8ByteSize ≤ maxAttrLen
  | _, _ => True

theorem tooLong_none {name value : String} :
    tooLong name value = none ↔ value.utf8ByteSize ≤ maxAttrLen := by
  rw [tooLong]
  split_ifs with h
  · exact ⟨nofun, fun hle => (Nat.not_lt.mpr hle h).elim⟩
  · exact ⟨fun _ => Nat.not_lt.mp h, fun _ => rfl⟩

theorem tooLong_ne_empty {name value : String} : tooLong name value ≠ some "" := by
  rw [tooLong]
  split_ifs
  · intro h
    have hsize := congrArg String.utf8ByteSize (Option.some.inj h)
    have hword : " exceeds ".utf8ByteSize = 9 := by decide
    have hempty : "".utf8ByteSize = 0 := by decide
    rw [String.utf8ByteSize_append, String.utf8ByteSize_append, String.utf8ByteSize_append, hword,
      hempty] at hsize
    omega
  · simp

theorem findSome?_tooLong {fs : List (String × String)} :
    (fs.findSome? fun f => tooLong f.1 f.2).getD "" = "" ↔ ∀ f ∈ fs, f.2.utf8ByteSize ≤ maxAttrLen := by
  induction fs with
  | nil => simp
  | cons f fs ih =>
    rw [List.findSome?_cons]
    cases hf : tooLong f.1 f.2 with
    | none =>
      rw [List.forall_mem_cons]
      have hle := tooLong_none.mp hf
      exact ⟨fun h => ⟨hle, ih.mp h⟩, fun h => ih.mpr h.2⟩
    | some m =>
      have hlong : ¬ f.2.utf8ByteSize ≤ maxAttrLen := by
        intro hle
        rw [tooLong_none.mpr hle] at hf
        cases hf
      have hne : m ≠ "" := by
        rintro rfl
        exact tooLong_ne_empty hf
      constructor
      · intro h
        exact (hne h).elim
      · intro h
        exact (hlong (h f List.mem_cons_self)).elim

/-- `validate` looks at the schemas, and at each column by itself. -/
theorem validate_iff (u : User) :
    validate u = "" ↔ userSchema ∈ u.schemas.items ∧ ∀ c : Column, c.Valid (cell u c) := by
  have hschema : "schemas must contain " ++ userSchema ≠ "" := by decide
  have hrequired : "userName is required" ≠ "" := by decide
  rw [validate]
  by_cases hs : userSchema ∉ u.schemas.items
  · rw [if_pos hs]
    exact ⟨fun h => (hschema h).elim, fun h => (hs h.1).elim⟩
  · rw [if_neg hs]
    by_cases hu : trimSpace u.userName = ""
    · rw [if_pos hu]
      exact ⟨fun h => (hrequired h).elim, fun h => ((h.2 .userName).1 hu).elim⟩
    · rw [if_neg hu, findSome?_tooLong]
      simp only [List.forall_mem_cons, List.not_mem_nil, false_implies, implies_true, and_true]
      constructor
      · rintro ⟨huser, hgiven, hfamily, hemail⟩
        refine ⟨not_not.mp hs, ?_⟩
        intro c
        cases c with
        | userName => exact ⟨hu, huser⟩
        | givenName => exact hgiven
        | familyName => exact hfamily
        | email => exact hemail
        | externalID => trivial
        | active => trivial
      · rintro ⟨-, hvalid⟩
        exact ⟨(hvalid .userName).2, hvalid .givenName, hvalid .familyName, hvalid .email⟩

theorem schemas_runAll (chs : List Change) (u : User) : (runAll chs u).schemas = u.schemas := by
  induction chs generalizing u with
  | nil => rfl
  | cons ch chs ih =>
    refine (ih (ch.run u)).trans ?_
    cases ch <;> rfl

/-- The columns of a row that was written from a resource that `validate` let pass. -/
def Validated (su : Store.User) : Prop :=
  ∃ u : User, validate u = "" ∧ ∀ c : Column, c.get su = c.get (toStoreUser u)

theorem Validated.written {su : Store.User} (h : Validated su) : Written su := by
  obtain ⟨u, -, hu⟩ := h
  exact ⟨u, hu⟩

theorem nonEmpty_getD_size {s : String} {n : Nat} (h : s.utf8ByteSize ≤ n) :
    ((nonEmpty s).getD "").utf8ByteSize ≤ n := by
  rw [nonEmpty]
  split_ifs with hs
  · exact Nat.zero_le n
  · exact h

theorem patchUser_validated {U : Unicode} {registered : Registry} {existing : Store.User}
    {baseURL : String} {ops : List Scheduled} {row : Store.User}
    (h : patchUser U registered existing baseURL ops = .ok row) : Validated row := by
  rw [patchUser] at h
  split at h
  · cases h
  · rename_i patched _
    rw [finishPatch] at h
    split_ifs at h with hvalid
    split at h
    · cases h
    · cases h
      exact ⟨patched, not_not.mp hvalid, fun c => get_blob c (toStoreUser patched) _⟩

theorem Validated.congr {su su' : Store.User} (h : Validated su)
    (hcols : ∀ c : Column, c.get su' = c.get su) : Validated su' := by
  obtain ⟨u, hvalid, hu⟩ := h
  exact ⟨u, hvalid, fun c => (hcols c).trans (hu c)⟩

/-- A user that is switched off. -/
theorem Validated.inactive {su su' : Store.User} (h : Validated su)
    (hactive : su'.active = false) (hcols : ∀ c : Column, c ≠ .active → c.get su' = c.get su) :
    Validated su' := by
  obtain ⟨u, hvalid, hu⟩ := h
  refine ⟨(Change.active false).run u, ?_, ?_⟩
  · rw [validate_iff] at hvalid ⊢
    refine ⟨hvalid.1, ?_⟩
    intro c
    rw [cell_run]
    cases c with
    | active => trivial
    | _ => exact hvalid.2 _
  · intro c
    by_cases hc : c = .active
    · subst hc
      exact congrArg Stored.flag hactive
    · rw [hcols c hc, hu c, get_toStoreUser, get_toStoreUser, cell_run]
      cases c with
      | active => exact (hc rfl).elim
      | _ => rfl

/-- Read from its row again, the resource is let pass. -/
theorem validate_fromStoreUser {su : Store.User} (h : Validated su) (baseURL : String) :
    validate (fromStoreUser su baseURL) = "" := by
  obtain ⟨u, hu, hcols⟩ := h
  obtain ⟨-, hvalid⟩ := (validate_iff u).mp hu
  rw [validate_iff]
  refine ⟨List.mem_cons_self, ?_⟩
  intro c
  rw [cell_fromStoreUser, hcols c, get_toStoreUser]
  have hc := hvalid c
  have htrim : ∀ s : String, s.utf8ByteSize ≤ maxAttrLen →
      ((nonEmpty (trimSpace s)).getD "").utf8ByteSize ≤ maxAttrLen := fun s hs =>
    nonEmpty_getD_size (Nat.le_trans (Store.utf8ByteSize_trimSpace_le s) hs)
  cases c with
  | userName => simpa [Column.Valid, Column.store, cell] using hc
  | givenName => exact htrim _ hc
  | familyName => exact htrim _ hc
  | email => exact Nat.le_trans (Store.utf8ByteSize_trimSpace_le _) (htrim _ hc)
  | externalID => trivial
  | active => trivial

end Scimage.Scim
