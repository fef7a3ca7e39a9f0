import Scimage.Scim.Changes

/-! What a PATCH names, and what it leaves as it was. -/
namespace Scimage.Scim

open Store (trimSpace)
open Json (Value Map Ranking readMap maxNestingDepth)
open Relational (Table)

/-! ### Naming -/

inductive Attribute where
  | column (c : Column)
  | extended (name : String)

/-- The sub-attributes of `name`. -/
def Column.sub : Column → Option String
  | .givenName => some "givenName"
  | .familyName => some "familyName"
  | .userName | .externalID | .active | .email => none

def Column.Keyed (key : String) : Column → Prop
  | .userName => key = "username"
  | .externalID => key = "externalid"
  | .active => key = "active"
  | .givenName => key = "name.givenname"
  | .familyName => key = "name.familyname"
  | .email => isEmailPath key = true

/-- A complex value names its members; any other value is for the whole. -/
def NamesWithin (raw : Option Value) (sub : String) : Prop :=
  ∀ ms, raw = some (.obj ms) → ∃ m ∈ ms, names sub m.1.string = true

def Step.Names (U : Unicode) (c : Column) : Step → Prop
  | .set path raw => c.Keyed (pathKey U path) ∨
    pathKey U path = "name" ∧ ∃ sub, c.sub = some sub ∧ NamesWithin raw sub
  | .clear path => c.Keyed (pathKey U path) ∨ pathKey U path = "name" ∧ c.sub ≠ none
  | .refuse _ => False

/-- By its path, by a key of a pathless object, or by a member of a complex value. -/
def Operation.Names (U : Unicode) (registered : Registry) (op : Operation) : Attribute → Prop
  | .column c => ∃ e ∈ entries U (fun _ => 0) op, e.canonical U registered = none ∧ e.step.Names U c
  | .extended name => ∃ e ∈ entries U (fun _ => 0) op, e.canonical U registered = some name

/-- The step gives `name` an object. -/
def Step.SetsName (U : Unicode) (st : Step) : Prop :=
  ∃ path ms, st = .set path (some (.obj ms)) ∧ pathKey U path = "name"

def Operation.SetsName (U : Unicode) (registered : Registry) (op : Operation) : Prop :=
  ∃ e ∈ entries U (fun _ => 0) op, e.canonical U registered = none ∧ e.step.SetsName U

/-- Up to how the markup in it is spelt. -/
def extendedValue (su : Store.User) (name : String) : Option Value :=
  (readBlob su.extendedAttributes).bind fun m => (m.find? name).map fun e => e.2.escape

def Attribute.Same (before after : Store.User) : Attribute → Prop
  | .column c => c.get after = c.get before
  | .extended name => extendedValue after name = extendedValue before name

/-! ### What a step writes -/

inductive Sets (U : Unicode) (key : String) (raw : Option Value) : Change → Prop
  | userName {s : String} (hkey : key = "username") (h : raw.bind (readString "") = some s) :
    Sets U key raw (.userName s)
  | externalID {s : String} (hkey : key = "externalid") (h : raw.bind (readString "") = some s) :
    Sets U key raw (.externalID s)
  | active {b : Bool} (hkey : key = "active") (h : raw.bind (readBool U) = some b) :
    Sets U key raw (.active b)
  | givenName {s : String} (hkey : key = "name.givenname") (h : raw.bind (readString "") = some s) :
    Sets U key raw (.givenName s)
  | familyName {s : String} (hkey : key = "name.familyname") (h : raw.bind (readString "") = some s) :
    Sets U key raw (.familyName s)
  | name {n : Name} (hkey : key = "name") (h : raw.bind (readName .zero) = some n) :
    Sets U key raw (.name n)
  | emails {es : Slice Email} (hkey : isEmailPath key = true) : Sets U key raw (.emails es)

inductive Clears (key : String) : Change → Prop
  | externalID (hkey : key = "externalid") : Clears key (.externalID "")
  | givenName (hkey : key = "name.givenname") : Clears key .clearGivenName
  | familyName (hkey : key = "name.familyname") : Clears key .clearFamilyName
  | name (hkey : key = "name") : Clears key .clearName
  | active (hkey : key = "active") : Clears key (.active true)
  | emails (hkey : isEmailPath key = true) : Clears key (.emails .nil)

theorem decode_ok {read : Value → Option α} {raw : Option Value} {e : PatchError} {a : α}
    (h : decode read raw e = .ok a) : raw.bind read = some a := by
  rw [decode] at h
  cases hread : raw.bind read with
  | none =>
    rw [hread] at h
    cases h
  | some b =>
    rw [hread] at h
    cases h
    rfl

theorem resolveSet_ok {U : Unicode} {key path : String} {raw : Option Value} {ch : Change}
    (h : resolveSet U key path raw = .ok ch) : Sets U key raw ch := by
  rw [resolveSet] at h
  split_ifs at h with huser hext hactive hgiven hfamily hname hemail
  · obtain ⟨s, hs, rfl⟩ := map_ok h
    exact .userName huser (decode_ok hs)
  · obtain ⟨s, hs, rfl⟩ := map_ok h
    exact .externalID hext (decode_ok hs)
  · obtain ⟨b, hb, rfl⟩ := map_ok h
    exact .active hactive (decode_ok hb)
  · obtain ⟨s, hs, rfl⟩ := map_ok h
    exact .givenName hgiven (decode_ok hs)
  · obtain ⟨s, hs, rfl⟩ := map_ok h
    exact .familyName hfamily (decode_ok hs)
  · obtain ⟨n, hn, rfl⟩ := map_ok h
    exact .name hname (decode_ok hn)
  · obtain ⟨es, -, rfl⟩ := map_ok h
    exact .emails hemail

theorem resolveClear_ok {key path : String} {ch : Change} (h : resolveClear key path = .ok ch) :
    Clears key ch := by
  rw [resolveClear] at h
  split_ifs at h with hempty hext hgiven hfamily hname hactive hemail
  · cases h
    exact .externalID hext
  · cases h
    exact .givenName hgiven
  · cases h
    exact .familyName hfamily
  · cases h
    exact .name hname
  · cases h
    exact .active hactive
  · cases h
    exact .emails hemail

def Name.part (n : Name) : Column → String
  | .familyName => n.familyName
  | _ => n.givenName

/-- A member that the object does not have keeps the value it is read over. -/
theorem part_unnamed {ms : List (Json.Text × Value)} {old n : Name} {c : Column} {sub : String}
    (h : ms.foldlM (fun n m => Name.set n m.1.string m.2) old = some n) (hsub : c.sub = some sub)
    (hno : ∀ m ∈ ms, names sub m.1.string = false) : n.part c = old.part c := by
  refine readStruct_keeps (P := fun n => n.part c = old.part c) ?_ rfl h
  intro m hm a b ha hb
  have hskip := hno m hm
  rw [Name.set] at hb
  split_ifs at hb with hgiven hfamily
  · obtain ⟨s, -, rfl⟩ := Option.map_eq_some_iff.mp hb
    cases c with
    | familyName => exact ha
    | givenName =>
      obtain rfl := Option.some.inj hsub
      rw [hgiven] at hskip
      cases hskip
    | _ => cases hsub
  · obtain ⟨s, -, rfl⟩ := Option.map_eq_some_iff.mp hb
    cases c with
    | givenName => exact ha
    | familyName =>
      obtain rfl := Option.some.inj hsub
      rw [hfamily] at hskip
      cases hskip
    | _ => cases hsub
  · cases hb
    exact ha

theorem name_writes {n : Name} {c : Column} {w : Cell} (h : (Change.name n).writes c = some w) :
    c.sub ≠ none ∧ w = .text (n.part c) := by
  cases c <;> cases h <;> exact ⟨by simp [Column.sub], rfl⟩

theorem writes_name {n : Name} {c : Column} (h : c.sub ≠ none) :
    (Change.name n).writes c = some (.text (n.part c)) := by
  cases c with
  | givenName => rfl
  | familyName => rfl
  | _ => exact (h rfl).elim

/-- An object for `name` writes nothing into a sub-attribute that it does not name. -/
theorem setsName_writes {U : Unicode} {st : Step} {ch : Change} {c : Column}
    (hres : resolve U st = .ok ch) (hst : st.SetsName U) (hsub : c.sub ≠ none)
    (hnot : ¬ st.Names U c) : ch.writes c = some (.text "") := by
  obtain ⟨path, ms, rfl, hkey⟩ := hst
  have hsets := resolveSet_ok hres
  rw [hkey] at hsets
  cases hsets with
  | name _ h =>
    obtain ⟨sub, hc⟩ := Option.ne_none_iff_exists'.mp hsub
    have hno : ∀ m ∈ ms, names sub m.1.string = false := by
      intro m hm
      by_contra hname
      refine hnot (Or.inr ⟨hkey, sub, hc, ?_⟩)
      intro ms' hms'
      cases hms'
      exact ⟨m, hm, by simpa using hname⟩
    rw [writes_name hsub, part_unnamed h hc hno]
    cases c <;> rfl
  | userName h => exact absurd h (by decide)
  | externalID h => exact absurd h (by decide)
  | active h => exact absurd h (by decide)
  | givenName h => exact absurd h (by decide)
  | familyName h => exact absurd h (by decide)
  | emails h => exact absurd h (by decide)

/-- The column of a change that has just one. -/
def Change.only : Change → Option Column
  | .userName _ => some .userName
  | .externalID _ => some .externalID
  | .active _ => some .active
  | .givenName _ | .clearGivenName => some .givenName
  | .familyName _ | .clearFamilyName => some .familyName
  | .emails _ => some .email
  | .name _ | .clearName => none

theorem eq_of_only {ch : Change} {c d : Column} (h : ch.only = some d) (hw : ch.writes c ≠ none) :
    c = d := by
  cases ch <;> cases h <;> cases c <;> first | rfl | exact (hw rfl).elim

theorem sets_names {U : Unicode} {path : String} {raw : Option Value} {ch : Change} {c : Column}
    (h : Sets U (pathKey U path) raw ch) (hw : ch.writes c ≠ none) :
    (Step.set path raw).Names U c ∨ (Step.set path raw).SetsName U ∧ c.sub ≠ none := by
  cases h with
  | userName hkey =>
    obtain rfl := eq_of_only rfl hw
    exact Or.inl (Or.inl hkey)
  | externalID hkey =>
    obtain rfl := eq_of_only rfl hw
    exact Or.inl (Or.inl hkey)
  | active hkey =>
    obtain rfl := eq_of_only rfl hw
    exact Or.inl (Or.inl hkey)
  | givenName hkey =>
    obtain rfl := eq_of_only rfl hw
    exact Or.inl (Or.inl hkey)
  | familyName hkey =>
    obtain rfl := eq_of_only rfl hw
    exact Or.inl (Or.inl hkey)
  | emails hkey =>
    obtain rfl := eq_of_only rfl hw
    exact Or.inl (Or.inl hkey)
  | name hkey h =>
    obtain ⟨w, hw⟩ := Option.ne_none_iff_exists'.mp hw
    obtain ⟨hsub, -⟩ := name_writes hw
    by_cases hobj : ∃ ms, raw = some (.obj ms)
    · obtain ⟨ms, rfl⟩ := hobj
      exact Or.inr ⟨⟨path, ms, rfl, hkey⟩, hsub⟩
    · obtain ⟨sub, hc⟩ := Option.ne_none_iff_exists'.mp hsub
      exact Or.inl (Or.inr ⟨hkey, sub, hc, fun ms hms => (hobj ⟨ms, hms⟩).elim⟩)

theorem clears_names {U : Unicode} {path : String} {ch : Change} {c : Column}
    (h : Clears (pathKey U path) ch) (hw : ch.writes c ≠ none) : (Step.clear path).Names U c := by
  cases h with
  | externalID hkey =>
    obtain rfl := eq_of_only rfl hw
    exact Or.inl hkey
  | givenName hkey =>
    obtain rfl := eq_of_only rfl hw
    exact Or.inl hkey
  | familyName hkey =>
    obtain rfl := eq_of_only rfl hw
    exact Or.inl hkey
  | active hkey =>
    obtain rfl := eq_of_only rfl hw
    exact Or.inl hkey
  | emails hkey =>
    obtain rfl := eq_of_only rfl hw
    exact Or.inl hkey
  | name hkey =>
    refine Or.inr ⟨hkey, ?_⟩
    cases c with
    | givenName => simp [Column.sub]
    | familyName => simp [Column.sub]
    | _ => exact (hw rfl).elim

/-- What writes into a column names it, or is an object for `name`. -/
theorem writes_names {U : Unicode} {st : Step} {ch : Change} {c : Column}
    (hres : resolve U st = .ok ch) (hw : ch.writes c ≠ none) :
    st.Names U c ∨ st.SetsName U ∧ c.sub ≠ none := by
  cases st with
  | refuse e => cases hres
  | clear path => exact Or.inl (clears_names (resolveClear_ok hres) hw)
  | set path raw => exact sets_names (resolveSet_ok hres) hw

/-! ### The columns of a row -/

theorem entries_mem {U : Unicode} {ω ω' : Ranking} {op : Operation} {e : Entry}
    (h : e ∈ entries U ω op) : e ∈ entries U ω' op := by
  rw [entries] at h ⊢
  split_ifs at h ⊢
  · exact h
  · exact h
  · cases hobj : op.value.bind readMap with
    | none =>
      rw [hobj] at h
      exact h
    | some attrs =>
      rw [hobj] at h
      obtain ⟨a, ha, rfl⟩ := List.mem_map.mp h
      exact List.mem_map_of_mem (Json.mem_range.mpr (Json.mem_range.mp ha))

theorem mem_coreSteps {U : Unicode} {registered : Registry} {s : Scheduled} {st : Step} :
    st ∈ coreSteps U registered s ↔ ∃ e ∈ entries U (fun _ => 0) s.op,
      e.canonical U registered = none ∧ e.step = st := by
  rw [coreSteps, List.mem_filterMap]
  constructor
  · rintro ⟨e, he, hcore⟩
    rw [Entry.core] at hcore
    split_ifs at hcore with hnone
    exact ⟨e, entries_mem he, Option.isNone_iff_eq_none.mp hnone, Option.some.inj hcore⟩
  · rintro ⟨e, he, hnone, rfl⟩
    refine ⟨e, entries_mem he, ?_⟩
    rw [Entry.core, hnone]
    rfl

variable {U : Unicode} {registered : Registry} {existing row : Store.User} {baseURL : String}
  {ops : List Scheduled} {chs : List Change} {c : Column}

/-- What writes into a column that no operation names is an object for `name`. -/
theorem unnamed_writes (hres : resolveAll U (ops.flatMap (coreSteps U registered)) = .ok chs)
    (hnot : ∀ s ∈ ops, ¬ s.op.Names U registered (.column c)) {ch : Change} (hch : ch ∈ chs) :
    ch.writes c = none ∨ ch.writes c = some (.text "") ∧ c.sub ≠ none ∧
      ∃ s ∈ ops, s.op.SetsName U registered := by
  by_cases hw : ch.writes c = none
  · exact Or.inl hw
  · obtain ⟨st, hst, hch⟩ := (mem_resolveAll hres).mp hch
    obtain ⟨s, hs, hst⟩ := List.mem_flatMap.mp hst
    obtain ⟨e, he, hnone, rfl⟩ := mem_coreSteps.mp hst
    have hunnamed : ¬ e.step.Names U c := fun h => hnot s hs ⟨e, he, hnone, h⟩
    obtain ⟨hset, hsub⟩ := (writes_names hch hw).resolve_left hunnamed
    exact Or.inr ⟨setsName_writes hch hset hsub hunnamed, hsub, s, hs, e, he, hnone, hset⟩

theorem setsName_change (hres : resolveAll U (ops.flatMap (coreSteps U registered)) = .ok chs)
    (hnot : ∀ s ∈ ops, ¬ s.op.Names U registered (.column c)) (hsub : c.sub ≠ none)
    (hset : ∃ s ∈ ops, s.op.SetsName U registered) : ∃ ch ∈ chs, ch.writes c = some (.text "") := by
  obtain ⟨s, hs, e, he, hnone, hset⟩ := hset
  have hst : e.step ∈ ops.flatMap (coreSteps U registered) :=
    List.mem_flatMap.mpr ⟨s, hs, mem_coreSteps.mpr ⟨e, he, hnone, rfl⟩⟩
  obtain ⟨ch, hch⟩ := resolveAll_of_mem hres hst
  exact ⟨ch, (mem_resolveAll hres).mpr ⟨e.step, hst, hch⟩,
    setsName_writes hch hset hsub fun h => hnot s hs ⟨e, he, hnone, h⟩⟩

/-- An object for `name` empties the sub-attribute that no operation names. -/
theorem unnamed_emptied (hres : resolveAll U (ops.flatMap (coreSteps U registered)) = .ok chs)
    (hnot : ∀ s ∈ ops, ¬ s.op.Names U registered (.column c)) (hsub : c.sub ≠ none)
    (hset : ∃ s ∈ ops, s.op.SetsName U registered) :
    c.get (toStoreUser (runAll chs (fromStoreUser existing baseURL))) = .text none := by
  have hcell : cell (runAll chs (fromStoreUser existing baseURL)) c = .text "" := by
    refine cell_written ?_ (setsName_change hres hnot hsub hset) _
    intro ch hch
    exact (unnamed_writes hres hnot hch).imp_right And.left
  rw [get_toStoreUser, hcell]
  cases c with
  | userName => exact (hsub rfl).elim
  | _ => simp [Column.store, trimSpace_empty, nonEmpty]

theorem unnamed_kept (hwritten : Written existing)
    (hres : resolveAll U (ops.flatMap (coreSteps U registered)) = .ok chs)
    (hnot : ∀ s ∈ ops, ¬ s.op.Names U registered (.column c))
    (hset : c.sub ≠ none → ¬ ∃ s ∈ ops, s.op.SetsName U registered) :
    c.get (toStoreUser (runAll chs (fromStoreUser existing baseURL))) = c.get existing := by
  rw [get_toStoreUser, cell_unwritten, store_fromStoreUser hwritten]
  intro ch hch
  rcases unnamed_writes hres hnot hch with hnone | ⟨-, hsub, hs⟩
  · exact hnone
  · exact (hset hsub hs).elim

/-! ### The blob of a row -/

/-- The operations of a request that the decoder has read. -/
def Requests (v : Value) (ops : List Scheduled) : Prop :=
  ∃ p, readPatch v = some p ∧ ops.map Scheduled.op = p.operations.items

theorem operation_set_depth {v x : Value} {o o' : Operation} {key : String} (hx : x.depth < v.depth)
    (ho : ∀ w, o.value = some w → w.depth < v.depth) (h : o.set key x = some o') :
    ∀ w, o'.value = some w → w.depth < v.depth := by
  rw [Operation.set] at h
  split_ifs at h
  · obtain ⟨s, -, rfl⟩ := Option.map_eq_some_iff.mp h
    exact ho
  · obtain ⟨s, -, rfl⟩ := Option.map_eq_some_iff.mp h
    exact ho
  · cases h
    intro w hw
    cases hw
    exact hx
  · cases h
    exact ho

theorem operation_depth {v x : Value} {o o' : Operation} (hx : x.depth < v.depth)
    (ho : ∀ w, o.value = some w → w.depth < v.depth)
    (h : readStruct Operation.set o x = some o') : ∀ w, o'.value = some w → w.depth < v.depth := by
  unfold readStruct at h
  split at h
  · cases h
    exact ho
  · rename_i ms
    refine readStruct_keeps (P := fun o => ∀ w, Operation.value o = some w → w.depth < v.depth) ?_ ho h
    intro m hm a b ha hb
    exact operation_set_depth (Nat.lt_trans (Json.depth_lt_of_member hm) hx) ha hb
  · cases h

/-- A raw value lies deeper in the request than the request itself. -/
theorem requests_depth {v : Value} (h : Requests v ops) :
    ∀ s ∈ ops, ∀ w, s.op.value = some w → w.depth < v.depth := by
  obtain ⟨p, hp, hops⟩ := h
  have hall : p.operations.All fun o => ∀ w, o.value = some w → w.depth < v.depth := by
    unfold readPatch readStruct at hp
    split at hp
    · cases hp
      simp [Slice.All, PatchOp.zero, Slice.nil]
    · rename_i ms
      refine readStruct_keeps (P := fun p : PatchOp => p.operations.All fun o =>
        ∀ w, o.value = some w → w.depth < (Value.obj ms).depth) ?_ ?_ hp
      · intro m hm a b ha hb
        have hdepth := Json.depth_lt_of_member hm
        rw [PatchOp.set] at hb
        split_ifs at hb
        · obtain ⟨s, -, rfl⟩ := Option.map_eq_some_iff.mp hb
          exact ha
        · obtain ⟨s, hs, rfl⟩ := Option.map_eq_some_iff.mp hb
          refine readSlice_keeps ?_ (by simp [Operation.zero]) ha hs
          intro xs hxs x hx o o' ho ho'
          rw [hxs] at hdepth
          exact operation_depth (Nat.lt_trans (Json.depth_lt_of_mem hx) hdepth) ho ho'
        · cases hb
          exact ha
      · simp [Slice.All, PatchOp.zero, Slice.nil]
    · cases hp
  intro s hs
  have hitem : s.op ∈ p.operations.items := hops ▸ List.mem_map_of_mem hs
  exact hall s.op (List.mem_append_left _ hitem)

theorem entry_depth {U : Unicode} {ω : Ranking} {op : Operation} {e : Entry} {w : Value}
    (he : e ∈ entries U ω op) (hw : e.raw = some w) :
    ∃ x, op.value = some x ∧ w.depth ≤ x.depth := by
  rw [entries] at he
  split_ifs at he
  · obtain rfl := List.mem_singleton.mp he
    exact ⟨w, hw, Nat.le_refl _⟩
  · obtain rfl := List.mem_singleton.mp he
    exact ⟨w, hw, Nat.le_refl _⟩
  · cases hobj : op.value.bind readMap with
    | none =>
      rw [hobj] at he
      obtain rfl := List.mem_singleton.mp he
      exact ⟨w, hw, Nat.le_refl _⟩
    | some attrs =>
      rw [hobj] at he
      obtain ⟨a, ha, rfl⟩ := List.mem_map.mp he
      obtain ⟨x, hx, hmap⟩ := Option.bind_eq_some_iff.mp hobj
      obtain rfl := Option.some.inj hw
      refine ⟨x, hx, ?_⟩
      cases x with
      | obj ms =>
        cases hmap
        obtain ⟨m, hm, rfl⟩ := Json.of_mem (Json.mem_range.mp ha)
        exact Nat.le_of_lt (Json.depth_lt_of_member hm)
      | null =>
        cases hmap
        cases Json.mem_range.mp ha
      | _ => cases hmap

theorem mem_extendedSteps {U : Unicode} {registered : Registry} {s : Scheduled} {o : ExtendedOp} :
    o ∈ extendedSteps U registered s ↔ ∃ e ∈ entries U (fun _ => 0) s.op,
      e.canonical U registered = some o.name ∧ o = ⟨s.op.action U, o.name, e.raw⟩ := by
  rw [extendedSteps, List.mem_filterMap]
  constructor
  · rintro ⟨e, he, hext⟩
    obtain ⟨canon, hcanon, rfl⟩ := Option.map_eq_some_iff.mp hext
    exact ⟨e, entries_mem he, hcanon, rfl⟩
  · rintro ⟨e, he, hcanon, ho⟩
    refine ⟨e, entries_mem he, ?_⟩
    rw [Entry.extended, hcanon, Option.map_some, ← ho]

/-- What a map holds lies deep enough below the limit to be marshalled. -/
def Shallow (m : Map) : Prop := ∀ e ∈ m.rows, e.2.depth < maxNestingDepth

theorem shallow_blob {raw : String} {m : Map} (h : readBlob raw = some m) : Shallow m := by
  unfold readBlob at h
  split_ifs at h
  · cases h
    intro e he
    cases he
  · split at h
    · rename_i ms hread
      cases h
      intro e he
      obtain ⟨a, ha, rfl⟩ := Json.of_mem he
      exact Nat.lt_of_lt_of_le (Json.depth_lt_of_member ha) (Json.depth_of_read hread)
    · cases h

theorem shallow_apply {m : Map} {o : ExtendedOp} (hm : Shallow m)
    (ho : ∀ w, o.value = some w → w.depth < maxNestingDepth) : Shallow (o.apply m) := by
  rw [ExtendedOp.apply]
  split_ifs
  · intro e he
    rcases Json.put_mem he with rfl | he
    · cases hv : o.value with
      | none =>
        have hroom : 0 < maxNestingDepth := by decide
        exact hroom
      | some w => exact ho w hv
    · exact hm e he
  · intro e he
    exact hm e (List.mem_of_mem_filter he)
  · exact hm

theorem shallow_applyAll {m : Map} {os : List ExtendedOp} (hm : Shallow m)
    (hos : ∀ o ∈ os, ∀ w, o.value = some w → w.depth < maxNestingDepth) :
    Shallow (os.foldl ExtendedOp.apply m) := by
  induction os generalizing m with
  | nil => exact hm
  | cons o os ih =>
    exact ih (shallow_apply hm (hos o List.mem_cons_self)) fun o' ho' =>
      hos o' (List.mem_cons_of_mem o ho')

theorem apply_other {m : Map} {o : ExtendedOp} {k : String} (h : o.name ≠ k) :
    (o.apply m).find? k = m.find? k := by
  rw [ExtendedOp.apply]
  split_ifs
  · rw [Table.find?_put, if_neg fun he => h he.symm]
  · rw [Table.find?_remove, if_neg fun he => h he.symm]
  · rfl

theorem applyAll_other {m : Map} {os : List ExtendedOp} {k : String} (h : ∀ o ∈ os, o.name ≠ k) :
    (os.foldl ExtendedOp.apply m).find? k = m.find? k := by
  induction os generalizing m with
  | nil => rfl
  | cons o os ih =>
    rw [List.foldl_cons, ih fun o' ho' => h o' (List.mem_cons_of_mem o ho'),
      apply_other (h o List.mem_cons_self)]

/-- What is written of a map is found in it again. -/
theorem readBlob_marshal {m : Map} (hm : Shallow m) : ∃ n, readBlob (marshal m) = some n ∧
    n.rows.Perm (m.rows.map fun e => (e.1, e.2.escape)) := by
  obtain ⟨ms, n, hread, rfl, hperm⟩ := Json.read_json hm
  refine ⟨_, ?_, hperm⟩
  obtain ⟨c, cs, hw, -, -⟩ := Json.write_head m.json
  have hne : marshal m ≠ "" := by
    intro he
    have hchars := congrArg String.toList he
    rw [marshal, String.toList_ofList, hw] at hchars
    cases hchars
  rw [readBlob, if_neg hne, marshal, String.toList_ofList, hread]

theorem extendedValue_edited {m : Map} (hm : Shallow m) (su : Store.User) (k : String) :
    extendedValue { su with extendedAttributes := if m.rows = [] then "" else marshal m } k =
      (m.find? k).map fun e => e.2.escape := by
  rw [extendedValue]
  dsimp only
  split_ifs with hrows
  · have hfind : m.find? k = none := by
      rw [Table.find?, hrows]
      rfl
    rw [hfind]
    rfl
  · obtain ⟨n, hn, hperm⟩ := readBlob_marshal hm
    rw [hn, Option.bind_some, Json.find?_of_perm hperm, Option.map_map]
    congr 1
    funext e
    exact Json.escape_escape e.2

/-- The key that no operation names keeps its value. -/
theorem unnamed_extended {v : Value} {k : String} {blob : String} {su : Store.User}
    (hv : v.depth ≤ maxNestingDepth) (hreq : Requests v ops)
    (hblob : applyExtendedOps existing.extendedAttributes
      (ops.flatMap (extendedSteps U registered)) = some blob)
    (hnot : ∀ s ∈ ops, ¬ s.op.Names U registered (.extended k)) :
    extendedValue { su with extendedAttributes := blob } k = extendedValue existing k := by
  have hnames : ∀ o ∈ ops.flatMap (extendedSteps U registered), o.name ≠ k := by
    rintro o ho rfl
    obtain ⟨s, hs, ho⟩ := List.mem_flatMap.mp ho
    obtain ⟨e, he, hcanon, -⟩ := mem_extendedSteps.mp ho
    exact hnot s hs ⟨e, he, hcanon⟩
  have hdepth : ∀ o ∈ ops.flatMap (extendedSteps U registered), ∀ w, o.value = some w →
      w.depth < maxNestingDepth := by
    intro o ho w hw
    obtain ⟨s, hs, ho⟩ := List.mem_flatMap.mp ho
    obtain ⟨e, he, -, heq⟩ := mem_extendedSteps.mp ho
    rw [heq] at hw
    obtain ⟨x, hx, hle⟩ := entry_depth he hw
    have hlt := requests_depth hreq s hs x hx
    omega
  rw [applyExtendedOps] at hblob
  split_ifs at hblob
  · cases hblob
    rfl
  · obtain ⟨m, hm, hblob⟩ := Option.bind_eq_some_iff.mp hblob
    cases hblob
    rw [extendedValue_edited (shallow_applyAll (shallow_blob hm) hdepth), applyAll_other hnames,
      extendedValue, hm]
    rfl

/-! ### A whole PATCH -/

/-- A PATCH leaves everything that it does not name, unless it gives `name` an object that leaves
out a sub-attribute that is stored. -/
theorem patch_frame (U : Unicode) (registered : Registry) (existing row : Store.User)
    (baseURL : String) (ops : List Scheduled) (v : Value) (hwritten : Written existing)
    (hv : v.depth ≤ maxNestingDepth) (hreq : Requests v ops)
    (hok : patchUser U registered existing baseURL ops = .ok row) :
    (∀ a : Attribute, (∀ s ∈ ops, ¬ s.op.Names U registered a) → a.Same existing row) ↔
      ∀ c : Column, c.sub ≠ none → (∃ s ∈ ops, s.op.Names U registered (.column c)) ∨
        c.get existing = .text none ∨ ¬ ∃ s ∈ ops, s.op.SetsName U registered := by
  obtain ⟨chs, blob, hres, hblob, rfl⟩ := patchUser_ok hok
  constructor
  · intro hframe c hsub
    by_contra hno
    simp only [not_or, not_not] at hno
    obtain ⟨hunnamed, hstored, hset⟩ := hno
    have hnot : ∀ s ∈ ops, ¬ s.op.Names U registered (.column c) :=
      fun s hs hname => hunnamed ⟨s, hs, hname⟩
    have hsame := hframe (.column c) hnot
    rw [Attribute.Same, get_blob, unnamed_emptied hres hnot hsub hset] at hsame
    exact hstored hsame.symm
  · intro hcond a hnot
    cases a with
    | extended k => exact unnamed_extended hv hreq hblob hnot
    | column c =>
      rw [Attribute.Same, get_blob]
      by_cases hsub : c.sub = none
      · exact unnamed_kept hwritten hres hnot fun h => (h hsub).elim
      · rcases hcond c hsub with ⟨s, hs, hname⟩ | hnone | hset
        · exact (hnot s hs hname).elim
        · by_cases hset : ∃ s ∈ ops, s.op.SetsName U registered
          · rw [unnamed_emptied hres hnot hsub hset, hnone]
          · exact unnamed_kept hwritten hres hnot fun _ => hset
        · exact unnamed_kept hwritten hres hnot fun _ => hset

def annLee : Store.User :=
  ⟨"u1", "ann", none, some "Ann", some "Lee", none, true, 0, 0, ""⟩

theorem written_annLee : Written annLee := by
  refine ⟨fromStoreUser annLee "", ?_⟩
  intro c
  cases c <;> decide

def familyNameOnly : Operation :=
  ⟨"replace", "name", some (.obj (field "familyName" (string "Ray")))⟩

def familyNameRequest : Value :=
  .obj (field "Operations" (.arr [.obj (field "op" (string "replace") ++ field "path" (string "name") ++
    field "value" (.obj (field "familyName" (string "Ray"))))]))

/-- The given name goes although only the family name is named. -/
theorem name_object_loses_sibling : Written annLee ∧ ∃ row,
    patchUser .plain .empty annLee "" [.sorted familyNameOnly] = .ok row ∧
    ¬ familyNameOnly.Names .plain .empty (.column .givenName) ∧
    ¬ (Attribute.column .givenName).Same annLee row := by
  refine ⟨written_annLee, { annLee with id := "", givenName := none, familyName := some "Ray" },
    by rfl, ?_, ?_⟩
  · have hentries : entries .plain (fun _ => 0) familyNameOnly =
        [⟨some "name", familyNameOnly.value, .set "name" familyNameOnly.value⟩] := by rfl
    rintro ⟨e, he, -, hname⟩
    rw [hentries, List.mem_singleton] at he
    subst he
    rcases hname with hkey | ⟨-, sub, hsub, hwithin⟩
    · have hne : pathKey .plain "name" ≠ "name.givenname" := by decide
      exact hne hkey
    · obtain rfl := Option.some.inj hsub
      obtain ⟨m, hm, hnames⟩ := hwithin _ rfl
      obtain rfl := List.mem_singleton.mp hm
      revert hnames
      decide
  · intro h
    cases h

theorem patch_frame_familyName :
    (∀ a : Attribute, (∀ s ∈ [Scheduled.sorted familyNameOnly], ¬ s.op.Names .plain .empty a) →
      a.Same annLee { annLee with id := "", givenName := none, familyName := some "Ray" }) ↔
      ∀ c : Column, c.sub ≠ none →
        (∃ s ∈ [Scheduled.sorted familyNameOnly], s.op.Names .plain .empty (.column c)) ∨
        c.get annLee = .text none ∨
        ¬ ∃ s ∈ [Scheduled.sorted familyNameOnly], s.op.SetsName .plain .empty :=
  patch_frame .plain .empty annLee _ "" _ familyNameRequest written_annLee (by decide)
    ⟨⟨.nil, .of [familyNameOnly]⟩, by rfl, rfl⟩ (by rfl)

end Scimage.Scim
