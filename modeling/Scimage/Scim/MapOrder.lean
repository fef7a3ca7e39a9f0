import Scimage.Lib.Overlay
import Scimage.Scim.Batch

/-! Which results depend on the order in which the keys of an object are gone over. -/
namespace Scimage.Scim

open Store (trimSpace)
open Relational (Table)
open Json (Value Map Ranking readMap maxNestingDepth)
open Overlay (run judge values Settled Hopeless)

/-! ### Orders of an operation -/

theorem exists_perm_filterMap {α β : Type} {f : α → Option β} {c : List β} {l : List α}
    (h : c.Perm (l.filterMap f)) : ∃ l' : List α, l'.Perm l ∧ l'.filterMap f = c := by
  induction c generalizing l with
  | nil => exact ⟨l, .refl l, h.nil_eq.symm⟩
  | cons x c ih =>
    obtain ⟨a, ha, hx⟩ := List.mem_filterMap.mp (h.mem_iff.mp List.mem_cons_self)
    obtain ⟨s, t, rfl⟩ := List.append_of_mem ha
    have hmiddle : ((s ++ a :: t).filterMap f).Perm ((a :: (s ++ t)).filterMap f) :=
      List.perm_middle.filterMap f
    rw [List.filterMap_cons_some hx] at hmiddle
    obtain ⟨l', hl', hc⟩ := ih (h.trans hmiddle).cons_inv
    refine ⟨a :: l', (hl'.cons a).trans List.perm_middle.symm, ?_⟩
    rw [List.filterMap_cons_some hx, hc]

theorem exists_perm_map {α β : Type} {f : α → β} {c : List β} {l : List α}
    (h : c.Perm (l.map f)) : ∃ l' : List α, l'.Perm l ∧ l'.map f = c := by
  rw [← List.filterMap_eq_map] at h
  obtain ⟨l', hl', hc⟩ := exists_perm_filterMap h
  rw [List.filterMap_eq_map] at hc
  exact ⟨l', hl', hc⟩

/-- One item whatever the order, or the keys of an object in it. -/
def OneOrKeys {α : Type} (f : Ranking → List α) : Prop :=
  (∃ x, ∀ ω, f ω = [x]) ∨ ∃ (attrs : Map) (g : String × Value → α), ∀ ω, f ω = (attrs.range ω).map g

theorem OneOrKeys.perm {α : Type} {f : Ranking → List α} (h : OneOrKeys f) (ω ω' : Ranking) :
    (f ω).Perm (f ω') := by
  rcases h with ⟨x, hx⟩ | ⟨attrs, g, hattrs⟩
  · rw [hx, hx]
  · rw [hattrs, hattrs]
    exact ((Json.range_perm ω attrs).trans (Json.range_perm ω' attrs).symm).map _

theorem OneOrKeys.exists_order {α : Type} {f : Ranking → List α} (h : OneOrKeys f) {ω : Ranking}
    {xs : List α} (hp : xs.Perm (f ω)) : ∃ ω', f ω' = xs := by
  rcases h with ⟨x, hx⟩ | ⟨attrs, g, hattrs⟩
  · rw [hx] at hp
    exact ⟨ω, (hx ω).trans (List.perm_singleton.mp hp).symm⟩
  · rw [hattrs] at hp
    obtain ⟨es, hes, rfl⟩ := exists_perm_map hp
    obtain ⟨ω', hω'⟩ := Json.exists_range (hes.trans (Json.range_perm ω attrs))
    exact ⟨ω', by rw [hattrs, hω']⟩

theorem entries_oneOrKeys (U : Unicode) (op : Operation) : OneOrKeys fun ω => entries U ω op := by
  simp only [entries]
  split_ifs
  · exact Or.inl ⟨_, fun _ => rfl⟩
  · exact Or.inl ⟨_, fun _ => rfl⟩
  · cases op.value.bind readMap with
    | none => exact Or.inl ⟨_, fun _ => rfl⟩
    | some attrs => exact Or.inr ⟨attrs, .ofMember, fun _ => rfl⟩

variable {U : Unicode} {registered : Registry}

theorem coreSteps_perm {s s' : Scheduled} (h : s.op = s'.op) :
    (coreSteps U registered s).Perm (coreSteps U registered s') := by
  rw [coreSteps, coreSteps, h]
  exact ((entries_oneOrKeys U s'.op).perm _ _).filterMap _

theorem extendedSteps_perm {s s' : Scheduled} (h : s.op = s'.op) :
    (extendedSteps U registered s).Perm (extendedSteps U registered s') := by
  rw [extendedSteps, extendedSteps, h]
  exact ((entries_oneOrKeys U s'.op).perm _ _).filterMap _

/-- The two loops over an object may each take any order. -/
theorem exists_scheduled {op : Operation} {c : List Step} {d : List ExtendedOp}
    (hc : c.Perm (coreSteps U registered (.sorted op)))
    (hd : d.Perm (extendedSteps U registered (.sorted op))) : ∃ s : Scheduled, s.op = op ∧
      coreSteps U registered s = c ∧ extendedSteps U registered s = d := by
  obtain ⟨es, hes, rfl⟩ := exists_perm_filterMap hc
  obtain ⟨fs, hfs, rfl⟩ := exists_perm_filterMap hd
  obtain ⟨ω, rfl⟩ := (entries_oneOrKeys U op).exists_order hes
  obtain ⟨ω', rfl⟩ := (entries_oneOrKeys U op).exists_order hfs
  exact ⟨⟨op, ω', ω⟩, rfl, rfl, rfl⟩

/-! ### What a PATCH of a user writes to -/

/-- A column, or a name among the extended attributes. -/
inductive Place where
  | column (c : Column)
  | extended (name : String)

/-- What is stored of a place; and of a column, whether `validate` lets pass what it holds. -/
inductive Held where
  | column (s : Stored) (valid : Prop)
  | extended (v : Option Value)

inductive Item where
  | core (st : Step)
  | extended (o : ExtendedOp)

def Change.places (ch : Change) : Place → Option Held
  | .column c => (ch.writes c).map fun x => .column (c.store x) (c.Valid x)
  | .extended _ => none

def ExtendedOp.places (o : ExtendedOp) : Place → Option Held
  | .column _ => none
  | .extended k =>
    if k = o.name then
      if o.op = "add" ∨ o.op = "replace" then some (.extended (some (o.value.getD .null).escape))
      else if o.op = "remove" then some (.extended none)
      else none
    else none

/-- The scimType with which an item is refused, or what it writes. -/
def Item.read (U : Unicode) : Item → Except String (Place → Option Held)
  | .core st =>
    match resolve U st with
    | .error e => .error (Refusal.patch e).scimType
    | .ok ch => .ok ch.places
  | .extended o => .ok o.places

def content (m : Map) (k : String) : Option Value := (m.find? k).map fun e => e.2.escape

def held (u : User) (m : Map) : Place → Held
  | .column c => .column (c.store (cell u c)) (c.Valid (cell u c))
  | .extended k => .extended (content m k)

theorem held_run (ch : Change) (u : User) (m : Map) :
    Overlay.write ch.places (held u m) = held (ch.run u) m := by
  funext p
  cases p with
  | column c =>
    rw [Overlay.write, held, Change.places, held, cell_run]
    cases ch.writes c <;> rfl
  | extended k => rfl

theorem held_apply (o : ExtendedOp) (u : User) (m : Map) :
    Overlay.write o.places (held u m) = held u (o.apply m) := by
  funext p
  cases p with
  | column c => rfl
  | extended k =>
    rw [Overlay.write, held, ExtendedOp.places, held, ExtendedOp.apply]
    by_cases hvalue : o.op = "add" ∨ o.op = "replace"
    · rw [if_pos hvalue, if_pos hvalue, content, content, Table.find?_put]
      by_cases hk : k = o.name
      · rw [if_pos hk, if_pos hk]
        rfl
      · rw [if_neg hk, if_neg hk]
        rfl
    · rw [if_neg hvalue, if_neg hvalue]
      by_cases hremove : o.op = "remove"
      · rw [if_pos hremove, if_pos hremove, content, content, Table.find?_remove]
        by_cases hk : k = o.name
        · rw [if_pos hk, if_pos hk]
          rfl
        · rw [if_neg hk, if_neg hk]
          rfl
      · rw [if_neg hremove, if_neg hremove]
        by_cases hk : k = o.name
        · rw [if_pos hk]
          rfl
        · rw [if_neg hk]
          rfl

theorem run_core (sts : List Step) (u : User) (m : Map) :
    run (Item.read U) (sts.map .core) (.ok (held u m)) =
      match resolveAll U sts with
      | .error e => .error (Refusal.patch e).scimType
      | .ok chs => .ok (held (runAll chs u) m) := by
  induction sts generalizing u with
  | nil => rfl
  | cons st sts ih =>
    rw [List.map_cons, resolveAll]
    cases hst : resolve U st with
    | error e =>
      have hread : Item.read U (.core st) = .error (Refusal.patch e).scimType := by
        rw [Item.read, hst]
      exact Overlay.run_first hread _
    | ok ch =>
      have hread : Item.read U (.core st) = .ok ch.places := by
        rw [Item.read, hst]
      rw [Overlay.run_next hread, held_run, ih]
      cases resolveAll U sts <;> rfl

theorem run_extended (os : List ExtendedOp) (u : User) (m : Map) :
    run (Item.read U) (os.map .extended) (.ok (held u m)) =
      .ok (held u (os.foldl ExtendedOp.apply m)) := by
  induction os generalizing m with
  | nil => rfl
  | cons o os ih =>
    have hread : Item.read U (.extended o) = .ok o.places := rfl
    rw [List.map_cons, Overlay.run_next hread, held_apply, ih]
    rfl

/-! ### The bags of a PATCH -/

/-- What is gone over in an order of its own: the core keys of each operation, and then the
extended keys of each. -/
def bags (U : Unicode) (registered : Registry) (ss : List Scheduled) : List (List Item) :=
  (ss.map fun s => (coreSteps U registered s).map .core) ++
    ss.map fun s => (extendedSteps U registered s).map .extended

theorem flatten_bags (ss : List Scheduled) : (bags U registered ss).flatten =
    (ss.flatMap (coreSteps U registered)).map .core ++
      (ss.flatMap (extendedSteps U registered)).map .extended := by
  rw [bags, List.flatten_append, List.map_flatMap, List.map_flatMap, List.flatMap_def,
    List.flatMap_def]

theorem forall₂_sorted {β : Type} {f : Scheduled → List β}
    (hf : ∀ s, (f s).Perm (f (.sorted s.op))) (ss : List Scheduled) :
    List.Forall₂ List.Perm (ss.map f) (((ss.map Scheduled.op).map Scheduled.sorted).map f) := by
  induction ss with
  | nil => exact .nil
  | cons s ss ih => exact .cons (hf s) ih

theorem bags_perm {ops : List Operation} {ss : List Scheduled} (h : ss.map Scheduled.op = ops) :
    List.Forall₂ List.Perm (bags U registered ss) (bags U registered (ops.map .sorted)) := by
  have hcore : ∀ s : Scheduled, (coreSteps U registered s).Perm
      (coreSteps U registered (.sorted s.op)) := fun s => coreSteps_perm rfl
  have hext : ∀ s : Scheduled, (extendedSteps U registered s).Perm
      (extendedSteps U registered (.sorted s.op)) := fun s => extendedSteps_perm rfl
  subst h
  exact List.rel_append (forall₂_sorted (fun s => (hcore s).map Item.core) ss)
    (forall₂_sorted (fun s => (hext s).map Item.extended) ss)

theorem exists_bags {ops : List Operation} {cs : List (List Item)}
    (h : List.Forall₂ List.Perm cs (bags U registered (ops.map .sorted))) :
    ∃ ss : List Scheduled, ss.map Scheduled.op = ops ∧ bags U registered ss = cs := by
  have hcores := List.forall₂_take_append _ _ _ h
  have hexts := List.forall₂_drop_append _ _ _ h
  have hjoin := List.take_append_drop ((ops.map Scheduled.sorted).map fun s =>
    (coreSteps U registered s).map Item.core).length cs
  rw [← hjoin]
  generalize cs.take _ = as at hcores ⊢
  generalize cs.drop _ = bs at hexts ⊢
  clear h hjoin
  induction ops generalizing as bs with
  | nil =>
    cases hcores
    cases hexts
    exact ⟨[], rfl, rfl⟩
  | cons op ops ih =>
    obtain ⟨a, as, ha, has, rfl⟩ := List.forall₂_cons_right_iff.mp hcores
    obtain ⟨b, bs, hb, hbs, rfl⟩ := List.forall₂_cons_right_iff.mp hexts
    obtain ⟨ss, hops, hbags⟩ := ih as has bs hbs
    obtain ⟨c, hc, rfl⟩ := exists_perm_map ha
    obtain ⟨d, hd, rfl⟩ := exists_perm_map hb
    obtain ⟨s, hs, rfl, rfl⟩ := exists_scheduled hc hd
    refine ⟨s :: ss, by rw [List.map_cons, hs, hops], ?_⟩
    have hlength : (ss.map fun s => (coreSteps U registered s).map Item.core).length =
        as.length := by
      rw [List.length_map, ← List.length_map (f := Scheduled.op), hops, has.length_eq,
        List.length_map, List.length_map]
    obtain ⟨hcore, hext⟩ := List.append_inj hbags hlength
    rw [bags, List.map_cons, List.map_cons, hcore, hext, List.cons_append]


/-! ### Extended attributes as text -/

theorem mem_contents {m : Map} {k : String} {v : Value} :
    (k, v) ∈ (m.range fun _ => 0).map (fun e => (e.1, e.2.escape)) ↔ content m k = some v := by
  rw [List.mem_map, content, Option.map_eq_some_iff]
  constructor
  · rintro ⟨e, he, heq⟩
    cases heq
    exact ⟨e, Table.find?_of_mem (Json.mem_range.mp he), rfl⟩
  · rintro ⟨e, he, rfl⟩
    have hkey : e.1 = k := Table.find?_key he
    exact ⟨e, Json.mem_range.mpr (Table.find?_mem he), by rw [hkey]⟩

theorem json_of_content {m n : Map} (h : content m = content n) : m.json = n.json := by
  have hnodup : ∀ m : Map, ((m.range fun _ => 0).map fun e => (e.1, e.2.escape)).Nodup := by
    intro m
    refine List.Nodup.of_map Prod.fst ?_
    rw [List.map_map]
    exact Json.range_nodup _ m
  have hsorted : ∀ m : Map, ((m.range fun _ => 0).map fun e => (e.1, e.2.escape)).Pairwise
      fun a b => Ranking.le (fun _ => 0) a b = true := by
    intro m
    exact (Json.range_sorted (fun _ => 0) m).map _ fun a b hab => hab
  have hmem : ∀ e, e ∈ (m.range fun _ => 0).map (fun e => (e.1, e.2.escape)) ↔
      e ∈ (n.range fun _ => 0).map fun e => (e.1, e.2.escape) := by
    rintro ⟨k, v⟩
    rw [mem_contents, mem_contents, h]
  have heq : (m.range fun _ => 0).map (fun e => (e.1, e.2.escape)) =
      (n.range fun _ => 0).map fun e => (e.1, e.2.escape) := by
    refine List.Perm.eq_of_pairwise ?_ (hsorted m) (hsorted n)
      ((List.perm_ext_iff_of_nodup (hnodup m) (hnodup n)).mpr hmem)
    rintro ⟨k, v⟩ ⟨k', v'⟩ ha hb hab hba
    obtain rfl : k = k' := Json.le_antisymm hab hba
    have hv := mem_contents.mp ((hmem _).mp ha)
    rw [mem_contents.mp hb] at hv
    rw [Option.some.inj hv]
  have hjson : ∀ m : Map, m.json = .obj (((m.range fun _ => 0).map fun e => (e.1, e.2.escape)).map
      fun e => (Json.quote e.1, e.2)) := by
    intro m
    rw [List.map_map]
    rfl
  rw [hjson m, hjson n, heq]

theorem rows_nil_iff {m : Map} : m.rows = [] ↔ ∀ k, content m k = none := by
  constructor
  · intro h k
    rw [content, Table.find?, h]
    rfl
  · intro h
    refine List.eq_nil_iff_forall_not_mem.mpr ?_
    intro e he
    have hk := h e.1
    rw [content, Table.find?_of_mem he] at hk
    cases hk

theorem blobText_of_content {m n : Map} (h : content m = content n) : blobText m = blobText n := by
  have hrows : m.rows = [] ↔ n.rows = [] := by
    rw [rows_nil_iff, rows_nil_iff, h]
  rw [blobText, blobText, marshal, marshal, json_of_content h]
  simp only [hrows]

theorem content_of_blobText {m n : Map} (su : Store.User) (hm : Shallow m) (hn : Shallow n)
    (h : blobText m = blobText n) : content m = content n := by
  funext k
  have hleft := extendedValue_edited hm su k
  have hright := extendedValue_edited hn su k
  rw [blobText, blobText] at h
  rw [h, hright] at hleft
  exact hleft.symm

/-! ### The rows that a PATCH of a user comes to -/

variable {existing : Store.User} {baseURL : String} {ops : List Operation}

/-- Nothing is done to the blob, or it can be read. -/
def Legible (U : Unicode) (registered : Registry) (existing : Store.User) (ops : List Operation) :
    Prop :=
  (ops.map Scheduled.sorted).flatMap (extendedSteps U registered) = [] ∨
    (readBlob existing.extendedAttributes).isSome

/-- What is left can be stored: `validate` has nothing against any column. -/
def Passes (U : Unicode) (registered : Registry) (existing : Store.User) (ops : List Operation)
    (w : Place → Held) : Prop :=
  Legible U registered existing ops ∧ ∀ c s p, w (.column c) = .column s p → p

def startBlob (existing : Store.User) : Map := (readBlob existing.extendedAttributes).getD .empty

def startHeld (existing : Store.User) (baseURL : String) : Place → Held :=
  held (fromStoreUser existing baseURL) (startBlob existing)

theorem passes_held {chs : List Change} {m : Map} :
    Passes U registered existing ops (held (runAll chs (fromStoreUser existing baseURL)) m) ↔
      Legible U registered existing ops ∧ validate (runAll chs (fromStoreUser existing baseURL)) = "" := by
  have hschemas : userSchema ∈ (runAll chs (fromStoreUser existing baseURL)).schemas.items := by
    rw [schemas_runAll]
    exact List.mem_cons_self
  rw [Passes, validate_iff]
  refine and_congr_right fun _ => ⟨?_, ?_⟩
  · intro h
    exact ⟨hschemas, fun c => h c _ _ rfl⟩
  · rintro ⟨-, h⟩ c s p heq
    cases heq
    exact h c

/-- The resource and the blob that an order of the keys leaves to be stored. -/
noncomputable def leaves (U : Unicode) (registered : Registry) (existing : Store.User)
    (baseURL : String) (ops : List Operation) (ss : List Scheduled) : Except String (User × Map) :=
  match resolveAll U (ss.flatMap (coreSteps U registered)) with
  | .error e => .error (Refusal.patch e).scimType
  | .ok chs => open Classical in
    if Legible U registered existing ops ∧ validate (runAll chs (fromStoreUser existing baseURL)) = "" then
      .ok (runAll chs (fromStoreUser existing baseURL),
        (ss.flatMap (extendedSteps U registered)).foldl ExtendedOp.apply (startBlob existing))
    else .error "invalidValue"

theorem run_bags (ss : List Scheduled) (u : User) (m : Map) :
    run (Item.read U) (bags U registered ss).flatten (.ok (held u m)) =
      match resolveAll U (ss.flatMap (coreSteps U registered)) with
      | .error e => .error (Refusal.patch e).scimType
      | .ok chs => .ok (held (runAll chs u)
          ((ss.flatMap (extendedSteps U registered)).foldl ExtendedOp.apply m)) := by
  rw [flatten_bags, Overlay.run_append, run_core]
  cases resolveAll U (ss.flatMap (coreSteps U registered)) with
  | error e => exact Overlay.run_error _ _
  | ok chs => exact run_extended _ _ _

theorem judged_leaves (ss : List Scheduled) :
    judge (Passes U registered existing ops) "invalidValue"
        (run (Item.read U) (bags U registered ss).flatten (.ok (startHeld existing baseURL))) =
      (leaves U registered existing baseURL ops ss).map fun p => held p.1 p.2 := by
  rw [startHeld, run_bags, leaves]
  cases resolveAll U (ss.flatMap (coreSteps U registered)) with
  | error e => rfl
  | ok chs =>
    dsimp only
    rw [judge]
    by_cases hpass : Legible U registered existing ops ∧
        validate (runAll chs (fromStoreUser existing baseURL)) = ""
    · rw [if_pos hpass, if_pos (passes_held.mpr hpass)]
      rfl
    · rw [if_neg hpass, if_neg fun h => hpass (passes_held.mp h)]
      rfl

theorem extended_nil_iff {ss : List Scheduled} (h : ss.map Scheduled.op = ops) :
    ss.flatMap (extendedSteps U registered) = [] ↔
      (ops.map Scheduled.sorted).flatMap (extendedSteps U registered) = [] := by
  subst h
  simp only [List.flatMap_eq_nil_iff, List.mem_map, forall_exists_index, and_imp,
    forall_apply_eq_imp_iff₂]
  refine forall₂_congr fun s _ => ?_
  have hperm : (extendedSteps U registered s).Perm (extendedSteps U registered (.sorted s.op)) :=
    extendedSteps_perm rfl
  exact ⟨fun he => (hperm.symm.trans (.of_eq he)).eq_nil, fun he => (hperm.trans (.of_eq he)).eq_nil⟩

open Classical in
noncomputable def writtenRow (U : Unicode) (registered : Registry) (existing : Store.User)
    (ops : List Operation) (p : User × Map) : Store.User :=
  let text := if (ops.map Scheduled.sorted).flatMap (extendedSteps U registered) = [] then
    existing.extendedAttributes else blobText p.2
  { toStoreUser p.1 with extendedAttributes := text }

theorem get_writtenRow (c : Column) (p : User × Map) :
    c.get (writtenRow U registered existing ops p) = c.store (cell p.1 c) :=
  (get_blob c (toStoreUser p.1) _).trans (get_toStoreUser p.1 c)

/-- The row that is stored, or the scimType of the refusal. -/
def patchOutcome (U : Unicode) (registered : Registry) (existing : Store.User) (baseURL : String)
    (ss : List Scheduled) : Except String Store.User :=
  (patchUser U registered existing baseURL ss).mapError Refusal.scimType

theorem patchOutcome_leaves {ss : List Scheduled} (h : ss.map Scheduled.op = ops)
    (hsome : ¬ ((splitExtendedOps U registered ss).1 = [] ∧ (splitExtendedOps U registered ss).2 = [])) :
    patchOutcome U registered existing baseURL ss =
      (leaves U registered existing baseURL ops ss).map (writtenRow U registered existing ops) := by
  rw [patchOutcome, patchUser_steps, if_neg hsome, leaves]
  cases resolveAll U (ss.flatMap (coreSteps U registered)) with
  | error e => rfl
  | ok chs =>
    dsimp only
    rw [finishPatch, applyExtendedOps]
    by_cases hvalid : validate (runAll chs (fromStoreUser existing baseURL)) = ""
    · rw [if_neg (not_not.mpr hvalid)]
      by_cases hnone : ss.flatMap (extendedSteps U registered) = []
      · have hsorted := (extended_nil_iff h).mp hnone
        rw [if_pos hnone, if_pos ⟨Or.inl hsorted, hvalid⟩]
        simp only [Except.map, Except.mapError, writtenRow, if_pos hsorted]
      · have hsorted := fun he => hnone ((extended_nil_iff h).mpr he)
        rw [if_neg hnone]
        cases hblob : readBlob existing.extendedAttributes with
        | none =>
          have hill : ¬ (Legible U registered existing ops ∧
              validate (runAll chs (fromStoreUser existing baseURL)) = "") := by
            rintro ⟨hlegible, -⟩
            rcases hlegible with he | hsome
            · exact hsorted he
            · rw [hblob] at hsome
              cases hsome
          rw [if_neg hill]
          rfl
        | some m =>
          have hlegible : Legible U registered existing ops := by
            right
            rw [hblob]
            rfl
          rw [if_pos ⟨hlegible, hvalid⟩]
          simp only [Except.map, writtenRow, if_neg hsorted, startBlob, hblob, Option.getD_some]
          rfl
    · rw [if_pos hvalid, if_neg fun hp => hvalid hp.2]
      rfl

/-! ### Which orders show -/

theorem rows_eq {a b : Store.User} (h : ∀ c : Column, c.get a = c.get b) (hid : a.id = b.id)
    (hcreated : a.createdAt = b.createdAt) (hupdated : a.updatedAt = b.updatedAt)
    (hext : a.extendedAttributes = b.extendedAttributes) : a = b := by
  have huser := h .userName
  have hexternal := h .externalID
  have hactive := h .active
  have hgiven := h .givenName
  have hfamily := h .familyName
  have hemail := h .email
  cases a
  cases b
  simp only [Column.get, Stored.text.injEq, Stored.flag.injEq, Option.some.injEq] at *
  simp only [*]

theorem writtenRow_eq_iff {p q : User × Map} (hp : validate p.1 = "") (hq : validate q.1 = "")
    (hm : Shallow p.2) (hn : Shallow q.2)
    (hnone : (ops.map Scheduled.sorted).flatMap (extendedSteps U registered) = [] → p.2 = q.2) :
    writtenRow U registered existing ops p = writtenRow U registered existing ops q ↔
      held p.1 p.2 = held q.1 q.2 := by
  constructor
  · intro h
    have hcontent : content p.2 = content q.2 := by
      by_cases he : (ops.map Scheduled.sorted).flatMap (extendedSteps U registered) = []
      · rw [hnone he]
      · have htext := congrArg Store.User.extendedAttributes h
        simp only [writtenRow, if_neg he] at htext
        exact content_of_blobText existing hm hn htext
    funext place
    cases place with
    | column c =>
      have hget := congrArg c.get h
      rw [get_writtenRow, get_writtenRow] at hget
      have hvalid : c.Valid (cell p.1 c) = c.Valid (cell q.1 c) :=
        propext (iff_of_true (((validate_iff _).mp hp).2 c) (((validate_iff _).mp hq).2 c))
      rw [held, held, hget, hvalid]
    | extended k => rw [held, held, hcontent]
  · intro h
    have hcolumn : ∀ c : Column, c.store (cell p.1 c) = c.store (cell q.1 c) :=
      fun c => (Held.column.inj (congrFun h (.column c))).1
    have hcontent : content p.2 = content q.2 := by
      funext k
      exact Held.extended.inj (congrFun h (.extended k))
    refine rows_eq ?_ rfl rfl rfl ?_
    · intro c
      rw [get_writtenRow, get_writtenRow, hcolumn]
    · simp only [writtenRow, blobText_of_content hcontent]

theorem shallow_start (existing : Store.User) : Shallow (startBlob existing) := by
  rw [startBlob]
  cases hblob : readBlob existing.extendedAttributes with
  | none => exact fun e he => nomatch he
  | some m => exact shallow_blob hblob

theorem leaves_ok {ss : List Scheduled} {v : Value} {p : User × Map}
    (hv : v.depth ≤ maxNestingDepth) (hreq : Requests v ss)
    (h : leaves U registered existing baseURL ops ss = .ok p) : validate p.1 = "" ∧ Shallow p.2 ∧
      p.2 = (ss.flatMap (extendedSteps U registered)).foldl ExtendedOp.apply (startBlob existing) := by
  rw [leaves] at h
  cases hchs : resolveAll U (ss.flatMap (coreSteps U registered)) with
  | error e =>
    rw [hchs] at h
    cases h
  | ok chs =>
    rw [hchs] at h
    dsimp only at h
    split_ifs at h with hpass
    cases h
    refine ⟨hpass.2, shallow_applyAll (shallow_start existing) ?_, rfl⟩
    intro o ho w hw
    obtain ⟨s, hs, ho⟩ := List.mem_flatMap.mp ho
    obtain ⟨e, he, -, heq⟩ := mem_extendedSteps.mp ho
    rw [heq] at hw
    obtain ⟨x, hx, hle⟩ := entry_depth he hw
    have hlt := requests_depth hreq s hs x hx
    omega

/-- Two orders store the same exactly when they leave the same in every place. -/
theorem leaves_eq_iff {ss ss' : List Scheduled} {v : Value} (hv : v.depth ≤ maxNestingDepth)
    (hreq : Requests v ss) (hreq' : Requests v ss') (hss : ss.map Scheduled.op = ops)
    (hss' : ss'.map Scheduled.op = ops) :
    (leaves U registered existing baseURL ops ss).map (writtenRow U registered existing ops) =
        (leaves U registered existing baseURL ops ss').map (writtenRow U registered existing ops) ↔
      (leaves U registered existing baseURL ops ss).map (fun p => held p.1 p.2) =
        (leaves U registered existing baseURL ops ss').map fun p => held p.1 p.2 := by
  cases hl : leaves U registered existing baseURL ops ss with
  | error e =>
    cases hl' : leaves U registered existing baseURL ops ss' with
    | error e' => simp [Except.map]
    | ok q => simp [Except.map]
  | ok p =>
    cases hl' : leaves U registered existing baseURL ops ss' with
    | error e' => simp [Except.map]
    | ok q =>
      obtain ⟨hp, hm, hblob⟩ := leaves_ok hv hreq hl
      obtain ⟨hq, hn, hblob'⟩ := leaves_ok hv hreq' hl'
      have hnone : (ops.map Scheduled.sorted).flatMap (extendedSteps U registered) = [] →
          p.2 = q.2 := by
        intro he
        rw [hblob, hblob', (extended_nil_iff hss).mpr he, (extended_nil_iff hss').mpr he]
      have hrows : writtenRow U registered existing ops p = writtenRow U registered existing ops q ↔
          held p.1 p.2 = held q.1 q.2 := writtenRow_eq_iff hp hq hm hn hnone
      simpa [Except.map] using hrows

theorem exists_same_op {ss ss' : List Scheduled} (h : ss.map Scheduled.op = ss'.map Scheduled.op)
    {s : Scheduled} (hs : s ∈ ss) : ∃ s' ∈ ss', s'.op = s.op := by
  have hmem := List.mem_map_of_mem (f := Scheduled.op) hs
  rw [h] at hmem
  exact List.mem_map.mp hmem

theorem coreObject_nil_iff {op : String} {ω : Ranking} {attrs : Map} :
    coreObject op ω attrs = [] ↔ attrs.rows = [] := by
  rw [coreObject]
  by_cases h : attrs.rows = []
  · rw [if_pos h]
    exact iff_of_true rfl h
  · rw [if_neg h]
    exact iff_of_false (List.cons_ne_nil _ _) h

theorem splitOp_nil {s s' : Scheduled} (h : s'.op = s.op)
    (hnil : (splitOp U registered s').1 = [] ∧ (splitOp U registered s').2 = []) :
    (splitOp U registered s).1 = [] ∧ (splitOp U registered s).2 = [] := by
  rw [splitOp, h] at hnil
  rw [splitOp]
  by_cases hpath : trimSpace s.op.path ≠ ""
  · rw [if_pos hpath] at hnil ⊢
    cases hreg : registered.canonical U (trimSpace s.op.path) with
    | none =>
      rw [hreg] at hnil
      cases hnil.1
    | some canon =>
      rw [hreg] at hnil
      cases hnil.2
  · rw [if_neg hpath] at hnil ⊢
    by_cases haction : s.op.action U ≠ "add" ∧ s.op.action U ≠ "replace"
    · rw [if_pos haction] at hnil
      cases hnil.1
    · rw [if_neg haction] at hnil ⊢
      cases hobj : s.op.value.bind readMap with
      | none =>
        rw [hobj] at hnil
        cases hnil.1
      | some attrs =>
        rw [hobj] at hnil
        dsimp only at hnil ⊢
        have hperm := ((Json.range_perm s.split attrs).trans
          (Json.range_perm s'.split attrs).symm).filterMap fun e =>
            (registered.canonical U e.1).map fun canon => ExtendedOp.mk (s.op.action U) canon (some e.2)
        exact ⟨coreObject_nil_iff.mpr (coreObject_nil_iff.mp hnil.1),
          (hperm.trans (.of_eq hnil.2)).eq_nil⟩

/-- Whether anything is asked for does not depend on an order. -/
theorem nothing_left {ss ss' : List Scheduled} (h : ss.map Scheduled.op = ss'.map Scheduled.op)
    (hnil : (splitExtendedOps U registered ss).1 = [] ∧ (splitExtendedOps U registered ss).2 = []) :
    (splitExtendedOps U registered ss').1 = [] ∧ (splitExtendedOps U registered ss').2 = [] := by
  rw [splitExtendedOps] at hnil ⊢
  by_cases hreg : registered.rows = []
  · rw [if_pos hreg] at hnil ⊢
    refine ⟨?_, rfl⟩
    have hss : ss = [] := List.map_eq_nil_iff.mp hnil.1
    rw [hss, List.map_nil] at h
    rw [List.map_eq_nil_iff.mp h.symm]
    rfl
  · rw [if_neg hreg] at hnil ⊢
    have heach : ∀ s ∈ ss', (splitOp U registered s).1 = [] ∧ (splitOp U registered s).2 = [] := by
      intro s hs
      obtain ⟨s', hs', hop⟩ := exists_same_op h.symm hs
      exact splitOp_nil hop
        ⟨List.flatMap_eq_nil_iff.mp hnil.1 s' hs', List.flatMap_eq_nil_iff.mp hnil.2 s' hs'⟩
    exact ⟨List.flatMap_eq_nil_iff.mpr fun s hs => (heach s hs).1,
      List.flatMap_eq_nil_iff.mpr fun s hs => (heach s hs).2⟩

theorem run_nothing {ss : List Scheduled} (u : User) (m : Map)
    (hnil : (splitExtendedOps U registered ss).1 = [] ∧ (splitExtendedOps U registered ss).2 = []) :
    run (Item.read U) (bags U registered ss).flatten (.ok (held u m)) = .ok (held u m) := by
  obtain ⟨hcore, hext⟩ := splitExtendedOps_steps U registered ss
  have hfold := hcore u
  rw [hnil.1, foldlM_resolveAll] at hfold
  obtain ⟨chs, hchs, hrun⟩ := map_ok hfold.symm
  rw [run_bags, hchs, ← hext, hnil.2]
  dsimp only
  rw [hrun]
  rfl

theorem map_sorted_op (ops : List Operation) : (ops.map Scheduled.sorted).map Scheduled.op = ops := by
  rw [List.map_map]
  exact List.map_id ops

/-- A PATCH of a user goes the same way in every order exactly when its bags are settled, or it is
refused in every order for what it leaves. -/
theorem patch_unordered_iff {v : Value} {p : PatchOp} (hv : v.depth ≤ maxNestingDepth)
    (hp : readPatch v = some p) :
    (∀ ss ss' : List Scheduled, ss.map Scheduled.op = p.operations.items →
      ss'.map Scheduled.op = p.operations.items →
      patchOutcome U registered existing baseURL ss = patchOutcome U registered existing baseURL ss') ↔
    Settled (Item.read U) (bags U registered (p.operations.items.map .sorted)) ∨
      Hopeless (Item.read U) (Passes U registered existing p.operations.items)
        (bags U registered (p.operations.items.map .sorted)) (startHeld existing baseURL) := by
  have hsorted := map_sorted_op p.operations.items
  have hrequests : ∀ {ss : List Scheduled}, ss.map Scheduled.op = p.operations.items → Requests v ss :=
    fun h => ⟨p, hp, h⟩
  rw [← Overlay.judged_iff (t := "invalidValue")]
  constructor
  · intro h cs hcs
    obtain ⟨ss, hss, rfl⟩ := exists_bags hcs
    by_cases hnil : (splitExtendedOps U registered ss).1 = [] ∧ (splitExtendedOps U registered ss).2 = []
    · have hnil' := nothing_left (hss.trans hsorted.symm) hnil
      rw [startHeld, run_nothing _ _ hnil, run_nothing _ _ hnil']
    · have hnil' := fun hn => hnil (nothing_left (hsorted.trans hss.symm) hn)
      have hsame := h ss _ hss hsorted
      rw [patchOutcome_leaves hss hnil, patchOutcome_leaves hsorted hnil'] at hsame
      rw [judged_leaves, judged_leaves]
      exact (leaves_eq_iff hv (hrequests hss) (hrequests hsorted) hss hsorted).mp hsame
  · intro h
    have hbase : ∀ ss : List Scheduled, ss.map Scheduled.op = p.operations.items →
        patchOutcome U registered existing baseURL ss =
          patchOutcome U registered existing baseURL (p.operations.items.map .sorted) := by
      intro ss hss
      by_cases hnil : (splitExtendedOps U registered ss).1 = [] ∧
          (splitExtendedOps U registered ss).2 = []
      · have hnil' := nothing_left (hss.trans hsorted.symm) hnil
        rw [patchOutcome, patchOutcome, patchUser_steps, patchUser_steps, if_pos hnil, if_pos hnil']
      · have hnil' := fun hn => hnil (nothing_left (hsorted.trans hss.symm) hn)
        have hjudged := h _ (bags_perm hss)
        rw [judged_leaves, judged_leaves] at hjudged
        rw [patchOutcome_leaves hss hnil, patchOutcome_leaves hsorted hnil']
        exact (leaves_eq_iff hv (hrequests hss) (hrequests hsorted) hss hsorted).mpr hjudged
    intro ss ss' hss hss'
    rw [hbase ss hss, hbase ss' hss']

/-! ### What a POST or a PUT captures -/

/-- A key of a body: it writes the name that it is registered under. -/
def capturing (U : Unicode) (registered : Registry) (e : String × Value) :
    Except String (String → Option (Option Value)) :=
  .ok fun k => if registered.canonical U e.1 = some k then some (some e.2.escape) else none

theorem write_capture (m : Map) (e : String × Value) :
    Overlay.write (fun k => if registered.canonical U e.1 = some k then some (some e.2.escape) else none)
      (content m) = content (capture U registered m e) := by
  funext k
  rw [Overlay.write, capture]
  cases registered.canonical U e.1 with
  | none => rfl
  | some canon =>
    dsimp only
    rw [content, content, Table.find?_put]
    by_cases hk : canon = k
    · rw [if_pos (congrArg some hk), if_pos hk.symm]
      rfl
    · rw [if_neg fun he => hk (Option.some.inj he), if_neg fun he => hk he.symm]
      rfl

theorem run_capture (es : List (String × Value)) (m : Map) :
    run (capturing U registered) es (.ok (content m)) =
      .ok (content (es.foldl (capture U registered) m)) := by
  induction es generalizing m with
  | nil => rfl
  | cons e es ih =>
    have hread : capturing U registered e = .ok _ := rfl
    rw [Overlay.run_next hread, write_capture, ih]
    rfl

theorem capture_unregistered (h : registered.rows = []) (es : List (String × Value)) (m : Map) :
    es.foldl (capture U registered) m = m := by
  induction es with
  | nil => rfl
  | cons e es ih =>
    have hcapture : capture U registered m e = m := by
      rw [capture, canonical_unregistered h]
    rw [List.foldl_cons, hcapture, ih]

theorem captureExtended_eq (ω : Ranking) (body : Map) : captureExtended U ω body registered =
    blobText ((body.range ω).foldl (capture U registered) .empty) := by
  rw [captureExtended]
  by_cases h : registered.rows = [] ∨ body.rows = []
  · have hnone : (body.range ω).foldl (capture U registered) .empty = .empty := by
      rcases h with hreg | hbody
      · exact capture_unregistered hreg _ _
      · rw [((Json.range_perm ω body).trans (.of_eq hbody)).eq_nil]
        rfl
    rw [if_pos h, hnone]
    rfl
  · rw [if_neg h]
    rfl

theorem shallow_capture {es : List (String × Value)} {m : Map} (hm : Shallow m)
    (hes : ∀ e ∈ es, e.2.depth < maxNestingDepth) : Shallow (es.foldl (capture U registered) m) := by
  induction es generalizing m with
  | nil => exact hm
  | cons e es ih =>
    refine ih ?_ fun e' he' => hes e' (List.mem_cons_of_mem e he')
    rw [capture]
    cases registered.canonical U e.1 with
    | none => exact hm
    | some canon =>
      intro a ha
      rcases Json.put_mem ha with rfl | ha
      · exact hes e List.mem_cons_self
      · exact hm a ha

/-- The attributes captured are the same in every order exactly when the keys that stand for one
of them carry the same value. -/
theorem capture_unordered_iff {body : Map} (hbody : Shallow body) (su : Store.User) :
    (∀ ω ω', captureExtended U ω body registered = captureExtended U ω' body registered) ↔
      ∀ k, Overlay.Agree (capturing U registered) k body.rows := by
  have hshallow : ∀ ω : Ranking,
      Shallow ((body.range ω).foldl (capture U registered) .empty) := by
    intro ω
    exact shallow_capture (fun e he => nomatch he) fun e he => hbody e (Json.mem_range.mp he)
  have hclean : Overlay.Clean (capturing U registered) body.rows := fun e _ => ⟨_, rfl⟩
  rw [← Overlay.settled_single hclean, ← Overlay.settled_iff (content .empty)]
  obtain ⟨ω₀, hω₀⟩ := Json.exists_range (List.Perm.refl body.rows)
  constructor
  · intro h cs hcs
    obtain ⟨xs, rfl, hxs⟩ := Overlay.forall₂_single hcs
    obtain ⟨ω, rfl⟩ := Json.exists_range hxs
    have hsame := h ω ω₀
    rw [captureExtended_eq, captureExtended_eq] at hsame
    have hcontent := content_of_blobText su (hshallow ω) (hshallow ω₀) hsame
    rw [List.flatten_singleton, List.flatten_singleton, run_capture, run_capture, hcontent, hω₀]
  · intro h ω ω'
    have hrun : ∀ ω : Ranking, content ((body.range ω).foldl (capture U registered) .empty) =
        content (body.rows.foldl (capture U registered) .empty) := by
      intro ω
      have hsame := h [body.range ω] (.cons (Json.range_perm ω body) .nil)
      rw [List.flatten_singleton, List.flatten_singleton, run_capture, run_capture] at hsame
      exact Except.ok.inj hsame
    rw [captureExtended_eq, captureExtended_eq]
    exact blobText_of_content ((hrun ω).trans (hrun ω').symm)

theorem shallow_keys {T : TimeText} {body : Value} {u : User} {keys : Map}
    (hbody : body.depth ≤ maxNestingDepth) (h : decodeUser U T body = .ok (u, keys)) :
    Shallow keys := by
  rw [decodeUser] at h
  split at h
  · cases h
  · split_ifs at h
    cases h
    intro e he
    cases body with
    | obj ms =>
      obtain ⟨m, hm, rfl⟩ := Json.of_mem he
      exact Nat.lt_of_lt_of_le (Json.depth_lt_of_member hm) hbody
    | _ => cases he

def postOutcome (U : Unicode) (T : TimeText) (registered : Registry) (body : Value) (ω : Ranking) :
    Except String Store.User :=
  (postUser U T ω registered body).mapError Refusal.scimType

def putOutcome (U : Unicode) (T : TimeText) (registered : Registry) (id : String) (body : Value)
    (ω : Ranking) : Except String Store.User :=
  (putUser U T ω registered id body).mapError Refusal.scimType

theorem storeUserOf_eq_iff {ω ω' : Ranking} {u : User} {keys : Map} :
    storeUserOf U ω registered u keys = storeUserOf U ω' registered u keys ↔
      captureExtended U ω keys registered = captureExtended U ω' keys registered := by
  constructor
  · exact fun h => congrArg Store.User.extendedAttributes h
  · intro h
    rw [storeUserOf, storeUserOf, h]

theorem post_unordered_iff {T : TimeText} {body : Value} (hbody : body.depth ≤ maxNestingDepth) :
    (∀ ω ω', postOutcome U T registered body ω = postOutcome U T registered body ω') ↔
      ∀ u keys, decodeUser U T body = .ok (u, keys) →
        ∀ k, Overlay.Agree (capturing U registered) k keys.rows := by
  cases hdecode : decodeUser U T body with
  | error e => simp [postOutcome, postUser, hdecode]
  | ok p =>
    obtain ⟨u, keys⟩ := p
    have hkeys : (∀ ω ω', captureExtended U ω keys registered = captureExtended U ω' keys registered) ↔
        ∀ k, Overlay.Agree (capturing U registered) k keys.rows :=
      capture_unordered_iff (shallow_keys hbody hdecode) (storeUserOf U (fun _ => 0) registered u keys)
    simp only [postOutcome, postUser, hdecode, Except.mapError, Except.ok.injEq, storeUserOf_eq_iff,
      Prod.mk.injEq]
    rw [hkeys]
    exact ⟨fun h _ _ he => he.2 ▸ h, fun h => h u keys ⟨rfl, rfl⟩⟩

theorem put_unordered_iff {T : TimeText} {id : String} {body : Value}
    (hbody : body.depth ≤ maxNestingDepth) :
    (∀ ω ω', putOutcome U T registered id body ω = putOutcome U T registered id body ω') ↔
      ∀ u keys, decodeUser U T body = .ok (u, keys) → (u.id = "" ∨ u.id = id) →
        ∀ k, Overlay.Agree (capturing U registered) k keys.rows := by
  cases hdecode : decodeUser U T body with
  | error e => simp [putOutcome, putUser, hdecode]
  | ok p =>
    obtain ⟨u, keys⟩ := p
    have hkeys : (∀ ω ω', captureExtended U ω keys registered = captureExtended U ω' keys registered) ↔
        ∀ k, Overlay.Agree (capturing U registered) k keys.rows :=
      capture_unordered_iff (shallow_keys hbody hdecode) (storeUserOf U (fun _ => 0) registered u keys)
    by_cases hid : u.id ≠ "" ∧ u.id ≠ id
    · simp only [putOutcome, putUser, hdecode, if_pos hid, implies_true, true_iff]
      rintro _ _ he (hu | hu)
      · cases he
        exact (hid.1 hu).elim
      · cases he
        exact (hid.2 hu).elim
    · have hsame : u.id = "" ∨ u.id = id := by
        rw [not_and_or, not_not, not_not] at hid
        exact hid
      simp only [putOutcome, putUser, hdecode, if_neg hid, Except.mapError, Except.ok.injEq,
        storeUserOf_eq_iff, Prod.mk.injEq]
      rw [hkeys]
      exact ⟨fun h _ _ he _ => he.2 ▸ h, fun h => h u keys ⟨rfl, rfl⟩ hsame⟩

end Scimage.Scim
