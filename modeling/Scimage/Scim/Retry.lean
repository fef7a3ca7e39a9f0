import Scimage.Scim.Batch

/-! A PATCH of a user that is sent again. -/
namespace Scimage.Scim

open Txn Engine
open Store (engine Db Env DbError Postgres UserRow replaceUser jsonbParam scanUser)
open Relational (Table)
open Json (Value Map)

variable {pg : Postgres}

/-- What PostgreSQL has stored of an object is read as an object, and is taken once more. -/
def JsonbReturns (pg : Postgres) : Prop :=
  ∀ m j, pg.jsonb (marshal m) = some j →
    ∃ n, readBlob j = some n ∧ (n.rows = [] ∨ (pg.jsonb (marshal n)).isSome)

/-! ### Columns -/

/-- Changes are constants, so they do no more when they are made again. -/
theorem writes_again (chs : List Change) (c : Column) (x : Cell) :
    chs.foldl (fun x ch => (ch.writes c).getD x) (chs.foldl (fun x ch => (ch.writes c).getD x) x) =
      chs.foldl (fun x ch => (ch.writes c).getD x) x := by
  rcases writes_or chs c with hnone | hsame
  · rw [hnone, hnone]
  · exact hsame _ x

theorem cell_runAll_again (chs : List Change) (u : User) (c : Column) :
    cell (runAll chs (runAll chs u)) c = cell (runAll chs u) c := by
  rw [cell_runAll, cell_runAll, writes_again]

/-! ### The blob -/

/-- Whatever the object, the operations leave a key alone or put what they put. -/
theorem applyAll_or (os : List ExtendedOp) (k : String) :
    (∀ m : Map, Table.find? (os.foldl ExtendedOp.apply m) k = Table.find? m k) ∨
      ∀ m n : Map, Table.find? (os.foldl ExtendedOp.apply m) k =
        Table.find? (os.foldl ExtendedOp.apply n) k := by
  induction os with
  | nil => exact Or.inl fun _ => rfl
  | cons o os ih =>
    rcases ih with hkept | hsame
    · have hone : (∀ m : Map, Table.find? (o.apply m) k = Table.find? m k) ∨
          ∀ m n : Map, Table.find? (o.apply m) k = Table.find? (o.apply n) k := by
        unfold ExtendedOp.apply
        split_ifs
        · by_cases hk : k = o.name
          · exact Or.inr fun m n => by rw [Table.find?_put, Table.find?_put, if_pos hk, if_pos hk]
          · exact Or.inl fun m => by rw [Table.find?_put, if_neg hk]
        · by_cases hk : k = o.name
          · exact Or.inr fun m n => by rw [Table.find?_remove, Table.find?_remove, if_pos hk, if_pos hk]
          · exact Or.inl fun m => by rw [Table.find?_remove, if_neg hk]
        · exact Or.inl fun _ => rfl
      simp only [List.foldl_cons, hkept]
      exact hone
    · exact Or.inr fun m n => hsame (o.apply m) (o.apply n)

theorem applyAll_again (os : List ExtendedOp) (m : Map) :
    (os.foldl ExtendedOp.apply (os.foldl ExtendedOp.apply m)).Alike (os.foldl ExtendedOp.apply m) := by
  intro k
  rcases applyAll_or os k with hkept | hsame
  · rw [hkept]
  · rw [hsame _ m]

/-- The operations on what they have left in the column leave the same. -/
theorem blob_again (laws : JsonbLaws pg) (returns : JsonbReturns pg) {raw text : String}
    {x : Option String} {os : List ExtendedOp} (h : applyExtendedOps raw os = some text)
    (hx : jsonbParam pg text = .ok x) :
    ∃ text' x', applyExtendedOps (x.getD "") os = some text' ∧ jsonbParam pg text' = .ok x' ∧
      SameBlob pg x x' := by
  by_cases hnone : os = []
  · subst hnone
    cases h
    exact ⟨_, x, rfl, jsonbParam_stored laws hx, Or.inl rfl⟩
  obtain ⟨m, hm, rfl⟩ := (applyExtendedOps_some hnone).mp h
  have hread : ∃ n, readBlob (x.getD "") = some n ∧ (n.rows = [] ∨ (pg.jsonb (marshal n)).isSome) := by
    rcases jsonbParam_blob hx with ⟨-, rfl⟩ | ⟨-, j, hj, rfl⟩
    · exact ⟨.empty, rfl, Or.inl rfl⟩
    · exact returns _ j hj
  obtain ⟨n, hn, hagain⟩ := hread
  have halike : (os.foldl ExtendedOp.apply m).Alike (os.foldl ExtendedOp.apply n) :=
    ((applyAll_alike (reread_alike laws hx hn).symm os).trans (applyAll_again os m)).symm
  have htwice := (applyExtendedOps_some hnone).mpr ⟨n, hn, rfl⟩
  rcases jsonbParam_blob hx with ⟨hempty, rfl⟩ | ⟨hrows, j, hj, rfl⟩
  · refine ⟨_, none, htwice, ?_, Or.inl rfl⟩
    rw [blobText, if_pos (halike.rows_nil hempty)]
    rfl
  · have hrows' : (os.foldl ExtendedOp.apply n).rows ≠ [] := fun h => hrows (halike.symm.rows_nil h)
    obtain ⟨fine, hfine⟩ := laws.memberwise
    have hsome : (pg.jsonb (marshal (os.foldl ExtendedOp.apply n))).isSome := by
      rw [hfine _ hrows']
      intro e he
      rcases applyAll_mem os he with ⟨hmem, -⟩ | hput
      · -- it was in the column already
        rcases hagain with hnil | hsome
        · rw [hnil] at hmem
          cases hmem
        · exact (hfine n (List.ne_nil_of_mem hmem)).mp hsome e hmem
      · exact (hfine _ hrows).mp (by rw [hj]; rfl) e (hput m)
    obtain ⟨j', hj'⟩ := Option.isSome_iff_exists.mp hsome
    refine ⟨_, some j', htwice, ?_, Or.inr ⟨_, _, halike, hj, hj'⟩⟩
    rw [blobText, if_neg hrows', jsonbParam, if_neg (marshal_ne _), hj']

/-! ### The row -/

theorem patchUser_again (laws : JsonbLaws pg) (returns : JsonbReturns pg) {U : Unicode}
    {registered : Registry} {existing su : Store.User} (between : Store.User) {base : String}
    {ops : List Scheduled} {x : Option String} (h : patchUser U registered existing base ops = .ok su)
    (hx : jsonbParam pg su.extendedAttributes = .ok x) (hcols : ∀ c : Column, c.get between = c.get su)
    (hblob : between.extendedAttributes = x.getD "") :
    ∃ su' x', patchUser U registered between base ops = .ok su' ∧
      jsonbParam pg su'.extendedAttributes = .ok x' ∧ (∀ c : Column, c.get su' = c.get su) ∧
      SameBlob pg x x' := by
  have hbetween : Validated between := (patchUser_validated h).congr hcols
  obtain ⟨hsome, chs, blob, hchs, hvalid, hext, rfl⟩ := patchUser_ok_iff.mp h
  obtain ⟨text', x', htext', hx', hsame⟩ := blob_again laws returns hext hx
  obtain ⟨-, hvalid⟩ := (validate_iff _).mp hvalid
  obtain ⟨hschemas, hvalidBetween⟩ := (validate_iff _).mp (validate_fromStoreUser hbetween base)
  have hstored : ∀ c : Column, c.store (cell (runAll chs (fromStoreUser existing base)) c) =
      c.store (cell (fromStoreUser between base) c) := by
    intro c
    rw [store_fromStoreUser hbetween.written, hcols, get_blob, get_toStoreUser]
  have hcolumns := runAll_stored chs hstored hvalidBetween fun c => by
    rw [cell_runAll_again]
    exact hvalid c
  refine ⟨_, x', patchUser_ok_iff.mpr ⟨hsome, chs, text', hchs, ?_, hblob ▸ htext', rfl⟩, hx', ?_, hsame⟩
  · refine (validate_iff _).mpr ⟨?_, fun c => (hcolumns c).2⟩
    rw [schemas_runAll]
    exact hschemas
  · intro c
    have hcolumn := (hcolumns c).1
    rw [cell_runAll_again] at hcolumn
    have hget := get_toStoreUser (runAll chs (fromStoreUser between base)) c
    have hget₁ := get_toStoreUser (runAll chs (fromStoreUser existing base)) c
    exact (get_blob c _ text').trans (hget.trans (hcolumn.trans (hget₁.symm.trans (get_blob c _ blob).symm)))

/-! ### The request -/

variable {db : Db} {h : Handler} {r : Request} {first second : Nat → Supply Env DbError}

theorem blobless_returns : JsonbReturns blobless := by
  intro m j hj
  cases hj

end Scimage.Scim
