import Scimage.Scim.Shape

/-! Names that differ only in case: in the registry, in the blobs and in the answers. -/
namespace Scimage.Scim

open Store (Db Postgres UserRow AttributeRow scanUser trimSpace reservedAttribute reservedAttributes)
open Relational (Table)
open Json (Value Text Map Ranking datumMembers)

variable {pg : Postgres} {U : Unicode} {T : TimeText} {db db' : Db}

/-- Neither the registry nor a blob of the tenant has the name in another spelling. -/
def Unclaimed (U : Unicode) (db : Db) (tenantID name : String) : Prop :=
  (∀ a ∈ db.attributes.rows, a.tenantID = tenantID → U.lower a.name = U.lower name → a.name = name) ∧
    ∀ row ∈ db.users.rows, row.tenantID = tenantID → ∀ k, BlobKey row k → U.lower k = U.lower name → k = name

/-! ### The registry and the blobs -/

structure OneSpelling (U : Unicode) (db : Db) : Prop where
  names : ∀ a ∈ db.attributes.rows, ∀ b ∈ db.attributes.rows, a.tenantID = b.tenantID →
    U.lower a.name = U.lower b.name → a.name = b.name
  keys : ∀ row ∈ db.users.rows, ∀ k k', BlobKey row k → BlobKey row k' → U.lower k = U.lower k' → k = k'
  across : ∀ row ∈ db.users.rows, ∀ a ∈ db.attributes.rows, row.tenantID = a.tenantID → ∀ k, BlobKey row k →
    U.lower k = U.lower a.name → k = a.name

theorem OneSpelling.congr (h : OneSpelling U db) (husers : db'.users = db.users)
    (hattributes : db'.attributes.rows ⊆ db.attributes.rows) : OneSpelling U db' := by
  refine ⟨?_, ?_, ?_⟩
  · exact fun a ha b hb => h.names a (hattributes ha) b (hattributes hb)
  · rw [husers]
    exact h.keys
  · rw [husers]
    exact fun row hrow a ha => h.across row hrow a (hattributes ha)

/-- A row that a request writes has the registered spellings, or those that it had before. -/
theorem OneSpelling.put {row : UserRow} (h : OneSpelling U db) (hrow : UserFrom pg U db row)
    (laws : JsonbLaws pg) (hkept : ∀ c ∈ db.users.rows, UserKept pg c)
    (husers : db'.users = db.users.put row) (hattributes : db'.attributes = db.attributes) :
    OneSpelling U db' := by
  have hacross : ∀ a ∈ db.attributes.rows, row.tenantID = a.tenantID → ∀ k, BlobKey row k →
      U.lower k = U.lower a.name → k = a.name := by
    intro a ha htenant k hk hlower
    rcases hrow.blobKey laws hkept hk with ⟨b, hb, hbt, rfl⟩ | ⟨c, hfind, hct, hck⟩
    · exact h.names b hb a ha (hbt.trans htenant) hlower
    · exact h.across c (Table.find?_mem hfind) a ha (hct.trans htenant) k hck hlower
  have hkeys : ∀ k k', BlobKey row k → BlobKey row k' → U.lower k = U.lower k' → k = k' := by
    intro k k' hk hk' hlower
    rcases hrow.blobKey laws hkept hk with ⟨a, ha, hat, rfl⟩ | ⟨c, hfind, hct, hck⟩
    · exact (hacross a ha hat.symm k' hk' hlower.symm).symm
    · rcases hrow.blobKey laws hkept hk' with ⟨b, hb, hbt, rfl⟩ | ⟨c', hfind', -, hck'⟩
      · exact hacross b hb hbt.symm k hk hlower
      · cases hfind.symm.trans hfind'
        exact h.keys c (Table.find?_mem hfind) k k' hck hck' hlower
  refine ⟨?_, ?_, ?_⟩
  · rw [hattributes]
    exact h.names
  · intro c hc
    rw [husers] at hc
    rcases Table.mem_put.mp hc with rfl | ⟨hc, -⟩
    · exact hkeys
    · exact h.keys c hc
  · intro c hc a ha
    rw [husers] at hc
    rw [hattributes] at ha
    rcases Table.mem_put.mp hc with rfl | ⟨hc, -⟩
    · exact hacross a ha
    · exact h.across c hc a ha

theorem OneSpelling.register {a : AttributeRow} (h : OneSpelling U db) (hok : Unclaimed U db a.tenantID a.name)
    (husers : db'.users = db.users) (hattributes : db'.attributes = db.attributes.put a) :
    OneSpelling U db' := by
  refine ⟨?_, ?_, ?_⟩
  · intro b hb c hc htenant hlower
    rw [hattributes] at hb hc
    rcases Table.mem_put.mp hb with hba | ⟨hb, -⟩
    · rcases Table.mem_put.mp hc with hca | ⟨hc, -⟩
      · rw [hba, hca]
      · rw [hba] at htenant hlower ⊢
        exact (hok.1 c hc htenant.symm hlower.symm).symm
    · rcases Table.mem_put.mp hc with hca | ⟨hc, -⟩
      · rw [hca] at htenant hlower ⊢
        exact hok.1 b hb htenant hlower
      · exact h.names b hb c hc htenant hlower
  · rw [husers]
    exact h.keys
  · intro row hrow b hb htenant k hk hlower
    rw [husers] at hrow
    rw [hattributes] at hb
    rcases Table.mem_put.mp hb with rfl | ⟨hb, -⟩
    · exact hok.2 row hrow htenant k hk hlower
    · exact h.across row hrow b hb htenant k hk hlower

/-- Where no name comes into the registry in a second spelling, no spelling ever is a second one. -/
theorem oneSpelling_run (laws : JsonbLaws pg) (h : ReachableIf pg U T (Unclaimed U) db) : OneSpelling U db := by
  induction h with
  | empty =>
    refine ⟨?_, ?_, ?_⟩
    · exact fun _ ha => (List.not_mem_nil ha).elim
    · exact fun _ hrow => (List.not_mem_nil hrow).elim
    · exact fun _ hrow => (List.not_mem_nil hrow).elim
  | request h s extended r resource m supply ih =>
    have hkept := reachable_kept h.reachable
    obtain ⟨heffect, hattributes⟩ :=
      request_byRequest (U := U) (T := T) pg supply s extended r resource m _
    cases heffect with
    | nothing hsame => exact ih.congr hsame.1 (by rw [hattributes]; exact List.Subset.refl _)
    | user row hdb howner hfree hrow => exact ih.put hrow laws hkept.users hdb.1 hattributes
    | group row id ids now v hid hfree hrow hex hdb =>
      refine ih.congr ?_ (by rw [hattributes]; exact List.Subset.refl _)
      rw [hdb.1, (Store.exchanged_frame hid hex).1]
    | dropGroup k hdb => exact ih.congr hdb.1 (by rw [hattributes]; exact List.Subset.refl _)
    | register a ha hdb => exact ih.congr hdb.1 (by rw [hattributes]; exact List.Subset.refl _)
    | unregister k hdb => exact ih.congr hdb.1 (by rw [hattributes]; exact List.Subset.refl _)
  | register h tenantID name typ actor hok supply ih =>
    rcases operate_register pg supply tenantID name typ actor _ with hsame | ⟨a, rfl, hname, -, hsame⟩
    · exact ih.congr hsame.1 (by rw [hsame.2.2.2]; exact List.Subset.refl _)
    · exact ih.register (hname ▸ hok) hsame.1 hsame.2.2.2
  | unregister h tenantID name actor supply ih =>
    rcases operate_unregister pg supply tenantID name actor _ with hsame | ⟨k, hsame⟩
    · exact ih.congr hsame.1 (by rw [hsame.2.2.2]; exact List.Subset.refl _)
    · refine ih.congr hsame.1 ?_
      rw [hsame.2.2.2]
      exact fun a ha => List.mem_of_mem_filter ha
  | elsewhere h hsame ih => exact ih.congr hsame.1 (by rw [hsame.2.2.2]; exact List.Subset.refl _)

/-! ### The answers -/

def coreLowered : List String := ["schemas", "id", "externalid", "username", "name", "emails", "active", "meta"]

theorem core_lower (U : Unicode) : coreKeys.map U.lower = coreLowered := by
  have hascii : coreKeys.all (fun k => k.toList.all fun c => Nat.blt (Store.asciiLower c).toNat 128) = true := by
    rfl
  have hplain : coreKeys.map (fun k => String.ofList (k.toList.map Store.asciiLower)) = coreLowered := by rfl
  rw [← hplain]
  refine List.map_congr_left fun k hk => lower_ascii U fun c hc => ?_
  have hlt := List.all_eq_true.mp (List.all_eq_true.mp hascii k hk) c hc
  rwa [Nat.blt_eq] at hlt

/-- The keys of the core lower to different texts. -/
theorem core_lower_inj {k k' : String} (hk : k ∈ coreKeys) (hk' : k' ∈ coreKeys)
    (h : U.lower k = U.lower k') : k = k' := by
  have hnodup : (coreKeys.map U.lower).Nodup := by
    rw [core_lower]
    simp [coreLowered]
  exact List.inj_on_of_nodup_map hnodup hk hk' h

/-- What lowers as a key of the core does is reserved. -/
theorem core_lower_reserved {k k' : String} (hk : k ∈ coreKeys) (h : U.lower k' = U.lower k) :
    reservedAttribute k' = true := by
  have hmem : U.lower k ∈ reservedAttributes := by
    have hlow := List.mem_map_of_mem (f := U.lower) hk
    rw [core_lower] at hlow
    simp only [coreLowered, List.mem_cons, List.not_mem_nil, or_false] at hlow
    rcases hlow with hlow | hlow | hlow | hlow | hlow | hlow | hlow | hlow <;>
      simp [hlow, reservedAttributes]
  exact lower_reserved hmem h

/-- The answer to a read has no attribute twice. -/
theorem read_oneSpelling {plain : String → Option Json.Datum} {ss : List String} {ω : Ranking} {ext : Map}
    {f : String → Option Json.Datum} (hshaped : Shaped plain ss ω ext f)
    (hcore : ∀ k, (plain k).isSome → k ∈ coreKeys)
    (hfree : ∀ k, (ext.held k).isSome → reservedAttribute k = false)
    (hkeys : ∀ k k', (ext.held k).isSome → (ext.held k').isSome → U.lower k = U.lower k' → k = k')
    {k k' : String} (hk : (f k).isSome) (hk' : (f k').isSome) (h : U.lower k = U.lower k') : k = k' := by
  have hapart : ∀ {a b : String}, (plain a).isSome → (ext.held b).isSome → U.lower b ≠ U.lower a := by
    intro a b ha hb hlower
    have hreserved := core_lower_reserved (hcore a ha) hlower
    rw [hfree b hb] at hreserved
    cases hreserved
  rcases (hshaped.keys k).mp hk with hk | hk
  · rcases (hshaped.keys k').mp hk' with hk' | hk'
    · exact core_lower_inj (hcore k hk) (hcore k' hk') h
    · exact (hapart hk hk' h.symm).elim
  · rcases (hshaped.keys k').mp hk' with hk' | hk'
    · exact (hapart hk' hk h).elim
    · exact hkeys k k' hk hk' h

def twoSpellings : Db := registering blobless "dept" (registering blobless "Dept" .empty)

end Scimage.Scim
