import Scimage.Scim.Denials
import Scimage.Scim.Filter
import Scimage.Store.Listing

/-! A client that reads a list page by page. -/
namespace Scimage.Scim

open Txn Engine
open Store (engine Db Env DbError StoreWorld Postgres UserRow GroupRow scanUser)
open Json (Value)

/-- The answer to a list request that finds the database `db`. -/
def answer (pg : Postgres) (supply : Nat → Supply Env DbError) (c : Handling Page) (db : Db) :
    Except Response Page :=
  ((engine pg).run supply c.run (World.start db)).1

def number (n : Nat) : String := String.ofList (Decimal.format n)

/-- The `k`-th request of a client, for the page from the `i`-th match on. -/
def askUsers (pg : Postgres) (h : Handler) (supply : Nat → Nat → Supply Env DbError) (db : Db)
    (requests : Nat → Request) (filter : String) (count k i : Nat) : Option Page :=
  (answer pg (supply k) (h.list (requests k) ⟨filter, number i, number count⟩) db).toOption

def askGroups (pg : Postgres) (h : Handler) (supply : Nat → Nat → Supply Env DbError) (db : Db)
    (requests : Nat → Request) (filter : String) (count k i : Nat) : Option Page :=
  (answer pg (supply k) (h.listGroups (requests k) ⟨filter, number i, number count⟩) db).toOption

/-- A walk over the pages shows all rows in order, each once. -/
structure Listed {ρ : Type} (ask : Nat → Nat → Option Page) (rows : List ρ)
    (resource : Nat → ρ → Value) (count : Nat) : Prop where
  walked : ∃ (fuel : Nat) (pages : List Page) (chunks : List (List ρ)),
    Paging.walk ask Page.totalResults Page.itemsPerPage fuel 0 1 = some pages ∧
      chunks.flatten = rows ∧ pages.length = chunks.length ∧
      ∀ (k : Nat) (p : Page) (c : List ρ), pages[k]? = some p → chunks[k]? = some c →
        p.totalResults = rows.length ∧
        p.itemsPerPage = c.length ∧ c.length ≤ min count Store.maxPageSize ∧
        p.resources = c.map (resource k)
  beyond : ∀ k i, rows.length < i → i < 9223372036854775808 →
    ∃ p, ask k i = some p ∧ p.totalResults = rows.length ∧ p.resources = []
  overflow : ∀ k i, 9223372036854775808 ≤ i → ask k i = ask k 1

section Numbers

theorem atoi_number {n : Nat} (h : n < 9223372036854775808) : atoi (number n) = some (n : Int) := by
  rw [atoi, number, String.toList_ofList]
  exact Decimal.parse_format (by omega) (by omega)

theorem startIndexOf_number {n : Nat} (hn : 1 ≤ n) (h : n < 9223372036854775808) :
    startIndexOf (number n) = n := by
  rw [startIndexOf, atoi_number h]
  dsimp only
  split <;> omega

theorem countOf_number {n : Nat} (h : n < 9223372036854775808) : countOf (number n) = n := by
  rw [countOf, atoi_number h]
  dsimp only
  omega

/-- A number that is no `int` is read as none at all. -/
theorem startIndexOf_overflow {n : Nat} (h : 9223372036854775808 ≤ n) :
    startIndexOf (number n) = 1 := by
  have hnone : atoi (number n) = none := by
    have hformat : Decimal.format n = Nat.toDigits 10 n := by
      rw [Decimal.format, if_neg (by omega)]
      rfl
    rw [atoi, number, String.toList_ofList, hformat, Decimal.parse_toDigits, if_neg (by omega)]
  rw [startIndexOf, hnone]

end Numbers

section Walk

variable {pg : Postgres} {h : Handler} {db : Db} {requests : Nat → Request}
  {supply : Nat → Nat → Supply Env DbError} {tenantID filter : String} {count k i : Nat}

theorem answer_eq {supply : Nat → Supply Env DbError} {c : Handling Page} {p : Page}
    (hl : (engine pg).Leads supply c (fun q _ => q = p) (fun _ _ => False) (World.start db)) :
    answer pg supply c db = .ok p := by
  unfold Leads at hl
  unfold answer
  revert hl
  rcases (engine pg).run supply c.run (World.start db) with ⟨resp | q, w⟩
  · exact False.elim
  · rintro rfl
    rfl

/-- The page that shows `n` of the rows from the one with number `i` on. -/
def pageOf {ρ : Type} (rows : List ρ) (resource : ρ → Value) (i n : Nat) : Page :=
  ⟨rows.length, ((rows.drop (i - 1)).take n).length, i, ((rows.drop (i - 1)).take n).map resource⟩

/-- What a request for users is answered with. -/
theorem answer_users (pg : Postgres) (db : Db) {supply : Nat → Supply Env DbError} {r : Request} {q : ListQuery}
    {f : Store.UserFilter} (hf : parseFilter h.unicode q.filter = .ok f) (hq : Quiet supply)
    {j n : Nat} (hj : 1 ≤ j) (hs : startIndexOf q.startIndex = j) (hc : countOf q.count = n) :
    answer pg supply (h.list r q) db =
      .ok (pageOf (db.usersInOrder pg r.tenantID f) (fun x => h.userResource r (scanUser x)) j
        (min n Store.maxPageSize)) := by
  refine answer_eq ?_
  have hw : (World.start db : StoreWorld).Idle db := ⟨rfl, rfl⟩
  have hparams : pageParams q = ((j : Int), (n : Int)) := by rw [pageParams, hs, hc]
  unfold Handler.list
  rw [hf]
  simp only [hparams]
  refine leads_bind.mpr (leads_ofExcept.mpr ?_)
  refine leads_bind.mpr (leads_refusedWith.mpr (Store.leads_listUsers (by omega) (by omega) hw ?_ ?_))
  · intro w' hidle
    rw [leads_pure]
    have hoffset : ((j : Int) - 1).toNat = j - 1 := by omega
    have hlimit : (min (n : Int) Store.maxPageSize).toNat = min n Store.maxPageSize := by omega
    rw [hoffset, hlimit, ← (Store.usersInOrder_sorted pg db r.tenantID f).1.length_eq]
    simp only [pageOf, List.map_map, List.length_map]
    rfl
  · intro e w' hnot
    exact (hnot hq).elim

theorem answer_groups (pg : Postgres) (db : Db) {supply : Nat → Supply Env DbError} {r : Request} {q : ListQuery}
    {f : Store.GroupFilter} (hf : parseGroupFilter h.unicode q.filter = .ok f) (hq : Quiet supply)
    {j n : Nat} (hj : 1 ≤ j) (hs : startIndexOf q.startIndex = j) (hc : countOf q.count = n) :
    answer pg supply (h.listGroups r q) db =
      .ok (pageOf (db.groupsInOrder pg r.tenantID f)
        (fun x => h.groupResource r (db.groupWithMembers x)) j (min n Store.maxPageSize)) := by
  refine answer_eq ?_
  have hw : (World.start db : StoreWorld).Idle db := ⟨rfl, rfl⟩
  have hparams : pageParams q = ((j : Int), (n : Int)) := by rw [pageParams, hs, hc]
  unfold Handler.listGroups
  rw [hf]
  simp only [hparams]
  refine leads_bind.mpr (leads_ofExcept.mpr ?_)
  refine leads_bind.mpr (leads_refusedWith.mpr
    (Store.leads_listGroups (by omega) (by omega) hw ?_ ?_))
  · intro w' hidle
    rw [leads_pure]
    have hoffset : ((j : Int) - 1).toNat = j - 1 := by omega
    have hlimit : (min (n : Int) Store.maxPageSize).toNat = min n Store.maxPageSize := by omega
    rw [hoffset, hlimit, ← (Store.groupsInOrder_sorted pg db r.tenantID f).1.length_eq]
    simp only [pageOf, List.map_map, List.length_map]
    rfl
  · intro e w' hnot
    exact (hnot hq).elim

theorem askUsers_eq {f : Store.UserFilter} (hf : parseFilter h.unicode filter = .ok f)
    (ht : (requests k).tenantID = tenantID) (hq : Quiet (supply k)) {j : Nat} (hj : 1 ≤ j)
    (hs : startIndexOf (number i) = j) (hc : count < 9223372036854775808) :
    askUsers pg h supply db requests filter count k i =
      some (pageOf (db.usersInOrder pg tenantID f) (fun r => h.userResource (requests k) (scanUser r))
        j (min count Store.maxPageSize)) := by
  have hanswer := answer_users pg db (r := requests k)
    (q := ⟨filter, number i, number count⟩) hf hq hj hs (countOf_number hc)
  rw [ht] at hanswer
  rw [askUsers, hanswer]
  rfl

theorem askGroups_eq {f : Store.GroupFilter} (hf : parseGroupFilter h.unicode filter = .ok f)
    (ht : (requests k).tenantID = tenantID) (hq : Quiet (supply k)) {j : Nat} (hj : 1 ≤ j)
    (hs : startIndexOf (number i) = j) (hc : count < 9223372036854775808) :
    askGroups pg h supply db requests filter count k i =
      some (pageOf (db.groupsInOrder pg tenantID f)
        (fun r => h.groupResource (requests k) (db.groupWithMembers r)) j
        (min count Store.maxPageSize)) := by
  have hanswer := answer_groups pg db (r := requests k)
    (q := ⟨filter, number i, number count⟩) hf hq hj hs (countOf_number hc)
  rw [ht] at hanswer
  rw [askGroups, hanswer]
  rfl

/-- Answers that are windows of the rows make up the rows. -/
theorem listed_of_windows {ρ : Type} {rows : List ρ} {resource : Nat → ρ → Value}
    {ask : Nat → Nat → Option Page} (hcount : 1 ≤ count) (hrows : rows.length < 9223372036854775808)
    (hask : ∀ k i j : Nat, 1 ≤ j → startIndexOf (number i) = (j : Int) →
      ask k i = some (pageOf rows (resource k) j (min count Store.maxPageSize))) :
    Listed ask rows resource count := by
  have hin : ∀ k i, 1 ≤ i → i < 9223372036854775808 →
      ask k i = some (pageOf rows (resource k) i (min count Store.maxPageSize)) :=
    fun k i hi hlt => hask k i i hi (startIndexOf_number hi hlt)
  have hpage : 0 < min count Store.maxPageSize := by
    have : Store.maxPageSize = 200 := rfl
    omega
  refine ⟨?_, ?_, ?_⟩
  · have hwindow : ∀ k i, 1 ≤ i → i ≤ max 1 rows.length → ∃ p, ask k i = some p ∧
        Paging.Window rows (min count Store.maxPageSize) i
          (fun p c => p.itemsPerPage = c.length ∧ p.resources = c.map (resource k))
          Page.totalResults Page.itemsPerPage p :=
      fun k i hi hle => ⟨_, hin k i hi (by omega), rfl, rfl, rfl, rfl⟩
    obtain ⟨fuel, pages, chunks, hwalk, hcovers, htotal⟩ := Paging.walk_covers hpage hwindow
    refine ⟨fuel, pages, chunks, hwalk, hcovers.all, hcovers.length, ?_⟩
    intro k p c hp hc
    obtain ⟨⟨hsize, hitems⟩, hle⟩ := hcovers.pages k p c hp hc
    rw [Nat.zero_add] at hitems
    exact ⟨htotal p (List.mem_of_getElem? hp), hsize, hle, hitems⟩
  · intro k i hlt hi
    refine ⟨_, hin k i (by omega) hi, rfl, ?_⟩
    rw [pageOf, List.drop_of_length_le (by omega)]
    simp
  · intro k i hi
    rw [hask k i 1 (by omega) (startIndexOf_overflow hi), hin k 1 (by omega) (by omega)]

end Walk

/-! ### Three users, created at one instant, two on a page -/

def rowOf (n : Fin 65536) (name : String) : UserRow :=
  ⟨"tenant", ⟨List.replicate 8 n, rfl⟩, name, none, none, none, none, true, 5, 5, none⟩

def threeUsers : Db :=
  [rowOf 3 "cid", rowOf 1 "ann", rowOf 2 "bob"].foldl (fun db r => Store.Write.apply db (.putUser r))
    .empty

def everyone : Store.UserFilter := ⟨"", ""⟩

end Scimage.Scim
