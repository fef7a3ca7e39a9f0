import Scimage.Store.Interleaving

/-! The audit chain of a group under concurrent mutations. -/
namespace Scimage.Store

open Txn Engine

/-- Nobody disturbs the writes of a group between the first SELECT of their transaction and the
moment they act, and its id is not generated twice. -/
def Intact (pg : Postgres) (k : Uuid) : Condition Stmt.Rows Write Env :=
  fun log prior x => Undisturbed pg (.group k) log prior x ∧ FreshID pg (.group k) log prior x

instance (pg : Postgres) (k : Uuid) (log : List (Commit Stmt.Rows Write Env)) (prior : History)
    (x : Turn Stmt Env) : Decidable (Intact pg k log prior x) :=
  inferInstanceAs (Decidable (_ ∧ _))

theorem countP_le_one {α : Type} {p : α → Bool} {l : List α}
    (h : l.Pairwise fun a _ => p a = false) : l.countP p ≤ 1 := by
  induction h with
  | nil => simp
  | @cons a l ha _ ih =>
    cases hp : p a with
    | false => simpa [hp] using ih
    | true =>
      have hnil : l = [] := List.eq_nil_iff_forall_not_mem.mpr fun b hb => by
        simpa [hp] using ha b hb
      simp [hnil, hp]

variable {ι : Type} [DecidableEq ι] [Fintype ι] {pg : Postgres} {s : Store} {k : Uuid}
  {log : List (Commit Stmt.Rows Write Env)}

/-- In the trail of an intact group nothing follows a deletion. -/
theorem trail_pairwise (h : Commits pg s (Intact pg k) log) :
    (((engine pg).current .empty log).trail (.group k)).Pairwise
      fun a _ => a.action ≠ .delete := by
  have hclosed := (commits_mirrored (t := .group k) (fun _ _ _ h => h.1) h).faithful.closed
    (commits_fresh (fun _ _ _ h => h) h)
  refine (List.Pairwise.filter _ hclosed).imp_of_mem ?_
  intro a b ha hb hab
  obtain ⟨hmem, hka⟩ := List.mem_filter.mp ha
  rw [ne_eq, commits_deleted h a hmem]
  exact hab (by simpa using hka) (by simpa using (List.mem_filter.mp hb).2)

/-- If no other transaction commits a group between the first SELECT of a transaction and its
UPDATE or DELETE, the successful entries of the group form a chain that ends with its deletion,
and it has at most one `group.deleted` event. -/
theorem group_trail_chained {ms : ι → Mutation} {st : System ι}
    (h : (engine pg).Reach .empty (mutationProgs ⟨true⟩ ms)
      ((engine pg).Meets (Intact pg k)) st) :
    ((st.db pg).trail (.group k)).IsChain (fun a b => b.before = a.after) ∧
    ((st.db pg).trail (.group k)).countP (fun a => a.action = .delete) ≤ 1 ∧
    ((st.db pg).queue (.group k)).countP (fun d => d.eventType = .groupDeleted) ≤ 1 ∧
    ∀ es a fs, (st.db pg).trail (.group k) = es ++ a :: fs → a.action = .delete → fs = [] := by
  have hlog := reach_commits h
  have hpair := trail_pairwise hlog
  have hcount : ((st.db pg).trail (.group k)).countP (fun a => a.action = .delete) ≤ 1 :=
    countP_le_one (hpair.imp fun ha => by simpa using ha)
  refine ⟨(commits_mirrored (t := .group k) (fun _ _ _ h => h.1) hlog).faithful.isChain, hcount,
    ?_, ?_⟩
  · have hqueue := congrArg (List.countP fun x => x.2.2) (commits_announced (.group k) hlog)
    rw [List.countP_map, List.countP_map] at hqueue
    exact Nat.le_trans (Nat.le_of_eq hqueue) hcount
  · intro es a fs htrail hdelete
    rw [System.db] at htrail
    rw [htrail, List.pairwise_append] at hpair
    have hafter := (List.pairwise_cons.mp hpair.2.1).1
    exact List.eq_nil_iff_forall_not_mem.mpr fun b hb => hafter b hb hdelete

/-! A group is created and deleted by two transactions. -/

def deletions : Client → Mutation
  | .first => .createGroup "tenant" ⟨"", none, "staff", [], 0, 0⟩ ⟨"key", "", "tenant"⟩
  | _ => .deleteGroup "tenant" someUuid.text ⟨"key", "", "tenant"⟩

def groupEffects (i : Client) (n : Nat) : List (Event (Client) Env DbError) :=
  List.replicate n (.run i ⟨someUuid, 1⟩ 0)

/-- The second deletion starts when the first has committed, and finds no group. -/
def oneByOne : List (Event (Client) Env DbError) :=
  groupEffects .first 9 ++ groupEffects .second 3 ++ [.wait .second] ++
    groupEffects .second 6 ++ groupEffects .third 4

/-- Both deletions read the group before either removes it. -/
def together : List (Event (Client) Env DbError) :=
  groupEffects .first 9 ++ groupEffects .second 3 ++ groupEffects .third 3 ++ [.wait .second] ++
    groupEffects .second 6 ++ [.wait .third] ++ groupEffects .third 6

def groupActions (st : System (Client)) : List Action :=
  ((st.db plainText).trail (.group someUuid)).map AuditRow.action

theorem group_trail_chained_one_by_one : ∃ st : System (Client),
    groupActions st = [.create, .delete] ∧
      ((st.db plainText).queue (.group someUuid)).countP
        (fun d => d.eventType = .groupDeleted) ≤ 1 := by
  obtain ⟨st, hst, hactions⟩ : ∃ st, (engine plainText).steps .empty
      ((engine plainText).Meets (Intact plainText someUuid))
      (.start (mutationProgs ⟨true⟩ deletions)) oneByOne = some st ∧
        groupActions st = [.create, .delete] :=
    Option.map_eq_some_iff.mp rfl
  exact ⟨st, hactions, (group_trail_chained (reach_steps .start hst)).2.2.1⟩

/-- The second DELETE removes no row, and yet is recorded and announced. -/
theorem group_deleted_twice : ∃ st : System (Client),
    (engine plainText).Reach .empty (mutationProgs ⟨true⟩ deletions) (fun _ _ => True) st ∧
      groupActions st = [.create, .delete, .delete] ∧
      ((st.db plainText).queue (.group someUuid)).countP
        (fun d => d.eventType = .groupDeleted) = 2 := by
  obtain ⟨st, hst, hfacts⟩ : ∃ st, (engine plainText).steps .empty (fun _ _ => True)
      (.start (mutationProgs ⟨true⟩ deletions)) together = some st ∧
        (groupActions st, ((System.db plainText st).queue (.group someUuid)).countP
          fun d => d.eventType = .groupDeleted) = ([.create, .delete, .delete], 2) :=
    Option.map_eq_some_iff.mp rfl
  exact ⟨st, reach_steps .start hst, Prod.mk.inj hfacts⟩

end Scimage.Store
