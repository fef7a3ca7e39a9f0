import Scimage.Store.Interleaving

/-! The audit chain of a user under concurrent mutations. -/
namespace Scimage.Store

open Txn Engine

variable {ι : Type} [DecidableEq ι] [Fintype ι] {pg : Postgres} {ms : ι → Mutation} {k : Uuid}
  {st : System ι}

/-- If no other transaction commits the user between the snapshot of an UPDATE of it and the
moment the UPDATE acts, the successful entries of the user form a chain and every commit that
takes its row from active to inactive queues `user.deactivated`. -/
theorem user_trail_chained
    (h : (engine pg).Reach .empty (mutationProgs ⟨true⟩ ms)
      ((engine pg).Meets (Undisturbed pg (.user k))) st) :
    ((st.db pg).trail (.user k)).IsChain (fun a b => b.before = a.after) ∧
    ∀ pre c b a, pre ++ [c] <+: st.log →
      ((engine pg).current .empty pre).users.find? k = some b →
      ((engine pg).current .empty (pre ++ [c])).users.find? k = some a →
      b.active = true → a.active = false →
      ∃ d, deliveriesOf c = [d] ∧ d.target = some (.user k) ∧
        d.eventType = .userDeactivated := by
  have hlog := reach_commits h
  constructor
  · exact (commits_mirrored (t := .user k) (fun _ _ _ h => h) hlog).faithful.isChain
  · intro pre c b a hpre hb ha hbefore hafter
    exact commits_deactivated (fun _ _ _ h => h) (hlog.of_prefix hpre) hb ha hbefore hafter

/-! A user is created inactive, activated by one transaction and deactivated by another. -/

def activation : Client → Mutation
  | .first => .createUser "tenant" { newUser "ann" with active := false } ⟨"key", "", "tenant"⟩
  | .second => .updateUser "tenant" someUuid.text (newUser "ann") ⟨"key", "", "tenant"⟩
  | .third => .updateUser "tenant" someUuid.text { newUser "ann" with active := false }
      ⟨"key", "", "tenant"⟩

def effects (i : Client) (n : Nat) : List (Event (Client) Env DbError) :=
  List.replicate n (.run i ⟨someUuid, 1⟩ 0)

/-- The deactivation starts when the activation has committed. -/
def orderly : List (Event (Client) Env DbError) :=
  effects .first 6 ++ effects .second 1 ++ [.wait .second] ++ effects .second 5 ++ [.tick 1] ++
    effects .third 1 ++ [.wait .third] ++ effects .third 5

/-- The deactivation has its snapshot when the activation commits, and acts after it. -/
def stale : List (Event (Client) Env DbError) :=
  effects .first 6 ++ effects .second 1 ++ effects .third 1 ++ [.wait .second, .wait .third] ++
    effects .second 5 ++ effects .third 5

def userActive (log : List (Commit Stmt.Rows Write Env)) : Option Bool :=
  (((engine plainText).current .empty log).users.find? someUuid).map UserRow.active

def linked (es : List AuditRow) : Bool := decide (es.IsChain fun a b => b.before = a.after)

theorem user_trail_chained_orderly : ∃ st : System (Client),
    ((st.db plainText).trail (.user someUuid)).length = 3 ∧
      ((st.db plainText).trail (.user someUuid)).IsChain (fun a b => b.before = a.after) := by
  obtain ⟨st, hst, hlen⟩ : ∃ st, (engine plainText).steps .empty
      ((engine plainText).Meets (Undisturbed plainText (.user someUuid)))
      (.start (mutationProgs ⟨true⟩ activation)) orderly = some st ∧
        ((System.db plainText st).trail (.user someUuid)).length = 3 :=
    Option.map_eq_some_iff.mp rfl
  exact ⟨st, hlen, (user_trail_chained (reach_steps .start hst)).1⟩

/-- The third entry starts from the row before the activation, and the commit that takes the
user from active to inactive queues `user.replaced`. -/
theorem stale_snapshot_breaks_user_trail : ∃ st : System (Client),
    (engine plainText).Reach .empty (mutationProgs ⟨true⟩ activation) (fun _ _ => True) st ∧
      ¬ ((st.db plainText).trail (.user someUuid)).IsChain (fun a b => b.before = a.after) ∧
      userActive st.log.dropLast = some true ∧ userActive st.log = some false ∧
      (st.log.getLast?.map fun c => (deliveriesOf c).map DeliveryRow.eventType) =
        some [.userReplaced] := by
  obtain ⟨st, hst, hfacts⟩ : ∃ st, (engine plainText).steps .empty (fun _ _ => True)
      (.start (mutationProgs ⟨true⟩ activation)) stale = some st ∧
        (linked ((System.db plainText st).trail (.user someUuid)), userActive st.log.dropLast,
          userActive st.log, st.log.getLast?.map fun c => (deliveriesOf c).map
            DeliveryRow.eventType) = (false, some true, some false, some [.userReplaced]) :=
    Option.map_eq_some_iff.mp rfl
  simp only [Prod.mk.injEq, linked, decide_eq_false_iff_not] at hfacts
  exact ⟨st, reach_steps .start hst, hfacts⟩

end Scimage.Store
