import Scimage.Lib.Observer
import Scimage.Scim.Server

/-! A revoked token stays revoked, and lets nobody in who comes after. -/
namespace Scimage.Scim

open Txn Engine
open Store (Mutation Db Write Env DbError Postgres Stmt engine TokenRow tokenFocus AdminStep)
open Webhook (bytes)

variable {pg : Postgres} {s : Store} {R : Condition Stmt.Rows Write Env}
  {log pre : List (Commit Stmt.Rows Write Env)} {ws : List Write}

/-! ### The row of a token -/

/-- What may become of a token's row: it may be used, and it may be revoked once. -/
structure Later (r r' : TokenRow) : Prop where
  keyID : r'.keyID = r.keyID
  tenantID : r'.tenantID = r.tenantID
  secretHash : r'.secretHash = r.secretHash
  label : r'.label = r.label
  createdAt : r'.createdAt = r.createdAt
  createdBy : r'.createdBy = r.createdBy
  expiresAt : r'.expiresAt = r.expiresAt
  revokedAt : ∀ t, r.revokedAt = some t → r'.revokedAt = some t

theorem Later.refl (r : TokenRow) : Later r r :=
  ⟨rfl, rfl, rfl, rfl, rfl, rfl, rfl, fun _ h => h⟩

theorem Later.trans {a b c : TokenRow} (h : Later a b) (h' : Later b c) : Later a c where
  keyID := h'.keyID.trans h.keyID
  tenantID := h'.tenantID.trans h.tenantID
  secretHash := h'.secretHash.trans h.secretHash
  label := h'.label.trans h.label
  createdAt := h'.createdAt.trans h.createdAt
  createdBy := h'.createdBy.trans h.createdBy
  expiresAt := h'.expiresAt.trans h.expiresAt
  revokedAt t ht := h'.revokedAt t (h.revokedAt t ht)

/-- Every token is still there. -/
def TokensKept (d d' : Db) : Prop :=
  ∀ k r, d.tokens.find? k = some r → ∃ r', d'.tokens.find? k = some r' ∧ Later r r'

theorem TokensKept.refl (d : Db) : TokensKept d d := fun _ r h => ⟨r, h, .refl r⟩

theorem TokensKept.trans {a b c : Db} (h : TokensKept a b) (h' : TokensKept b c) : TokensKept a c := by
  intro k r hr
  obtain ⟨r', hr', hlater⟩ := h k r hr
  obtain ⟨r'', hr'', hlater'⟩ := h' k r' hr'
  exact ⟨r'', hr'', hlater.trans hlater'⟩

theorem tokens_other {k : String} (d : Db) (hk : .token k ∉ (engine pg).keysOf ws) :
    ((engine pg).applyAll d ws).tokens.find? k = d.tokens.find? k :=
  (tokenFocus pg k).see_applyAll_other (E := engine pg) d hk

theorem tokensKept_silent (d : Db) (hws : ∀ k, .token k ∉ (engine pg).keysOf ws) :
    TokensKept d ((engine pg).applyAll d ws) :=
  fun k r hr => ⟨r, (tokens_other d (hws k)).trans hr, .refl r⟩

/-- A token is put over the row that it was made from. -/
theorem tokensKept_put {rest : List Write} {x : TokenRow} (d : Db)
    (hx : ∀ c, d.tokens.find? x.keyID = some c → Later c x)
    (hrest : ∀ k, .token k ∉ (engine pg).keysOf rest) :
    TokensKept d ((engine pg).applyAll d (.putToken x :: rest)) := by
  intro k r hr
  rw [Engine.applyAll_cons, tokens_other _ (hrest k)]
  simp only [engine, Write.apply, Relational.Table.find?_put]
  by_cases hk : k = x.keyID
  · exact ⟨x, if_pos hk, hx r (hk ▸ hr)⟩
  · exact ⟨r, by rw [if_neg hk, hr], .refl r⟩

/-! ### Commits -/

theorem mutation_silent {m : Mutation} {db : Db} {now : Txn.Time} {hist : Store.History}
    (hm : m.History s (hist.map Record.entry)) (hs : (engine pg).Sound db R log now [] hist) (k : String) :
    .token k ∉ (engine pg).keysOf (writesOf hist) := by
  obtain ⟨t, dir, entry, queue, hf⟩ := Store.history_footprint hm hs
  rw [hf.writes_eq]
  intro hk
  obtain ⟨w, hw, hkw⟩ := List.mem_flatMap.mp hk
  rcases List.mem_append.mp hw with hw | hw
  · have hdir := hf.directory w hw
    cases w <;> first | exact hdir.elim | simp [engine, Write.keys] at hkw
  · exact Store.records_keys entry queue _ (List.mem_flatMap.mpr ⟨w, hw, hkw⟩)

/-- An operator's change found the row of the token as it still is. -/
theorem operated_tokens {d db : Db} (h : AdminStep d ws)
    (hsame : ∀ k, .token k ∈ (engine pg).keysOf ws → db.tokens.find? k = d.tokens.find? k) :
    TokensKept db ((engine pg).applyAll db ws) := by
  cases h with
  | issueToken r a tenantID hfree hrevoked ha =>
    refine tokensKept_put db (fun c hc => ?_) fun k => by simp [engine, Write.keys, Engine.keysOf]
    have hfind := hsame r.keyID (by simp [engine, Write.keys, Engine.keysOf])
    cases (hc.symm.trans hfind).trans hfree
  | revokeToken r t a tenantID hr hrevoked ha =>
    refine tokensKept_put db (fun c hc => ?_) fun k => by simp [engine, Write.keys, Engine.keysOf]
    have hfind := hsame r.keyID (by simp [engine, Write.keys, Engine.keysOf])
    obtain rfl := Option.some.inj ((hc.symm.trans hfind).trans hr)
    exact ⟨rfl, rfl, rfl, rfl, rfl, rfl, rfl, fun t ht => by cases hrevoked.symm.trans ht⟩
  | read | issueConsoleToken | revokeConsoleToken | registerAttribute | unregisterAttribute
  | replayDeadLetter => exact tokensKept_silent db fun k => by simp [engine, Write.keys, Engine.keysOf]

/-- `TouchToken` puts the row that it has found, with the time of its use. -/
theorem looked_tokens {t : Stmt} {now : Txn.Time} {env : Env} {d : Db} {rows : t.Rows}
    (ht : Looked t ∨ Store.Denied t) (h : Store.exec pg now env t d d = .ok (rows, ws)) :
    TokensKept d ((engine pg).applyAll d ws) := by
  by_cases htouch : ∃ k, t = .touchToken k
  · obtain ⟨k, rfl⟩ := htouch
    simp only [Store.exec, Store.execTouchToken] at h
    split at h
    · rename_i r hr
      cases h
      refine tokensKept_put d (fun c hc => ?_) fun k => by simp [Engine.keysOf]
      have hkey : r.keyID = k := Relational.Table.find?_key hr
      obtain rfl := Option.some.inj (hc.symm.trans (hkey ▸ hr))
      exact ⟨rfl, rfl, rfl, rfl, rfl, rfl, rfl, fun _ h => h⟩
    · cases h
      exact .refl d
  · refine tokensKept_silent d fun k hk => ?_
    obtain ⟨w, hw, hkw⟩ := List.mem_flatMap.mp hk
    have hmay := Store.exec_mayWrite h w hw
    cases w with
    | putToken r =>
      cases t <;> first
        | exact Bool.false_ne_true hmay
        | exact ht.elim id id
        | exact htouch ⟨_, rfl⟩
    | _ => simp [engine, Write.keys] at hkw

/-- No commit of the server takes a token away, gives it to somebody else or brings it back. -/
theorem history_tokensKept (h : ServerLog pg s R log) (hpre : pre <+: log) :
    TokensKept ((engine pg).current .empty pre) ((engine pg).current .empty log) := by
  induction h with
  | nil =>
    obtain rfl := List.prefix_nil.mp hpre
    exact .refl _
  | @tx log c h hc hs ih =>
    rcases List.prefix_concat_iff.mp hpre with rfl | hpre
    · exact .refl _
    · refine (ih hpre).trans ?_
      rw [Engine.current_snoc, Commit.writes]
      rcases hc with ⟨m, -, hm⟩ | ho
      · exact tokensKept_silent _ (mutation_silent hm hs)
      · obtain ⟨pos, hop, hheld⟩ := Store.operated_step ho hs
        refine operated_tokens hop fun k hk => ?_
        exact (Store.held_see .empty (tokenFocus pg k) hk hheld).symm
  | @pool log now r h hd hx ih =>
    rcases List.prefix_concat_iff.mp hpre with rfl | hpre
    · exact .refl _
    · refine (ih hpre).trans ?_
      rw [Engine.current_snoc, Commit.writes, writesOf_cons, writesOf_nil, List.append_nil]
      exact looked_tokens hd hx

/-! ### A request that comes after -/

/-- The key has been revoked. -/
def Revoked (k : String) (d : Db) : Prop := ∃ r, d.tokens.find? k = some r ∧ r.revokedAt.isSome

theorem TokensKept.revoked {k : String} {d d' : Db} (h : TokensKept d d') (hk : Revoked k d) :
    Revoked k d' := by
  obtain ⟨r, hr, hrevoked⟩ := hk
  obtain ⟨r', hr', hlater⟩ := h k r hr
  obtain ⟨t, ht⟩ := Option.isSome_iff_exists.mp hrevoked
  exact ⟨r', hr', by rw [hlater.revokedAt t ht]; rfl⟩

/-- The credential names the key, with whatever secret. -/
def Bears (k : String) (r : WebRequest) : Prop :=
  ∃ secret, parseToken (bearerToken r.authorization) = some (bytes k, secret)

section Refused

variable {k : String} {chain : Chain} {r : WebRequest}

theorem observes_getToken : (engine pg).Observes (Revoked k)
    (fun x => ∀ tok, x = .ok tok → tok.revokedAt.isSome) (Store.getTokenByKeyID k).run := by
  refine ⟨fun now env d rows ws hd hx => ?_, fun e => ?_⟩
  · obtain ⟨r, hr, hrevoked⟩ := hd
    simp only [engine, Store.exec, Except.ok.injEq, Prod.mk.injEq] at hx
    obtain ⟨rfl, rfl⟩ := hx
    refine ⟨rfl, ?_⟩
    rw [hr]
    rintro tok htok
    cases htok
    exact hrevoked
  · change (engine pg).Observes _ _
      (if Store.isMissingRow e then throw .notFound else throw (.db e) : Store.Call TokenRow).run
    split
    all_goals
      intro tok htok
      cases htok

theorem observes_identify (hr : Bears k r) :
    (engine pg).Observes (Revoked k) (fun x => x = .ok none) (chain.identify r).run := by
  obtain ⟨secret, hparse⟩ := hr
  have htoken : (engine pg).Observes (Revoked k)
      (fun x => ∃ tok, x = .ok tok ∧ ∀ row, tok = some row → row.revokedAt.isSome)
      (tokenOf r.authorization).run := by
    simp only [tokenOf, hparse, textOf_bytes, if_true]
    refine observes_bind (observes_mono (fun x hx => ⟨x.toOption, rfl, fun row hrow => ?_⟩) observes_getToken)
    cases x with
    | error e => cases hrow
    | ok tok => exact hx row (congrArg Except.ok (Option.some.inj hrow))
  unfold Chain.identify
  rw [ExceptT.run_bind]
  refine observes_bind (observes_mono ?_ htoken)
  rintro x ⟨tok, rfl, htok⟩ now
  refine congrArg Except.ok ?_
  unfold authenticate
  rw [hparse]
  cases tok with
  | none => rfl
  | some row => exact if_pos (htok row rfl)

/-- A request that bears a revoked key looks it up and is refused. -/
theorem observes_request (sha256 : String → List UInt8) {r : Incoming} (hr : Bears k r.web) :
    (engine pg).Observes (Revoked k) (fun x => x = some unauthorized)
      ((Work.request r).prog chain sha256) := by
  refine observes_bind (p := (chain.serveRequest r).run) ?_
  unfold Chain.serveRequest Chain.requireToken
  rw [ExceptT.run_bind]
  refine observes_bind (observes_mono ?_ (observes_identify hr))
  rintro x rfl
  exact rfl

end Refused

/-- From the commit of its revocation on, a token's row keeps all it says and the instant of the
revocation; and a request with its key that has not been looked at by then, wherever it comes in and
whatever runs beside it, opens no transaction and can only be answered 401. -/
theorem revoked_token_shuts_out {ι : Type} [DecidableEq ι] [Fintype ι] {chain : Chain}
    {sha256 : String → List UInt8} {works : ι → Work} {st st' : Server ι} {i : ι} {k : String}
    {row : TokenRow} {t : Store.Time} {r : Incoming}
    (h : (engine pg).Reach .empty (serverProgs chain sha256 works) (fun _ _ => True) st)
    (hrow : (st.db pg).tokens.find? k = some row) (hrevoked : row.revokedAt = some t)
    (hi : works i = .request r) (hr : Bears k r.web)
    (hstart : st.threads i = ⟨serverProgs chain sha256 works i, .closed, none⟩)
    (hon : (engine pg).Onward .empty st st') :
    (∃ row', (st'.db pg).tokens.find? k = some row' ∧ Later row row' ∧ row'.revokedAt = some t) ∧
      (st'.threads i).tx = .closed ∧
      ∀ x, (st'.threads i).prog = .done x → x = some unauthorized := by
  have hkept : ∀ n, (engine pg).Onward .empty st n → TokensKept (st.db pg) (Server.db pg n) := by
    intro n hn
    have hall : (engine pg).Reach .empty (serverProgs chain sha256 works)
        ((engine pg).Meets fun _ _ _ => True) n :=
      (h.onward hn).mono fun _ e _ => by cases e <;> simp [Meets]
    exact history_tokensKept (reach_served hall) hn.log_prefix
  have hidle : (engine pg).Watching (Revoked k) (fun x => x = some unauthorized) (st.threads i) := by
    rw [hstart, serverProgs, hi]
    exact ⟨rfl, observes_request sha256 hr⟩
  have hwatching := hon.watching (fun n hn => (hkept n hn).revoked ⟨row, hrow, by rw [hrevoked]; rfl⟩) hidle
  obtain ⟨row', hrow', hlater⟩ := hkept st' hon k row hrow
  refine ⟨⟨row', hrow', hlater, hlater.revokedAt t hrevoked⟩, hwatching.1, fun x hx => ?_⟩
  have hprog := hwatching.2
  rw [hx] at hprog
  exact hprog

/-- The key is issued and revoked before the request that bears it is looked at. -/
def lateWorks : Store.Client → Work
  | .first => .operate (.issueToken "key" "s" "tenant" "" "" none)
  | .second => .operate (.revokeToken "key" "root")
  | .third => .request postAnn

theorem late_run : ∃ st st' : Server Store.Client,
    (engine Store.plainText).steps .empty (fun _ _ => True)
      (.start (serverProgs plainChain bytes lateWorks))
      (workSteps .first 5 ++ workSteps .second 1 ++ [.wait .second] ++ workSteps .second 4) = some st ∧
    (engine Store.plainText).steps .empty (fun _ _ => True) st (workSteps .third 2) = some st' ∧
    (st.db Store.plainText).tokens.find? "key" =
      some ⟨"key", "tenant", bytes "s", "", 0, none, none, none, some 0⟩ ∧
    st.threads .third = ⟨serverProgs plainChain bytes lateWorks .third, .closed, none⟩ ∧
    ∃ x, (st'.threads .third).prog = .done x :=
  ⟨_, _, rfl, rfl, rfl, rfl, _, rfl⟩

theorem revoked_token_shuts_out_late : ∃ st : Server Store.Client,
    (st.threads .third).prog = .done (some unauthorized) ∧
      ∃ row, (st.db Store.plainText).tokens.find? "key" = some row ∧ row.revokedAt = some 0 := by
  obtain ⟨st, st', hst, hst', hrow, hstart, x, hx⟩ := late_run
  obtain ⟨⟨row, hrow', -, hrevoked⟩, -, hanswer⟩ := revoked_token_shuts_out (reach_steps .start hst) hrow rfl
    rfl ⟨bytes "s", rfl⟩ hstart (onward_steps .refl hst')
  exact ⟨st', hanswer x hx ▸ hx, row, hrow', hrevoked⟩

end Scimage.Scim
