import Scimage.Lib.Utf8
import Scimage.Store.Call
import Scimage.Store.Outbox

/-! Causes as a receiver answers them: any bytes. -/
namespace Scimage.Store.Raw

open Utf8 (encode decode toValidUTF8 characters Valid Cut)

/-! ### The text -/

/-- `truncateCause`. Runes are counted in what is left of the text. -/
def truncateCause (s : List UInt8) : List UInt8 :=
  let s := toValidUTF8 [] false 0 (s.filter (· ≠ 0))
  let r := decode 0 s
  if r.length ≤ maxCauseLen then s
  else encode (r.take maxCauseLen) ++ encode ['…']

/-- Without its NULs, the text is valid as it stands. -/
def Clean (s : List UInt8) : Prop := 0 ∉ s ∧ Valid s

/-- What is left of a text: its NULs go first, so that bytes that they kept apart may join. -/
def kept (s : List UInt8) : List Char := characters (s.filter (· ≠ 0))

/-- At most `maxCauseLen` characters, and a mark where there were more. -/
def shortened (cs : List Char) : List Char :=
  if cs.length ≤ maxCauseLen then cs else cs.take maxCauseLen ++ ['…']

variable {s : List UInt8} {cs : List Char}

theorem truncateCause_eq (s : List UInt8) : truncateCause s = encode (shortened (kept s)) := by
  unfold truncateCause shortened
  dsimp only
  rw [Utf8.toValidUTF8_characters, Utf8.decode_encode, kept]
  split_ifs
  · rfl
  · rw [Utf8.encode_append]

theorem shortened_length (cs : List Char) : (shortened cs).length ≤ maxCauseLen + 1 := by
  unfold shortened
  split_ifs with h
  · omega
  · rw [List.length_append, List.length_take, List.length_singleton]
    omega

/-- A text that was cut is cut in the same place again. -/
theorem shortened_shortened (cs : List Char) : shortened (shortened cs) = shortened cs := by
  by_cases h : cs.length ≤ maxCauseLen
  · have hcs : shortened cs = cs := if_pos h
    rw [hcs, hcs]
  · have hcs : shortened cs = cs.take maxCauseLen ++ ['…'] := if_neg h
    have htake : (cs.take maxCauseLen).length = maxCauseLen := by
      rw [List.length_take]
      omega
    rw [hcs, shortened, if_neg (by rw [List.length_append, htake]; simp),
      List.take_append_of_le_length (by omega), List.take_take, Nat.min_self]

theorem mem_shortened {c : Char} (h : c ∈ shortened cs) : c ∈ cs ∨ c = '…' := by
  unfold shortened at h
  split_ifs at h
  · exact Or.inl h
  · rcases List.mem_append.mp h with h | h
    · exact Or.inl (List.mem_of_mem_take h)
    · exact Or.inr (List.mem_singleton.mp h)

theorem kept_encode (h : Char.ofNat 0 ∉ cs) : kept (encode cs) = cs := by
  have hzero : 0 ∉ encode cs := fun hmem => h (Utf8.zero_mem_encode.mp hmem)
  have hall : (encode cs).filter (· ≠ 0) = encode cs := by
    refine List.filter_eq_self.mpr fun b hb => decide_eq_true ?_
    rintro rfl
    exact hzero hb
  rw [kept, hall, Utf8.characters_encode]

/-- The bytes of the characters are bytes of the text. -/
theorem null_notMem_kept (s : List UInt8) : Char.ofNat 0 ∉ kept s := by
  intro hnull
  have hmem := Utf8.zero_mem_encode.mpr hnull
  rw [kept, ← Utf8.toValidUTF8_characters] at hmem
  have hsub := Utf8.toValidUTF8_subset hmem
  exact of_decide_eq_true (List.mem_filter.mp hsub).2 rfl

theorem null_notMem_shortened (s : List UInt8) : Char.ofNat 0 ∉ shortened (kept s) := by
  intro hnull
  rcases mem_shortened hnull with h | h
  · exact null_notMem_kept s h
  · revert h
    decide

theorem kept_truncateCause (s : List UInt8) : kept (truncateCause s) = shortened (kept s) := by
  rw [truncateCause_eq, kept_encode (null_notMem_shortened s)]

theorem truncateCause_clean (s : List UInt8) : Clean (truncateCause s) := by
  rw [truncateCause_eq]
  exact ⟨fun hzero => null_notMem_shortened s (Utf8.zero_mem_encode.mp hzero), _, rfl⟩

theorem truncateCause_truncateCause (s : List UInt8) : truncateCause (truncateCause s) = truncateCause s := by
  rw [truncateCause_eq (truncateCause s), kept_truncateCause, shortened_shortened, truncateCause_eq]

/-- A clean text is what is left of it. -/
theorem Clean.encode_kept (h : Clean s) : encode (kept s) = s := by
  obtain ⟨hzero, cs, rfl⟩ := h
  rw [kept_encode fun hnull => hzero (Utf8.zero_mem_encode.mpr hnull)]

/-! ### The statements -/

/-- 22021, character_not_in_repertoire. -/
def notInRepertoire : DbError := .pg ⟨"22021", ""⟩

/-- A text parameter: no NUL and nothing but UTF-8. -/
def textParam (s : List UInt8) : Except DbError String :=
  if 0 ∈ s ∨ ¬ Valid s then .error notInRepertoire else .ok (String.ofList (characters s))

/-- What a statement on a delivery comes to that the server runs, or fails with `fault`. -/
def recorded (fault : Option DbError) (id : Nat) (set : DeliveryRow → DeliveryRow)
    (rows : List DeliveryRow) : Except StoreError (List DeliveryRow) :=
  match fault with
  | some e => .error (.db e)
  | none =>
    if rows.any (DeliveryRow.stillPending id) then .ok (updateWhere (DeliveryRow.stillPending id) set rows)
    else .error .notFound

/-- `updateDelivery` with a cause among the parameters of its statement. -/
def updateDelivery (fault : Option DbError) (id : Nat) (cause : List UInt8)
    (set : String → DeliveryRow → DeliveryRow) (rows : List DeliveryRow) :
    Except StoreError (List DeliveryRow) :=
  match textParam cause with
  | .error e => .error (.db e)
  | .ok text => recorded fault id (set text) rows

def rescheduleDelivery (fault : Option DbError) (id : Nat) (cause : List UInt8) (at' : Time)
    (rows : List DeliveryRow) : Except StoreError (List DeliveryRow) :=
  updateDelivery fault id (truncateCause cause)
    (fun text r => { r with nextAttemptAt := at', lastError := some text }) rows

def deadLetterDelivery (fault : Option DbError) (id : Nat) (cause : List UInt8)
    (rows : List DeliveryRow) : Except StoreError (List DeliveryRow) :=
  updateDelivery fault id (truncateCause cause)
    (fun text r => { r with status := .deadLetter, lastError := some text }) rows

theorem textParam_clean (h : Clean s) : textParam s = .ok (String.ofList (kept s)) := by
  have hfine : ¬ (0 ∈ s ∨ ¬ Valid s) := not_or.mpr ⟨h.1, not_not.mpr h.2⟩
  have hkept : characters s = kept s := by
    conv => lhs; rw [← h.encode_kept]
    exact Utf8.characters_encode (kept s)
  rw [textParam, if_neg hfine, hkept]

/-- Whatever the cause, the server takes it. -/
theorem updateDelivery_truncateCause (fault : Option DbError) (id : Nat) (cause : List UInt8)
    (set : String → DeliveryRow → DeliveryRow) (rows : List DeliveryRow) :
    updateDelivery fault id (truncateCause cause) set rows =
      recorded fault id (set (String.ofList (shortened (kept cause)))) rows := by
  rw [updateDelivery, textParam_clean (truncateCause_clean cause), kept_truncateCause]

/-! ### The statements on text -/

/-- What is left of the bytes is shortened as a text is. -/
theorem ofList_shortened_kept (s : List UInt8) :
    String.ofList (shortened (kept s)) = Store.truncateCause (String.ofList (kept s)) := by
  have hall : (kept s).filter (fun c => c.toNat ≠ 0) = kept s := by
    refine List.filter_eq_self.mpr fun c hc => decide_eq_true fun hzero => ?_
    have hnull : Char.ofNat 0 = c := by
      rw [← hzero]
      exact Char.ofNat_toNat c
    exact null_notMem_kept s (hnull ▸ hc)
  unfold Store.truncateCause shortened
  dsimp only
  rw [String.toList_ofList, hall]
  split_ifs
  · rfl
  · rw [String.ofList_append]

/-- `rescheduleDelivery` on bytes is the one on the text that is left of them. -/
theorem rescheduleDelivery_eq (fault : Option DbError) (id : Nat) (cause : List UInt8) (at' : Time)
    (rows : List DeliveryRow) : rescheduleDelivery fault id cause at' rows =
      recorded fault id (rescheduled (String.ofList (kept cause)) at') rows := by
  rw [rescheduleDelivery, updateDelivery_truncateCause, ofList_shortened_kept]
  rfl

theorem deadLetterDelivery_eq (fault : Option DbError) (id : Nat) (cause : List UInt8)
    (rows : List DeliveryRow) : deadLetterDelivery fault id cause rows =
      recorded fault id (parked (String.ofList (kept cause))) rows := by
  rw [deadLetterDelivery, updateDelivery_truncateCause, ofList_shortened_kept]
  rfl

/-- Every cause is stored: as it is where it is clean and short, else as the first of its characters, which
the statements take whatever they are. -/
theorem cause_storable (s : List UInt8) :
    (0 ∉ truncateCause s ∧ Valid (truncateCause s) ∧
      (decode 0 (truncateCause s)).length ≤ maxCauseLen + 1) ∧
    (Clean s → (decode 0 s).length ≤ maxCauseLen → truncateCause s = s) ∧
    (∃ ps, Cut (s.filter (· ≠ 0)) ps ∧ decode 0 (truncateCause s) = shortened ps.reduceOption) ∧
    truncateCause (truncateCause s) = truncateCause s ∧
    ∃ text : String, encode text.toList = truncateCause s ∧
      ∀ fault id at' rows,
        rescheduleDelivery fault id s at' rows =
          recorded fault id (fun r => { r with nextAttemptAt := at', lastError := some text }) rows ∧
        deadLetterDelivery fault id s rows =
          recorded fault id (fun r => { r with status := .deadLetter, lastError := some text }) rows := by
  have hrunes : decode 0 (truncateCause s) = shortened (kept s) := by
    rw [truncateCause_eq, Utf8.decode_encode]
  refine ⟨?_, ?_, ?_, truncateCause_truncateCause s, String.ofList (shortened (kept s)), ?_, ?_⟩
  · obtain ⟨hzero, hvalid⟩ := truncateCause_clean s
    refine ⟨hzero, hvalid, ?_⟩
    rw [hrunes]
    exact shortened_length (kept s)
  · intro hclean hshort
    rw [← hclean.encode_kept, Utf8.decode_encode] at hshort
    rw [truncateCause_eq, shortened, if_pos hshort, hclean.encode_kept]
  · obtain ⟨ps, hps⟩ := Utf8.exists_cut (s.filter (· ≠ 0))
    refine ⟨ps, hps, ?_⟩
    rw [hrunes, kept, hps.characters_eq]
  · rw [String.toList_ofList, truncateCause_eq]
  · intro fault id at' rows
    exact ⟨updateDelivery_truncateCause fault id s _ rows, updateDelivery_truncateCause fault id s _ rows⟩

/-- Two stray bytes that a NUL keeps apart are a character without it. -/
example : truncateCause [0xC3, 0, 0xA9] = encode ['é'] := by decide

end Scimage.Store.Raw
