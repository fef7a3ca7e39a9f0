import Scimage.Aria.Detect
import Scimage.Store.Statement

/-! The two front ends of a review. -/
namespace Scimage.Aria

open Store (Time Duration AuditRow maxPageSize)

/-! ### Reading the audit log -/

def inScope (tenantID : String) (since : Time) (e : AuditRow) : Bool :=
  since ≤ e.loggedAt ∧ (tenantID = "" ∨ e.tenantID = tenantID)

/-- `ORDER BY at DESC, id DESC`. -/
def newerFirst (a b : AuditRow) : Bool :=
  b.loggedAt < a.loggedAt || (a.loggedAt == b.loggedAt && Nat.ble b.id a.id)

/-- All entries of the scope at or after `since`. -/
def entriesSince (log : List AuditRow) (tenantID : String) (since : Time) : List AuditRow :=
  (log.filter (inScope tenantID since)).insertionSort fun a b => newerFirst a b

def listAuditEntriesSince (log : List AuditRow) (tenantID : String) (since : Time) :
    List AuditRow :=
  (entriesSince log tenantID since).take maxPageSize

/-! ### Front ends -/

/-- The report that `cmd/aria` prints. An unknown tenant fails before the review. -/
def run (tenants : String → Option String) (log : List AuditRow) (tenantID : String)
    (window : Int) (now : Time) (loc : Location) : Option Report :=
  if tenantID ≠ "" ∧ tenants tenantID = none then none
  else
    let entries := listAuditEntriesSince log tenantID (now - window)
    some { detect entries tenantID (now - window) now loc with
      truncated := Nat.ble maxPageSize entries.length }

/-- The report of the console's page. -/
def ariaInputs (log : List AuditRow) (tenantID : String) (window : Int) (now : Time)
    (loc : Location) : Report :=
  detect (listAuditEntriesSince log tenantID (now - window)) tenantID (now - window) now loc

/-! ### Completeness -/

/-- A report is marked, or it was computed from all entries of its scope and window. -/
def Complete (log : List AuditRow) (loc : Location) (r : Report) : Prop :=
  r.truncated = true ∨
    r = detect (entriesSince log r.tenantID r.since) r.tenantID r.since r.now loc

variable {tenants : String → Option String} {log : List AuditRow} {tenantID : String} {window : Int}
  {now : Time} {loc : Location}

theorem run_eq (h : tenantID = "" ∨ (tenants tenantID).isSome) :
    run tenants log tenantID window now loc = some { ariaInputs log tenantID window now loc with
      truncated := Nat.ble maxPageSize (listAuditEntriesSince log tenantID (now - window)).length } := by
  rw [run, if_neg]
  · rfl
  · rintro ⟨hid, hnone⟩
    rcases h with h | h
    · exact hid h
    · rw [hnone] at h
      cases h

theorem ble_eq_false {a b : Nat} : Nat.ble a b = false ↔ b < a := by
  rw [← Bool.not_eq_true, Nat.ble_eq]
  omega

theorem length_list (log : List AuditRow) (tenantID : String) (since : Time) :
    (listAuditEntriesSince log tenantID since).length =
      min maxPageSize (entriesSince log tenantID since).length :=
  List.length_take

theorem list_of_le {since : Time} (h : (entriesSince log tenantID since).length ≤ maxPageSize) :
    listAuditEntriesSince log tenantID since = entriesSince log tenantID since :=
  List.take_of_length_le h

/-- The page is never marked, so it is complete just when nothing was cut off. -/
theorem ariaInputs_complete_iff : Complete log loc (ariaInputs log tenantID window now loc) ↔
    (entriesSince log tenantID (now - window)).length ≤ maxPageSize := by
  constructor
  · rintro (hmarked | hall)
    · cases hmarked
    · have htotal : (listAuditEntriesSince log tenantID (now - window)).length =
          (entriesSince log tenantID (now - window)).length := congrArg Report.total hall
      rw [length_list] at htotal
      omega
  · intro hle
    refine Or.inr ?_
    change detect (listAuditEntriesSince log tenantID (now - window)) _ _ _ _ = _
    rw [list_of_le hle]
    rfl

/-- The command marks a report that may have been cut off. -/
theorem run_complete : Complete log loc { ariaInputs log tenantID window now loc with
    truncated := Nat.ble maxPageSize (listAuditEntriesSince log tenantID (now - window)).length } := by
  rcases Nat.lt_or_ge (entriesSince log tenantID (now - window)).length maxPageSize with hlt | hge
  · have hall := list_of_le (Nat.le_of_lt hlt)
    refine Or.inr ?_
    have hunmarked : Nat.ble maxPageSize
        (listAuditEntriesSince log tenantID (now - window)).length = false := by
      rw [hall, ble_eq_false]
      exact hlt
    rw [hunmarked]
    change detect (listAuditEntriesSince log tenantID (now - window)) _ _ _ _ = _
    rw [hall]
    rfl
  · refine Or.inl ?_
    change Nat.ble maxPageSize (listAuditEntriesSince log tenantID (now - window)).length = true
    rw [Nat.ble_eq, length_list]
    omega

/-- Always Sunday. -/
def weekend : Location := ⟨fun _ => 0, fun _ => 0⟩

def busyEntry (id : Nat) : AuditRow :=
  ⟨id, 0, "tenant", .user, "key", none, .replace, .success, none, none, none, none⟩

end Scimage.Aria
