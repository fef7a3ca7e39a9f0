import Scimage.Store.Outbox

/-! The dispatcher's settings and what it makes of the receiver's answer. -/
namespace Scimage.Webhook

open Txn Store

/-- The value that is left of an integer in an `int64`. -/
def wrap64 (n : Int) : Int := n.bmod 18446744073709551616

theorem wrap64_of_fits {n : Int} (hlow : -9223372036854775808 ≤ n)
    (hhigh : n < 9223372036854775808) : wrap64 n = n := by
  rw [wrap64, Int.bmod_eq_of_le (by omega) (by omega)]

structure Config where
  maxAttempts : Int
  poll : Duration
  batch : Int
  timeout : Duration
  baseBackoff : Duration
  maxBackoff : Duration
  retention : Duration
  retentionInterval : Duration

def second : Duration := 1000000000

def defaultMaxAttempts : Int := 6
def defaultPoll : Duration := 5 * second
def defaultBatch : Int := 20
def defaultTimeout : Duration := 10 * second
def defaultBaseBackoff : Duration := 5 * second
def defaultMaxBackoff : Duration := 5 * 60 * second
def defaultRetentionInterval : Duration := 60 * 60 * second

def orDefault (v fallback : Int) : Int := if v ≤ 0 then fallback else v

theorem orDefault_pos {v fallback : Int} (h : 0 < fallback) : 0 < orDefault v fallback := by
  unfold orDefault
  split <;> omega

/-- The settings a dispatcher runs with. -/
structure Dispatcher extends Config where
  maxAttempts_pos : 0 < maxAttempts
  batch_pos : 0 < batch
  poll_pos : 0 < poll
  timeout_pos : 0 < timeout
  baseBackoff_pos : 0 < baseBackoff
  maxBackoff_pos : 0 < maxBackoff

/-- `New`: a retention of zero is a setting and takes no default. -/
def Dispatcher.new (cfg : Config) : Dispatcher where
  maxAttempts := orDefault cfg.maxAttempts defaultMaxAttempts
  batch := orDefault cfg.batch defaultBatch
  poll := orDefault cfg.poll defaultPoll
  timeout := orDefault cfg.timeout defaultTimeout
  baseBackoff := orDefault cfg.baseBackoff defaultBaseBackoff
  maxBackoff := orDefault cfg.maxBackoff defaultMaxBackoff
  retention := cfg.retention
  retentionInterval := orDefault cfg.retentionInterval defaultRetentionInterval
  maxAttempts_pos := orDefault_pos (by decide)
  batch_pos := orDefault_pos (by decide)
  poll_pos := orDefault_pos (by decide)
  timeout_pos := orDefault_pos (by decide)
  baseBackoff_pos := orDefault_pos (by decide)
  maxBackoff_pos := orDefault_pos (by decide)

namespace Dispatcher

variable (d : Dispatcher)

/-- `Poll + Batch * Timeout` in 64 bits. -/
def leaseFor : Duration := wrap64 (d.poll + wrap64 (d.batch * d.timeout))

/-- The loop of `backoff`, with `n` rounds left. -/
def double : Nat → Duration → Duration
  | 0, wait => wait
  | n + 1, wait => if wait < d.maxBackoff then double n (wrap64 (wait * 2)) else wait

/-- The wait before the jitter. -/
def wait (attempts : Nat) : Duration := min (d.double (attempts - 1) d.baseBackoff) d.maxBackoff

/-- `jitter` is what `rand.N(wait/5+1)` returns. -/
def backoff (attempts : Nat) (jitter : Duration) : Duration := wrap64 (d.wait attempts + jitter)

end Dispatcher

/-- What comes of a POST: an answer of the receiver or a transport error. -/
inductive Response where
  | answered (statusCode : Nat) (status body : String)
  | failed (host cause : String)

/-- An error of `send`, permanent or not, with its text. -/
inductive SendError where
  | transient (cause : String)
  | permanent (cause : String)

def retryable (status : Nat) : Bool := status = 408 ∨ status = 429 ∨ 500 ≤ status

def Response.accepted : Response → Bool
  | .answered status _ _ => 200 ≤ status ∧ status < 300
  | .failed _ _ => false

/-- The error that `send` returns. -/
def send (r : Response) : Option SendError :=
  match r with
  | .answered statusCode status body =>
    if r.accepted then none
    else
      let failure := "receiver returned " ++ status ++ ": " ++ trimSpace body
      if retryable statusCode then some (.transient failure) else some (.permanent failure)
  | .failed host cause => some (.transient ("post to receiver " ++ host ++ ": " ++ cause))

/-- The outcome that a dispatcher records. -/
inductive Report where
  | delivered
  | reschedule (cause : String) (at' : Time)
  | deadLetter (cause : String)

/-- `attempt`: the outcome of a send. `now` is the dispatcher's clock. -/
def attempt (d : Dispatcher) (del : Delivery) (now : Time) (jitter : Duration) :
    Option SendError → Report
  | none => .delivered
  | some (.permanent cause) => .deadLetter cause
  | some (.transient cause) =>
    if d.maxAttempts ≤ del.attempts then .deadLetter cause
    else .reschedule cause (now + d.backoff del.attempts jitter)

theorem send_eq_none {r : Response} : send r = none ↔ r.accepted = true := by
  cases r with
  | answered statusCode status body =>
    simp only [send]
    split
    · simp_all
    · split <;> simp_all
  | failed host cause => simp [send, Response.accepted]

theorem attempt_eq_delivered {d : Dispatcher} {del : Delivery} {now : Time} {jitter : Duration}
    {e : Option SendError} : attempt d del now jitter e = .delivered ↔ e = none := by
  rcases e with _ | (cause | cause)
  · simp [attempt]
  · simp only [attempt]
    split <;> simp
  · simp [attempt]

/-- The statement that records an outcome, run at `now` of the database. -/
def Report.write (now : Time) (id : Nat) : Report → List DeliveryRow → List DeliveryRow
  | .delivered => markDelivered now id
  | .reschedule cause at' => rescheduleDelivery id cause at'
  | .deadLetter cause => deadLetterDelivery id cause

/-- What the statement sets. -/
def Report.set (now : Time) : Report → DeliveryRow → DeliveryRow
  | .delivered => Store.delivered now
  | .reschedule cause at' => rescheduled cause at'
  | .deadLetter cause => parked cause

@[simp] theorem Report.set_id (now : Time) (r : Report) (row : DeliveryRow) :
    (r.set now row).id = row.id := by
  cases r <;> rfl

@[simp] theorem Report.set_attempts (now : Time) (r : Report) (row : DeliveryRow) :
    (r.set now row).attempts = row.attempts := by
  cases r <;> rfl

theorem Report.write_eq (now : Time) (id : Nat) (r : Report) (rows : List DeliveryRow) :
    r.write now id rows = updateWhere (DeliveryRow.stillPending id) (r.set now) rows := by
  cases r <;> rfl

def Report.failure : Report → Bool
  | .delivered => false
  | .reschedule _ _ | .deadLetter _ => true

end Scimage.Webhook
