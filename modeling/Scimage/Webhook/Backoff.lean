import Mathlib.Algebra.Order.Ring.Int
import Mathlib.Algebra.Order.GroupWithZero.Basic
import Mathlib.Tactic.Positivity
import Scimage.Webhook.Dispatcher

/-! The waits between two attempts: doubling up to the cap, in 64 bits. -/
namespace Scimage.Webhook

open Txn Store

namespace Dispatcher

variable {d : Dispatcher} {attempts : Nat}

/-- The waits that the loop of `backoff` multiplies, with `n` rounds left. -/
def doubled (d : Dispatcher) : Nat → Duration → List Duration
  | 0, _ => []
  | n + 1, wait => if wait < d.maxBackoff then wait :: doubled d n (wrap64 (wait * 2)) else []

/-- `min(BaseBackoff * 2^(attempts-1), MaxBackoff)` in the integers. -/
def bound (d : Dispatcher) (attempts : Nat) : Int :=
  min (d.baseBackoff * 2 ^ (attempts - 1)) d.maxBackoff

/-- The cap is at most `2^62`. -/
def Capped (d : Dispatcher) : Prop := d.maxBackoff ≤ 4611686018427387904

/-- What `rand.N(wait/5+1)` may return. -/
def Jitter (d : Dispatcher) (attempts : Nat) (jitter : Int) : Prop :=
  0 ≤ jitter ∧ jitter < d.wait attempts / 5 + 1

theorem wrap64_double (hcap : d.Capped) {w : Int} (hpos : 0 < w) (hlt : w < d.maxBackoff) :
    wrap64 (w * 2) = w * 2 := by
  have hroom : w < 4611686018427387904 := Int.lt_of_lt_of_le hlt hcap
  exact wrap64_of_fits (by omega) (by omega)

theorem doubled_exact (hcap : d.Capped) (n : Nat) : ∀ {w : Int}, 0 < w →
    ∀ x ∈ d.doubled n w, wrap64 (x * 2) = x * 2 := by
  induction n with
  | zero =>
    intro w _ x hx
    cases hx
  | succ n ih =>
    intro w hpos x hx
    rw [doubled] at hx
    split_ifs at hx with hlt
    · have hdouble := wrap64_double hcap hpos hlt
      have hnext : 0 < w * 2 := by omega
      rcases List.mem_cons.mp hx with rfl | hx
      · exact hdouble
      · rw [hdouble] at hx
        exact ih hnext x hx
    · cases hx

/-- Each doubling uses up one of the 62 powers below the cap. -/
theorem doubled_length (hcap : d.Capped) (n : Nat) : ∀ {k : Nat} {w : Int},
    2 ^ k ≤ w → k ≤ 62 → (d.doubled n w).length + k ≤ 62 := by
  induction n with
  | zero =>
    intro k w _ hk
    simpa [doubled] using hk
  | succ n ih =>
    intro k w hw hk
    have hpow : (0 : Int) < 2 ^ k := by positivity
    have hpos : 0 < w := by omega
    rw [doubled]
    split_ifs with hlt
    · have hroom : w < 2 ^ 62 := Int.lt_of_lt_of_le hlt hcap
      have hk' : k < 62 := by
        by_contra hge
        have h62 : k = 62 := by omega
        rw [h62] at hw
        omega
      have hnext : 2 ^ (k + 1) ≤ w * 2 := by
        rw [pow_succ]
        omega
      have hrest := ih hnext hk'
      rw [wrap64_double hcap hpos hlt, List.length_cons]
      omega
    · simpa using hk

/-- Capped, the loop computes the power. -/
theorem min_double (hcap : d.Capped) (n : Nat) : ∀ {w : Int}, 0 < w →
    min (d.double n w) d.maxBackoff = min (w * 2 ^ n) d.maxBackoff := by
  induction n with
  | zero =>
    intro w _
    simp [double]
  | succ n ih =>
    intro w hpos
    have hpow : (0 : Int) < 2 ^ (n + 1) := by positivity
    rw [double]
    split_ifs with hlt
    · have hnext : 0 < w * 2 := by omega
      rw [wrap64_double hcap hpos hlt, ih hnext, pow_succ', mul_assoc]
    · have hle : d.maxBackoff ≤ w := Int.not_lt.mp hlt
      have hgrow : w ≤ w * 2 ^ (n + 1) := le_mul_of_one_le_right (Int.le_of_lt hpos) hpow
      rw [min_eq_right hle, min_eq_right (Int.le_trans hle hgrow)]

theorem wait_eq (hcap : d.Capped) (attempts : Nat) : d.wait attempts = d.bound attempts :=
  min_double hcap (attempts - 1) d.baseBackoff_pos

theorem bound_pos (d : Dispatcher) (attempts : Nat) : 0 < d.bound attempts := by
  have hpow : (0 : Int) < 2 ^ (attempts - 1) := by positivity
  exact lt_min (Int.mul_pos d.baseBackoff_pos hpow) d.maxBackoff_pos

theorem bound_le (hcap : d.Capped) (attempts : Nat) : d.bound attempts ≤ 4611686018427387904 :=
  Int.le_trans (min_le_right _ _) hcap

theorem bound_mono (d : Dispatcher) {more : Nat} (h : attempts ≤ more) :
    d.bound attempts ≤ d.bound more := by
  have hpow : (2 : Int) ^ (attempts - 1) ≤ 2 ^ (more - 1) :=
    pow_le_pow_right₀ (by omega) (by omega)
  exact min_le_min_right _ (Int.mul_le_mul_of_nonneg_left hpow (Int.le_of_lt d.baseBackoff_pos))

theorem backoff_eq (hcap : d.Capped) {jitter : Int} (h : d.Jitter attempts jitter) :
    d.backoff attempts jitter = d.bound attempts + jitter := by
  have hle := bound_le hcap attempts
  have hpos := d.bound_pos attempts
  obtain ⟨hlow, hhigh⟩ := h
  rw [wait_eq hcap] at hhigh
  rw [backoff, wait_eq hcap]
  exact wrap64_of_fits (by omega) (by omega)

/-- A retry is not in the past. -/
theorem le_of_reschedule (hcap : d.Capped) {del : Delivery} {now at' : Time} {jitter : Int}
    {e : Option SendError} {cause : String} (h : d.Jitter del.attempts jitter)
    (hreport : attempt d del now jitter e = .reschedule cause at') : now ≤ at' := by
  rcases e with _ | (text | text)
  · cases hreport
  · rw [attempt] at hreport
    split_ifs at hreport
    cases hreport
    have hpos := d.bound_pos del.attempts
    have hlow : 0 ≤ jitter := h.1
    have hadd : 0 ≤ d.bound del.attempts + jitter := by omega
    rw [backoff_eq hcap h]
    exact Int.le_add_of_nonneg_right hadd
  · cases hreport

/-- With a cap of at most `2^62` ns nothing wraps, the wait is the capped power, and the jitter adds
a fifth of it at most. -/
theorem backoff_within (d : Dispatcher) (hcap : d.Capped) (attempts : Nat) (hsome : 1 ≤ attempts) :
    (∀ w ∈ d.doubled (attempts - 1) d.baseBackoff, wrap64 (w * 2) = w * 2) ∧
      (d.doubled (attempts - 1) d.baseBackoff).length ≤ 62 ∧
      d.wait attempts = d.bound attempts ∧
      0 < d.wait attempts / 5 + 1 ∧
      wrap64 (d.wait attempts / 5 + 1) = d.wait attempts / 5 + 1 ∧
      (∀ jitter, d.Jitter attempts jitter →
        wrap64 (d.wait attempts + jitter) = d.wait attempts + jitter ∧
        d.bound attempts ≤ d.backoff attempts jitter ∧
        d.backoff attempts jitter ≤ d.bound attempts + d.bound attempts / 5) ∧
      (∀ more, attempts ≤ more → d.bound attempts ≤ d.bound more) ∧
      ∀ (del : Delivery) (now at' : Time) (jitter : Int) (e : Option SendError) (cause : String),
        del.attempts = attempts → d.Jitter attempts jitter →
        attempt d del now jitter e = .reschedule cause at' → now ≤ at' := by
  have hwait := wait_eq hcap attempts
  have hle := bound_le hcap attempts
  have hpos := d.bound_pos attempts
  have harg : 0 < d.bound attempts / 5 + 1 := by omega
  have hone : 2 ^ 0 ≤ (d.baseBackoff : Int) := d.baseBackoff_pos
  have hlength := doubled_length hcap (attempts - 1) hone (Nat.zero_le 62)
  rw [hwait]
  refine ⟨doubled_exact hcap _ d.baseBackoff_pos, hlength, rfl, harg,
    wrap64_of_fits (by omega) (by omega), ?_, fun _ => d.bound_mono, ?_⟩
  · intro jitter h
    have heq := backoff_eq hcap h
    have hsum : wrap64 (d.bound attempts + jitter) = d.bound attempts + jitter := by
      rw [backoff, hwait] at heq
      exact heq
    obtain ⟨hlow, hhigh⟩ := h
    have hfifth : jitter ≤ d.bound attempts / 5 := by
      rw [hwait] at hhigh
      omega
    rw [heq]
    exact ⟨hsum, Int.le_add_of_nonneg_right hlow, Int.add_le_add_left hfifth _⟩
  · rintro del now at' jitter e cause rfl h hreport
    exact le_of_reschedule hcap h hreport

/-- A dispatcher with every setting missing. -/
def byDefault : Dispatcher := .new ⟨0, 0, 0, 0, 0, 0, 0, 0⟩

theorem backoff_within_default : (byDefault.doubled 2 byDefault.baseBackoff).length ≤ 62 ∧
    byDefault.wait 3 = byDefault.bound 3 := by
  have hcap : byDefault.Capped := by
    unfold Capped
    decide
  have h := backoff_within byDefault hcap 3 (by decide)
  exact ⟨h.2.1, h.2.2.1⟩

end Dispatcher

end Scimage.Webhook
