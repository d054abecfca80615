/-
  The fallback of `app/rate_limit.py` where Redis does not answer: `_LocalTokenBucket`, a bounded
  cache of buckets in the process.

  The shared bucket is dropped after `ceil(burst / rate) + 60` idle seconds, the local one is
  kept.  A bucket that is dropped would have been full: the two are compared by the replies of
  whole runs, on one key and by one clock.
-/
import RuleMind.Lib.Replies
import RuleMind.Sandbox
import RuleMind.TokenBucket

namespace RuleMind.TokenBucket

open Sandbox (BoundedCache)

/-! ### The local bucket -/

/-- `_LocalTokenBucket.consume`: the reply, and the buckets it leaves. -/
def consume (l : Limits) (capacity : ℕ) (key : String) (buckets : BoundedCache (ℚ × ℚ))
    (c : Call) : Reply × BoundedCache (ℚ × ℚ) :=
  let (tokens, ts) := (buckets.get key).getD (l.burst, c.now)
  let tokens := min l.burst (tokens + max 0 (c.now - ts) * l.rate)
  if tokens ≥ c.cost then
    (⟨true, tokens - c.cost, 0⟩, buckets.set capacity key (tokens - c.cost, c.now))
  else
    (⟨false, tokens, if 0 < l.rate then (c.cost - tokens) / l.rate else 1⟩,
      buckets.set capacity key (tokens, c.now))

def shared (l : Limits) (key : Option Bucket) (c : Call) : Reply × Option Bucket :=
  ((execute l key c).1, some (execute l key c).2)

/-- The clock does not go back, and the bucket is idle by the same clock. -/
def InTime (key : Option Bucket) (c : Call) : Prop :=
  ∀ b ∈ key, b.ts ≤ c.now ∧ c.idle = c.now - b.ts

instance (key : Option Bucket) (c : Call) : Decidable (InTime key c) :=
  inferInstanceAs (Decidable (∀ b ∈ key, b.ts ≤ c.now ∧ c.idle = c.now - b.ts))

/-- The process holds what was last written to Redis, expired or not. -/
structure Holds (key : String) (bucket : Option Bucket) (buckets : BoundedCache (ℚ × ℚ)) :
    Prop where
  same : buckets.get key = bucket.map fun b => (b.tokens, b.ts)
  nonneg : ∀ b ∈ bucket, 0 ≤ b.tokens

variable {l : Limits} {capacity : ℕ} {key : String}

variable {α : Type} {c : Call} {bucket : Option Bucket} {buckets : BoundedCache (ℚ × ℚ)}

theorem get_eq_none {cache : BoundedCache α} :
    cache.get key = none ↔ ∀ entry ∈ cache, entry.1 ≠ key := by
  simp [BoundedCache.get]

theorem get_set (cache : BoundedCache α) (value : α) :
    (cache.set capacity key value).get key = some value := by
  rw [BoundedCache.set]
  split
  · rename_i hfound
    induction cache with
    | nil => cases hfound
    | cons entry cache ih => grind -ring -linarith [BoundedCache.get]
  · rename_i hnew
    have hnone : BoundedCache.get cache key = none := by simpa using hnew
    have hno : ∀ entry ∈ (if capacity ≤ cache.length then cache.tail else cache),
        (entry.1 == key) = false := by
      intro entry hmem
      refine beq_false_of_ne (get_eq_none.1 hnone entry ?_)
      split at hmem
      · exact List.mem_of_mem_tail hmem
      · exact hmem
    grind -ring -linarith [BoundedCache.get]

theorem refilled_dropped {b : Bucket} (htokens : 0 ≤ b.tokens)
    (hdropped : l.ttl ≤ c.now - b.ts) : l.burst ≤ b.tokens + (c.now - b.ts) * l.rate := by
  have hceil : l.burst / l.rate ≤ c.now - b.ts := by
    have hle := Int.le_ceil (l.burst / l.rate)
    have httl : l.ttl = ⌈l.burst / l.rate⌉ + 60 := rfl
    linarith
  have hburst : l.burst ≤ (c.now - b.ts) * l.rate := (div_le_iff₀ l.rate_pos).1 hceil
  linarith

theorem refilled_eq (h : Holds key bucket buckets) (htime : InTime bucket c) :
    refilled l bucket c = min l.burst (((buckets.get key).getD (l.burst, c.now)).1 +
      max 0 (c.now - ((buckets.get key).getD (l.burst, c.now)).2) * l.rate) := by
  rw [h.same]
  cases bucket with
  | none =>
    rw [refilled_fresh]
    simp
  | some b =>
    obtain ⟨hts, hidle⟩ := htime b rfl
    have helapsed : max 0 (c.now - b.ts) = c.now - b.ts := max_eq_right (by linarith)
    show _ = min l.burst (b.tokens + max 0 (c.now - b.ts) * l.rate)
    rw [helapsed]
    by_cases hkept : c.idle < l.ttl
    · have hstored : stored l (some b) c = some b := by simp [stored, hkept]
      simp_all [refilled, if_neg]
    · have hstored : stored l (some b) c = none := by simp [stored, hkept]
      have hfull := refilled_dropped (h.nonneg b rfl) (by rw [← hidle]; exact not_lt.1 hkept)
      rw [min_eq_left hfull, refilled, hstored]
      simp

theorem consume_agrees (h : Holds key bucket buckets) (htime : InTime bucket c) :
    (shared l bucket c).1 = (consume l capacity key buckets c).1 ∧
      Holds key (shared l bucket c).2 (consume l capacity key buckets c).2 := by
  have htokens := refilled_eq (l := l) h htime
  have hnonneg := refilled_nonneg (l := l) h.nonneg c
  unfold shared execute consume
  simp only [← htokens]
  by_cases hcost : refilled l bucket c ≥ c.cost
  · simp only [if_pos hcost]
    refine ⟨trivial, get_set _ _, ?_⟩
    rintro b ⟨⟩
    show 0 ≤ refilled l bucket c - c.cost
    linarith
  · simp only [if_neg hcost, if_pos l.rate_pos]
    refine ⟨trivial, get_set _ _, ?_⟩
    rintro b ⟨⟩
    exact hnonneg

/-- **The local limiter is the shared one.**  On a key that neither knows yet, every run of calls
    by a clock that does not go back has the same replies. -/
theorem local_replies_eq {buckets : BoundedCache (ℚ × ℚ)} (hnew : buckets.get key = none)
    {calls : List Call} (htime : Lib.Throughout (shared l) InTime none calls) :
    Lib.replies (consume l capacity key) buckets calls = Lib.replies (shared l) none calls := by
  have hstart : Holds key none buckets := ⟨hnew, fun b hb => by cases hb⟩
  have hstep : ∀ bucket buckets c, Holds key bucket buckets → InTime bucket c →
      (shared l bucket c).1 = (consume l capacity key buckets c).1 ∧
        Holds key (shared l bucket c).2 (consume l capacity key buckets c).2 :=
    fun _ _ _ h htime => consume_agrees h htime
  exact (Lib.replies_eq hstep hstart htime).symm

/-- A bucket that is spent, and left alone until Redis has dropped it. -/
def idleCalls : List Call := [⟨0, 0, 1⟩, ⟨0, 0, 1⟩, ⟨100, 100, 1⟩]

theorem idle_replies_eq : Lib.replies (consume oneToken 50000 "tenant") [] idleCalls =
    Lib.replies (shared oneToken) none idleCalls :=
  local_replies_eq rfl (by decide +kernel)

end RuleMind.TokenBucket
