import BlossomRs.Lib.Assoc
import BlossomRs.Lib.Metered
import BlossomRs.RateLimit

/-!
# What a limiter lets through

A bucket pays for the requests of its key: its tokens and what is due since its last refill are a level
that grows with the refill rate and loses one with every request (`pays`), so every window of a history
lets through at most the bucket and what is refilled in it.

A cleanup forgets a bucket by its last refill, which moves only when a token was added, and a forgotten
key starts with a full bucket.  The bound holds in all histories exactly when ten minutes refill a whole
bucket and the clock does not read zero, where no bucket is younger than the threshold
(`window_bound_iff`).
-/

namespace BlossomRs.RateLimit

/-- A request of a key at a time. -/
structure Call where
  key : String
  nowMs : Nat
deriving DecidableEq

namespace RateLimiter

/-- `new`. -/
def new (config : RateLimitConfig) : RateLimiter :=
  ⟨∅, config⟩

/-- `check`, as the answer to a call. -/
def answer (limiter : RateLimiter) (call : Call) : Bool × RateLimiter :=
  limiter.check call.key call.nowMs

/-! ### One check -/

theorem lookup_foldl_erase (stale : List (Sigma fun _ : String => Bucket))
    (buckets : AList fun _ : String => Bucket) (key : String) :
    (stale.foldl (fun buckets entry => buckets.erase entry.1) buckets).lookup key
      = if key ∈ stale.map Sigma.fst then none else buckets.lookup key := by
  induction stale generalizing buckets with
  | nil => simp
  | cons entry stale ih =>
    rw [List.foldl_cons, ih]
    rw [Assoc.lookup_erase_eq, List.map_cons]
    by_cases hkey : key = entry.1 <;> simp only [hkey, List.mem_cons, true_or, false_or, if_true,
      if_false, ite_self]

/-- A cleanup forgets exactly the buckets that were not refilled since the threshold. -/
theorem lookup_cleanup (limiter : RateLimiter) (maxAgeMs nowMs : Nat) (key : String) :
    (limiter.cleanup maxAgeMs nowMs).buckets.lookup key
      = (limiter.buckets.lookup key).filter fun bucket => nowMs - maxAgeMs < bucket.lastRefill := by
  unfold cleanup
  rw [lookup_foldl_erase]
  cases hbucket : limiter.buckets.lookup key with
  | none => simp
  | some bucket =>
    have hmem : Sigma.mk key bucket ∈ limiter.buckets.entries :=
      AList.mem_lookup_iff.mp hbucket
    by_cases hstale : bucket.lastRefill ≤ nowMs - maxAgeMs
    · rw [if_pos, Option.filter_some, if_neg (by simpa using hstale)]
      exact List.mem_map.mpr ⟨_, List.mem_filter.mpr ⟨hmem, by simpa using hstale⟩, rfl⟩
    · rw [if_neg, Option.filter_some, if_pos (by simpa using hstale)]
      intro hkey
      obtain ⟨⟨key', bucket'⟩, hentry, rfl⟩ := List.mem_map.mp hkey
      obtain ⟨hentry, hage⟩ := List.mem_filter.mp hentry
      have hsame : limiter.buckets.lookup key' = some bucket' := AList.mem_lookup_iff.mpr hentry
      obtain rfl : bucket = bucket' := Option.some.inj (hbucket.symm.trans hsame)
      exact hstale (by simpa using hage)

/-- No key can be added. -/
def Full (limiter : RateLimiter) (key : String) : Prop :=
  key ∉ limiter.buckets ∧ maxTrackedKeys ≤ limiter.buckets.keys.length

instance (limiter : RateLimiter) (key : String) : Decidable (limiter.Full key) :=
  inferInstanceAs (Decidable (_ ∧ _))

/-- The limiter when a key is looked up: after a cleanup if the key cannot be added. -/
def makeRoom (limiter : RateLimiter) (key : String) (nowMs : Nat) : RateLimiter :=
  if limiter.Full key then limiter.cleanup (10 * 60 * 1000) nowMs else limiter

/-- The bucket of a key, refilled; a new one is full. -/
def current (limiter : RateLimiter) (key : String) (nowMs : Nat) : Bucket :=
  refill limiter.config nowMs ((limiter.buckets.lookup key).getD ⟨limiter.config.maxTokens, nowMs⟩)

/-- Store what is left of a bucket. -/
def store (limiter : RateLimiter) (key : String) (bucket : Bucket) : RateLimiter :=
  { limiter with buckets := limiter.buckets.insert key bucket }

@[simp] theorem config_makeRoom (limiter : RateLimiter) (key : String) (nowMs : Nat) :
    (limiter.makeRoom key nowMs).config = limiter.config := by
  unfold makeRoom cleanup
  split <;> rfl

/-- **What a check does.** -/
theorem check_eq (limiter : RateLimiter) (key : String) (nowMs : Nat) :
    limiter.check key nowMs =
      let room := limiter.makeRoom key nowMs
      let bucket := room.current key nowMs
      if room.Full key then (false, room)
      else if bucket.tokens = 0 then (false, room.store key bucket)
      else (true, room.store key { bucket with tokens := bucket.tokens - 1 }) :=
  rfl

end RateLimiter

/-! ### What a bucket is worth -/

section Credit

open RateLimiter

variable (config : RateLimitConfig)

/-- The tokens that became due since the last refill, with their fraction. -/
def due (nowMs : Nat) (bucket : Bucket) : ℚ :=
  ((nowMs - bucket.lastRefill : Nat) : ℚ) / 1000 * config.refillRate

/-- The tokens of a bucket with those that are due. -/
def credit (nowMs : Nat) (bucket : Bucket) : ℚ :=
  min config.maxTokens (bucket.tokens + due config nowMs bucket)

/-- A bucket that was never filled by more than it holds: after a check there is room for a token. -/
structure Bucket.Sound (start nowMs : Nat) (bucket : Bucket) : Prop where
  tokens : bucket.tokens ≤ config.maxTokens - 1
  refilled : start ≤ bucket.lastRefill
  past : bucket.lastRefill ≤ nowMs

variable {config}

theorem due_nonneg (hrate : 0 ≤ config.refillRate) (nowMs : Nat) (bucket : Bucket) :
    0 ≤ due config nowMs bucket :=
  mul_nonneg (div_nonneg (Nat.cast_nonneg _) (by norm_num)) hrate

theorem credit_nonneg (hrate : 0 ≤ config.refillRate) (nowMs : Nat) (bucket : Bucket) :
    0 ≤ credit config nowMs bucket :=
  le_min (Nat.cast_nonneg _) (add_nonneg (Nat.cast_nonneg _) (due_nonneg hrate nowMs bucket))

variable {nowMs : Nat} {bucket : Bucket}

theorem due_eq (hpast : bucket.lastRefill ≤ nowMs) :
    due config nowMs bucket = config.refillRate / 1000 * (nowMs - bucket.lastRefill) := by
  unfold due
  rw [Nat.cast_sub hpast]
  ring

theorem due_self (tokens nowMs : Nat) : due config nowMs ⟨tokens, nowMs⟩ = 0 := by
  simp [due]

/-- Time adds what it refills, up to a full bucket. -/
theorem credit_wait (hrate : 0 ≤ config.refillRate) {laterMs : Nat} (hlater : nowMs ≤ laterMs)
    (hpast : bucket.lastRefill ≤ nowMs) :
    credit config laterMs bucket
      ≤ credit config nowMs bucket + config.refillRate / 1000 * (laterMs - nowMs) := by
  have hgrown : 0 ≤ config.refillRate / 1000 * ((laterMs : ℚ) - nowMs) :=
    mul_nonneg (div_nonneg hrate (by norm_num)) (sub_nonneg.mpr (by exact_mod_cast hlater))
  unfold credit
  rw [due_eq hpast, due_eq (hpast.trans hlater), ← min_add_add_right]
  refine min_le_min ?_ (le_of_eq ?_)
  · linarith
  · ring

/-- A refill adds only whole tokens that are due. -/
theorem credit_refill (hrate : 0 ≤ config.refillRate) (nowMs : Nat) (bucket : Bucket) :
    credit config nowMs (refill config nowMs bucket) ≤ credit config nowMs bucket := by
  unfold refill
  simp only
  split
  · have hwhole : ((⌊due config nowMs bucket⌋.toNat : ℕ) : ℚ) ≤ due config nowMs bucket := by
      rw [Int.floor_toNat]
      exact Nat.floor_le (due_nonneg hrate nowMs bucket)
    unfold credit
    rw [due_self, add_zero]
    refine min_le_min le_rfl ?_
    calc ((min (bucket.tokens + ⌊due config nowMs bucket⌋.toNat) config.maxTokens : ℕ) : ℚ)
        ≤ ((bucket.tokens + ⌊due config nowMs bucket⌋.toNat : ℕ) : ℚ) := by
          exact_mod_cast min_le_left _ _
      _ ≤ bucket.tokens + due config nowMs bucket := by
          rw [Nat.cast_add]
          linarith
  · exact le_rfl

/-- A refilled bucket is worth no more than it holds at most. -/
theorem refill_worth (hroom : bucket.tokens ≤ config.maxTokens - 1
      ∨ bucket.tokens = config.maxTokens ∧ bucket.lastRefill = nowMs)
    (hsome : 0 < (refill config nowMs bucket).tokens) :
    ((refill config nowMs bucket).tokens : ℚ) + due config nowMs (refill config nowMs bucket)
      ≤ config.maxTokens := by
  unfold refill at hsome ⊢
  simp only at hsome ⊢
  split
  · rw [due_self, add_zero]
    exact_mod_cast min_le_right _ _
  · rename_i hstill
    rw [if_neg hstill] at hsome
    rcases hroom with hroom | ⟨hfull, hnow⟩
    · -- less than one token is due
      have hless : due config nowMs bucket < 1 := by
        by_contra hmore
        refine hstill ⟨?_, ?_⟩
        · refine Nat.pos_of_ne_zero fun hzero => hmore ?_
          rw [due, hzero]
          norm_num
        · rw [Int.floor_toNat]
          exact Nat.floor_pos.mpr (not_lt.mp hmore)
      have hone : (bucket.tokens : ℚ) + 1 ≤ config.maxTokens := by
        have : bucket.tokens + 1 ≤ config.maxTokens := by omega
        exact_mod_cast this
      linarith
    · rw [due, hnow, hfull]
      simp

/-- A request takes one from what the bucket is worth. -/
theorem credit_take (hrate : 0 ≤ config.refillRate) (hroom : bucket.tokens ≤ config.maxTokens - 1
      ∨ bucket.tokens = config.maxTokens ∧ bucket.lastRefill = nowMs)
    (hsome : 0 < (refill config nowMs bucket).tokens) :
    credit config nowMs { refill config nowMs bucket with
        tokens := (refill config nowMs bucket).tokens - 1 } + 1
      ≤ credit config nowMs bucket := by
  refine le_trans ?_ (credit_refill hrate nowMs bucket)
  have hworth := refill_worth hroom hsome
  generalize refill config nowMs bucket = refilled at hworth hsome ⊢
  have hone : ((refilled.tokens - 1 : ℕ) : ℚ) = refilled.tokens - 1 := by
    rw [Nat.cast_sub hsome, Nat.cast_one]
  have hdue : due config nowMs { refilled with tokens := refilled.tokens - 1 }
      = due config nowMs refilled := rfl
  unfold credit
  rw [hdue, hone, min_eq_right hworth]
  have hright := min_le_right (config.maxTokens : ℚ)
    ((refilled.tokens : ℚ) - 1 + due config nowMs refilled)
  linarith

theorem lastRefill_refill (config : RateLimitConfig) {start : Nat}
    (hstart : start ≤ bucket.lastRefill) (hpast : bucket.lastRefill ≤ nowMs) :
    start ≤ (refill config nowMs bucket).lastRefill
      ∧ (refill config nowMs bucket).lastRefill ≤ nowMs := by
  unfold refill
  simp only
  split
  · exact ⟨hstart.trans hpast, le_rfl⟩
  · exact ⟨hstart, hpast⟩

end Credit

/-! ### Histories -/

section Histories

open RateLimiter

variable (config : RateLimitConfig) (start : Nat) (key : String)

/-- A limiter between two calls. -/
structure Invariant (nowMs : Nat) (limiter : RateLimiter) : Prop where
  config_eq : limiter.config = config
  start_le : start ≤ nowMs
  sound : ∀ key bucket, limiter.buckets.lookup key = some bucket → bucket.Sound config start nowMs

/-- What a key can still take; an unknown key has a full bucket. -/
def level (nowMs : Nat) (limiter : RateLimiter) : ℚ :=
  (limiter.buckets.lookup key).elim (config.maxTokens : ℚ) (credit config nowMs)

/-- Ten minutes refill a whole bucket, and no time is zero. -/
def Restores : Prop :=
  (config.maxTokens : ℚ) ≤ 600 * config.refillRate ∧ (0 < start ∨ config.maxTokens = 0)

variable {config start key}

theorem invariant_new : Invariant config start start (RateLimiter.new config) where
  config_eq := rfl
  start_le := le_rfl
  sound := by
    intro key bucket h
    exact absurd h (by simp [RateLimiter.new])

variable {nowMs laterMs startMs : Nat} {limiter : RateLimiter} {keys : List String}

theorem Invariant.wait (h : Invariant config start nowMs limiter) (hlater : nowMs ≤ laterMs) :
    Invariant config start laterMs limiter where
  config_eq := h.config_eq
  start_le := h.start_le.trans hlater
  sound key bucket hbucket :=
    let hsound := h.sound key bucket hbucket
    ⟨hsound.tokens, hsound.refilled, hsound.past.trans hlater⟩

theorem level_le (nowMs : Nat) (limiter : RateLimiter) :
    level config key nowMs limiter ≤ config.maxTokens := by
  unfold level
  cases limiter.buckets.lookup key with
  | none => exact le_rfl
  | some bucket => exact min_le_left _ _

theorem level_nonneg (hrate : 0 ≤ config.refillRate) (nowMs : Nat) (limiter : RateLimiter) :
    0 ≤ level config key nowMs limiter := by
  unfold level
  cases limiter.buckets.lookup key with
  | none => exact Nat.cast_nonneg _
  | some bucket => exact credit_nonneg hrate nowMs bucket

theorem level_wait (hrate : 0 ≤ config.refillRate) (h : Invariant config start nowMs limiter)
    (hlater : nowMs ≤ laterMs) :
    level config key laterMs limiter
      ≤ level config key nowMs limiter + config.refillRate / 1000 * (laterMs - nowMs) := by
  unfold level
  cases hbucket : limiter.buckets.lookup key with
  | none =>
    have hgrown : 0 ≤ config.refillRate / 1000 * ((laterMs : ℚ) - nowMs) :=
      mul_nonneg (div_nonneg hrate (by norm_num)) (sub_nonneg.mpr (by exact_mod_cast hlater))
    simp only [Option.elim_none]
    linarith
  | some bucket => exact credit_wait hrate hlater (h.sound key bucket hbucket).past

/-- A cleanup only forgets. -/
theorem lookup_makeRoom (limiter : RateLimiter) (checked key : String) (nowMs : Nat) :
    (limiter.makeRoom checked nowMs).buckets.lookup key = limiter.buckets.lookup key
      ∨ (limiter.makeRoom checked nowMs).buckets.lookup key = none
        ∧ ∃ bucket, limiter.buckets.lookup key = some bucket
          ∧ bucket.lastRefill ≤ nowMs - 10 * 60 * 1000 := by
  unfold makeRoom
  split
  · rw [lookup_cleanup]
    cases hbucket : limiter.buckets.lookup key with
    | none => exact Or.inl rfl
    | some bucket =>
      by_cases hstale : bucket.lastRefill ≤ nowMs - 10 * 60 * 1000
      · exact Or.inr ⟨by simpa [Option.filter] using hstale, bucket, rfl, hstale⟩
      · refine Or.inl ?_
        rw [Option.filter_some, if_pos (by simpa using hstale)]
  · exact Or.inl rfl

theorem Invariant.makeRoom (h : Invariant config start nowMs limiter) (checked : String) :
    Invariant config start nowMs (limiter.makeRoom checked nowMs) where
  config_eq := (config_makeRoom limiter checked nowMs).trans h.config_eq
  start_le := h.start_le
  sound := by
    intro key bucket hbucket
    rcases lookup_makeRoom limiter checked key nowMs with heq | ⟨hnone, -⟩
    · exact h.sound key bucket (heq ▸ hbucket)
    · exact absurd (hnone.symm.trans hbucket) (by simp)

section

variable (hrate : 0 ≤ config.refillRate) (hrestores : Restores config start)
include hrate hrestores

/-- A bucket that is forgotten was worth a full one. -/
theorem credit_of_stale {bucket : Bucket} (hsound : bucket.Sound config start nowMs)
    (hstale : bucket.lastRefill ≤ nowMs - 10 * 60 * 1000) :
    (config.maxTokens : ℚ) ≤ credit config nowMs bucket := by
  refine le_min le_rfl ?_
  have hdue := due_nonneg hrate nowMs bucket
  rcases hrestores.2 with hpos | hzero
  · -- the last refill is not before the start, so the threshold has not saturated
    have hrefilled := hsound.refilled
    have helapsed : 600000 ≤ nowMs - bucket.lastRefill := by omega
    have hlong : (600000 : ℚ) ≤ ((nowMs - bucket.lastRefill : ℕ) : ℚ) := by exact_mod_cast helapsed
    have hrefill : 600 * config.refillRate ≤ due config nowMs bucket := by
      unfold due
      refine mul_le_mul_of_nonneg_right ?_ hrate
      linarith
    have htokens : (0 : ℚ) ≤ bucket.tokens := Nat.cast_nonneg _
    linarith [hrestores.1]
  · rw [hzero, Nat.cast_zero]
    exact add_nonneg (Nat.cast_nonneg _) hdue

theorem level_makeRoom (h : Invariant config start nowMs limiter) (checked : String) :
    level config key nowMs (limiter.makeRoom checked nowMs) ≤ level config key nowMs limiter := by
  unfold level
  rcases lookup_makeRoom limiter checked key nowMs with heq | ⟨hnone, bucket, hbucket, hstale⟩
  · rw [heq]
  · rw [hnone, hbucket]
    exact credit_of_stale hrate hrestores (h.sound key bucket hbucket) hstale

end

theorem level_store_self (nowMs : Nat) (limiter : RateLimiter) (bucket : Bucket) :
    level config key nowMs (limiter.store key bucket) = credit config nowMs bucket := by
  simp [level, store]

theorem level_store_ne {checked : String} (hne : key ≠ checked) (nowMs : Nat)
    (limiter : RateLimiter) (bucket : Bucket) :
    level config key nowMs (limiter.store checked bucket) = level config key nowMs limiter := by
  unfold level store
  rw [AList.lookup_insert_ne hne]

theorem Invariant.store (h : Invariant config start nowMs limiter) {checked : String}
    {bucket : Bucket} (hbucket : bucket.Sound config start nowMs) :
    Invariant config start nowMs (limiter.store checked bucket) where
  config_eq := h.config_eq
  start_le := h.start_le
  sound key := Assoc.forall_lookup_insert _ _ key h.sound hbucket

/-- The bucket that a check finds or makes. -/
theorem found_bucket (h : Invariant config start nowMs limiter) (key : String) :
    ∃ bucket, limiter.current key nowMs = refill config nowMs bucket
      ∧ (bucket.tokens ≤ config.maxTokens - 1
        ∨ bucket.tokens = config.maxTokens ∧ bucket.lastRefill = nowMs)
      ∧ start ≤ bucket.lastRefill ∧ bucket.lastRefill ≤ nowMs
      ∧ credit config nowMs bucket ≤ level config key nowMs limiter := by
  unfold RateLimiter.current level
  rw [h.config_eq]
  cases hbucket : limiter.buckets.lookup key with
  | none => exact ⟨_, rfl, Or.inr ⟨rfl, rfl⟩, h.start_le, le_rfl, min_le_left _ _⟩
  | some bucket =>
    have hsound := h.sound key bucket hbucket
    exact ⟨bucket, rfl, Or.inl hsound.tokens, hsound.refilled, hsound.past, le_rfl⟩

/-- **The level pays**: a check keeps the invariant, and a request that is let through costs its key
one. -/
theorem check_pays (hrate : 0 ≤ config.refillRate) (hrestores : Restores config start) {call : Call}
    (h : Invariant config start call.nowMs limiter) :
    Invariant config start call.nowMs (limiter.answer call).2
      ∧ level config key call.nowMs (limiter.answer call).2
          + (if (limiter.answer call).1 && call.key == key then 1 else 0)
        ≤ level config key call.nowMs limiter := by
  have hroom := h.makeRoom call.key
  have hlevel : level config key call.nowMs (limiter.makeRoom call.key call.nowMs)
      ≤ level config key call.nowMs limiter := level_makeRoom hrate hrestores h call.key
  obtain ⟨bucket, hcurrent, hspace, hstart, hpast, hcredit⟩ := found_bucket hroom call.key
  obtain ⟨hstart', hpast'⟩ := lastRefill_refill config hstart hpast
  rw [answer, check_eq]
  simp only [hcurrent]
  split
  · exact ⟨hroom, by simpa using hlevel⟩
  split
  · rename_i hzero
    refine ⟨hroom.store ⟨by omega, hstart', hpast'⟩, ?_⟩
    rw [if_neg (by simp), add_zero]
    refine le_trans ?_ hlevel
    by_cases hkey : key = call.key
    · subst hkey
      rw [level_store_self]
      exact (credit_refill hrate _ _).trans hcredit
    · rw [level_store_ne hkey]
  · rename_i hsome
    have hpos := Nat.pos_of_ne_zero hsome
    have htokens : (refill config call.nowMs bucket).tokens - 1 ≤ config.maxTokens - 1 := by
      have hworth := refill_worth hspace hpos
      have hdue := due_nonneg hrate call.nowMs (refill config call.nowMs bucket)
      have hle : ((refill config call.nowMs bucket).tokens : ℚ) ≤ config.maxTokens := by linarith
      have : (refill config call.nowMs bucket).tokens ≤ config.maxTokens := by exact_mod_cast hle
      omega
    refine ⟨hroom.store ⟨htokens, hstart', hpast'⟩, ?_⟩
    refine le_trans ?_ hlevel
    by_cases hkey : key = call.key
    · subst hkey
      rw [level_store_self, if_pos (by simp)]
      exact (credit_take hrate hspace hpos).trans hcredit
    · rw [level_store_ne hkey, if_neg (by simpa using Ne.symm hkey), add_zero]

/-- The buckets of a limiter are a level in the sense of metered steps. -/
theorem pays (key : String) (hrate : 0 ≤ config.refillRate) (hrestores : Restores config start) :
    Metered.Pays answer Call.nowMs (·.key == key) (Invariant config start) (level config key)
      config.maxTokens (config.refillRate / 1000) where
  rate_nonneg := div_nonneg hrate (by norm_num)
  nonneg _ := level_nonneg hrate _ _
  le_cap := level_le
  wait hlater h := ⟨h.wait hlater, level_wait hrate h hlater⟩
  pay h := check_pays hrate hrestores h

/-! ### Forgotten buckets -/

/-- A limiter with buckets for these keys, all refilled at one time. -/
structure Holding (config : RateLimitConfig) (nowMs : Nat) (keys : List String)
    (limiter : RateLimiter) : Prop where
  config_eq : limiter.config = config
  keys_perm : limiter.buckets.keys.Perm keys
  refilled : ∀ key bucket, limiter.buckets.lookup key = some bucket → bucket.lastRefill = nowMs

section

variable (h : Holding config nowMs keys limiter)
include h

theorem Holding.mem_iff :
    key ∈ limiter.buckets ↔ key ∈ keys := by
  rw [AList.mem_keys]
  exact h.keys_perm.mem_iff

theorem Holding.makeRoom_eq (hroom : key ∈ keys ∨ keys.length < maxTrackedKeys) (laterMs : Nat) :
    ¬ limiter.Full key ∧ limiter.makeRoom key laterMs = limiter := by
  have hfree : ¬ limiter.Full key := by
    rintro ⟨hmem, hlong⟩
    rw [h.keys_perm.length_eq] at hlong
    rcases hroom with hkey | hshort
    · exact hmem (h.mem_iff.mpr hkey)
    · omega
  exact ⟨hfree, if_neg hfree⟩

theorem Holding.store (key : String) (tokens : Nat) :
    Holding config nowMs (key :: keys.erase key) (limiter.store key ⟨tokens, nowMs⟩) where
  config_eq := h.config_eq
  keys_perm := by
    rw [RateLimiter.store, AList.keys_insert]
    exact (h.keys_perm.erase key).cons key
  refilled other := Assoc.forall_lookup_insert _ _ other h.refilled rfl

end

theorem refill_now (tokens nowMs : Nat) :
    refill config nowMs ⟨tokens, nowMs⟩ = ⟨tokens, nowMs⟩ := by
  simp [refill]

/-- A bucket of this time with tokens gives one. -/
theorem answer_of_tokens {tokens : Nat} (h : Holding config nowMs keys limiter)
    (hroom : key ∈ keys ∨ keys.length < maxTrackedKeys)
    (hbucket : (limiter.buckets.lookup key).getD ⟨config.maxTokens, nowMs⟩ = ⟨tokens + 1, nowMs⟩) :
    limiter.answer ⟨key, nowMs⟩ = (true, limiter.store key ⟨tokens, nowMs⟩) := by
  obtain ⟨hfree, hsame⟩ := h.makeRoom_eq hroom nowMs
  have hcurrent : limiter.current key nowMs = ⟨tokens + 1, nowMs⟩ := by
    rw [current, h.config_eq, hbucket, refill_now]
  rw [answer, check_eq]
  simp only [hsame, hcurrent]
  rw [if_neg hfree, if_neg (Nat.succ_ne_zero tokens)]
  rfl

/-- A key takes all its tokens, one after the other. -/
theorem drain {tokens : Nat} (h : Holding config nowMs keys limiter)
    (hroom : key ∈ keys ∨ keys.length < maxTrackedKeys)
    (hbucket : (limiter.buckets.lookup key).getD ⟨config.maxTokens, nowMs⟩ = ⟨tokens + 1, nowMs⟩) :
    Runs.log answer limiter (List.replicate (tokens + 1) ⟨key, nowMs⟩)
        = List.replicate (tokens + 1) (⟨key, nowMs⟩, true)
      ∧ Holding config nowMs (key :: keys.erase key)
        (Runs.after answer limiter (List.replicate (tokens + 1) ⟨key, nowMs⟩)) := by
  have hanswer := answer_of_tokens h hroom hbucket
  have hnext := h.store key tokens
  rw [List.replicate_succ, List.replicate_succ, Runs.log, Runs.after_cons, hanswer]
  induction tokens generalizing limiter keys with
  | zero => exact ⟨rfl, hnext⟩
  | succ tokens ih =>
    have hleft : ((limiter.store key ⟨tokens + 1, nowMs⟩).buckets.lookup key).getD
        ⟨config.maxTokens, nowMs⟩ = ⟨tokens + 1, nowMs⟩ := by simp [RateLimiter.store]
    have hanswer' := answer_of_tokens hnext (Or.inl List.mem_cons_self) hleft
    have hafter := hnext.store key tokens
    obtain ⟨htrace, hend⟩ := ih hnext (Or.inl List.mem_cons_self) hleft hanswer' hafter
    rw [List.erase_cons_head] at hend
    rw [List.replicate_succ, List.replicate_succ, Runs.log, Runs.after_cons, hanswer', htrace]
    exact ⟨rfl, hend⟩

/-- What a new key finds is a full bucket. -/
theorem Holding.getD_fresh {tokens : Nat} (h : Holding config nowMs keys limiter) (hkey : key ∉ keys)
    (htokens : config.maxTokens = tokens + 1) :
    (limiter.buckets.lookup key).getD ⟨config.maxTokens, nowMs⟩ = ⟨tokens + 1, nowMs⟩ := by
  rw [AList.lookup_eq_none.mpr fun hmem => hkey (h.mem_iff.mp hmem), Option.getD_none, htokens]

section

variable {tokens : Nat} (htokens : config.maxTokens = tokens + 1)
  (h : Holding config nowMs keys limiter)
include htokens h

/-- Many new keys fill the table. -/
theorem fill {fresh : List String} (hnodup : fresh.Nodup) (hfresh : ∀ key ∈ fresh, key ∉ keys)
    (hroom : keys.length + fresh.length ≤ maxTrackedKeys) :
    Holding config nowMs (fresh.reverse ++ keys)
      (Runs.after answer limiter (fresh.map fun key => ⟨key, nowMs⟩)) := by
  induction fresh generalizing keys limiter with
  | nil => exact h
  | cons key fresh ih =>
    obtain ⟨hkey, hnodup⟩ := List.nodup_cons.mp hnodup
    rw [List.length_cons] at hroom
    have hnew := hfresh key List.mem_cons_self
    have hnext := h.store key tokens
    rw [List.erase_of_not_mem hnew] at hnext
    rw [List.map_cons, Runs.after_cons, answer_of_tokens h (Or.inr (by omega))
      (h.getD_fresh hnew htokens), List.reverse_cons, List.append_assoc]
    refine ih hnext hnodup ?_ (by simp only [List.length_append, List.length_singleton]; omega)
    intro other hother hmem
    rcases List.mem_cons.mp hmem with rfl | hmem
    · exact hkey hother
    · exact hfresh other (List.mem_cons_of_mem _ hother) hmem

/-- A full table whose buckets are all old is forgotten. -/
theorem answer_full (hkey : key ∉ keys) (hfull : maxTrackedKeys ≤ keys.length)
    (hstale : nowMs ≤ laterMs - 10 * 60 * 1000) :
    Holding config laterMs [key] (limiter.answer ⟨key, laterMs⟩).2 := by
  have hFull : limiter.Full key :=
    ⟨fun hmem => hkey (h.mem_iff.mp hmem), by rwa [h.keys_perm.length_eq]⟩
  have hnone : ∀ other, (limiter.cleanup (10 * 60 * 1000) laterMs).buckets.lookup other = none := by
    intro other
    rw [lookup_cleanup]
    cases hbucket : limiter.buckets.lookup other with
    | none => rfl
    | some bucket =>
      have hold := h.refilled other bucket hbucket
      rw [Option.filter_some, if_neg]
      simpa [hold] using hstale
  have hempty : Holding config laterMs [] (limiter.cleanup (10 * 60 * 1000) laterMs) := by
    refine ⟨h.config_eq, ?_, ?_⟩
    · rw [List.perm_nil, List.eq_nil_iff_forall_not_mem]
      intro other hother
      have hfound := AList.lookup_isSome.mpr (AList.mem_keys.mpr hother)
      rw [hnone other] at hfound
      cases hfound
    · intro other bucket hbucket
      rw [hnone other] at hbucket
      cases hbucket
  have hcheck : limiter.answer ⟨key, laterMs⟩
      = (limiter.cleanup (10 * 60 * 1000) laterMs).answer ⟨key, laterMs⟩ := by
    have hroom : limiter.makeRoom key laterMs = limiter.cleanup (10 * 60 * 1000) laterMs :=
      if_pos hFull
    have hsame : (limiter.cleanup (10 * 60 * 1000) laterMs).makeRoom key laterMs
        = limiter.cleanup (10 * 60 * 1000) laterMs :=
      (hempty.makeRoom_eq (Or.inr (by decide)) laterMs).2
    rw [answer, answer, check_eq, check_eq, hroom, hsame]
  rw [hcheck, answer_of_tokens hempty (Or.inr (by decide))
    (hempty.getD_fresh List.not_mem_nil htokens)]
  exact hempty.store key tokens

end

/-- Keys that differ by their length. -/
def probe (n : Nat) : String :=
  String.ofList (List.replicate n 'k')

theorem probe_injective : Function.Injective probe := by
  intro m n h
  have hlength := congrArg String.length h
  simpa [probe] using hlength

/-- The keys that fill the table beside the first one. -/
def otherKeys : List String :=
  (List.range (maxTrackedKeys - 1)).map fun n => probe (n + 1)

theorem otherKeys_nodup : otherKeys.Nodup :=
  List.Nodup.map (fun _ _ h => Nat.succ_injective (probe_injective h)) List.nodup_range

theorem probe_notMem_otherKeys {n : Nat} (h : n = 0 ∨ maxTrackedKeys ≤ n) : probe n ∉ otherKeys := by
  intro hmem
  obtain ⟨m, hm, heq⟩ := List.mem_map.mp hmem
  have hlt := List.mem_range.mp hm
  have hn : m + 1 = n := probe_injective heq
  omega

/-- A key takes its bucket, the table is filled and, later, forgotten, and the key takes a bucket
again. -/
def forgetfulCalls (config : RateLimitConfig) (startMs laterMs : Nat) : List Call :=
  List.replicate config.maxTokens ⟨probe 0, startMs⟩ ++ otherKeys.map (⟨·, startMs⟩)
    ++ (⟨probe maxTrackedKeys, laterMs⟩ :: List.replicate config.maxTokens ⟨probe 0, laterMs⟩)

theorem chronological_append (hlater : startMs ≤ laterMs) {first second : List Call}
    (hfirst : ∀ call ∈ first, call.nowMs = startMs)
    (hsecond : ∀ call ∈ second, call.nowMs = laterMs) :
    Metered.Chronological Call.nowMs startMs (first ++ second) := by
  refine ⟨?_, List.pairwise_append.mpr ⟨?_, ?_, ?_⟩⟩
  · intro call hcall
    rcases List.mem_append.mp hcall with hcall | hcall
    · exact (hfirst call hcall).ge
    · exact hlater.trans (hsecond call hcall).ge
  · exact List.pairwise_of_forall_mem_list fun a ha b hb => by rw [hfirst a ha, hfirst b hb]
  · exact List.pairwise_of_forall_mem_list fun a ha b hb => by rw [hsecond a ha, hsecond b hb]
  · intro a ha b hb
    rw [hfirst a ha, hsecond b hb]
    exact hlater

theorem forgetfulCalls_chronological (config : RateLimitConfig) (hlater : startMs ≤ laterMs) :
    Metered.Chronological Call.nowMs startMs (forgetfulCalls config startMs laterMs) := by
  refine chronological_append hlater ?_ ?_
  · intro call hcall
    rcases List.mem_append.mp hcall with hcall | hcall
    · rw [List.eq_of_mem_replicate hcall]
    · obtain ⟨other, -, rfl⟩ := List.mem_map.mp hcall
      rfl
  · intro call hcall
    rcases List.mem_cons.mp hcall with rfl | hcall
    · rfl
    · rw [List.eq_of_mem_replicate hcall]

/-- Requests of one time that are all let through. -/
theorem grantedIn_replicate {t₀ t₁ : Nat} (hfrom : t₀ ≤ nowMs) (hto : nowMs ≤ t₁) (n : Nat) :
    Metered.grantedIn Call.nowMs (·.key == key) t₀ t₁ (List.replicate n (⟨key, nowMs⟩, true)) = n := by
  rw [Metered.grantedIn, List.countP_replicate, if_pos (by simp [hfrom, hto])]

/-- **Two buckets are let through** when one is forgotten between them. -/
theorem granted_forgetfulCalls (hsome : 0 < config.maxTokens) (hlater : startMs ≤ laterMs)
    (hstale : startMs ≤ laterMs - 10 * 60 * 1000) :
    2 * config.maxTokens ≤ Metered.grantedIn Call.nowMs (·.key == probe 0) startMs laterMs
      (Runs.log answer (RateLimiter.new config) (forgetfulCalls config startMs laterMs)) := by
  have hnew : Holding config startMs [] (RateLimiter.new config) :=
    ⟨rfl, List.Perm.refl _, fun key bucket h => absurd h (by simp [RateLimiter.new])⟩
  have hlength : otherKeys.length = maxTrackedKeys - 1 := by
    rw [otherKeys, List.length_map, List.length_range]
  have hlast : probe maxTrackedKeys ∉ otherKeys.reverse ++ [probe 0] := by
    intro hmem
    rcases List.mem_append.mp hmem with hmem | hmem
    · exact probe_notMem_otherKeys (Or.inr le_rfl) (List.mem_reverse.mp hmem)
    · exact absurd (probe_injective (List.mem_singleton.mp hmem)) (by decide)
  have hother : probe 0 ∉ [probe maxTrackedKeys] := fun hmem =>
    absurd (probe_injective (List.mem_singleton.mp hmem)) (by decide)
  obtain ⟨tokens, htokens⟩ := Nat.exists_eq_add_one.mpr hsome
  obtain ⟨hfirst, hdrained⟩ := drain hnew (Or.inr (by decide))
    (hnew.getD_fresh (List.not_mem_nil : probe 0 ∉ []) htokens)
  have hfilled := fill htokens hdrained otherKeys_nodup
    (fun other hother hmem => probe_notMem_otherKeys (Or.inl rfl) (List.mem_singleton.mp hmem ▸ hother))
    (by rw [hlength]; decide)
  have hforgotten := answer_full htokens hfilled hlast
    (by rw [List.length_append, List.length_reverse, hlength]; decide) hstale
  obtain ⟨hsecond, -⟩ := drain hforgotten (Or.inr (by decide))
    (hforgotten.getD_fresh hother htokens)
  rw [forgetfulCalls, htokens, Runs.log_append, Runs.log_append, Runs.log, Runs.after_append, hfirst,
    hsecond, Metered.grantedIn_append, Metered.grantedIn_append, Metered.grantedIn_cons,
    grantedIn_replicate le_rfl hlater, grantedIn_replicate hlater le_rfl]
  omega

variable (config)

/-- In every window, a key is let through at most as often as a bucket and the refill rate allow. -/
def WindowBound (calls : List Call) : Prop :=
  ∀ key t₀ t₁, t₀ ≤ t₁ →
    (Metered.grantedIn Call.nowMs (·.key == key) t₀ t₁
        (Runs.log answer (RateLimiter.new config) calls) : ℚ)
      ≤ config.maxTokens + config.refillRate * (((t₁ : ℚ) - t₀) / 1000)

theorem not_windowBound_forgetfulCalls (hsome : 0 < config.maxTokens) (hlater : startMs ≤ laterMs)
    (hstale : startMs ≤ laterMs - 10 * 60 * 1000)
    (hslow : config.refillRate * (((laterMs : ℚ) - startMs) / 1000) < config.maxTokens) :
    ¬ WindowBound config (forgetfulCalls config startMs laterMs) := by
  intro h
  have hbound := h (probe 0) startMs laterMs hlater
  have hcount := granted_forgetfulCalls hsome hlater hstale
  have hcast : (2 : ℚ) * config.maxTokens ≤ Metered.grantedIn Call.nowMs (·.key == probe 0) startMs
      laterMs (Runs.log answer (RateLimiter.new config)
        (forgetfulCalls config startMs laterMs)) := by exact_mod_cast hcount
  linarith

/-- **Every window of every history is bounded** exactly when a bucket that is old enough to be
forgotten is full again. -/
theorem window_bound_iff (hrate : 0 ≤ config.refillRate) (start : Nat) :
    (∀ calls, Metered.Chronological Call.nowMs start calls → WindowBound config calls)
      ↔ Restores config start := by
  constructor
  · intro h
    by_contra hfails
    -- the bucket is forgotten after ten minutes, or at once when the clock reads zero
    have hcase : ∃ laterMs, start ≤ laterMs ∧ start ≤ laterMs - 10 * 60 * 1000
        ∧ config.refillRate * (((laterMs : ℚ) - start) / 1000) < config.maxTokens := by
      by_cases hslow : (config.maxTokens : ℚ) ≤ 600 * config.refillRate
      · have hzero : ¬ (0 < start ∨ config.maxTokens = 0) := fun h => hfails ⟨hslow, h⟩
        push Not at hzero
        obtain ⟨hstart, hsome⟩ := hzero
        obtain rfl : start = 0 := by omega
        refine ⟨0, le_rfl, le_rfl, ?_⟩
        have hpos : (0 : ℚ) < config.maxTokens := by exact_mod_cast Nat.pos_of_ne_zero hsome
        simpa using hpos
      · refine ⟨start + 600000, by omega, by omega, ?_⟩
        push_cast
        linarith [not_le.mp hslow]
    obtain ⟨laterMs, hlater, hstale, hslow⟩ := hcase
    have hgrown : 0 ≤ config.refillRate * (((laterMs : ℚ) - start) / 1000) :=
      mul_nonneg hrate (div_nonneg (sub_nonneg.mpr (by exact_mod_cast hlater)) (by norm_num))
    have hsome : 0 < config.maxTokens := by exact_mod_cast hgrown.trans_lt hslow
    exact not_windowBound_forgetfulCalls config hsome hlater hstale hslow
      (h _ (forgetfulCalls_chronological config hlater))
  · intro hrestores calls hcalls key t₀ t₁ ht
    have hbound := Metered.grantedIn_le (pays key hrate hrestores) invariant_new hcalls ht
    calc _ ≤ (config.maxTokens : ℚ) + config.refillRate / 1000 * (t₁ - t₀) := hbound
      _ = config.maxTokens + config.refillRate * (((t₁ : ℚ) - t₀) / 1000) := by ring

/-- The default limiter refills its sixty tokens in a minute. -/
theorem default_windows_bounded :
    Metered.Chronological Call.nowMs 1 [⟨"k", 1⟩, ⟨"k", 500⟩]
      ∧ WindowBound ⟨60, 1⟩ [⟨"k", 1⟩, ⟨"k", 500⟩] := by
  have hcalls : Metered.Chronological Call.nowMs 1 [⟨"k", 1⟩, ⟨"k", 500⟩] := by
    constructor <;> simp
  exact ⟨hcalls, (window_bound_iff ⟨60, 1⟩ (by norm_num) 1).mpr ⟨by norm_num, Or.inl one_pos⟩ _
    hcalls⟩

/-- With one token in twenty seconds, a key takes sixty tokens twice within ten minutes. -/
theorem slow_bucket_is_forgotten :
    Metered.Chronological Call.nowMs 1 (forgetfulCalls ⟨60, 1 / 20⟩ 1 600001)
      ∧ ¬ WindowBound ⟨60, 1 / 20⟩ (forgetfulCalls ⟨60, 1 / 20⟩ 1 600001) :=
  ⟨forgetfulCalls_chronological _ (by decide),
    not_windowBound_forgetfulCalls ⟨60, 1 / 20⟩ (by decide) (by decide) (by decide) (by norm_num)⟩

end Histories

/-! ### The size of the table -/

namespace RateLimiter

/-- `tracked_keys`. -/
def trackedKeys (limiter : RateLimiter) : Nat :=
  limiter.buckets.keys.length

variable {limiter : RateLimiter} (h : limiter.trackedKeys ≤ maxTrackedKeys)
include h

theorem trackedKeys_makeRoom (key : String) (nowMs : Nat) :
    (limiter.makeRoom key nowMs).trackedKeys ≤ maxTrackedKeys := by
  refine (List.Nodup.subperm (AList.keys_nodup _) fun other hother => ?_).length_le.trans h
  rw [← AList.mem_keys, ← AList.lookup_isSome] at hother ⊢
  rcases lookup_makeRoom limiter key other nowMs with hsame | ⟨hnone, -⟩
  · rwa [← hsame]
  · rw [hnone] at hother
    cases hother

theorem trackedKeys_store {key : String} (hroom : ¬ limiter.Full key) (bucket : Bucket) :
    (limiter.store key bucket).trackedKeys ≤ maxTrackedKeys := by
  unfold trackedKeys at h ⊢
  rw [store, AList.keys_insert, List.length_cons]
  by_cases hkey : key ∈ limiter.buckets
  · rwa [List.length_erase_add_one hkey]
  · rw [List.erase_of_not_mem hkey]
    exact not_le.mp fun hfull => hroom ⟨hkey, hfull⟩

theorem trackedKeys_answer (call : Call) :
    (limiter.answer call).2.trackedKeys ≤ maxTrackedKeys := by
  have hroom := trackedKeys_makeRoom h call.key call.nowMs
  show (limiter.check call.key call.nowMs).2.trackedKeys ≤ maxTrackedKeys
  rw [check_eq]
  dsimp only
  split
  · exact hroom
  · rename_i hfull
    split <;> exact trackedKeys_store hroom hfull _

omit h in
/-- **The table stays bounded**, whatever keys make requests and however often. -/
theorem tracked_keys_bounded (config : RateLimitConfig) (calls : List Call) :
    (Runs.after answer (.new config) calls).trackedKeys ≤ maxTrackedKeys := by
  induction calls using List.reverseRecOn with
  | nil => exact Nat.zero_le _
  | append_singleton calls call ih =>
    rw [Runs.after_append]
    exact trackedKeys_answer ih call

end RateLimiter

end BlossomRs.RateLimit
