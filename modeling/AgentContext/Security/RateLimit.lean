import Mathlib

/-!
# The rate limiter

`TokenBucketLimiter` over exact time: a dictionary of buckets in the order of their last use.

    take              what a call does to a bucket, whichever limiter keeps it
    sweep             drops the buckets that are full, then the oldest ones at the cap
    acquire           the limiter of the source
    ideal             one bucket for each principal, never dropped
    limiter_refines   the two answer alike for fewer principals than the cap
-/

namespace Security

open List

/-- The settings are positive. -/
structure TokenBucketLimiter where
  ratePerSecond : ℚ
  burst : Nat
  maxBuckets : Nat
  rate_pos : 0 < ratePerSecond
  burst_pos : 0 < burst
  cap_pos : 0 < maxBuckets

structure Bucket where
  tokens : ℚ
  updated : ℚ
deriving DecidableEq, Repr

/-- The buckets, least recently used first. -/
structure Buckets where
  buckets : List (String × Bucket)
  lastSweep : ℚ
deriving DecidableEq, Repr

namespace TokenBucketLimiter

variable (l : TokenBucketLimiter)

def horizon : ℚ := l.burst / l.ratePerSecond

def refilled (b : Bucket) (now : ℚ) : ℚ := b.tokens + (now - b.updated) * l.ratePerSecond

def level (b : Bucket) (now : ℚ) : ℚ := min l.burst (l.refilled b now)

/-- A permit, or the seconds of `RateLimitedError`, and the bucket afterwards. -/
def take (now tokens : ℚ) : Option Nat × Bucket :=
  if tokens < 1 then (some (max 1 ⌈(1 - tokens) / l.ratePerSecond⌉.toNat), ⟨tokens, now⟩) else (none, ⟨tokens - 1, now⟩)

/-- `_sweep`; the loop drops the oldest until there is room for one. -/
def sweep (now : ℚ) (s : Buckets) : Buckets :=
  let kept := s.buckets.filter fun entry => l.refilled entry.2 now < l.burst
  ⟨kept.drop (kept.length + 1 - l.maxBuckets), now⟩

def swept (principal : String) (now : ℚ) (s : Buckets) : Buckets :=
  if now - s.lastSweep ≥ l.horizon ∨ (s.buckets.length ≥ l.maxBuckets ∧ (s.buckets.lookup principal).isNone) then
    l.sweep now s
  else s

def acquire (principal : String) (now : ℚ) (s : Buckets) : Option Nat × Buckets :=
  let s := l.swept principal now s
  let taken := l.take now (l.level ((s.buckets.lookup principal).getD ⟨l.burst, now⟩) now)
  (taken.1, { s with buckets := s.buckets.filter (·.1 ≠ principal) ++ [(principal, taken.2)] })

def start (now : ℚ) : Buckets := ⟨[], now⟩

/-- A bucket for every principal. -/
def ideal (principal : String) (now : ℚ) (buckets : String → Bucket) : Option Nat × (String → Bucket) :=
  let taken := l.take now (l.level (buckets principal) now)
  (taken.1, Function.update buckets principal taken.2)

end TokenBucketLimiter

/-- The answers to calls, one after the other. -/
def serve {σ : Type} (acquire : String → ℚ → σ → Option Nat × σ) : List (String × ℚ) → σ → List (Option Nat) × σ
  | [], s => ([], s)
  | call :: calls, s =>
    let (answer, s) := acquire call.1 call.2 s
    let (answers, s) := serve acquire calls s
    (answer :: answers, s)

/-- The permits of a principal. -/
def permits (principal : String) (calls : List (String × ℚ)) (answers : List (Option Nat)) : Nat :=
  (calls.zip answers).countP fun (call, answer) => call.1 = principal && answer.isNone

namespace TokenBucketLimiter

variable {l : TokenBucketLimiter} {s : Buckets} {now now' : ℚ} {principal : String} {buckets : String → Bucket}
  {known : Finset String} {calls : List (String × ℚ)}

/-! ## The ideal buckets -/

theorem refilled_mono (b : Bucket) (h : now ≤ now') : l.refilled b now ≤ l.refilled b now' := by
  have := mul_le_mul_of_nonneg_right (sub_le_sub_right h b.updated) l.rate_pos.le
  unfold refilled
  linarith

theorem level_full {b : Bucket} (h : (l.burst : ℚ) ≤ l.refilled b now) : l.level b now = l.burst := min_eq_left h

theorem refilled_updated {b : Bucket} (h : b.updated = now) : l.refilled b now = b.tokens := by simp [refilled, h]

theorem take_updated (tokens : ℚ) : (l.take now tokens).2.updated = now := by
  unfold take
  split <;> rfl

theorem mem_sweep {entry : String × Bucket} (h : entry ∈ (l.sweep now s).buckets) : entry ∈ s.buckets :=
  mem_of_mem_filter (mem_of_mem_drop h)

/-- Waiting adds what the rate gives. -/
theorem level_later (b : Bucket) (h : now ≤ now') :
    l.level b now' ≤ l.level b now + (now' - now) * l.ratePerSecond := by
  have hstep : l.refilled b now' = l.refilled b now + (now' - now) * l.ratePerSecond := by unfold refilled; ring
  have hgain : 0 ≤ (now' - now) * l.ratePerSecond := mul_nonneg (sub_nonneg.2 h) l.rate_pos.le
  unfold level
  rw [hstep]
  rcases min_cases (l.burst : ℚ) (l.refilled b now) with ⟨heq, -⟩ | ⟨heq, -⟩ <;> rw [heq]
  · exact (min_le_left _ _).trans (le_add_of_nonneg_right hgain)
  · exact min_le_right _ _

/-- One call: what a principal is given and what is left come from what there was. -/
theorem ideal_level (caller : String) (h0 : 0 ≤ l.refilled (buckets principal) now) :
    0 ≤ l.refilled ((l.ideal caller now buckets).2 principal) now ∧
      ((if caller = principal && (l.ideal caller now buckets).1.isNone then 1 else 0 : Nat) : ℚ) +
        l.level ((l.ideal caller now buckets).2 principal) now = l.level (buckets principal) now := by
  by_cases hcaller : caller = principal
  · subst hcaller
    have hlow : 0 ≤ l.level (buckets caller) now := le_min (Nat.cast_nonneg _) h0
    have hhigh : l.level (buckets caller) now ≤ l.burst := min_le_left _ _
    simp only [ideal, Function.update_self]
    rw [refilled_updated (take_updated _)]
    generalize l.level (buckets caller) now = tokens at hlow hhigh
    rw [level, refilled_updated (take_updated _)]
    unfold take
    split
    · exact ⟨hlow, by simpa using hhigh⟩
    · next hone =>
      rw [not_lt] at hone
      refine ⟨sub_nonneg.2 hone, ?_⟩
      rw [min_eq_right (by dsimp only; linarith)]
      simp
  · have hleft : (l.ideal caller now buckets).2 principal = buckets principal :=
      Function.update_of_ne (Ne.symm hcaller) ..
    rw [hleft, decide_eq_false hcaller]
    exact ⟨h0, by simp⟩

/-- **No more permits than the burst and what the rate gives meanwhile.** -/
theorem permits_ideal {stop : ℚ} (hcalls : (now :: calls.map (·.2)).Pairwise (· ≤ ·))
    (hstop : ∀ call ∈ calls, call.2 ≤ stop) (hle : now ≤ stop) (h0 : 0 ≤ l.refilled (buckets principal) now) :
    (permits principal calls (serve l.ideal calls buckets).1 : ℚ) ≤
      l.level (buckets principal) now + (stop - now) * l.ratePerSecond := by
  induction calls generalizing now buckets with
  | nil =>
    have hlevel : 0 ≤ l.level (buckets principal) now := le_min (Nat.cast_nonneg _) h0
    have hgain : 0 ≤ (stop - now) * l.ratePerSecond := mul_nonneg (sub_nonneg.2 hle) l.rate_pos.le
    simpa [permits, serve] using add_nonneg hlevel hgain
  | cons call calls ih =>
    obtain ⟨hfirst, hrest⟩ := pairwise_cons.1 hcalls
    have hnow : now ≤ call.2 := hfirst _ mem_cons_self
    have hstop' := forall_mem_cons.1 hstop
    have hlater := level_later (l := l) (buckets principal) hnow
    obtain ⟨hleft, hgiven⟩ := ideal_level call.1 (h0.trans (refilled_mono _ hnow))
    have hcalls := ih hrest hstop'.2 hstop'.1 hleft
    have hcount : permits principal (call :: calls) (serve l.ideal (call :: calls) buckets).1 =
        permits principal calls (serve l.ideal calls (l.ideal call.1 call.2 buckets).2).1 +
          if call.1 = principal && (l.ideal call.1 call.2 buckets).1.isNone then 1 else 0 := by
      simp only [permits, serve, zip_cons_cons, countP_cons]
    rw [hcount, Nat.cast_add]
    linarith

/-! ## The refinement -/

/-- What the stored buckets and the ideal ones agree on: a bucket that is not stored is full. -/
structure Refines (l : TokenBucketLimiter) (known : Finset String) (now : ℚ) (s : Buckets)
    (buckets : String → Bucket) : Prop where
  nodup : (s.buckets.map (·.1)).Nodup
  within : ∀ entry ∈ s.buckets, entry.1 ∈ known
  stored : ∀ entry ∈ s.buckets, buckets entry.1 = entry.2
  full : ∀ principal, principal ∉ s.buckets.map (·.1) → (l.burst : ℚ) ≤ l.refilled (buckets principal) now
  nonneg : ∀ principal, 0 ≤ l.refilled (buckets principal) now

section

variable (h : Refines l known now s buckets)
include h

theorem Refines.later (hnow : now ≤ now') : Refines l known now' s buckets :=
  ⟨h.nodup, h.within, h.stored, fun p hp => (h.full p hp).trans (refilled_mono _ hnow),
    fun p => (h.nonneg p).trans (refilled_mono _ hnow)⟩

theorem Refines.few : s.buckets.length ≤ known.card := by
  rw [← length_map, ← toFinset_card_of_nodup h.nodup]
  refine Finset.card_le_card fun p hp => ?_
  obtain ⟨entry, hentry, rfl⟩ := mem_map.1 (mem_toFinset.1 hp)
  exact h.within entry hentry

/-- Below the cap a sweep drops full buckets only. -/
theorem Refines.sweep (hfew : known.card < l.maxBuckets) : Refines l known now (l.sweep now s) buckets := by
  have hlen := (length_filter_le (fun entry => l.refilled entry.2 now < l.burst) s.buckets).trans h.few
  have hsub : (l.sweep now s).buckets = s.buckets.filter fun entry => l.refilled entry.2 now < l.burst := by
    rw [TokenBucketLimiter.sweep, Nat.sub_eq_zero_of_le (Nat.succ_le_of_lt (hlen.trans_lt hfew)), drop_zero]
  refine ⟨?_, fun entry he => h.within entry (mem_sweep he), fun entry he => h.stored entry (mem_sweep he), ?_,
    h.nonneg⟩
  · rw [hsub]
    exact (filter_sublist.map _).nodup h.nodup
  · intro p hp
    by_cases hin : p ∈ s.buckets.map (·.1)
    · obtain ⟨entry, hentry, rfl⟩ := mem_map.1 hin
      rw [h.stored entry hentry]
      refine le_of_not_gt fun hlt => hp (mem_map_of_mem ?_)
      rw [hsub]
      exact mem_filter.2 ⟨hentry, decide_eq_true hlt⟩
    · exact h.full p hin

theorem Refines.level_eq :
    l.level ((s.buckets.lookup principal).getD ⟨l.burst, now⟩) now = l.level (buckets principal) now := by
  cases hlook : s.buckets.lookup principal with
  | none =>
    have hout : principal ∉ s.buckets.map (·.1) := by
      rintro hin
      obtain ⟨entry, hentry, rfl⟩ := mem_map.1 hin
      simpa using lookup_eq_none_iff.1 hlook entry hentry
    rw [level_full (h.full _ hout), Option.getD_none, level_full (refilled_updated rfl).ge]
  | some b =>
    have hin : (principal, b) ∈ s.buckets := by
      obtain ⟨before, after, heq, -⟩ := lookup_eq_some_iff.1 hlook
      rw [heq]
      simp
    rw [Option.getD_some, h.stored _ hin]

/-- **One call is answered as by the ideal bucket.** -/
theorem Refines.acquire (hfew : known.card < l.maxBuckets) (hin : principal ∈ known) :
    (l.acquire principal now s).1 = (l.ideal principal now buckets).1 ∧
      Refines l known now (l.acquire principal now s).2 (l.ideal principal now buckets).2 := by
  have hswept : Refines l known now (l.swept principal now s) buckets := by
    unfold swept
    split
    · exact h.sweep hfew
    · exact h
  unfold TokenBucketLimiter.acquire ideal
  simp only [hswept.level_eq]
  generalize l.swept principal now s = s at hswept ⊢
  refine ⟨trivial, ?_, ?_, ?_, ?_, ?_⟩
  · rw [map_append, map_singleton]
    refine List.Nodup.append ((filter_sublist.map _).nodup hswept.nodup) (nodup_singleton _) ?_
    simp
  · intro entry he
    rcases mem_append.1 he with he | he
    · exact hswept.within entry (mem_of_mem_filter he)
    · exact mem_singleton.1 he ▸ hin
  · intro entry he
    rcases mem_append.1 he with he | he
    · obtain ⟨hmem, hne⟩ := mem_filter.1 he
      rw [Function.update_of_ne (of_decide_eq_true hne), hswept.stored entry hmem]
    · rw [mem_singleton.1 he, Function.update_self]
  · intro p hp
    have hne : p ≠ principal := by
      rintro rfl
      simp at hp
    rw [Function.update_of_ne hne]
    refine hswept.full p fun hmem => hp ?_
    obtain ⟨entry, hentry, rfl⟩ := mem_map.1 hmem
    exact mem_map_of_mem (mem_append_left _ (mem_filter.2 ⟨hentry, decide_eq_true hne⟩))
  · exact fun p => (ideal_level principal (hswept.nonneg p)).1

theorem serve_refines (hfew : known.card < l.maxBuckets)
    (hclock : (now :: calls.map (·.2)).Pairwise (· ≤ ·)) (hknown : ∀ call ∈ calls, call.1 ∈ known) :
    (serve l.acquire calls s).1 = (serve l.ideal calls buckets).1 ∧ ∃ last ∈ now :: calls.map (·.2),
        Refines l known last (serve l.acquire calls s).2 (serve l.ideal calls buckets).2 := by
  induction calls generalizing now s buckets with
  | nil => exact ⟨rfl, now, mem_cons_self, h⟩
  | cons call calls ih =>
    obtain ⟨hfirst, hrest⟩ := pairwise_cons.1 hclock
    have hk := forall_mem_cons.1 hknown
    obtain ⟨heq, hafter⟩ := (h.later (hfirst _ mem_cons_self)).acquire hfew hk.1
    obtain ⟨hanswers, last, hlast, hend⟩ := ih hafter hrest hk.2
    exact ⟨by simp only [serve, heq, hanswers], last, mem_cons_of_mem _ hlast, hend⟩

end

/-! ## The cap -/

theorem acquire_length (h : s.buckets.length ≤ l.maxBuckets) :
    (l.acquire principal now s).2.buckets.length ≤ l.maxBuckets := by
  have hroom : ((l.swept principal now s).buckets.filter (·.1 ≠ principal)).length < l.maxBuckets := by
    unfold swept
    split
    · refine (length_filter_le _ _).trans_lt ?_
      have := l.cap_pos
      rw [sweep, length_drop]
      omega
    · next hkeep =>
      rw [not_or, not_and] at hkeep
      by_cases hfull : s.buckets.length ≥ l.maxBuckets
      · obtain ⟨b, hb⟩ := Option.ne_none_iff_exists'.1 fun hnone => hkeep.2 hfull (Option.isNone_iff_eq_none.2 hnone)
        obtain ⟨before, after, heq, -⟩ := lookup_eq_some_iff.1 hb
        refine (length_filter_lt_length_iff_exists.2 ⟨(principal, b), ?_, by simp⟩).trans_le h
        rw [heq]
        simp
      · exact (length_filter_le _ _).trans_lt (not_le.1 hfull)
  rw [acquire, length_append]
  exact hroom

theorem serve_length (h : s.buckets.length ≤ l.maxBuckets) :
    (serve l.acquire calls s).2.buckets.length ≤ l.maxBuckets := by
  induction calls generalizing s with
  | nil => exact h
  | cons call calls ih => exact ih (acquire_length h)

theorem take_waited {tokens : ℚ} {retry : Nat} (h : (l.take now tokens).1 = some retry) (hwait : now + retry ≤ now') :
    1 ≤ l.level (l.take now tokens).2 now' := by
  unfold take at h ⊢
  split at h
  · next hlow =>
    rw [if_pos hlow]
    have hretry : (1 - tokens) / l.ratePerSecond ≤ retry := by
      rw [← Option.some.inj h]
      refine (Int.le_ceil _).trans ?_
      exact_mod_cast (Int.self_le_toNat _).trans (Int.ofNat_le.2 (le_max_right 1 _))
    rw [div_le_iff₀ l.rate_pos] at hretry
    have hgain := mul_le_mul_of_nonneg_right (le_sub_iff_add_le'.2 hwait) l.rate_pos.le
    refine le_min (by exact_mod_cast l.burst_pos) ?_
    unfold refilled
    linarith
  · cases h

/-- Whatever is stored, waiting as told is enough. -/
theorem acquire_waited {retry : Nat} (h : (l.acquire principal now s).1 = some retry) (hwait : now + retry ≤ now') :
    (l.acquire principal now' (l.acquire principal now s).2).1 = none := by
  have hlevel := take_waited h hwait
  have hb : ∀ entry ∈ (l.acquire principal now s).2.buckets, entry.1 = principal → entry.2 =
      (l.take now (l.level (((l.swept principal now s).buckets.lookup principal).getD ⟨l.burst, now⟩) now)).2 := by
    rintro entry he hp
    rcases mem_append.1 he with he | he
    · exact absurd hp (of_decide_eq_true (mem_filter.1 he).2)
    · rw [mem_singleton.1 he]
  generalize (l.take now _).2 = b at hlevel hb
  generalize (l.acquire principal now s).2 = s at hb ⊢
  have hb' : ∀ entry ∈ (l.swept principal now' s).buckets, entry.1 = principal → entry.2 = b := by
    unfold swept
    split
    · exact fun entry he => hb entry (mem_sweep he)
    · exact hb
  have hone : ¬ l.level (((l.swept principal now' s).buckets.lookup principal).getD ⟨l.burst, now'⟩) now' < 1 := by
    rw [not_lt]
    cases hlook : (l.swept principal now' s).buckets.lookup principal with
    | none =>
      rw [Option.getD_none, level_full (refilled_updated rfl).ge]
      exact_mod_cast l.burst_pos
    | some b' =>
      obtain ⟨before, after, heq, -⟩ := lookup_eq_some_iff.1 hlook
      have : b' = b := hb' (principal, b') (by rw [heq]; simp) rfl
      rwa [Option.getD_some, this]
  rw [acquire, take, if_neg hone]

/-! ## The limiter -/

/-- **The limiter is the ideal one for fewer principals than the cap.** -/
theorem limiter_refines :
    ((now :: calls.map (·.2)).Pairwise (· ≤ ·) → (calls.map (·.1)).toFinset.card < l.maxBuckets →
      (serve l.acquire calls (start now)).1 = (serve l.ideal calls fun _ => ⟨l.burst, now⟩).1 ∧
        ∀ before window after, calls = before ++ window ++ after → ∀ principal first length,
          (∀ call ∈ window, first ≤ call.2 ∧ call.2 ≤ first + length) → 0 ≤ length →
            (permits principal window (serve l.acquire window (serve l.acquire before (start now)).2).1 : ℚ) ≤
              l.burst + l.ratePerSecond * length) ∧
      (∀ principal at_ later retry, (l.acquire principal at_ (serve l.acquire calls (start now)).2).1 = some retry →
        at_ + retry ≤ later →
          (l.acquire principal later (l.acquire principal at_ (serve l.acquire calls (start now)).2).2).1 = none) ∧
      (serve l.acquire calls (start now)).2.buckets.length ≤ l.maxBuckets := by
  refine ⟨fun hclock hfew => ?_, fun principal at_ later retry h hwait => acquire_waited h hwait,
    serve_length (Nat.zero_le _)⟩
  have hstart : Refines l (calls.map (·.1)).toFinset now (start now) fun _ => ⟨l.burst, now⟩ := by
    refine ⟨List.nodup_nil, by simp [start], by simp [start], fun _ _ => (refilled_updated rfl).ge, fun _ => ?_⟩
    exact (refilled_updated (l := l) (b := ⟨l.burst, now⟩) rfl).symm ▸ Nat.cast_nonneg _
  have hknown : ∀ call ∈ calls, call.1 ∈ (calls.map (·.1)).toFinset := fun call hcall =>
    List.mem_toFinset.2 (List.mem_map_of_mem hcall)
  refine ⟨(serve_refines hstart hfew hclock hknown).1, ?_⟩
  rintro before window after heq principal first length hwindow hlength
  cases window with
  | nil =>
    have := mul_nonneg l.rate_pos.le hlength
    simp only [permits, serve, List.zip_nil_left, List.countP_nil, Nat.cast_zero]
    positivity
  | cons call rest =>
    have htimes : now :: calls.map (·.2) =
        (now :: before.map (·.2)) ++ (((call :: rest).map (·.2)) ++ after.map (·.2)) := by simp [heq]
    rw [htimes] at hclock
    obtain ⟨hbefore, hlater, horder⟩ := List.pairwise_append.1 hclock
    obtain ⟨-, last, hlast, hmid⟩ := serve_refines hstart hfew hbefore fun c hc =>
      hknown c (heq ▸ List.mem_append_left _ (List.mem_append_left _ hc))
    have hnow : last ≤ call.2 := horder _ hlast _ (by simp)
    have hordered : ((call :: rest).map (·.2)).Pairwise (· ≤ ·) := (List.pairwise_append.1 hlater).1
    have hsame : (call.2 :: (call :: rest).map (·.2)).Pairwise (· ≤ ·) :=
      List.pairwise_cons.2 ⟨List.forall_mem_cons.2 ⟨le_rfl, (List.pairwise_cons.1 hordered).1⟩, hordered⟩
    rw [(serve_refines (hmid.later hnow) hfew hsame fun c hc =>
      hknown c (heq ▸ List.mem_append_left _ (List.mem_append_right _ hc))).1]
    have hhead := hwindow call List.mem_cons_self
    refine (permits_ideal hsame (fun c hc => (hwindow c hc).2) hhead.2 ((hmid.later hnow).nonneg principal)).trans ?_
    refine add_le_add (min_le_left _ _) ?_
    rw [mul_comm]
    exact mul_le_mul_of_nonneg_left (sub_le_iff_le_add'.2 (by linarith [hhead.1])) l.rate_pos.le

theorem limiter_refines_pair :
    let l : TokenBucketLimiter := ⟨1, 2, 2, by norm_num, by decide, by decide⟩
    let calls := [("agent", 3 / 2), ("agent", 3 / 2), ("agent", 2)]
    (serve l.acquire calls (start 0)).1 = (serve l.ideal calls fun _ => ⟨2, 0⟩).1 :=
  (limiter_refines.1 (by decide +kernel) (by decide +kernel)).1

/-- At the cap the sweep that falls due drops the bucket of the only principal. -/
theorem limiter_capped :
    let l : TokenBucketLimiter := ⟨1, 2, 1, by norm_num, by decide, by decide⟩
    let calls := [("agent", 3 / 2), ("agent", 3 / 2), ("agent", 2)]
    ((0 : ℚ) :: calls.map (·.2)).Pairwise (· ≤ ·) ∧ (calls.map (·.1)).toFinset.card = l.maxBuckets ∧
      (serve l.acquire calls (start 0)).1 = [none, none, none] ∧
      (serve l.ideal calls fun _ => ⟨2, 0⟩).1 = [none, none, some 1] := by
  decide +kernel

end TokenBucketLimiter

end Security
