import AiBackend.Infrastructure.RateLimiter
import AiBackend.Support.Run
import Mathlib.Data.Set.Finite.Lattice

/-!
# The sliding-window bound

At most `limit` calls on a key are let through in any sixty seconds, as long
as every call that is let through adds an entry to the sorted set.  It does
unless the set already holds a member of the same text, that is, of the same
timestamp as far as fourteen digits go and the same random number: then the
old entry is re-scored, one call goes uncounted, and the bound can fail.
-/

namespace AiBackend
namespace RedisRateLimiter

open Run

/-- One call as a step on the keyspace. -/
def step (limit : ℤ) (space : Keyspace) (call : Call) : Keyspace :=
  (isAllowed limit space call).2

/-- Whether a step answers a call on the key with `True`. -/
def Grants (limit : ℤ) (key : String) (t : Transition Keyspace Call) : Prop :=
  t.input.key = key ∧ (isAllowed limit t.before t.input).1 = true

instance (limit : ℤ) (key : String) (t : Transition Keyspace Call) :
    Decidable (Grants limit key t) :=
  inferInstanceAs (Decidable (_ ∧ _))

/-- The timestamps of the calls on a key that a run answers with `True`. -/
def granted (limit : ℤ) (key : String) (space : Keyspace) (calls : List Call) :
    List ℚ :=
  ((trace (step limit) space calls).filter fun t => Grants limit key t).map
    fun t => t.input.now

/-- A run grants its first call or not, and then what the rest grants. -/
theorem granted_cons (limit : ℤ) (key : String) (space : Keyspace) (call : Call)
    (calls : List Call) :
    granted limit key space (call :: calls) =
      if Grants limit key ⟨space, call, step limit space call⟩ then
        call.now :: granted limit key (step limit space call) calls
      else granted limit key (step limit space call) calls := by
  unfold granted
  rw [trace, List.filter_cons]
  by_cases h : Grants limit key ⟨space, call, step limit space call⟩
  · simp [h]
  · simp [h]

/-- If the call finds room, it finds no entry with its own member. -/
def AddsEntry (limit : ℤ) (space : Keyspace) (call : Call) : Prop :=
  let remaining := (space (rateKey call.key)).remaining call.now windowSeconds
  (remaining.zcard : ℤ) < limit → member call.now call.random ∉ remaining.keys

/-! ## Counting -/

/-- The timestamps above a bound. -/
def above (c : ℚ) (times : List ℚ) : ℕ := times.countP fun a => c < a

/-- The timestamps in the window that ends at `t`. -/
def inWindow (t : ℚ) (times : List ℚ) : ℕ :=
  times.countP fun a => t - windowSeconds < a ∧ a ≤ t

theorem above_antitone {c d : ℚ} (h : c ≤ d) (times : List ℚ) :
    above d times ≤ above c times := by
  apply List.countP_mono_left
  intro a _ ha
  simp only [decide_eq_true_eq] at ha ⊢
  exact lt_of_le_of_lt h ha

theorem inWindow_le_above (t : ℚ) (times : List ℚ) :
    inWindow t times ≤ above (t - windowSeconds) times := by
  apply List.countP_mono_left
  intro a _ ha
  simp only [decide_eq_true_eq] at ha ⊢
  exact ha.1

theorem above_concat (c : ℚ) (times : List ℚ) (now : ℚ) :
    above c (times ++ [now]) = above c times + if c < now then 1 else 0 := by
  simp [above, List.countP_append, List.countP_cons]

/-- The entries of a key with a score above a bound. -/
def RateKey.above (value : RateKey) (c : ℚ) : ℕ :=
  value.members.items.countP fun entry => c < entry.2

/-! ## One script -/

/-- What the script can do. -/
theorem script_cases (now : ℚ) (limit : ℤ) (random : ℕ) (value : RateKey) :
    let remaining := value.remaining now windowSeconds
    let outcome := script now windowSeconds limit random value
    ((remaining.zcard : ℤ) < limit ∧
      outcome = (1, ⟨remaining.zadd (member now random) now,
        some (now + ⌈windowSeconds⌉)⟩)) ∨
    (¬ (remaining.zcard : ℤ) < limit ∧ remaining.zcard = 0 ∧ outcome = (0, .absent)) ∨
    (¬ (remaining.zcard : ℤ) < limit ∧ remaining.zcard ≠ 0 ∧
      outcome = (0, ⟨remaining, (value.live now).expireAt⟩)) := by
  intro remaining outcome
  by_cases hroom : (remaining.zcard : ℤ) < limit
  · exact Or.inl ⟨hroom, if_pos hroom⟩
  · have hfull : outcome = if remaining.zcard = 0 then (0, .absent)
        else (0, ⟨remaining, (value.live now).expireAt⟩) := if_neg hroom
    by_cases hnone : remaining.zcard = 0
    · exact Or.inr (Or.inl ⟨hroom, hnone, hfull.trans (if_pos hnone)⟩)
    · exact Or.inr (Or.inr ⟨hroom, hnone, hfull.trans (if_neg hnone)⟩)

/-! ## The key follows the granted calls -/

/-- What a key holds after calls up to the time `last` of which those in
`times` were granted: an entry for each of them that a later window can reach,
and an expiry that comes after that. -/
structure Tracks (value : RateKey) (times : List ℚ) (last : ℚ) : Prop where
  counted : ∀ c, last - windowSeconds ≤ c → above c times ≤ value.above c
  past : ∀ a ∈ times, a ≤ last
  expiry : ∀ e, value.expireAt = some e → ∀ a ∈ times, a + windowSeconds ≤ e

section Script

variable {value : RateKey} {times : List ℚ} {last now : ℚ}

/-- Nothing a later window can reach is lost when the key expires. -/
theorem Tracks.live (h : Tracks value times last) (hnow : last ≤ now) :
    Tracks (value.live now) times now := by
  have hpast : ∀ a ∈ times, a ≤ now := fun a ha => (h.past a ha).trans hnow
  unfold RateKey.live
  split
  next hexpired =>
    obtain ⟨e, he, hle⟩ := (Option.any_eq_true _ _).mp hexpired
    rw [decide_eq_true_eq] at hle
    refine ⟨fun c hc => ?_, hpast, fun e' he' => by cases he'⟩
    have hzero : above c times = 0 := by
      apply List.countP_eq_zero.mpr
      intro a ha
      have hexpiry := h.expiry e he a ha
      simp only [decide_eq_true_eq, not_lt]
      linarith
    rw [hzero]
    exact Nat.zero_le _
  next hlive =>
    exact ⟨fun c hc => h.counted c (by linarith), hpast, h.expiry⟩

/-- The entries that remain count the granted calls inside the window. -/
theorem Tracks.above_le_remaining (h : Tracks value times last)
    (hnow : last ≤ now) :
    above (now - windowSeconds) times ≤
      (value.remaining now windowSeconds).zcard := by
  rw [RateKey.remaining, SortedSet.zcard_zremrangebyscore]
  exact (h.live hnow).counted _ le_rfl

/-- A denied call loses no entry that counts. -/
theorem Tracks.denied (h : Tracks value times last) (hnow : last ≤ now)
    {limit : ℤ} (random : ℕ)
    (hfull : ¬ ((value.remaining now windowSeconds).zcard : ℤ) < limit) :
    (script now windowSeconds limit random value).1 = 0 ∧
      Tracks (script now windowSeconds limit random value).2 times now := by
  have hlive := h.live hnow
  have hremaining := h.above_le_remaining hnow
  obtain ⟨hroom, -⟩ | ⟨-, hempty, hscript⟩ | ⟨-, -, hscript⟩ :=
    script_cases now limit random value
  · exact absurd hroom hfull
  · rw [hscript]
    refine ⟨rfl, fun c hc => ?_, hlive.past, fun e he => by cases he⟩
    have hc' := above_antitone hc times
    omega
  · rw [hscript]
    refine ⟨rfl, fun c hc => ?_, hlive.past, hlive.expiry⟩
    have hcount := hlive.counted c hc
    rwa [RateKey.above, ← SortedSet.countP_zremrangebyscore _ hc] at hcount

/-- A granted call that adds its entry is counted. -/
theorem Tracks.grants (h : Tracks value times last) (hnow : last ≤ now)
    {limit : ℤ} {random : ℕ}
    (hroom : ((value.remaining now windowSeconds).zcard : ℤ) < limit)
    (hnew : member now random ∉ (value.remaining now windowSeconds).keys) :
    (script now windowSeconds limit random value).1 = 1 ∧
      Tracks (script now windowSeconds limit random value).2
        (times ++ [now]) now := by
  have hlive := h.live hnow
  obtain ⟨-, hscript⟩ | ⟨hfull, -⟩ | ⟨hfull, -⟩ := script_cases now limit random value
  · rw [hscript]
    refine ⟨rfl, fun c hc => ?_, ?_, ?_⟩
    · have hcount := hlive.counted c hc
      rw [RateKey.above, ← SortedSet.countP_zremrangebyscore _ hc] at hcount
      rw [above_concat, RateKey.above, SortedSet.zadd_items_of_notMem now hnew,
        List.countP_append]
      simp only [List.countP_cons, List.countP_nil, decide_eq_true_eq, zero_add]
      exact Nat.add_le_add_right hcount _
    · intro a ha
      rcases List.mem_append.mp ha with ha | ha
      · exact hlive.past a ha
      · rw [List.mem_singleton.mp ha]
    · intro e he a ha
      have hceil : (⌈windowSeconds⌉ : ℚ) = windowSeconds := by
        simp [windowSeconds]
      simp only [Option.some.injEq] at he
      rw [← he, hceil]
      rcases List.mem_append.mp ha with ha | ha
      · linarith [hlive.past a ha]
      · rw [List.mem_singleton.mp ha]
  · exact absurd hroom hfull
  · exact absurd hroom hfull

end Script

/-! ## One call -/

theorem rateKey_injective : Function.Injective rateKey := by
  intro a b h
  simpa [rateKey] using h

/-- A call on another key leaves this one alone. -/
theorem step_of_ne {limit : ℤ} {key : String} (space : Keyspace) {call : Call}
    (h : call.key ≠ key) : step limit space call (rateKey key) = space (rateKey key) := by
  unfold step isAllowed
  cases call.failure with
  | some _ => rfl
  | none =>
      exact Function.update_of_ne (fun heq => h (rateKey_injective heq).symm) _ _

/-- With Redis available a call is one run of the script. -/
theorem isAllowed_of_available (limit : ℤ) (space : Keyspace) (call : Call)
    (h : call.failure = none) :
    (isAllowed limit space call).1 =
        decide ((script call.now windowSeconds limit call.random
          (space (rateKey call.key))).1 ≠ 0) ∧
      step limit space call (rateKey call.key) =
        (script call.now windowSeconds limit call.random
          (space (rateKey call.key))).2 := by
  simp [step, isAllowed, h]

/-! ## A whole run -/

/-- No window holds more than `limit` of the timestamps. -/
def WithinLimit (limit : ℤ) (times : List ℚ) : Prop :=
  ∀ t, (inWindow t times : ℤ) ≤ limit

/-- One more timestamp, later than the others, fits if fewer than `limit` of
them lie in the window it ends. -/
theorem WithinLimit.concat {limit : ℤ} {times : List ℚ} {now : ℚ}
    (h : WithinLimit limit times)
    (hroom : (above (now - windowSeconds) times : ℤ) < limit) :
    WithinLimit limit (times ++ [now]) := by
  intro t
  by_cases hin : t - windowSeconds < now ∧ now ≤ t
  · have hwindow := inWindow_le_above t (times ++ [now])
    rw [above_concat, if_pos hin.1] at hwindow
    have hearlier : now - windowSeconds ≤ t - windowSeconds := by
      linarith [hin.2]
    have hcount := above_antitone hearlier times
    omega
  · have hsame : inWindow t (times ++ [now]) = inWindow t times := by
      simp [inWindow, List.countP_append, hin]
    rw [hsame]
    exact h t

/-- From a key that tracks the calls granted so far, a run keeps within the
limit. -/
theorem withinLimit_run {limit : ℤ} {key : String} (calls : List Call) :
    ∀ (space : Keyspace) (times : List ℚ) (last : ℚ),
      Tracks (space (rateKey key)) times last → WithinLimit limit times →
      (∀ call ∈ calls, call.failure = none) →
      (∀ call ∈ calls, call.key = key → last ≤ call.now) →
      (calls.filter fun call => call.key = key).Pairwise
        (fun call next => call.now ≤ next.now) →
      (∀ t ∈ trace (step limit) space calls,
        t.input.key = key → AddsEntry limit t.before t.input) →
      WithinLimit limit (times ++ granted limit key space calls) := by
  induction calls with
  | nil =>
      intro space times last _ hlimit _ _ _ _
      simpa [granted, trace] using hlimit
  | cons call calls ih =>
      intro space times last htracks hlimit havailable hlast hmono hadds
      simp only [trace, List.forall_mem_cons] at havailable hlast hadds
      by_cases hkey : call.key = key
      · subst hkey
        rw [List.filter_cons_of_pos (by simp), List.pairwise_cons] at hmono
        have hnow := hlast.1 rfl
        obtain ⟨hanswer, hafter⟩ :=
          isAllowed_of_available limit space call havailable.1
        have hnext : ∀ later ∈ calls, later.key = call.key →
            call.now ≤ later.now :=
          fun later hlater heq => hmono.1 later
            (List.mem_filter.mpr ⟨hlater, by simp [heq]⟩)
        by_cases hroom : (((space (rateKey call.key)).remaining call.now
            windowSeconds).zcard : ℤ) < limit
        · obtain ⟨hone, htracks'⟩ := htracks.grants hnow hroom
            (hadds.1 rfl hroom)
          have hgrants : Grants limit call.key ⟨space, call, step limit space call⟩ :=
            ⟨rfl, by rw [hanswer, hone]; rfl⟩
          rw [granted_cons, if_pos hgrants, List.append_cons]
          have hbelow := htracks.above_le_remaining hnow
          exact ih (step limit space call) _ call.now (hafter ▸ htracks')
            (hlimit.concat (by omega)) havailable.2 hnext hmono.2 hadds.2
        · obtain ⟨hzero, htracks'⟩ := htracks.denied hnow call.random hroom
          have hdenied :
              ¬ Grants limit call.key ⟨space, call, step limit space call⟩ := by
            intro h
            obtain ⟨-, htrue⟩ := h
            rw [hanswer, hzero] at htrue
            cases htrue
          rw [granted_cons, if_neg hdenied]
          exact ih (step limit space call) _ call.now (hafter ▸ htracks')
            hlimit havailable.2 hnext hmono.2 hadds.2
      · have hother : ¬ Grants limit key ⟨space, call, step limit space call⟩ :=
          fun h => hkey h.1
        rw [List.filter_cons_of_neg (by simpa using hkey)] at hmono
        rw [granted_cons, if_neg hother]
        exact ih (step limit space call) times last
          (by rwa [step_of_ne space hkey]) hlimit havailable.2 hlast.2 hmono
          hadds.2

/-- The keyspace before the first call. -/
def Keyspace.empty : Keyspace := fun _ => .absent

/-! ## One instant, one random number -/

/-- The key of one granted call at time 100 with the random number 1. -/
def oneEntry : RateKey :=
  ⟨⟨[(member 100 1, 100)], List.nodup_singleton _⟩, some 160⟩

/-- The same call again finds one entry and re-scores it. -/
theorem script_again {value : RateKey} (h : value = .absent ∨ value = oneEntry) :
    script 100 windowSeconds 2 1 value = (1, oneEntry) := by
  rcases h with rfl | rfl
  · simp [script, RateKey.remaining, RateKey.live, RateKey.absent, oneEntry,
      SortedSet.zremrangebyscore, SortedSet.zcard, SortedSet.zadd,
      KeyedList.empty, KeyedList.filter, KeyedList.upsert, windowSeconds]
    norm_num
  · simp [script, RateKey.remaining, RateKey.live, oneEntry,
      SortedSet.zremrangebyscore, SortedSet.zcard, SortedSet.zadd,
      KeyedList.filter, KeyedList.upsert, windowSeconds]
    norm_num

/-- A call at time 100 for which `math.random` draws 1. -/
def repeatedCall : Call := ⟨"10.0.0.1", 100, 1, none⟩

theorem step_repeatedCall (space : Keyspace)
    (h : space (rateKey "10.0.0.1") = .absent ∨
      space (rateKey "10.0.0.1") = oneEntry) :
    (isAllowed 2 space repeatedCall).1 = true ∧
      step 2 space repeatedCall (rateKey "10.0.0.1") = oneEntry := by
  obtain ⟨hanswer, hafter⟩ :=
    isAllowed_of_available 2 space repeatedCall rfl
  have hscript := script_again h
  have hone : (script 100 windowSeconds 2 1 (space (rateKey "10.0.0.1"))).1 = 1 :=
    congrArg Prod.fst hscript
  refine ⟨hanswer.trans ?_, hafter.trans (congrArg Prod.snd hscript)⟩
  simp [repeatedCall, hone]

/-- However often it is repeated, it is granted under a limit of two. -/
theorem granted_repeatedCall (n : ℕ) :
    ∀ space : Keyspace, (space (rateKey "10.0.0.1") = .absent ∨
        space (rateKey "10.0.0.1") = oneEntry) →
      granted 2 "10.0.0.1" space (List.replicate n repeatedCall) =
        List.replicate n 100 := by
  induction n with
  | zero => exact fun _ _ => rfl
  | succ n ih =>
      intro space h
      obtain ⟨hgranted, hafter⟩ := step_repeatedCall space h
      rw [List.replicate_succ, List.replicate_succ, granted_cons,
        if_pos ⟨rfl, hgranted⟩, ih _ (Or.inr hafter)]
      rfl

/-! ## The bound -/

/-- In every run on an empty keyspace, with Redis available, timestamps on the
key in order, and every call with room adding an entry of its own: at most
`limit` calls on the key are granted in any window. -/
theorem granted_withinLimit (limit : ℤ) (hlimit : 1 ≤ limit) (key : String)
    (calls : List Call) (havailable : ∀ call ∈ calls, call.failure = none)
    (hmono : (calls.filter fun call => call.key = key).Pairwise
      fun call next => call.now ≤ next.now)
    (hadds : ∀ t ∈ trace (step limit) Keyspace.empty calls,
      t.input.key = key → AddsEntry limit t.before t.input) (t : ℚ) :
    (inWindow t (granted limit key Keyspace.empty calls) : ℤ) ≤ limit := by
  obtain ⟨last, hlast⟩ := (List.finite_toSet (calls.map Call.now)).bddBelow
  have htracks : Tracks (Keyspace.empty (rateKey key)) [] last :=
    ⟨fun _ _ => Nat.zero_le _, by simp, by simp⟩
  have hempty : WithinLimit limit [] := fun _ => by
    simp only [inWindow, List.countP_nil]
    omega
  have hbound := withinLimit_run calls Keyspace.empty [] last htracks hempty
    havailable (fun call hcall _ => hlast (List.mem_map_of_mem hcall)) hmono hadds
  exact hbound t

/-- Two calls more than a window apart. -/
def farApart : List Call := [repeatedCall, ⟨"10.0.0.1", 200, 1, none⟩]

theorem farApart_addsEntry : ∀ t ∈ trace (step 2) Keyspace.empty farApart,
    t.input.key = "10.0.0.1" → AddsEntry 2 t.before t.input := by
  have hafter := (step_repeatedCall Keyspace.empty (Or.inl rfl)).2
  simp only [farApart, trace, List.forall_mem_cons]
  refine ⟨fun _ => ?_, fun _ => ?_, by simp⟩
  · simp [AddsEntry, RateKey.remaining, RateKey.live, Keyspace.empty,
      RateKey.absent, SortedSet.zremrangebyscore, KeyedList.keys,
      KeyedList.filter, KeyedList.empty]
  · unfold AddsEntry
    rw [hafter]
    simp [RateKey.remaining, RateKey.live, oneEntry, RateKey.absent,
      SortedSet.zremrangebyscore, KeyedList.keys, KeyedList.filter,
      KeyedList.empty]
    norm_num

theorem granted_withinLimit_farApart :
    (inWindow 200 (granted 2 "10.0.0.1" Keyspace.empty farApart) : ℤ) ≤ 2 :=
  granted_withinLimit 2 (by decide) "10.0.0.1" farApart
    (by simp [farApart, repeatedCall])
    (by norm_num [farApart, repeatedCall]) farApart_addsEntry 200

/-- Three calls in one instant, for which `math.random` draws the same number,
are all granted under a limit of two. -/
theorem granted_not_always_withinLimit :
    ¬ ∀ (limit : ℤ), 1 ≤ limit → ∀ (key : String) (calls : List Call),
      (∀ call ∈ calls, call.failure = none ∧ call.key = key ∧
        1 ≤ call.random ∧ call.random ≤ 1000000) →
      calls.Pairwise (fun call next => call.now ≤ next.now) →
      ∀ t : ℚ, (inWindow t (granted limit key Keyspace.empty calls) : ℤ) ≤ limit := by
  intro hall
  have hcount := hall 2 (by decide) "10.0.0.1" (List.replicate 3 repeatedCall)
    (by simp [repeatedCall]) (by simp) 100
  rw [granted_repeatedCall 3 _ (Or.inl rfl)] at hcount
  simp [inWindow, windowSeconds] at hcount

end RedisRateLimiter
end AiBackend
