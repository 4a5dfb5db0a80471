import AiBackend.RateLimiting.SlidingWindow
import Mathlib.Data.List.DropRight

/-!
# No false denials

A call is denied only if `limit` calls on its key have been let through in the
sixty seconds that it ends and since the key was reset.  Every entry of the
sorted set stands for one of them: eviction, expiry and resets take entries
away, and an entry that is scored again stands for the later call.  What is
denied, and what happens on other keys, leaves nothing that a later call can
see.
-/

namespace AiBackend
namespace RedisRateLimiter

open Run

/-- What the limiter is asked for. -/
inductive Request where
  | isAllowed (call : Call)
  | reset (request : Reset)

/-- One request as a step on the keyspace. -/
def serve (limit : ℤ) (space : Keyspace) : Request → Keyspace
  | .isAllowed call => (RedisRateLimiter.isAllowed limit space call).2
  | .reset request => (RedisRateLimiter.reset space request).2

/-- The call on a key that a request makes. -/
def Request.callOn? (key : String) : Request → Option Call
  | .isAllowed call => if call.key = key then some call else none
  | .reset _ => none

/-- A reset of the key that gets through to Redis. -/
def Request.Clears (key : String) : Request → Prop
  | .isAllowed _ => False
  | .reset request => request.key = key ∧ request.failure = none

instance (key : String) (request : Request) : Decidable (request.Clears key) :=
  match request with
  | .isAllowed _ => inferInstanceAs (Decidable False)
  | .reset _ => inferInstanceAs (Decidable (_ ∧ _))

/-- The call on a key that a step answers with `True`. -/
def granted? (limit : ℤ) (key : String) (t : Transition Keyspace Request) : Option Call :=
  (t.input.callOn? key).filter fun call => (isAllowed limit t.before call).1

/-- The calls on a key answered with `True` since it was last reset. -/
def grantedSince (limit : ℤ) (key : String) (requests : List Request) : List Call :=
  ((trace (serve limit) Keyspace.empty requests).rtakeWhile
    fun t => ¬ t.input.Clears key).filterMap (granted? limit key)

/-- The requests that may have a part in a denial: the calls on the key that
were answered with `True`, and its resets. -/
def relevant (limit : ℤ) (key : String) (requests : List Request) : List Request :=
  ((trace (serve limit) Keyspace.empty requests).filter fun t =>
    (granted? limit key t).isSome ∨ t.input.Clears key).map Transition.input

/-! ## One script -/

section Script

variable (now : ℚ) (limit : ℤ) (random : ℕ) (value : RateKey)

theorem script_grants_iff :
    (script now windowSeconds limit random value).1 ≠ 0 ↔
      ((value.remaining now windowSeconds).zcard : ℤ) < limit := by
  obtain ⟨hroom, h⟩ | ⟨hfull, -, h⟩ | ⟨hfull, -, h⟩ :=
    script_cases now limit random value
  · exact iff_of_true (by simp [h]) hroom
  · exact iff_of_false (by simp [h]) hfull
  · exact iff_of_false (by simp [h]) hfull

/-- Expiry takes no entry in. -/
theorem above_live_le (c : ℚ) : (value.live now).above c ≤ value.above c := by
  unfold RateKey.live
  split
  · exact Nat.zero_le _
  · exact Nat.le_refl _

/-- Neither does eviction. -/
theorem above_remaining_le (c : ℚ) :
    (value.remaining now windowSeconds).items.countP (fun entry => c < entry.2) ≤
      value.above c :=
  List.filter_sublist.countP_le.trans (above_live_le now value c)

/-- The script leaves at most one entry more, with the time of the call and
only if it grants the call. -/
theorem above_script_le (c : ℚ) :
    (script now windowSeconds limit random value).2.above c ≤
      value.above c + if (script now windowSeconds limit random value).1 ≠ 0 ∧ c < now
        then 1 else 0 := by
  have hremaining := above_remaining_le now value c
  obtain ⟨-, h⟩ | ⟨-, -, h⟩ | ⟨-, -, h⟩ := script_cases now limit random value
  · have hadded := SortedSet.countP_zadd_le (value.remaining now windowSeconds)
      (member now random) now c
    have hgranted : (1 : ℕ) ≠ 0 ∧ c < now ↔ c < now := and_iff_right one_ne_zero
    rw [h]
    simp only [hgranted]
    exact hadded.trans (Nat.add_le_add_right hremaining _)
  · rw [h]
    exact Nat.zero_le _
  · rw [h]
    exact hremaining.trans (Nat.le_add_right _ _)

end Script

/-! ## One request -/

section Serve

variable {limit : ℤ} {key : String} {space : Keyspace} {request : Request}

/-- A cleared key does not exist. -/
theorem serve_of_clears (h : request.Clears key) :
    serve limit space request (rateKey key) = .absent := by
  cases request with
  | isAllowed call => exact h.elim
  | reset request =>
      obtain ⟨rfl, hfailure⟩ := h
      simp [serve, reset, delete, hfailure]

/-- A reset of another key, or one that does not get through, leaves the key
alone. -/
theorem serve_reset_of_not_clears {r : Reset} (h : ¬ (Request.reset r).Clears key) :
    serve limit space (.reset r) (rateKey key) = space (rateKey key) := by
  cases hfailure : r.failure with
  | some e => simp [serve, reset, hfailure]
  | none =>
      have hkey : rateKey key ≠ rateKey r.key :=
        fun heq => h ⟨(rateKey_injective heq).symm, hfailure⟩
      simp [serve, reset, delete, hfailure, hkey]

theorem granted?_isAllowed (call : Call) :
    granted? limit call.key ⟨space, .isAllowed call, serve limit space (.isAllowed call)⟩ =
      if (isAllowed limit space call).1 then some call else none := by
  simp [granted?, Request.callOn?, Option.filter]

theorem granted?_isAllowed_of_ne {call : Call} (h : call.key ≠ key) :
    granted? limit key ⟨space, .isAllowed call, serve limit space (.isAllowed call)⟩ =
      none := by
  simp [granted?, Request.callOn?, h]

theorem granted?_reset (r : Reset) :
    granted? limit key ⟨space, .reset r, serve limit space (.reset r)⟩ = none := rfl

/-- Unless it clears the key, a request leaves at most one entry more there,
for the call that it grants. -/
theorem above_serve_le (h : ¬ request.Clears key) (c : ℚ) :
    (serve limit space request (rateKey key)).above c ≤ (space (rateKey key)).above c +
      above c ((granted? limit key ⟨space, request, serve limit space request⟩).toList.map
        Call.now) := by
  cases request with
  | reset r =>
      rw [serve_reset_of_not_clears h]
      exact Nat.le_add_right _ _
  | isAllowed call =>
      by_cases hkey : call.key = key
      · subst hkey
        rw [granted?_isAllowed]
        cases hfailure : call.failure with
        | some e =>
            simp only [serve, isAllowed, hfailure]
            exact Nat.le_add_right _ _
        | none =>
            obtain ⟨hanswer, hafter⟩ := isAllowed_of_available limit space call hfailure
            have hscript := above_script_le call.now limit call.random
              (space (rateKey call.key)) c
            have hserve : serve limit space (.isAllowed call) (rateKey call.key) =
                step limit space call (rateKey call.key) := rfl
            rw [hserve, hafter, hanswer]
            refine hscript.trans (Nat.add_le_add_left ?_ _)
            by_cases hgranted : (script call.now windowSeconds limit call.random
                (space (rateKey call.key))).1 ≠ 0
            · simp [hgranted, above, List.countP_cons]
            · simp [hgranted]
      · have hother : serve limit space (.isAllowed call) (rateKey key) =
            space (rateKey key) := step_of_ne space hkey
        rw [hother]
        exact Nat.le_add_right _ _

end Serve

/-! ## A whole run -/

section Runs

variable (limit : ℤ) (key : String) (requests : List Request) (request : Request)

/-- The keyspace after a run. -/
abbrev served : Keyspace := final (serve limit) Keyspace.empty requests

theorem served_concat :
    served limit (requests ++ [request]) = serve limit (served limit requests) request :=
  final_append _ _ _ _

theorem trace_serve_concat :
    trace (serve limit) Keyspace.empty (requests ++ [request]) =
      trace (serve limit) Keyspace.empty requests ++
        [⟨served limit requests, request, serve limit (served limit requests) request⟩] :=
  trace_append _ _ _ _

theorem grantedSince_concat :
    grantedSince limit key (requests ++ [request]) =
      if request.Clears key then []
      else grantedSince limit key requests ++
        (granted? limit key ⟨served limit requests, request,
          serve limit (served limit requests) request⟩).toList := by
  unfold grantedSince
  rw [trace_serve_concat, List.rtakeWhile_concat]
  by_cases h : request.Clears key
  · simp [h]
  · simp only [h, not_false_eq_true, decide_true, ↓reduceIte, List.filterMap_append]
    rw [List.filterMap_cons]
    split
    next hnone => simp [hnone]
    next call hsome => simp [hsome]

/-- Above every bound a key has no more entries than there are granted calls
since its last reset. -/
theorem above_le_grantedSince (c : ℚ) :
    (served limit requests (rateKey key)).above c ≤
      above c ((grantedSince limit key requests).map Call.now) := by
  induction requests using List.reverseRecOn with
  | nil => exact Nat.zero_le _
  | append_singleton requests request ih =>
      rw [served_concat, grantedSince_concat]
      by_cases h : request.Clears key
      · rw [serve_of_clears h]
        exact Nat.zero_le _
      · have hstep : (serve limit (served limit requests) request (rateKey key)).above c ≤ _ :=
          above_serve_le h c
        rw [if_neg h, List.map_append, above, List.countP_append]
        exact hstep.trans (Nat.add_le_add_right ih _)

/-- The granted calls are among the calls on the key. -/
theorem mem_callOn_of_mem_grantedSince {call : Call}
    (h : call ∈ grantedSince limit key requests) :
    call ∈ requests.filterMap (Request.callOn? key) := by
  obtain ⟨t, ht, hcall⟩ := List.mem_filterMap.mp h
  have htrace := (List.rtakeWhile_suffix _ _).subset ht
  exact List.mem_filterMap.mpr ⟨t.input, input_mem_of_mem_trace htrace,
    (Option.mem_filter_iff.mp hcall).1⟩

/-- What a denial says about the entries. -/
theorem le_above_of_denied {call : Call} {space : Keyspace}
    (h : (isAllowed limit space call).1 = false) :
    limit ≤ (space (rateKey call.key)).above (call.now - windowSeconds) := by
  cases hfailure : call.failure with
  | some e => simp [isAllowed, hfailure] at h
  | none =>
      rw [(isAllowed_of_available limit space call hfailure).1, decide_eq_false_iff_not,
        script_grants_iff, not_lt] at h
      have hremaining : ((space (rateKey call.key)).remaining call.now
          windowSeconds).zcard = _ := SortedSet.zcard_zremrangebyscore _ _
      have hlive := above_live_le call.now (space (rateKey call.key))
        (call.now - windowSeconds)
      rw [hremaining] at h
      exact h.trans (Int.ofNat_le.mpr hlive)

end Runs

/-! ## What no later call can see -/

/-- Two values of a key between which no call from `last` on sees a
difference. -/
structure Alike (last : ℚ) (value other : RateKey) : Prop where
  expiry : value.expireAt = other.expireAt
  remaining : ∀ now, last ≤ now →
    value.remaining now windowSeconds = other.remaining now windowSeconds

section Alike

variable {now last : ℚ} {limit : ℤ} {value other third : RateKey}

theorem Alike.refl (last : ℚ) (value : RateKey) : Alike last value value :=
  ⟨rfl, fun _ _ => rfl⟩

theorem Alike.trans (h : Alike last value other) (h' : Alike last other third) :
    Alike last value third :=
  ⟨h.expiry.trans h'.expiry,
    fun now hnow => (h.remaining now hnow).trans (h'.remaining now hnow)⟩

theorem Alike.symm (h : Alike last value other) : Alike last other value :=
  ⟨h.expiry.symm, fun now hnow => (h.remaining now hnow).symm⟩

theorem Alike.later (h : Alike last value other) (hle : last ≤ now) :
    Alike now value other :=
  ⟨h.expiry, fun later hlater => h.remaining later (hle.trans hlater)⟩

theorem live_expireAt (value : RateKey) (now : ℚ) :
    (value.live now).expireAt =
      if value.expireAt.any (· ≤ now) then none else value.expireAt := by
  unfold RateKey.live
  split
  · rfl
  · rfl

/-- The script does the same on both. -/
theorem Alike.script_eq (h : Alike now value other) (limit : ℤ) (random : ℕ) :
    script now windowSeconds limit random value =
      script now windowSeconds limit random other := by
  have hexpireAt : (value.live now).expireAt = (other.live now).expireAt := by
    rw [live_expireAt, live_expireAt, h.expiry]
  simp only [script, h.remaining now le_rfl, hexpireAt]

/-- A key with entries in the window has not expired. -/
theorem live_of_remaining (h : (value.remaining now windowSeconds).zcard ≠ 0) :
    value.live now = value := by
  refine if_neg fun hexpired => h ?_
  rw [RateKey.remaining, RateKey.live, if_pos hexpired]
  rfl

/-- A denied call only drops entries that are out of every later window. -/
theorem alike_of_denied (hlimit : 1 ≤ limit) (random : ℕ)
    (hfull : ¬ ((value.remaining now windowSeconds).zcard : ℤ) < limit) :
    Alike now (script now windowSeconds limit random value).2 value := by
  have hsome : (value.remaining now windowSeconds).zcard ≠ 0 := by omega
  have hlive := live_of_remaining hsome
  obtain ⟨hroom, -⟩ | ⟨-, hnone, -⟩ | ⟨-, -, h⟩ := script_cases now limit random value
  · exact absurd hroom hfull
  · exact absurd hnone hsome
  · rw [h, hlive]
    refine ⟨rfl, fun later hlater => ?_⟩
    unfold RateKey.remaining RateKey.live
    dsimp only
    split
    next hexpired => rfl
    next =>
      rw [← RateKey.live, hlive]
      exact SortedSet.zremrangebyscore_zremrangebyscore _ (by linarith)

end Alike

section Relevant

variable {limit : ℤ} {key : String}

theorem relevant_concat (limit : ℤ) (key : String) (requests : List Request)
    (request : Request) :
    relevant limit key (requests ++ [request]) = relevant limit key requests ++
      if (granted? limit key ⟨served limit requests, request,
          serve limit (served limit requests) request⟩).isSome ∨ request.Clears key then
        [request]
      else [] := by
  rw [relevant, trace_serve_concat, List.filter_append, List.map_append, ← relevant]
  congr 1
  by_cases h : (granted? limit key ⟨served limit requests, request,
      serve limit (served limit requests) request⟩).isSome ∨ request.Clears key
  · rw [if_pos h, List.filter_cons_of_pos (by simpa using h)]
    rfl
  · rw [if_neg h, List.filter_cons_of_neg (by simpa using h)]
    rfl

/-- After the relevant requests alone the key is the same to a later call. -/
theorem alike_relevant (hlimit : 1 ≤ limit) (requests : List Request) {now : ℚ}
    (hmono : (requests.filterMap (Request.callOn? key)).Pairwise
      fun call next => call.now ≤ next.now)
    (hnow : ∀ call ∈ requests.filterMap (Request.callOn? key), call.now ≤ now) :
    Alike now (served limit requests (rateKey key))
      (served limit (relevant limit key requests) (rateKey key)) := by
  induction requests using List.reverseRecOn generalizing now with
  | nil => exact Alike.refl _ _
  | append_singleton requests request ih =>
      rw [List.filterMap_append, List.pairwise_append] at hmono
      obtain ⟨hmono, -, hlast⟩ := hmono
      rw [List.filterMap_append, List.forall_mem_append] at hnow
      obtain ⟨hnow, hrequest⟩ := hnow
      rw [served_concat, relevant_concat]
      cases request with
      | reset r =>
          rw [granted?_reset]
          by_cases hclears : (Request.reset r).Clears key
          · rw [if_pos (Or.inr hclears), served_concat, serve_of_clears hclears,
              serve_of_clears hclears]
            exact Alike.refl _ _
          · rw [if_neg (by simpa using hclears), List.append_nil,
              serve_reset_of_not_clears hclears]
            exact ih hmono hnow
      | isAllowed call =>
          by_cases hkey : call.key = key
          · subst hkey
            have hcall : [Request.isAllowed call].filterMap (Request.callOn? call.key) =
                [call] := by simp [Request.callOn?]
            rw [hcall, List.forall_mem_singleton] at hrequest
            have hbefore : Alike call.now (served limit requests (rateKey call.key))
                (served limit (relevant limit call.key requests) (rateKey call.key)) :=
              ih hmono fun earlier hearlier => hlast earlier hearlier call (by simp [hcall])
            refine Alike.later ?_ hrequest
            rw [granted?_isAllowed]
            cases hfailure : call.failure with
            | some e =>
                -- the call is let through and does not reach Redis
                have hunseen : ∀ space : Keyspace,
                    isAllowed limit space call = (true, space) := by
                  intro space
                  simp [isAllowed, hfailure]
                rw [if_pos (by simp [hunseen]), served_concat]
                simpa only [serve, hunseen] using hbefore
            | none =>
                have hscript : ∀ space : Keyspace,
                    serve limit space (.isAllowed call) (rateKey call.key) =
                      (script call.now windowSeconds limit call.random
                        (space (rateKey call.key))).2 :=
                  fun space => (isAllowed_of_available limit space call hfailure).2
                have hanswer :=
                  (isAllowed_of_available limit (served limit requests) call hfailure).1
                by_cases hgranted : (script call.now windowSeconds limit call.random
                    (served limit requests (rateKey call.key))).1 ≠ 0
                · rw [if_pos (by simp [hanswer, hgranted]), served_concat, hscript, hscript,
                    hbefore.script_eq]
                  exact Alike.refl _ _
                · rw [if_neg (by simp [hanswer, hgranted, Request.Clears]),
                    List.append_nil, hscript]
                  rw [script_grants_iff] at hgranted
                  exact (alike_of_denied hlimit call.random hgranted).trans hbefore
          · have hother : serve limit (served limit requests) (.isAllowed call)
                (rateKey key) = served limit requests (rateKey key) :=
              step_of_ne _ hkey
            have hnone : ¬ (granted? limit key ⟨served limit requests, .isAllowed call,
                serve limit (served limit requests) (.isAllowed call)⟩).isSome := by
              simp [granted?_isAllowed_of_ne hkey]
            rw [if_neg (fun h => h.elim hnone id), List.append_nil, hother]
            exact ih hmono hnow

theorem isAllowed_of_alike {space other : Keyspace} {call : Call}
    (h : Alike call.now (space (rateKey call.key)) (other (rateKey call.key))) :
    (isAllowed limit space call).1 = (isAllowed limit other call).1 := by
  cases hfailure : call.failure with
  | some e => simp [isAllowed, hfailure]
  | none =>
      rw [(isAllowed_of_available limit space call hfailure).1,
        (isAllowed_of_available limit other call hfailure).1, h.script_eq]

end Relevant

/-! ## Denials -/

theorem inWindow_eq_above {t : ℚ} {times : List ℚ} (h : ∀ a ∈ times, a ≤ t) :
    inWindow t times = above (t - windowSeconds) times := by
  apply List.countP_congr
  intro a ha
  simp [h a ha]

/-- After any run in which the timestamps of the calls on a key do not decrease,
a call on the key is denied only if `limit` calls on it have been let through
within the window and since it was last reset.  Without the denied calls and
all that goes on elsewhere the answer is the same. -/
theorem denied_only_at_limit (limit : ℤ) (hlimit : 1 ≤ limit) (requests : List Request)
    (call : Call)
    (hmono : ((requests ++ [Request.isAllowed call]).filterMap
      (Request.callOn? call.key)).Pairwise fun call next => call.now ≤ next.now) :
    ((isAllowed limit (served limit requests) call).1 = false →
      limit ≤ inWindow call.now ((grantedSince limit call.key requests).map Call.now)) ∧
    (isAllowed limit (served limit (relevant limit call.key requests)) call).1 =
      (isAllowed limit (served limit requests) call).1 := by
  have hcall : [Request.isAllowed call].filterMap (Request.callOn? call.key) = [call] := by
    simp [Request.callOn?]
  rw [List.filterMap_append, hcall, List.pairwise_append] at hmono
  obtain ⟨hrequests, -, hlast⟩ := hmono
  have hnow : ∀ earlier ∈ requests.filterMap (Request.callOn? call.key),
      earlier.now ≤ call.now :=
    fun earlier hearlier => hlast earlier hearlier call (List.mem_singleton_self call)
  constructor
  · intro hdenied
    have hentries := le_above_of_denied limit hdenied
    have hgranted := above_le_grantedSince limit call.key requests
      (call.now - windowSeconds)
    have hpast : ∀ a ∈ (grantedSince limit call.key requests).map Call.now,
        a ≤ call.now := by
      intro a ha
      obtain ⟨earlier, hearlier, rfl⟩ := List.mem_map.mp ha
      exact hnow earlier (mem_callOn_of_mem_grantedSince limit call.key requests hearlier)
    rw [inWindow_eq_above hpast]
    exact hentries.trans (Int.ofNat_le.mpr hgranted)
  · exact isAllowed_of_alike (alike_relevant hlimit requests hrequests hnow).symm

/-- A call on the key at time 100, and an earlier one on another key. -/
def twoKeys : List Request :=
  [.isAllowed repeatedCall, .isAllowed ⟨"10.0.0.2", 90, 1, none⟩]

/-- A second call on the key. -/
def laterCall : Call := ⟨"10.0.0.1", 130, 7, none⟩

theorem laterCall_denied : (isAllowed 1 (served 1 twoKeys) laterCall).1 = false := by
  have hfirst : (script 100 windowSeconds 1 1 .absent).2 = oneEntry := by
    simp [script, RateKey.remaining, RateKey.live, RateKey.absent, oneEntry,
      SortedSet.zremrangebyscore, SortedSet.zcard, SortedSet.zadd,
      KeyedList.empty, KeyedList.filter, KeyedList.upsert, windowSeconds]
    norm_num
  have hsecond : served 1 twoKeys (rateKey "10.0.0.1") =
      step 1 Keyspace.empty repeatedCall (rateKey "10.0.0.1") :=
    step_of_ne _ (by decide)
  have hentry : served 1 twoKeys (rateKey "10.0.0.1") = oneEntry :=
    hsecond.trans ((isAllowed_of_available 1 Keyspace.empty repeatedCall rfl).2.trans hfirst)
  have hremaining : (oneEntry.remaining 130 windowSeconds).zcard = 1 := by
    have hlive : oneEntry.live 130 = oneEntry := if_neg (by norm_num [oneEntry])
    rw [RateKey.remaining, hlive, SortedSet.zcard_zremrangebyscore]
    norm_num [oneEntry, windowSeconds]
  rw [(isAllowed_of_available 1 _ laterCall rfl).1, decide_eq_false_iff_not,
    script_grants_iff, show served 1 twoKeys (rateKey laterCall.key) = oneEntry from hentry,
    show (oneEntry.remaining laterCall.now windowSeconds).zcard = 1 from hremaining]
  decide

theorem denied_only_at_limit_laterCall :
    1 ≤ (inWindow 130 ((grantedSince 1 "10.0.0.1" twoKeys).map Call.now) : ℤ) := by
  have hcalls : (twoKeys ++ [Request.isAllowed laterCall]).filterMap
      (Request.callOn? laterCall.key) = [repeatedCall, laterCall] := by decide
  have hdenied := (denied_only_at_limit 1 (by decide) twoKeys laterCall
    (by rw [hcalls]; norm_num [repeatedCall, laterCall])).1
  exact hdenied laterCall_denied

end RedisRateLimiter
end AiBackend
