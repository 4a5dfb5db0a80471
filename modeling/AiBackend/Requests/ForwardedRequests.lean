import AiBackend.RateLimiting.NoFalseDenials
import AiBackend.Requests.Transparency

/-!
# How many requests are let through

Requests of many clients interleave, and `get_remaining` evicts entries between
the scripts.  As long as Redis answers, sees the timestamps of a key in order,
and the scripts add their entries, no more than `limit` requests of one key that
have come within sixty seconds reach the application; and what a response says
about the rest is right for a moment between the question and the answer.
-/

namespace AiBackend

namespace RedisRateLimiter

/-! ## Eviction on behalf of `get_remaining` -/

/-- What `ZREMRANGEBYSCORE` leaves of a key. -/
def RateKey.trimmed (value : RateKey) (now : ℚ) : RateKey :=
  if (value.remaining now windowSeconds).zcard = 0 then .absent
  else ⟨value.remaining now windowSeconds, (value.live now).expireAt⟩

/-- No entry of the key is older than the bound. -/
def NewerThan (value : RateKey) (c : ℚ) : Prop :=
  ∀ entry ∈ value.members.items, c < entry.2

/-- Every entry stands for a granted call. -/
def Backed (value : RateKey) (times : List ℚ) : Prop :=
  ∀ c, value.above c ≤ above c times

section Trim

variable {value : RateKey} {times : List ℚ} {last now c : ℚ} {limit : ℤ}

theorem trim_self (space : Keyspace) (now : ℚ) (key : String) :
    trim space now key key = (space key).trimmed now := Function.update_self ..

theorem newerThan_remaining (value : RateKey) (now : ℚ) :
    ∀ entry ∈ (value.remaining now windowSeconds).items, now - windowSeconds < entry.2 := by
  intro entry hentry
  exact decide_eq_true_eq.mp (List.mem_filter.mp hentry).2

theorem trimmed_cases (value : RateKey) (now : ℚ) :
    (value.remaining now windowSeconds).zcard = 0 ∧ value.trimmed now = .absent ∨
      value.trimmed now =
        ⟨value.remaining now windowSeconds, (value.live now).expireAt⟩ := by
  by_cases h : (value.remaining now windowSeconds).zcard = 0
  · exact .inl ⟨h, if_pos h⟩
  · exact .inr (if_neg h)

theorem newerThan_trimmed (value : RateKey) (now : ℚ) :
    NewerThan (value.trimmed now) (now - windowSeconds) := by
  rcases trimmed_cases value now with ⟨-, h⟩ | h
  · rw [h]
    exact fun entry hentry => absurd hentry List.not_mem_nil
  · rw [h]
    exact newerThan_remaining value now

/-- Eviction takes no entry away that a later window can reach. -/
theorem Tracks.trim (h : Tracks value times last) (hnow : last ≤ now) :
    Tracks (value.trimmed now) times now := by
  have hlive := h.live hnow
  rcases trimmed_cases value now with ⟨hempty, htrimmed⟩ | htrimmed
  · have hremaining := h.above_le_remaining hnow
    rw [htrimmed]
    refine ⟨fun c hc => ?_, hlive.past, fun e he => by cases he⟩
    have hfewer := above_antitone hc times
    omega
  · rw [htrimmed]
    refine ⟨fun c hc => ?_, hlive.past, hlive.expiry⟩
    have hcount := hlive.counted c hc
    rwa [RateKey.above, ← SortedSet.countP_zremrangebyscore _ hc] at hcount

theorem Tracks.later (h : Tracks value times last) (hle : last ≤ now) :
    Tracks value times now :=
  ⟨fun c hc => h.counted c (by linarith), fun a ha => (h.past a ha).trans hle, h.expiry⟩

theorem Backed.trim (h : Backed value times) (now : ℚ) :
    Backed (value.trimmed now) times := by
  intro c
  rcases trimmed_cases value now with ⟨-, htrimmed⟩ | htrimmed
  · rw [htrimmed]
    exact Nat.zero_le _
  · rw [htrimmed]
    exact (above_remaining_le now value c).trans (h c)

theorem Backed.script (h : Backed value times) (now : ℚ) (limit : ℤ) (random : ℕ) :
    Backed (script now windowSeconds limit random value).2
      (times ++ if (script now windowSeconds limit random value).1 ≠ 0 then [now] else []) := by
  intro c
  have hscript := above_script_le now limit random value c
  have hbefore := h c
  rw [above, List.countP_append, ← above]
  split
  next hgranted =>
    simp only [hgranted, ne_eq, not_false_eq_true, true_and] at hscript
    simp only [List.countP_cons, List.countP_nil, decide_eq_true_eq]
    omega
  next hdenied =>
    rw [if_neg fun hboth => hdenied hboth.1] at hscript
    simp only [List.countP_nil]
    omega

/-- A later script leaves no entry that is as old. -/
theorem NewerThan.script (h : c ≤ now - windowSeconds) (limit : ℤ) (random : ℕ)
    (value : RateKey) : NewerThan (script now windowSeconds limit random value).2 c := by
  have hremaining := newerThan_remaining value now
  obtain ⟨-, hscript⟩ | ⟨-, -, hscript⟩ | ⟨-, -, hscript⟩ := script_cases now limit random value
  · rw [hscript]
    intro entry hentry
    rcases (KeyedList.mem_upsert _ _ _).mp hentry with rfl | ⟨hold, -⟩
    · have hpositive : (0 : ℚ) < windowSeconds := by norm_num [windowSeconds]
      change c < now
      linarith
    · exact h.trans_lt (hremaining entry hold)
  · rw [hscript]
    exact fun entry hentry => absurd hentry List.not_mem_nil
  · rw [hscript]
    exact fun entry hentry => h.trans_lt (hremaining entry hentry)

end Trim

/-! ## A key after a run -/

/-- What a key holds after commands at the times `ops` and calls granted at the
times `times`. -/
structure Follows (limit : ℤ) (value : RateKey) (times ops : List ℚ) : Prop where
  tracked : ∀ last, (∀ a ∈ ops, a ≤ last) → Tracks value times last
  backed : Backed value times
  within : WithinLimit limit times

section Follows

variable {limit : ℤ} {value : RateKey} {times ops : List ℚ} {now : ℚ}

theorem follows_absent (hlimit : 0 ≤ limit) : Follows limit .absent [] [] where
  tracked := fun _ _ => ⟨fun _ _ => Nat.zero_le _, fun _ h => absurd h List.not_mem_nil,
    fun _ h => by cases h⟩
  backed := fun _ => Nat.zero_le _
  within := fun _ => hlimit

theorem Follows.waited (h : Follows limit value times ops) (now : ℚ) :
    Follows limit value times (ops ++ [now]) where
  tracked := fun last hlast => h.tracked last fun a ha => hlast a (List.mem_append_left _ ha)
  backed := h.backed
  within := h.within

theorem Follows.trimmed (h : Follows limit value times ops) (hops : ∀ a ∈ ops, a ≤ now) :
    Follows limit (value.trimmed now) times (ops ++ [now]) where
  tracked := by
    intro last hlast
    have hnow : now ≤ last := hlast now (List.mem_append_right _ (List.mem_singleton_self now))
    exact ((h.tracked now hops).trim le_rfl).later hnow
  backed := h.backed.trim now
  within := h.within

theorem Follows.scripted (h : Follows limit value times ops) (hops : ∀ a ∈ ops, a ≤ now)
    {random : ℕ} (hadds : ((value.remaining now windowSeconds).zcard : ℤ) < limit →
      member now random ∉ (value.remaining now windowSeconds).keys) :
    Follows limit (script now windowSeconds limit random value).2
      (times ++ if (script now windowSeconds limit random value).1 ≠ 0 then [now] else [])
      (ops ++ [now]) := by
  have htracks := h.tracked now hops
  have hbacked := h.backed.script now limit random
  have hlater : ∀ last, (∀ a ∈ ops ++ [now], a ≤ last) → now ≤ last := fun last hlast =>
    hlast now (List.mem_append_right _ (List.mem_singleton_self now))
  by_cases hroom : ((value.remaining now windowSeconds).zcard : ℤ) < limit
  · obtain ⟨hone, hgrants⟩ := htracks.grants le_rfl hroom (hadds hroom)
    have hanswer : (script now windowSeconds limit random value).1 ≠ 0 := by
      rw [hone]
      exact one_ne_zero
    rw [if_pos hanswer] at hbacked ⊢
    have hcount := htracks.above_le_remaining le_rfl
    exact ⟨fun last hlast => hgrants.later (hlater last hlast), hbacked,
      h.within.concat (by omega)⟩
  · obtain ⟨hzero, hdenied⟩ := htracks.denied le_rfl random hroom
    have hanswer : ¬ (script now windowSeconds limit random value).1 ≠ 0 := not_not.mpr hzero
    rw [if_neg hanswer, List.append_nil] at hbacked ⊢
    exact ⟨fun last hlast => hdenied.later (hlater last hlast), hbacked, h.within⟩

/-- What is counted lies between the calls granted in the window that ends when
the question is answered and those granted in the one that ended when the older
entries were evicted. -/
theorem Follows.remainingOf_bounds (h : Follows limit value times ops) {asked : ℚ}
    (hnew : NewerThan value (asked - windowSeconds)) (hops : ∀ a ∈ ops, a ≤ now) :
    max 0 (limit - above (asked - windowSeconds) times) ≤
        remainingOf limit (value.live now).members.zcard ∧
      remainingOf limit (value.live now).members.zcard ≤
        max 0 (limit - inWindow now times) := by
  have htracks := (h.tracked now hops).live le_rfl
  have hlower := htracks.counted (now - windowSeconds) le_rfl
  have hin : inWindow now times = above (now - windowSeconds) times :=
    inWindow_eq_above htracks.past
  have hcard : (value.live now).above (now - windowSeconds) ≤ (value.live now).members.zcard :=
    List.countP_le_length
  have hall : value.above (asked - windowSeconds) = value.members.zcard :=
    List.countP_eq_length.mpr fun entry hentry => decide_eq_true (hnew entry hentry)
  have hlive : (value.live now).members.zcard ≤ value.members.zcard := by
    unfold RateKey.live
    split
    · exact Nat.zero_le _
    · exact Nat.le_refl _
  have hupper := h.backed (asked - windowSeconds)
  unfold remainingOf
  omega

end Follows

end RedisRateLimiter

namespace RateLimitMiddleware

open Program Python RedisRateLimiter ErrorHandler Interleaving Run

variable {β : Type} {ι : Type}

/-! ## What Redis sees of a run -/

section History

variable (limit : ℤ) (requests : ι → Request) (key : String)

/-- The request is counted under the key. -/
def CountsFor (request : Request) : Prop := request.isHealth = false ∧ request.rateKey = key

/-- The time of the command on the key. -/
def opTime? (t : Served β ι) : Option ℚ :=
  if (requests t.input.1).rateKey = key then
    match t.before.stages t.input.1 with
    | .checking now => some now
    | .trimming now _ => some now
    | .counting _ _ => some t.input.2.time
    | _ => none
  else none

/-- The request on the key that the script lets through, and the time at which
it has come. -/
def letThrough? (t : Served β ι) : Option (ι × ℚ) :=
  if (requests t.input.1).rateKey = key then
    match t.before.stages t.input.1, t.after.stages t.input.1 with
    | .checking now, .forwarded _ => some (t.input.1, now)
    | _, _ => none
  else none

def ops (past : List (Served β ι)) : List ℚ := past.filterMap (opTime? requests key)

def letThrough (past : List (Served β ι)) : List (ι × ℚ) :=
  past.filterMap (letThrough? requests key)

/-- The times at which the requests on the key have come that were let through. -/
def letThroughTimes (past : List (Served β ι)) : List ℚ :=
  (letThrough requests key past).map Prod.snd

/-- The time at which a request has come. -/
def arrival [DecidableEq ι] (i : ι) (past : List (Served β ι)) : Option ℚ :=
  (past.find? fun t => decide (t.input.1 = i)).map fun t => t.input.2.time

/-- For a request on the key the script runs and adds its entry, and a denial is
logged. -/
def RegularStep (t : Served β ι) : Prop :=
  (requests t.input.1).rateKey = key →
    match t.before.stages t.input.1 with
    | .checking now => t.input.2.fault = none ∧
        AddsEntry limit t.before.shared ((requests t.input.1).call t.input.2 now)
    | .exceeded => t.input.2.fault = none
    | _ => True

/-- Redis answers the requests on the key, and sees their times in order. -/
structure Regular (past : List (Served β ι)) : Prop where
  steps : ∀ t ∈ past, RegularStep limit requests key t
  ordered : (ops requests key past).Pairwise (· ≤ ·)

theorem Regular.earlier {past : List (Served β ι)} {t : Served β ι}
    (h : Regular limit requests key (past ++ [t])) : Regular limit requests key past where
  steps := fun u hu => h.steps u (List.mem_append_left _ hu)
  ordered := by
    have hordered := h.ordered
    rw [ops, List.filterMap_append] at hordered
    exact (List.pairwise_append.mp hordered).1

theorem ops_concat (past : List (Served β ι)) (t : Served β ι) :
    ops requests key (past ++ [t]) =
      ops requests key past ++ (opTime? requests key t).toList := by
  rw [ops, List.filterMap_append, ← ops]
  cases hop : opTime? requests key t with
  | none => simp [hop]
  | some now => simp [hop]

theorem letThrough_concat (past : List (Served β ι)) (t : Served β ι) :
    letThrough requests key (past ++ [t]) =
      letThrough requests key past ++ (letThrough? requests key t).toList := by
  rw [letThrough, List.filterMap_append, ← letThrough]
  cases hlet : letThrough? requests key t with
  | none => simp [hlet]
  | some entry => simp [hlet]

theorem letThroughTimes_concat (past : List (Served β ι)) (t : Served β ι) :
    letThroughTimes requests key (past ++ [t]) =
      letThroughTimes requests key past ++
        (letThrough? requests key t).toList.map Prod.snd := by
  rw [letThroughTimes, letThrough_concat, List.map_append, ← letThroughTimes]

/-- The commands before a transition on the key are not later than its own. -/
theorem Regular.le_op {past : List (Served β ι)} {t : Served β ι} {now : ℚ}
    (h : Regular limit requests key (past ++ [t])) (hop : opTime? requests key t = some now) :
    ∀ a ∈ ops requests key past, a ≤ now := by
  have hordered := h.ordered
  rw [ops_concat, hop, List.pairwise_append] at hordered
  exact fun a ha => hordered.2.2 a ha now (List.mem_singleton_self now)

end History

/-! ## One step -/

section Steps

variable [DecidableEq ι] {limit : ℤ} {render : ErrorResponse → β} {requests : ι → Request}
  {key : String} {m : System ι (Stage β) Keyspace} {i : ι} {moment : Moment β}
  {past : List (Served β ι)}

/-- One transition of the machine. -/
abbrev taken (limit : ℤ) (render : ErrorResponse → β) (requests : ι → Request)
    (m : System ι (Stage β) Keyspace) (i : ι) (moment : Moment β) : Served β ι :=
  ⟨m, (i, moment), step limit render requests m (i, moment)⟩

/-- A request on another key leaves this one alone. -/
theorem shared_step_of_ne (h : (requests i).rateKey ≠ key) :
    (step limit render requests m (i, moment)).shared (rateKey key) =
      m.shared (rateKey key) := by
  have hkey : rateKey key ≠ rateKey (requests i).rateKey :=
    fun heq => h (rateKey_injective heq).symm
  have heffect : (m.stages i).effect limit (requests i) moment m.shared (rateKey key) =
      m.shared (rateKey key) := by
    cases m.stages i with
    | checking now =>
        exact step_of_ne m.shared
          (show ((requests i).call moment now).key ≠ key from h)
    | trimming now response => exact Function.update_of_ne hkey ..
    | _ => rfl
  rw [shared_step]
  rcases leaves_cases moment m.shared
    ((m.stages i).effect limit (requests i) moment m.shared) with hafter | hsame
  · rw [hafter]
    exact heffect
  · rw [hsame]

theorem shared_step_of_effect
    (h : (m.stages i).effect limit (requests i) moment m.shared = m.shared) :
    (step limit render requests m (i, moment)).shared = m.shared := by
  rw [shared_step, h]
  exact leaves_self moment m.shared

/-- The script of a regular step. -/
theorem checked_step (render : ErrorResponse → β) {now : ℚ} (hstage : m.stages i = .checking now)
    (hfault : moment.fault = none) :
    (step limit render requests m (i, moment)).shared (rateKey (requests i).rateKey) =
        (script now windowSeconds limit moment.random
          (m.shared (rateKey (requests i).rateKey))).2 ∧
      (letThrough? requests (requests i).rateKey
          (taken limit render requests m i moment)).toList.map Prod.snd =
        if (script now windowSeconds limit moment.random
          (m.shared (rateKey (requests i).rateKey))).1 ≠ 0 then [now] else [] := by
  have hgoes := goes_step limit render requests m i moment
  have hanswer : (isAllowed limit m.shared ((requests i).call moment now)).1 =
      decide ((script now windowSeconds limit moment.random
        (m.shared (rateKey (requests i).rateKey))).1 ≠ 0) :=
    (isAllowed_of_available limit m.shared ((requests i).call moment now) rfl).1
  generalize hnext : (step limit render requests m (i, moment)).stages i = next at hgoes
  rw [hstage] at hgoes
  refine ⟨?_, ?_⟩
  · rw [shared_step, hstage, Moment.leaves, hfault]
    exact (isAllowed_of_available limit m.shared ((requests i).call moment now) rfl).2
  · cases hgoes with
    | allowed now hfault hallowed =>
        have hgranted := decide_eq_true_eq.mp (hanswer.symm.trans hallowed)
        rw [if_pos hgranted]
        simp [letThrough?, hstage, hnext]
    | denied now hfault hdenied =>
        have hrefused := decide_eq_false_iff_not.mp (hanswer.symm.trans hdenied)
        rw [if_neg hrefused]
        simp [letThrough?, hstage, hnext]
    | scriptFailed now fault hfailed =>
        rw [hfault] at hfailed
        cases hfailed
    | raised stage hawaits fault hfailed =>
        rw [hfault] at hfailed
        cases hfailed
    | logFailed stage hother => exact absurd hother (by simp)
    | untold past response stage hother => exact absurd hother (by simp)
    | ended stage hended => exact absurd trivial hended

/-- An eviction that fails has been carried out or not. -/
theorem trimmed_step (limit : ℤ) (render : ErrorResponse → β) (moment : Moment β) {now : ℚ}
    {response : HttpResponse β} (hstage : m.stages i = .trimming now response) :
    (step limit render requests m (i, moment)).shared (rateKey (requests i).rateKey) =
        m.shared (rateKey (requests i).rateKey) ∨
      (step limit render requests m (i, moment)).shared (rateKey (requests i).rateKey) =
        (m.shared (rateKey (requests i).rateKey)).trimmed now := by
  rw [shared_step, hstage]
  rcases leaves_cases moment m.shared
    ((Stage.trimming now response).effect limit (requests i) moment m.shared) with hafter | hsame
  · rw [hafter]
    exact .inr (trim_self m.shared now _)
  · rw [hsame]
    exact .inl rfl

/-- A step that is no script lets nothing through. -/
theorem letThrough?_eq_none (h : ∀ now, m.stages i ≠ .checking now) :
    letThrough? requests key (taken limit render requests m i moment) = none := by
  unfold letThrough?
  split
  · split
    next now told hbefore hafter => exact absurd hbefore (h now)
    · rfl
  · rfl

/-- What a key holds follows the run by one more transition. -/
theorem follows_step (h : Follows limit (m.shared (rateKey key))
      (letThroughTimes requests key past) (ops requests key past))
    (hregular : Regular limit requests key (past ++ [taken limit render requests m i moment])) :
    Follows limit ((step limit render requests m (i, moment)).shared (rateKey key))
      (letThroughTimes requests key (past ++ [taken limit render requests m i moment]))
      (ops requests key (past ++ [taken limit render requests m i moment])) := by
  rw [letThroughTimes_concat, ops_concat]
  by_cases hkey : (requests i).rateKey = key
  · subst hkey
    have hstep := hregular.steps _ (List.mem_append_right _ (List.mem_singleton_self _)) rfl
    cases hstage : m.stages i with
    | checking now =>
        rw [hstage] at hstep
        obtain ⟨hfault, hadds⟩ := hstep
        obtain ⟨hshared, htimes⟩ := checked_step render hstage hfault
        have hop : opTime? requests (requests i).rateKey
            (taken limit render requests m i moment) = some now := by
          simp [opTime?, hstage]
        rw [hshared, htimes, hop]
        exact h.scripted (hregular.le_op limit requests _ hop) hadds
    | trimming now response =>
        have hop : opTime? requests (requests i).rateKey
            (taken limit render requests m i moment) = some now := by
          simp [opTime?, hstage]
        rw [letThrough?_eq_none (by simp [hstage]), hop, Option.toList_none, List.map_nil,
          List.append_nil]
        rcases trimmed_step limit render moment hstage with hsame | htrimmed
        · rw [hsame]
          exact h.waited now
        · rw [htrimmed]
          exact h.trimmed (hregular.le_op limit requests _ hop)
    | counting now response =>
        have hop : opTime? requests (requests i).rateKey
            (taken limit render requests m i moment) = some moment.time := by
          simp [opTime?, hstage]
        rw [letThrough?_eq_none (by simp [hstage]), hop, Option.toList_none, List.map_nil,
          List.append_nil, shared_step_of_effect (by rw [hstage]; rfl)]
        exact h.waited moment.time
    | _ =>
        have hop : opTime? requests (requests i).rateKey
            (taken limit render requests m i moment) = none := by
          simp [opTime?, hstage]
        rw [letThrough?_eq_none (by simp [hstage]), hop, Option.toList_none, List.map_nil,
          Option.toList_none, List.append_nil, List.append_nil,
          shared_step_of_effect (by rw [hstage]; rfl)]
        exact h
  · have hop : opTime? requests key (taken limit render requests m i moment) = none := if_neg hkey
    have hlet : letThrough? requests key (taken limit render requests m i moment) = none :=
      if_neg hkey
    rw [hop, hlet, shared_step_of_ne hkey, Option.toList_none, List.map_nil,
      Option.toList_none, List.append_nil, List.append_nil]
    exact h

theorem arrival_concat (j : ι) (t : Served β ι) :
    arrival j (past ++ [t]) =
      (arrival j past).or (if t.input.1 = j then some t.input.2.time else none) := by
  rw [arrival, List.find?_append, arrival]
  cases past.find? fun t => decide (t.input.1 = j) with
  | some u => rfl
  | none =>
      by_cases hj : t.input.1 = j
      · simp [hj]
      · simp [hj]

/-- Where a request on the key stands, and that the script has let it through
before the application has seen it. -/
structure Placed (requests : ι → Request) (key : String) (past : List (Served β ι)) (i : ι)
    (stage : Stage β) : Prop where
  arrived : stage = .arrived → arrival i past = none
  checking : ∀ now, stage = .checking now → arrival i past = some now
  failed : stage ≠ .scriptFailed ∧ stage ≠ .unavailable
  entered : 0 < entries i past →
    ∃ now, arrival i past = some now ∧ (i, now) ∈ letThrough requests key past

theorem placed_start (i : ι) :
    Placed requests key ([] : List (Served β ι)) i .arrived where
  arrived := fun _ => rfl
  checking := fun _ h => by cases h
  failed := ⟨by simp, by simp⟩
  entered := fun h => absurd h (Nat.lt_irrefl 0)

theorem Placed.step_of_ne {stage : Stage β} {t : Served β ι} (h : Placed requests key past i stage)
    (hne : t.input.1 ≠ i) : Placed requests key (past ++ [t]) i stage := by
  have harrival : arrival i (past ++ [t]) = arrival i past := by
    rw [arrival_concat, if_neg hne, Option.or_none]
  have hentries : entries i (past ++ [t]) = entries i past := by
    rw [entries, List.countP_append, List.countP_singleton, if_neg (by simp [Enters, hne])]
    rfl
  refine ⟨fun hstage => harrival.trans (h.arrived hstage),
    fun now hstage => harrival.trans (h.checking now hstage), h.failed, fun hentered => ?_⟩
  rw [hentries] at hentered
  obtain ⟨now, hnow, hlet⟩ := h.entered hentered
  refine ⟨now, harrival.trans hnow, ?_⟩
  rw [letThrough_concat]
  exact List.mem_append_left _ hlet

/-- What a step of the request itself does. -/
theorem Placed.step_self (h : Placed requests key past i (m.stages i))
    (hcounts : CountsFor key (requests i))
    (hregular : RegularStep limit requests key (taken limit render requests m i moment)) :
    Placed requests key (past ++ [taken limit render requests m i moment]) i
      ((step limit render requests m (i, moment)).stages i) := by
  have hgoes := goes_step limit render requests m i moment
  generalize hnext : (step limit render requests m (i, moment)).stages i = next at hgoes ⊢
  have hfault := hregular hcounts.2
  have harrival : arrival i (past ++ [taken limit render requests m i moment]) =
      (arrival i past).or (some moment.time) := by
    rw [arrival_concat, if_pos rfl]
  have hentered : ¬ ((m.stages i).isForwarded = false ∧ next.isForwarded = true) →
      0 < entries i (past ++ [taken limit render requests m i moment]) →
      ∃ now, arrival i (past ++ [taken limit render requests m i moment]) = some now ∧
        (i, now) ∈ letThrough requests key (past ++ [taken limit render requests m i moment]) := by
    intro hnot hpositive
    rw [entries, List.countP_append, List.countP_singleton,
      if_neg (by simpa [Enters, hnext] using hnot)] at hpositive
    obtain ⟨now, hnow, hlet⟩ := h.entered hpositive
    rw [harrival, hnow, letThrough_concat]
    exact ⟨now, rfl, List.mem_append_left _ hlet⟩
  generalize hstage : m.stages i = stage at *
  cases hgoes with
  | health hhealth => exact absurd (hcounts.1.symm.trans hhealth) Bool.false_ne_true
  | check hhealth =>
      refine ⟨by simp, fun now hnow => ?_, by simp, hentered (by simp [Stage.isForwarded])⟩
      rw [harrival, h.arrived rfl]
      cases hnow
      rfl
  | allowed now hnone hallowed =>
      refine ⟨by simp, by simp, by simp, fun _ => ⟨now, ?_, ?_⟩⟩
      · rw [harrival, h.checking now rfl]
        rfl
      · have hlet : letThrough? requests key (taken limit render requests m i moment) =
            some (i, now) := by
          simp [letThrough?, hstage, hnext, hcounts.2]
        rw [letThrough_concat, hlet]
        exact List.mem_append_right _ (List.mem_singleton_self _)
  | denied now hnone hdenied =>
      exact ⟨by simp, by simp, by simp, hentered (by simp [Stage.isForwarded])⟩
  | scriptFailed now fault hsome =>
      have hnone : moment.fault = none := hfault.1
      rw [hnone] at hsome
      cases hsome
  | failedOpen hnone => exact absurd rfl h.failed.1
  | refused hnone => exact ⟨by simp, by simp, by simp, hentered (by simp [Stage.isForwarded])⟩
  | logFailed stage hlog fault hsome =>
      rcases hlog with rfl | rfl
      · exact absurd rfl h.failed.1
      · have hnone : moment.fault = none := hfault
        rw [hnone] at hsome
        cases hsome
  | unchecked hnone => exact absurd rfl h.failed.2
  | answered hnone => exact ⟨by simp, by simp, by simp, hentered (by simp [Stage.isForwarded])⟩
  | passed hnone => exact ⟨by simp, by simp, by simp, hentered (by simp [Stage.isForwarded])⟩
  | trimmed now response hnone =>
      exact ⟨by simp, by simp, by simp, hentered (by simp [Stage.isForwarded])⟩
  | told now response hnone =>
      exact ⟨by simp, by simp, by simp, hentered (by simp [Stage.isForwarded])⟩
  | untold now response stage hlast fault hsome =>
      exact ⟨by simp, by simp, by simp, hentered (by simp [Stage.isForwarded])⟩
  | raised stage hawaits fault hsome =>
      exact ⟨by simp, by simp, by simp, hentered (by simp [Stage.isForwarded])⟩
  | ended stage hended harrived =>
      refine ⟨fun harrives => absurd harrives harrived, fun now hchecks => ?_, h.failed,
        hentered (by simp)⟩
      rw [hchecks] at hended
      exact absurd trivial hended

/-- Since a request that awaits `ZCARD` has evicted the older entries, none of
them has come back. -/
def Evicted (requests : ι → Request) (key : String) (past : List (Served β ι))
    (m : System ι (Stage β) Keyspace) : Prop :=
  ∀ i now response, (requests i).rateKey = key → m.stages i = .counting now response →
    now ∈ ops requests key past ∧ NewerThan (m.shared (rateKey key)) (now - windowSeconds)

/-- A later command of another request leaves no older entry. -/
theorem newerThan_step {c : ℚ}
    (hregular : Regular limit requests key (past ++ [taken limit render requests m i moment]))
    (hc : ∃ now ∈ ops requests key past, c = now - windowSeconds)
    (h : NewerThan (m.shared (rateKey key)) c) :
    NewerThan ((step limit render requests m (i, moment)).shared (rateKey key)) c := by
  obtain ⟨earlier, hearlier, rfl⟩ := hc
  by_cases hkey : (requests i).rateKey = key
  · subst hkey
    have hlater : ∀ now, opTime? requests (requests i).rateKey
        (taken limit render requests m i moment) = some now →
        earlier - windowSeconds ≤ now - windowSeconds := by
      intro now hop
      have hle := hregular.le_op limit requests _ hop earlier hearlier
      linarith
    cases hstage : m.stages i with
    | checking now =>
        have hstep := hregular.steps _ (List.mem_append_right _ (List.mem_singleton_self _)) rfl
        rw [hstage] at hstep
        rw [(checked_step render hstage hstep.1).1]
        exact NewerThan.script (hlater now (by simp [opTime?, hstage])) _ _ _
    | trimming now response =>
        rcases trimmed_step limit render moment hstage with hsame | htrimmed
        · rw [hsame]
          exact h
        · rw [htrimmed]
          exact fun entry hentry => (hlater now (by simp [opTime?, hstage])).trans_lt
            (newerThan_trimmed _ now entry hentry)
    | _ =>
        rw [shared_step_of_effect (by rw [hstage]; rfl)]
        exact h
  · rw [shared_step_of_ne hkey]
    exact h

/-- Only an eviction that succeeds leads to `ZCARD`. -/
theorem trimming_of_counting {now : ℚ} {response : HttpResponse β}
    (hstage : (step limit render requests m (i, moment)).stages i = .counting now response) :
    m.stages i = .trimming now response ∧ moment.fault = none := by
  have hgoes := goes_step limit render requests m i moment
  rw [hstage] at hgoes
  generalize m.stages i = stage at hgoes
  cases hgoes with
  | trimmed now response hfault => exact ⟨rfl, hfault⟩
  | ended stage hended => exact absurd trivial hended

theorem evicted_step
    (hregular : Regular limit requests key (past ++ [taken limit render requests m i moment]))
    (h : Evicted requests key past m) :
    Evicted requests key (past ++ [taken limit render requests m i moment])
      (step limit render requests m (i, moment)) := by
  intro j now response hkey hstage
  rw [ops_concat, List.mem_append]
  by_cases hij : j = i
  · subst hij hkey
    obtain ⟨hbefore, hfault⟩ := trimming_of_counting hstage
    have hop : opTime? requests (requests j).rateKey
        (taken limit render requests m j moment) = some now := by
      simp [opTime?, hbefore]
    refine ⟨.inr (by simp [hop]), ?_⟩
    rw [shared_step, hbefore, Moment.leaves, hfault]
    change NewerThan (trim m.shared now _ _) _
    rw [trim_self]
    exact newerThan_trimmed _ now
  · rw [stages_step_of_ne limit render requests m i moment hij] at hstage
    obtain ⟨hop, hnewer⟩ := h j now response hkey hstage
    exact ⟨.inl hop, newerThan_step hregular ⟨now, hop, rfl⟩ hnewer⟩

end Steps

/-! ## Runs -/

section Runs

variable [DecidableEq ι] {limit : ℤ} {render : ErrorResponse → β} {requests : ι → Request}
  {key : String} {inputs : List (ι × Moment β)}

/-- The run from an empty keyspace. -/
abbrev history (limit : ℤ) (render : ErrorResponse → β) (requests : ι → Request)
    (inputs : List (ι × Moment β)) : List (Served β ι) :=
  served limit render requests Keyspace.empty inputs

theorem follows_final (hlimit : 0 ≤ limit)
    (hregular : Regular limit requests key (history limit render requests inputs)) :
    Follows limit
      ((final (step limit render requests) (start Keyspace.empty) inputs).shared (rateKey key))
      (letThroughTimes requests key (history limit render requests inputs))
      (ops requests key (history limit render requests inputs)) :=
  history_of_steps (G := Regular limit requests key)
    (I := fun past m => Follows limit (m.shared (rateKey key))
      (letThroughTimes requests key past) (ops requests key past))
    (fun _ _ h => h.earlier) (fun _ _ _ h hregular => follows_step h hregular)
    (follows_absent hlimit) inputs hregular

theorem placed_final {i : ι} (hcounts : CountsFor key (requests i))
    (hregular : Regular limit requests key (history limit render requests inputs)) :
    Placed requests key (history limit render requests inputs) i
      ((final (step limit render requests) (start Keyspace.empty) inputs).stages i) := by
  refine history_of_steps (G := Regular limit requests key)
    (I := fun past m => Placed requests key past i (m.stages i)) (fun _ _ h => h.earlier) ?_
    (placed_start i) inputs hregular
  rintro past m ⟨j, moment⟩ h hregular
  by_cases hij : j = i
  · subst hij
    exact h.step_self hcounts
      (hregular.steps _ (List.mem_append_right _ (List.mem_singleton_self _)))
  · rw [stages_step_of_ne limit render requests m j moment (Ne.symm hij)]
    exact h.step_of_ne hij

theorem evicted_final
    (hregular : Regular limit requests key (history limit render requests inputs)) :
    Evicted requests key (history limit render requests inputs)
      (final (step limit render requests) (start Keyspace.empty) inputs) := by
  have hstart : Evicted requests key [] (start Keyspace.empty : System ι (Stage β) Keyspace) :=
    fun _ _ _ _ hstage => by cases hstage
  exact history_of_steps (G := Regular limit requests key) (I := Evicted requests key)
    (fun _ _ h => h.earlier) (fun _ _ _ h hregular => evicted_step hregular h) hstart inputs
    hregular

/-- However the requests interleave, at most `limit` of those on a key that have
come within sixty seconds reach the application. -/
theorem forwarded_within_limit (limit : ℤ) (hlimit : 0 ≤ limit) (render : ErrorResponse → β)
    (requests : ι → Request) (key : String) (inputs : List (ι × Moment β))
    (hregular : Regular limit requests key (history limit render requests inputs))
    (t : ℚ) (forwarded : Finset ι)
    (hforwarded : ∀ i ∈ forwarded, CountsFor key (requests i) ∧
      0 < entries i (history limit render requests inputs) ∧
      ∃ now, arrival i (history limit render requests inputs) = some now ∧
        t - windowSeconds < now ∧ now ≤ t) :
    (forwarded.card : ℤ) ≤ limit := by
  have hfollows := follows_final hlimit hregular
  have hsubset : forwarded ⊆ (((letThrough requests key
      (history limit render requests inputs)).filter
        fun entry => t - windowSeconds < entry.2 ∧ entry.2 ≤ t).map Prod.fst).toFinset := by
    intro i hi
    obtain ⟨hcounts, hentered, now, hnow, hin⟩ := hforwarded i hi
    obtain ⟨now', hnow', hlet⟩ := (placed_final hcounts hregular).entered hentered
    obtain rfl : now = now' := Option.some.inj (hnow.symm.trans hnow')
    rw [List.mem_toFinset, List.mem_map]
    exact ⟨(i, now), List.mem_filter.mpr ⟨hlet, decide_eq_true hin⟩, rfl⟩
  have hcard := (Finset.card_le_card hsubset).trans (List.toFinset_card_le _)
  have hwindow : inWindow t (letThroughTimes requests key
      (history limit render requests inputs)) =
      (((letThrough requests key (history limit render requests inputs)).filter
        fun entry => t - windowSeconds < entry.2 ∧ entry.2 ≤ t).map Prod.fst).length := by
    rw [List.length_map, inWindow, letThroughTimes, List.countP_map,
      ← List.countP_eq_length_filter]
    rfl
  have hwithin := hfollows.within t
  omega

/-- A search from a client without an API key. -/
def sampleRequest : Request := ⟨"/v1/search", none, some "10.0.0.1"⟩

def sampleMoment (time : ℚ) : Moment String := ⟨time, 1, ⟨200, [], "{}"⟩, none⟩

/-- It comes at time 100, is let through, and is answered at time 110. -/
def sampleVisit : List (Unit × Moment String) :=
  [((), sampleMoment 100), ((), sampleMoment 100), ((), sampleMoment 110),
    ((), sampleMoment 110)]

/-- Its run under a limit of two, to the end. -/
abbrev sampleHistory : List (Served String Unit) :=
  history 2 ErrorResponse.detail (fun _ => sampleRequest)
    (sampleVisit ++ [((), sampleMoment 110)])

theorem ops_sampleHistory :
    ops (fun _ => sampleRequest) "10.0.0.1" sampleHistory = [100, 110, 110] := rfl

theorem regular_sampleHistory :
    Regular 2 (fun _ => sampleRequest) "10.0.0.1" sampleHistory where
  steps := by
    rintro t ht -
    simp only [sampleHistory, history, served, sampleVisit, List.cons_append, List.nil_append,
      trace, List.mem_cons, List.not_mem_nil, or_false] at ht
    rcases ht with rfl | rfl | rfl | rfl | rfl
    · trivial
    · exact ⟨rfl, fun _ => List.not_mem_nil⟩
    · trivial
    · trivial
    · trivial
  ordered := by
    rw [ops_sampleHistory]
    norm_num

theorem forwarded_within_limit_sample : ((Finset.univ : Finset Unit).card : ℤ) ≤ 2 :=
  forwarded_within_limit 2 (by decide) ErrorResponse.detail (fun _ => sampleRequest) "10.0.0.1"
    (sampleVisit ++ [((), sampleMoment 110)]) regular_sampleHistory 120 Finset.univ
    fun ⟨⟩ _ => ⟨⟨rfl, rfl⟩, by decide, 100, rfl, by norm_num [windowSeconds], by norm_num⟩

/-- What a response says about the rest of the limit lies between what it was
when the older entries were evicted, less the requests let through since, and
what it is when the response is ready. -/
theorem remaining_header_bounds (limit : ℤ) (hlimit : 0 ≤ limit) (render : ErrorResponse → β)
    (requests : ι → Request) (inputs : List (ι × Moment β)) (i : ι) (moment : Moment β)
    (hregular : Regular limit requests (requests i).rateKey
      (history limit render requests (inputs ++ [(i, moment)])))
    (hfault : moment.fault = none) (now : ℚ) (response : HttpResponse β)
    (hstage : (final (step limit render requests) (start Keyspace.empty) inputs).stages i =
      .counting now response) :
    ∃ remaining : ℤ,
      (final (step limit render requests) (start Keyspace.empty) (inputs ++ [(i, moment)])).stages
          i = .done (withRemaining limit remaining response) ∧
        max 0 (limit - above (now - windowSeconds) (letThroughTimes requests (requests i).rateKey
          (history limit render requests inputs))) ≤ remaining ∧
        remaining ≤ max 0 (limit - inWindow moment.time (letThroughTimes requests
          (requests i).rateKey (history limit render requests inputs))) := by
  have htrace : history limit render requests (inputs ++ [(i, moment)]) =
      history limit render requests inputs ++ [taken limit render requests
        (final (step limit render requests) (start Keyspace.empty) inputs) i moment] :=
    trace_append _ _ _ _
  rw [htrace] at hregular
  have hbefore := hregular.earlier
  have hnewer := (evicted_final hbefore i now response rfl hstage).2
  have hops : ∀ a ∈ ops requests (requests i).rateKey (history limit render requests inputs),
      a ≤ moment.time :=
    hregular.le_op limit requests _ (by simp [opTime?, hstage])
  have hbounds := (follows_final hlimit hbefore).remainingOf_bounds hnewer hops
  rw [final_append]
  refine ⟨_, ?_, hbounds⟩
  have hgoes := goes_step limit render requests
    (final (step limit render requests) (start Keyspace.empty) inputs) i moment
  change (step limit render requests _ (i, moment)).stages i = _
  generalize (step limit render requests _ (i, moment)).stages i = next at hgoes ⊢
  rw [hstage] at hgoes
  cases hgoes with
  | told now response hnone => rfl
  | untold now response stage hlast fault hsome =>
      rw [hfault] at hsome
      cases hsome
  | raised stage hawaits fault hsome =>
      rw [hfault] at hsome
      cases hsome
  | logFailed stage hlog => exact absurd hlog (by simp)
  | ended stage hended => exact absurd trivial hended

theorem remaining_header_bounds_sample :
    ∃ remaining : ℤ,
      (final (step 2 ErrorResponse.detail fun _ => sampleRequest) (start Keyspace.empty)
          (sampleVisit ++ [((), sampleMoment 110)])).stages () =
        .done (withRemaining 2 remaining ⟨200, [], "{}"⟩) ∧
      max 0 (2 - (above (110 - windowSeconds) [100] : ℤ)) ≤ remaining ∧
      remaining ≤ max 0 (2 - (inWindow 110 [100] : ℤ)) :=
  remaining_header_bounds 2 (by decide) ErrorResponse.detail (fun _ => sampleRequest) sampleVisit
    () (sampleMoment 110) regular_sampleHistory rfl 110 ⟨200, [], "{}"⟩ rfl

end Runs

end RateLimitMiddleware
end AiBackend
