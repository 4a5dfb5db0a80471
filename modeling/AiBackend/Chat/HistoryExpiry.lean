import AiBackend.Chat.HistoryLog
import AiBackend.Support.Expiry

/-!
# Histories that expire

Every save gives the whole history of its user another seven days.  What is
read is therefore not all that was saved since the last clearing, but what was
saved since the last pause of seven days; a pause before the reading counts as
well.
-/

namespace AiBackend

open Python RedisLists

namespace RedisChatHistoryRepository

/-! ## Commands at a time -/

/-- Lists that expire. -/
abbrev ExpiringLists := Expiring String (List String)

/-- The lists as a command sees them at a time. -/
def visible (lists : ExpiringLists) (time : ℚ) : RedisLists :=
  fun key => (lists.get time key).getD []

/-- `86400 * 7`. -/
def historyTtl : ℚ := 86400 * 7

/-- `save_message`: push, trim and expiry in one transaction. -/
def saveMessageAt (time : ℚ) (lists : ExpiringLists) (userId : UserId)
    (message : ChatMessage) : Except PyExc ExpiringLists := do
  let saved ← saveMessage (visible lists time) userId message
  pure (lists.setex (historyKey userId) time historyTtl (saved (historyKey userId)))

/-- `get_history`. -/
def getHistoryAt (time : ℚ) (lists : ExpiringLists) (userId : UserId) (limit : ℤ := 10) :
    Except PyExc (List ChatMessage) :=
  getHistory (visible lists time) userId limit

/-- `clear_history`. -/
def clearHistoryAt (lists : ExpiringLists) (userId : UserId) : ExpiringLists :=
  lists.delete (historyKey userId)

section Visible

variable {lists : ExpiringLists} {key other : String}

theorem visible_setex_self (set time : ℚ) (texts : List String) :
    visible (lists.setex key set historyTtl texts) time key =
      if time < set + historyTtl then texts else [] := by
  rw [visible, Expiring.get_setex_self]
  split
  · rfl
  · rfl

theorem visible_setex_of_ne (h : other ≠ key) (set time : ℚ) (texts : List String) :
    visible (lists.setex key set historyTtl texts) time other = visible lists time other := by
  rw [visible, Expiring.get_setex_of_ne h, visible]

theorem visible_delete_self (time : ℚ) : visible (lists.delete key) time key = [] := by
  rw [visible, Expiring.get_delete_self]
  rfl

theorem visible_delete_of_ne (h : other ≠ key) (time : ℚ) :
    visible (lists.delete key) time other = visible lists time other := by
  rw [visible, Expiring.get_delete_of_ne h, visible]

end Visible

/-! ## Calls at a time -/

/-- A call that changes the history, and when Redis carries it out. -/
structure TimedCall where
  time : ℚ
  call : Call

/-- The lists after a call; one that raises leaves them alone. -/
def TimedCall.run (lists : ExpiringLists) (timed : TimedCall) : ExpiringLists :=
  match timed.call with
  | .save userId message _ =>
      match saveMessageAt timed.time lists userId message with
      | .ok lists' => lists'
      | .error _ => lists
  | .clear userId => clearHistoryAt lists userId

/-- The messages of a user that a reader at the given time should see, from the
calls before it, the latest one first: each was saved less than seven days
before the next one, or before the reading. -/
def recent (userId : UserId) : List TimedCall → ℚ → List ChatMessage
  | [], _ => []
  | ⟨saved, .save user message _⟩ :: past, time =>
      if user = userId ∧ Storable message then
        if time < saved + historyTtl then recent userId past saved ++ [message] else []
      else recent userId past time
  | ⟨_, .clear user⟩ :: past, time =>
      if user = userId then [] else recent userId past time

/-- No pause of seven days since the last clearing. -/
def Unbroken (userId : UserId) : List TimedCall → ℚ → Prop
  | [], _ => True
  | ⟨saved, .save user message _⟩ :: past, time =>
      if user = userId ∧ Storable message then
        time < saved + historyTtl ∧ Unbroken userId past saved
      else Unbroken userId past time
  | ⟨_, .clear user⟩ :: past, time => user = userId ∨ Unbroken userId past time

/-! ## One call -/

section Step

variable {lists : ExpiringLists} {past : List TimedCall} {userId : UserId}
  {message : ChatMessage}

theorem recent_save_self {saved : ℚ} (hvalued : JsonValued message)
    (hstorable : Storable message) (time : ℚ) :
    recent userId (⟨saved, .save userId message hvalued⟩ :: past) time =
      if time < saved + historyTtl then recent userId past saved ++ [message] else [] :=
  if_pos ⟨rfl, hstorable⟩

theorem recent_save_of_ne {saved : ℚ} {user : UserId} (h : userId ≠ user)
    (hvalued : JsonValued message) (time : ℚ) :
    recent user (⟨saved, .save userId message hvalued⟩ :: past) time =
      recent user past time :=
  if_neg fun hboth => h hboth.1

/-- At every time the lists hold the last hundred recent messages. -/
def Shows (lists : ExpiringLists) (past : List TimedCall) : Prop :=
  ∀ time, Refines (visible lists time) fun userId => recent userId past time

theorem saveMessageAt_ok (saved : ℚ) (lists : ExpiringLists) (userId : UserId)
    (hstorable : Storable message) :
    saveMessageAt saved lists userId message =
      .ok (lists.setex (historyKey userId) saved historyTtl
        (lastN 100 (visible lists saved (historyKey userId) ++ [entryText message]))) := by
  rw [saveMessageAt, saveMessage_ok (visible lists saved) userId hstorable]
  change Except.ok _ = _
  rw [Function.update_self]

theorem saveMessageAt_error (saved : ℚ) (lists : ExpiringLists) (userId : UserId)
    (hstorable : ¬ Storable message) :
    ∃ e, saveMessageAt saved lists userId message = .error e := by
  obtain ⟨e, he⟩ := saveMessage_error (visible lists saved) userId hstorable
  exact ⟨e, by rw [saveMessageAt, he]; rfl⟩

theorem Shows.save (h : Shows lists past) {saved : ℚ} (hvalued : JsonValued message)
    (hstorable : Storable message) :
    Shows (lists.setex (historyKey userId) saved historyTtl
        (lastN 100 (visible lists saved (historyKey userId) ++ [entryText message])))
      (⟨saved, .save userId message hvalued⟩ :: past) := by
  intro time
  -- the new list is what a save without expiry makes of the list at that time
  have hsaved := (h saved).save hvalued hstorable (saveMessage_ok _ userId hstorable)
  have hentries := hsaved.entries userId
  have hreadable := hsaved.readable userId
  rw [Function.update_self, HistoryLog.save_self] at hentries
  rw [HistoryLog.save_self] at hreadable
  constructor
  · intro user
    by_cases hown : userId = user
    · subst hown
      rw [visible_setex_self, hentries, recent_save_self hvalued hstorable]
      split
      · rfl
      · rfl
    · rw [visible_setex_of_ne (historyKey_injective.ne (Ne.symm hown)),
        recent_save_of_ne hown]
      exact (h time).entries user
  · intro user m hm
    by_cases hown : userId = user
    · subst hown
      rw [recent_save_self hvalued hstorable] at hm
      split at hm
      · exact hreadable m hm
      · cases hm
    · rw [recent_save_of_ne hown] at hm
      exact (h time).readable user m hm

/-- A save that raises, and the message that is not there because of it. -/
theorem Shows.notSaved (h : Shows lists past) {saved : ℚ} (hvalued : JsonValued message)
    (hstorable : ¬ Storable message) :
    Shows lists (⟨saved, .save userId message hvalued⟩ :: past) := by
  intro time
  have hsame : ∀ user, recent user (⟨saved, .save userId message hvalued⟩ :: past) time =
      recent user past time := fun user => if_neg fun hboth => hstorable hboth.2
  simp only [hsame]
  exact h time

theorem Shows.clear (h : Shows lists past) (cleared : ℚ) :
    Shows (clearHistoryAt lists userId) (⟨cleared, .clear userId⟩ :: past) := by
  intro time
  constructor
  · intro user
    by_cases hown : userId = user
    · subst hown
      rw [clearHistoryAt, visible_delete_self, recent, if_pos rfl]
      rfl
    · rw [clearHistoryAt, visible_delete_of_ne (historyKey_injective.ne (Ne.symm hown)),
        recent, if_neg hown]
      exact (h time).entries user
  · intro user m hm
    rw [recent] at hm
    split at hm
    · cases hm
    · exact (h time).readable user m hm

theorem Shows.run (h : Shows lists past) (timed : TimedCall) :
    Shows (timed.run lists) (timed :: past) := by
  obtain ⟨time, call⟩ := timed
  cases call with
  | save userId message hvalued =>
      by_cases hstorable : Storable message
      · simp only [TimedCall.run, saveMessageAt_ok time lists userId hstorable]
        exact h.save hvalued hstorable
      · obtain ⟨e, he⟩ := saveMessageAt_error time lists userId hstorable
        simp only [TimedCall.run, he]
        exact h.notSaved hvalued hstorable
  | clear userId => exact h.clear time

end Step

/-! ## Histories -/

theorem shows_run (calls : List TimedCall) :
    Shows (calls.foldl TimedCall.run Expiring.empty) calls.reverse := by
  induction calls using List.reverseRecOn with
  | nil => exact fun _ => refines_empty
  | append_singleton calls timed ih =>
      rw [List.foldl_append, List.reverse_append]
      exact ih.run timed

/-- One more call, at the end. -/
theorem savedSince_append (userId : UserId) (calls : List Call) (call : Call) :
    savedSince userId (calls ++ [call]) =
      if call.userId = userId then call.own (savedSince userId calls)
      else savedSince userId calls := by
  rw [savedSince, savedSince, List.filter_append, List.foldl_append]
  by_cases hown : call.userId = userId
  · rw [if_pos hown, List.filter_cons_of_pos (by simpa using hown)]
    rfl
  · rw [if_neg hown, List.filter_cons_of_neg (by simpa using hown)]
    rfl

/-- What is recent is the end of what was saved, and all of it if and only if
there was no pause. -/
theorem recent_of_savedSince (userId : UserId) (calls : List TimedCall) (time : ℚ) :
    recent userId calls.reverse time <:+ savedSince userId (calls.map TimedCall.call) ∧
      (recent userId calls.reverse time = savedSince userId (calls.map TimedCall.call) ↔
        Unbroken userId calls.reverse time) := by
  induction calls using List.reverseRecOn generalizing time with
  | nil => exact ⟨List.suffix_refl _, iff_of_true rfl trivial⟩
  | append_singleton calls timed ih =>
      obtain ⟨saved, call⟩ := timed
      rw [List.reverse_append, List.map_append, List.map_singleton, savedSince_append]
      change recent userId (⟨saved, call⟩ :: calls.reverse) time <:+ _ ∧
        (recent userId (⟨saved, call⟩ :: calls.reverse) time = _ ↔
          Unbroken userId (⟨saved, call⟩ :: calls.reverse) time)
      cases call with
      | save user message hvalued =>
          simp only [recent, Unbroken, Call.userId, Call.own]
          by_cases hown : user = userId
          · by_cases hstorable : Storable message
            · simp only [hown, hstorable, and_self, if_true]
              obtain ⟨hsuffix, hall⟩ := ih saved
              by_cases hlive : time < saved + historyTtl
              · simp only [hlive, if_true, true_and, List.append_left_inj]
                exact ⟨List.suffix_append_inj_of_length_eq rfl |>.mpr ⟨hsuffix, rfl⟩, hall⟩
              · simp [hlive]
            · simpa [hown, hstorable] using ih time
          · simpa [hown] using ih time
      | clear user =>
          simp only [recent, Unbroken, Call.userId, Call.own]
          by_cases hown : user = userId
          · simp [hown]
          · simpa [hown] using ih time

/-- After any calls at any times, reading a history gives the last of the
user's own messages since the last clearing and the last pause of seven days.
These are all messages since the last clearing if and only if there was no such
pause. -/
theorem getHistory_expiring (calls : List TimedCall) (userId : UserId) (time : ℚ)
    {limit : ℤ} (hlimit : 1 ≤ limit) :
    getHistoryAt time (calls.foldl TimedCall.run Expiring.empty) userId limit =
        .ok (lastN (min limit.toNat 100) (recent userId calls.reverse time)) ∧
      recent userId calls.reverse time <:+ savedSince userId (calls.map TimedCall.call) ∧
      (recent userId calls.reverse time = savedSince userId (calls.map TimedCall.call) ↔
        Unbroken userId calls.reverse time) := by
  obtain ⟨hsuffix, hall⟩ := recent_of_savedSince userId calls time
  exact ⟨(shows_run calls time).getHistory userId hlimit, hsuffix, hall⟩

/-- Two messages, eight days apart. -/
def pausedCalls : List TimedCall :=
  [⟨0, .save ⟨7⟩ { role := .user, content := "Why?" } (by decide)⟩,
    ⟨691200, .save ⟨7⟩ { role := .user, content := "Well?" } (by decide)⟩]

theorem getHistory_expiring_paused :
    getHistoryAt 691201 (pausedCalls.foldl TimedCall.run Expiring.empty) ⟨7⟩ 10 =
        .ok (lastN (min (10 : ℤ).toNat 100) (recent ⟨7⟩ pausedCalls.reverse 691201)) ∧
      recent ⟨7⟩ pausedCalls.reverse 691201 <:+
        savedSince ⟨7⟩ (pausedCalls.map TimedCall.call) ∧
      (recent ⟨7⟩ pausedCalls.reverse 691201 =
          savedSince ⟨7⟩ (pausedCalls.map TimedCall.call) ↔
        Unbroken ⟨7⟩ pausedCalls.reverse 691201) :=
  getHistory_expiring pausedCalls ⟨7⟩ 691201 (by decide)

end RedisChatHistoryRepository
end AiBackend
