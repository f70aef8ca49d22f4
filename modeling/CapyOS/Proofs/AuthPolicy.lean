import CapyOS.Security.AuthPolicy

namespace CapyOS.Proofs
open Lib Function List
variable {names : List Username} {w : Username} {call : LoginCall} {b : AuthAttempt}
variable {p : AuthPolicy} {u : Username} {ops : List AuthOp} {op : AuthOp} {a : AuthAttempt}

/-- A name that an entry keeps whole and that does not mark a free slot. -/
def UsernameFits (u : Username) : Prop := u ≠ [] ∧ u.length < authUsernameMax

instance : Decidable (UsernameFits u) := inferInstanceAs (Decidable (_ ∧ _))

def HasEntry (p : AuthPolicy) (u : Username) : Prop := ∃ i, (p.attempts i).username = u

/-- What every state reached holds: one entry a name, no unlocked entry at the limit,
free slots untouched. -/
structure PolicySound (p : AuthPolicy) : Prop where
  limit : 0 < p.config.maxAttempts
  once : ∀ i j, (p.attempts i).username ≠ [] →
    (p.attempts i).username = (p.attempts j).username → i = j
  counted : ∀ i, (p.attempts i).locked = false →
    (p.attempts i).failedCount < p.config.maxAttempts
  free : ∀ i, (p.attempts i).username = [] →
    (p.attempts i).failedCount = 0 ∧ (p.attempts i).locked = false

/-! Entries. -/

@[simp] theorem reclaim_username (a : AuthAttempt) (now : Nat) : (a.reclaim now).username = a.username := by
  unfold AuthAttempt.reclaim
  split <;> rfl

theorem reclaim_cases (a : AuthAttempt) (now : Nat) : (a.reclaim now = a ∧ (a.locked = true → now < a.lockoutUntilTick)) ∨
    ((a.reclaim now).failedCount = 0 ∧ (a.reclaim now).locked = false ∧ a.locked = true ∧ a.lockoutUntilTick ≤ now) := by
  unfold AuthAttempt.reclaim
  split
  · next h =>
    simp only [Bool.and_eq_true, decide_eq_true_eq] at h
    exact .inr ⟨rfl, rfl, h.1, h.2⟩
  · next h =>
    simp only [Bool.and_eq_true, decide_eq_true_eq, not_and, Nat.not_le] at h
    exact .inl ⟨rfl, h⟩

theorem reclaim_again (a : AuthAttempt) (now : Nat) : (a.reclaim now).reclaim now = a.reclaim now := by
  rcases reclaim_cases (a.reclaim now) now with ⟨h, -⟩ | ⟨-, -, hlocked, huntil⟩
  · exact h
  · rcases reclaim_cases a now with ⟨h, hkeep⟩ | ⟨-, hfree, -, -⟩
    · rw [h] at hlocked huntil
      have := hkeep hlocked
      omega
    · rw [hfree] at hlocked
      cases hlocked

theorem found_entry {i : Fin authMaxTrackedUsers}
    (h : p.findExisting u = some i) : (p.attempts i).username = u := by
  have hi := findSlot_some h
  simp only [apStreq, Bool.and_eq_true, decide_eq_true_eq] at hi
  exact hi.2

theorem missing_entry (hu : u ≠ [])
    (h : p.findExisting u = none) (i : Fin authMaxTrackedUsers) : (p.attempts i).username ≠ u := by
  intro hi
  have hmiss := findSlot_none h i
  simp [apStreq, hi, hu] at hmiss

theorem find_entry (h : PolicySound p) (hu : u ≠ [])
    {i : Fin authMaxTrackedUsers} (hi : (p.attempts i).username = u) : p.findExisting u = some i := by
  cases hs : p.findExisting u with
  | none => exact absurd hi (missing_entry hu hs i)
  | some j =>
    have hj := found_entry hs
    rw [h.once j i (by rw [hj]; exact hu) (hj.trans hi.symm)]

/-! How an operation for user `w` that reads the tick `t` changes a slot. -/

inductive EntryMove (w : Username) (t : Nat) (a b : AuthAttempt) : Prop
  | same : b = a → EntryMove w t a b
  | reclaimed : b = a.reclaim t → EntryMove w t a b
  | own : b.username = w →
      (a.username = w ∨ a.username = [] ∨ (a.reclaim t).locked = false) → EntryMove w t a b

theorem EntryMove.trans {t : Nat} {a b c : AuthAttempt} (h : EntryMove w t a b)
    (h' : EntryMove w t b c) : EntryMove w t a c := by
  cases h with
  | same hb => exact hb ▸ h'
  | reclaimed hb =>
    cases h' with
    | same hc => exact .reclaimed (hc.trans hb)
    | reclaimed hc => exact .reclaimed (by rw [hc, hb, reclaim_again])
    | own hc hor =>
      rw [hb, reclaim_username, reclaim_again] at hor
      exact .own hc hor
  | own hb hor =>
    cases h' with
    | same hc => exact .own (hc ▸ hb) hor
    | reclaimed hc => exact .own (by rw [hc, reclaim_username, hb]) hor
    | own hc _ => exact .own hc hor

theorem setAttempt_moves {i : Fin authMaxTrackedUsers}
    (t : Nat) (ha : a.username = w) (hi : (p.attempts i).username = w ∨ (p.attempts i).username = [] ∨
      ((p.attempts i).reclaim t).locked = false) (j : Fin authMaxTrackedUsers) :
    EntryMove w t (p.attempts j) ((p.setAttempt i a).attempts j) := by
  by_cases hj : j = i
  · subst hj
    exact .own (by simp [AuthPolicy.setAttempt, ha]) hi
  · exact .same (by simp [AuthPolicy.setAttempt, hj])

/-- An entry replaced by one of the same name, or of a name no slot has. -/
theorem PolicySound.set (h : PolicySound p) (i : Fin authMaxTrackedUsers)
    (ha : a.username ≠ [])
    (hname : (p.attempts i).username = a.username ∨ ∀ j, (p.attempts j).username ≠ a.username)
    (hcount : a.locked = false → a.failedCount < p.config.maxAttempts) : PolicySound (p.setAttempt i a) := by
  have hother : ∀ j, j ≠ i → (p.attempts j).username ≠ a.username := by
    intro j hji hj
    rcases hname with hi | hnew
    · exact hji (h.once j i (by rw [hj]; exact ha) (hj.trans hi.symm))
    · exact hnew j hj
  refine ⟨h.limit, fun j k hj hjk => ?_, fun j hj => ?_, fun j hj => ?_⟩
  · simp only [AuthPolicy.setAttempt] at hj hjk
    by_cases hji : j = i <;> by_cases hki : k = i
    · rw [hji, hki]
    · rw [hji, update_self, update_of_ne hki] at hjk
      exact absurd hjk.symm (hother k hki)
    · rw [hki, update_self, update_of_ne hji] at hjk
      exact absurd hjk (hother j hji)
    · rw [update_of_ne hji] at hj hjk
      rw [update_of_ne hki] at hjk
      exact h.once j k hj hjk
  · simp only [AuthPolicy.setAttempt] at hj ⊢
    by_cases hji : j = i
    · subst hji
      rw [update_self] at hj ⊢
      exact hcount hj
    · rw [update_of_ne hji] at hj ⊢
      exact h.counted j hj
  · simp only [AuthPolicy.setAttempt] at hj ⊢
    by_cases hji : j = i
    · subst hji
      rw [update_self] at hj
      exact absurd hj ha
    · rw [update_of_ne hji] at hj ⊢
      exact h.free j hj

theorem reclaim_counted (h : PolicySound p) (i : Fin authMaxTrackedUsers)
    (now : Nat) (hi : ((p.attempts i).reclaim now).locked = false) :
    ((p.attempts i).reclaim now).failedCount < p.config.maxAttempts := by
  rcases reclaim_cases (p.attempts i) now with ⟨heq, -⟩ | ⟨hzero, -, -, -⟩
  · rw [heq] at hi ⊢
    exact h.counted i hi
  · rw [hzero]
    exact h.limit

/-! The operations of the policy. -/

theorem lruIdx_unlocked {i : Fin authMaxTrackedUsers} (h : p.lruIdx = some i) :
    (p.attempts i).locked = false := by
  have hloop : ∀ (l : List (Fin authMaxTrackedUsers)) (lru : Nat × Option (Fin authMaxTrackedUsers)),
      (∀ k, lru.2 = some k → (p.attempts k).locked = false) →
      ∀ k, (l.foldl (fun (lru : Nat × Option (Fin authMaxTrackedUsers)) i =>
        if (p.attempts i).locked then lru
        else if (p.attempts i).lastFailTick < lru.1 then ((p.attempts i).lastFailTick, some i)
        else lru) lru).2 = some k → (p.attempts k).locked = false := by
    intro l
    induction l with
    | nil => exact fun lru hlru => hlru
    | cons j l ih =>
      intro lru hlru
      refine ih _ fun k hk => ?_
      beta_reduce at hk
      split at hk
      · exact hlru k hk
      · next hj =>
        split at hk
        · cases hk
          simpa using hj
        · exact hlru k hk
  exact hloop _ _ (fun k hk => by cases hk) i h

theorem findOrAlloc_spec (h : PolicySound p) (hu : UsernameFits u) (now : Nat) :
    PolicySound (p.findOrAlloc now u).2 ∧ (p.findOrAlloc now u).2.config = p.config ∧
    (∀ j, EntryMove u now (p.attempts j) ((p.findOrAlloc now u).2.attempts j)) ∧
    ((p.findOrAlloc now u).1 = none → ¬ HasEntry (p.findOrAlloc now u).2 u) ∧ ∀ i, (p.findOrAlloc now u).1 = some i →
      ((p.findOrAlloc now u).2.attempts i).username = u ∧ (((p.attempts i).username = u ∧ (p.findOrAlloc now u).2 = p) ∨
        (¬ HasEntry p u ∧ ((p.findOrAlloc now u).2.attempts i).failedCount = 0 ∧
          ((p.findOrAlloc now u).2.attempts i).locked = false)) := by
  have hcopy : apStrcpy u authUsernameMax = u := take_of_length_le (Nat.le_sub_one_of_lt hu.2)
  unfold AuthPolicy.findOrAlloc
  split
  · next i hfound =>
    refine ⟨h, rfl, fun j => .same rfl, fun hnone => (nomatch hnone), fun k hk => ?_⟩
    cases hk
    exact ⟨found_entry hfound, .inl ⟨found_entry hfound, rfl⟩⟩
  · next hmissing =>
    have hnone := missing_entry hu.1 hmissing
    have huntracked : ¬ HasEntry p u := fun ⟨i, hi⟩ => hnone i hi
    rw [hcopy]
    split
    · next i hfree =>
      have hi : (p.attempts i).username = [] := by simpa using findSlot_some hfree
      have hpristine := h.free i hi
      refine ⟨h.set i hu.1 (.inr hnone) fun _ => ?_, rfl,
        setAttempt_moves now rfl (.inr (.inl hi)), fun hnone => (nomatch hnone), fun k hk => ?_⟩
      · rw [hpristine.1]
        exact h.limit
      · cases hk
        simp [AuthPolicy.setAttempt, huntracked, hpristine]
    · next hfull =>
      -- a full table: expired locks are reset before an entry is given up
      have hreclaimed : PolicySound { p with attempts := fun i => (p.attempts i).reclaim now } := by
        refine ⟨h.limit, fun i j hi hij => ?_, fun i hi => reclaim_counted h i now hi,
          fun i hi => ?_⟩
        · simp only [reclaim_username] at hi hij
          exact h.once i j hi hij
        · simp only [reclaim_username] at hi
          have hfilled := findSlot_none hfull i
          simp [hi] at hfilled
      dsimp only
      split
      · exact ⟨hreclaimed, rfl, fun j => .reclaimed rfl,
          fun _ ⟨k, hk⟩ => hnone k (by simpa using hk), fun k hk => by cases hk⟩
      · next i hlru =>
        have hunlocked : ((p.attempts i).reclaim now).locked = false :=
          lruIdx_unlocked hlru
        refine ⟨hreclaimed.set i hu.1 (.inr fun j => by simpa using hnone j) fun _ => h.limit, rfl,
          fun j => ?_, fun hnone => (nomatch hnone), fun k hk => ?_⟩
        · exact (EntryMove.reclaimed rfl).trans (setAttempt_moves
            (p := { p with attempts := fun i => (p.attempts i).reclaim now })
            (a := { AuthAttempt.zero with username := u }) now rfl
            (.inr (.inr (by rw [reclaim_again]; exact hunlocked))) j)
        · cases hk
          simp [AuthPolicy.setAttempt, huntracked, AuthAttempt.zero]

theorem checkAllowed_spec (h : PolicySound p) (hu : u ≠ []) (now : Nat) :
    PolicySound (p.authPolicyCheckAllowed now u).2 ∧ (p.authPolicyCheckAllowed now u).2.config = p.config ∧
    (∀ t j, EntryMove u t (p.attempts j) ((p.authPolicyCheckAllowed now u).2.attempts j)) ∧ (∀ i, (p.attempts i).username = u →
      (p.authPolicyCheckAllowed now u).1 = !((p.attempts i).reclaim now).locked ∧
      (p.authPolicyCheckAllowed now u).2.attempts i = (p.attempts i).reclaim now) ∧
    (¬ HasEntry p u → p.authPolicyCheckAllowed now u = (true, p)) := by
  unfold AuthPolicy.authPolicyCheckAllowed
  split
  · next hmissing =>
    exact ⟨h, rfl, fun t j => .same rfl, fun i hi => absurd hi (missing_entry hu hmissing i),
      fun _ => rfl⟩
  · next i hfound =>
    have hi := found_entry hfound
    refine ⟨h.set i (by simpa [hi] using hu) (.inl (by simp)) fun hfree =>
      reclaim_counted h i now hfree, rfl, fun t => setAttempt_moves t (by simpa using hi) (.inl hi), fun k hk => ?_,
      fun hnone => absurd ⟨i, hi⟩ hnone⟩
    have hki : k = i := h.once k i (by rw [hk]; exact hu) (hk.trans hi.symm)
    subst hki
    exact ⟨rfl, by simp [AuthPolicy.setAttempt]⟩

theorem clearAttempt_spec (h : PolicySound p) (hu : u ≠ []) :
    PolicySound (p.clearAttempt u) ∧ (p.clearAttempt u).config = p.config ∧
    ∀ t j, EntryMove u t (p.attempts j) ((p.clearAttempt u).attempts j) := by
  unfold AuthPolicy.clearAttempt
  split
  · exact ⟨h, rfl, fun t j => .same rfl⟩
  · next i hfound =>
    have hi := found_entry hfound
    exact ⟨h.set i (by simpa [hi] using hu) (.inl rfl) fun _ => h.limit, rfl,
      fun t => setAttempt_moves t hi (.inl hi)⟩

structure FailedFrom (p : AuthPolicy) (u : Username) (tick c : Nat) (b : AuthAttempt) : Prop where
  username : b.username = u
  under : c < p.config.maxAttempts
  limit : p.config.maxAttempts ≤ c + 1 → b.locked = true ∧
    b.lockoutUntilTick = (tick + p.config.lockoutDurationTicks) % 2 ^ 64
  below : c + 1 < p.config.maxAttempts → b.locked = false ∧ b.failedCount = c + 1

theorem FailedFrom.congr {p q : AuthPolicy} {tick c : Nat}
    (h : FailedFrom p u tick c b) (hconfig : p.config = q.config) : FailedFrom q u tick c b :=
  ⟨h.username, hconfig ▸ h.under, hconfig ▸ h.limit, hconfig ▸ h.below⟩

theorem failOnce_from (hfree : a.locked = false)
    (hcount : a.failedCount < p.config.maxAttempts) (tick : Nat) :
    FailedFrom p a.username tick a.failedCount (p.failOnce a tick) := by
  have hmax := p.config.maxAttempts_lt
  have hsum : (a.failedCount + 1) % 2 ^ 32 = a.failedCount + 1 := Nat.mod_eq_of_lt (by omega)
  unfold AuthPolicy.failOnce
  rw [hsum]
  dsimp only
  split
  · next hge => exact ⟨rfl, hcount, fun _ => ⟨rfl, rfl⟩, fun hlt => by omega⟩
  · next hlt => exact ⟨rfl, hcount, fun hge => absurd hge hlt, fun _ => ⟨hfree, rfl⟩⟩

theorem recordFailure_spec (h : PolicySound p) (hu : UsernameFits u)
    (hfree : ∀ i, (p.attempts i).username = u → (p.attempts i).locked = false) (allocTick failTick : Nat) :
    PolicySound (p.authPolicyRecordFailure allocTick failTick u) ∧
    (p.authPolicyRecordFailure allocTick failTick u).config = p.config ∧ (∀ j, EntryMove u allocTick (p.attempts j)
      ((p.authPolicyRecordFailure allocTick failTick u).attempts j)) ∧
    (HasEntry (p.authPolicyRecordFailure allocTick failTick u) u → ∃ i c,
      FailedFrom p u failTick c ((p.authPolicyRecordFailure allocTick failTick u).attempts i) ∧
      ∀ k, (p.attempts k).username = u → c = (p.attempts k).failedCount) := by
  obtain ⟨hsound, hconfig, hmoves, hrefused, hslot⟩ := findOrAlloc_spec h hu allocTick
  unfold AuthPolicy.authPolicyRecordFailure
  generalize p.findOrAlloc allocTick u = alloc at hsound hconfig hmoves hrefused hslot
  obtain ⟨slot, after⟩ := alloc
  cases slot with
  | none => exact ⟨hsound, hconfig, hmoves, fun htracked => absurd htracked (hrefused rfl)⟩
  | some i =>
    obtain ⟨hname, horigin⟩ := hslot i rfl
    have hunlocked : (after.attempts i).locked = false := by
      rcases horigin with ⟨hi, hsame⟩ | ⟨-, -, hl⟩
      · dsimp only at hsame
        rw [hsame]
        exact hfree i hi
      · exact hl
    have hcount : (after.attempts i).failedCount < p.config.maxAttempts := by
      have := hsound.counted i hunlocked
      rwa [hconfig] at this
    have hfrom := failOnce_from hunlocked hcount failTick
    have hset := hsound.set i (a := p.failOnce (after.attempts i) failTick)
      (by rw [hfrom.username, hname]; exact hu.1) (.inl hfrom.username.symm) fun hl => by
        rw [hconfig]
        by_cases hlast : p.config.maxAttempts ≤ (after.attempts i).failedCount + 1
        · rw [(hfrom.limit hlast).1] at hl
          cases hl
        · have := (hfrom.below (by omega)).2
          omega
    refine ⟨hset, hconfig, fun j => (hmoves j).trans
      (setAttempt_moves allocTick (hfrom.username.trans hname) (.inl hname) j), fun _ => ?_⟩
    refine ⟨i, (after.attempts i).failedCount, ?_, fun k hk => ?_⟩
    · rw [hname] at hfrom
      simpa [AuthPolicy.setAttempt] using hfrom
    · rcases horigin with ⟨hi, hsame⟩ | ⟨hnone, -, -⟩
      · have hki := h.once k i (by rw [hk]; exact hu.1) (hk.trans hi.symm)
        dsimp only at hsame
        rw [hsame, hki]
      · exact absurd ⟨k, hk⟩ hnone

/-! One operation. -/

/-- What a login of `u` does, by its answer. -/
inductive LoginDone (p : AuthPolicy) (call : LoginCall) : AuthAnswer → AuthPolicy → Prop
  | locked (i : Fin authMaxTrackedUsers) (after : AuthPolicy)
      (hi : (p.attempts i).username = call.username) (hlocked : (p.attempts i).locked = true)
      (huntil : call.checkTick < (p.attempts i).lockoutUntilTick)
      (hsame : after.attempts i = p.attempts i) : LoginDone p call .locked after
  | ok (after : AuthPolicy) : LoginDone p call .ok after
  | failed (after : AuthPolicy)
      (hopen : ∀ i, (p.attempts i).username = call.username → (p.attempts i).locked = true →
        (p.attempts i).lockoutUntilTick ≤ call.checkTick)
      (hcount : HasEntry after call.username → ∃ i c,
        FailedFrom p call.username call.failTick c (after.attempts i) ∧
        ∀ k, (p.attempts k).username = call.username → (p.attempts k).locked = false →
          c = (p.attempts k).failedCount) : LoginDone p call .failed after

theorem login_spec (h : PolicySound p) (hu : UsernameFits call.username) :
    PolicySound (p.step (.login call)) ∧ (p.step (.login call)).config = p.config ∧
    (∀ j, EntryMove call.username call.allocTick (p.attempts j) ((p.step (.login call)).attempts j)) ∧
    LoginDone p call (p.userdbAuthenticateWithPolicy call).1 (p.step (.login call)) := by
  obtain ⟨hsound, hconfig, hmoves, hown, hnew⟩ := checkAllowed_spec h hu.1 call.checkTick
  obtain ⟨allowed, checked, hcheck⟩ :
      ∃ a c, p.authPolicyCheckAllowed call.checkTick call.username = (a, c) := ⟨_, _, rfl⟩
  rw [hcheck] at hsound hconfig hmoves hown hnew
  dsimp only at hsound hconfig hmoves hown hnew
  simp only [AuthPolicy.step, AuthPolicy.userdbAuthenticateWithPolicy, hcheck]
  cases allowed with
  | false =>
    refine ⟨hsound, hconfig, hmoves _, ?_⟩
    by_cases htracked : HasEntry p call.username
    · obtain ⟨i, hi⟩ := htracked
      obtain ⟨hallowed, hentry⟩ := hown i hi
      rcases reclaim_cases (p.attempts i) call.checkTick with ⟨hsame, hkept⟩ | ⟨-, hfree, -, -⟩
      · have hlocked : (p.attempts i).locked = true := by simpa [hsame] using hallowed.symm
        exact .locked i checked hi hlocked (hkept hlocked) (hentry.trans hsame)
      · rw [hfree] at hallowed
        cases hallowed
    · cases hnew htracked
  | true =>
    -- an allowed user has no entry with a lock any more
    have hopen : ∀ i, (checked.attempts i).username = call.username →
        (checked.attempts i).locked = false := by
      intro i hi
      by_cases htracked : HasEntry p call.username
      · obtain ⟨k, hk⟩ := htracked
        obtain ⟨hallowed, hentry⟩ := hown k hk
        have hik : i = k := hsound.once i k (by rw [hi]; exact hu.1) (by simp [hi, hentry, hk])
        rw [hik, hentry]
        simpa using hallowed
      · cases hnew htracked
        exact absurd ⟨i, hi⟩ htracked
    cases hacc : call.accepted with
    | true =>
      obtain ⟨hsound', hconfig', hmoves'⟩ := clearAttempt_spec hsound hu.1
      exact ⟨hsound', hconfig'.trans hconfig, fun j => (hmoves _ j).trans (hmoves' _ j), .ok _⟩
    | false =>
      obtain ⟨hsound', hconfig', hmoves', hcount⟩ :=
        recordFailure_spec hsound hu hopen call.allocTick call.failTick
      refine ⟨hsound', hconfig'.trans hconfig, fun j => (hmoves _ j).trans (hmoves' j),
        .failed _ (fun k hk hlocked => ?_) fun htracked => ?_⟩
      · obtain ⟨hallowed, -⟩ := hown k hk
        rcases reclaim_cases (p.attempts k) call.checkTick with ⟨hsame, -⟩ | ⟨-, -, -, huntil⟩
        · rw [hsame, hlocked] at hallowed
          cases hallowed
        · exact huntil
      · obtain ⟨i, c, hfrom, hc⟩ := hcount htracked
        refine ⟨i, c, hfrom.congr hconfig, fun k hk hfree => ?_⟩
        have hentry := (hown k hk).2
        have hsame : (p.attempts k).reclaim call.checkTick = p.attempts k := by
          simp [AuthAttempt.reclaim, hfree]
        rw [hc k (by rw [hentry, reclaim_username, hk]), hentry, hsame]

theorem policyStep_sound (h : PolicySound p) (hop : UsernameFits op.username) :
    PolicySound (p.step op) ∧ (p.step op).config = p.config := by
  cases op with
  | login call =>
    obtain ⟨hsound, hconfig, -⟩ := login_spec h hop
    exact ⟨hsound, hconfig⟩
  | unlock u =>
    obtain ⟨hsound, hconfig, -⟩ := clearAttempt_spec h hop.1
    exact ⟨hsound, hconfig⟩

theorem policyRun_sound (h : PolicySound p) (hops : ∀ op ∈ ops, UsernameFits op.username) :
    PolicySound (p.run ops) ∧ (p.run ops).config = p.config := by
  induction ops generalizing p with
  | nil => exact ⟨h, rfl⟩
  | cons op ops ih =>
    obtain ⟨hsound, hconfig⟩ := policyStep_sound h (hops op mem_cons_self)
    obtain ⟨hsound', hconfig'⟩ := ih hsound fun o ho => hops o (mem_cons_of_mem _ ho)
    exact ⟨hsound', hconfig'.trans hconfig⟩

/-- What becomes of the entry of another user: it stays, its expired lock is reset,
or it was given up without a lock in force. -/
theorem policyStep_other (h : PolicySound p) (hop : UsernameFits op.username)
    {i : Fin authMaxTrackedUsers} (hi : (p.attempts i).username = u) (hu : u ≠ []) (hne : op.username ≠ u) :
    (p.step op).attempts i = p.attempts i ∨ (∃ t ∈ op.ticks, (p.step op).attempts i = (p.attempts i).reclaim t) ∨
    (∃ t ∈ op.ticks, ((p.attempts i).reclaim t).locked = false) ∧ ¬ HasEntry (p.step op) u := by
  cases op with
  | login call =>
    obtain ⟨-, -, hmoves, -⟩ := login_spec h hop
    have htick : call.allocTick ∈ (AuthOp.login call).ticks := by simp [AuthOp.ticks]
    cases hmoves i with
    | same hs => exact .inl hs
    | reclaimed hs => exact .inr (.inl ⟨_, htick, hs⟩)
    | own hown hor =>
      rcases hor with hname | hname | hfree
      · exact absurd (hname.symm.trans hi) hne
      · exact absurd (hi.symm.trans hname) hu
      · refine .inr (.inr ⟨⟨_, htick, hfree⟩, fun ⟨k, hk⟩ => ?_⟩)
        -- another slot of the name would have been one before
        have hki : (p.attempts k).username = u → k = i := fun hpk =>
          h.once k i (by rw [hpk]; exact hu) (hpk.trans hi.symm)
        cases hmoves k with
        | same hs =>
          obtain rfl := hki (hs ▸ hk)
          exact hne (hown.symm.trans hk)
        | reclaimed hs =>
          obtain rfl := hki (by rw [← hk, hs, reclaim_username])
          exact hne (hown.symm.trans hk)
        | own hs _ => exact hne (hs.symm.trans hk)
  | unlock w =>
    refine .inl ?_
    change (p.clearAttempt w).attempts i = p.attempts i
    unfold AuthPolicy.clearAttempt
    split
    · rfl
    · next k hfound =>
      have hki : i ≠ k := by
        rintro rfl
        exact hne ((found_entry hfound).symm.trans hi)
      simp [AuthPolicy.setAttempt, hki]

/-! Names in the table. -/

/-- The table has no place for the name: every entry is another's. -/
def AttemptsFull (p : AuthPolicy) (w : Username) : Prop :=
  ∀ i, (p.attempts i).username ≠ [] ∧ (p.attempts i).username ≠ w

/-- A call for `w` gives its name to no entry but a free one, or one of a full table. -/
def Renamed (w : Username) (p q : AuthPolicy) : Prop :=
  ∀ j, (q.attempts j).username = (p.attempts j).username ∨
    (q.attempts j).username = w ∧ ((p.attempts j).username = [] ∨ AttemptsFull p w)

theorem renamed_set {i : Fin authMaxTrackedUsers} (ha : a.username = (p.attempts i).username ∨
      a.username = w ∧ ((p.attempts i).username = [] ∨ AttemptsFull p w)) : Renamed w p (p.setAttempt i a) := by
  intro j
  by_cases hj : j = i
  · subst hj
    simpa [AuthPolicy.setAttempt] using ha
  · exact .inl (by simp [AuthPolicy.setAttempt, hj])

theorem findOrAlloc_names (hu : UsernameFits u) (now : Nat) :
    Renamed u p (p.findOrAlloc now u).2 ∧ ((p.findOrAlloc now u).1 = none → AttemptsFull p u) ∧
      ∀ i, (p.findOrAlloc now u).1 = some i → ((p.findOrAlloc now u).2.attempts i).username = u := by
  have hcopy : apStrcpy u authUsernameMax = u := take_of_length_le (Nat.le_sub_one_of_lt hu.2)
  unfold AuthPolicy.findOrAlloc
  split
  · next i hfound =>
    exact ⟨fun j => .inl rfl, fun hnone => (nomatch hnone), fun k hk => Option.some.inj hk ▸ found_entry hfound⟩
  · next hmissing =>
    rw [hcopy]
    split
    · next i hfree =>
      exact ⟨renamed_set (.inr ⟨rfl, .inl (by simpa using findSlot_some hfree)⟩), fun hnone => (nomatch hnone),
        fun k hk => Option.some.inj hk ▸ (by simp [AuthPolicy.setAttempt])⟩
    · next hfull =>
      have hfull : AttemptsFull p u := fun i => ⟨by simpa using findSlot_none hfull i, missing_entry hu.1 hmissing i⟩
      dsimp only
      split
      · exact ⟨fun j => .inl (reclaim_username _ _), fun _ => hfull, fun k hk => (by cases hk)⟩
      · next i _ =>
        refine ⟨fun j => ?_, fun hnone => (nomatch hnone),
          fun k hk => Option.some.inj hk ▸ (by simp [AuthPolicy.setAttempt])⟩
        by_cases hj : j = i
        · exact .inr ⟨by simp [AuthPolicy.setAttempt, hj], .inr hfull⟩
        · exact .inl (by simp [AuthPolicy.setAttempt, hj])

theorem login_names (hu : UsernameFits call.username) :
    Renamed call.username p (p.step (.login call)) ∧ ((p.userdbAuthenticateWithPolicy call).1 = .failed →
      ¬AttemptsFull p call.username → HasEntry (p.step (.login call)) call.username) := by
  obtain ⟨allowed, checked, hcheck⟩ :
      ∃ a c, p.authPolicyCheckAllowed call.checkTick call.username = (a, c) := ⟨_, _, rfl⟩
  have hsame : ∀ j, (checked.attempts j).username = (p.attempts j).username := by
    unfold AuthPolicy.authPolicyCheckAllowed at hcheck
    split at hcheck
    · cases hcheck
      exact fun j => rfl
    · next i _ =>
      cases hcheck
      intro j
      by_cases hj : j = i <;> simp [AuthPolicy.setAttempt, hj]
  simp only [AuthPolicy.step, AuthPolicy.userdbAuthenticateWithPolicy, hcheck]
  cases allowed with
  | false => exact ⟨fun j => .inl (hsame j), fun h => (by cases h)⟩
  | true =>
    cases hacc : call.accepted with
    | true =>
      refine ⟨fun j => .inl ?_, fun h => (by cases h)⟩
      simp only [Bool.not_true, Bool.false_eq_true, if_false, if_true, AuthPolicy.authPolicyRecordSuccess,
        AuthPolicy.clearAttempt]
      split
      · exact hsame j
      · next i _ => by_cases hj : j = i <;> simp [AuthPolicy.setAttempt, hj, hsame]
    | false =>
      obtain ⟨hnames, hnone, htaken⟩ := findOrAlloc_names (p := checked) hu call.allocTick
      have hfull : AttemptsFull checked call.username → AttemptsFull p call.username := fun h i => hsame i ▸ h i
      simp only [Bool.not_true, Bool.false_eq_true, if_false, AuthPolicy.authPolicyRecordFailure]
      generalize checked.findOrAlloc call.allocTick call.username = s at hnames hnone htaken ⊢
      obtain ⟨slot, after⟩ := s
      have hafter : Renamed call.username p after := fun j => by
        rw [← hsame j]
        exact (hnames j).imp_right fun h => ⟨h.1, h.2.imp_right hfull⟩
      cases slot with
      | none => exact ⟨hafter, fun _ hroom => absurd (hfull (hnone rfl)) hroom⟩
      | some i =>
        have hname : ∀ tick, (checked.failOnce (after.attempts i) tick).username = (after.attempts i).username := by
          intro tick
          unfold AuthPolicy.failOnce
          dsimp only
          split <;> rfl
        refine ⟨fun j => ?_, fun _ _ => ⟨i, by simpa [AuthPolicy.setAttempt, hname] using htaken i rfl⟩⟩
        by_cases hj : j = i
        · subst hj
          simpa [AuthPolicy.setAttempt, hname] using hafter j
        · simpa [AuthPolicy.setAttempt, hj] using hafter j

theorem step_names (hop : UsernameFits op.username) : Renamed op.username p (p.step op) := by
  cases op with
  | login call => exact (login_names hop).1
  | unlock w =>
    refine fun j => .inl ?_
    change ((p.clearAttempt w).attempts j).username = _
    unfold AuthPolicy.clearAttempt
    split
    · rfl
    · next i _ => by_cases hj : j = i <;> simp [AuthPolicy.setAttempt, hj]

/-- All names, `u` apart, that have an entry or get a call; there are fewer than entries. -/
structure Uncrowded (u : Username) (p : AuthPolicy) (ops : List AuthOp) (names : List Username) : Prop where
  few : names.length < authMaxTrackedUsers
  tracked : ∀ i, (p.attempts i).username ≠ [] → (p.attempts i).username ∈ u :: names
  called : ∀ op ∈ ops, op.username ∈ u :: names

/-- A full table would have a name too many. -/
theorem Uncrowded.room (h : Uncrowded u p ops names) (hsound : PolicySound p)
    (hw : w ∈ u :: names) : ¬AttemptsFull p w := by
  intro hfull
  have hinj : Injective fun i => (p.attempts i).username := fun i j hij => hsound.once i j (hfull i).1 hij
  have hsub : Finset.univ.image (fun i => (p.attempts i).username) ⊆ (u :: names).toFinset.erase w := by
    intro name hname
    obtain ⟨i, -, rfl⟩ := Finset.mem_image.mp hname
    exact Finset.mem_erase.mpr ⟨(hfull i).2, mem_toFinset.mpr (h.tracked i (hfull i).1)⟩
  have hcard := Finset.card_le_card hsub
  rw [Finset.card_image_of_injective _ hinj, Finset.card_univ, Fintype.card_fin,
    Finset.card_erase_of_mem (mem_toFinset.mpr hw)] at hcard
  have hlist := toFinset_card_le (u :: names)
  have hfew := h.few
  rw [length_cons] at hlist
  omega

theorem Uncrowded.step {names : List Username} (h : Uncrowded u p (op :: ops) names) (hop : UsernameFits op.username) :
    Uncrowded u (p.step op) ops names where
  few := h.few
  called op' hop' := h.called op' (mem_cons_of_mem _ hop')
  tracked i hi := by
    rcases step_names (p := p) hop i with hs | ⟨hs, -⟩
    · rw [hs] at hi ⊢
      exact h.tracked i hi
    · rw [hs]
      exact h.called op mem_cons_self

theorem Uncrowded.keeps (h : Uncrowded u p (op :: ops) names) (hsound : PolicySound p)
    (hop : UsernameFits op.username) (hu : u ≠ []) (hentry : HasEntry p u) : HasEntry (p.step op) u := by
  obtain ⟨i, hi⟩ := hentry
  rcases step_names (p := p) hop i with hs | ⟨-, hs | hfull⟩
  · exact ⟨i, hs.trans hi⟩
  · exact absurd (hi.symm.trans hs) hu
  · exact absurd hfull (h.room hsound (h.called op mem_cons_self))

/-! Runs. -/

def ticksOf (ops : List AuthOp) : List Nat := ops.flatMap AuthOp.ticks

def StaysTracked (u : Username) (p : AuthPolicy) : List AuthOp → Prop
  | [] => HasEntry p u
  | op :: ops => HasEntry p u ∧ StaysTracked u (p.step op) ops

def KeepsEntry (u : Username) (p : AuthPolicy) : List AuthOp → Prop
  | [] => True
  | op :: ops =>
    (.failed ∈ p.answerTo u op → StaysTracked u (p.step op) ops) ∧ KeepsEntry u (p.step op) ops

theorem StaysTracked.now (h : StaysTracked u p ops) : HasEntry p u := by
  cases ops with
  | nil => exact h
  | cons op ops => exact h.1

theorem Uncrowded.stays (h : Uncrowded u p ops names) (hsound : PolicySound p)
    (hops : ∀ op ∈ ops, UsernameFits op.username) (hu : u ≠ []) (hentry : HasEntry p u) : StaysTracked u p ops := by
  induction ops generalizing p with
  | nil => exact hentry
  | cons op ops ih =>
    have hop := hops op mem_cons_self
    exact ⟨hentry, ih (h.step hop) (policyStep_sound hsound hop).1 (fun o ho => hops o (mem_cons_of_mem _ ho))
      (h.keeps hsound hop hu hentry)⟩

/-- While there is room, a failed login of a user makes an entry, which stays. -/
theorem Uncrowded.keepsEntry (h : Uncrowded u p ops names) (hsound : PolicySound p)
    (hops : ∀ op ∈ ops, UsernameFits op.username) (hu : u ≠ []) : KeepsEntry u p ops := by
  induction ops generalizing p with
  | nil => trivial
  | cons op ops ih =>
    have hop := hops op mem_cons_self
    have hops' : ∀ o ∈ ops, UsernameFits o.username := fun o ho => hops o (mem_cons_of_mem _ ho)
    have hnext := (policyStep_sound hsound hop).1
    refine ⟨fun hfailed => (h.step hop).stays hnext hops' hu ?_, ih (h.step hop) hnext hops'⟩
    cases op with
    | unlock w => cases hfailed
    | login call =>
      obtain rfl : call.username = u := by
        by_contra hne
        rw [AuthPolicy.answerTo, if_neg hne] at hfailed
        cases hfailed
      rw [AuthPolicy.answerTo, if_pos rfl] at hfailed
      exact (login_names hop).2 (List.mem_singleton.mp hfailed).symm (h.room hsound mem_cons_self)

/-- The entry allows at most `n` failures while the ticks are those given. -/
inductive GuessBudget (limit : Nat) (a : AuthAttempt) (ticks : List Nat) (n : Nat) : Prop
  | held : a.locked = true → (∀ t ∈ ticks, t < a.lockoutUntilTick) → GuessBudget limit a ticks n
  | counting : a.locked = false → limit ≤ a.failedCount + n → GuessBudget limit a ticks n
  | anew : limit ≤ n → GuessBudget limit a ticks n

def WithinLockout (d : Nat) (ticks : List Nat) : Prop :=
  (∀ t ∈ ticks, ∀ t' ∈ ticks, t' < t + d) ∧ ∀ t ∈ ticks, t + d < 2 ^ 64

theorem GuessBudget.failed {tick c n : Nat}
    (h : FailedFrom p u tick c b) {ticks rest : List Nat}
    (hwithin : WithinLockout p.config.lockoutDurationTicks ticks) (htick : tick ∈ ticks)
    (hrest : ∀ t ∈ rest, t ∈ ticks) (hn : p.config.maxAttempts ≤ c + (n + 1)) : GuessBudget p.config.maxAttempts b rest n := by
  by_cases hlast : p.config.maxAttempts ≤ c + 1
  · obtain ⟨hlocked, huntil⟩ := h.limit hlast
    refine .held hlocked fun t ht => ?_
    rw [huntil, Nat.mod_eq_of_lt (hwithin.2 tick htick)]
    exact hwithin.1 tick htick t (hrest t ht)
  · obtain ⟨hfree, hcount⟩ := h.below (by omega)
    exact .counting hfree (by omega)

theorem answerTo_other (hne : op.username ≠ u) : p.answerTo u op = [] := by
  cases op with
  | login call => exact if_neg hne
  | unlock w => rfl

theorem answerTo_login (p : AuthPolicy) (call : LoginCall) :
    p.answerTo call.username (.login call) = [(p.userdbAuthenticateWithPolicy call).1] :=
  if_pos rfl

theorem GuessBudget.later {limit n : Nat} {a : AuthAttempt} {ticks rest : List Nat}
    (h : GuessBudget limit a (ticks ++ rest) n) : GuessBudget limit a rest n := by
  cases h with
  | held hlocked huntil => exact .held hlocked fun t ht => huntil t (mem_append_right _ ht)
  | counting hfree hn => exact .counting hfree hn
  | anew hn => exact .anew hn

/-- Another user's operation leaves the budget of a tracked user as it was. -/
theorem GuessBudget.other (h : PolicySound p) (hop : UsernameFits op.username)
    {i : Fin authMaxTrackedUsers} (hu : (p.attempts i).username ≠ []) (hne : op.username ≠ (p.attempts i).username)
    (htracked : HasEntry (p.step op) (p.attempts i).username) {limit n : Nat} {rest : List Nat}
    (hbudget : GuessBudget limit (p.attempts i) (op.ticks ++ rest) n) :
    ((p.step op).attempts i).username = (p.attempts i).username ∧ GuessBudget limit ((p.step op).attempts i) rest n := by
  rcases policyStep_other h hop rfl hu hne with hs | ⟨t, ht, hs⟩ | ⟨-, hgone⟩
  · rw [hs]
    exact ⟨rfl, hbudget.later⟩
  · refine ⟨by rw [hs, reclaim_username], ?_⟩
    rcases reclaim_cases (p.attempts i) t with ⟨hsame, -⟩ | ⟨-, -, hlocked, huntil⟩
    · rw [hs, hsame]
      exact hbudget.later
    · -- a lock that has run out left the budget of an unlocked entry
      cases hbudget with
      | held _ hheld =>
        have := hheld t (mem_append_left _ ht)
        omega
      | counting hfree _ => rw [hfree] at hlocked; cases hlocked
      | anew hn => exact .anew hn
  · exact absurd htracked hgone

theorem failures_within_budget (h : PolicySound p) (hu : u ≠ [])
    (hops : ∀ op ∈ ops, UsernameFits op.username) {ticks : List Nat}
    (hwithin : WithinLockout p.config.lockoutDurationTicks ticks)
    (hticks : ∀ t ∈ ticksOf ops, t ∈ ticks) (htracked : StaysTracked u p ops)
    (hok : .ok ∉ p.answersTo u ops) (hunlock : .unlock u ∉ ops) {n : Nat} (hbudget : ∀ i, (p.attempts i).username = u →
      GuessBudget p.config.maxAttempts (p.attempts i) (ticksOf ops) n) : (p.answersTo u ops).count .failed ≤ n := by
  induction ops generalizing p n with
  | nil => simp [AuthPolicy.answersTo]
  | cons op ops ih =>
    obtain ⟨⟨i, hi⟩, hrest⟩ := htracked
    have hop := hops op mem_cons_self
    obtain ⟨hsound, hconfig⟩ := policyStep_sound h hop
    simp only [AuthPolicy.answersTo, mem_append, not_or] at hok
    have hih := fun m hb => ih hsound (fun o ho => hops o (mem_cons_of_mem _ ho))
      (hconfig ▸ hwithin) (fun t ht => hticks t (mem_append_right _ ht)) hrest hok.2
      (fun hm => hunlock (mem_cons_of_mem _ hm)) (n := m) hb
    rw [hconfig] at hih
    -- the entry of the user after the operation is the only one
    have honly : ∀ j b, ((p.step op).attempts j).username = u → (p.step op).attempts j = b →
        ∀ k, ((p.step op).attempts k).username = u → (p.step op).attempts k = b := by
      intro j b hj hb k hk
      rw [hsound.once k j (by rw [hk]; exact hu) (hk.trans hj.symm), hb]
    simp only [AuthPolicy.answersTo, count_append]
    by_cases hne : op.username = u
    · cases op with
      | unlock w => exact absurd mem_cons_self (hne ▸ hunlock)
      | login call =>
        have hname : call.username = u := hne
        subst hname
        rw [answerTo_login] at hok ⊢
        obtain ⟨-, -, -, hdone⟩ := login_spec h hop
        have hb := hbudget i hi
        generalize (p.userdbAuthenticateWithPolicy call).1 = answer at hok hdone ⊢
        cases hdone with
        | locked k _ hk hlocked huntil hsame =>
          have hki : k = i := h.once k i (by rw [hk]; exact hu) (hk.trans hi.symm)
          subst hki
          have htail := hih n fun j hj => by
            rw [honly k _ (by rw [hsame, hk]) hsame j hj]
            cases hb with
            | held hl hheld => exact .held hl fun t ht => hheld t (mem_append_right _ ht)
            | counting hfree hn => exact .counting hfree hn
            | anew hn => exact .anew hn
          simpa using htail
        | ok => exact absurd mem_cons_self hok.1
        | failed _ hopen hcount =>
          obtain ⟨k, c, hfrom, hc⟩ := hcount hrest.now
          have hpos := h.limit
          have hunder := hfrom.under
          have hfailTick : call.failTick ∈ ticks := hticks _ (by simp [ticksOf, AuthOp.ticks])
          have hleft : p.config.maxAttempts ≤ c + n := by
            cases hb with
            | held hl hheld =>
              have h1 := hopen i hi hl
              have h2 := hheld call.checkTick (by simp [ticksOf, AuthOp.ticks])
              omega
            | counting hfree hn => rwa [hc i hi hfree]
            | anew hn => omega
          obtain ⟨m, rfl⟩ : ∃ m, n = m + 1 := ⟨n - 1, by omega⟩
          have htail := hih m fun j hj => by
            rw [honly k _ hfrom.username rfl j hj]
            exact GuessBudget.failed hfrom hwithin hfailTick
              (fun t ht => hticks t (mem_append_right _ ht)) hleft
          rw [count_singleton_self]
          omega
    · rw [answerTo_other hne]
      have hother := GuessBudget.other h hop (by rw [hi]; exact hu) (by rw [hi]; exact hne)
        (by rw [hi]; exact hrest.now) (hbudget i hi)
      have htail := hih n fun j hj => by
        rw [honly i _ (hother.1.trans hi) rfl j hj]
        exact hother.2
      simpa using htail

theorem failures_bounded (h : PolicySound p) (hu : u ≠ [])
    (hops : ∀ op ∈ ops, UsernameFits op.username)
    (hwithin : WithinLockout p.config.lockoutDurationTicks (ticksOf ops))
    (hkeeps : KeepsEntry u p ops) (hok : .ok ∉ p.answersTo u ops) (hunlock : .unlock u ∉ ops) :
    (p.answersTo u ops).count .failed ≤ p.config.maxAttempts := by
  have hall : ∀ ticks, WithinLockout p.config.lockoutDurationTicks ticks →
      (∀ t ∈ ticksOf ops, t ∈ ticks) →
      (p.answersTo u ops).count .failed ≤ p.config.maxAttempts := by
    clear hwithin
    intro ticks hwithin hticks
    induction ops generalizing p with
    | nil => simp [AuthPolicy.answersTo]
    | cons op ops ih =>
      have hop := hops op mem_cons_self
      obtain ⟨hsound, hconfig⟩ := policyStep_sound h hop
      have hops' : ∀ o ∈ ops, UsernameFits o.username := fun o ho => hops o (mem_cons_of_mem _ ho)
      have hunlock' : .unlock u ∉ ops := fun hm => hunlock (mem_cons_of_mem _ hm)
      have hticks' : ∀ t ∈ ticksOf ops, t ∈ ticks := fun t ht =>
        hticks t (mem_append_right _ ht)
      simp only [AuthPolicy.answersTo, mem_append, not_or] at hok
      simp only [AuthPolicy.answersTo, count_append]
      by_cases hfailed : .failed ∈ p.answerTo u op
      · -- the first failure: the rest has one less
        have htracked := hkeeps.1 hfailed
        cases op with
        | unlock w => cases hfailed
        | login call =>
          by_cases hname : call.username = u
          · subst hname
            rw [answerTo_login] at hfailed ⊢
            obtain ⟨-, -, -, hdone⟩ := login_spec h hop
            rw [← List.mem_singleton.mp hfailed] at hdone ⊢
            cases hdone with
            | failed _ hopen hcount =>
              obtain ⟨k, c, hfrom, -⟩ := hcount htracked.now
              have hpos := h.limit
              have hfailTick : call.failTick ∈ ticks := hticks _ (by simp [ticksOf, AuthOp.ticks])
              have htail := failures_within_budget hsound hu hops' (hconfig ▸ hwithin) hticks'
                htracked hok.2 hunlock' (n := p.config.maxAttempts - 1) fun j hj => by
                  rw [hsound.once j k (by rw [hj]; exact hu) (hj.trans hfrom.username.symm), hconfig]
                  exact GuessBudget.failed hfrom hwithin hfailTick hticks' (by omega)
              simp only [count_singleton_self]
              omega
          · simp [AuthPolicy.answerTo, hname] at hfailed
      · have htail := ih hsound hops' hkeeps.2 hok.2 hunlock' (hconfig ▸ hwithin) hticks'
        rw [List.count_eq_zero.mpr hfailed, Nat.zero_add, ← hconfig]
        exact htail
  exact hall _ hwithin fun t ht => ht

theorem locked_until (h : PolicySound p) (hu : u ≠ [])
    (hops : ∀ op ∈ ops, UsernameFits op.username) (hunlock : .unlock u ∉ ops)
    {i : Fin authMaxTrackedUsers} (hi : (p.attempts i).username = u) (hlocked : (p.attempts i).locked = true)
    (huntil : ∀ t ∈ ticksOf ops, t < (p.attempts i).lockoutUntilTick) : ∀ a ∈ p.answersTo u ops, a = .locked := by
  induction ops generalizing p with
  | nil => exact fun a ha => by cases ha
  | cons op ops ih =>
    have hop := hops op mem_cons_self
    obtain ⟨hsound, -⟩ := policyStep_sound h hop
    have hheld : ∀ t ∈ op.ticks, t < (p.attempts i).lockoutUntilTick := fun t ht =>
      huntil t (mem_append_left _ ht)
    -- the entry and its lock stay
    have hstays : (p.step op).attempts i = p.attempts i ∧ ∀ a ∈ p.answerTo u op, a = .locked := by
      by_cases hne : op.username = u
      · cases op with
        | unlock w => exact absurd mem_cons_self (hne ▸ hunlock)
        | login call =>
          have hname : call.username = u := hne
          subst hname
          rw [answerTo_login]
          have hcheck : (p.attempts i).reclaim call.checkTick = p.attempts i := by
            have := hheld call.checkTick (by simp [AuthOp.ticks])
            simp [AuthAttempt.reclaim, Nat.not_le.mpr this]
          have hfound := find_entry h hu hi
          simp [AuthPolicy.step, AuthPolicy.userdbAuthenticateWithPolicy,
            AuthPolicy.authPolicyCheckAllowed, hfound, hcheck, hlocked, AuthPolicy.setAttempt]
      · rw [answerTo_other hne]
        refine ⟨?_, fun a ha => by cases ha⟩
        have hkeep : ∀ t ∈ op.ticks, (p.attempts i).reclaim t = p.attempts i := fun t ht => by
          simp [AuthAttempt.reclaim, Nat.not_le.mpr (hheld t ht)]
        rcases policyStep_other h hop hi hu hne with hs | ⟨t, ht, hs⟩ | ⟨⟨t, ht, hfree⟩, -⟩
        · exact hs
        · rw [hs, hkeep t ht]
        · rw [hkeep t ht, hlocked] at hfree
          cases hfree
    intro a ha
    rcases List.mem_append.mp ha with ha | ha
    · exact hstays.2 a ha
    · exact ih hsound (fun o ho => hops o (mem_cons_of_mem _ ho))
        (fun hm => hunlock (mem_cons_of_mem _ hm)) (by rw [hstays.1, hi])
        (by rw [hstays.1, hlocked])
        (fun t ht => by rw [hstays.1]; exact huntil t (mem_append_right _ ht)) a ha

theorem init_policySound (cfg : AuthPolicyConfig) : PolicySound (authPolicyInit.authPolicySetConfig cfg) := by
  have hlimit : 0 < (authPolicyInit.authPolicySetConfig cfg).config.maxAttempts := by
    simp only [AuthPolicy.authPolicySetConfig]
    split
    · decide
    · omega
  exact ⟨hlimit, fun i j hi => absurd rfl hi, fun i _ => hlimit, fun i _ => ⟨rfl, rfl⟩⟩

/-- What holds of a user `u` at a state and the operations that follow. -/
structure GuessingBounded (u : Username) (p : AuthPolicy) (ops : List AuthOp) : Prop where
  bounded : ∀ names, Uncrowded u p ops names → WithinLockout p.config.lockoutDurationTicks (ticksOf ops) →
    .ok ∉ p.answersTo u ops → .unlock u ∉ ops →
    (p.answersTo u ops).count .failed ≤ p.config.maxAttempts ∧
      ∀ a ∈ p.answersTo u ops, a = .failed ∨ a = .locked
  held : .unlock u ∉ ops → ∀ i, (p.attempts i).username = u → (p.attempts i).locked = true →
    (∀ t ∈ ticksOf ops, t < (p.attempts i).lockoutUntilTick) →
    ∀ a ∈ p.answersTo u ops, a = .locked
  others : ∀ op, UsernameFits op.username → op.username ≠ u → ∀ i, (p.attempts i).username = u →
    (p.step op).attempts i = p.attempts i ∨
    (∃ t ∈ op.ticks, (p.step op).attempts i = (p.attempts i).reclaim t) ∨
    AttemptsFull p op.username ∧ (∃ t ∈ op.ticks, ((p.attempts i).reclaim t).locked = false) ∧ ¬ HasEntry (p.step op) u
  made : ∀ call, UsernameFits call.username → (p.userdbAuthenticateWithPolicy call).1 = .failed →
    ¬AttemptsFull p call.username → HasEntry (p.step (.login call)) call.username
  wiped : ∀ call, (p.userdbAuthenticateWithPolicy call).1 = .locked →
    ∀ r, (p.userdbAuthenticateWithPolicy call).2.1 = some r → r = userRecordClear

/-- In every run the guesses at one user's password stay within the limit while the entry
cannot be evicted, and a lock holds until its tick. -/
theorem password_guessing_bounded (cfg : AuthPolicyConfig) {before ops : List AuthOp}
    (hbefore : ∀ op ∈ before, UsernameFits op.username) (hops : ∀ op ∈ ops, UsernameFits op.username)
    {u : Username} (hu : u ≠ []) :
    GuessingBounded u ((authPolicyInit.authPolicySetConfig cfg).run before) ops := by
  obtain ⟨hsound, -⟩ := policyRun_sound (init_policySound cfg) hbefore
  refine ⟨fun names hroom hwithin hok hunlock =>
    ⟨failures_bounded hsound hu hops hwithin (hroom.keepsEntry hsound hops hu) hok hunlock, fun a ha => ?_⟩,
    fun hunlock i hi hlocked huntil => locked_until hsound hu hops hunlock hi hlocked huntil,
    fun op hop hne i hi => (policyStep_other hsound hop hi hu hne).imp_right (.imp_right fun h => ⟨?_, h⟩),
    fun call hcall => (login_names hcall).2, fun call hlocked r hr => ?_⟩
  · cases a with
    | ok => exact absurd ha hok
    | failed => exact .inl rfl
    | locked => exact .inr rfl
  · rcases step_names (p := (authPolicyInit.authPolicySetConfig cfg).run before) hop i with hs | ⟨-, hs | hfull⟩
    · exact absurd ⟨i, hs.trans hi⟩ h.2
    · exact absurd (hi.symm.trans hs) hu
    · exact hfull
  · unfold AuthPolicy.userdbAuthenticateWithPolicy at hlocked hr
    dsimp only at hlocked hr
    split at hr
    · obtain ⟨-, -, rfl⟩ := Option.map_eq_some_iff.mp hr
      rfl
    · next hallowed =>
      rw [if_neg hallowed] at hlocked
      split at hlocked <;> cases hlocked

def twoAttempts : AuthPolicyConfig := ⟨2, 1000, 4, true, by decide⟩

def wrongPassword (k : Nat) (username : Username) : AuthOp :=
  .login ⟨username, false, none, 10 * k + 1, 10 * k + 2, 10 * k + 3⟩

/-- Three wrong passwords for `u`, and one for `v` between them. -/
def fourWrong : List AuthOp :=
  [wrongPassword 0 ['u'], wrongPassword 1 ['v'], wrongPassword 2 ['u'], wrongPassword 3 ['u']]

theorem password_guessing_bounded_two :
    let p := authPolicyInit.authPolicySetConfig twoAttempts
    p.answersTo ['u'] fourWrong = [.failed, .failed, .locked] ∧ Uncrowded ['u'] p fourWrong [['v']] ∧
      GuessingBounded ['u'] p fourWrong ∧ (p.answersTo ['u'] fourWrong).count .failed ≤ p.config.maxAttempts := by
  intro p
  have hbefore : ∀ op ∈ ([] : List AuthOp), UsernameFits op.username := fun op hop => by cases hop
  have hops : ∀ op ∈ fourWrong, UsernameFits op.username := by decide
  have hroom : Uncrowded ['u'] p fourWrong [['v']] := ⟨by decide, fun i hi => absurd rfl hi, by decide⟩
  have hbound := password_guessing_bounded twoAttempts hbefore hops (u := ['u']) (by decide)
  have hanswers : p.answersTo ['u'] fourWrong = [.failed, .failed, .locked] := by decide
  refine ⟨hanswers, hroom, hbound, (hbound.bounded _ hroom ⟨by decide, by decide⟩ ?_ fun hmem => ?_).1⟩
  · rw [show (authPolicyInit.authPolicySetConfig twoAttempts).run [] = p from rfl, hanswers]
    decide
  · simp [fourWrong, wrongPassword] at hmem

def sprayed : List AuthOp :=
  wrongPassword 0 ['u'] ::
    (List.range 32).map (fun k => wrongPassword (k + 1) [Char.ofNat (65 + k)]) ++
    [wrongPassword 33 ['u'], wrongPassword 34 ['u']]

/-- The entry of `u` is given up on the way, so three of its logins fail within a
lockout of 1000 ticks where two attempts are allowed. -/
theorem sprayed_exceeds :
    (∀ t ∈ ticksOf sprayed, ∀ t' ∈ ticksOf sprayed, t' < t + twoAttempts.lockoutDurationTicks) ∧
    (authPolicyInit.authPolicySetConfig twoAttempts).answersTo ['u'] sprayed =
      [.failed, .failed, .failed] ∧
    (authPolicyInit.authPolicySetConfig twoAttempts).config.maxAttempts = 2 := by
  have hticks : ∀ t ∈ ticksOf sprayed, t < 1000 := by decide
  exact ⟨fun t _ t' ht' => Nat.lt_add_left t (hticks t' ht'), by decide +kernel, rfl⟩

end CapyOS.Proofs
