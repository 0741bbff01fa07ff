import OpenFireblocks.Identity.Login

/-!
# How often a second factor can be guessed

`verifyMfaAndLogin` compares a code for every challenge that is still open. It does not look at the
lock of the account, so the lock stops new challenges and not the ones that exist.
-/

namespace OpenFireblocks.Identity

open Threads

section

variable (lib : AuthLib) (id : UserId)

/-- A wrong code is compared while the account is not locked and no other one is uncounted. -/
def Answerable (s : Store) : Option Call → Action → Prop
  | some (.evaluating other secret code), .advance _ _ => other = id →
      verifyTotpCode lib secret code s.now = false →
        (∀ u ∈ s.users id, isLocked s.now u = false) ∧ (s.watch id).uncountedCode = false
  | _, _ => True

instance (s : Store) (call : Option Call) (action : Action) :
    Decidable (Answerable lib id s call action) :=
  match call, action with
  | some (.evaluating ..), .advance .. => by change Decidable (_ → _); infer_instance
  | some (.evaluating ..), .login .. | some (.evaluating ..), .verifyMfa ..
  | some (.evaluating ..), .stop | some (.evaluating ..), .tick _ | some (.login ..), _
  | some (.checking ..), _ | some (.failing ..), _ | some (.expiring ..), _
  | some (.counting ..), _ | some (.locking ..), _ | some (.clearing ..), _
  | some (.challenging ..), _ | some (.completing ..), _ | some (.verifying ..), _
  | some (.consuming ..), _ | none, _ => isTrue trivial

end

/-! ## The invariant -/

section

variable {lib : AuthLib} {redisOn : Bool} {id : UserId}

def Call.Guessed (id : UserId) : Call → Prop
  | .counting other .code _ => other = id
  | .locking other .code => other = id
  | _ => False

/-- The account is locked, or the guesses are in its count but for `more` of them. -/
def Within (id : UserId) (more : Nat) (s : Store) : Prop :=
  ∃ u, s.users id = some u ∧ (isLocked s.now u = true ∨
    ((s.watch id).guesses ≤ u.failedLoginCount + more ∧
      (s.watch id).guesses < MAX_FAILED_LOGINS + more))

variable (id) in
structure Bounded (s : Store) : Prop where
  guesses : (s.watch id).guesses ≤ MAX_FAILED_LOGINS
  exists_user : ∃ u, s.users id = some u
  within : (s.watch id).uncountedCode = false → Within id 0 s

variable (id) in
/-- What a request knows. -/
def Call.Remembers (s : Store) : Call → Prop
  | .counting other .code threshold => other = id →
      threshold = MAX_FAILED_LOGINS ∧ Within id 1 s ∧ (s.watch id).uncountedCode = true
  | .locking other .code => other = id → (s.watch id).uncountedCode = true
  | _ => True

variable {s : Store}

variable {m call : Call} {failure : Failure} {up : Bool}

theorem Call.Guessed.cases (hm : m.Guessed id) :
    (∃ threshold, m = .counting id .code threshold) ∨ m = .locking id .code := by
  unfold Call.Guessed at hm
  split at hm
  · exact .inl ⟨_, by rw [hm]⟩
  · exact .inr (by rw [hm])
  · exact hm.elim

theorem Call.Remembers.guessed (h : m.Remembers id s) (hm : m.Guessed id) :
    (s.watch id).uncountedCode := by
  rcases hm.cases with ⟨_, rfl⟩ | rfl
  · exact (h rfl).2.2
  · exact h rfl

theorem Call.remembers_of_not_guessed (hm : ¬ m.Guessed id) : m.Remembers id s := by
  unfold Call.Remembers
  split
  · exact fun hid => absurd hid hm
  · exact fun hid => absurd hid hm
  · exact trivial

variable (id) in
/-- One wrong code at a time is compared and uncounted. -/
def oneGuess : Exclusive Store Call where
  shared := Bounded id
  thread := fun s m => m.Remembers id s
  Inside := Call.Guessed id
  taken := fun s => (s.watch id).uncountedCode = true
  taken_of_inside := Call.Remembers.guessed

variable (id) in
/-- A change that counts no code and compares none: the guesses start again, or the account stays
locked and its count does not go down, or it is locked now. -/
structure Still (s t : Store) : Prop where
  guesses : (t.watch id).guesses ≤ (s.watch id).guesses
  uncounted : (t.watch id).uncountedCode = (s.watch id).uncountedCode
  row : ∀ u, s.users id = some u → ∃ v, t.users id = some v ∧ ((t.watch id).guesses = 0 ∨
    isLocked t.now v = true ∨
      ((isLocked s.now u = true → isLocked t.now v = true) ∧ u.failedLoginCount ≤ v.failedLoginCount))

variable {t : Store}

theorem Still.within {more : Nat} (h : Still id s t) (hs : Within id more s) :
    Within id more t := by
  obtain ⟨u, hu, hwithin⟩ := hs
  have hguesses := h.guesses
  obtain ⟨v, hv, hrow⟩ := h.row u hu
  refine ⟨v, hv, ?_⟩
  have hmax : 0 < MAX_FAILED_LOGINS := by decide
  rcases hrow with hzero | hlocked | ⟨hlocked, hcount⟩
  · right
    omega
  · exact .inl hlocked
  · rcases hwithin with hbefore | hbefore
    · exact .inl (hlocked hbefore)
    · right
      omega

theorem Still.bounded (h : Still id s t) (hs : Bounded id s) : Bounded id t where
  guesses := Nat.le_trans h.guesses hs.guesses
  exists_user := by
    obtain ⟨u, hu⟩ := hs.exists_user
    obtain ⟨v, hv, -⟩ := h.row u hu
    exact ⟨v, hv⟩
  within := by
    intro hcounted
    rw [h.uncounted] at hcounted
    exact h.within (hs.within hcounted)

theorem Still.remembers (h : Still id s t) (hm : m.Remembers id s) : m.Remembers id t := by
  by_cases hguessed : m.Guessed id
  · have hflag := hm.guessed hguessed
    rw [← h.uncounted] at hflag
    rcases hguessed.cases with ⟨_, rfl⟩ | rfl
    · obtain ⟨hthreshold, hwithin, -⟩ := hm rfl
      exact fun _ => ⟨hthreshold, h.within hwithin, hflag⟩
    · exact fun _ => hflag
  · exact Call.remembers_of_not_guessed hguessed

theorem steps_still {call call' : Option Call} (hs : Bounded id s) (h : Still id s t)
    (hnext : ∀ m, call' = some m → ¬ m.Guessed id) : (oneGuess id).Steps s call t call' where
  shared := h.bounded hs
  own := fun m hm => Call.remembers_of_not_guessed (hnext m hm)
  others := fun _ hm _ => h.remembers hm
  enter := fun m hm hguessed => absurd hguessed (hnext m hm)

theorem steps_guessed {call' : Option Call} (hcall : call.Guessed id) (ht : Bounded id t)
    (hown : ∀ m, call' = some m → m.Remembers id t) :
    (oneGuess id).Steps s (some call) t call' where
  shared := ht
  own := hown
  others := fun _ _ hn => Call.remembers_of_not_guessed (hn call rfl hcall)
  enter := fun _ _ _ => .inl ⟨call, rfl, hcall⟩

/-! ## Changes -/

theorem Still.of_same (husers : t.users id = s.users id) (hnow : t.now = s.now)
    (hguesses : (t.watch id).guesses = (s.watch id).guesses)
    (huncounted : (t.watch id).uncountedCode = (s.watch id).uncountedCode) : Still id s t where
  guesses := Nat.le_of_eq hguesses
  uncounted := huncounted
  row := fun u hu => ⟨u, husers ▸ hu, .inr (.inr ⟨fun h => hnow ▸ h, Nat.le_refl _⟩)⟩

theorem Still.refl (s : Store) : Still id s s := .of_same rfl rfl rfl rfl

variable {other : UserId}

theorem still_setUser_of_ne {f : User → User} (h : id ≠ other) : Still id s (s.setUser other f) :=
  .of_same (setUser_users_of_ne h) rfl rfl rfl

theorem still_note_of_ne {f : Watch → Watch} (h : id ≠ other) : Still id s (s.note other f) :=
  .of_same rfl rfl (by rw [note_watch_of_ne h]) (by rw [note_watch_of_ne h])

theorem still_note {f : Watch → Watch} (hguesses : ∀ w, (f w).guesses = w.guesses)
    (huncounted : ∀ w, (f w).uncountedCode = w.uncountedCode) : Still id s (s.note other f) := by
  by_cases hid : id = other
  · subst hid
    refine .of_same rfl rfl ?_ ?_
    · rw [note_watch_self, hguesses]
    · rw [note_watch_self, huncounted]
  · exact still_note_of_ne hid

theorem still_counted (h : failure = .code → id ≠ other) :
    Still id s (s.note other failure.counted) := by
  cases failure with
  | password => exact still_note (fun _ => rfl) (fun _ => rfl)
  | code => exact still_note_of_ne (h rfl)

theorem Still.trans {r : Store} (h : Still id s t) (h' : Still id t r) : Still id s r where
  guesses := Nat.le_trans h'.guesses h.guesses
  uncounted := h'.uncounted.trans h.uncounted
  row := by
    intro u hu
    obtain ⟨v, hv, hrow⟩ := h.row u hu
    obtain ⟨w, hw, hrow'⟩ := h'.row v hv
    refine ⟨w, hw, ?_⟩
    have hle := h'.guesses
    rcases hrow' with hzero | hlocked | ⟨hlocked, hcount⟩
    · exact .inl hzero
    · exact .inr (.inl hlocked)
    rcases hrow with hzero' | hlocked' | ⟨hlocked', hcount'⟩
    · left
      omega
    · exact .inr (.inl (hlocked hlocked'))
    · exact .inr (.inr ⟨fun hu => hlocked (hlocked' hu), Nat.le_trans hcount' hcount⟩)

theorem still_count (other : UserId) :
    Still id s (s.setUser other fun u => { u with failedLoginCount := u.failedLoginCount + 1 }) := by
  by_cases hid : id = other
  · subst hid
    refine ⟨Nat.le_refl _, rfl, fun u hu => ?_⟩
    rw [setUser_users_self, hu]
    exact ⟨_, rfl, .inr (.inr ⟨fun h => h, Nat.le_succ _⟩)⟩
  · exact still_setUser_of_ne hid

theorem isLocked_until {now w : Nat} {u : User} (hw : 0 < w) (h : u.lockedUntil = some (now + w)) :
    isLocked now u := by
  unfold isLocked
  rw [h]
  exact decide_eq_true (Nat.lt_add_of_pos_right hw)

/-- The row after `lock`. -/
theorem lock_users {u : User} (hu : s.users id = some u) :
    ∃ v, (s.lock id).users id = some v ∧ isLocked s.now v := by
  refine ⟨_, (setUser_users_self).trans (congrArg _ hu), ?_⟩
  exact isLocked_until (by decide) rfl

theorem still_lock (other : UserId) : Still id s (s.lock other) := by
  by_cases hid : id = other
  · subst hid
    refine ⟨Nat.le_refl _, rfl, fun u hu => ?_⟩
    obtain ⟨v, hv, hlocked⟩ := lock_users hu
    exact ⟨v, hv, .inr (.inl hlocked)⟩
  · exact still_setUser_of_ne hid

theorem still_completing :
    Still id s ((s.recordSuccessfulLogin other).note other fun w => { w with guesses := 0 }) := by
  by_cases hid : id = other
  · subst hid
    refine ⟨?_, ?_, fun u hu => ?_⟩
    · rw [note_watch_self]
      exact Nat.zero_le _
    · rw [note_watch_self]
      rfl
    · refine ⟨_, (setUser_users_self).trans (congrArg _ hu), .inl ?_⟩
      rw [note_watch_self]
  · exact .trans (still_setUser_of_ne hid) (still_note_of_ne hid)

/-- Time passes: the guesses start again when the lock ends. -/
theorem still_tick {d : Nat} : Still id s (s.tick d) := by
  have hwatch : (s.tick d).watch id =
      if (s.users id).any (fun u => isLocked s.now u && !isLocked (s.now + d) u) then
        { s.watch id with guesses := 0 }
      else s.watch id := rfl
  refine ⟨?_, ?_, fun u hu => ⟨u, hu, ?_⟩⟩
  · rw [hwatch]
    split
    · exact Nat.zero_le _
    · exact Nat.le_refl _
  · rw [hwatch]
    split
    · rfl
    · rfl
  · rw [hwatch, hu]
    by_cases hends : isLocked s.now u ∧ isLocked (s.now + d) u = false
    · left
      rw [if_pos (by simp [hends.1, hends.2])]
    · right
      right
      refine ⟨fun hlocked => ?_, Nat.le_refl _⟩
      by_contra hlater
      exact hends ⟨hlocked, Bool.not_eq_true _ ▸ hlater⟩

/-! ## One step -/

variable {token : String}

variable (lib redisOn id) in
abbrev Call.Bounds (s : Store) (up : Bool) (token : String) (call : Call) : Prop :=
  (oneGuess id).Steps s (some call) (call.advance lib redisOn s up token).1
    (call.advance lib redisOn s up token).2

section

variable (hs : Bounded id s)
include hs

theorem counting_code_guess {threshold : Nat}
    (hknows : (Call.counting id .code threshold).Remembers id s) :
    (Call.counting id .code threshold).Bounds lib redisOn id s up token := by
  obtain ⟨rfl, ⟨u, hu, hwithin⟩, hflag⟩ := hknows rfl
  have hcounted : (s.setUser id fun u => { u with failedLoginCount := u.failedLoginCount + 1 }).users
      id = some { u with failedLoginCount := u.failedLoginCount + 1 } := by
    rw [setUser_users_self, hu]
    rfl
  simp only [Call.Bounds, Call.advance, countFailedLogin_eq, hu, Option.map_some, Option.getD_some]
  split
  · refine steps_guessed rfl ⟨hs.guesses, ⟨_, hcounted⟩, ?_⟩ ?_
    · intro hfalse
      rw [show (s.watch id).uncountedCode = false from hfalse] at hflag
      cases hflag
    · rintro m ⟨⟩
      exact fun _ => hflag
  · next hlt =>
    refine steps_guessed rfl ⟨?_, ⟨_, hcounted⟩, fun _ => ⟨_, hcounted, ?_⟩⟩ (by rintro m ⟨⟩)
    · rw [note_watch_self]
      exact hs.guesses
    · rw [note_watch_self]
      rcases hwithin with hlocked | ⟨hcount, -⟩
      · exact .inl hlocked
      -- below the threshold the count is below it too, and the guesses are in the count
      right
      show (s.watch id).guesses ≤ u.failedLoginCount + 1 + 0 ∧
        (s.watch id).guesses < MAX_FAILED_LOGINS + 0
      omega

theorem locking_code_guess :
    (Call.locking id .code).Bounds lib redisOn id s up token := by
  obtain ⟨u, hu⟩ := hs.exists_user
  obtain ⟨v, hv, hlocked⟩ := lock_users hu
  refine steps_guessed rfl ⟨?_, ⟨v, hv⟩, fun _ => ⟨v, hv, .inl hlocked⟩⟩ (by rintro m ⟨⟩)
  show ((Store.note (s.lock id) id Failure.code.counted).watch id).guesses ≤ MAX_FAILED_LOGINS
  rw [note_watch_self]
  exact hs.guesses

theorem evaluating_guess {secret code : String}
    (hsafe : Answerable lib id s (some (.evaluating other secret code)) (.advance up token)) :
    (Call.evaluating other secret code).Bounds lib redisOn id s up token := by
  simp only [Call.Bounds, Call.advance]
  split
  · refine steps_still hs (.refl s) ?_
    rintro m ⟨⟩ hm
    exact hm.elim
  next hwrong =>
    by_cases hid : other = id
    · subst hid
      obtain ⟨hunlocked, hcounted⟩ := hsafe rfl (by simpa using hwrong)
      obtain ⟨u, hu, hwithin⟩ := hs.within hcounted
      have hbound : (s.watch other).guesses ≤ u.failedLoginCount ∧
          (s.watch other).guesses < MAX_FAILED_LOGINS := by
        rcases hwithin with hlocked | hwithin
        · rw [hunlocked u hu] at hlocked
          cases hlocked
        · exact hwithin
      constructor
      · refine ⟨?_, ⟨u, hu⟩, ?_⟩
        · rw [note_watch_self]
          exact hbound.2
        · rw [note_watch_self]
          rintro ⟨⟩
      · rintro m ⟨⟩ _
        refine ⟨rfl, ⟨u, hu, .inr ?_⟩, ?_⟩
        · rw [note_watch_self]
          exact ⟨Nat.succ_le_succ hbound.1, Nat.succ_lt_succ hbound.2⟩
        · rw [note_watch_self]
      · intro m hm _
        refine Call.remembers_of_not_guessed fun hguessed => ?_
        rw [Call.Remembers.guessed hm hguessed] at hcounted
        cases hcounted
      · intro m _ _
        right
        intro htaken
        rw [htaken] at hcounted
        cases hcounted
    · have hstill : Still id s (s.note other fun w =>
          { w with guesses := w.guesses + 1, uncountedCode := true }) :=
        still_note_of_ne (Ne.symm hid)
      refine steps_still hs hstill ?_
      rintro m ⟨⟩
      exact hid

theorem counting_guess {threshold : Nat}
    (hknows : (Call.counting other failure threshold).Remembers id s) :
    (Call.counting other failure threshold).Bounds lib redisOn id s up token := by
  by_cases hguessed : (Call.counting other failure threshold).Guessed id
  · rcases hguessed.cases with ⟨_, heq⟩ | heq <;> cases heq
    exact counting_code_guess hs hknows
  · simp only [Call.Bounds, Call.advance]
    split
    · refine steps_still hs (still_count other) ?_
      rintro m ⟨⟩ hm
      cases failure with
      | password => exact hm
      | code => exact hguessed hm
    · have hstill : Still id s ((s.setUser other fun u =>
          { u with failedLoginCount := u.failedLoginCount + 1 }).note other failure.counted) := by
        refine (still_count other).trans (still_counted ?_)
        rintro rfl hid
        exact hguessed hid.symm
      exact steps_still hs hstill (by rintro m ⟨⟩)

theorem locking_guess :
    (Call.locking other failure).Bounds lib redisOn id s up token := by
  by_cases hguessed : (Call.locking other failure).Guessed id
  · rcases hguessed.cases with ⟨_, heq⟩ | heq <;> cases heq
    exact locking_code_guess hs
  · have hstill : Still id s ((s.lock other).note other failure.counted) := by
      refine (still_lock other).trans (still_counted ?_)
      rintro rfl hid
      exact hguessed hid.symm
    exact steps_still hs hstill (by rintro m ⟨⟩)

theorem advance_guess (hknows : call.Remembers id s)
    (hsafe : Answerable lib id s (some call) (.advance up token)) :
    call.Bounds lib redisOn id s up token := by
  cases call with
  | counting => exact counting_guess hs hknows
  | locking => exact locking_guess hs
  | evaluating => exact evaluating_guess hs hsafe
  | checking other user password ip =>
    simp only [Call.Bounds, Call.advance]
    split
    · exact steps_still hs (.refl s) (by rintro m ⟨⟩)
    split
    · exact steps_still hs (.refl s) (by rintro m ⟨⟩; exact fun h => h)
    have hstill : Still id s (s.note other fun w => { w with uncountedPassword := true }) :=
      still_note (fun _ => rfl) (fun _ => rfl)
    exact steps_still hs hstill (by rintro m ⟨⟩; exact fun h => h)
  | completing other => exact steps_still hs still_completing (by rintro m ⟨⟩)
  | login | failing | expiring | clearing | challenging | verifying | consuming =>
    -- only counters and challenges change, and there is no code to count
    refine steps_still hs ?_ fun m hm => ?_
    · simp only [Call.advance]
      repeat' split
      all_goals exact .of_same rfl rfl rfl rfl
    · simp only [Call.advance] at hm
      repeat' split at hm
      all_goals first
        | cases hm
          exact fun h => h
        | cases hm
        | obtain ⟨_, _, rfl⟩ := Option.map_eq_some_iff.mp hm
          exact fun h => h

theorem stop_guess : (oneGuess id).Steps s (some call) (call.stop s) none := by
  refine steps_still hs ?_ (by rintro m ⟨⟩)
  unfold Call.stop
  split
  all_goals first | exact still_note (fun _ => rfl) (fun _ => rfl) | exact .refl s

theorem next_guess {call call' : Option Call} {action : Action}
    (hknows : ∀ m, call = some m → m.Remembers id s) (hsafe : Answerable lib id s call action)
    (hstep : next lib redisOn s call action = some (t, call')) :
    (oneGuess id).Steps s call t call' := by
  unfold next at hstep
  split at hstep
  · cases hstep
    exact steps_still hs (.refl s) (by rintro m ⟨⟩; exact fun h => h)
  · cases hstep
    exact steps_still hs (.refl s) (by rintro m ⟨⟩; exact fun h => h)
  · obtain ⟨rfl, rfl⟩ := Prod.ext_iff.mp (Option.some.inj hstep)
    exact advance_guess hs (hknows _ rfl) hsafe
  · cases hstep
    exact stop_guess hs
  · cases hstep
    exact steps_still hs still_tick (by rintro m ⟨⟩)
  · cases hstep

end

theorem bounded_fresh {user : User} (hfresh : s.Fresh) (huser : s.users id = some user) :
    Bounded id s where
  guesses := by
    rw [hfresh.watch]
    exact Nat.zero_le _
  exists_user := ⟨user, huser⟩
  within := by
    intro _
    refine ⟨user, huser, .inr ?_⟩
    rw [hfresh.watch]
    exact ⟨Nat.zero_le _, by decide⟩

end

/-! ## Runs -/

/--
**At most five wrong codes between two moments at which the account is unlocked**, for every
interleaving of logins and verifications from any addresses, with or without Redis, in every run in
which each wrong code finds the account not locked and the wrong codes before it counted.
-/
theorem run_guesses_le {lib : AuthLib} {redisOn : Bool} {s : Store} {id : UserId} {user : User}
    {es : List (Nat × Action)} {t : System Store Call} (hfresh : s.Fresh)
    (huser : s.users id = some user)
    (hrun : Machine.run (step (next lib redisOn)) (.idle s) es = some t)
    (hsafe : Machine.Guarded (step (next lib redisOn))
      (fun t e => Answerable lib id t.shared (t.threads e.1) e.2) (.idle s) es) :
    (t.shared.watch id).guesses ≤ MAX_FAILED_LOGINS := by
  have hholds : (oneGuess id).outline.Holds t := by
    refine Machine.run_guarded_invariant (fun h hG hstep => ?_)
      (Outline.holds_idle (bounded_fresh hfresh huser)) hsafe hrun
    obtain ⟨s', call', hnext, rfl⟩ := step_eq_some.mp hstep
    exact (next_guess h.shared (fun m hm => h.thread hm) hG hnext).holds h
  exact hholds.shared.guesses

def openChallenge (token : String) : List (Nat × Action) :=
  (0, .login "owner@example.com" "right" (some "a")) :: advances 0 3 ++ [(0, .advance true token)]

/-- A wrong code for a challenge, up to when it is counted. -/
def guess (token : String) (n : Nat) : List (Nat × Action) :=
  (0, .verifyMfa "owner@example.com" token "000000") :: advances 0 n

/-- Each challenge is opened when it is used. The fifth wrong code locks the account, and no sixth
challenge is opened. -/
def inTurn : List (Nat × Action) :=
  ["1", "2", "3", "4"].flatMap (fun token => openChallenge token ++ guess token 4) ++
    openChallenge "5" ++ guess "5" 5 ++ attempt "right" "a" 2

theorem run_guesses_le_inTurn :
    ∃ t, Machine.run (step (next plainLib true)) (.idle (oneAccount true)) inTurn = some t ∧
      (t.shared.watch 1).guesses = 5 ∧ (t.shared.watch 1).guesses ≤ MAX_FAILED_LOGINS := by
  have hguesses : (Machine.run (step (next plainLib true)) (.idle (oneAccount true)) inTurn).map
      (fun t => (t.shared.watch 1).guesses) = some 5 := by
    decide +kernel
  obtain ⟨t, hrun, hguesses⟩ := Option.map_eq_some_iff.mp hguesses
  exact ⟨t, hrun, hguesses, run_guesses_le (oneAccount_fresh true) rfl hrun (by decide +kernel)⟩

/-- Six challenges are opened before the first code. -/
def beforehand : List (Nat × Action) :=
  ["1", "2", "3", "4", "5", "6"].flatMap openChallenge ++
    ["1", "2", "3", "4"].flatMap (fun token => guess token 4) ++ guess "5" 5 ++ guess "6" 4

/-- The sixth wrong code is compared while the account is locked. -/
theorem six_guesses :
    ∃ t, Machine.run (step (next plainLib true)) (.idle (oneAccount true)) beforehand = some t ∧
      (t.shared.users 1).bind User.lockedUntil = some 900000 ∧
      ¬ (t.shared.watch 1).guesses ≤ MAX_FAILED_LOGINS := by
  have hguesses : (Machine.run (step (next plainLib true)) (.idle (oneAccount true)) beforehand).map
      (fun t => ((t.shared.users 1).bind User.lockedUntil, (t.shared.watch 1).guesses)) =
        some (some 900000, 6) := by
    decide +kernel
  obtain ⟨t, hrun, hguesses⟩ := Option.map_eq_some_iff.mp hguesses
  obtain ⟨hlocked, hguesses⟩ := Prod.mk.inj hguesses
  refine ⟨t, hrun, hlocked, ?_⟩
  rw [hguesses]
  decide

end OpenFireblocks.Identity
