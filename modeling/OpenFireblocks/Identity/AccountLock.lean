import OpenFireblocks.Identity.Login

/-!
# What one address can do to an account

`login` refuses an address that has failed `PAIR_MAX_FAILURES` times, before the failure is counted
towards the lock of the account. The counter of the address goes away after a window and the count of
the account stays, so the one does not bound the other.

A step is `Contained` unless a wrong password passes the lock check while another one is uncounted,
starts a new window with 20 failures counted, or a wrong code is counted as the fifth failure.
-/

namespace OpenFireblocks.Identity

open Threads

/-! ## Runs in which one address fails -/

section

variable (lib : AuthLib) (id : UserId) (address : String)

/-- A wrong password for the account, whose row is `user`, comes from the address. -/
def FromAddress (s : Store) (user : User) : Action → Prop
  | .login email password ip => s.emails email.toLower = some id →
      verifyPassword lib user password = false → ip = some address
  | _ => True

instance (s : Store) (user : User) (action : Action) :
    Decidable (FromAddress lib id address s user action) := by
  unfold FromAddress
  split <;> infer_instance

def RedisUp : Action → Prop
  | .advance up _ => up = true
  | _ => True

instance (action : Action) : Decidable (RedisUp action) := by
  unfold RedisUp
  split <;> infer_instance

/-- The step does not let failures of the address add up to the lock. -/
def Contained (s : Store) : Option Call → Action → Prop
  | some (.checking other user password ip), .advance up _ => other = id →
      s.locked true up id user ip = false → verifyPassword lib user password = false →
        (s.watch id).uncountedPassword = false
  | some (.failing other _), .advance _ _ => other = id → s.counter id address = 0 →
      ∀ u ∈ s.users id, u.failedLoginCount + PAIR_MAX_FAILURES < DISTRIBUTED_MAX_FAILED_LOGINS
  | some (.counting other .code _), .advance _ _ => other = id →
      ∀ u ∈ s.users id, u.failedLoginCount + 1 < MAX_FAILED_LOGINS
  | _, _ => True

instance (s : Store) (call : Option Call) (action : Action) :
    Decidable (Contained lib id address s call action) := by
  unfold Contained
  split <;> infer_instance

structure NotLockedOut (t : System Store Call) : Prop where
  account : ∀ u, t.shared.users id = some u → u.lockedUntil = none
  login : ∀ i user password ip up, t.threads i = some (.checking id user password ip) →
    ip ≠ some address → t.shared.locked true up id user ip = false

end

/-! ## The invariant -/

section

variable {lib : AuthLib} {id : UserId} {address : String} {hash : Option String}
  {emails : String → Option UserId}

/-- The request has a wrong password for the account to count. -/
def Call.Uncounted (id : UserId) : Call → Prop
  | .failing other _ => other = id
  | .expiring other _ => other = id
  | .counting other .password _ => other = id
  | _ => False

/-- What the counts can still grow by stays below the threshold, with `more` failures on their
way. -/
structure Room (id : UserId) (address : String) (more : Nat) (s : Store) : Prop where
  count : ∀ u, s.users id = some u → u.failedLoginCount + more < DISTRIBUTED_MAX_FAILED_LOGINS
  window : ∀ u, s.users id = some u → s.counter id address ≠ 0 →
    u.failedLoginCount + more + PAIR_MAX_FAILURES <
      DISTRIBUTED_MAX_FAILED_LOGINS + s.counter id address

variable (id address hash emails) in
structure Sound (s : Store) : Prop where
  emails : s.emails = emails
  hash : ∀ u, s.users id = some u → u.passwordHash = hash
  unlocked : ∀ u, s.users id = some u → u.lockedUntil = none
  room : Room id address 0 s
  others : ∀ ip, ip ≠ address → s.redis id ip = none

variable (lib id address hash emails) in
def Call.Knows (s : Store) : Call → Prop
  | .login email password ip => emails email.toLower = some id →
      ∀ u : User, u.passwordHash = hash → verifyPassword lib u password = false → ip = some address
  | .checking other user password ip => other = id → user.lockedUntil = none ∧
      (verifyPassword lib user password = false → ip = some address)
  | .failing other ip => other = id → ip = some address ∧
      s.counter id address < PAIR_MAX_FAILURES ∧ (s.watch id).uncountedPassword = true
  | .expiring other ip => other = id → ip = address ∧ Room id address 1 s ∧
      (s.watch id).uncountedPassword = true
  | .counting other .password threshold => other = id →
      threshold = DISTRIBUTED_MAX_FAILED_LOGINS ∧ Room id address 1 s ∧
        (s.watch id).uncountedPassword = true
  | .counting _ .code threshold => threshold = MAX_FAILED_LOGINS
  | .locking other _ => other ≠ id
  | _ => True

theorem limits : 0 < PAIR_MAX_FAILURES ∧
    MAX_FAILED_LOGINS + PAIR_MAX_FAILURES < DISTRIBUTED_MAX_FAILED_LOGINS := by
  decide

variable {s t : Store}

variable {m : Call} {ip : String} {call call' : Option Call} {threshold : Nat} {user : User}

theorem Call.Knows.of_not_uncounted (h : m.Knows lib id address hash emails s)
    (hm : ¬ m.Uncounted id) : m.Knows lib id address hash emails t := by
  cases m with
  | failing | expiring => exact fun hid => absurd hid hm
  | counting other failure threshold =>
    cases failure with
    | password => exact fun hid => absurd hid hm
    | code => exact h
  | _ => exact h

theorem Call.Knows.uncounted (h : m.Knows lib id address hash emails s) (hm : m.Uncounted id) :
    (s.watch id).uncountedPassword := by
  cases m with
  | failing | expiring => exact (h hm).2.2
  | counting other failure threshold =>
    cases failure with
    | password => exact (h hm).2.2
    | code => exact hm.elim
  | _ => exact hm.elim

variable (id address) in
structure Calm (s t : Store) : Prop where
  emails : t.emails = s.emails
  row : ∀ u, t.users id = some u → ∃ v, s.users id = some v ∧ u.passwordHash = v.passwordHash ∧
    u.lockedUntil = v.lockedUntil ∧
      (u.failedLoginCount = v.failedLoginCount ∨ u.failedLoginCount < MAX_FAILED_LOGINS)
  counter : t.counter id address = s.counter id address ∨ t.counter id address = 0
  others : ∀ ip, ip ≠ address → s.redis id ip = none → t.redis id ip = none
  watch : (s.watch id).uncountedPassword = true → (t.watch id).uncountedPassword = true

theorem Calm.room {more : Nat} (h : Calm id address s t) (hmore : more ≤ 1)
    (hs : Room id address more s) : Room id address more t := by
  have hlimits := limits
  constructor
  · intro u hu
    obtain ⟨v, hv, -, -, hcount⟩ := h.row u hu
    have hroom := hs.count v hv
    omega
  · intro u hu hne
    obtain ⟨v, hv, -, -, hcount⟩ := h.row u hu
    rcases h.counter with hcounter | hcounter
    · rw [hcounter] at hne ⊢
      have hroom := hs.window v hv hne
      omega
    · exact absurd hcounter hne

theorem Calm.sound (h : Calm id address s t) (hs : Sound id address hash emails s) :
    Sound id address hash emails t where
  emails := h.emails.trans hs.emails
  hash := by
    intro u hu
    obtain ⟨v, hv, hhash, -, -⟩ := h.row u hu
    rw [hhash, hs.hash v hv]
  unlocked := by
    intro u hu
    obtain ⟨v, hv, -, hlocked, -⟩ := h.row u hu
    rw [hlocked, hs.unlocked v hv]
  room := h.room (Nat.zero_le 1) hs.room
  others := fun ip hip => h.others ip hip (hs.others ip hip)

theorem Calm.knows (h : Calm id address s t) (hm : m.Knows lib id address hash emails s) :
    m.Knows lib id address hash emails t := by
  cases m with
  | failing =>
    intro hid
    obtain ⟨hip, hcounter, hwatch⟩ := hm hid
    refine ⟨hip, ?_, h.watch hwatch⟩
    have hlimits := limits
    rcases h.counter with hsame | hzero
    · rw [hsame]
      exact hcounter
    · rw [hzero]
      exact hlimits.1
  | expiring =>
    intro hid
    obtain ⟨hip, hroom, hwatch⟩ := hm hid
    exact ⟨hip, h.room (Nat.le_refl 1) hroom, h.watch hwatch⟩
  | counting other failure threshold =>
    cases failure with
    | password =>
      intro hid
      obtain ⟨hip, hroom, hwatch⟩ := hm hid
      exact ⟨hip, h.room (Nat.le_refl 1) hroom, h.watch hwatch⟩
    | code => exact hm
  | _ => exact hm

theorem Calm.of_same (hemails : t.emails = s.emails) (husers : t.users id = s.users id)
    (hredis : t.redis id = s.redis id) (hnow : t.now = s.now)
    (hwatch : (s.watch id).uncountedPassword → (t.watch id).uncountedPassword) :
    Calm id address s t where
  emails := hemails
  row := fun u hu => ⟨u, husers ▸ hu, rfl, rfl, .inl rfl⟩
  counter := .inl (counter_congr hredis hnow)
  others := fun ip _ h => by rw [hredis]; exact h
  watch := hwatch

theorem Calm.refl (s : Store) : Calm id address s s :=
  .of_same rfl rfl rfl rfl fun h => h

variable {other : UserId}

theorem calm_setUser_of_ne {f : User → User} (h : id ≠ other) :
    Calm id address s (s.setUser other f) :=
  .of_same rfl (setUser_users_of_ne h) rfl rfl fun h => h

theorem calm_setCounter_of_ne {c : Option Counter} (h : id ≠ other) :
    Calm id address s (s.setCounter other ip c) :=
  .of_same rfl rfl (setCounter_redis_of_ne h) rfl fun h => h

theorem calm_note {f : Watch → Watch}
    (h : ∀ w, w.uncountedPassword → (f w).uncountedPassword) :
    Calm id address s (s.note other f) := by
  refine .of_same rfl rfl rfl rfl fun hw => ?_
  by_cases hid : id = other
  · subst hid
    rw [note_watch_self]
    exact h _ hw
  · rw [note_watch_of_ne hid]
    exact hw

theorem calm_note_of_ne {f : Watch → Watch} (h : id ≠ other) : Calm id address s (s.note other f) :=
  .of_same rfl rfl rfl rfl fun hw => by rw [note_watch_of_ne h]; exact hw

theorem calm_setUser {f : User → User} (hhash : ∀ u, (f u).passwordHash = u.passwordHash)
    (hlocked : ∀ u, (f u).lockedUntil = u.lockedUntil)
    (hcount : other = id → ∀ u ∈ s.users id, (f u).failedLoginCount < MAX_FAILED_LOGINS) :
    Calm id address s (s.setUser other f) := by
  by_cases hid : id = other
  · subst hid
    refine ⟨rfl, fun u hu => ?_, .inl rfl, fun _ _ h => h, fun h => h⟩
    rw [setUser_users_self] at hu
    obtain ⟨v, hv, rfl⟩ := Option.map_eq_some_iff.mp hu
    exact ⟨v, hv, hhash v, hlocked v, .inr (hcount rfl v hv)⟩
  · exact calm_setUser_of_ne hid

theorem Calm.trans {r : Store} (h : Calm id address s t) (h' : Calm id address t r) :
    Calm id address s r where
  emails := h'.emails.trans h.emails
  row := by
    intro u hu
    obtain ⟨v, hv, hhash, hlocked, hcount⟩ := h'.row u hu
    obtain ⟨w, hw, hhash', hlocked', hcount'⟩ := h.row v hv
    refine ⟨w, hw, hhash.trans hhash', hlocked.trans hlocked', ?_⟩
    rcases hcount with hsame | hlt
    · rw [hsame]
      exact hcount'
    · exact .inr hlt
  counter := by
    rcases h'.counter with hsame | hzero
    · rw [hsame]
      exact h.counter
    · exact .inr hzero
  others := fun ip hip hs => h'.others ip hip (h.others ip hip hs)
  watch := fun hs => h'.watch (h.watch hs)

theorem calm_del : Calm id address s (s.del other ip) := by
  by_cases hid : id = other
  · subst hid
    refine ⟨rfl, fun u hu => ⟨u, hu, rfl, rfl, .inl rfl⟩, ?_, fun other_ip _ h => ?_, fun h => h⟩
    · by_cases hip : address = ip
      · subst hip
        right
        unfold Store.del
        rw [counter_setCounter]
        rfl
      · left
        unfold Store.del Store.counter
        rw [setCounter_redis_self, Function.update_of_ne hip]
        rfl
    · unfold Store.del
      rw [setCounter_redis_self]
      by_cases hip : other_ip = ip
      · rw [hip, Function.update_self]
      rw [Function.update_of_ne hip]
      exact h
  · exact calm_setCounter_of_ne hid

theorem calm_tick {d : Nat} : Calm id address s (s.tick d) where
  emails := rfl
  row := fun u hu => ⟨u, hu, rfl, rfl, .inl rfl⟩
  counter := counter_tick
  others := fun _ _ h => h
  watch := by
    intro h
    show (if _ then { s.watch id with guesses := 0 } else s.watch id).uncountedPassword
    split
    · exact h
    · exact h

/-! ## One step -/

variable (lib id address hash emails) in
/-- One wrong password at a time is past the lock check and uncounted. -/
def oneUncounted : Exclusive Store Call where
  shared := Sound id address hash emails
  thread := fun s m => m.Knows lib id address hash emails s
  Inside := Call.Uncounted id
  taken := fun s => (s.watch id).uncountedPassword = true
  taken_of_inside := Call.Knows.uncounted

variable (lib id address hash emails) in
abbrev Call.Keeps (s : Store) (token : String) (call : Call) : Prop :=
  (oneUncounted lib id address hash emails).Steps s (some call) (call.advance lib true s true token).1
    (call.advance lib true s true token).2

section

variable (hs : Sound id address hash emails s)
include hs

theorem steps_ended (h : Calm id address s t) :
    (oneUncounted lib id address hash emails).Steps s call t none where
  shared := h.sound hs
  own := nofun
  others := fun _ hm _ => h.knows hm
  enter := nofun

theorem steps_goOn (h : Calm id address s t) (hm : m.Knows lib id address hash emails t)
    (hfresh : m.Uncounted id → (s.watch id).uncountedPassword = false) :
    (oneUncounted lib id address hash emails).Steps s call t (some m) where
  shared := h.sound hs
  own := by
    rintro m ⟨⟩
    exact hm
  others := fun _ hm _ => h.knows hm
  enter := by
    rintro m ⟨⟩ hu
    exact .inr (ne_true_of_eq_false (hfresh hu))

/-- The request has no failure to count. -/
def Call.Quiet : Call → Prop
  | .clearing _ _ _ => True
  | .challenging _ => True
  | .completing _ => True
  | .verifying _ _ _ => True
  | .consuming _ _ _ _ => True
  | .evaluating _ _ _ => True
  | _ => False

theorem steps_quiet (h : Calm id address s t) (hquiet : ∀ m, call' = some m → m.Quiet) :
    (oneUncounted lib id address hash emails).Steps s call t call' := by
  cases call' with
  | none => exact steps_ended hs h
  | some m =>
    have hm := hquiet m rfl
    cases m with
    | clearing | challenging | completing | verifying | consuming | evaluating =>
      exact steps_goOn hs h trivial False.elim
    | _ => exact hm.elim

end

/-- The request that has a wrong password to count is the only one. -/
theorem steps_uncounted {call : Call} (hcall : call.Uncounted id)
    (ht : Sound id address hash emails t)
    (hown : ∀ m, call' = some m → m.Knows lib id address hash emails t) :
    (oneUncounted lib id address hash emails).Steps s (some call) t call' where
  shared := ht
  own := hown
  others := fun _ hm hn => hm.of_not_uncounted (hn call rfl hcall)
  enter := fun _ _ _ => .inl ⟨call, rfl, hcall⟩

theorem Room.mono (h : Room id address 1 s) : Room id address 0 s where
  count := fun u hu => by
    have hroom := h.count u hu
    omega
  window := fun u hu hne => by
    have hroom := h.window u hu hne
    omega

/-- The failure is counted for the address: within the window, or in a new one for which there is
room. -/
theorem room_incr (hs : Room id address 0 s) (hlt : s.counter id address < PAIR_MAX_FAILURES)
    (hnew : s.counter id address = 0 → ∀ u ∈ s.users id, u.failedLoginCount + PAIR_MAX_FAILURES < DISTRIBUTED_MAX_FAILED_LOGINS) :
    Room id address 1 (s.incr id address) := by
  constructor
  · intro u hu
    by_cases hzero : s.counter id address = 0
    · have hroom := hnew hzero u hu
      omega
    · have hroom := hs.window u hu hzero
      omega
  · intro u hu _
    rw [counter_incr]
    by_cases hzero : s.counter id address = 0
    · have hroom := hnew hzero u hu
      omega
    · have hroom := hs.window u hu hzero
      omega

section

variable (hs : Sound id address hash emails s)
include hs

theorem Sound.setCounter {c : Option Counter}
    (hroom : Room id address 0 (s.setCounter id address c)) :
    Sound id address hash emails (s.setCounter id address c) where
  emails := hs.emails
  hash := hs.hash
  unlocked := hs.unlocked
  room := hroom
  others := by
    intro ip hip
    rw [setCounter_redis_self, Function.update_of_ne hip]
    exact hs.others ip hip

variable {token : String}

theorem failing_steps {ip : Option String}
    (hknows : (Call.failing other ip).Knows lib id address hash emails s)
    (hsafe : Contained lib id address s (some (.failing other ip)) (.advance true token)) :
    (Call.failing other ip).Keeps lib id address hash emails s token := by
  by_cases hid : other = id
  · subst hid
    obtain ⟨rfl, hlt, hwatch⟩ := hknows rfl
    have hroom := room_incr hs.room hlt (hsafe rfl)
    refine steps_uncounted rfl (hs.setCounter hroom.mono) ?_
    intro m hm
    cases hm
    split
    · exact fun _ => ⟨rfl, hroom, hwatch⟩
    · exact fun _ => ⟨rfl, hroom, hwatch⟩
  · cases ip with
    | none => exact steps_goOn hs (.refl s) hid.elim hid.elim
    | some ip =>
      refine steps_goOn hs (calm_setCounter_of_ne (Ne.symm hid)) ?_ ?_
      · split <;> exact hid.elim
      · split <;> exact hid.elim

theorem expiring_steps (hknows : (Call.expiring other ip).Knows lib id address hash emails s) :
    (Call.expiring other ip).Keeps lib id address hash emails s token := by
  by_cases hid : other = id
  · subst hid
    obtain ⟨rfl, hroom, hwatch⟩ := hknows rfl
    have hroom' : Room other ip 1 (s.expire other ip) := by
      refine ⟨hroom.count, fun u hu hne => ?_⟩
      rw [counter_expire] at hne ⊢
      exact hroom.window u hu hne
    refine steps_uncounted rfl (hs.setCounter hroom'.mono) ?_
    rintro m ⟨⟩
    exact fun _ => ⟨rfl, hroom', hwatch⟩
  · exact steps_goOn hs (calm_setCounter_of_ne (Ne.symm hid)) hid.elim hid.elim

theorem calm_counting_of_ne {redisOn up : Bool} {failure : Failure} (hid : other ≠ id) :
    (oneUncounted lib id address hash emails).Steps s (some (.counting other failure threshold))
      ((Call.counting other failure threshold).advance lib redisOn s up token).1
      ((Call.counting other failure threshold).advance lib redisOn s up token).2 := by
  simp only [Call.advance]
  split
  · exact steps_goOn hs (calm_setUser_of_ne (Ne.symm hid)) hid False.elim
  · exact steps_ended hs (.trans (calm_setUser_of_ne (Ne.symm hid)) (calm_note_of_ne (Ne.symm hid)))

theorem counting_password_steps
    (hknows : (Call.counting other .password threshold).Knows lib id address hash emails s) :
    (Call.counting other .password threshold).Keeps lib id address hash emails s token := by
  by_cases hid : other = id
  · subst hid
    obtain ⟨rfl, hroom, -⟩ := hknows rfl
    rw [Call.Keeps, advance_counting (hroom.count) (by decide)]
    refine steps_uncounted rfl ?_ (by rintro m ⟨⟩)
    refine ⟨hs.emails, ?_, ?_, ?_, hs.others⟩
    · intro u hu
      obtain ⟨v, hv, rfl⟩ := Option.map_eq_some_iff.mp (setUser_users_self.symm.trans hu)
      exact hs.hash v hv
    · intro u hu
      obtain ⟨v, hv, rfl⟩ := Option.map_eq_some_iff.mp (setUser_users_self.symm.trans hu)
      exact hs.unlocked v hv
    · constructor
      · intro u hu
        obtain ⟨v, hv, rfl⟩ := Option.map_eq_some_iff.mp (setUser_users_self.symm.trans hu)
        exact hroom.count v hv
      · intro u hu hne
        obtain ⟨v, hv, rfl⟩ := Option.map_eq_some_iff.mp (setUser_users_self.symm.trans hu)
        exact hroom.window v hv hne
  · exact calm_counting_of_ne hs hid

theorem counting_code_steps
    (hknows : (Call.counting other .code threshold).Knows lib id address hash emails s)
    (hsafe : Contained lib id address s (some (.counting other .code threshold)) (.advance true token)) :
    (Call.counting other .code threshold).Keeps lib id address hash emails s token := by
  by_cases hid : other = id
  · subst hid
    obtain rfl : threshold = MAX_FAILED_LOGINS := hknows
    rw [Call.Keeps, advance_counting (hsafe rfl) (by decide)]
    have hcalm : Calm other address s
        (s.setUser other fun u => { u with failedLoginCount := u.failedLoginCount + 1 }) :=
      calm_setUser (fun _ => rfl) (fun _ => rfl) fun _ => hsafe rfl
    exact steps_ended hs (hcalm.trans (calm_note fun w h => h))
  · exact calm_counting_of_ne hs hid

theorem checking_steps {password : String} {ip : Option String}
    (hknows : (Call.checking other user password ip).Knows lib id address hash emails s)
    (hsafe : Contained lib id address s (some (.checking other user password ip)) (.advance true token)) :
    (Call.checking other user password ip).Keeps lib id address hash emails s token := by
  simp only [Call.Keeps, Call.advance]
  split
  · exact steps_ended hs (.refl s)
  next hlocked =>
    split
    · exact steps_goOn hs (.refl s) trivial False.elim
    next hvalid =>
      have hlocked : s.locked true true other user ip = false := by simpa using hlocked
      have hvalid : verifyPassword lib user password = false := by simpa using hvalid
      have hcalm : Calm id address s (s.note other fun w => { w with uncountedPassword := true }) :=
        calm_note fun w _ => rfl
      refine steps_goOn hs hcalm ?_ fun hid => hid ▸ hsafe hid (hid ▸ hlocked) hvalid
      · rintro rfl
        obtain ⟨-, hip⟩ := hknows rfl
        obtain rfl := hip hvalid
        refine ⟨rfl, ?_, ?_⟩
        · -- the address is not blocked
          have hblocked := (Bool.or_eq_false_iff.mp hlocked).2
          show s.counter _ address < PAIR_MAX_FAILURES
          simpa [Store.isBlocked] using hblocked
        · rw [note_watch_self]

theorem login_steps {email password : String} {ip : Option String}
    (hknows : (Call.login email password ip).Knows lib id address hash emails s) :
    (Call.login email password ip).Keeps lib id address hash emails s token := by
  simp only [Call.Keeps, Call.advance]
  split
  · next other user hfind =>
    split
    · refine steps_goOn hs (.refl s) ?_ False.elim
      rintro rfl
      simp only [Store.findByEmail, Option.bind_eq_bind, Option.bind_eq_some_iff, hs.emails] at hfind
      obtain ⟨_, hemail, _, huser, rfl, rfl⟩ := hfind
      exact ⟨hs.unlocked _ huser, hknows hemail _ (hs.hash _ huser)⟩
    · exact steps_ended hs (.refl s)
  · exact steps_ended hs (.refl s)

theorem advance_steps {call : Call} (hknows : call.Knows lib id address hash emails s)
    (hsafe : Contained lib id address s (some call) (.advance true token)) :
    call.Keeps lib id address hash emails s token := by
  cases call with
  | login => exact login_steps hs hknows
  | checking => exact checking_steps hs hknows hsafe
  | failing => exact failing_steps hs hknows hsafe
  | expiring => exact expiring_steps hs hknows
  | counting other failure threshold =>
    cases failure with
    | password => exact counting_password_steps hs hknows
    | code => exact counting_code_steps hs hknows hsafe
  | locking other failure =>
    have hid : id ≠ other := Ne.symm hknows
    exact steps_ended hs (.trans (calm_setUser_of_ne hid) (calm_note_of_ne hid))
  | clearing other user ip =>
    have hcalm : Calm id address s
        ((Call.clearing other user ip).advance lib true s true token).1 := by
      cases ip with
      | none => exact .refl s
      | some ip => exact calm_del
    refine steps_quiet hs hcalm ?_
    rintro m ⟨⟩
    split
    · exact trivial
    · exact trivial
  | completing other =>
    have hcalm : Calm id address s (s.recordSuccessfulLogin other) :=
      calm_setUser (fun _ => rfl) (fun _ => rfl) fun _ _ _ => Nat.succ_pos 4
    have hnote : Calm id address (s.recordSuccessfulLogin other)
        ((s.recordSuccessfulLogin other).note other fun w => { w with guesses := 0 }) :=
      calm_note fun w h => h
    exact steps_ended hs (hcalm.trans hnote)
  | challenging | verifying | consuming =>
    refine steps_quiet hs (.of_same rfl rfl rfl rfl fun h => h) fun m hm => ?_
    simp only [Call.advance] at hm
    repeat' split at hm
    all_goals first
      | cases hm
        exact trivial
      | cases hm
      | obtain ⟨_, _, rfl⟩ := Option.map_eq_some_iff.mp hm
        exact trivial
  | evaluating other secret code =>
    simp only [Call.Keeps, Call.advance]
    split
    · exact steps_goOn hs (.refl s) trivial False.elim
    · have hnote : Calm id address s (s.note other fun w =>
          { w with guesses := w.guesses + 1, uncountedCode := true }) :=
        calm_note fun w h => h
      exact steps_goOn hs hnote rfl False.elim

theorem stop_steps {call : Call} (hknows : call.Knows lib id address hash emails s) :
    (oneUncounted lib id address hash emails).Steps s (some call) (call.stop s) none := by
  by_cases hcall : call.Uncounted id
  · refine steps_uncounted hcall ?_ (by rintro m ⟨⟩)
    have hnote : ∀ other f, Sound id address hash emails (s.note other f) := fun other f =>
      ⟨hs.emails, hs.hash, hs.unlocked, ⟨hs.room.count, hs.room.window⟩, hs.others⟩
    unfold Call.stop
    split <;> first | exact hnote _ _ | exact hs
  · refine steps_ended hs ?_
    cases call with
    | failing | expiring => exact calm_note_of_ne (Ne.symm hcall)
    | counting other failure threshold =>
      cases failure with
      | password => exact calm_note_of_ne (Ne.symm hcall)
      | code => exact .refl s
    | locking other failure =>
      cases failure with
      | password => exact calm_note_of_ne (Ne.symm hknows)
      | code => exact .refl s
    | _ => exact .refl s

theorem next_steps {action : Action} (hhash : user.passwordHash = hash)
    (hknows : ∀ m, call = some m → m.Knows lib id address hash emails s)
    (hfrom : FromAddress lib id address { s with emails } user action) (hup : RedisUp action)
    (hsafe : Contained lib id address s call action)
    (hstep : next lib true s call action = some (t, call')) :
    (oneUncounted lib id address hash emails).Steps s call t call' := by
  unfold next at hstep
  split at hstep
  · cases hstep
    refine steps_goOn hs (.refl s) ?_ False.elim
    intro hemail u hu hvalid
    refine hfrom hemail ?_
    unfold verifyPassword at hvalid ⊢
    rw [hhash, ← hu]
    exact hvalid
  · cases hstep
    exact steps_goOn hs (.refl s) trivial False.elim
  · obtain rfl : _ := hup
    obtain ⟨rfl, rfl⟩ := Prod.ext_iff.mp (Option.some.inj hstep)
    exact advance_steps hs (hknows _ rfl) hsafe
  · cases hstep
    exact stop_steps hs (hknows _ rfl)
  · cases hstep
    exact steps_ended hs calm_tick
  · cases hstep

end

/-! ## Runs -/

theorem notLockedOut_of_holds {t : System Store Call}
    (h : (oneUncounted lib id address hash emails).outline.Holds t) : NotLockedOut id address t where
  account := h.shared.unlocked
  login := by
    intro i user password ip up hi hip
    obtain ⟨hunlocked, -⟩ := h.thread hi rfl
    have haccount : isLocked t.shared.now user = false := by
      unfold isLocked
      rw [hunlocked]
      rfl
    have hblocked : t.shared.isBlocked true up id ip = false := by
      cases ip with
      | none => rfl
      | some ip =>
        have hnone := h.shared.others ip fun heq => hip (congrArg some heq)
        simp [Store.isBlocked, Store.counter, hnone, reading, PAIR_MAX_FAILURES]
    unfold Store.locked
    rw [haccount, hblocked]
    rfl

theorem sound_fresh (hfresh : s.Fresh) (huser : s.users id = some user) :
    Sound id address user.passwordHash s.emails s where
  emails := rfl
  hash := by
    intro u hu
    rw [huser] at hu
    cases hu
    rfl
  unlocked := fun u hu => (hfresh.users id u hu).2
  room := by
    refine ⟨fun u hu => ?_, fun u _ hne => ?_⟩
    · rw [(hfresh.users id u hu).1]
      decide
    · refine absurd ?_ hne
      unfold Store.counter
      rw [hfresh.redis]
      rfl
  others := fun ip _ => hfresh.redis id ip

end

/--
**One address does not lock an account**, for every interleaving of logins over any length of time
in which every wrong password for the account comes from that address and Redis works, in every run
whose steps are all contained.
-/
theorem run_notLockedOut {lib : AuthLib} {s : Store} {id : UserId} {user : User} {address : String}
    {es : List (Nat × Action)} {t : System Store Call} (hfresh : s.Fresh)
    (huser : s.users id = some user)
    (hrun : Machine.run (step (next lib true)) (.idle s) es = some t)
    (hfrom : ∀ e ∈ es, FromAddress lib id address s user e.2) (hup : ∀ e ∈ es, RedisUp e.2)
    (hsafe : Machine.Guarded (step (next lib true))
      (fun t e => Contained lib id address t.shared (t.threads e.1) e.2) (.idle s) es) :
    NotLockedOut id address t := by
  have hholds : (oneUncounted lib id address user.passwordHash s.emails).outline.Holds t := by
    refine Machine.run_guarded_invariant (fun h hG hstep => ?_)
      (Outline.holds_idle (sound_fresh hfresh huser))
      ((hsafe.and_forall hfrom).and_forall hup) hrun
    obtain ⟨s', call', hnext, rfl⟩ := step_eq_some.mp hstep
    exact (next_steps h.shared rfl (fun m hm => h.thread hm) hG.1.2 hG.2 hG.1.1 hnext).holds h
  exact notLockedOut_of_holds hholds

/-! ### One account and two addresses -/

/-- Five wrong passwords, the first of which opens the window. -/
def window : List (Nat × Action) :=
  attempt "wrong" "a" 5 ++ (List.replicate 4 (attempt "wrong" "a" 4)).flatten

/-- A sixth wrong password is refused, and the owner logs in from elsewhere. -/
def oneWindow : List (Nat × Action) :=
  window ++ attempt "wrong" "a" 2 ++ attempt "right" "b" 2

theorem run_notLockedOut_oneWindow :
    ∃ t, Machine.run (step (next plainLib true)) (.idle (oneAccount false)) oneWindow = some t ∧
      (t.shared.users 1).map User.failedLoginCount = some 5 ∧ NotLockedOut 1 "a" t := by
  have hcount : (Machine.run (step (next plainLib true)) (.idle (oneAccount false)) oneWindow).map
      (fun t => (t.shared.users 1).map User.failedLoginCount) = some (some 5) := by
    decide +kernel
  obtain ⟨t, hrun, hcount⟩ := Option.map_eq_some_iff.mp hcount
  refine ⟨t, hrun, hcount, run_notLockedOut (oneAccount_fresh false) rfl hrun ?_ ?_ ?_⟩
  · decide +kernel
  · decide +kernel
  · decide +kernel

/-- Five windows, one after the other, and then the owner logs in from elsewhere. -/
def fiveWindows : List (Nat × Action) :=
  (List.replicate 4 (window ++ [(0, .tick (PAIR_WINDOW_SECONDS * 1000))])).flatten ++ window ++
    advances 0 1 ++ attempt "right" "b" 2

/-- One address locks the account with 25 wrong passwords in five windows, and the owner is refused:
the right password gets no further than the lock check. -/
theorem lockedOut :
    (∀ e ∈ fiveWindows, FromAddress plainLib 1 "a" (oneAccount false) (owner false) e.2 ∧
      RedisUp e.2) ∧
    ∃ t, Machine.run (step (next plainLib true)) (.idle (oneAccount false)) fiveWindows = some t ∧
      t.threads 0 = none ∧ ¬ NotLockedOut 1 "a" t := by
  have hlocked : (Machine.run (step (next plainLib true)) (.idle (oneAccount false)) fiveWindows).map
      (fun t => (t.threads 0, (t.shared.users 1).bind User.lockedUntil)) =
        some (none, some 4500000) := by
    decide +kernel
  obtain ⟨t, hrun, hlocked⟩ := Option.map_eq_some_iff.mp hlocked
  obtain ⟨hthread, hlocked⟩ := Prod.mk.inj hlocked
  refine ⟨by decide +kernel, t, hrun, hthread, fun h => ?_⟩
  obtain ⟨u, hu, hlocked⟩ := Option.bind_eq_some_iff.mp hlocked
  rw [h.account u hu] at hlocked
  cases hlocked

end OpenFireblocks.Identity
