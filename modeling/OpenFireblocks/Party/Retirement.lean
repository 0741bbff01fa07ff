import OpenFireblocks.Party.Roles

/-!
# A retired ceremony stays retired

`HandleTSSRetire` takes the ceremony out of the map, wipes its record, and destroys the sealed
share. It does not look at the refreshes of the ceremony, which keep the share they produced, nor
at the key generation and refresh runs in flight, which seal and record what they produce when it
is ready (`retired_share_remains`).
-/

namespace OpenFireblocks.Party

open Go Threads Machine

section

variable [TssLib] {S : Type}

/-! ## The statement -/

/-- The role never brings a share of the ceremony back. -/
def Role.Quiet : Role → Prop
  | .bystander | .retire => True
  | _ => False

/-- No refresh of `c` that the map names keeps a share. -/
def NoRefreshedShare (c : String) (m : Manager S) : Prop :=
  ∀ reshareID k y, m.resharings.current reshareID = some k →
    m.resharings.get reshareID k = some y → y.plan.sourceCeremonyID = c → y.saveData = none

/-- No share of `c` is in memory, and none is on its way. -/
structure Cleared (c : String) (s : Process S) : Prop where
  ceremony : s.shared.ceremonies.current c = none
  refreshes : NoRefreshedShare c s.shared
  quiet : ∀ i t, s.threads i = some t → (t.role c).Quiet

/-- No share of `c` is left, in memory, sealed, or on its way. -/
structure Gone (cfg : Config S) (c : String) (s : Process S) : Prop extends Cleared c s where
  sealedShare : cfg.sealing = true → s.shared.store c = none

/--
The condition: a retirement of `c` begins when no key generation, refresh or restore of `c` is
running and no refresh of `c` keeps a share, and until it has answered no key generation or restore
of `c` is accepted.
-/
def RetiresAlone (c : String) (s : Process S) (e : Nat × Label S) : Prop :=
  match e.2 with
  | .retire id =>
    id = c → NoRefreshedShare c s.shared ∧ ∀ i t, s.threads i = some t → (t.role c).Quiet
  | .startKeygen id _ _ _ _ | .restore id _ =>
    id = c → ∀ i, s.threads i ≠ some (.retire c)
  | _ => True

/-- The event answers a retirement of `c` with 200: there is no store, or it has destroyed the
sealed share. -/
def AnswersRetired (cfg : Config S) (c : String) (s : Process S) (e : Nat × Label S) : Prop :=
  s.threads e.1 = some (.retire c) ∧ e.2 = if cfg.sealing then .stored else .advance

/-- A key generation or a restore of `c` is requested. -/
def Label.Revives (c : String) : Label S → Prop
  | .startKeygen id _ _ _ _ | .restore id _ => id = c
  | _ => False

/-! ## Refresh runs and their records -/

/-- The record a refresh run writes to is the one with its plan. -/
def Task.Planned (m : Manager S) : Task S → Prop
  | .reshareStart reshareID k plan _ | .reshare reshareID k plan
  | .reshareAccept reshareID k plan _ _ _ =>
    ∃ y, m.resharings.get reshareID k = some y ∧ y.plan = plan
  | _ => True

def plannedOutline : Outline (Manager S) (Task S) where
  shared _ := True
  thread m t := t.Planned m
  pair _ _ := True
  pair_symm := id

variable {cfg : Config S} {c : String} {s t : Process S} {i : Nat} {label : Label S}
variable {m : Manager S} {old new : Option (Task S)} {e : Effect S}

omit [TssLib] in
theorem Task.Planned.apply {t : Task S} (h : t.Planned m) (e : Effect S) :
    t.Planned (e.apply m) := by
  cases t with
  | reshareStart | reshare | reshareAccept =>
    obtain ⟨y, hy, hplan⟩ := h
    obtain ⟨y', hy', hplan'⟩ := resharing_apply e hy
    exact ⟨y', hy', hplan'.trans hplan⟩
  | _ => exact trivial

theorem Section.planned (hsec : Section cfg m old label e new)
    (hold : ∀ t, old = some t → t.Planned m) : ∀ t, new = some t → t.Planned (e.apply m) := by
  cases hsec with
  | elsewhere he _ ht =>
    intro t hte
    have := ht t hte
    cases t <;> first | exact trivial | cases this
  | @reshareRegisters reshareID plan share =>
    rintro t ⟨⟩
    exact ⟨{ plan }, Registry.get_register_fresh .., rfl⟩
  | reshareStarts | reshareDelivers =>
    rintro t ⟨⟩
    have h := hold _ rfl
    exact h
  | _ =>
    rintro t ⟨⟩
    try exact trivial

theorem step_planned (hs : plannedOutline.Holds s) (h : step cfg s (i, label) = some t) :
    plannedOutline.Holds t := by
  obtain ⟨e, task, hsec, rfl⟩ := step_section h
  refine hs.step id trivial (hsec.planned fun u hu => hs.thread hu) ?_ ?_
  · intro j u _ hu
    exact (hs.thread hu).apply e
  · intro u _ j w _ _
    exact trivial

/-! ## Sections of threads that are quiet -/

/-- The write brings no share of `c` into the maps or the store. -/
def Effect.Quiet (c : String) (e : Effect S) : Prop :=
  e.target = some c → e = .forget c ∨ e = .destroySealed c

omit [TssLib] in
theorem quiet_ite {id : String} {r : Role} (hr : ¬ r.Quiet) :
    (if id = c then r else .bystander).Quiet ↔ id ≠ c := by
  by_cases hc : id = c
  · rw [if_pos hc]
    exact ⟨fun h => absurd h hr, fun h => absurd hc h⟩
  · rw [if_neg hc]
    exact ⟨fun _ => hc, fun _ => trivial⟩

/-- **A quiet thread stays quiet and writes nothing of `c`**, unless the ceremony is revived. -/
theorem Section.quiet (hsec : Section cfg m old label e new)
    (hold : ∀ t, old = some t → (t.role c).Quiet) (hcur : m.ceremonies.current c = none)
    (hlabel : ¬ label.Revives c) : (∀ t, new = some t → (t.role c).Quiet) ∧ e.Quiet c := by
  cases hsec with
  | elsewhere he _ ht =>
    refine ⟨fun t hte => ?_, fun hc => ?_⟩
    · rw [(ht t hte).role c]
      trivial
    · rw [he.target] at hc
      cases hc
  | startKeygen h =>
    refine ⟨?_, ?_⟩
    · rintro t ⟨⟩
      exact (quiet_ite id).mpr hlabel
    · rintro ⟨⟩
      exact absurd rfl hlabel
  | startResharing h =>
    refine ⟨?_, by rintro ⟨⟩⟩
    rintro t ⟨⟩
    refine (quiet_ite id).mpr ?_
    rintro rfl
    rw [hcur] at h
    cases h
  | restore h =>
    refine ⟨?_, by rintro ⟨⟩⟩
    rintro t ⟨⟩
    exact (quiet_ite id).mpr hlabel
  | retire =>
    refine ⟨?_, ?_⟩
    · rintro t ⟨⟩
      show (if _ then Role.retire else .bystander).Quiet
      split <;> trivial
    · rintro ⟨⟩
      exact .inl rfl
  | keygenDelivers | keygenFails | keygenUnsealed | keygenNotSealed | reshareRegisters
  | reshareStarts | reshareDelivers | reshareAccepts | reshareNotSealed | reshareMarks
  | reshareFinds | restoreLoads =>
    have h := hold _ rfl
    refine ⟨?_, by rintro ⟨⟩⟩
    rintro t ⟨⟩
    exact h
  | keygenFailFinds =>
    have hid := (quiet_ite id).mp (hold _ rfl)
    refine ⟨?_, by rintro ⟨⟩⟩
    rintro t ⟨⟩
    exact (quiet_ite id).mpr hid
  | reshareReads hx hr =>
    have hid := (quiet_ite id).mp (hold _ rfl)
    obtain ⟨-, -, -, -, rfl⟩ := readSource_eq_ok.mp hr
    refine ⟨?_, by rintro ⟨⟩⟩
    rintro t ⟨⟩
    exact (quiet_ite id).mpr hid
  | keygenSealed | reshareSealed =>
    have h := hold _ rfl
    refine ⟨?_, ?_⟩
    · rintro t ⟨⟩
      exact h
    · rintro ⟨⟩
      exact absurd rfl ((quiet_ite id).mp h)
  | keygenRecords | keygenFailed | reshareReplaces | restoreRegisters =>
    have hid := (quiet_ite id).mp (hold _ rfl)
    refine ⟨by rintro t ⟨⟩, ?_⟩
    rintro ⟨⟩
    exact absurd rfl hid
  | reshareLost => exact ⟨by rintro t ⟨⟩, by rintro ⟨⟩⟩
  | retireDestroys =>
    refine ⟨by rintro t ⟨⟩, ?_⟩
    rintro ⟨⟩
    exact .inr rfl

namespace Effect.Quiet

omit [TssLib] in
theorem current (he : e.Quiet c) (h : m.ceremonies.current c = none) :
    (e.apply m).ceremonies.current c = none := by
  by_cases htarget : e.target = some c
  · rcases he htarget with rfl | rfl
    · simp [Effect.apply, h]
    · exact h
  · rw [← view_current, view_apply_of_target_ne htarget]
    exact h

omit [TssLib] in
theorem store (he : e.Quiet c) (h : m.store c = none) : (e.apply m).store c = none := by
  by_cases htarget : e.target = some c
  · rcases he htarget with rfl | rfl
    · simp only [Effect.apply]
      split <;> exact h
    · exact Function.update_self ..
  · rw [← view_sealedShare, view_apply_of_target_ne htarget]
    exact h

end Effect.Quiet

omit [TssLib] in
/-- A write through a reference that gives no record of a refresh of `c` a share. -/
theorem NoRefreshedShare.modify {reshareID : String} {k : Nat}
    {f : ResharingCeremony S → ResharingCeremony S} (h : NoRefreshedShare c m)
    (hf : ∀ y, m.resharings.get reshareID k = some y → (f y).plan.sourceCeremonyID = c →
      y.plan.sourceCeremonyID = c ∧ (f y).saveData = y.saveData) :
    NoRefreshedShare c { m with resharings := m.resharings.modify reshareID k f } := by
  intro r n y hn hy hc
  rw [Registry.get_modify] at hy
  split at hy
  · next hrn =>
    obtain ⟨rfl, rfl⟩ := hrn
    obtain ⟨x, hx, rfl⟩ := Option.map_eq_some_iff.mp hy
    obtain ⟨hxc, hsave⟩ := hf x hx hc
    rw [hsave]
    exact h r n x hn hx hxc
  · exact h r n y hn hy hc

omit [TssLib] in
theorem NoRefreshedShare.register {reshareID : String} {plan : ResharePlan}
    (h : NoRefreshedShare c m) :
    NoRefreshedShare c { m with resharings := m.resharings.register reshareID { plan } } := by
  intro r n y hn hy hc
  rw [Registry.get_register] at hy
  split at hy
  · cases hy
    rfl
  · next hrn =>
    rw [Registry.current_register] at hn
    split at hn
    · next hr =>
      cases hn
      exact absurd ⟨hr, rfl⟩ hrn
    · exact h r n y hn hy hc

/-- A quiet thread gives no refresh of `c` a share. -/
theorem Section.noRefreshedShare (hsec : Section cfg m old label e new)
    (hplanned : ∀ t, old = some t → t.Planned m) (hquiet : ∀ t, old = some t → (t.role c).Quiet)
    (h : NoRefreshedShare c m) : NoRefreshedShare c (e.apply m) := by
  cases hsec with
  | elsewhere he _ ht =>
    cases e with
    | failResharing => exact h.modify fun y _ hc => ⟨hc, rfl⟩
    | idle | registerSigning | failSigning | completeSigning | leaveLocked | freeze => exact h
    | _ => cases he
  | retire =>
    simp only [Effect.apply]
    split <;> exact h
  | reshareRegisters => exact h.register
  | reshareAccepts =>
    -- the record it writes to is of its own plan, which is not a refresh of `c`
    have hsource := (quiet_ite id).mp (hquiet _ rfl)
    obtain ⟨y, hy, hplan⟩ := hplanned _ rfl
    refine h.modify fun y' hy' hc => absurd hc ?_
    cases hy.symm.trans hy'
    rw [hplan]
    exact hsource
  | reshareMarks => exact h.modify fun y _ hc => ⟨hc, rfl⟩
  | _ => exact h

/-! ## Runs -/

/-- **What is cleared stays cleared, and what is destroyed stays destroyed.** -/
theorem Cleared.step (hc : Cleared c s) (hp : plannedOutline.Holds s) (hlabel : ¬ label.Revives c)
    (h : step cfg s (i, label) = some t) :
    Cleared c t ∧ (s.shared.store c = none → t.shared.store c = none) := by
  obtain ⟨e, task, hsec, rfl⟩ := step_section h
  obtain ⟨hnew, he⟩ := hsec.quiet (hc.quiet i) hc.ceremony hlabel
  refine ⟨⟨he.current hc.ceremony, ?_, ?_⟩, he.store⟩
  · exact hsec.noRefreshedShare (fun u hu => hp.thread hu) (hc.quiet i) hc.refreshes
  · intro j u hu
    rcases update_eq_some hu with ⟨_, hl⟩ | ⟨_, hu⟩
    · exact hnew u hl
    · exact hc.quiet j u hu

omit [TssLib] in
theorem cleared_forget (hrefreshes : NoRefreshedShare c s.shared)
    (hquiet : ∀ i t, s.threads i = some t → (t.role c).Quiet) :
    Cleared c (s.after i (.forget c) (some (.retire c))) where
  ceremony := by
    simp only [Effect.apply]
    split
    · next h => exact h
    · exact Function.update_self ..
  refreshes := by
    simp only [Effect.apply]
    split <;> exact hrefreshes
  quiet := by
    intro j u hu
    rcases update_eq_some hu with ⟨_, hl⟩ | ⟨_, hu⟩
    · cases hl
      simp [Task.role, Role.Quiet]
    · exact hquiet j u hu

/-- While a retirement of `c` is on its way to the store, `c` is cleared. -/
def ClearedWhileRetiring (c : String) (s : Process S) : Prop :=
  ∀ i, s.threads i = some (.retire c) → Cleared c s

theorem ClearedWhileRetiring.step (hs : ClearedWhileRetiring c s) (hp : plannedOutline.Holds s)
    (hg : RetiresAlone c s (i, label)) (h : step cfg s (i, label) = some t) :
    ClearedWhileRetiring c t := by
  intro j hj
  by_cases hk : ∃ k, s.threads k = some (.retire c)
  · -- one was on its way before: the condition lets nothing revive the ceremony
    obtain ⟨k, hk⟩ := hk
    have hlabel : ¬ label.Revives c := by
      intro hrev
      cases label with
      | startKeygen | restore => exact hg hrev k hk
      | _ => cases hrev
    exact ((hs k hk).step hp hlabel h).1
  · -- it begins with this step
    obtain ⟨e, task, hsec, rfl⟩ := step_section h
    rcases update_eq_some hj with ⟨rfl, rfl⟩ | ⟨_, hj⟩
    · generalize s.threads j = old at hsec
      cases hsec with
      | retire =>
        obtain ⟨hrefreshes, hquiet⟩ := hg rfl
        exact cleared_forget hrefreshes hquiet
      | elsewhere _ _ ht => cases ht _ rfl
    · exact absurd ⟨j, hj⟩ hk

theorem AnswersRetired.step {e : Nat × Label S} (hdone : AnswersRetired cfg c s e)
    (hc : Cleared c s) (hp : plannedOutline.Holds s) (h : step cfg s e = some t) : Gone cfg c t := by
  obtain ⟨i, label⟩ := e
  obtain ⟨hi, rfl⟩ := hdone
  have hlabel : ¬ (if cfg.sealing then Label.stored else .advance : Label S).Revives c := by
    split <;> exact id
  refine ⟨(hc.step hp hlabel h).1, fun hsealing => ?_⟩
  obtain ⟨e, task, hr, rfl⟩ := step_task hi h
  rw [hsealing, if_pos rfl, resume, if_pos hsealing] at hr
  cases hr
  exact Function.update_self ..

/--
**Retirement is permanent.** In every run up to the answer that meets the condition, and in every
run from there on in which the ceremony is neither generated nor restored anew: no share of `c` is
left, in memory, sealed, or on its way.
-/
theorem retired_stays_gone {store : String → Option (SealedShare S)}
    {es₁ es₂ : List (Nat × Label S)} {e : Nat × Label S} {s₁ s₂ : Process S}
    (hg : Guarded (step cfg) (RetiresAlone c) (.idle (.start store)) es₁)
    (h₁ : run (step cfg) (.idle (.start store)) es₁ = some s₁) (hdone : AnswersRetired cfg c s₁ e)
    (h₂ : run (step cfg) s₁ (e :: es₂) = some s₂) (hnew : ∀ f ∈ es₂, ¬ f.2.Revives c) :
    Gone cfg c s₂ := by
  obtain ⟨hp, hc⟩ := run_guarded_invariant
    (P := fun s : Process S => plannedOutline.Holds s ∧ ClearedWhileRetiring c s)
    (fun hs hg hstep => ⟨step_planned hs.1 hstep, hs.2.step hs.1 hg hstep⟩)
    ⟨Outline.holds_idle trivial, fun i hi => by cases hi⟩ hg h₁
  obtain ⟨u, hu, h₂⟩ := run_cons_eq_some.mp h₂
  have hgone : Gone cfg c u := hdone.step (hc e.1 hdone.1) hp hu
  refine (run_guarded_invariant (P := fun s : Process S => plannedOutline.Holds s ∧ Gone cfg c s)
    ?_ ⟨step_planned hp hu, hgone⟩ (guarded_of_forall fun f hf _ => hnew f hf) h₂).2
  rintro s t f ⟨hp, hgone⟩ hrev hstep
  obtain ⟨hcleared, hstore⟩ := hgone.toCleared.step hp hrev hstep
  exact ⟨step_planned hp hstep, hcleared, fun hs => hstore (hgone.sealedShare hs)⟩

end

open scoped Insertion

/-- A key generation, a retirement, and a key generation under another id. -/
theorem retired_stays_gone_sample :
    ∃ s, run (step (sampleConfig true)) sampleStart
        (sampleKeygen 0 "k" "A" ++ [(0, .advance), (0, .retire "k")] ++
          (0, .stored) :: (sampleKeygen 1 "q" "B" ++ [(1, .advance)])) = some s ∧
      Gone (sampleConfig true) "k" s := by
  refine ⟨_, rfl, ?_⟩
  refine @retired_stays_gone _ String (sampleConfig true) "k" (fun _ => none)
    (sampleKeygen 0 "k" "A" ++ [(0, .advance), (0, .retire "k")])
    (sampleKeygen 1 "q" "B" ++ [(1, .advance)]) (0, .stored) _ _ ?_ rfl ⟨rfl, rfl⟩ rfl ?_
  · refine guarded_cons rfl (fun _ i hi => by cases hi) ?_
    refine guarded_cons rfl trivial (guarded_cons rfl trivial (guarded_cons rfl trivial ?_))
    refine guarded_cons rfl (fun _ => ⟨fun r k y hk => (by cases hk), fun i t ht => ?_⟩) trivial
    -- the key generation is over
    rcases update_eq_some ht with ⟨_, ht⟩ | ⟨hi, ht⟩
    · cases ht
    · simp [Function.update_of_ne hi, System.idle] at ht
  · simp [sampleKeygen, Label.Revives]

/--
What a retirement that has answered 200 leaves behind. A refresh that was completed before it keeps
the share it produced. A key generation that was running seals and records its share afterwards.
-/
theorem retired_share_remains :
    (∃ s₁ s₂ y,
      run (step (sampleConfig true)) sampleStart
        (sampleKeygen 0 "k" "A" ++ [(0, .advance)] ++ sampleBegin 0 "r" "k" ++ sampleFinish 0 "A" ++
          [(0, .retire "k")]) = some s₁ ∧
      AnswersRetired (sampleConfig true) "k" s₁ (0, .stored) ∧
      run (step (sampleConfig true)) s₁ [(0, .stored)] = some s₂ ∧
      s₂.shared.resharings.current "r" = some 0 ∧ s₂.shared.resharings.get "r" 0 = some y ∧
      y.plan.sourceCeremonyID = "k" ∧ y.saveData = some ⟨.secp256k1, "A"⟩) ∧
    ∃ s₁ s₂ e,
      run (step (sampleConfig true)) sampleStart
        [(0, .startKeygen "k" 1 samplePeers .secp256k1 ""), (0, .deliver "A"),
          (1, .retire "k")] = some s₁ ∧
      AnswersRetired (sampleConfig true) "k" s₁ (1, .stored) ∧
      run (step (sampleConfig true)) s₁ [(1, .stored), (0, .stored), (0, .advance)] = some s₂ ∧
      s₂.shared.store "k" = some e ∧ e.share = ⟨.secp256k1, "A"⟩ :=
  ⟨⟨_, _, _, rfl, ⟨rfl, rfl⟩, rfl, rfl, rfl, rfl, rfl⟩, _, _, _, rfl, ⟨rfl, rfl⟩, rfl, rfl, rfl⟩

end OpenFireblocks.Party
