import Binarium.InstantSend.Votes

set_option autoImplicit false

/-! # How long a lock lasts

`CheckAndRemove` erases the locks of the outpoints of a candidate that has expired, whoever holds
them. If a competing transaction has a candidate for the same outpoint, its expiry unlocks the
outpoint, and the lock of the transaction that had the votes is gone although its own candidate has
not expired.

This is the only way to lose a lock: over any sequence of events for other transactions the inputs of
a transaction stay locked just as long as no candidate with one of these inputs is removed. Within one
event the argument has two parts. From the point where candidates have been created, an action unlocks
an outpoint just if it removes a candidate that has it (`locked_iff_of_acts`). And a candidate that was
created in the event is not removed in it, because the clean-up inside of an event runs only when the
candidate has all its votes, and so far it can have the vote of one masternode only
(`removes_iff_of_creates`). -/

namespace Binarium

open Maps Relation CInstantSend CTransaction Option Nat

/-- A candidate with this outpoint is gone. -/
def Removes (s s' : CInstantSend) (o : COutPoint) : Prop :=
  ∃ k c, s.mapTxLockCandidates.lookup k = some c ∧ s'.mapTxLockCandidates.lookup k = none
    ∧ (c.mapOutPointLocks.lookup o).isSome = true

section

variable {T : Set CTransaction} {ctx : LockContext} {masternode o : COutPoint} {h : Uint256}
  {s s₁ s' : CInstantSend}

theorem exists_sameShape_of_acts {key : Option Uint256}
    (hacts : ReflTransGen (Act T ctx key masternode) s s') {k : Uint256} :
    ∀ {c' : CTxLockCandidate}, s'.mapTxLockCandidates.lookup k = some c' →
      ∃ c, s.mapTxLockCandidates.lookup k = some c ∧ SameShape c c' := by
  induction hacts with
  | refl => exact fun {c'} hc' => ⟨c', hc', SameShape.refl c'⟩
  | tail _ hstep ih =>
    intro c'' hc''
    obtain ⟨c', hc', hshape'⟩ := hstep.exists_sameShape hc''
    obtain ⟨c, hc, hshape⟩ := ih hc'
    exact ⟨c, hc, hshape.trans hshape'⟩

/-! ## Acting -/

/-- The outpoint is locked by `h` and no candidate that has it was removed, or the other way round. -/
def LockedUnlessRemoved (h : Uint256) (o : COutPoint) (s s' : CInstantSend) : Prop :=
  s'.mapLockedOutpoints.lookup o = some h ↔ ¬ Removes s s' o

/-- A clean-up unlocks the outpoint just if it removes the first candidate that has it. -/
theorem lockedUnlessRemoved_cleanUp (hshape : ∀ {k c'}, s₁.mapTxLockCandidates.lookup k = some c' →
      ∃ c, s.mapTxLockCandidates.lookup k = some c ∧ SameShape c c')
    (hs : LockedUnlessRemoved h o s s₁) (hclean : CleanUp s₁ s') :
    LockedUnlessRemoved h o s s' := by
  constructor
  · rintro hlocked ⟨k, c, hc, hnone, ho⟩
    have hkept := hs.mp (hclean.lookup_locked hlocked)
    -- the candidate was there before this clean-up, which then unlocks its outpoints
    cases hmid : s₁.mapTxLockCandidates.lookup k with
    | none => exact hkept ⟨k, c, hc, hmid, ho⟩
    | some c' =>
      have hunlocked := hclean.unlocked k c' o hmid hnone
      grind [SameShape]
  · intro hkept
    have hlocked : s₁.mapLockedOutpoints.lookup o = some h := by
      refine hs.mpr ?_
      rintro ⟨k, c, hc, hnone, ho⟩
      exact hkept ⟨k, c, hc, hclean.lookup_none hnone, ho⟩
    have hsame := hclean.kept o
    grind [SameShape, Removes]

theorem lookup_locked_of_lock {c : CTxLockCandidate}
    (hne : (c.mapOutPointLocks.lookup o).isSome → c.txLockRequest.hash ≠ h)
    (hlocked : s'.mapLockedOutpoints.lookup o
      = if (c.mapOutPointLocks.lookup o).isSome then
          some ((s.mapLockedOutpoints.lookup o).getD c.txLockRequest.hash)
        else s.mapLockedOutpoints.lookup o) :
    s'.mapLockedOutpoints.lookup o = some h ↔ s.mapLockedOutpoints.lookup o = some h := by
  cases hold : s.mapLockedOutpoints.lookup o <;> grind

/-- **From the creation of candidates on, an outpoint stays locked just if no candidate that has it is
    removed.** -/
theorem locked_iff_of_acts {key : Option Uint256} (hs : Orderly T s) (hkey : key ≠ some h)
    (hlocked : s.mapLockedOutpoints.lookup o = some h)
    (hacts : ReflTransGen (Act T ctx key masternode) s s') : LockedUnlessRemoved h o s s' := by
  induction hacts with
  | refl =>
    refine ⟨fun _ => ?_, fun _ => hlocked⟩
    rintro ⟨k, c, hc, hnone, -⟩
    simp [hc] at hnone
  | @tail s₁ s₂ hfirst hstep ih =>
    rcases hstep.cases with ⟨hsame, hsome⟩ | ⟨k, c, hk, hc, -, hcandidates, hlock⟩ | ⟨hclean, -⟩
    · have hremoves : Removes s s₂ o ↔ Removes s s₁ o := by
        simp only [Removes, ← not_isSome_iff_eq_none, hsome]
      rw [LockedUnlessRemoved, hsame, hremoves]
      exact ih
    · -- what is locked now is locked by the transaction of the event
      have hne : (c.mapOutPointLocks.lookup o).isSome → c.txLockRequest.hash ≠ h := by
        intro ho heq
        obtain ⟨-, hhash, -⟩ := ((hs.of_acts hfirst).covers k c hc).2 o ho
        exact hkey (hk.trans (by rw [← hhash, heq]))
      have hsame := lookup_locked_of_lock hne (hlock o)
      rw [LockedUnlessRemoved, hsame, Removes, hcandidates]
      exact ih
    · exact lockedUnlessRemoved_cleanUp (fun hc => exists_sameShape_of_acts hfirst hc) ih hclean

/-! ## Creating -/

/-- The lock of a new outpoint has the vote of one masternode at most. -/
def NewlyLocked (key : Uint256) (o masternode : COutPoint) (s : CInstantSend) : Prop :=
  ∃ c lock, s.mapTxLockCandidates.lookup key = some c ∧ c.mapOutPointLocks.lookup o = some lock
    ∧ ∀ m ∈ lock.mapMasternodeVotes.keys, m = masternode

theorem length_le_one_of_forall_eq {l : List COutPoint} (hnodup : l.Nodup)
    (h : ∀ m ∈ l, m = masternode) : l.length ≤ 1 :=
  match l, hnodup, h with
  | [], _, _ => zero_le 1
  | [_], _, _ => le_refl 1
  | a :: b :: _, hnodup, h => by
    have hab : a = b := (h a (by simp)).trans (h b (by simp)).symm
    simp [hab] at hnodup

variable {key : Uint256}

section

variable (hnew : NewlyLocked key o masternode s)

include hnew

/-- A candidate with such an outpoint does not have all its votes. -/
theorem NewlyLocked.not_ready :
    ¬ ∀ c, s.mapTxLockCandidates.lookup key = some c → c.isAllOutPointsReady := by
  obtain ⟨c, lock, hc, hlock, hvotes⟩ := hnew
  intro hready
  have hquorum := hasQuorum_of_ready (hready c hc) o lock hlock
  have hone := length_le_one_of_forall_eq (AList.keys_nodup lock.mapMasternodeVotes) hvotes
  exact absurd (hquorum.trans hone) (by decide)

theorem NewlyLocked.of_act (hstep : Act T ctx (some key) masternode s s') :
    NewlyLocked key o masternode s' := by
  have hnotready := hnew.not_ready
  obtain ⟨c, lock, hc, hlock, hvotes⟩ := hnew
  have hsome : (s'.mapTxLockCandidates.lookup key).isSome := by
    rcases hstep.cases with ⟨-, hsome⟩ | ⟨_, _, -, -, -, hcandidates, -⟩ | ⟨-, hready⟩
    · simp [hsome, hc]
    · simp [hcandidates, hc]
    · exact absurd (hready key rfl) hnotready
  obtain ⟨c', hc'⟩ := isSome_iff_exists.mp hsome
  obtain ⟨c₀, hc₀, hshape⟩ := hstep.exists_sameShape hc'
  obtain rfl := some.inj (hc.symm.trans hc₀)
  obtain ⟨lock', hlock'⟩ := isSome_iff_exists.mp
    ((hshape.2 o).trans (by rw [hlock]; rfl))
  refine ⟨c', lock', hc', hlock', fun m hm => ?_⟩
  obtain ⟨c₁, lock₁, hc₁, hlock₁, hadded⟩ := hstep.lookup_lock hc' hlock'
  grind [CountedIn, AList.keys_insert]

theorem NewlyLocked.of_acts (hacts : ReflTransGen (Act T ctx (some key) masternode) s s') :
    NewlyLocked key o masternode s' := by
  induction hacts with
  | refl => exact hnew
  | tail _ hstep ih => exact ih.of_act hstep

end

/-- An outpoint of a candidate after the creations was there before, or it has no votes. -/
theorem lookup_lock_of_creates (hcreates : ReflTransGen (Create T ctx key) s s₁) {k : Uint256}
    {lock : COutPointLock} :
    ∀ {c' : CTxLockCandidate}, s₁.mapTxLockCandidates.lookup k = some c' →
      c'.mapOutPointLocks.lookup o = some lock →
      (∃ c, s.mapTxLockCandidates.lookup k = some c ∧ c.mapOutPointLocks.lookup o = some lock)
        ∨ (k = key ∧ lock.mapMasternodeVotes = ∅) := by
  induction hcreates with
  | refl => exact fun {c'} hc' hlock => .inl ⟨c', hc', hlock⟩
  | tail _ hstep ih =>
    intro c' hc' hlock
    rcases hstep.lookup_lock hc' hlock with ⟨c, hc, hlock⟩ | hnew
    · exact ih hc hlock
    · exact .inr hnew

section

variable (hinj : Set.InjOn hash T) (hs : Orderly T s)
  (hcreates : ReflTransGen (Create T ctx key) s s₁)

include hinj hs hcreates

theorem lookup_of_creates {k : Uint256} {c : CTxLockCandidate}
    (hc : s.mapTxLockCandidates.lookup k = some c) (ho : (c.mapOutPointLocks.lookup o).isSome) :
    ∃ c', s₁.mapTxLockCandidates.lookup k = some c'
      ∧ (c'.mapOutPointLocks.lookup o).isSome := by
  induction hcreates with
  | refl => exact ⟨c, hc, ho⟩
  | tail hfirst hstep ih =>
    obtain ⟨c', hc', ho'⟩ := ih
    obtain ⟨c'', hc'', hlocks⟩ :=
      hstep.lookup_of_covered hinj (hs.of_creates hinj hfirst) hc' ho'
    exact ⟨c'', hc'', (hlocks o).symm ▸ ho'⟩

/-- **The candidates that an event removes were there before the event.** -/
theorem removes_iff_of_creates (hacts : ReflTransGen (Act T ctx (some key) masternode) s₁ s') :
    Removes s₁ s' o ↔ Removes s s' o := by
  constructor
  · rintro ⟨k, c, hc, hnone, ho⟩
    obtain ⟨lock, hlock⟩ := isSome_iff_exists.mp ho
    rcases lookup_lock_of_creates hcreates hc hlock with ⟨c₀, hc₀, hlock₀⟩ | ⟨rfl, hempty⟩
    · exact ⟨k, c₀, hc₀, hnone, by simp [hlock₀]⟩
    · obtain ⟨c', -, hc', -⟩ := NewlyLocked.of_acts ⟨c, lock, hc, hlock, by simp [hempty]⟩ hacts
      simp [hc'] at hnone
  · rintro ⟨k, c, hc, hnone, ho⟩
    obtain ⟨c₁, hc₁, ho₁⟩ := lookup_of_creates hinj hs hcreates hc ho
    exact ⟨k, c₁, hc₁, hnone, ho₁⟩

end

theorem locked_eq_of_creates (hcreates : ReflTransGen (Create T ctx key) s s₁) :
    s₁.mapLockedOutpoints = s.mapLockedOutpoints := by
  induction hcreates with
  | refl => rfl
  | tail _ hstep ih => exact hstep.locked_eq.trans ih

end

/-! ## Events -/

/-- An event that is no request, vote or finalisation for this transaction. The replay of orphan
    votes, which nothing calls, is left out. -/
def InstantSendEvent.ForOther (h : Uint256) (event : InstantSendEvent) : Prop :=
  event.txHash? ≠ some h ∧ ∀ ctx, event ≠ .orphanVotes ctx

/-- **In one event an outpoint stays locked just if no candidate that has it is removed.** -/
theorem locked_iff_of_step {T : Set CTransaction} (hinj : Set.InjOn hash T)
    {s : CInstantSend} (hs : Orderly T s) {event : InstantSendEvent} (hevent : event.Within T)
    {h : Uint256} (hother : event.ForOther h) {o : COutPoint}
    (hlocked : s.mapLockedOutpoints.lookup o = some h) :
    (s.step event).mapLockedOutpoints.lookup o = some h ↔ ¬ Removes s (s.step event) o := by
  rcases step_cases hinj hs hevent hother.2 with
    ⟨ctx, key, masternode, -, hkey, s₁, hcreates, hacts⟩ | ⟨ctx, masternode, -, hacts⟩ | helse
  · rw [← removes_iff_of_creates hinj hs hcreates hacts]
    refine locked_iff_of_acts (hs.of_creates hinj hcreates) (fun h => hother.1 (hkey.trans h)) ?_
      hacts
    rw [locked_eq_of_creates hcreates, hlocked]
  · exact locked_iff_of_acts hs (by simp) hlocked hacts
  · grind [Removes, helse.locked, helse.candidates]

/-- Over a whole run, from any state where requests are filed under their hashes. -/
theorem locked_iff_of_run {T : Set CTransaction} (hinj : Set.InjOn hash T)
    {h : Uint256} (outpoints : List COutPoint) (events : List InstantSendEvent) :
    ∀ {s : CInstantSend}, Orderly T s → (∀ event ∈ events, event.Within T) →
      (∀ event ∈ events, event.ForOther h) →
      (∀ o ∈ outpoints, s.mapLockedOutpoints.lookup o = some h) →
      ((∀ n ≤ events.length, ∀ o ∈ outpoints,
          (s.run (events.take n)).mapLockedOutpoints.lookup o = some h)
        ↔ ∀ n < events.length, ∀ o ∈ outpoints,
          ¬ Removes (s.run (events.take n)) (s.run (events.take (n + 1))) o) := by
  induction events with
  | nil =>
    simp [CInstantSend.run]
  | cons event rest ih =>
    intro s hs hwithin hothers hlocked
    obtain ⟨hevent, hwithin⟩ := List.forall_mem_cons.mp hwithin
    obtain ⟨hother, hothers⟩ := List.forall_mem_cons.mp hothers
    have hstep := fun o ho => locked_iff_of_step hinj hs hevent hother (hlocked o ho)
    have hrest := ih (hs.step hinj hevent) hwithin hothers
    constructor
    · intro hall
      have hnext : ∀ n ≤ rest.length, ∀ o ∈ outpoints,
          ((s.step event).run (rest.take n)).mapLockedOutpoints.lookup o = some h :=
        fun n hn => hall (n + 1) (succ_le_succ hn)
      have hfirst := hnext 0 (zero_le _)
      intro n hn o ho
      cases n with
      | zero => exact (hstep o ho).mp (hfirst o ho)
      | succ n => exact (hrest hfirst).mp hnext n (lt_of_succ_lt_succ hn) o ho
    · intro hkept
      have hfirst : ∀ o ∈ outpoints,
          (s.step event).mapLockedOutpoints.lookup o = some h :=
        fun o ho => (hstep o ho).mpr (hkept 0 (succ_pos _) o ho)
      intro n hn o ho
      cases n with
      | zero => exact hlocked o ho
      | succ n =>
        exact (hrest hfirst).mpr (fun n hn => hkept (n + 1) (succ_lt_succ hn)) n
          (le_of_succ_le_succ hn) o ho

/-- **The inputs of a transaction stay locked just as long as no candidate with one of them is
    removed**, whatever requests, votes and finalisations for other transactions, blocks and expiry
    runs come. The candidate need not be that of the transaction. -/
theorem locks_persist_iff (T : Set CTransaction) (hinj : Set.InjOn hash T)
    (past events : List InstantSendEvent) (hpast : ∀ event ∈ past, event.Within T)
    (hevents : ∀ event ∈ events, event.Within T) (tx : CTransaction)
    (hlocked : ∀ txin ∈ tx.vin,
      (init.run past).mapLockedOutpoints.lookup txin.prevout = some tx.hash)
    (hothers : ∀ event ∈ events, event.ForOther tx.hash) :
    (∀ n ≤ events.length, ∀ txin ∈ tx.vin,
        ((init.run past).run (events.take n)).mapLockedOutpoints.lookup txin.prevout
          = some tx.hash)
      ↔ ∀ n < events.length, ∀ txin ∈ tx.vin, ∀ k c,
        ((init.run past).run (events.take n)).mapTxLockCandidates.lookup k = some c →
        ((init.run past).run (events.take (n + 1))).mapTxLockCandidates.lookup k
          = none →
        (c.mapOutPointLocks.lookup txin.prevout).isSome = false := by
  have hrun := locked_iff_of_run hinj (tx.vin.map CTxIn.prevout) events
    ((orderly_init T).run hinj past hpast) hevents hothers (by simpa using hlocked)
  simp only [List.forall_mem_map] at hrun
  simp [hrun, Removes, not_exists, not_and, Bool.not_eq_true]

/-- The second of the two competing transactions gets into a block at height 10, and its candidate
    expires. -/
def competitorExpires : List InstantSendEvent :=
  [.syncTransaction (openLockContext 1010) (spendOfFive 2) 10, .updatedBlockTip 35,
    .checkAndRemove (openLockContext 1011)]

/-- The clean-up removes the candidate of the second transaction and unlocks the input of the first
    one, whose own candidate is still there. -/
theorem competitor_expiry_unlocks :
    (init.run competingEvents).mapLockedOutpoints.lookup ⟨5, 0⟩ = some 1
      ∧ ((init.run competingEvents).run
        competitorExpires).mapLockedOutpoints.lookup ⟨5, 0⟩ = none
      ∧ (((init.run competingEvents).run
        competitorExpires).mapTxLockCandidates.lookup 1).isSome = true
      ∧ (((init.run competingEvents).run
        competitorExpires).mapTxLockCandidates.lookup 2).isSome = false := by
  decide +kernel

/-- The lock is lost, so a candidate with the input was removed. -/
theorem locks_persist_iff_competitor :
    ¬ ∀ n < competitorExpires.length, ∀ txin ∈ (spendOfFive 1).vin, ∀ k c,
      ((init.run competingEvents).run
        (competitorExpires.take n)).mapTxLockCandidates.lookup k = some c →
      ((init.run competingEvents).run
        (competitorExpires.take (n + 1))).mapTxLockCandidates.lookup k = none →
      (c.mapOutPointLocks.lookup txin.prevout).isSome = false := by
  have hlocked : ∀ txin ∈ (spendOfFive 1).vin,
      (init.run competingEvents).mapLockedOutpoints.lookup txin.prevout
        = some (spendOfFive 1).hash := by decide +kernel
  intro hkept
  have hpersist := (locks_persist_iff {spendOfFive 1, spendOfFive 2}
    (by simp [Set.InjOn, spendOfFive]) competingEvents competitorExpires
    (by simp [competingEvents, InstantSendEvent.Within])
    (by simp [competitorExpires, InstantSendEvent.Within]) (spendOfFive 1) hlocked
    (by simp [competitorExpires, InstantSendEvent.ForOther, InstantSendEvent.txHash?])).mpr hkept 3
    (by decide) ⟨⟨5, 0⟩, [], 0xffffffff⟩ (by simp [spendOfFive])
  exact absurd hpersist (by decide +kernel)

end Binarium
