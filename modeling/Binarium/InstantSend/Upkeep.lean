import Binarium.InstantSend.Votes

set_option autoImplicit false

/-! # Requests that come too late

`CreateTxLockCandidate` gives an empty candidate its request before it looks at the time. When the
candidate has timed out, it is left with a request and without the locks of its inputs. In runs in
which that does not happen all candidates are complete (`candidates_complete_run`). -/

namespace Binarium

open Maps Relation CInstantSend CTxLockCandidate List CTransaction

variable (ctx : LockContext) (s : CInstantSend) {s' : CInstantSend} {T : Set CTransaction}

/-! ## Runs that avoid something -/

/-- No event of the run meets the condition in the state before it. -/
def CInstantSend.never (cond : CInstantSend → InstantSendEvent → Bool) :
    CInstantSend → List InstantSendEvent → Bool
  | _, [] => true
  | s, event :: rest => !cond s event && (s.step event).never cond rest

/-- What all other events keep holds in every state of such a run. -/
theorem run_of_never (hinj : Set.InjOn hash T) {P : CInstantSend → Prop}
    {cond : CInstantSend → InstantSendEvent → Bool}
    (hstep : ∀ s event, Orderly T s → P s → event.Within T → cond s event = false →
      P (s.step event))
    (events : List InstantSendEvent) : ∀ {s : CInstantSend}, Orderly T s → P s →
      (∀ event ∈ events, event.Within T) → s.never cond events = true →
      ∀ before, before <+: events → P (s.run before) := by
  induction events with
  | nil =>
    intro s _ hP _ _ before hbefore
    rwa [prefix_nil.mp hbefore]
  | cons event rest ih =>
    intro s hord hP hevents hnever before hbefore
    simp only [never, Bool.and_eq_true, Bool.not_eq_true'] at hnever
    have hevent := hevents event mem_cons_self
    have hord' := Orderly.run hinj [event] hord (by simpa using hevent)
    rcases before with _ | ⟨first, before⟩
    · exact hP
    · obtain ⟨rfl, hrest⟩ := cons_prefix_cons.mp hbefore
      exact ih hord' (hstep s _ hord hP hevent hnever.1)
        (fun e he => hevents e (mem_cons_of_mem _ he)) hnever.2 before hrest

theorem isSome_addOutPointLocks (c : CTxLockCandidate) (vin : List CTxIn) (o : COutPoint) :
    ((c.addOutPointLocks vin).mapOutPointLocks.lookup o).isSome
      ↔ (c.mapOutPointLocks.lookup o).isSome ∨ o ∈ vin.map CTxIn.prevout := by
  induction vin with
  | nil => simp [addOutPointLocks]
  | cons txin rest ih =>
    simp only [addOutPointLocks, foldr_cons, lookup_insertNew] at ih ⊢
    grind

/-- The candidate of the transaction has the outpoint. -/
def CInstantSend.HasLock (h : Uint256) (o : COutPoint) : Prop :=
  ∃ c, s.mapTxLockCandidates.lookup h = some c ∧ (c.mapOutPointLocks.lookup o).isSome = true

variable {ctx s}

/-! ## Candidates with a request -/

/-- A candidate with a request has locks for exactly the inputs of the request. -/
def CTxLockCandidate.Complete (c : CTxLockCandidate) : Prop :=
  c.txLockRequest.isRequest = true → ∀ o,
    (c.mapOutPointLocks.lookup o).isSome = true ↔ o ∈ c.txLockRequest.vin.map CTxIn.prevout

def CInstantSend.CandidatesComplete (s : CInstantSend) : Prop :=
  ∀ h c, s.mapTxLockCandidates.lookup h = some c → c.Complete

/-- The candidate of the transaction is empty and has timed out. -/
def CInstantSend.isStaleAt (ctx : LockContext) (s : CInstantSend) (h : Uint256) : Bool :=
  (s.mapTxLockCandidates.lookup h).any (·.isStale ctx.time)

section

variable {key : Uint256} (hs : s.CandidatesComplete)

include hs

theorem CInstantSend.CandidatesComplete.insert {c : CTxLockCandidate} (hc : c.Complete) :
    ({ s with mapTxLockCandidates := s.mapTxLockCandidates.insert key c } :
      CInstantSend).CandidatesComplete := by
  intro k c' hc'
  grind [hs k c']

theorem CInstantSend.CandidatesComplete.createEmpty :
    (s.createEmptyTxLockCandidate ctx key).CandidatesComplete :=
  forall_insertNew hs (by simp [Complete, newCandidate, isRequest])

theorem CInstantSend.CandidatesComplete.of_acts {key : Option Uint256} {masternode : COutPoint}
    (h : ReflTransGen (Act T ctx key masternode) s s') : s'.CandidatesComplete := by
  induction h with
  | refl => exact hs
  | tail _ hstep ih =>
    intro k c' hc'
    obtain ⟨c, hc, hshape⟩ := hstep.exists_sameShape hc'
    simpa [Complete, hshape.1, hshape.2] using ih k c hc

/-- Creating leaves complete candidates unless it finds an empty one that has timed out, and it does
    not leave one like that. -/
theorem CInstantSend.CandidatesComplete.of_create (hinj : Set.InjOn hash T) (hord : Orderly T s)
    (hkey : s.isStaleAt ctx key = false) (h : Create T ctx key s s') :
    s'.CandidatesComplete ∧ s'.isStaleAt ctx key = false := by
  have hnew := isSome_addOutPointLocks
  cases h with
  | other hother =>
    simp only [CandidatesComplete, isStaleAt, hother.candidates]
    exact ⟨hs, hkey⟩
  | empty =>
    refine ⟨hs.createEmpty, ?_⟩
    cases hc : s.mapTxLockCandidates.lookup key <;>
      simp_all [isStaleAt, createEmptyTxLockCandidate, lookup_insertNew, newCandidate, isStale,
        isTimedOut, INSTANTSEND_LOCK_TIMEOUT_SECONDS]
  | fresh htx hhash hnone =>
    refine ⟨hs.insert fun _ o => ?_, ?_⟩
    · exact (hnew (newCandidate ctx.time _) _ o).trans (by simp [newCandidate, addOutPointLocks])
    · simp [isStaleAt, isStale, isTimedOut, addOutPointLocks, newCandidate,
        INSTANTSEND_LOCK_TIMEOUT_SECONDS]
  | late htx hhash hc hstale => simp [isStaleAt, hc, hstale] at hkey
  | @fill tx c htx hhash hc hintime =>
    refine ⟨hs.insert fun hrequest o => ?_, ?_⟩
    · rw [hnew]
      refine ⟨fun h => h.elim (fun ho => ?_) id, .inr⟩
      -- a candidate that has an outpoint has this request already
      obtain ⟨hmem, hold, -⟩ := (hord.covers _ c hc).2 o ho
      obtain rfl := hinj hmem htx (hold.trans hhash.symm)
      exact (hs _ c hc hrequest o).mp ho
    · simp_all [isStaleAt, isStale, isTimedOut, addOutPointLocks]

theorem CInstantSend.CandidatesComplete.of_does (hinj : Set.InjOn hash T) (hord : Orderly T s)
    {masternode : COutPoint} (hkey : s.isStaleAt ctx key = false)
    (h : Does T ctx key masternode s s') : s'.CandidatesComplete := by
  obtain ⟨s₁, hcreates, hacts⟩ := h
  have hcreated : s₁.CandidatesComplete ∧ s₁.isStaleAt ctx key = false := by
    clear hacts
    induction hcreates with
    | refl => exact ⟨hs, hkey⟩
    | tail hfirst hstep ih => exact ih.1.of_create hinj (hord.of_creates hinj hfirst) ih.2 hstep
  exact hcreated.1.of_acts hacts

end

/-- Without a stored request a vote brings no request to a candidate. -/
theorem CInstantSend.CandidatesComplete.processTxLockVote (hs : s.CandidatesComplete)
    (hord : Orderly T s) (vote : CTxLockVote)
    (hnone : (s.mapLockRequestAccepted.lookup vote.txHash).or
      (s.mapLockRequestRejected.lookup vote.txHash) = none) :
    (s.processTxLockVote ctx vote).2.CandidatesComplete := by
  have horphan : (s.processOrphanVote ctx vote).2.CandidatesComplete := by
    unfold processOrphanVote
    simp only [createEmptyTxLockCandidate, hnone]
    split_ifs
    · rwa [CandidatesComplete, candidates_limitOrphanVotes]
    · rw [CandidatesComplete, candidates_limitOrphanVotes]
      exact hs.createEmpty
  unfold CInstantSend.processTxLockVote
  split_ifs with hvalid
  · exact hs
  · split
    · exact horphan
    · split_ifs
      · exact horphan
      · exact hs
      · exact hs.of_acts
          (acts_processRequestedVote hord (passedChecks_of_isValid (by simpa using hvalid)))

/-- A valid request comes for an empty candidate that has timed out, or a vote for one comes when the
    request is stored, or the orphan votes are replayed, which nothing makes the node do. -/
def CInstantSend.fillsLate (s : CInstantSend) : InstantSendEvent → Bool
  | .requestMessage ctx tx | .localRequest ctx tx => tx.isValidRequest ctx && s.isStaleAt ctx tx.hash
  | .voteMessage ctx vote => ((s.mapLockRequestAccepted.lookup vote.txHash).or
      (s.mapLockRequestRejected.lookup vote.txHash)).isSome && s.isStaleAt ctx vote.txHash
  | .orphanVotes _ => true
  | _ => false

theorem CInstantSend.CandidatesComplete.step (hs : s.CandidatesComplete) (hord : Orderly T s)
    (hinj : Set.InjOn hash T) {event : InstantSendEvent} (hevent : event.Within T)
    (hlate : s.fillsLate event = false) : (s.step event).CandidatesComplete := by
  have hinvalid : ∀ ctx (tx : CTransaction), tx.isValidRequest ctx = false →
      s.processTxLockRequest ctx tx = (false, s) := by
    intro ctx tx hvalid
    simp [CInstantSend.processTxLockRequest, createTxLockCandidate, hvalid]
  cases event with
  | requestMessage ctx tx =>
    cases hvalid : tx.isValidRequest ctx with
    | false => simpa [CInstantSend.step, processRequestMessage, hinvalid ctx tx hvalid] using hs
    | true =>
      exact hs.of_does hinj hord (by simpa [fillsLate, hvalid] using hlate)
        (does_processRequestMessage hinj hord hevent)
  | localRequest ctx tx =>
    cases hvalid : tx.isValidRequest ctx with
    | false => simpa [CInstantSend.step, hinvalid ctx tx hvalid] using hs
    | true =>
      have hdoes : Does T ctx tx.hash ctx.activeMasternode s _ :=
        does_processTxLockRequest hinj hord (.inl ⟨hevent, rfl⟩)
      exact hs.of_does hinj hord (by simpa [fillsLate, hvalid] using hlate) hdoes
  | voteMessage ctx vote =>
    cases hstored : (s.mapLockRequestAccepted.lookup vote.txHash).or
      (s.mapLockRequestRejected.lookup vote.txHash) with
    | some tx =>
      exact hs.of_does hinj hord (by simpa [fillsLate, hstored] using hlate)
        (does_processVoteMessage hinj hord vote)
    | none =>
      cases hstores : s.storesVote ctx vote with
      | false => rwa [CInstantSend.step, processVoteMessage_of_not_stores hstores]
      | true =>
        have hvotes : Orderly T { s with
            mapTxLockVotes := s.mapTxLockVotes.insert (vote.getHash ctx) (vote.received ctx) } :=
          hord.of_elsewhere (.of_eq rfl rfl rfl rfl)
        have hsame : ({ s with
            mapTxLockVotes := s.mapTxLockVotes.insert (vote.getHash ctx) (vote.received ctx) } :
              CInstantSend).CandidatesComplete := hs
        rw [CInstantSend.step, processVoteMessage_of_stores hstores]
        exact hsame.processTxLockVote hvotes _ hstored
  | ownVote ctx txHash => exact hs.of_acts (acts_vote hord)
  | orphanVotes ctx => simp [fillsLate] at hlate
  | finalize ctx txHash =>
    have hacts : ReflTransGen (Act T ctx (some txHash) ctx.activeMasternode) s _ :=
      acts_tryToFinalize hord
    exact hs.of_acts hacts
  | syncTransaction ctx tx nHeightNew =>
    have hacts : ReflTransGen (Act T ctx none ctx.activeMasternode) s _ :=
      acts_syncTransaction s tx nHeightNew
    exact hs.of_acts hacts
  | updatedBlockTip nHeight => exact hs
  | checkAndRemove ctx => exact fun k c hc => hs k c ((cleanUp_checkAndRemove ctx s).candidates k c hc)

/-- **When the candidates are complete.** In every run in which no request comes to an empty candidate
    that has timed out, each candidate with a request has locks for exactly its inputs, in every state
    on the way. -/
theorem candidates_complete_run (T : Set CTransaction) (hinj : Set.InjOn CTransaction.hash T)
    (events : List InstantSendEvent) (hevents : ∀ event ∈ events, event.Within T)
    (hlate : init.never fillsLate events = true) :
    ∀ before, before <+: events → (init.run before).CandidatesComplete :=
  run_of_never hinj (fun _ _ hord hs hevent => hs.step hord hinj hevent) events (orderly_init T)
    (by simp [CandidatesComplete, init]) hevents hlate

/-- An early vote makes an empty candidate, and the request comes later. -/
def earlyVoteEvents (requestTime : ℤ) : List InstantSendEvent :=
  [.voteMessage (openLockContext 1000) (voteForSpend 1 1),
    .requestMessage (openLockContext requestTime) (spendOfFive 1)]

/-- When the candidate has timed out, it gets the request, but no lock. -/
theorem late_request_incomplete : ¬ (init.run (earlyVoteEvents 1016)).CandidatesComplete := by
  intro h
  have hlock := (h 1 ⟨-1, 1000, spendOfFive 1, ∅⟩ (by rfl) (by decide) ⟨5, 0⟩).mpr (by decide)
  simp at hlock

/-- In time the request completes the candidate. -/
theorem candidates_complete_in_time :
    (init.run (earlyVoteEvents 1015)).HasLock 1 ⟨5, 0⟩
      ∧ (init.run (earlyVoteEvents 1015)).CandidatesComplete :=
  ⟨⟨_, rfl, by decide +kernel⟩, candidates_complete_run {spendOfFive 1} (Set.injOn_singleton _ _)
    (earlyVoteEvents 1015) (by simp [earlyVoteEvents, InstantSendEvent.Within]) (by decide +kernel)
    _ (prefix_refl _)⟩

end Binarium
