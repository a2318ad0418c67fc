import Binarium.InstantSend.Exclusion

set_option autoImplicit false

/-! # Which votes are counted

A transaction is locked by the votes of masternodes. Two questions about them are answered here.

Are there enough votes behind a lock? `QuorumInv` says that all votes in candidates were checked for
the outpoint they are stored at, and that behind every locked outpoint there is a candidate with six
votes for each of its outpoints. Candidates that have their votes get no further outpoints, because a
candidate with outpoints has all inputs of its request, and the clean-up unlocks all outpoints of the
candidates it removes.

Are votes that are not counted without effect? They are not. `ProcessMessage` stores the hash of a
vote before the signature is checked, and the hash leaves the signature out, so a vote with a bad
signature makes the node ignore the genuine one. -/

namespace Binarium

open Maps

/-! ## The quorum behind a lock -/

/-- The vote that a candidate has from a masternode for an outpoint. -/
def CInstantSend.recordedVote (s : CInstantSend) (txHash : Uint256) (outpoint masternode : COutPoint) :
    Option CTxLockVote := do
  let candidate ← s.mapTxLockCandidates.lookup txHash
  let lock ← candidate.mapOutPointLocks.lookup outpoint
  lock.mapMasternodeVotes.lookup masternode

/-- A vote of this masternode for this outpoint and transaction that passed the checks. -/
def GenuineVote (C : Set LockContext) (h : Uint256) (outpoint masternode : COutPoint)
    (vote : CTxLockVote) : Prop :=
  vote.txHash = h ∧ vote.outpoint = outpoint ∧ vote.outpointMasternode = masternode
    ∧ ∃ ctx ∈ C, PassedChecks ctx vote

/-- All outpoints have the votes they need. -/
def CTxLockCandidate.HasQuorum (c : CTxLockCandidate) : Prop :=
  ∀ o lock, c.mapOutPointLocks.lookup o = some lock →
    SIGNATURES_REQUIRED ≤ lock.mapMasternodeVotes.keys.length

/-- The invariant of all runs in the contexts `C`. -/
structure QuorumInv (C : Set LockContext) (s : CInstantSend) : Prop where
  votes : ∀ h c o lock, s.mapTxLockCandidates.lookup h = some c →
    c.mapOutPointLocks.lookup o = some lock → ∀ masternode vote,
    lock.mapMasternodeVotes.lookup masternode = some vote → GenuineVote C h o masternode vote
  quorum : ∀ o h, s.mapLockedOutpoints.lookup o = some h →
    ∃ c, s.mapTxLockCandidates.lookup h = some c ∧ (c.mapOutPointLocks.lookup o).isSome = true
      ∧ c.HasQuorum

open CInstantSend

theorem quorumInv_init (C : Set LockContext) : QuorumInv C init :=
  ⟨by simp [init], by simp [init]⟩

variable {c : CTxLockCandidate} {vote : CTxLockVote}

theorem hasQuorum_of_ready (h : c.isAllOutPointsReady) : c.HasQuorum := by
  intro o lock hlock
  have hall := (forAll_iff _ _).mp (Bool.and_eq_true_iff.mp h).2 o lock hlock
  have hkeys : lock.mapMasternodeVotes.keys.length = lock.mapMasternodeVotes.entries.length := by
    simp [AList.keys, List.keys]
  grind [COutPointLock.isReady, COutPointLock.countVotes]

theorem length_keys_le_insert (m : AList fun _ : COutPoint => CTxLockVote) (k : COutPoint)
    (v : CTxLockVote) : m.keys.length ≤ (m.insert k v).keys.length := by
  rw [AList.keys_insert, List.length_cons, List.length_erase]
  split_ifs
  · omega
  · omega

section

variable {T : Set CTransaction} {C : Set LockContext} {ctx : LockContext}
  {masternode : COutPoint} {s s' : CInstantSend}

theorem QuorumInv.of_elsewhere (hs : QuorumInv C s) (h : Elsewhere T s s') : QuorumInv C s' :=
  ⟨h.candidates ▸ hs.votes, h.candidates ▸ h.locked ▸ hs.quorum⟩

/-- New outpoints have no votes yet, and candidates with a quorum get none. -/
theorem QuorumInv.of_create (hinj : Set.InjOn CTransaction.hash T) {key : Uint256}
    (hs : QuorumInv C s) (hord : Orderly T s) (h : Create T ctx key s s') : QuorumInv C s' := by
  refine ⟨fun k c' o lock hc' hlock m vote hvote => ?_, fun o k hk => ?_⟩
  · have hvotes := hs.votes k
    rcases h.lookup_lock hc' hlock with ⟨c, hc, hold⟩ | ⟨-, hempty⟩
    · exact hvotes c o lock hc hold m vote hvote
    · simp [hempty] at hvote
  · rw [h.locked_eq] at hk
    obtain ⟨c, hc, ho, hquorum⟩ := hs.quorum o k hk
    obtain ⟨c', hc', hlocks⟩ := h.lookup_of_covered hinj hord hc ho
    exact ⟨c', hc', hlocks o ▸ ho, fun o' lock hlock => hquorum o' lock (hlocks o' ▸ hlock)⟩

theorem genuineVote_of_countedIn (hord : Orderly T s) (hctx : ctx ∈ C) {key : Option Uint256}
    {k : Uint256} {o m : COutPoint} {lock lock' : COutPointLock}
    (hc : s.mapTxLockCandidates.lookup k = some c) (hlock : c.mapOutPointLocks.lookup o = some lock)
    (hold : ∀ m vote, lock.mapMasternodeVotes.lookup m = some vote → GenuineVote C k o m vote)
    (hcounted : CountedIn ctx key masternode k c o lock lock')
    (hvote : lock'.mapMasternodeVotes.lookup m = some vote) : GenuineVote C k o m vote := by
  obtain ⟨new, -, ho, hm, hpassed, hhash, hvotes⟩ := hcounted
  obtain ⟨-, hrequest, -⟩ := (hord.covers k c hc).2 o (by rw [hlock]; rfl)
  grind [GenuineVote]

theorem QuorumInv.of_act (hctx : ctx ∈ C) {key : Option Uint256} (hs : QuorumInv C s)
    (hord : Orderly T s) (h : Act T ctx key masternode s s') : QuorumInv C s' := by
  -- a candidate that was not removed keeps its quorum
  have hkeeps : ∀ {k c o}, s.mapTxLockCandidates.lookup k = some c →
      (c.mapOutPointLocks.lookup o).isSome → c.HasQuorum →
      (s'.mapTxLockCandidates.lookup k).isSome →
      ∃ c', s'.mapTxLockCandidates.lookup k = some c'
        ∧ (c'.mapOutPointLocks.lookup o).isSome ∧ c'.HasQuorum := by
    intro k c o hc ho hquorum hsome
    obtain ⟨c', hc'⟩ := Option.isSome_iff_exists.mp hsome
    refine ⟨c', hc', ?_, fun o' lock' hlock' => ?_⟩
    · obtain ⟨c₀, hc₀, hshape⟩ := h.exists_sameShape hc'
      grind [hshape.2 o]
    · obtain ⟨c₀, lock, hc₀, hlock, hvotes⟩ := h.lookup_lock hc' hlock'
      have hcount := hquorum o' lock
      have hinsert := length_keys_le_insert lock.mapMasternodeVotes masternode
      grind [CountedIn]
  refine ⟨fun k c' o lock' hc' hlock' m vote hvote => ?_, fun o k hk => ?_⟩
  · obtain ⟨c, lock, hc, hlock, hsame | hcounted⟩ := h.lookup_lock hc' hlock'
    · exact hs.votes k c o lock hc hlock m vote (hsame ▸ hvote)
    · exact genuineVote_of_countedIn hord hctx hc hlock (hs.votes k c o lock hc hlock) hcounted
        hvote
  · rcases h.cases with ⟨hlocked, hsome⟩ | ⟨k₀, c₀, -, hc₀, hready, hcandidates, hlocked⟩
      | ⟨hclean, -⟩
    · obtain ⟨c, hc, ho, hquorum⟩ := hs.quorum o k (hlocked ▸ hk)
      exact hkeeps hc ho hquorum ((hsome k).trans (by rw [hc]; rfl))
    · -- locked before, or just now
      have hold := hs.quorum o k
      have hrequest := (hord.covers k₀ c₀ hc₀).2 o
      cases hlocked₀ : s.mapLockedOutpoints.lookup o <;> grind [hasQuorum_of_ready]
    · obtain ⟨c, hc, ho, hquorum⟩ := hs.quorum o k (hclean.lookup_locked hk)
      -- a candidate that is removed is unlocked
      have hunlocked := hclean.unlocked k c o hc
      cases hnew : s'.mapTxLockCandidates.lookup k <;> grind

theorem quorumInv_keptBy (hinj : Set.InjOn CTransaction.hash T) : KeptBy T C (QuorumInv C) :=
  ⟨fun _ _ _ _ _ hord hs h => hs.of_create hinj hord h,
    fun _ hctx _ _ _ _ hord hs h => hs.of_act hctx hord h, fun _ _ hs h => hs.of_elsewhere h⟩

end

theorem recordedVote_of_lookup {s : CInstantSend} {h : Uint256} {o m : COutPoint}
    {lock : COutPointLock} (hc : s.mapTxLockCandidates.lookup h = some c)
    (hlock : c.mapOutPointLocks.lookup o = some lock) :
    s.recordedVote h o m = lock.mapMasternodeVotes.lookup m := by
  simp [recordedVote, hc, hlock]

/-- **Behind every lock there are six votes for each input**: from different masternodes, recorded in
    the candidate of the transaction, and each of them passed the checks of rank and signature for
    that outpoint when it came. This holds after every sequence of requests, votes, finalisations,
    blocks and expiry runs, if different transactions have different hashes. -/
theorem locked_inputs_have_quorum (T : Set CTransaction) (hinj : Set.InjOn CTransaction.hash T)
    (events : List InstantSendEvent) (hevents : ∀ event ∈ events, event.Within T)
    (tx : CTransaction) (htx : tx ∈ T) (outpoint : COutPoint)
    (hlocked : (init.run events).mapLockedOutpoints.lookup outpoint = some tx.hash) :
    ∀ txin ∈ tx.vin, ∃ masternodes : Finset COutPoint, SIGNATURES_REQUIRED ≤ masternodes.card
      ∧ ∀ masternode ∈ masternodes, ∃ vote,
        (init.run events).recordedVote tx.hash txin.prevout masternode = some vote
          ∧ vote.txHash = tx.hash ∧ vote.outpoint = txin.prevout
          ∧ vote.outpointMasternode = masternode
          ∧ ∃ event ∈ events, ∃ ctx, event.context = some ctx ∧ PassedChecks ctx vote := by
  intro txin hin
  let C : Set LockContext := { ctx | ∃ event ∈ events, event.context = some ctx }
  obtain ⟨hord, hs⟩ := (quorumInv_keptBy (C := C) hinj).run hinj events hevents
    (fun event hevent ctx hctx => ⟨event, hevent, hctx⟩) (orderly_init T) (quorumInv_init C)
  obtain ⟨c, hc, ho, hquorum⟩ := hs.quorum outpoint tx.hash hlocked
  -- the candidate is that of the transaction, so the input is one of its outpoints
  obtain ⟨hmem, hhash, hinputs⟩ := (hord.covers _ c hc).2 outpoint ho
  rw [hinj hmem htx hhash] at hinputs
  obtain ⟨lock, hlock⟩ := Option.isSome_iff_exists.mp (hinputs txin hin)
  refine ⟨lock.mapMasternodeVotes.keys.toFinset, ?_, fun masternode hmasternode => ?_⟩
  · simp [List.toFinset_card_of_nodup (AList.keys_nodup _), hquorum txin.prevout lock hlock]
  · rw [List.mem_toFinset, mem_keys_iff_isSome] at hmasternode
    obtain ⟨vote, hvote⟩ := Option.isSome_iff_exists.mp hmasternode
    obtain ⟨hvhash, hvout, hvmn, ctx, ⟨event, hevent, hctx⟩, hpassed⟩ :=
      hs.votes tx.hash c txin.prevout lock hc hlock masternode vote hvote
    exact ⟨vote, (recordedVote_of_lookup hc hlock).trans hvote, hvhash, hvout, hvmn, event, hevent,
      ctx, hctx, hpassed⟩

/-- Six votes lock the first of two competing transactions. -/
theorem locked_inputs_have_quorum_competing :
    (init.run competingEvents).mapLockedOutpoints.lookup ⟨5, 0⟩ = some 1
      ∧ ∃ masternodes : Finset COutPoint, SIGNATURES_REQUIRED ≤ masternodes.card
        ∧ ∀ masternode ∈ masternodes, ((init.run competingEvents).recordedVote 1 ⟨5, 0⟩
          masternode).isSome = true := by
  have hlocked : (init.run competingEvents).mapLockedOutpoints.lookup ⟨5, 0⟩
      = some (spendOfFive 1).hash := by decide +kernel
  obtain ⟨masternodes, hcard, hvotes⟩ := locked_inputs_have_quorum {spendOfFive 1, spendOfFive 2}
    (by simp [Set.InjOn, spendOfFive]) competingEvents
    (by simp [competingEvents, InstantSendEvent.Within]) (spendOfFive 1) (by simp) ⟨5, 0⟩ hlocked
    ⟨⟨5, 0⟩, [], 0xffffffff⟩ (by simp [spendOfFive])
  refine ⟨hlocked, masternodes, hcard, fun masternode hmasternode => ?_⟩
  obtain ⟨vote, hvote, -⟩ := hvotes masternode hmasternode
  exact Option.isSome_iff_exists.mpr ⟨vote, hvote⟩

/-! ## Votes with a bad signature -/

/-- A vote as it is read from the network. -/
def CTxLockVote.received (ctx : LockContext) (vote : CTxLockVote) : CTxLockVote :=
  { vote with nConfirmedHeight := -1, nTimeCreated := ctx.time }

/-- Whether `ProcessMessage` gets to storing the vote. -/
def CInstantSend.storesVote (ctx : LockContext) (s : CInstantSend) (vote : CTxLockVote) : Bool :=
  !ctx.fLiteMode && ctx.spork2InstantSendEnabled && ctx.peerIsUpdated && ctx.isMasternodeListSynced
    && (s.mapTxLockVotes.lookup (vote.getHash ctx)).isNone

section

variable {ctx : LockContext} {s : CInstantSend}

theorem processVoteMessage_of_not_stores (h : s.storesVote ctx vote = false) :
    s.processVoteMessage ctx vote = s := by
  have hhash : (vote.received ctx).getHash ctx = vote.getHash ctx := rfl
  unfold processVoteMessage
  grind [storesVote, CTxLockVote.received]

theorem processVoteMessage_of_stores (h : s.storesVote ctx vote) :
    s.processVoteMessage ctx vote = (({ s with
      mapTxLockVotes := s.mapTxLockVotes.insert (vote.getHash ctx) (vote.received ctx) } :
        CInstantSend).processTxLockVote ctx (vote.received ctx)).2 := by
  have hhash : (vote.received ctx).getHash ctx = vote.getHash ctx := rfl
  unfold processVoteMessage
  grind [storesVote, CTxLockVote.received]

/-- A vote with a bad signature is stored, and that is all. -/
theorem processVoteMessage_of_bad_signature (hstores : s.storesVote ctx vote)
    (hbad : ctx.checkSignature (vote.received ctx) = false) :
    s.processVoteMessage ctx vote = { s with
      mapTxLockVotes := s.mapTxLockVotes.insert (vote.getHash ctx) (vote.received ctx) } := by
  have hvalid : (vote.received ctx).isValid ctx = false := by
    grind [→ passedChecks_of_isValid, PassedChecks]
  rw [processVoteMessage_of_stores hstores, processTxLockVote]
  simp [hvalid]

end

/-- Two votes for the same transaction and outpoint in the name of the same masternode; the signature
    of the first is bad at both times and that of the second is good when it comes. -/
structure ForgedAndGenuine (ctx₁ ctx₂ : LockContext) (bad good : CTxLockVote) : Prop where
  hashes : ctx₂.voteHash = ctx₁.voteHash
  txHash : good.txHash = bad.txHash
  outpoint : good.outpoint = bad.outpoint
  masternode : good.outpointMasternode = bad.outpointMasternode
  forged : ctx₁.checkSignature (bad.received ctx₁) = false
    ∧ ctx₂.checkSignature (bad.received ctx₂) = false
  genuine : ctx₂.checkSignature (good.received ctx₂) = true

/-- The node has no candidate for the transaction of a vote and does not keep the vote as an orphan. -/
def CInstantSend.unseen (ctx : LockContext) (s : CInstantSend) (vote : CTxLockVote) : Bool :=
  (s.mapTxLockCandidates.lookup vote.txHash).isNone
    && (s.mapTxLockVotesOrphan.lookup (vote.getHash ctx)).isNone

/-- Whatever the node gets after the forged vote, the genuine vote then leaves the candidates and the
    locks that it leaves if the forged vote does not come. -/
def CInstantSend.GenuineVoteUnaffected (ctx₁ : LockContext) (s : CInstantSend) (bad : CTxLockVote) :
    Prop :=
  ∀ (events : List InstantSendEvent) (ctx₂ : LockContext) (good : CTxLockVote),
    (∀ event ∈ events, ∀ ctx, event.context = some ctx → ctx.voteHash = ctx₁.voteHash) →
    ForgedAndGenuine ctx₁ ctx₂ bad good →
    (((s.processVoteMessage ctx₁ bad).run events).processVoteMessage ctx₂ good).mapTxLockCandidates
        = ((s.run events).processVoteMessage ctx₂ good).mapTxLockCandidates
      ∧ (((s.processVoteMessage ctx₁ bad).run events).processVoteMessage ctx₂ good).mapLockedOutpoints
        = ((s.run events).processVoteMessage ctx₂ good).mapLockedOutpoints

section

variable (ctx : LockContext) (bad : CTxLockVote)

/-- The same vote with another signature. -/
def genuineVote : CTxLockVote :=
  { bad with vchMasternodeSignature := 0 :: bad.vchMasternodeSignature }

/-- A context in which votes with that signature are valid and no request is. -/
def acceptingContext : LockContext :=
  { ctx with
    checkFinalTx := fun _ => false
    hasMasternode := fun _ => true
    getUTXOCoin := fun _ => some ⟨⟨0, []⟩, false, 0⟩
    getMasternodeRank := fun _ _ => some 1
    checkSignature := fun vote =>
      decide (vote.vchMasternodeSignature = (genuineVote bad).vchMasternodeSignature) }

end

section

variable {ctx : LockContext} {s : CInstantSend} {bad : CTxLockVote}

theorem candidates_limitOrphanVotes :
    (s.limitOrphanVotes ctx vote).2.mapTxLockCandidates = s.mapTxLockCandidates := by
  unfold limitOrphanVotes
  split
  · rfl
  · split_ifs <;> rfl

/-- A vote without a candidate makes one. -/
theorem isSome_processOrphanVote (s : CInstantSend) (vote : CTxLockVote)
    (hinvalid : ∀ tx, CTransaction.isValidRequest ctx tx = false)
    (horphan : s.mapTxLockVotesOrphan.lookup (vote.getHash ctx) = none) :
    ((s.processOrphanVote ctx vote).2.mapTxLockCandidates.lookup vote.txHash).isSome := by
  have hcreated : ((s.createEmptyTxLockCandidate ctx vote.txHash).mapTxLockCandidates.lookup
      vote.txHash).isSome := by
    simp [createEmptyTxLockCandidate, lookup_insertNew]
  unfold processOrphanVote
  simp only [horphan, Option.isSome_none, Bool.false_eq_true, if_false]
  split
  · rwa [candidates_limitOrphanVotes]
  · split_ifs
    · simpa [processTxLockRequest, createTxLockCandidate, hinvalid] using hcreated
    · rwa [candidates_limitOrphanVotes]

/-- Without the forged vote the genuine one makes a candidate. -/
theorem isSome_genuine_vote (hstores : s.storesVote ctx bad) (hunseen : s.unseen ctx bad) :
    ((s.processVoteMessage (acceptingContext ctx bad) (genuineVote bad)).mapTxLockCandidates.lookup
      bad.txHash).isSome := by
  obtain ⟨hnone, horphan⟩ := Bool.and_eq_true_iff.mp hunseen
  rw [Option.isNone_iff_eq_none] at hnone horphan
  have hgood : s.storesVote (acceptingContext ctx bad) (genuineVote bad) := hstores
  have hvalid : ((genuineVote bad).received (acceptingContext ctx bad)).isValid
      (acceptingContext ctx bad) := by
    simp [CTxLockVote.isValid, acceptingContext, genuineVote, CTxLockVote.received, SIGNATURES_TOTAL]
  have hinvalid : ∀ tx, CTransaction.isValidRequest (acceptingContext ctx bad) tx = false := by
    simp [CTransaction.isValidRequest, acceptingContext]
  rw [processVoteMessage_of_stores hgood, processTxLockVote, hvalid]
  simp only [Bool.not_true, Bool.false_eq_true, if_false]
  split
  · exact isSome_processOrphanVote _ ((genuineVote bad).received _) hinvalid horphan
  · next c hc => exact absurd (hnone.symm.trans hc) (by simp)

/-- With it the genuine vote does nothing. -/
theorem lookup_forged_vote (hbad : ctx.checkSignature (bad.received ctx) = false)
    (hstores : s.storesVote ctx bad) (hunseen : s.unseen ctx bad) :
    ((s.processVoteMessage ctx bad).processVoteMessage (acceptingContext ctx bad)
      (genuineVote bad)).mapTxLockCandidates.lookup bad.txHash = none := by
  rw [processVoteMessage_of_bad_signature hstores hbad, processVoteMessage_of_not_stores]
  · exact Option.isNone_iff_eq_none.mp (Bool.and_eq_true_iff.mp hunseen).1
  · have hhash : (genuineVote bad).getHash (acceptingContext ctx bad) = bad.getHash ctx := rfl
    rw [storesVote, hhash, AList.lookup_insert]
    simp

end

/-- **A vote with a bad signature suppresses the genuine vote of the same masternode for the same
    transaction and outpoint** if it is stored, when the node has not seen the transaction. -/
theorem genuine_vote_unaffected_iff (s : CInstantSend) (ctx₁ : LockContext) (bad : CTxLockVote)
    (hbad : ctx₁.checkSignature (bad.received ctx₁) = false) :
    (s.storesVote ctx₁ bad = false → s.GenuineVoteUnaffected ctx₁ bad)
      ∧ (s.unseen ctx₁ bad = true → s.GenuineVoteUnaffected ctx₁ bad →
        s.storesVote ctx₁ bad = false) := by
  refine ⟨fun hnot events ctx₂ good _ _ => ?_, fun hunseen hsame => ?_⟩
  · rw [processVoteMessage_of_not_stores hnot]
    exact ⟨rfl, rfl⟩
  · by_contra hstores
    have hstores : s.storesVote ctx₁ bad = true := by simpa using hstores
    have hpair : ForgedAndGenuine ctx₁ (acceptingContext ctx₁ bad) bad (genuineVote bad) :=
      ⟨rfl, rfl, rfl, rfl, ⟨hbad, by simp [acceptingContext, CTxLockVote.received, genuineVote]⟩,
        by simp [acceptingContext, CTxLockVote.received]⟩
    -- only the node without the forged vote makes a candidate
    have hcandidates : ((s.processVoteMessage ctx₁ bad).processVoteMessage _ _).mapTxLockCandidates
        = (s.processVoteMessage _ _).mapTxLockCandidates := (hsame [] _ _ (by simp) hpair).1
    have hmade := isSome_genuine_vote hstores hunseen
    rw [← hcandidates, lookup_forged_vote hbad hstores hunseen] at hmade
    simp at hmade

/-- A node where the signature of a vote is a single one. -/
def signedLockContext (time : ℤ) : LockContext :=
  { openLockContext time with
    checkSignature := fun vote => decide (vote.vchMasternodeSignature = [1]) }

/-- A vote of a masternode for the first spend, with a signature. -/
def signedVote (masternode : ℕ) (signature : List UInt8) : CTxLockVote :=
  { voteForSpend 1 masternode with vchMasternodeSignature := signature }

/-- A request and five genuine votes for it. -/
def fiveVotes : List InstantSendEvent :=
  .requestMessage (signedLockContext 1000) (spendOfFive 1)
    :: [1, 2, 3, 4, 5].map fun masternode =>
      .voteMessage (signedLockContext 1001) (signedVote masternode [1])

/-- The sixth vote locks the transaction, but not after a forged one. -/
theorem forged_vote_suppresses_lock :
    ((init.run fiveVotes).processVoteMessage (signedLockContext 1003)
        (signedVote 6 [1])).mapLockedOutpoints.lookup ⟨5, 0⟩ = some 1
      ∧ (((init.run fiveVotes).processVoteMessage (signedLockContext 1002)
        (signedVote 6 [2])).processVoteMessage (signedLockContext 1003)
          (signedVote 6 [1])).mapLockedOutpoints.lookup ⟨5, 0⟩ = none := by
  decide +kernel

/-- A forged vote that comes after the genuine one was stored does no harm: the sixth vote still locks
    the transaction. -/
theorem genuine_vote_unaffected_later :
    ((((init.run fiveVotes).processVoteMessage (signedLockContext 1002) (signedVote 5 [2])).run
        [.voteMessage (signedLockContext 1003) (signedVote 6 [1])]).processVoteMessage
          (signedLockContext 1004) (signedVote 5 [1])).mapLockedOutpoints.lookup ⟨5, 0⟩ = some 1 := by
  rw [((genuine_vote_unaffected_iff (init.run fiveVotes) (signedLockContext 1002) (signedVote 5 [2])
    (by decide)).1 (by decide +kernel) [.voteMessage (signedLockContext 1003) (signedVote 6 [1])]
      (signedLockContext 1004) (signedVote 5 [1]) (by simp [InstantSendEvent.context]; rfl)
        ⟨rfl, rfl, rfl, rfl, by decide, by decide⟩).2]
  decide +kernel

end Binarium
