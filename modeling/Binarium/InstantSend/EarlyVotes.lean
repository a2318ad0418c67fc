import Binarium.InstantSend.Exclusion

set_option autoImplicit false

/-! # Votes that come before the request

"Masternodes will sometimes propagate votes before the transaction is known to the client, will
actually process only after the lock request itself has arrived", says `ProcessTxLockVote`, and
stores such votes as orphans. The function that would process them, `ProcessOrphanTxLockVotes`, is
never called. So votes that come before the request do not count: two nodes that get the same
request and the same votes after it agree on whether it is locked, whatever votes one of them got
before.

The proof follows both nodes. Until the request comes, a node has at most an empty candidate for the
transaction (`Pending`), and an early vote changes nothing outside this candidate and the stores of
votes (`SameElsewhere`). From the request on the two candidates differ in their creation time only
(`Agree`), which matters for nothing as long as it is within the time limit. -/

namespace Binarium

open Maps CInstantSend List CTxLockCandidate

variable {s : CInstantSend} {vote : CTxLockVote}

section

variable (h : Uint256)

/-! ## Before the request -/

/-- No candidate for the transaction but an empty one, made not before `start`, and no earlier
    request. -/
structure Pending (start : ℤ) (s : CInstantSend) : Prop where
  candidate : ∀ c, s.mapTxLockCandidates.lookup h = some c →
    start ≤ c.nTimeCreated ∧ c = newCandidate c.nTimeCreated emptyLockRequest
  accepted : s.mapLockRequestAccepted.lookup h = none
  rejected : s.mapLockRequestRejected.lookup h = none

/-- The same state, but for the candidate of the transaction, the votes with these hashes, and the
    orphan votes. -/
structure SameElsewhere (hashes : List Uint256) (s₁ s₂ : CInstantSend) : Prop where
  height : s₁.nCachedBlockHeight = s₂.nCachedBlockHeight
  accepted : s₁.mapLockRequestAccepted = s₂.mapLockRequestAccepted
  rejected : s₁.mapLockRequestRejected = s₂.mapLockRequestRejected
  voted : s₁.mapVotedOutpoints = s₂.mapVotedOutpoints
  locked : s₁.mapLockedOutpoints = s₂.mapLockedOutpoints
  candidates : ∀ k, k ≠ h → s₁.mapTxLockCandidates.lookup k = s₂.mapTxLockCandidates.lookup k
  votes : ∀ k, k ∉ hashes →
    (s₁.mapTxLockVotes.lookup k).isSome = (s₂.mapTxLockVotes.lookup k).isSome

variable {h} (hashes : List Uint256) {start : ℤ}

theorem SameElsewhere.refl (s : CInstantSend) : SameElsewhere h hashes s s :=
  ⟨rfl, rfl, rfl, rfl, rfl, fun _ _ => rfl, fun _ _ => rfl⟩

variable {hashes} in
theorem SameElsewhere.trans {s₁ s₂ s₃ : CInstantSend} (h₁₂ : SameElsewhere h hashes s₁ s₂)
    (h₂₃ : SameElsewhere h hashes s₂ s₃) : SameElsewhere h hashes s₁ s₃ :=
  ⟨h₁₂.height.trans h₂₃.height, h₁₂.accepted.trans h₂₃.accepted, h₁₂.rejected.trans h₂₃.rejected,
    h₁₂.voted.trans h₂₃.voted, h₁₂.locked.trans h₂₃.locked,
    fun k hk => (h₁₂.candidates k hk).trans (h₂₃.candidates k hk),
    fun k hk => (h₁₂.votes k hk).trans (h₂₃.votes k hk)⟩

open SameElsewhere

section

variable (ctx : LockContext)

/-- The rate limit touches nothing that is compared. -/
theorem limitOrphanVotes_spec (vote : CTxLockVote) (hs : Pending h start s) :
    Pending h start (s.limitOrphanVotes ctx vote).2
      ∧ SameElsewhere h hashes (s.limitOrphanVotes ctx vote).2 s := by
  unfold limitOrphanVotes
  split
  · exact ⟨{ hs with }, { refl hashes s with }⟩
  · split
    · exact ⟨hs, refl hashes s⟩
    · exact ⟨{ hs with }, { refl hashes s with }⟩

theorem createEmptyTxLockCandidate_spec (htime : start ≤ ctx.time) (hs : Pending h start s) :
    Pending h start (s.createEmptyTxLockCandidate ctx h)
      ∧ SameElsewhere h hashes (s.createEmptyTxLockCandidate ctx h) s := by
  refine ⟨{ hs with candidate := fun c hc => ?_ }, { SameElsewhere.refl (h := h) hashes s with
    candidates := fun k hk => by grind [createEmptyTxLockCandidate] }⟩
  have hold := hs.candidate
  cases hcandidate : s.mapTxLockCandidates.lookup h <;>
    grind [createEmptyTxLockCandidate, newCandidate]

/-- A vote without a request is stored as an orphan and counted nowhere. -/
theorem processOrphanVote_spec (htime : start ≤ ctx.time) (vote : CTxLockVote)
    (hvote : vote.txHash = h) (hs : Pending h start s) :
    Pending h start (s.processOrphanVote ctx vote).2
      ∧ SameElsewhere h hashes (s.processOrphanVote ctx vote).2 s := by
  subst hvote
  obtain ⟨hempty, hsame⟩ := createEmptyTxLockCandidate_spec hashes ctx htime hs
  unfold processOrphanVote
  split
  · exact limitOrphanVotes_spec hashes ctx vote hs
  · simp only [hempty.accepted, hempty.rejected]
    generalize hstored : ({ s.createEmptyTxLockCandidate ctx vote.txHash with
      mapTxLockVotesOrphan := _ } : CInstantSend) = stored
    have hpending : Pending vote.txHash start stored := hstored ▸ { hempty with }
    have hsame' : SameElsewhere vote.txHash hashes stored s := hstored ▸ { hsame with }
    obtain ⟨hlimited, hlimit⟩ := limitOrphanVotes_spec hashes ctx vote hpending
    exact ⟨hlimited, hlimit.trans hsame'⟩

theorem processTxLockVote_of_pending (htime : start ≤ ctx.time)
    (vote : CTxLockVote) (hvote : vote.txHash = h) (hs : Pending h start s) :
    Pending h start (s.processTxLockVote ctx vote).2
      ∧ SameElsewhere h hashes (s.processTxLockVote ctx vote).2 s := by
  have horphan := processOrphanVote_spec hashes ctx htime vote hvote hs
  unfold processTxLockVote
  split
  · exact ⟨hs, refl hashes s⟩
  · split
    · exact horphan
    · next c hc =>
        obtain ⟨-, hempty⟩ := hs.candidate c (hvote ▸ hc)
        have hrequest : c.txLockRequest.isRequest = false := by rw [hempty]; rfl
        rwa [hrequest]

/-- **An early vote changes nothing that counts.** -/
theorem processVoteMessage_of_pending (htime : start ≤ ctx.time)
    (hvote : vote.txHash = h) (hhash : vote.getHash ctx ∈ hashes) (hs : Pending h start s) :
    Pending h start (s.processVoteMessage ctx vote)
      ∧ SameElsewhere h hashes (s.processVoteMessage ctx vote) s := by
  unfold processVoteMessage
  simp only
  split_ifs
  iterate 5 · exact ⟨hs, refl hashes s⟩
  generalize hstored : ({ s with mapTxLockVotes := _ } : CInstantSend) = stored
  have hpending : Pending h start stored := hstored ▸ { hs with }
  have hsame : SameElsewhere h hashes stored s := by
    subst hstored
    refine { refl hashes s with votes := fun k hk => ?_ }
    have hne : k ≠ vote.getHash ctx := fun heq => hk (heq ▸ hhash)
    exact congrArg Option.isSome (AList.lookup_insert_ne hne)
  obtain ⟨hpending', hsame'⟩ := processTxLockVote_of_pending hashes ctx htime
    { vote with nConfirmedHeight := -1, nTimeCreated := ctx.time } hvote hpending
  exact ⟨hpending', hsame'.trans hsame⟩

end

end

/-! ## Candidates that differ in their creation time -/

/-- The candidate with another creation time. -/
def CTxLockCandidate.createdAt (c : CTxLockCandidate) (time : ℤ) : CTxLockCandidate :=
  { c with nTimeCreated := time }

variable (time : ℤ)

section
variable (c : CTxLockCandidate)
include c

@[simp] theorem txLockRequest_createdAt : (c.createdAt time).txLockRequest = c.txLockRequest := rfl

@[simp] theorem mapOutPointLocks_createdAt :
    (c.createdAt time).mapOutPointLocks = c.mapOutPointLocks := rfl

@[simp] theorem hasMasternodeVoted_createdAt (outpoint masternode : COutPoint) :
    (c.createdAt time).hasMasternodeVoted outpoint masternode
      = c.hasMasternodeVoted outpoint masternode := rfl

@[simp] theorem isAllOutPointsReady_createdAt :
    (c.createdAt time).isAllOutPointsReady = c.isAllOutPointsReady := rfl

@[simp] theorem markOutpointAsAttacked_createdAt (outpoint : COutPoint) :
    (c.createdAt time).markOutpointAsAttacked outpoint
      = (c.markOutpointAsAttacked outpoint).createdAt time := rfl

@[simp] theorem addVote_createdAt (vote : CTxLockVote) :
    (c.createdAt time).addVote vote = ((c.addVote vote).1, (c.addVote vote).2.createdAt time) := by
  unfold addVote
  rw [mapOutPointLocks_createdAt]
  split <;> rfl

theorem txLockRequest_addVote (vote : CTxLockVote) :
    (c.addVote vote).2.txLockRequest = c.txLockRequest := by
  unfold addVote
  split <;> rfl

end

/-! ## From the request on -/

/-- No other transaction has locked an input of the request. -/
def InputsFree (request : CTransaction) (s : CInstantSend) : Prop :=
  ∀ txin ∈ request.vin, ∀ hash,
    s.mapLockedOutpoints.lookup txin.prevout = some hash → hash = request.hash

/-- Two nodes that have the request, with candidates that differ in their creation time only, and
    without a lock of another transaction on its inputs. -/
structure Agree (request : CTransaction) (hashes : List Uint256) (start : ℤ)
    (s₁ s₂ : CInstantSend) : Prop extends SameElsewhere request.hash hashes s₁ s₂ where
  candidate : ∃ (c : CTxLockCandidate) (t₁ t₂ : ℤ), c.txLockRequest = request
    ∧ start ≤ t₁ ∧ start ≤ t₂
    ∧ s₁.mapTxLockCandidates.lookup request.hash = some (c.createdAt t₁)
    ∧ s₂.mapTxLockCandidates.lookup request.hash = some (c.createdAt t₂)
  free : InputsFree request s₁

section

variable {request : CTransaction} {hashes : List Uint256} {start : ℤ} {s₁ s₂ : CInstantSend}

variable {c : CTxLockCandidate} {ctx : LockContext}

theorem Agree.insert_candidate (hs : SameElsewhere request.hash hashes s₁ s₂)
    (hfree : InputsFree request s₁) {t₁ t₂ : ℤ} (hc : c.txLockRequest = request) (ht₁ : start ≤ t₁)
    (ht₂ : start ≤ t₂) :
    Agree request hashes start
      { s₁ with
        mapTxLockCandidates := s₁.mapTxLockCandidates.insert request.hash (c.createdAt t₁) }
      { s₂ with
        mapTxLockCandidates := s₂.mapTxLockCandidates.insert request.hash (c.createdAt t₂) } :=
  { hs with
    candidates := fun k hk => by grind [hs.candidates k hk]
    candidate := ⟨c, t₁, t₂, hc, ht₁, ht₂, AList.lookup_insert _, AList.lookup_insert _⟩
    free := hfree }

section
variable (hs : Agree request hashes start s₁ s₂)
include hs

theorem agree_recordVoted (outpoint : COutPoint) (txHash : Uint256) :
    Agree request hashes start (s₁.recordVoted outpoint txHash)
      (s₂.recordVoted outpoint txHash) :=
  { hs with voted := by simp only [recordVoted, hs.voted] }

theorem agree_markConflictingVote (hvote : vote.txHash = request.hash) (hash : Uint256) :
    Agree request hashes start (markConflictingVote vote s₁ hash)
      (markConflictingVote vote s₂ hash) := by
  unfold markConflictingVote
  rw [hvote]
  by_cases hne : hash = request.hash
  · simpa [hne] using hs
  · rw [if_neg hne, if_neg hne, ← hs.candidates hash hne]
    cases s₁.mapTxLockCandidates.lookup hash with
    | none => exact hs
    | some other =>
      simp only
      split_ifs
      · obtain ⟨c, t₁, t₂, hc, ht₁, ht₂, hc₁, hc₂⟩ := hs.candidate
        exact { hs with
          candidates := fun k hk => by grind [hs.candidates k hk]
          candidate := ⟨c.markOutpointAsAttacked vote.outpoint, t₁, t₂, hc, ht₁, ht₂,
            by grind [markOutpointAsAttacked_createdAt], by grind [markOutpointAsAttacked_createdAt]⟩ }
      · exact hs

theorem agree_checkVotedOutpoint (hvote : vote.txHash = request.hash) :
    Agree request hashes start (s₁.checkVotedOutpoint vote) (s₂.checkVotedOutpoint vote) := by
  have hloop : ∀ (marked : List Uint256) {s₁ s₂ : CInstantSend},
      Agree request hashes start s₁ s₂ →
      Agree request hashes start (marked.foldl (markConflictingVote vote) s₁)
        (marked.foldl (markConflictingVote vote) s₂) := by
    intro marked
    induction marked with
    | nil => exact fun hs => hs
    | cons hash rest ih => exact fun hs => ih (agree_markConflictingVote hs hvote hash)
  simp [checkVotedOutpoint, hs.voted, agree_recordVoted (hloop _ hs) vote.outpoint vote.txHash]

/-! ### Completing the lock -/

theorem isLocked_eq_of_agree (ctx : LockContext) :
    s₁.isLockedInstantSendTransaction ctx request.hash
      = s₂.isLockedInstantSendTransaction ctx request.hash := by
  obtain ⟨c, t₁, t₂, -, -, -, hc₁, hc₂⟩ := hs.candidate
  simp only [isLockedInstantSendTransaction, hc₁, hc₂, hs.locked, mapOutPointLocks_createdAt]

end

theorem conflictAt_ne_lockedBy {txHash : Uint256} {outpoint : COutPoint}
    (hfree : ∀ hash, s.mapLockedOutpoints.lookup outpoint = some hash → hash = txHash)
    (ctx : LockContext) (hashConflicting : Uint256) :
    s.conflictAt ctx txHash outpoint ≠ some (.lockedBy hashConflicting) := by
  cases hlocked : s.mapLockedOutpoints.lookup outpoint <;> grind [conflictAt]

section
variable (hs : Agree request hashes start s₁ s₂)
include hs

theorem resolveConflicts_of_agree (ctx : LockContext) (hc : c.txLockRequest = request) (t₁ t₂ : ℤ) :
    ∃ resolved, s₁.resolveConflicts ctx (c.createdAt t₁) = (resolved, s₁)
      ∧ s₂.resolveConflicts ctx (c.createdAt t₂) = (resolved, s₂) := by
  have hconflict : s₂.conflictAt ctx request.hash = s₁.conflictAt ctx request.hash := by
    funext outpoint
    simp [conflictAt, hs.locked]
  unfold resolveConflicts
  simp only [isAllOutPointsReady_createdAt, txLockRequest_createdAt, hc, hconflict]
  by_cases hall : (!c.isAllOutPointsReady)
  · simp [hall]
  · rw [if_neg hall, if_neg hall]
    cases hfound : request.vin.findSome? fun txin =>
        s₁.conflictAt ctx request.hash txin.prevout with
    | none =>
      split_ifs
      · simp
      · simp
    | some conflict =>
      cases conflict with
      | mempool => exact ⟨false, rfl, rfl⟩
      | lockedBy hashConflicting =>
        obtain ⟨txin, hin, hlocked⟩ := exists_of_findSome?_eq_some hfound
        exact absurd hlocked (conflictAt_ne_lockedBy (hs.free txin hin) ctx hashConflicting)

theorem agree_lockTransactionInputs (ctx : LockContext)
    (hc : c.txLockRequest = request) (t₁ t₂ : ℤ) :
    Agree request hashes start (s₁.lockTransactionInputs ctx (c.createdAt t₁))
      (s₂.lockTransactionInputs ctx (c.createdAt t₂)) := by
  unfold lockTransactionInputs
  simp only [isAllOutPointsReady_createdAt, txLockRequest_createdAt, mapOutPointLocks_createdAt, hc]
  split_ifs
  · exact hs
  · exact hs
  · refine { hs with locked := by simp only [hs.locked], free := fun txin hin hash hlocked => ?_ }
    exact forall_foldl_insertNew (P := fun outpoint hash => outpoint = txin.prevout →
      hash = request.hash) (fun _ _ => rfl) _ (fun _ hash hold heq =>
      hs.free txin hin hash (heq ▸ hold)) txin.prevout hash hlocked rfl

theorem agree_tryToFinalize (ctx : LockContext) :
    Agree request hashes start (s₁.tryToFinalize ctx request.hash)
      (s₂.tryToFinalize ctx request.hash) := by
  obtain ⟨c, t₁, t₂, hc, -, -, hc₁, hc₂⟩ := hs.candidate
  obtain ⟨resolved, hres₁, hres₂⟩ := resolveConflicts_of_agree hs ctx hc t₁ t₂
  simp only [tryToFinalize, tryToFinalizeLockCandidate, hc₁, hc₂, isAllOutPointsReady_createdAt,
    txLockRequest_createdAt, hc, isLocked_eq_of_agree hs ctx, hres₁, hres₂]
  split_ifs
  · exact hs
  · exact agree_lockTransactionInputs hs ctx hc t₁ t₂
  iterate 2 · exact hs

/-! ### Votes after the request -/

theorem agree_processRequestedVote (ctx : LockContext) (hvote : vote.txHash = request.hash) :
    Agree request hashes start (s₁.processRequestedVote ctx vote).2
      (s₂.processRequestedVote ctx vote).2 := by
  have hchecked := agree_checkVotedOutpoint hs hvote
  obtain ⟨c, t₁, t₂, hc, ht₁, ht₂, hc₁, hc₂⟩ := hchecked.candidate
  have hadded := Agree.insert_candidate hchecked.toSameElsewhere hchecked.free
    ((txLockRequest_addVote c vote).trans hc) ht₁ ht₂
  unfold processRequestedVote
  rw [hvote]
  simp only [hc₁, hc₂, addVote_createdAt]
  split_ifs
  · exact agree_tryToFinalize hadded ctx
  · exact hadded

end

theorem isTimedOut_createdAt {t time : ℤ} (ht : start ≤ t)
    (htime : time ≤ start + INSTANTSEND_LOCK_TIMEOUT_SECONDS) :
    (c.createdAt t).isTimedOut time = false :=
  decide_eq_false (by omega : ¬ time - t > INSTANTSEND_LOCK_TIMEOUT_SECONDS)

section

variable (hrequest : request.isRequest = true) (hs : Agree request hashes start s₁ s₂)
  (ctx : LockContext) (htime : ctx.time ≤ start + INSTANTSEND_LOCK_TIMEOUT_SECONDS)

include hrequest hs htime

theorem agree_processTxLockVote (vote : CTxLockVote) (hvote : vote.txHash = request.hash) :
    Agree request hashes start (s₁.processTxLockVote ctx vote).2
      (s₂.processTxLockVote ctx vote).2 := by
  obtain ⟨c, t₁, t₂, hc, ht₁, ht₂, hc₁, hc₂⟩ := hs.candidate
  unfold processTxLockVote
  rw [hvote]
  simp only [hc₁, hc₂, txLockRequest_createdAt, hc, hrequest, isTimedOut_createdAt ht₁ htime,
    isTimedOut_createdAt ht₂ htime, Bool.not_true, Bool.false_eq_true, if_false]
  split_ifs
  · exact hs
  · exact agree_processRequestedVote hs ctx hvote

/-- **A vote after the request does the same to both nodes.** -/
theorem agree_processVoteMessage (hvote : vote.txHash = request.hash)
    (hhash : vote.getHash ctx ∉ hashes) :
    Agree request hashes start (s₁.processVoteMessage ctx vote)
      (s₂.processVoteMessage ctx vote) := by
  unfold processVoteMessage
  -- the fields set when the vote is read are not in its hash
  generalize hread : ({ vote with nConfirmedHeight := -1, nTimeCreated := ctx.time } : CTxLockVote)
    = read
  have hread_vote : read.txHash = request.hash := hread ▸ hvote
  have hread_hash : read.getHash ctx ∉ hashes := hread ▸ hhash
  simp only [hs.votes _ hread_hash]
  split_ifs
  iterate 5 · exact hs
  refine agree_processTxLockVote hrequest ?_ ctx htime read hread_vote
  exact { hs with votes := fun k hk => by grind [hs.votes k hk] }

end

/-! ### The node's own votes -/

section

variable (hs : Agree request hashes start s₁ s₂)

include hs

theorem alreadyVoted_eq_of_agree (ctx : LockContext)
    (outpoint : COutPoint) : s₁.alreadyVoted ctx outpoint = s₂.alreadyVoted ctx outpoint := by
  obtain ⟨c, t₁, t₂, -, -, -, hc₁, hc₂⟩ := hs.candidate
  simp only [alreadyVoted, hs.voted]
  cases s₂.mapVotedOutpoints.lookup outpoint with
  | none => rfl
  | some voted =>
    refine congrArg voted.any (funext fun hash => ?_)
    rcases eq_or_ne hash request.hash with rfl | hne
    · simp only [hc₁, hc₂, hasMasternodeVoted_createdAt]
    · rw [hs.candidates hash hne]

theorem agree_insertNew_vote (hash : Uint256) (vote : CTxLockVote) :
    Agree request hashes start
      { s₁ with mapTxLockVotes := insertNew s₁.mapTxLockVotes hash vote }
      { s₂ with mapTxLockVotes := insertNew s₂.mapTxLockVotes hash vote } :=
  { hs with votes := fun k hk => by grind [hs.votes k hk] }

theorem agree_storeOwnVote (ctx : LockContext) (vote : CTxLockVote) :
    Agree request hashes start (s₁.storeOwnVote ctx request.hash vote)
      (s₂.storeOwnVote ctx request.hash vote) := by
  have hstored := agree_insertNew_vote hs (vote.getHash ctx) vote
  obtain ⟨c, t₁, t₂, hc, ht₁, ht₂, hc₁, hc₂⟩ := hs.candidate
  have hadded := Agree.insert_candidate hstored.toSameElsewhere hstored.free
    ((txLockRequest_addVote c vote).trans hc) ht₁ ht₂
  simp only [storeOwnVote, hc₁, hc₂, addVote_createdAt]
  split_ifs
  · exact agree_recordVoted hadded vote.outpoint vote.txHash
  · exact hadded

theorem agree_voteForOutpoint (ctx : LockContext) (txHash : Uint256) (outpoint : COutPoint) :
    (s₁.voteForOutpoint ctx request.hash txHash outpoint).1
        = (s₂.voteForOutpoint ctx request.hash txHash outpoint).1
      ∧ Agree request hashes start (s₁.voteForOutpoint ctx request.hash txHash outpoint).2
        (s₂.voteForOutpoint ctx request.hash txHash outpoint).2 := by
  unfold voteForOutpoint
  rw [alreadyVoted_eq_of_agree hs ctx outpoint]
  cases ctx.getUTXOCoin outpoint with
  | none => exact ⟨rfl, hs⟩
  | some coin =>
    simp only
    cases ctx.getMasternodeRank ctx.activeMasternode (coin.nHeight.toNat + 4) with
    | none => exact ⟨rfl, hs⟩
    | some nRank =>
      simp only
      split_ifs
      · exact ⟨rfl, hs⟩
      · exact ⟨rfl, hs⟩
      · cases ctx.signVote ⟨txHash, outpoint, ctx.activeMasternode, [], -1, ctx.time⟩ with
        | none => exact ⟨rfl, hs⟩
        | some vchMasternodeSignature =>
          simp only
          split_ifs
          · exact ⟨rfl, hs⟩
          · exact ⟨rfl, agree_storeOwnVote hs ctx _⟩

end

theorem agree_voteForOutpoints (ctx : LockContext) (txHash : Uint256)
    (outpoints : List COutPoint) : ∀ {s₁ s₂ : CInstantSend}, Agree request hashes start s₁ s₂ →
    Agree request hashes start (s₁.voteForOutpoints ctx request.hash txHash outpoints)
      (s₂.voteForOutpoints ctx request.hash txHash outpoints) := by
  induction outpoints with
  | nil => exact fun hs => hs
  | cons outpoint rest ih =>
    intro s₁ s₂ hs
    obtain ⟨hcontinues, hvoted⟩ := agree_voteForOutpoint hs ctx txHash outpoint
    simp only [voteForOutpoints, hcontinues]
    split_ifs
    · exact ih hvoted
    · exact hvoted

theorem agree_voteForCandidate (hs : Agree request hashes start s₁ s₂) (ctx : LockContext)
    (c : CTxLockCandidate) :
    Agree request hashes start (s₁.voteForCandidate ctx request.hash c)
      (s₂.voteForCandidate ctx request.hash c) := by
  simp only [voteForCandidate, hs.accepted]
  split_ifs
  iterate 3 · exact hs
  exact agree_voteForOutpoints ctx _ _ hs

theorem agree_vote (hs : Agree request hashes start s₁ s₂) (ctx : LockContext) :
    Agree request hashes start (s₁.vote ctx request.hash) (s₂.vote ctx request.hash) := by
  obtain ⟨c, t₁, t₂, -, -, -, hc₁, hc₂⟩ := hs.candidate
  have hcreatedAt : ∀ (s : CInstantSend) (t : ℤ),
      s.voteForCandidate ctx request.hash (c.createdAt t)
        = s.voteForCandidate ctx request.hash c := fun _ _ => rfl
  simp [vote, hc₁, hc₂, hcreatedAt, agree_tryToFinalize (agree_voteForCandidate hs ctx c) ctx]

/-! ### The request -/

/-- A valid request gives a pending node a candidate that is not too old. -/
theorem createTxLockCandidate_of_pending (hs : Pending request.hash start s)
    (htime : start ≤ ctx.time) (htime' : ctx.time ≤ start + INSTANTSEND_LOCK_TIMEOUT_SECONDS)
    (hvalid : request.isValidRequest ctx) :
    ∃ t, start ≤ t ∧ s.createTxLockCandidate ctx request = (true, { s with
      mapTxLockCandidates := s.mapTxLockCandidates.insert request.hash
        (((newCandidate 0 request).addOutPointLocks request.vin).createdAt t) }) := by
  simp only [createTxLockCandidate, hvalid, Bool.not_true, Bool.false_eq_true, if_false]
  cases hold : s.mapTxLockCandidates.lookup request.hash with
  | none => exact ⟨ctx.time, htime, rfl⟩
  | some c =>
    obtain ⟨hstart, hempty⟩ := hs.candidate c hold
    have hwithin := isTimedOut_createdAt (c := { c with txLockRequest := request }) hstart htime'
    simp only [createdAt] at hwithin
    simp only [hwithin, Bool.false_eq_true, if_false]
    exact ⟨c.nTimeCreated, hstart, by rw [hempty]; rfl⟩

theorem agree_createTxLockCandidate (hs : SameElsewhere request.hash hashes s₁ s₂)
    (hpending₁ : Pending request.hash start s₁) (hpending₂ : Pending request.hash start s₂)
    (hfree : InputsFree request s₁) (htime : start ≤ ctx.time)
    (htime' : ctx.time ≤ start + INSTANTSEND_LOCK_TIMEOUT_SECONDS)
    (hvalid : request.isValidRequest ctx) :
    ∃ s₁' s₂', s₁.createTxLockCandidate ctx request = (true, s₁')
      ∧ s₂.createTxLockCandidate ctx request = (true, s₂')
      ∧ Agree request hashes start s₁' s₂' := by
  obtain ⟨t₁, ht₁, hcreate₁⟩ := createTxLockCandidate_of_pending hpending₁ htime htime' hvalid
  obtain ⟨t₂, ht₂, hcreate₂⟩ := createTxLockCandidate_of_pending hpending₂ htime htime' hvalid
  exact ⟨_, _, hcreate₁, hcreate₂, Agree.insert_candidate hs hfree rfl ht₁ ht₂⟩

section

variable (hs : Agree request hashes start s₁ s₂)

include hs

theorem alreadyHave_eq_of_agree (hhash : request.hash ∉ hashes) :
    s₁.alreadyHave request.hash = s₂.alreadyHave request.hash := by
  unfold alreadyHave
  rw [hs.accepted, hs.rejected, hs.votes _ hhash]

theorem agree_acceptLockRequest (tx : CTransaction) :
    Agree request hashes start (s₁.acceptLockRequest tx) (s₂.acceptLockRequest tx) :=
  { hs with accepted := by simp only [acceptLockRequest, hs.accepted] }

theorem agree_rejectLockRequest (tx : CTransaction) :
    Agree request hashes start (s₁.rejectLockRequest tx) (s₂.rejectLockRequest tx) :=
  { hs with rejected := by simp only [rejectLockRequest, hs.rejected] }

end

/-- Where two nodes are after the request: both without it, or in agreement. -/
def Alike (request : CTransaction) (hashes : List Uint256) (start : ℤ) (s₁ s₂ : CInstantSend) :
    Prop :=
  (Pending request.hash start s₁ ∧ Pending request.hash start s₂)
    ∨ Agree request hashes start s₁ s₂

/-- **The request brings two pending nodes together.** -/
theorem alike_processRequestMessage (hs : SameElsewhere request.hash hashes s₁ s₂)
    (hpending₁ : Pending request.hash start s₁) (hpending₂ : Pending request.hash start s₂)
    (hfree : InputsFree request s₁) (hhash : request.hash ∉ hashes) (htime : start ≤ ctx.time)
    (htime' : ctx.time ≤ start + INSTANTSEND_LOCK_TIMEOUT_SECONDS) :
    Alike request hashes start (s₁.processRequestMessage ctx request)
      (s₂.processRequestMessage ctx request) := by
  unfold processRequestMessage processTxLockRequest
  cases hvalid : request.isValidRequest ctx with
  | false =>
    have hinvalid : ∀ s : CInstantSend, s.createTxLockCandidate ctx request = (false, s) := by
      simp [createTxLockCandidate, hvalid]
    simp only [hinvalid, Bool.false_eq_true, if_false, Bool.not_false, if_true, ite_self]
    exact .inl ⟨hpending₁, hpending₂⟩
  | true =>
    obtain ⟨s₁', s₂', hcreate₁, hcreate₂, hagree⟩ :=
      agree_createTxLockCandidate hs hpending₁ hpending₂ hfree htime htime' hvalid
    have hfinal := agree_tryToFinalize hagree ctx
    simp only [hcreate₁, hcreate₂, if_true, Bool.not_true, Bool.false_eq_true, if_false,
      alreadyHave_eq_of_agree hfinal hhash]
    split_ifs
    · exact .inl ⟨hpending₁, hpending₂⟩
    · exact .inr hfinal
    · exact .inr (agree_vote (agree_acceptLockRequest hfinal request) ctx)
    · exact .inr hfinal
    · exact .inr (agree_rejectLockRequest hfinal request)

/-! ## Runs -/

/-- The events of votes that come from the network. -/
def voteMessages (votes : List (LockContext × CTxLockVote)) : List InstantSendEvent :=
  votes.map fun message => .voteMessage message.1 message.2

/-- A vote for the transaction, within the time limit from `start`. -/
def VoteInTime (request : CTransaction) (start : ℤ) (message : LockContext × CTxLockVote) : Prop :=
  message.2.txHash = request.hash ∧ start ≤ message.1.time
    ∧ message.1.time ≤ start + INSTANTSEND_LOCK_TIMEOUT_SECONDS

/-- Early votes leave a pending node pending and the rest of its state as it was. -/
theorem run_voteMessages_of_pending (early : List (LockContext × CTxLockVote)) :
    ∀ {s : CInstantSend}, Pending request.hash start s →
      (∀ message ∈ early, VoteInTime request start message
        ∧ message.2.getHash message.1 ∈ hashes) →
      Pending request.hash start (s.run (voteMessages early))
        ∧ SameElsewhere request.hash hashes (s.run (voteMessages early)) s := by
  induction early with
  | nil => exact fun hs _ => ⟨hs, SameElsewhere.refl hashes _⟩
  | cons message rest ih =>
    intro s hs hearly
    obtain ⟨⟨hvote, htime, -⟩, hhash⟩ := hearly message mem_cons_self
    obtain ⟨hstep, hsame⟩ := processVoteMessage_of_pending hashes message.1 htime hvote hhash hs
    obtain ⟨hrun, hsame'⟩ := ih hstep fun m hm => hearly m (mem_cons_of_mem _ hm)
    exact ⟨hrun, hsame'.trans hsame⟩

theorem alike_run_voteMessages (hrequest : request.isRequest)
    (late : List (LockContext × CTxLockVote)) :
    ∀ {s₁ s₂ : CInstantSend}, Alike request hashes start s₁ s₂ →
      (∀ message ∈ late, VoteInTime request start message
        ∧ message.2.getHash message.1 ∉ hashes) →
      Alike request hashes start (s₁.run (voteMessages late)) (s₂.run (voteMessages late)) := by
  induction late with
  | nil => exact fun hs _ => hs
  | cons message rest ih =>
    intro s₁ s₂ hs hlate
    obtain ⟨⟨hvote, htime, htime'⟩, hhash⟩ := hlate message mem_cons_self
    refine ih ?_ fun m hm => hlate m (mem_cons_of_mem _ hm)
    -- which hashes are compared does not matter for a node that stays pending
    have hpending := fun s => (processVoteMessage_of_pending (s := s) [_] message.1 htime hvote
      (mem_singleton_self _) · |>.1)
    exact hs.imp (fun h => ⟨hpending _ h.1, hpending _ h.2⟩)
      fun hagree => agree_processVoteMessage hrequest hagree message.1 htime' hvote hhash

theorem isLocked_of_pending (hs : Pending request.hash start s) (ctx : LockContext) :
    s.isLockedInstantSendTransaction ctx request.hash = false := by
  unfold isLockedInstantSendTransaction
  split
  · rfl
  · cases hc : s.mapTxLockCandidates.lookup request.hash with
    | none => rfl
    | some c =>
      rw [(hs.candidate c hc).2]
      rfl

theorem isLocked_eq_of_alike (hs : Alike request hashes start s₁ s₂) (ctx : LockContext) :
    s₁.isLockedInstantSendTransaction ctx request.hash
      = s₂.isLockedInstantSendTransaction ctx request.hash := by
  rcases hs with ⟨hpending₁, hpending₂⟩ | hagree
  · rw [isLocked_of_pending hpending₁, isLocked_of_pending hpending₂]
  · exact isLocked_eq_of_agree hagree ctx

end

/-- **Votes before the request do not count.** From any state without the request and without a lock
    of another transaction on its inputs, and with all messages within the time limit, the
    transaction ends locked exactly if the request and the votes after it lock it. No late vote
    repeats an early one. -/
theorem isLocked_after_early_votes_iff (s : CInstantSend) (request : CTransaction) (start : ℤ)
    (hrequest : request.isRequest = true) (hpending : Pending request.hash start s)
    (hfree : InputsFree request s)
    (requestCtx : LockContext) (htime : start ≤ requestCtx.time)
    (htime' : requestCtx.time ≤ start + INSTANTSEND_LOCK_TIMEOUT_SECONDS)
    (early late : List (LockContext × CTxLockVote))
    (hvotes : ∀ message ∈ early ++ late, VoteInTime request start message)
    (hhashes : ∀ message ∈ early, message.2.getHash message.1 ≠ request.hash
      ∧ ∀ message' ∈ late, message'.2.getHash message'.1 ≠ message.2.getHash message.1)
    (ctx : LockContext) :
    (s.run (voteMessages early ++ .requestMessage requestCtx request :: voteMessages late)
        ).isLockedInstantSendTransaction ctx request.hash = true
      ↔ (s.run (.requestMessage requestCtx request :: voteMessages late)
        ).isLockedInstantSendTransaction ctx request.hash = true := by
  let hashes := early.map fun message => message.2.getHash message.1
  have hearlyVotes : ∀ message ∈ early, VoteInTime request start message
      ∧ message.2.getHash message.1 ∈ hashes :=
    fun message hm => ⟨hvotes message (mem_append_left _ hm), mem_map_of_mem hm⟩
  obtain ⟨hearly, hsame⟩ := run_voteMessages_of_pending early hpending hearlyVotes
  have hfresh : request.hash ∉ hashes := by
    simpa [hashes] using fun ctx vote hm => (hhashes (ctx, vote) hm).1
  have hlate : ∀ message ∈ late, VoteInTime request start message
      ∧ message.2.getHash message.1 ∉ hashes := by
    intro message hm
    refine ⟨hvotes message (mem_append_right _ hm), fun hmem => ?_⟩
    obtain ⟨message', hm', heq⟩ := mem_map.mp hmem
    exact (hhashes message' hm').2 message hm heq.symm
  have halike := alike_processRequestMessage hsame hearly hpending
    (fun txin hin hash hlocked => hfree txin hin hash (hsame.locked ▸ hlocked)) hfresh htime htime'
  have hrun := alike_run_voteMessages hrequest late halike hlate
  have heq := isLocked_eq_of_alike hrun ctx
  simp only [CInstantSend.run, foldl_append, foldl_cons, step] at heq ⊢
  rw [heq]

/-- The votes of masternodes for transaction 1. -/
def votesForOne (masternodes : List ℕ) : List (LockContext × CTxLockVote) :=
  masternodes.map fun masternode => (openLockContext time, voteForSpend 1 masternode)

/-- One early vote and six late ones lock the transaction, since the six do. -/
theorem isLocked_after_one_early_vote :
    (init.run (voteMessages (votesForOne 1000 [7])
        ++ .requestMessage (openLockContext 1001) (spendOfFive 1)
          :: voteMessages (votesForOne 1002 [1, 2, 3, 4, 5, 6]))
        ).isLockedInstantSendTransaction (openLockContext 1003) (spendOfFive 1).hash = true :=
  (isLocked_after_early_votes_iff init (spendOfFive 1) 1000 (by decide)
    ⟨by simp [init], rfl, rfl⟩
    (fun _ _ _ hlocked => absurd hlocked (by simp [init])) (openLockContext 1001)
    (by decide) (by decide) (votesForOne 1000 [7]) (votesForOne 1002 [1, 2, 3, 4, 5, 6])
    (by simp [votesForOne, VoteInTime, voteForSpend, spendOfFive, openLockContext,
      INSTANTSEND_LOCK_TIMEOUT_SECONDS])
    (by decide) (openLockContext 1003)).mpr (by decide +kernel)

/-- Six votes lock the transaction if they come after the request, and do not if one of them comes
    before it. -/
theorem isLocked_fails_after_early_vote :
    (init.run (.requestMessage (openLockContext 1001) (spendOfFive 1)
        :: voteMessages (votesForOne 1002 [1, 2, 3, 4, 5, 6]))
        ).isLockedInstantSendTransaction (openLockContext 1003) (spendOfFive 1).hash = true
      ∧ (init.run (voteMessages (votesForOne 1000 [1])
        ++ .requestMessage (openLockContext 1001) (spendOfFive 1)
          :: voteMessages (votesForOne 1002 [2, 3, 4, 5, 6]))
        ).isLockedInstantSendTransaction (openLockContext 1003) (spendOfFive 1).hash = false := by
  decide +kernel

end Binarium
