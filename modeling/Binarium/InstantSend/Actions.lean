import Binarium.InstantSend.Candidates

set_option autoImplicit false

/-! # What an event does to candidates and locks

The handlers of InstantSend are long, but only few things happen in them to the candidates and to the
locked outpoints. A candidate is created or gets its request (`Create`). After that a vote is counted
in it, candidates are marked, its outpoints are locked, or the clean-up runs (`Act`). An event works
on the candidate of one transaction, counts votes of one masternode, and creates before it acts
(`Does`). Here this is read off the handlers once; what holds after every event then follows from the
few cases.

The clean-up inside of an event is the one of `ResolveConflicts`. It runs only when the candidate of
the event has all its votes, which is what the premise of `Act.cleanUp` says. -/

namespace Binarium

open Maps Relation CInstantSend CTransaction CTxLockCandidate List Option ReflTransGen

/-! ## Checked votes -/

/-- The rank and the signature of a vote were checked for the outpoint it is for. -/
def PassedChecks (ctx : LockContext) (vote : CTxLockVote) : Prop :=
  ∃ coin nRank, ctx.getUTXOCoin vote.outpoint = some coin
    ∧ ctx.getMasternodeRank vote.outpointMasternode (coin.nHeight.toNat + 4) = some nRank
    ∧ nRank ≤ SIGNATURES_TOTAL ∧ ctx.checkSignature vote = true

variable {vote : CTxLockVote} {s s' : CInstantSend} {c c' : CTxLockCandidate} {k : Uint256}

theorem passedChecks_of_isValid {ctx : LockContext} (h : vote.isValid ctx) :
    PassedChecks ctx vote := by
  unfold CTxLockVote.isValid at h
  grind [PassedChecks]

/-! ## Actions -/

/-- A request that is stored under this hash: a transaction with this hash, or the empty request. -/
def Filed (T : Set CTransaction) (h : Uint256) (tx : CTransaction) : Prop :=
  (tx ∈ T ∧ tx.hash = h) ∨ tx = emptyLockRequest

/-- Changes outside of the candidates and the locks. -/
structure Elsewhere (T : Set CTransaction) (s s' : CInstantSend) : Prop where
  candidates : s'.mapTxLockCandidates = s.mapTxLockCandidates
  locked : s'.mapLockedOutpoints = s.mapLockedOutpoints
  accepted : ∀ h tx, s'.mapLockRequestAccepted.lookup h = some tx →
    s.mapLockRequestAccepted.lookup h = some tx ∨ Filed T h tx
  rejected : ∀ h tx, s'.mapLockRequestRejected.lookup h = some tx →
    s.mapLockRequestRejected.lookup h = some tx ∨ Filed T h tx

theorem Elsewhere.of_eq {T : Set CTransaction} (hc : s'.mapTxLockCandidates = s.mapTxLockCandidates)
    (hl : s'.mapLockedOutpoints = s.mapLockedOutpoints)
    (ha : s'.mapLockRequestAccepted = s.mapLockRequestAccepted)
    (hr : s'.mapLockRequestRejected = s.mapLockRequestRejected) : Elsewhere T s s' :=
  ⟨hc, hl, fun _ _ h => .inl (ha ▸ h), fun _ _ h => .inl (hr ▸ h)⟩

/-- An empty candidate that has timed out. -/
def CTxLockCandidate.isStale (c : CTxLockCandidate) (time : ℤ) : Bool :=
  !c.txLockRequest.isRequest && c.isTimedOut time

/-- What creates the candidate of a transaction hash or gives it its request. -/
inductive Create (T : Set CTransaction) (ctx : LockContext) (key : Uint256) :
    CInstantSend → CInstantSend → Prop
  | other {s s' : CInstantSend} (h : Elsewhere T s s') : Create T ctx key s s'
  /-- an early vote -/
  | empty {s : CInstantSend} : Create T ctx key s (s.createEmptyTxLockCandidate ctx key)
  | fresh {s : CInstantSend} {tx : CTransaction} (htx : tx ∈ T) (hkey : tx.hash = key)
      (hnone : s.mapTxLockCandidates.lookup key = none) :
      Create T ctx key s { s with
        mapTxLockCandidates := s.mapTxLockCandidates.insert key
          ((newCandidate ctx.time tx).addOutPointLocks tx.vin) }
  /-- the request came when the empty candidate had timed out -/
  | late {s : CInstantSend} {tx : CTransaction} {c : CTxLockCandidate} (htx : tx ∈ T)
      (hkey : tx.hash = key) (hc : s.mapTxLockCandidates.lookup key = some c)
      (hstale : c.isStale ctx.time = true) :
      Create T ctx key s { s with
        mapTxLockCandidates := s.mapTxLockCandidates.insert key { c with txLockRequest := tx } }
  | fill {s : CInstantSend} {tx : CTransaction} {c : CTxLockCandidate} (htx : tx ∈ T)
      (hkey : tx.hash = key) (hc : s.mapTxLockCandidates.lookup key = some c)
      (hintime : c.isTimedOut ctx.time = false) :
      Create T ctx key s { s with
        mapTxLockCandidates := s.mapTxLockCandidates.insert key
          (({ c with txLockRequest := tx } : CTxLockCandidate).addOutPointLocks tx.vin) }

/-- What happens to candidates that are there. The event has the candidate of `key`, if any, and
    counts votes of `masternode`. -/
inductive Act (T : Set CTransaction) (ctx : LockContext) (key : Option Uint256)
    (masternode : COutPoint) : CInstantSend → CInstantSend → Prop
  | other {s s' : CInstantSend} (h : Elsewhere T s s') : Act T ctx key masternode s s'
  | count {s : CInstantSend} {k : Uint256} {c : CTxLockCandidate} {vote : CTxLockVote}
      (hkey : key = some k) (hc : s.mapTxLockCandidates.lookup k = some c)
      (hmasternode : vote.outpointMasternode = masternode) (hpassed : PassedChecks ctx vote)
      (hhash : vote.txHash = k ∨ vote.txHash = c.txLockRequest.hash) :
      Act T ctx key masternode s { s with
        mapTxLockCandidates := s.mapTxLockCandidates.insert k (c.addVote vote).2 }
  | attack {s : CInstantSend} (k : Uint256) (outpoint : COutPoint) :
      Act T ctx key masternode s { s with
        mapTxLockCandidates :=
          modify s.mapTxLockCandidates k (CTxLockCandidate.markOutpointAsAttacked outpoint) }
  | confirm {s : CInstantSend} (k : Uint256) (nHeight : ℤ) :
      Act T ctx key masternode s { s with
        mapTxLockCandidates := modify s.mapTxLockCandidates k fun c =>
          { c with nConfirmedHeight := nHeight } }
  | lock {s : CInstantSend} {k : Uint256} {c : CTxLockCandidate} (hkey : key = some k)
      (hc : s.mapTxLockCandidates.lookup k = some c) (hready : c.isAllOutPointsReady = true) :
      Act T ctx key masternode s { s with
        mapLockedOutpoints := c.mapOutPointLocks.keys.foldl
          (fun m outpoint => insertNew m outpoint c.txLockRequest.hash) s.mapLockedOutpoints }
  | cleanUp {s : CInstantSend}
      (hready : ∀ k, key = some k → ∀ c, s.mapTxLockCandidates.lookup k = some c →
        c.isAllOutPointsReady = true) :
      Act T ctx key masternode s (s.checkAndRemove ctx)

/-- Create the candidate of `key`, then act. -/
def Does (T : Set CTransaction) (ctx : LockContext) (key : Uint256) (masternode : COutPoint)
    (s s' : CInstantSend) : Prop :=
  ∃ s₁, ReflTransGen (Create T ctx key) s s₁
    ∧ ReflTransGen (Act T ctx (some key) masternode) s₁ s'

/-! ## Requests stay filed under their hashes -/

/-- All candidates cover their requests, and all requests are filed under their hashes. -/
structure Orderly (T : Set CTransaction) (s : CInstantSend) : Prop where
  covers : ∀ h c, s.mapTxLockCandidates.lookup h = some c → Covers T h c
  filed : ∀ h c, s.mapTxLockCandidates.lookup h = some c → Filed T h c.txLockRequest
  accepted : ∀ h tx, s.mapLockRequestAccepted.lookup h = some tx → Filed T h tx
  rejected : ∀ h tx, s.mapLockRequestRejected.lookup h = some tx → Filed T h tx

theorem orderly_init (T : Set CTransaction) : Orderly T init :=
  ⟨by simp [init], by simp [init], by simp [init],
    by simp [init]⟩

section

variable {T : Set CTransaction}

theorem Orderly.of_derives (hs : Orderly T s) (hd : Derives s s') : Orderly T s' := by
  refine ⟨fun h c' hc' => ?_, fun h c' hc' => ?_,
    fun h tx htx => hs.accepted h tx (hd.accepted h tx htx),
    fun h tx htx => hs.rejected h tx (hd.rejected h tx htx)⟩
  · obtain ⟨c, hc, hshape⟩ := hd.candidates h c' hc'
    exact (hs.covers h c hc).of_sameShape hshape
  · obtain ⟨c, hc, hshape⟩ := hd.candidates h c' hc'
    exact hshape.1 ▸ hs.filed h c hc

theorem Orderly.of_elsewhere (hs : Orderly T s) (h : Elsewhere T s s') : Orderly T s' := by
  refine ⟨h.candidates ▸ hs.covers, h.candidates ▸ hs.filed, fun k tx hk => ?_, fun k tx hk => ?_⟩
  · exact (h.accepted k tx hk).elim (hs.accepted k tx) id
  · exact (h.rejected k tx hk).elim (hs.rejected k tx) id

theorem Orderly.insert_candidate (hs : Orderly T s) {h : Uint256}
    (hc : Covers T h c) (hfiled : Filed T h c.txLockRequest) :
    Orderly T { s with mapTxLockCandidates := s.mapTxLockCandidates.insert h c } := by
  refine ⟨fun k c' hc' => ?_, fun k c' hc' => ?_, hs.accepted, hs.rejected⟩
  · grind [hs.covers k c']
  · grind [hs.filed k c']

/-- **Creating keeps it**, if different transactions have different hashes. -/
theorem Orderly.of_create (hinj : Set.InjOn hash T)
    {ctx : LockContext} {key : Uint256} (hs : Orderly T s) (h : Create T ctx key s s') :
    Orderly T s' := by
  cases h with
  | other h => exact hs.of_elsewhere h
  | empty =>
    have hnew : Covers T key (newCandidate ctx.time emptyLockRequest) :=
      ⟨.inr rfl, by simp [newCandidate]⟩
    exact ⟨forall_insertNew hs.covers hnew, forall_insertNew hs.filed (.inr rfl), hs.accepted,
      hs.rejected⟩
  | fresh htx hkey _ | fill htx hkey _ =>
    subst hkey
    exact hs.insert_candidate (covers_addOutPointLocks htx rfl) (.inl ⟨htx, rfl⟩)
  | late htx hkey hc =>
    subst hkey
    refine hs.insert_candidate ⟨.inl htx, fun o ho => ?_⟩ (.inl ⟨htx, rfl⟩)
    -- if the candidate had outpoints, it had this request
    obtain ⟨hmem, hhash, hinputs⟩ := (hs.covers _ _ hc).2 o ho
    exact ⟨htx, rfl, hinj hmem htx hhash ▸ hinputs⟩

/-- Acting is a change elsewhere, or no candidate comes from it. -/
theorem Act.derives {ctx : LockContext} {key : Option Uint256}
    {masternode : COutPoint} (h : Act T ctx key masternode s s') :
    Elsewhere T s s' ∨ Derives s s' := by
  cases h with
  | other h => exact .inl h
  | count _ hc _ _ _ => exact .inr (Derives.insert_candidate hc (sameShape_addVote _ _))
  | attack k o =>
    exact .inr (Derives.modify_candidate (fun c => sameShape_markOutpointAsAttacked c o) s k)
  | confirm k nHeight =>
    exact .inr (Derives.modify_candidate (fun c => sameShape_setConfirmedHeight c nHeight) s k)
  | lock _ _ _ => exact .inr (Derives.of_eq rfl rfl rfl)
  | cleanUp _ => exact .inr (derives_checkAndRemove ctx s)

theorem Act.exists_sameShape {ctx : LockContext} {key : Option Uint256}
    {masternode : COutPoint} (h : Act T ctx key masternode s s')
    (hc' : s'.mapTxLockCandidates.lookup k = some c') :
    ∃ c, s.mapTxLockCandidates.lookup k = some c ∧ SameShape c c' := by
  rcases h.derives with helsewhere | hderives
  · exact ⟨c', helsewhere.candidates ▸ hc', SameShape.refl c'⟩
  · exact hderives.candidates k c' hc'

theorem Orderly.of_act {ctx : LockContext} {key : Option Uint256}
    {masternode : COutPoint} (hs : Orderly T s) (h : Act T ctx key masternode s s') :
    Orderly T s' :=
  h.derives.elim hs.of_elsewhere hs.of_derives

end

section

variable {T : Set CTransaction} {ctx : LockContext} {key : Uint256} {masternode : COutPoint}

theorem Orderly.of_creates (hinj : Set.InjOn hash T) (hs : Orderly T s)
    (h : ReflTransGen (Create T ctx key) s s') : Orderly T s' := by
  induction h with
  | refl => exact hs
  | tail _ hstep ih => exact ih.of_create hinj hstep

theorem Orderly.of_acts {key : Option Uint256} (hs : Orderly T s)
    (h : ReflTransGen (Act T ctx key masternode) s s') : Orderly T s' := by
  induction h with
  | refl => exact hs
  | tail _ hstep ih => exact ih.of_act hstep

theorem Orderly.of_does (hinj : Set.InjOn hash T) (hs : Orderly T s)
    (h : Does T ctx key masternode s s') : Orderly T s' := by
  obtain ⟨s₁, hcreate, hact⟩ := h
  exact (hs.of_creates hinj hcreate).of_acts hact

theorem Does.of_acts (h : ReflTransGen (Act T ctx (some key) masternode) s s') :
    Does T ctx key masternode s s' :=
  ⟨s, refl, h⟩

open Does

theorem Does.refl (s : CInstantSend) : Does T ctx key masternode s s :=
  of_acts ReflTransGen.refl

variable {s'' : CInstantSend} {tx : CTransaction} {o : COutPoint} {event : InstantSendEvent}

theorem Does.head (h : Create T ctx key s s') (h' : Does T ctx key masternode s' s'') :
    Does T ctx key masternode s s'' := by
  obtain ⟨s₁, hcreate, hact⟩ := h'
  exact ⟨s₁, ReflTransGen.head h hcreate, hact⟩

theorem Does.acts (h : Does T ctx key masternode s s')
    (h' : ReflTransGen (Act T ctx (some key) masternode) s' s'') :
    Does T ctx key masternode s s'' := by
  obtain ⟨s₁, hcreate, hact⟩ := h
  exact ⟨s₁, hcreate, hact.trans h'⟩

theorem elsewhere_accept (s : CInstantSend) (htx : tx ∈ T) :
    Elsewhere T s (s.acceptLockRequest tx) :=
  ⟨rfl, rfl, forall_insertNew (fun _ _ h => .inl h) (.inr (.inl ⟨htx, rfl⟩)), fun _ _ h => .inl h⟩

theorem elsewhere_reject (s : CInstantSend) {h : Uint256} (htx : Filed T h tx) :
    Elsewhere T s { s with mapLockRequestRejected := insertNew s.mapLockRequestRejected h tx } :=
  ⟨rfl, rfl, fun _ _ h => .inl h, forall_insertNew (fun _ _ h => .inl h) (.inr htx)⟩

/-! ## Finalising -/

theorem isAllOutPointsReady_setConfirmedHeight (c : CTxLockCandidate) (nHeight : ℤ) :
    ({ c with nConfirmedHeight := nHeight } : CTxLockCandidate).isAllOutPointsReady
      = c.isAllOutPointsReady := rfl

/-- Marking a candidate as confirmed keeps a candidate ready. -/
theorem ready_modify_setConfirmedHeight (k' : Uint256) (nHeight : ℤ)
    (h : ∀ c, s.mapTxLockCandidates.lookup k = some c → c.isAllOutPointsReady) :
    ∀ c, (modify s.mapTxLockCandidates k' fun c => { c with nConfirmedHeight := nHeight }).lookup k
      = some c → c.isAllOutPointsReady := by
  grind [map_eq_some_iff, isAllOutPointsReady_setConfirmedHeight]

open Act

/-- Two conflicting candidates are marked as expired and the clean-up runs. -/
theorem acts_dropBoth (hs : Orderly T s) (txHash hashConflicting : Uint256)
    (hready : ∀ c, s.mapTxLockCandidates.lookup key = some c → c.isAllOutPointsReady) :
    ReflTransGen (Act T ctx (some key) masternode) s (s.dropBoth ctx txHash hashConflicting) := by
  unfold dropBoth
  split
  · next c c' hc hc' =>
      have hfirst := ready_modify_setConfirmedHeight txHash 0 hready
      have hboth := ready_modify_setConfirmedHeight
        (s := { s with mapTxLockCandidates := modify s.mapTxLockCandidates txHash fun c =>
          { c with nConfirmedHeight := 0 } }) hashConflicting 0 hfirst
      refine head (confirm txHash 0) (head
        (confirm hashConflicting 0) (head (cleanUp ?_) (head
        (other (elsewhere_reject _ (hs.filed txHash c hc))) (single
        (other (elsewhere_reject _ (hs.filed hashConflicting c' hc')))))))
      intro k hk c hc
      obtain rfl := Option.some.inj hk
      exact hboth c hc
  · exact refl

/-- Looking for conflicts changes the state only where it drops two candidates. -/
theorem acts_resolveConflicts (hs : Orderly T s) (hc : s.mapTxLockCandidates.lookup key = some c) :
    ReflTransGen (Act T ctx (some key) masternode) s (s.resolveConflicts ctx c).2 := by
  unfold resolveConflicts
  simp only
  split
  · exact refl
  · next hready =>
      split
      · refine acts_dropBoth hs _ _ fun c' hc' => ?_
        obtain rfl := Option.some.inj (hc.symm.trans hc')
        simpa using hready
      · exact refl
      · split <;> exact refl

theorem resolveConflicts_of_resolved (h : (s.resolveConflicts ctx c).1) :
    (s.resolveConflicts ctx c).2 = s := by
  unfold resolveConflicts at h ⊢
  simp only at h ⊢
  split at h
  · simp at h
  · next hready =>
      rw [if_neg hready]
      split at h
      · simp at h
      · simp at h
      · split <;> rfl

theorem acts_lockTransactionInputs (hc : s.mapTxLockCandidates.lookup key = some c) :
    ReflTransGen (Act T ctx (some key) masternode) s (s.lockTransactionInputs ctx c) := by
  unfold lockTransactionInputs
  split_ifs with hspork hready
  · exact refl
  · exact refl
  · exact single (lock rfl hc (by simpa using hready))

theorem acts_tryToFinalize (hs : Orderly T s) :
    ReflTransGen (Act T ctx (some key) masternode) s (s.tryToFinalize ctx key) := by
  unfold tryToFinalize
  split
  · exact refl
  · next c hc =>
      unfold tryToFinalizeLockCandidate
      split_ifs
      · exact refl
      · simp only
        split_ifs with hresolved
        · simp [resolveConflicts_of_resolved hresolved, acts_lockTransactionInputs hc]
        · exact acts_resolveConflicts hs hc
      · exact refl

/-! ## Requests -/

theorem creates_createTxLockCandidate (hfiled : Filed T key tx) :
    ReflTransGen (Create T ctx key) s (s.createTxLockCandidate ctx tx).2
      ∧ ((s.createTxLockCandidate ctx tx).1 → tx.hash = key) := by
  unfold createTxLockCandidate
  simp only
  split_ifs with hvalid
  · exact ⟨refl, by simp⟩
  · rcases hfiled with ⟨htx, rfl⟩ | rfl
    · refine ⟨?_, fun _ => rfl⟩
      split
      · next hnone => exact single (Create.fresh htx rfl hnone)
      · next c hc =>
          split_ifs with hrequest htimeout
          · exact refl
          · have hstale : c.isTimedOut ctx.time := htimeout
            exact single (Create.late htx rfl hc (by simp [isStale, hrequest, hstale]))
          · exact single (Create.fill htx rfl hc (Bool.eq_false_iff.mpr htimeout))
    · -- the empty request is not valid
      simp [isValidRequest, emptyLockRequest] at hvalid

theorem does_processTxLockRequest (hinj : Set.InjOn hash T) (hs : Orderly T s)
    (hfiled : Filed T key tx) : Does T ctx key masternode s (s.processTxLockRequest ctx tx).2 := by
  obtain ⟨hcreate, hhash⟩ := creates_createTxLockCandidate (s := s) hfiled
  refine ⟨(s.createTxLockCandidate ctx tx).2, hcreate, ?_⟩
  unfold processTxLockRequest
  simp only
  split_ifs with hcreated
  · simp [hhash hcreated, acts_tryToFinalize (hs.of_creates hinj hcreate)]
  · exact refl

/-! ## Own votes -/

/-- The candidate of the event, if it is there, has a request with this hash. -/
def RequestHash (key txHash : Uint256) (s : CInstantSend) : Prop :=
  ∀ c, s.mapTxLockCandidates.lookup key = some c → c.txLockRequest.hash = txHash

theorem RequestHash.of_acts {txHash : Uint256} (h : RequestHash key txHash s)
    (hacts : ReflTransGen (Act T ctx (some key) masternode) s s') : RequestHash key txHash s' := by
  induction hacts with
  | refl => exact h
  | tail _ hstep ih =>
    intro c' hc'
    obtain ⟨c, hc, hshape⟩ := hstep.exists_sameShape hc'
    rw [hshape.1]
    exact ih c hc

open Elsewhere

theorem acts_storeOwnVote (hpassed : PassedChecks ctx vote) (hs : RequestHash key vote.txHash s) :
    ReflTransGen (Act T ctx (some key) vote.outpointMasternode) s
      (s.storeOwnVote ctx key vote) := by
  unfold storeOwnVote
  simp only
  split
  · exact single (other (of_eq rfl rfl rfl rfl))
  · next c hc =>
      refine head (count rfl hc rfl hpassed (.inr (hs c hc).symm))
        (single (other ?_))
      split <;> exact of_eq rfl rfl rfl rfl

theorem acts_voteForOutpoint {txHash : Uint256} (hs : RequestHash key txHash s)
    (outpoint : COutPoint) :
    ReflTransGen (Act T ctx (some key) ctx.activeMasternode) s
      (s.voteForOutpoint ctx key txHash outpoint).2 := by
  unfold voteForOutpoint
  split
  · exact refl
  · next coin hcoin =>
      split
      · exact refl
      · next nRank hrank =>
          split_ifs with htop
          · exact refl
          · exact refl
          · simp only
            split
            · exact refl
            · next sig hsig =>
                split_ifs with hsignature
                · exact refl
                · have hpassed : PassedChecks ctx
                      ⟨txHash, outpoint, ctx.activeMasternode, sig, -1, ctx.time⟩ :=
                    ⟨coin, nRank, hcoin, hrank, not_lt.mp htop, by simpa using hsignature⟩
                  exact acts_storeOwnVote hpassed hs

theorem acts_voteForOutpoints {txHash : Uint256} (outpoints : List COutPoint) :
    ∀ {s : CInstantSend}, RequestHash key txHash s →
      ReflTransGen (Act T ctx (some key) ctx.activeMasternode) s
        (s.voteForOutpoints ctx key txHash outpoints) := by
  induction outpoints with
  | nil => exact fun _ => refl
  | cons outpoint rest ih =>
    intro s hs
    have hfirst : ReflTransGen (Act T ctx (some key) ctx.activeMasternode) s
        (s.voteForOutpoint ctx key txHash outpoint).2 := acts_voteForOutpoint hs outpoint
    rw [voteForOutpoints]
    simp only
    split
    · exact hfirst.trans (ih (hs.of_acts hfirst))
    · exact hfirst

theorem acts_vote (hs : Orderly T s) :
    ReflTransGen (Act T ctx (some key) ctx.activeMasternode) s (s.vote ctx key) := by
  unfold vote
  split
  · exact refl
  · next c hc =>
      have hvotes : ReflTransGen (Act T ctx (some key) ctx.activeMasternode) s
          (s.voteForCandidate ctx key c) := by
        unfold voteForCandidate
        simp only
        split_ifs
        · exact refl
        · exact refl
        · exact refl
        · refine acts_voteForOutpoints _ fun c' hc' => ?_
          rw [Option.some.inj (hc.symm.trans hc')]
      exact hvotes.trans (acts_tryToFinalize (hs.of_acts hvotes))

/-! ## Votes from the network -/

theorem does_limitOrphanVotes (s : CInstantSend) (vote : CTxLockVote) :
    Does T ctx key masternode s (s.limitOrphanVotes ctx vote).2 := by
  refine of_acts (single (other ?_))
  unfold limitOrphanVotes
  split
  · exact of_eq rfl rfl rfl rfl
  · split <;> exact of_eq rfl rfl rfl rfl

/-- An orphan vote counts in no candidate, but it may bring the request that was waiting. -/
theorem does_processOrphanVote (hinj : Set.InjOn hash T) (hs : Orderly T s)
    (vote : CTxLockVote) : Does T ctx vote.txHash masternode s (s.processOrphanVote ctx vote).2 := by
  unfold processOrphanVote
  simp only
  split
  · exact does_limitOrphanVotes s vote
  · -- the empty candidate is made and the vote is stored as an orphan
    have hempty : Create T ctx vote.txHash s (s.createEmptyTxLockCandidate ctx vote.txHash) :=
      Create.empty
    have hstore : Create T ctx vote.txHash (s.createEmptyTxLockCandidate ctx vote.txHash)
        { s.createEmptyTxLockCandidate ctx vote.txHash with
          mapTxLockVotesOrphan := (s.createEmptyTxLockCandidate ctx
            vote.txHash).mapTxLockVotesOrphan.insert (vote.getHash ctx) vote } :=
      Create.other (of_eq rfl rfl rfl rfl)
    have hstored := (hs.of_create hinj hempty).of_create hinj hstore
    refine head hempty (head hstore ?_)
    split
    · exact does_limitOrphanVotes _ vote
    · next tx htx =>
        have hfiled : Filed T vote.txHash tx := by
          rcases or_eq_some_iff.mp htx with htx | ⟨-, htx⟩
          · exact hstored.accepted _ tx htx
          · exact hstored.rejected _ tx htx
        split
        · exact does_processTxLockRequest hinj hstored hfiled
        · exact does_limitOrphanVotes _ vote

theorem acts_markConflictingVote (vote : CTxLockVote) (s : CInstantSend) (hash : Uint256) :
    ReflTransGen (Act T ctx (some key) masternode) s (s.markConflictingVote vote hash) := by
  unfold markConflictingVote
  split
  · exact refl
  · split
    · exact refl
    · split
      · exact head (attack vote.txHash vote.outpoint)
          (single (attack hash vote.outpoint))
      · exact refl

theorem acts_checkVotedOutpoint (s : CInstantSend) (vote : CTxLockVote) :
    ReflTransGen (Act T ctx (some key) masternode) s (s.checkVotedOutpoint vote) := by
  unfold checkVotedOutpoint
  generalize (s.mapVotedOutpoints.lookup vote.outpoint).getD [] = hashes
  have hmarks : ∀ s : CInstantSend, ReflTransGen (Act T ctx (some key) masternode) s
      (hashes.foldl (markConflictingVote vote) s) := by
    induction hashes with
    | nil => exact fun _ => refl
    | cons hash rest ih => exact fun s => (acts_markConflictingVote vote s hash).trans (ih _)
  exact (hmarks s).tail (other (of_eq rfl rfl rfl rfl))

theorem acts_processRequestedVote (hs : Orderly T s) (hpassed : PassedChecks ctx vote) :
    ReflTransGen (Act T ctx (some vote.txHash) vote.outpointMasternode) s
      (s.processRequestedVote ctx vote).2 := by
  have hchecked : ReflTransGen (Act T ctx (some vote.txHash) vote.outpointMasternode) s
      (s.checkVotedOutpoint vote) := acts_checkVotedOutpoint s vote
  unfold processRequestedVote
  simp only
  split
  · exact hchecked
  · next c hc =>
      have hcount : ReflTransGen (Act T ctx (some vote.txHash) vote.outpointMasternode) s _ :=
        hchecked.tail (count rfl hc rfl hpassed (.inl rfl))
      split
      · exact hcount.trans (acts_tryToFinalize (hs.of_acts hcount))
      · exact hcount

section

variable (hinj : Set.InjOn hash T) (hs : Orderly T s)

include hinj hs

theorem does_processTxLockVote (vote : CTxLockVote) :
    Does T ctx vote.txHash vote.outpointMasternode s (s.processTxLockVote ctx vote).2 := by
  unfold processTxLockVote
  split
  · exact refl s
  · next hvalid =>
      have hpassed : PassedChecks ctx vote := passedChecks_of_isValid (by simpa using hvalid)
      split
      · exact does_processOrphanVote hinj hs vote
      · split_ifs
        · exact does_processOrphanVote hinj hs vote
        · exact refl s
        · exact of_acts (acts_processRequestedVote hs hpassed)

theorem does_processVoteMessage (vote : CTxLockVote) :
    Does T ctx vote.txHash vote.outpointMasternode s (s.processVoteMessage ctx vote) := by
  unfold processVoteMessage
  simp only
  split_ifs
  · exact refl s
  · exact refl s
  · exact refl s
  · exact refl s
  · exact refl s
  · let received : CTxLockVote := { vote with nConfirmedHeight := -1, nTimeCreated := ctx.time }
    have hstore : Elsewhere T s
        { s with mapTxLockVotes := s.mapTxLockVotes.insert (received.getHash ctx) received } :=
      of_eq rfl rfl rfl rfl
    exact head (Create.other hstore)
      (does_processTxLockVote hinj (hs.of_elsewhere hstore) received)

theorem does_processRequestMessage (htx : tx ∈ T) :
    Does T ctx tx.hash ctx.activeMasternode s (s.processRequestMessage ctx tx) := by
  have hrequest : Does T ctx tx.hash ctx.activeMasternode s (s.processTxLockRequest ctx tx).2 :=
    does_processTxLockRequest hinj hs (.inl ⟨htx, rfl⟩)
  unfold processRequestMessage
  simp only
  split_ifs
  · exact refl s
  · exact hrequest
  · exact hrequest
  · have haccept := elsewhere_accept (s.processTxLockRequest ctx tx).2 htx
    exact hrequest.acts (head (other haccept)
      (acts_vote ((hs.of_does hinj hrequest).of_elsewhere haccept)))
  · exact hrequest
  · exact hrequest.acts (single (other (elsewhere_reject _ (.inl ⟨htx, rfl⟩))))

end

/-! ## The clean-up -/

/-- Some candidates are removed, and just the outpoints of these are unlocked. -/
structure CleanUp (s s' : CInstantSend) : Prop where
  candidates : ∀ k c, s'.mapTxLockCandidates.lookup k = some c →
    s.mapTxLockCandidates.lookup k = some c
  unlocked : ∀ k c o, s.mapTxLockCandidates.lookup k = some c →
    s'.mapTxLockCandidates.lookup k = none → (c.mapOutPointLocks.lookup o).isSome = true →
    s'.mapLockedOutpoints.lookup o = none
  kept : ∀ o, s'.mapLockedOutpoints.lookup o = s.mapLockedOutpoints.lookup o
    ∨ ∃ k c, s.mapTxLockCandidates.lookup k = some c ∧ s'.mapTxLockCandidates.lookup k = none
      ∧ (c.mapOutPointLocks.lookup o).isSome = true

theorem CleanUp.of_eq (hc : s'.mapTxLockCandidates = s.mapTxLockCandidates)
    (hl : s'.mapLockedOutpoints = s.mapLockedOutpoints) : CleanUp s s' :=
  ⟨fun _ _ h => hc ▸ h, fun _ _ _ h h' => absurd (h.symm.trans (hc ▸ h')) (by simp),
    fun _ => .inl (by rw [hl])⟩

/-- Nothing is locked by a clean-up. -/
theorem CleanUp.lookup_locked (h : CleanUp s s') {hash : Uint256}
    (ho : s'.mapLockedOutpoints.lookup o = some hash) :
    s.mapLockedOutpoints.lookup o = some hash := by
  grind [h.kept o, h.unlocked]

theorem CleanUp.lookup_none (h : CleanUp s s') (hk : s.mapTxLockCandidates.lookup k = none) :
    s'.mapTxLockCandidates.lookup k = none := by
  rw [eq_none_iff_forall_ne_some]
  grind [h.candidates]

theorem CleanUp.trans (h : CleanUp s s') (h' : CleanUp s' s'') : CleanUp s s'' := by
  refine ⟨fun k c hc => h.candidates k c (h'.candidates k c hc), fun k c o hc hnone hsome => ?_,
    fun o => ?_⟩
  · cases hmid : s'.mapTxLockCandidates.lookup k with
    | none =>
      -- it was removed and unlocked before
      rw [eq_none_iff_forall_ne_some]
      intro hash ho
      have hunlocked := h.unlocked k c o hc hmid hsome
      exact absurd (hunlocked.symm.trans (h'.lookup_locked ho)) (by simp)
    | some c' =>
      obtain rfl := Option.some.inj (hc.symm.trans (h.candidates k c' hmid))
      exact h'.unlocked k c o hmid hnone hsome
  · rcases h'.kept o with heq' | ⟨k, c, hc, hnone, hsome⟩
    · rcases h.kept o with heq | ⟨k, c, hc, hnone, hsome⟩
      · exact .inl (heq'.trans heq)
      · exact .inr ⟨k, c, hc, h'.lookup_none hnone, hsome⟩
    · exact .inr ⟨k, c, h.candidates k c hc, hnone, hsome⟩

theorem cleanUp_removeCandidate (hc : s.mapTxLockCandidates.lookup k = some c) :
    CleanUp s (s.removeCandidate k c) := by
  refine ⟨fun _ _ h => lookup_of_lookup_erase h, fun k' c' o hc' hnone hsome => ?_, fun o => ?_⟩
  · by_cases hk : k' = k
    · subst hk
      obtain rfl := Option.some.inj (hc.symm.trans hc')
      simp only [removeCandidate, lookup_foldl_erase]
      rw [if_pos ((mem_keys_iff_isSome _ _).mpr hsome)]
    · simp only [removeCandidate] at hnone
      simp [AList.lookup_erase_ne hk, hc'] at hnone
  · simp only [removeCandidate, lookup_foldl_erase]
    split_ifs with ho
    · exact .inr ⟨k, c, hc, AList.lookup_erase _ _, (mem_keys_iff_isSome _ _).mp ho⟩
    · simp

/-- The first loop, over entries with different keys that are still there. -/
theorem cleanUp_foldl (entries : List (Sigma fun _ : Uint256 => CTxLockCandidate)) :
    ∀ {s : CInstantSend}, entries.NodupKeys →
      (∀ entry ∈ entries, s.mapTxLockCandidates.lookup entry.1 = some entry.2) →
      CleanUp s (entries.foldl (fun s entry =>
        if isExpiredAt ctx.net entry.2.nConfirmedHeight s.nCachedBlockHeight then
          s.removeCandidate entry.1 entry.2
        else s) s) := by
  induction entries with
  | nil => exact fun _ _ => CleanUp.of_eq rfl rfl
  | cons entry rest ih =>
    intro s hnodup hentries
    obtain ⟨hnotin, hnodup⟩ := nodupKeys_cons.mp hnodup
    have hrest : ∀ entry ∈ rest, s.mapTxLockCandidates.lookup entry.1 = some entry.2 :=
      fun e he => hentries e (mem_cons_of_mem _ he)
    rw [foldl_cons]
    split_ifs
    · refine (cleanUp_removeCandidate (hentries entry mem_cons_self)).trans
        (ih hnodup fun e he => ?_)
      have hne : e.1 ≠ entry.1 := fun heq => hnotin (heq ▸ mem_keys_of_mem he)
      exact (AList.lookup_erase_ne hne).trans (hrest e he)
    · exact ih hnodup hrest

theorem cleanUp_checkAndRemove (ctx : LockContext) (s : CInstantSend) :
    CleanUp s (s.checkAndRemove ctx) := by
  unfold checkAndRemove
  split
  · have hfirst : CleanUp s (s.removeExpiredCandidates ctx) :=
      cleanUp_foldl _ s.mapTxLockCandidates.nodupKeys fun entry hentry =>
        (mem_lookup_iff_mem_entries _ _ _).mpr hentry
    exact hfirst.trans (CleanUp.of_eq rfl rfl)
  · exact CleanUp.of_eq rfl rfl

/-! ## What an action does to locks and to counted votes -/

/-- An action changes candidates in place, or locks the outpoints of the candidate of the event, or
    cleans up. -/
theorem Act.cases {key : Option Uint256} (h : Act T ctx key masternode s s') :
    (s'.mapLockedOutpoints = s.mapLockedOutpoints
        ∧ ∀ k, (s'.mapTxLockCandidates.lookup k).isSome = (s.mapTxLockCandidates.lookup k).isSome)
      ∨ (∃ k c, key = some k ∧ s.mapTxLockCandidates.lookup k = some c
        ∧ c.isAllOutPointsReady ∧ s'.mapTxLockCandidates = s.mapTxLockCandidates
        ∧ ∀ o, s'.mapLockedOutpoints.lookup o
          = if (c.mapOutPointLocks.lookup o).isSome then
              some ((s.mapLockedOutpoints.lookup o).getD c.txLockRequest.hash)
            else s.mapLockedOutpoints.lookup o)
      ∨ (CleanUp s s' ∧ ∀ k, key = some k → ∀ c, s.mapTxLockCandidates.lookup k = some c →
        c.isAllOutPointsReady) := by
  have hmodify : ∀ (f : CTxLockCandidate → CTxLockCandidate) (k k' : Uint256),
      ((modify s.mapTxLockCandidates k f).lookup k').isSome
        = (s.mapTxLockCandidates.lookup k').isSome := by
    grind [isSome_map]
  cases h with
  | other h => exact .inl ⟨h.locked, fun k => by rw [h.candidates]⟩
  | count _ hc _ _ _ => exact .inl ⟨rfl, by grind⟩
  | attack k o | confirm k nHeight => exact .inl ⟨rfl, hmodify _ k⟩
  | lock hkey hc hready =>
    refine .inr (.inl ⟨_, _, hkey, hc, hready, rfl, fun o => ?_⟩)
    simp only [lookup_foldl_insertNew, mem_keys_iff_isSome]
  | cleanUp hready => exact .inr (.inr ⟨cleanUp_checkAndRemove ctx s, hready⟩)

/-- Where a vote was counted: the vote passed the checks and is for the candidate of the event. -/
def CountedIn (ctx : LockContext) (key : Option Uint256) (masternode : COutPoint) (k : Uint256)
    (c : CTxLockCandidate) (o : COutPoint) (lock lock' : COutPointLock) : Prop :=
  ∃ vote : CTxLockVote, key = some k ∧ vote.outpoint = o ∧ vote.outpointMasternode = masternode
    ∧ PassedChecks ctx vote ∧ (vote.txHash = k ∨ vote.txHash = c.txLockRequest.hash)
    ∧ lock'.mapMasternodeVotes = lock.mapMasternodeVotes.insert masternode vote

theorem lookup_addVote {lock' : COutPointLock}
    (h : (c.addVote vote).2.mapOutPointLocks.lookup o = some lock') :
    ∃ lock, c.mapOutPointLocks.lookup o = some lock
      ∧ (lock'.mapMasternodeVotes = lock.mapMasternodeVotes
        ∨ (vote.outpoint = o ∧ lock'.mapMasternodeVotes
          = lock.mapMasternodeVotes.insert vote.outpointMasternode vote)) := by
  cases hlock : c.mapOutPointLocks.lookup vote.outpoint with
  | none => grind [addVote]
  | some lock =>
    cases hold : lock.mapMasternodeVotes.lookup vote.outpointMasternode <;>
      grind [addVote, COutPointLock.addVote]

/-- The votes of a lock after an action were there before, apart from the one the action counted. -/
theorem Act.lookup_lock {key : Option Uint256} (h : Act T ctx key masternode s s')
    {lock' : COutPointLock} (hc' : s'.mapTxLockCandidates.lookup k = some c')
    (hlock' : c'.mapOutPointLocks.lookup o = some lock') :
    ∃ c lock, s.mapTxLockCandidates.lookup k = some c ∧ c.mapOutPointLocks.lookup o = some lock
      ∧ (lock'.mapMasternodeVotes = lock.mapMasternodeVotes
        ∨ CountedIn ctx key masternode k c o lock lock') := by
  cases h with
  | other h => exact ⟨c', lock', h.candidates ▸ hc', hlock', .inl rfl⟩
  | count hkey hc hmasternode hpassed hhash =>
    have hadd := @lookup_addVote
    grind [CountedIn]
  | attack k' outpoint =>
    grind [markOutpointAsAttacked, COutPointLock.markAsAttacked, map_eq_some_iff]
  | confirm k' nHeight => grind [map_eq_some_iff]
  | lock _ _ _ => exact ⟨c', lock', hc', hlock', .inl rfl⟩
  | cleanUp _ =>
    exact ⟨c', lock', (cleanUp_checkAndRemove ctx s).candidates k c' hc', hlock', .inl rfl⟩

theorem lookup_addOutPointLocks {vin : List CTxIn} {lock : COutPointLock}
    (h : (c.addOutPointLocks vin).mapOutPointLocks.lookup o = some lock) :
    c.mapOutPointLocks.lookup o = some lock ∨ lock.mapMasternodeVotes = ∅ := by
  induction vin with
  | nil => exact .inl h
  | cons txin rest ih =>
    simp only [addOutPointLocks, foldr_cons, lookup_insertNew] at h ih
    split_ifs at h with ho
    · subst ho
      cases hold : (rest.foldr (fun txin locks => insertNew locks txin.prevout
          ⟨txin.prevout, ∅, false⟩) c.mapOutPointLocks).lookup txin.prevout with
      | none =>
        rw [hold] at h
        exact .inr (Option.some.inj h ▸ rfl)
      | some old =>
        rw [hold] at h
        exact ih (hold.trans h)
    · exact ih h

/-- Creating adds locks without votes to the candidate of the event, and nothing else. -/
theorem Create.lookup_lock (h : Create T ctx key s s') {lock : COutPointLock}
    (hc' : s'.mapTxLockCandidates.lookup k = some c')
    (hlock : c'.mapOutPointLocks.lookup o = some lock) :
    (∃ c, s.mapTxLockCandidates.lookup k = some c ∧ c.mapOutPointLocks.lookup o = some lock)
      ∨ (k = key ∧ lock.mapMasternodeVotes = ∅) := by
  have hnew := fun c => @lookup_addOutPointLocks c o
  cases h with
  | other h => exact .inl ⟨c', h.candidates ▸ hc', hlock⟩
  | empty =>
    cases hold : s.mapTxLockCandidates.lookup key <;>
      grind [createEmptyTxLockCandidate, newCandidate, AList.lookup_empty]
  | fresh _ _ _ => grind [newCandidate, AList.lookup_empty]
  | late _ _ hc | fill _ _ hc => grind

theorem Create.locked_eq (h : Create T ctx key s s') :
    s'.mapLockedOutpoints = s.mapLockedOutpoints := by
  cases h with
  | other h => exact h.locked
  | empty | fresh _ _ _ | late _ _ _ _ | fill _ _ _ _ => rfl

theorem lookup_addOutPointLocks_of_covered {vin : List CTxIn}
    (h : ∀ txin ∈ vin, (c.mapOutPointLocks.lookup txin.prevout).isSome) (o : COutPoint) :
    (c.addOutPointLocks vin).mapOutPointLocks.lookup o = c.mapOutPointLocks.lookup o := by
  induction vin generalizing o with
  | nil => rfl
  | cons txin rest ih =>
    have hrest := ih fun t ht => h t (mem_cons_of_mem _ ht)
    simp only [addOutPointLocks, foldr_cons, lookup_insertNew] at hrest ⊢
    split_ifs with ho
    · obtain ⟨lock, hlock⟩ := isSome_iff_exists.mp (h txin mem_cons_self)
      rw [ho, hrest, hlock]
      rfl
    · exact hrest o

/-- A candidate with outpoints keeps its outpoints and their votes when candidates are created. -/
theorem Create.lookup_of_covered (hinj : Set.InjOn hash T) (h : Create T ctx key s s')
    (hs : Orderly T s) (hc : s.mapTxLockCandidates.lookup k = some c)
    (ho : (c.mapOutPointLocks.lookup o).isSome) :
    ∃ c', s'.mapTxLockCandidates.lookup k = some c'
      ∧ ∀ o, c'.mapOutPointLocks.lookup o = c.mapOutPointLocks.lookup o := by
  cases h with
  | other h => exact ⟨c, h.candidates.symm ▸ hc, fun _ => rfl⟩
  | empty => grind [createEmptyTxLockCandidate]
  | fresh _ _ hnone | late _ _ hold => grind
  | fill htx hkey hold =>
    obtain ⟨hmem, hhash, hinputs⟩ := (hs.covers _ c hc).2 o ho
    have hadd := @lookup_addOutPointLocks_of_covered
    have hrequest := hinj hmem htx
    grind

/-! ## Events -/

/-- What the node had around it at an event. -/
def InstantSendEvent.context : InstantSendEvent → Option LockContext
  | .requestMessage ctx _ | .localRequest ctx _ | .voteMessage ctx _ | .ownVote ctx _
  | .orphanVotes ctx | .finalize ctx _ | .syncTransaction ctx _ _ => some ctx
  | .updatedBlockTip _ => none
  | .checkAndRemove ctx => some ctx

/-- The transaction that a request, a vote or a finalisation is for. -/
def InstantSendEvent.txHash? : InstantSendEvent → Option Uint256
  | .requestMessage _ tx | .localRequest _ tx => some tx.hash
  | .voteMessage _ vote => some vote.txHash
  | .ownVote _ txHash | .finalize _ txHash => some txHash
  | _ => none

theorem acts_syncTransaction (s : CInstantSend) (tx : CTransaction) (nHeightNew : ℤ) :
    ReflTransGen (Act T ctx none masternode) s (s.syncTransaction ctx tx nHeightNew) := by
  unfold syncTransaction
  split_ifs
  · exact refl
  · exact head (confirm tx.hash nHeightNew)
      (single (other (of_eq rfl rfl rfl rfl)))

/-- **What one event does**, the replay of orphan votes apart. -/
theorem step_cases (hinj : Set.InjOn hash T) (hs : Orderly T s)
    (hevent : event.Within T) (horphans : ∀ ctx, event ≠ .orphanVotes ctx) :
    (∃ ctx key masternode, event.context = some ctx ∧ event.txHash? = some key
        ∧ Does T ctx key masternode s (s.step event))
      ∨ (∃ ctx masternode, event.context = some ctx
        ∧ ReflTransGen (Act T ctx none masternode) s (s.step event))
      ∨ Elsewhere T s (s.step event) := by
  cases event with
  | requestMessage ctx tx =>
    exact .inl ⟨ctx, tx.hash, _, rfl, rfl, does_processRequestMessage hinj hs hevent⟩
  | localRequest ctx tx =>
    exact .inl ⟨ctx, tx.hash, ctx.activeMasternode, rfl, rfl,
      does_processTxLockRequest hinj hs (.inl ⟨hevent, rfl⟩)⟩
  | voteMessage ctx vote =>
    exact .inl ⟨ctx, vote.txHash, _, rfl, rfl, does_processVoteMessage hinj hs vote⟩
  | ownVote ctx txHash => exact .inl ⟨ctx, txHash, _, rfl, rfl, of_acts (acts_vote hs)⟩
  | orphanVotes ctx => exact absurd rfl (horphans ctx)
  | finalize ctx txHash =>
    exact .inl ⟨ctx, txHash, ctx.activeMasternode, rfl, rfl, of_acts (acts_tryToFinalize hs)⟩
  | syncTransaction ctx tx nHeightNew =>
    exact .inr (.inl ⟨ctx, ctx.activeMasternode, rfl, acts_syncTransaction s tx nHeightNew⟩)
  | updatedBlockTip nHeight => exact .inr (.inr (of_eq rfl rfl rfl rfl))
  | checkAndRemove ctx =>
    exact .inr (.inl ⟨ctx, ctx.activeMasternode, rfl,
      single (cleanUp fun k hk => absurd hk (by simp))⟩)

/-! ## Invariants -/

/-- What the actions of the contexts in `C` keep, along with the order of the requests. -/
structure KeptBy (T : Set CTransaction) (C : Set LockContext) (P : CInstantSend → Prop) : Prop where
  create : ∀ ctx ∈ C, ∀ key s s', Orderly T s → P s → Create T ctx key s s' → P s'
  act : ∀ ctx ∈ C, ∀ key masternode s s', Orderly T s → P s → Act T ctx key masternode s s' → P s'
  other : ∀ s s', P s → Elsewhere T s s' → P s'

section

variable {C : Set LockContext} {P : CInstantSend → Prop}

theorem KeptBy.acts (hP : KeptBy T C P) (hctx : ctx ∈ C) {key : Option Uint256} (hs : Orderly T s)
    (h : P s) (hacts : ReflTransGen (Act T ctx key masternode) s s') : P s' := by
  induction hacts with
  | refl => exact h
  | tail hfirst hstep ih => exact hP.act ctx hctx key _ _ _ (hs.of_acts hfirst) ih hstep

section

variable (hinj : Set.InjOn hash T) (hP : KeptBy T C P)

include hinj hP

theorem KeptBy.does (hctx : ctx ∈ C)
    (hs : Orderly T s) (h : P s) (hdoes : Does T ctx key masternode s s') : P s' := by
  obtain ⟨s₁, hcreates, hacts⟩ := hdoes
  refine hP.acts hctx (hs.of_creates hinj hcreates) ?_ hacts
  clear hacts
  induction hcreates with
  | refl => exact h
  | tail hfirst hstep ih => exact hP.create ctx hctx key _ _ (hs.of_creates hinj hfirst) ih hstep

/-- The replay of orphan votes is one vote after the other. -/
theorem KeptBy.orphanVotes (hctx : ctx ∈ C) (hs : Orderly T s) (h : P s) :
    Orderly T (s.processOrphanTxLockVotes ctx) ∧ P (s.processOrphanTxLockVotes ctx) := by
  unfold processOrphanTxLockVotes
  generalize s.mapTxLockVotesOrphan.entries = entries
  induction entries generalizing s with
  | nil => exact ⟨hs, h⟩
  | cons entry rest ih =>
    have hvote : Does T ctx entry.2.txHash entry.2.outpointMasternode s
        (s.processTxLockVote ctx entry.2).2 := does_processTxLockVote hinj hs entry.2
    have hs' := hs.of_does hinj hvote
    have h' := hP.does hinj hctx hs h hvote
    rw [foldl_cons]
    simp only
    split
    · have hother : ∀ orphans, Elsewhere T (s.processTxLockVote ctx entry.2).2
          { (s.processTxLockVote ctx entry.2).2 with mapTxLockVotesOrphan := orphans } :=
        fun _ => of_eq rfl rfl rfl rfl
      exact ih (hs'.of_elsewhere (hother _)) (hP.other _ _ h' (hother _))
    · exact ih hs' h'

/-- **What the actions keep, every event keeps.** -/
theorem KeptBy.step (hs : Orderly T s)
    (h : P s) (hevent : event.Within T) (hctx : ∀ ctx, event.context = some ctx → ctx ∈ C) :
    Orderly T (s.step event) ∧ P (s.step event) := by
  by_cases horphans : ∃ ctx, event = .orphanVotes ctx
  · obtain ⟨ctx, rfl⟩ := horphans
    exact hP.orphanVotes hinj (hctx ctx rfl) hs h
  · rcases step_cases hinj hs hevent (not_exists.mp horphans) with
      ⟨ctx, key, masternode, hc, -, hdoes⟩ | ⟨ctx, masternode, hc, hacts⟩ | hother
    · exact ⟨hs.of_does hinj hdoes, hP.does hinj (hctx ctx hc) hs h hdoes⟩
    · exact ⟨hs.of_acts hacts, hP.acts (hctx ctx hc) hs h hacts⟩
    · exact ⟨hs.of_elsewhere hother, hP.other _ _ h hother⟩

/-- **What the actions keep, every run keeps.** -/
theorem KeptBy.run (events : List InstantSendEvent) (hevents : ∀ event ∈ events, event.Within T)
    (hctx : ∀ event ∈ events, ∀ ctx, event.context = some ctx → ctx ∈ C) :
    ∀ {s : CInstantSend}, Orderly T s → P s → Orderly T (s.run events) ∧ P (s.run events) := by
  induction events with
  | nil => exact fun hs h => ⟨hs, h⟩
  | cons event rest ih =>
    intro s hs h
    obtain ⟨hs', h'⟩ := hP.step hinj hs h (hevents event mem_cons_self)
      (hctx event mem_cons_self)
    exact ih (fun e he => hevents e (mem_cons_of_mem _ he))
      (fun e he => hctx e (mem_cons_of_mem _ he)) hs' h'

end

end

theorem keptBy_true : KeptBy T Set.univ fun _ => True :=
  ⟨fun _ _ _ _ _ _ _ _ => trivial, fun _ _ _ _ _ _ _ _ _ => trivial, fun _ _ _ _ => trivial⟩

theorem Orderly.step (hinj : Set.InjOn hash T) (hs : Orderly T s)
    (hevent : event.Within T) : Orderly T (s.step event) :=
  (keptBy_true.step hinj hs trivial hevent fun _ _ => Set.mem_univ _).1

theorem Orderly.run (hinj : Set.InjOn hash T) (events : List InstantSendEvent)
    (hs : Orderly T s) (hevents : ∀ event ∈ events, event.Within T) : Orderly T (s.run events) :=
  (keptBy_true.run hinj events hevents (fun _ _ _ _ => Set.mem_univ _) hs trivial).1

end

end Binarium
