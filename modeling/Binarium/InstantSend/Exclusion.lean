import Binarium.InstantSend.Actions

set_option autoImplicit false

/-! # No two conflicting transactions are locked

`IsLockedInstantSendTransaction` looks up the candidate of a transaction hash and asks whether all
outpoints of the candidate are recorded as locked by that hash. An outpoint is locked by one hash
only, so two transactions with a common outpoint cannot both be locked, provided that the outpoint is
one of the outpoints of both candidates. That is the invariant `LockInv`: all candidates cover their
requests. It is the part of `Orderly` that is needed here. -/

namespace Binarium

open Maps CInstantSend

/-- The invariant of all runs with transactions of `T`. -/
structure LockInv (T : Set CTransaction) (s : CInstantSend) : Prop where
  candidates : ∀ h c, s.mapTxLockCandidates.lookup h = some c → Covers T h c
  accepted : ∀ h tx, s.mapLockRequestAccepted.lookup h = some tx → Known T tx
  rejected : ∀ h tx, s.mapLockRequestRejected.lookup h = some tx → Known T tx

variable {T : Set CTransaction}

theorem Filed.known {h : Uint256} {tx : CTransaction} (hfiled : Filed T h tx) : Known T tx :=
  hfiled.imp_left And.left

theorem Orderly.lockInv {s : CInstantSend} (hs : Orderly T s) : LockInv T s :=
  ⟨hs.covers, fun h tx htx => (hs.accepted h tx htx).known,
    fun h tx htx => (hs.rejected h tx htx).known⟩

/-- **Every run keeps the invariant.** -/
theorem lockInv_run (hinj : Set.InjOn CTransaction.hash T) (events : List InstantSendEvent)
    (hevents : ∀ event ∈ events, event.Within T) : LockInv T (init.run events) :=
  (Orderly.run hinj events (orderly_init T) hevents).lockInv

/-! ## Mutual exclusion -/

theorem lookup_of_isLocked {s : CInstantSend} (hs : LockInv T s)
    (hinj : Set.InjOn CTransaction.hash T) {ctx : LockContext} {tx : CTransaction} (htx : tx ∈ T)
    (hlocked : s.isLockedInstantSendTransaction ctx tx.hash) {txin : CTxIn}
    (hin : txin ∈ tx.vin) : s.mapLockedOutpoints.lookup txin.prevout = some tx.hash := by
  unfold isLockedInstantSendTransaction at hlocked
  split at hlocked
  · simp at hlocked
  · split at hlocked
    · simp at hlocked
    · next c hc =>
        obtain ⟨hnonempty, hall⟩ := Bool.and_eq_true_iff.mp hlocked
        rw [forAll_iff] at hall
        -- some outpoint of the candidate, by which it is that of the transaction
        obtain ⟨⟨o, lock⟩, hentry⟩ := List.exists_mem_of_ne_nil c.mapOutPointLocks.entries
          (by simpa using hnonempty)
        have ho := (mem_lookup_iff_mem_entries _ _ _).mpr hentry
        obtain ⟨hmem, hhash, hinputs⟩ := (hs.candidates _ c hc).2 o (by rw [ho]; rfl)
        have heq : c.txLockRequest = tx := hinj hmem htx hhash
        rw [heq] at hinputs
        obtain ⟨lock', hlock'⟩ := Option.isSome_iff_exists.mp (hinputs txin hin)
        exact of_decide_eq_true (hall _ lock' hlock')

/-- **No two transactions that spend a common outpoint are locked at the same time**, whatever
    requests, votes, finalisations, blocks and expiry runs the node has seen, if different transactions
    have different hashes. -/
theorem isLocked_exclusive (T : Set CTransaction) (hinj : Set.InjOn CTransaction.hash T)
    (events : List InstantSendEvent) (hevents : ∀ event ∈ events, event.Within T)
    (ctx : LockContext) (tx tx' : CTransaction) (htx : tx ∈ T) (htx' : tx' ∈ T) (hne : tx ≠ tx')
    (outpoint : COutPoint) (hspent : outpoint ∈ tx.vin.map CTxIn.prevout)
    (hspent' : outpoint ∈ tx'.vin.map CTxIn.prevout) :
    ¬ ((init.run events).isLockedInstantSendTransaction ctx tx.hash = true
      ∧ (init.run events).isLockedInstantSendTransaction ctx tx'.hash = true) := by
  rintro ⟨hlocked, hlocked'⟩
  obtain ⟨txin, hin, rfl⟩ := List.mem_map.mp hspent
  obtain ⟨txin', hin', hcommon⟩ := List.mem_map.mp hspent'
  have hs := lockInv_run hinj events hevents
  have hhash := lookup_of_isLocked hs hinj htx hlocked hin
  have hhash' := lookup_of_isLocked hs hinj htx' hlocked' hin'
  rw [hcommon, hhash] at hhash'
  exact hne (hinj htx htx' (Option.some.inj hhash'))

/-- A node with InstantSend enabled where all outpoints hold two old coins and all masternodes are in
    the top ten. -/
def openLockContext (time : ℤ) : LockContext :=
  { net := .regtest
    voteHash := fun txHash _ masternode => txHash + masternode.hash * 1000
    fLiteMode := false
    fEnableInstantSend := true
    fLargeWorkForkFound := false
    fLargeWorkInvalidChainFound := false
    fMasternodeMode := false
    fRelayTxes := true
    peerIsUpdated := true
    spork2InstantSendEnabled := true
    spork3InstantSendBlockFiltering := true
    spork5InstantSendMaxValue := 1000
    isMasternodeListSynced := true
    time := time
    chainHeight := 200
    checkFinalTx := fun _ => true
    getUTXOCoin := fun _ => some ⟨⟨200000000, [0x51]⟩, false, 100⟩
    mapNextTx := fun _ => none
    includedInBlock := fun _ => false
    acceptToMemoryPool := fun _ => true
    fMissingInputs := fun _ => false
    hasMasternode := fun _ => true
    getMasternodeRank := fun _ _ => some 1
    checkSignature := fun _ => true
    activeMasternode := ⟨0, 0⟩
    signVote := fun _ => none }

/-- A transaction that spends the first output of transaction 5. -/
def spendOfFive (hash : Uint256) : CTransaction :=
  { hash := hash, nVersion := 1,
    vin := [{ prevout := ⟨5, 0⟩, scriptSig := [], nSequence := 0xffffffff }],
    vout := [{ nValue := 100000000, scriptPubKey := [0x51] }], nLockTime := 0 }

/-- The vote of a masternode for that transaction. -/
def voteForSpend (hash : Uint256) (masternode : ℕ) : CTxLockVote :=
  ⟨hash, ⟨5, 0⟩, ⟨BitVec.ofNat 256 masternode, 0⟩, [], -1, 0⟩

/-- Two requests for the same outpoint, and six votes for the first one. -/
def competingEvents : List InstantSendEvent :=
  [.requestMessage (openLockContext 1000) (spendOfFive 1),
    .requestMessage (openLockContext 1001) (spendOfFive 2)]
  ++ [1, 2, 3, 4, 5, 6].map fun masternode =>
    .voteMessage (openLockContext 1002) (voteForSpend 1 masternode)

theorem isLocked_exclusive_competing :
    (init.run competingEvents).isLockedInstantSendTransaction (openLockContext 1003)
        (spendOfFive 1).hash = true
      ∧ (init.run competingEvents).isLockedInstantSendTransaction (openLockContext 1003)
        (spendOfFive 2).hash = false := by
  have hfirst : (init.run competingEvents).isLockedInstantSendTransaction
      (openLockContext 1003) (spendOfFive 1).hash := by decide +kernel
  have hexclusive := isLocked_exclusive {spendOfFive 1, spendOfFive 2}
    (by simp [Set.InjOn, spendOfFive]) competingEvents
    (by simp [competingEvents, InstantSendEvent.Within]) (openLockContext 1003) (spendOfFive 1)
    (spendOfFive 2) (by simp) (by simp) (by decide) ⟨5, 0⟩ (by decide) (by decide)
  exact ⟨hfirst, Bool.eq_false_iff.mpr fun hsecond => hexclusive ⟨hfirst, hsecond⟩⟩

end Binarium
