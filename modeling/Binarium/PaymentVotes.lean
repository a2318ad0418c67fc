import Binarium.Lib.Maps
import Binarium.MasternodePayments

set_option autoImplicit false

/-! # Which payment votes count (`CMasternodePayments::ProcessMessage`)

A masternode has one vote for the payee of a height. `CanVote` is to see to that. It remembers, for
each masternode, the height of the last vote that came to it, and refuses a vote for that height. Two
things follow from the order in which `ProcessMessage` asks.

The memory is one height deep: after a vote for another height the masternode can vote for the first
height again. There is one counted vote for each height as long as no masternode comes back to a height
(`countedVotes_le_one`).

The memory is written before the signature is checked, and so is the map of votes that were seen,
whose key leaves the signature out. A vote with a bad signature can thus take the place of the
masternode's own vote, and it does so once it is stored (`later_votes_handled_alike_iff`). -/

namespace Binarium

open Maps List

/-! ## The handler -/

/-- Whether a vote passes the checks after `CanVote`. -/
def VoteChecks.eligible (checks : VoteChecks) (vote : CMasternodePaymentVote) : Bool :=
  checks.hasMasternodeInfo vote.vinMasternode && checks.checkSignature vote
    && checks.hasBlockHash (vote.nBlockHeight - 101)

namespace CMasternodePayments

/-- The state with the vote stored as not verified, so that it is not processed twice. -/
def storeVote (s : CMasternodePayments) (hash : Uint256) (vote : CMasternodePaymentVote) :
    CMasternodePayments :=
  { s with
    mapMasternodePaymentVotes :=
      s.mapMasternodePaymentVotes.insert hash vote.markAsNotVerified }

section

variable (checks : VoteChecks) (s : CMasternodePayments) (vote : CMasternodePaymentVote)

/-- The end of `CMasternodePayments::ProcessMessage` for a `MASTERNODEPAYMENTVOTE`, from `CanVote`
    on, with whether the vote was counted and relayed. -/
def castVote : Bool × CMasternodePayments :=
  let (mayVote, s) := s.canVote vote.vinMasternode vote.nBlockHeight
  if !mayVote then (false, s)
  else if !checks.hasMasternodeInfo vote.vinMasternode then (false, s)
  else if !checks.checkSignature vote then (false, s)
  else s.addPaymentVote checks vote

/-- `CMasternodePayments::ProcessMessage` for a `MASTERNODEPAYMENTVOTE`, with whether the vote was
    counted and relayed. -/
def processVoteMessage : Bool × CMasternodePayments :=
  let hash := checks.getHash vote
  if !checks.peerIsUpdated then (false, s)
  else if !checks.isMasternodeListSynced then (false, s)
  else if (s.mapMasternodePaymentVotes.lookup hash).isSome then (false, s)
  else
    let s := s.storeVote hash vote
    if vote.nBlockHeight < s.nCachedBlockHeight - checks.nStorageLimit
        ∨ vote.nBlockHeight > s.nCachedBlockHeight + 20 then (false, s)
    else if !checks.isValid vote then (false, s)
    else s.castVote checks vote

/-- Whether a vote is stored as seen. -/
def storesVote : Bool :=
  checks.peerIsUpdated && checks.isMasternodeListSynced
    && (s.mapMasternodePaymentVotes.lookup (checks.getHash vote)).isNone

/-- Whether a vote comes to `CanVote`. -/
def asksToVote : Bool :=
  s.storesVote checks vote
    && decide (s.nCachedBlockHeight - checks.nStorageLimit ≤ vote.nBlockHeight
      ∧ vote.nBlockHeight ≤ s.nCachedBlockHeight + 20)
    && checks.isValid vote

/-- Whether a vote is counted: it comes to `CanVote`, is not for the height of the last vote of its
    masternode, and is eligible. -/
def countsVote : Bool :=
  s.asksToVote checks vote
    && decide (s.mapMasternodesLastVote.lookup vote.vinMasternode ≠ some vote.nBlockHeight)
    && checks.eligible vote

end

end CMasternodePayments

open CMasternodePayments

section

variable (s : CMasternodePayments) (masternode : COutPoint) (nBlockHeight : ℤ)

theorem lookup_canVote (m : COutPoint) :
    (s.canVote masternode nBlockHeight).2.mapMasternodesLastVote.lookup m
      = if m = masternode then some nBlockHeight else s.mapMasternodesLastVote.lookup m := by
  unfold canVote
  grind

theorem canVote_eq_false_iff :
    (s.canVote masternode nBlockHeight).1 = false
      ↔ s.mapMasternodesLastVote.lookup masternode = some nBlockHeight := by
  unfold canVote
  split_ifs with h <;> simp [h]

theorem canVote_same :
    (s.canVote masternode nBlockHeight).2.mapMasternodePaymentVotes = s.mapMasternodePaymentVotes
      ∧ (s.canVote masternode nBlockHeight).2.mapMasternodeBlocks = s.mapMasternodeBlocks
      ∧ (s.canVote masternode nBlockHeight).2.nCachedBlockHeight = s.nCachedBlockHeight := by
  unfold canVote
  split_ifs <;> exact ⟨rfl, rfl, rfl⟩

end

section

variable (checks : VoteChecks) {s : CMasternodePayments} {vote : CMasternodePaymentVote}
  (h : s.mapMasternodePaymentVotes.lookup (checks.getHash vote) = some vote.markAsNotVerified)

include h

/-- A vote that was just stored as not verified is counted if the block is known. -/
theorem addPaymentVote_of_unverified :
    s.addPaymentVote checks vote
      = if checks.hasBlockHash (vote.nBlockHeight - 101) then
          (true, s.countVote vote (checks.getHash vote))
        else (false, s) := by
  have hverified : s.hasVerifiedPaymentVote (checks.getHash vote) = false := by
    rw [hasVerifiedPaymentVote, h]
    rfl
  simp only [addPaymentVote, hverified]
  cases checks.hasBlockHash (vote.nBlockHeight - 101) <;> simp

theorem castVote_of_unverified : s.castVote checks vote
      = if s.mapMasternodesLastVote.lookup vote.vinMasternode ≠ some vote.nBlockHeight
            ∧ checks.eligible vote then
          (true, (s.canVote vote.vinMasternode vote.nBlockHeight).2.countVote vote
            (checks.getHash vote))
        else (false, (s.canVote vote.vinMasternode vote.nBlockHeight).2) := by
  have hlast := canVote_eq_false_iff s vote.vinMasternode vote.nBlockHeight
  have hadd := addPaymentVote_of_unverified checks
    (s := (s.canVote vote.vinMasternode vote.nBlockHeight).2)
    ((canVote_same s vote.vinMasternode vote.nBlockHeight).1 ▸ h)
  unfold castVote VoteChecks.eligible
  split_ifs <;> simp_all

end

section

variable {checks : VoteChecks} {s : CMasternodePayments} {vote : CMasternodePaymentVote}

@[grind →] theorem stores_of_asks (h : s.asksToVote checks vote) : s.storesVote checks vote := by
  simp_all [asksToVote]

@[grind →] theorem asks_of_counts (h : s.countsVote checks vote) : s.asksToVote checks vote := by
  simp_all [countsVote]

theorem countsVote_iff : s.countsVote checks vote ↔ s.asksToVote checks vote
      ∧ s.mapMasternodesLastVote.lookup vote.vinMasternode ≠ some vote.nBlockHeight
      ∧ checks.eligible vote := by
  simp only [countsVote, Bool.and_eq_true, decide_eq_true_eq, and_assoc]

/-- **What a message does**: it is ignored, or it is stored and no more, or `CanVote` is asked, and
    then the vote is counted or not. -/
theorem processVoteMessage_cases :
    s.storesVote checks vote = false ∧ s.processVoteMessage checks vote = (false, s)
      ∨ s.storesVote checks vote ∧ s.asksToVote checks vote = false
        ∧ s.processVoteMessage checks vote = (false, s.storeVote (checks.getHash vote) vote)
      ∨ s.asksToVote checks vote ∧ ∃ s', s' = ((s.storeVote (checks.getHash vote) vote).canVote
          vote.vinMasternode vote.nBlockHeight).2 ∧ s.processVoteMessage checks vote
        = if s.countsVote checks vote then (true, s'.countVote vote (checks.getHash vote))
          else (false, s') := by
  have hcast := @castVote_of_unverified checks (s.storeVote (checks.getHash vote) vote) vote
    (AList.lookup_insert _)
  have hsame : (s.storeVote (checks.getHash vote) vote).nCachedBlockHeight = s.nCachedBlockHeight
      ∧ (s.storeVote (checks.getHash vote) vote).mapMasternodesLastVote
        = s.mapMasternodesLastVote := ⟨rfl, rfl⟩
  have hcounts := @countsVote_iff checks s vote
  unfold processVoteMessage asksToVote storesVote at *
  cases hseen : s.mapMasternodePaymentVotes.lookup (checks.getHash vote) <;> grind

/-- **A vote is relayed just if it is counted.** -/
theorem processVoteMessage_fst :
    (s.processVoteMessage checks vote).1 = s.countsVote checks vote := by
  have hcases := @processVoteMessage_cases checks s vote
  grind

/-- A vote that comes to `CanVote` is the last one of its masternode from then on. -/
theorem lookup_lastVote_processVoteMessage (m : COutPoint) :
    (s.processVoteMessage checks vote).2.mapMasternodesLastVote.lookup m
      = if s.asksToVote checks vote ∧ m = vote.vinMasternode then some vote.nBlockHeight
        else s.mapMasternodesLastVote.lookup m := by
  have hcan := lookup_canVote (s.storeVote (checks.getHash vote) vote) vote.vinMasternode
    vote.nBlockHeight m
  have hcases := @processVoteMessage_cases checks s vote
  grind [storeVote, countVote]

theorem lookup_votes_processVoteMessage (hash : Uint256) :
    (s.processVoteMessage checks vote).2.mapMasternodePaymentVotes.lookup hash
      = if s.storesVote checks vote ∧ hash = checks.getHash vote then
          some (if s.countsVote checks vote then vote else vote.markAsNotVerified)
        else s.mapMasternodePaymentVotes.lookup hash := by
  have hcan := (canVote_same (s.storeVote (checks.getHash vote) vote) vote.vinMasternode
    vote.nBlockHeight).1
  have hcases := @processVoteMessage_cases checks s vote
  grind [storeVote, countVote]

theorem blocks_processVoteMessage : (s.processVoteMessage checks vote).2.mapMasternodeBlocks
      = if s.countsVote checks vote then
          s.mapMasternodeBlocks.insert vote.nBlockHeight
            (tallyWith s.mapMasternodeBlocks vote (checks.getHash vote))
        else s.mapMasternodeBlocks := by
  have hcan := (canVote_same (s.storeVote (checks.getHash vote) vote) vote.vinMasternode
    vote.nBlockHeight).2.1
  have hcases := @processVoteMessage_cases checks s vote
  grind [storeVote, countVote]

end

/-! ## Counting -/

/-- The hashes of the votes in the tally of a height. -/
def CMasternodePayments.talliedHashes (s : CMasternodePayments) (nBlockHeight : ℤ) : List Uint256 :=
  match s.mapMasternodeBlocks.lookup nBlockHeight with
  | none => []
  | some block => block.vecPayees.flatMap CMasternodePayee.vecVoteHashes

theorem flatMap_addPayeeTo_perm (vote : CMasternodePaymentVote) (hash : Uint256)
    (payees : List CMasternodePayee) :
    ((addPayeeTo vote hash payees).flatMap CMasternodePayee.vecVoteHashes).Perm
      (hash :: payees.flatMap CMasternodePayee.vecVoteHashes) := by
  induction payees with
  | nil => exact List.Perm.refl _
  | cons payee rest ih =>
    rw [addPayeeTo]
    split_ifs
    · simp
    · exact (ih.append_left _).trans perm_middle

section

variable {checks : VoteChecks} {s : CMasternodePayments} {vote : CMasternodePaymentVote}

theorem talliedHashes_processVoteMessage_perm (nBlockHeight : ℤ) :
    ((s.processVoteMessage checks vote).2.talliedHashes nBlockHeight).Perm
      (if s.countsVote checks vote ∧ nBlockHeight = vote.nBlockHeight then
          checks.getHash vote :: s.talliedHashes nBlockHeight
        else s.talliedHashes nBlockHeight) := by
  have hadd := flatMap_addPayeeTo_perm vote (checks.getHash vote)
  unfold talliedHashes
  rw [blocks_processVoteMessage]
  by_cases hcounts : s.countsVote checks vote
  · simp only [hcounts, true_and, if_true, lookup_insert_eq_ite]
    split_ifs with hheight
    · subst hheight
      cases hold : s.mapMasternodeBlocks.lookup vote.nBlockHeight with
      | none => simpa [tallyWith, hold, CMasternodeBlockPayees.addPayee] using hadd []
      | some block =>
        simpa [tallyWith, hold, CMasternodeBlockPayees.addPayee] using hadd block.vecPayees
    · simp
  · simp [hcounts]

end

/-! ## Runs -/

/-- What comes to a node that is no masternode itself: votes from peers and blocks. -/
inductive PaymentEvent where
  | vote (checks : VoteChecks) (vote : CMasternodePaymentVote)
  | updatedBlockTip (nHeight : ℤ)

/-- `CMasternodePayments::UpdatedBlockTip`. -/
def CMasternodePayments.updatedBlockTip (s : CMasternodePayments) (nHeight : ℤ) :
    CMasternodePayments :=
  { s with nCachedBlockHeight := nHeight }

/-- What one event does. -/
def CMasternodePayments.step (s : CMasternodePayments) : PaymentEvent → CMasternodePayments
  | .vote checks vote => (s.processVoteMessage checks vote).2
  | .updatedBlockTip nHeight => s.updatedBlockTip nHeight

/-- A node where all checks pass and a signature is a single one. The hash has the payee, the height
    and the masternode in it. -/
def openVoteChecks : VoteChecks :=
  { getHash := fun vote =>
      BitVec.ofInt 256 vote.nBlockHeight * 1000 + BitVec.ofNat 256 (vote.payee.map BitVec.toNat).sum
        + vote.vinMasternode.hash * 1000000
    hasBlockHash := fun _ => true
    peerIsUpdated := true
    isMasternodeListSynced := true
    nStorageLimit := 5000
    isValid := fun _ => true
    hasMasternodeInfo := fun _ => true
    checkSignature := fun vote => decide (vote.vchSig = [1]) }

/-- A vote of masternode 7. -/
def voteOfSeven (nBlockHeight : ℤ) (payee : BitVec 8) (signature : UInt8) : CMasternodePaymentVote :=
  ⟨⟨7, 0⟩, nBlockHeight, [payee], [signature]⟩

/-! ## Votes with a bad signature -/

/-- What happens to the votes: a message or a block comes, old votes are removed, all are cleared. -/
inductive PaymentAction where
  | event (event : PaymentEvent)
  | checkAndRemove (isBlockchainSynced : Bool) (nLimit : ℤ)
  | clear

/-- What one action does. -/
def CMasternodePayments.act (s : CMasternodePayments) : PaymentAction → CMasternodePayments
  | .event event => s.step event
  | .checkAndRemove isBlockchainSynced nLimit => s.checkAndRemove isBlockchainSynced nLimit
  | .clear => s.clear

/-- The action is one of a node with the same hashes and signatures. -/
def PaymentAction.SameScheme (checks : VoteChecks) : PaymentAction → Prop
  | .event (.vote later _) =>
    later.getHash = checks.getHash ∧ later.checkSignature = checks.checkSignature
  | _ => True

/-- What becomes of the votes of a masternode with a correct signature: whether they are counted and
    relayed, in the order in which they come. -/
def CMasternodePayments.handled (masternode : COutPoint) :
    CMasternodePayments → List PaymentAction → List Bool
  | _, [] => []
  | s, .event (.vote checks vote) :: rest =>
    let (result, s') := s.processVoteMessage checks vote
    if vote.vinMasternode = masternode ∧ checks.checkSignature vote then
      result :: handled masternode s' rest
    else handled masternode s' rest
  | s, action :: rest => handled masternode (s.act action) rest

/-- The same hashes and signatures, with all other checks passed. -/
def VoteChecks.passing (checks : VoteChecks) : VoteChecks :=
  { checks with
    hasBlockHash := fun _ => true
    peerIsUpdated := true
    isMasternodeListSynced := true
    nStorageLimit := 0
    isValid := fun _ => true
    hasMasternodeInfo := fun _ => true }

theorem asksToVote_passing (checks : VoteChecks) (s : CMasternodePayments)
    (vote : CMasternodePaymentVote) :
    (s.updatedBlockTip vote.nBlockHeight).asksToVote checks.passing vote
      = (s.mapMasternodePaymentVotes.lookup (checks.getHash vote)).isNone := by
  simp [asksToVote, storesVote, VoteChecks.passing, updatedBlockTip]

theorem processVoteMessage_passing (checks : VoteChecks) (s : CMasternodePayments)
    (vote : CMasternodePaymentVote) :
    ((s.updatedBlockTip vote.nBlockHeight).processVoteMessage checks.passing vote).1
      = ((s.mapMasternodePaymentVotes.lookup (checks.getHash vote)).isNone
        && decide (s.mapMasternodesLastVote.lookup vote.vinMasternode ≠ some vote.nBlockHeight)
        && checks.checkSignature vote) := by
  rw [processVoteMessage_fst, countsVote, asksToVote_passing]
  simp only [VoteChecks.eligible, VoteChecks.passing, updatedBlockTip, Bool.true_and, Bool.and_true]
  congr

/-- A masternode votes for two heights. The second vote is counted unless its hash was seen. -/
theorem getLast?_handled {checks : VoteChecks} {s : CMasternodePayments}
    {other vote : CMasternodePaymentVote} (hmasternode : other.vinMasternode = vote.vinMasternode)
    (hheight : other.nBlockHeight ≠ vote.nBlockHeight) (hne : checks.getHash other ≠ checks.getHash vote)
    (hsigned : checks.checkSignature vote)
    (hunseen : s.mapMasternodePaymentVotes.lookup (checks.getHash other) = none) :
    (handled vote.vinMasternode s [.event (.updatedBlockTip other.nBlockHeight),
        .event (.vote checks.passing other), .event (.updatedBlockTip vote.nBlockHeight),
        .event (.vote checks.passing vote)]).getLast?
      = some (s.mapMasternodePaymentVotes.lookup (checks.getHash vote)).isNone := by
  have hasks := asksToVote_passing checks s other
  rw [hunseen] at hasks
  have hseen := @lookup_votes_processVoteMessage checks.passing
    (s.updatedBlockTip other.nBlockHeight) other (checks.getHash vote)
  have hlast := @lookup_lastVote_processVoteMessage checks.passing
    (s.updatedBlockTip other.nBlockHeight) other vote.vinMasternode
  rw [if_neg fun h => hne h.2.symm] at hseen
  rw [if_pos ⟨hasks, hmasternode.symm⟩] at hlast
  have hresult := processVoteMessage_passing checks
    ((s.updatedBlockTip other.nBlockHeight).processVoteMessage checks.passing other).2 vote
  rw [hseen, hlast, hsigned] at hresult
  have hcounted : checks.passing.checkSignature vote = true := hsigned
  simp only [handled, act, step, hcounted, hresult, and_self, if_true]
  split_ifs <;> simp [hheight, updatedBlockTip]

/-- **A vote changes how later votes of its masternode are handled if and only if it is stored**, whether
    or not its own signature is good. -/
theorem later_votes_handled_alike_iff (s : CMasternodePayments) (checks : VoteChecks)
    (bad : CMasternodePaymentVote)
    (hsigned : ∃ vchSig, checks.checkSignature { bad with vchSig } = true
      ∧ checks.getHash { bad with vchSig } = checks.getHash bad)
    (hother : ∃ other : CMasternodePaymentVote, other.vinMasternode = bad.vinMasternode
      ∧ other.nBlockHeight ≠ bad.nBlockHeight ∧ checks.getHash other ≠ checks.getHash bad
      ∧ s.mapMasternodePaymentVotes.lookup (checks.getHash other) = none) :
    (∀ actions, (∀ action ∈ actions, action.SameScheme checks) →
        handled bad.vinMasternode (s.processVoteMessage checks bad).2 actions
          = handled bad.vinMasternode s actions)
      ↔ s.storesVote checks bad = false := by
  constructor
  · intro halike
    by_contra hstores
    rw [Bool.not_eq_false] at hstores
    obtain ⟨vchSig, hsignature, hhash⟩ := hsigned
    obtain ⟨other, hmasternode, hheight, hne, hunseen⟩ := hother
    have hseen := fun hash => @lookup_votes_processVoteMessage checks s bad hash
    -- the masternode votes for another height, then for that of the bad vote
    have hlists := congrArg getLast? (halike [.event (.updatedBlockTip other.nBlockHeight),
      .event (.vote checks.passing other), .event (.updatedBlockTip bad.nBlockHeight),
      .event (.vote checks.passing { bad with vchSig })]
      (by simp [PaymentAction.SameScheme, VoteChecks.passing]))
    have hlast := @getLast?_handled checks s other { bad with vchSig } hmasternode hheight
      (hhash ▸ hne) hsignature hunseen
    have hlast' := @getLast?_handled checks (s.processVoteMessage checks bad).2 other { bad with vchSig }
      hmasternode hheight (hhash ▸ hne) hsignature (by rw [hseen, if_neg fun h => hne h.2, hunseen])
    rw [hlast, hlast', hhash, hseen, if_pos ⟨hstores, rfl⟩] at hlists
    simp_all [storesVote]
  · intro hignored actions _
    have hsame : (s.processVoteMessage checks bad).2 = s := by
      rcases @processVoteMessage_cases checks s bad with ⟨-, h⟩ | ⟨h, -⟩ | ⟨h, -⟩
      · rw [h]
      · simp [hignored] at h
      · have := stores_of_asks h
        simp [hignored] at this
    rw [hsame]

/-- A node at height 200. -/
def nodeAt200 : CMasternodePayments := CMasternodePayments.init.updatedBlockTip 200

/-- A copy of a vote with a bad signature, or a forged vote for another payee, takes its place. -/
theorem forged_vote_takes_place :
    openVoteChecks.checkSignature (voteOfSeven 210 1 2) = false
      ∧ openVoteChecks.checkSignature (voteOfSeven 210 1 1) = true
      ∧ ((nodeAt200.updatedBlockTip 200).processVoteMessage openVoteChecks
        (voteOfSeven 210 1 1)).1 = true
      ∧ (((nodeAt200.processVoteMessage openVoteChecks (voteOfSeven 210 1 2)).2.updatedBlockTip
        200).processVoteMessage openVoteChecks (voteOfSeven 210 1 1)).1 = false
      ∧ (((nodeAt200.processVoteMessage openVoteChecks (voteOfSeven 210 3 2)).2.updatedBlockTip
        200).processVoteMessage openVoteChecks (voteOfSeven 210 1 1)).1 = false := by
  decide +kernel

/-- A copy with a bad signature of a vote that was received does no harm. -/
theorem later_votes_handled_alike_copy :
    let s := (nodeAt200.processVoteMessage openVoteChecks (voteOfSeven 210 1 1)).2
    s.storesVote openVoteChecks (voteOfSeven 210 1 2) = false
      ∧ ∀ actions, (∀ action ∈ actions, action.SameScheme openVoteChecks) →
        handled ⟨7, 0⟩ (s.processVoteMessage openVoteChecks (voteOfSeven 210 1 2)).2 actions
          = handled ⟨7, 0⟩ s actions :=
  have hignored := by decide +kernel
  ⟨hignored, (later_votes_handled_alike_iff _ openVoteChecks (voteOfSeven 210 1 2)
    ⟨[1], by decide, by decide⟩ ⟨voteOfSeven 211 1 1, by decide +kernel⟩).mpr hignored⟩

/-! ## Tallies over whole runs -/

namespace CMasternodePayments

/-- The tally of a height holds the hashes of different votes, which are stored and for this height. -/
def TalliedOnce (s : CMasternodePayments) : Prop :=
  ∀ nBlockHeight, (s.talliedHashes nBlockHeight).Nodup ∧ ∀ hash ∈ s.talliedHashes nBlockHeight,
    ∃ vote, s.mapMasternodePaymentVotes.lookup hash = some vote ∧ vote.nBlockHeight = nBlockHeight

variable {s : CMasternodePayments} (hs : s.TalliedOnce)
include hs

theorem TalliedOnce.step (event : PaymentEvent) : (s.step event).TalliedOnce := by
  cases event with
  | updatedBlockTip nHeight => exact hs
  | vote checks vote =>
    intro nBlockHeight
    obtain ⟨hnodup, hstored⟩ := hs nBlockHeight
    have hperm := @talliedHashes_processVoteMessage_perm checks s vote nBlockHeight
    have hlookup := @lookup_votes_processVoteMessage checks s vote
    have hnew : s.storesVote checks vote → checks.getHash vote ∉ s.talliedHashes nBlockHeight := by
      intro hstores hmem
      obtain ⟨old, hold, -⟩ := hstored _ hmem
      simp [storesVote, hold] at hstores
    refine ⟨hperm.nodup_iff.mpr ?_, fun hash hmem => ?_⟩
    · grind
    · have hmem := hperm.mem_iff.mp hmem
      grind [CMasternodePayments.step]

theorem TalliedOnce.removeVote {hash : Uint256} {nBlockHeight : ℤ} (hheight : ∀ vote,
      s.mapMasternodePaymentVotes.lookup hash = some vote → vote.nBlockHeight = nBlockHeight) :
    (s.removeVote hash nBlockHeight).TalliedOnce := by
  intro n
  obtain ⟨hnodup, hstored⟩ := hs n
  unfold talliedHashes CMasternodePayments.removeVote at *
  by_cases hn : n = nBlockHeight
  · subst hn
    simp
  · rw [AList.lookup_erase_ne hn]
    refine ⟨hnodup, fun other hmem => ?_⟩
    obtain ⟨vote, hvote, hvoteHeight⟩ := hstored other hmem
    have hne : other ≠ hash := by
      rintro rfl
      exact hn (hvoteHeight ▸ hheight vote hvote)
    exact ⟨vote, (AList.lookup_erase_ne hne).trans hvote, hvoteHeight⟩

theorem TalliedOnce.checkAndRemove (isBlockchainSynced : Bool) (nLimit : ℤ) :
    (s.checkAndRemove isBlockchainSynced nLimit).TalliedOnce := by
  unfold CMasternodePayments.checkAndRemove
  split_ifs
  · -- the votes that are left were there at the start, with the heights of the entries
    refine (foldlRecOn (motive := fun t : CMasternodePayments => t.TalliedOnce ∧ ∀ hash vote,
      t.mapMasternodePaymentVotes.lookup hash = some vote →
        s.mapMasternodePaymentVotes.lookup hash = some vote) _ _ ⟨hs, fun _ _ h => h⟩
      fun t ht entry hentry => ?_).1
    have hlookup := AList.mem_lookup_iff.mpr hentry
    split_ifs
    · refine ⟨ht.1.removeVote fun vote hvote => ?_, fun hash vote hvote =>
        ht.2 hash vote (lookup_of_lookup_erase hvote)⟩
      rw [Option.some.inj ((ht.2 _ _ hvote).symm.trans hlookup)]
    · exact ht
  · exact hs

omit hs

/-- **A vote is counted once, and for its height**: in every run, also with clean-ups. -/
theorem talliedOnce_run (actions : List PaymentAction) : (actions.foldl act init).TalliedOnce := by
  refine foldlRecOn actions _ (by simp [TalliedOnce, talliedHashes, init]) fun s hs action _ => ?_
  cases action with
  | event event => exact hs.step event
  | checkAndRemove isBlockchainSynced nLimit => exact hs.checkAndRemove isBlockchainSynced nLimit
  | clear => simp [TalliedOnce, talliedHashes, act, clear]

/-! ## One vote for a height -/

/-- The votes of a masternode in the tally of a height. -/
def countedVotes (s : CMasternodePayments) (masternode : COutPoint) (nBlockHeight : ℤ) :
    List Uint256 :=
  (s.talliedHashes nBlockHeight).filter fun hash =>
    (s.mapMasternodePaymentVotes.lookup hash).any (·.vinMasternode = masternode)

/-- The votes of a masternode among the events, each with its hash and its height. -/
def votesOf (events : List PaymentEvent) (masternode : COutPoint) : List (Uint256 × ℤ) :=
  events.filterMap fun
    | .vote checks vote =>
      if vote.vinMasternode = masternode then some (checks.getHash vote, vote.nBlockHeight) else none
    | .updatedBlockTip _ => none

/-- Between two different votes for a height there is a vote for another one. -/
def ComesBack (votes : List (Uint256 × ℤ)) : Prop :=
  ∃ hash other hash' nBlockHeight, hash ≠ hash' ∧ other.2 ≠ nBlockHeight
    ∧ [(hash, nBlockHeight), other, (hash', nBlockHeight)] <+ votes

/-- After these votes each masternode has at most one counted vote for a height, and if its last vote
    is not for this height, a vote for another one came since. -/
structure CountsOnce (s : CMasternodePayments) (votes : COutPoint → List (Uint256 × ℤ)) : Prop where
  tallied : s.TalliedOnce
  once : ∀ masternode nBlockHeight, (s.countedVotes masternode nBlockHeight).length ≤ 1
  came : ∀ masternode nBlockHeight, ∀ hash ∈ s.countedVotes masternode nBlockHeight,
    (hash, nBlockHeight) ∈ votes masternode
  since : ∀ masternode nBlockHeight, ∀ hash ∈ s.countedVotes masternode nBlockHeight,
    s.mapMasternodesLastVote.lookup masternode ≠ some nBlockHeight → ∃ other,
      other.2 ≠ nBlockHeight ∧ [(hash, nBlockHeight), other] <+ votes masternode

section

variable {s : CMasternodePayments} (checks : VoteChecks) (vote : CMasternodePaymentVote)

/-- A counted vote is one of the counted votes of its masternode, and nothing else changes them. -/
theorem countedVotes_processVoteMessage_perm (hs : s.TalliedOnce) (masternode : COutPoint)
    (nBlockHeight : ℤ) :
    ((s.processVoteMessage checks vote).2.countedVotes masternode nBlockHeight).Perm
      (if s.countsVote checks vote ∧ masternode = vote.vinMasternode
          ∧ nBlockHeight = vote.nBlockHeight then
        checks.getHash vote :: s.countedVotes masternode nBlockHeight
      else s.countedVotes masternode nBlockHeight) := by
  have hlookup := @lookup_votes_processVoteMessage checks s vote
  have hold : (s.talliedHashes nBlockHeight).filter (fun hash =>
      ((s.processVoteMessage checks vote).2.mapMasternodePaymentVotes.lookup hash).any
        (·.vinMasternode = masternode)) = s.countedVotes masternode nBlockHeight := by
    refine filter_congr fun hash hmem => ?_
    obtain ⟨old, hstored, -⟩ := (hs nBlockHeight).2 hash hmem
    have hignored : s.storesVote checks vote → hash ≠ checks.getHash vote := by
      rintro hstores rfl
      simp [storesVote, hstored] at hstores
    grind
  refine ((talliedHashes_processVoteMessage_perm nBlockHeight).filter _).trans ?_
  by_cases hcounts : s.countsVote checks vote ∧ nBlockHeight = vote.nBlockHeight
  · rw [if_pos hcounts, filter_cons, hold, hlookup]
    simp [hcounts, stores_of_asks (asks_of_counts hcounts.1), eq_comm]
  · rw [if_neg hcounts, hold, if_neg fun h => hcounts ⟨h.1, h.2.2⟩]

theorem votesOf_snoc (masternode : COutPoint) (before : List PaymentEvent) :
    votesOf (before ++ [.vote checks vote]) masternode = votesOf before masternode
      ++ if vote.vinMasternode = masternode then [(checks.getHash vote, vote.nBlockHeight)]
        else [] := by
  rw [votesOf, filterMap_append]
  split_ifs with h <;> simp [votesOf, h]

theorem CountsOnce.processVoteMessage {before : List PaymentEvent} (hs : s.CountsOnce (votesOf before))
    (hback : ¬ ComesBack (votesOf (before ++ [.vote checks vote]) vote.vinMasternode)) :
    (s.processVoteMessage checks vote).2.CountsOnce (votesOf (before ++ [.vote checks vote])) := by
  have hperm := countedVotes_processVoteMessage_perm checks vote hs.tallied
  refine ⟨hs.tallied.step (.vote checks vote), fun masternode nBlockHeight => ?_,
    fun masternode nBlockHeight hash hmem => ?_, fun masternode nBlockHeight hash hmem hlast => ?_⟩
  · rw [(hperm masternode nBlockHeight).length_eq]
    split_ifs with hnew
    · obtain ⟨hcounts, rfl, rfl⟩ := hnew
      obtain ⟨hasks, hlast, -⟩ := countsVote_iff.mp hcounts
      -- after a vote that was counted the masternode has left the height, and now it is back
      have hnone : s.countedVotes vote.vinMasternode vote.nBlockHeight = [] := by
        refine eq_nil_iff_forall_not_mem.mpr fun hash hmem => hback ?_
        obtain ⟨other, hother, hsub⟩ := hs.since _ _ hash hmem hlast
        obtain ⟨old, hstored, -⟩ := (hs.tallied _).2 hash (mem_of_mem_filter hmem)
        refine ⟨hash, other, checks.getHash vote, vote.nBlockHeight, ?_, hother, ?_⟩
        · rintro rfl
          simpa [storesVote, hstored] using stores_of_asks hasks
        · rw [votesOf_snoc, if_pos rfl]
          exact hsub.append (Sublist.refl _)
      simp [hnone]
    · exact hs.once masternode nBlockHeight
  · have hmem := (hperm masternode nBlockHeight).mem_iff.mp hmem
    have hcame := hs.came masternode nBlockHeight hash
    grind [votesOf_snoc]
  · have hmem := (hperm masternode nBlockHeight).mem_iff.mp hmem
    rw [lookup_lastVote_processVoteMessage] at hlast
    rw [votesOf_snoc]
    split_ifs at hmem hlast with hnew hasks hasks
    · exact absurd (congrArg some hnew.2.2.symm) hlast
    · exact absurd ⟨asks_of_counts hnew.1, hnew.2.1⟩ hasks
    · obtain ⟨-, rfl⟩ := hasks
      refine ⟨(checks.getHash vote, vote.nBlockHeight), fun h => hlast (congrArg some h), ?_⟩
      rw [if_pos rfl]
      exact (singleton_sublist.mpr (hs.came _ _ hash hmem)).append (Sublist.refl _)
    · obtain ⟨other, hother, hsub⟩ := hs.since masternode nBlockHeight hash hmem hlast
      exact ⟨other, hother, hsub.trans (sublist_append_left _ _)⟩

end

/-- **One counted vote for each height, as long as no masternode comes back to a height.** In every run
    in which no masternode does so, each tally has at most one vote of a masternode, at any time. -/
theorem countedVotes_le_one (events : List PaymentEvent)
    (hback : ∀ masternode, ¬ ComesBack (votesOf events masternode)) :
    ∀ before, before <+: events → ∀ masternode nBlockHeight,
      ((before.foldl step init).countedVotes masternode nBlockHeight).length ≤ 1 := by
  suffices hrun : ∀ before, before <+: events → (before.foldl step init).CountsOnce (votesOf before) from
    fun before hbefore => (hrun before hbefore).once
  intro before
  induction before using reverseRecOn with
  | nil =>
    intro _
    constructor <;> simp [TalliedOnce, countedVotes, talliedHashes, init]
  | append_singleton before event ih =>
    intro hbefore
    have hs := ih ((prefix_append _ _).trans hbefore)
    rw [foldl_append]
    cases event with
    | updatedBlockTip nHeight =>
      have hsame : votesOf (before ++ [.updatedBlockTip nHeight]) = votesOf before := by
        simp [votesOf, funext_iff]
      rw [hsame]
      exact ⟨hs.tallied, hs.once, hs.came, hs.since⟩
    | vote checks vote =>
      refine hs.processVoteMessage checks vote
        fun ⟨hash, other, hash', nBlockHeight, hne, hother, hsub⟩ => ?_
      exact hback _ ⟨hash, other, hash', nBlockHeight, hne, hother,
        hsub.trans (hbefore.sublist.filterMap _)⟩

/-- A masternode votes for heights 210 and 211 and, with another payee, again for one of them. -/
def votesOfSeven (nBlockHeight : ℤ) : List PaymentEvent :=
  [.updatedBlockTip 200, .vote openVoteChecks (voteOfSeven 210 1 1),
    .vote openVoteChecks (voteOfSeven 211 1 1), .vote openVoteChecks (voteOfSeven nBlockHeight 2 1)]

/-- It comes back to height 210. -/
theorem two_votes_counted :
    (((votesOfSeven 210).foldl step init).countedVotes ⟨7, 0⟩ 210).length = 2 := by
  decide +kernel

/-- It stays at height 211. -/
theorem countedVotes_le_one_staying :
    (((votesOfSeven 211).foldl step init).countedVotes ⟨7, 0⟩ 211).length ≤ 1 := by
  refine countedVotes_le_one (votesOfSeven 211) (fun masternode => ?_) _ (prefix_refl _) _ _
  rintro ⟨hash, other, hash', nBlockHeight, -, hother, hsub⟩
  by_cases hseven : (⟨7#256, 0#32⟩ : COutPoint) = masternode
  · have hheights := hsub.map Prod.snd
    subst hseven
    have heq := hheights.eq_of_length rfl
    simp [votesOf, votesOfSeven, voteOfSeven] at heq
    omega
  · simp [votesOf, votesOfSeven, voteOfSeven, hseven] at hsub

end CMasternodePayments

end Binarium
