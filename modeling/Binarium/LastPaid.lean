import Binarium.MasternodePayments

set_option autoImplicit false

/-! # The height of the last payment (`CMasternode::UpdateLastPaid`)

The payment queue is ordered by `nBlockLastPaid`. After a change of the tip `UpdateLastPaid` walks
back from the tip, down to the remembered height or to the depth of the scan, and remembers the first
block with two votes for the masternode that pays it.

So the remembered height never goes down. It is the latest payment of the active chain as long as
that does not go down either (`lastPaid_follows_iff`). A reorganisation that leaves the payment on the
abandoned branch takes it down, and the height stays (`abandoned_payment_kept`). -/

namespace Binarium

open List

/-- `CMasternodeBlockPayees::HasPayeeWithVotes`. -/
def CMasternodeBlockPayees.hasPayeeWithVotes (block : CMasternodeBlockPayees) (payeeIn : CScript)
    (nVotesReq : ℤ) : Bool :=
  block.vecPayees.any fun payee =>
    decide (payee.getVoteCount ≥ nVotesReq ∧ payee.scriptPubKey = payeeIn)

/-- A block of the chain: its time, whether `ReadBlockFromDisk` finds it, and the outputs of its
    coinbase with their sum. -/
structure PaidBlock where
  nTime : ℤ
  fOnDisk : Bool
  vout : List CTxOut
  nValueOut : CAmount
  getValueOut : sumOutputs 0 vout = some nValueOut

/-- What `UpdateLastPaid` reads: the payee of the masternode, the blocks from the tip down to the
    genesis block, so that the height of a block is the number of those below it, the tallies of the
    votes, and `nMaxBlocksToScanBack`. -/
structure PaymentScan where
  params : ConsensusParams
  mnpayee : CScript
  pindex : List PaidBlock
  mapMasternodeBlocks : AList (fun _ : ℤ => CMasternodeBlockPayees)
  nMaxBlocksToScanBack : ℕ

/-- What a `CMasternode` remembers of its last payment. -/
structure LastPaid where
  nBlockLastPaid : ℤ
  nTimeLastPaid : ℤ

namespace PaymentScan

variable (scan : PaymentScan)

/-- The masternode has the votes for the block on top of these. -/
def hasVotes (pprev : List PaidBlock) : Bool :=
  (scan.mapMasternodeBlocks.lookup (pprev.length : ℤ)).any (·.hasPayeeWithVotes scan.mnpayee 2)

/-- The block on top of these pays the masternode. -/
def pays (block : PaidBlock) (pprev : List PaidBlock) : Bool :=
  block.vout.any fun txout => decide (scan.mnpayee = txout.scriptPubKey
    ∧ getMasternodePayment scan.params pprev.length block.nValueOut = txout.nValue)

/-- The loop of `CMasternode::UpdateLastPaid` from a block on, with the rounds that are left. -/
def loop (paid : LastPaid) : ℕ → List PaidBlock → LastPaid
  | 0, _ => paid
  | _ + 1, [] => paid
  | rounds + 1, block :: pprev =>
    if (pprev.length : ℤ) ≤ paid.nBlockLastPaid then paid
    else if scan.hasVotes pprev then
      -- a block that can not be read is read again in the next round
      if !block.fOnDisk then loop paid rounds (block :: pprev)
      else if scan.pays block pprev then ⟨pprev.length, block.nTime⟩
      else loop paid rounds pprev
    else loop paid rounds pprev

/-- `CMasternode::UpdateLastPaid`. -/
def updateLastPaid (paid : LastPaid) : LastPaid :=
  scan.loop paid scan.nMaxBlocksToScanBack scan.pindex

/-- The height of the latest block with two votes that pays the masternode. -/
def lastPayment : List PaidBlock → Option ℤ
  | [] => none
  | block :: pprev =>
    if scan.hasVotes pprev && scan.pays block pprev then some pprev.length else lastPayment pprev

/-- The walk comes to the latest payment in this many rounds. -/
def reaches : ℕ → List PaidBlock → Bool
  | 0, _ => false
  | _ + 1, [] => false
  | rounds + 1, block :: pprev =>
    if scan.hasVotes pprev then block.fOnDisk && (scan.pays block pprev || reaches rounds pprev)
    else reaches rounds pprev

variable {scan}

theorem lastPayment_lt {blocks : List PaidBlock} {nHeight : ℤ}
    (h : scan.lastPayment blocks = some nHeight) : nHeight < blocks.length := by
  induction blocks with
  | nil => simp [lastPayment] at h
  | cons block pprev ih => grind [lastPayment]

theorem loop_unread {paid : LastPaid} {block : PaidBlock} {pprev : List PaidBlock}
    (hvotes : scan.hasVotes pprev) (hdisk : block.fOnDisk = false) (rounds : ℕ) :
    scan.loop paid rounds (block :: pprev) = paid := by
  induction rounds with
  | zero => rfl
  | succ rounds ih => simp [loop, hvotes, hdisk, ih]

/-- A walk moves the height to the latest payment if it comes to it and that is higher. -/
theorem nBlockLastPaid_loop (paid : LastPaid) (rounds : ℕ) (blocks : List PaidBlock) :
    (scan.loop paid rounds blocks).nBlockLastPaid
      = if scan.reaches rounds blocks then
          max paid.nBlockLastPaid ((scan.lastPayment blocks).getD paid.nBlockLastPaid)
        else paid.nBlockLastPaid := by
  induction rounds generalizing blocks with
  | zero => rfl
  | succ rounds ih =>
    cases blocks with
    | nil => rfl
    | cons block pprev =>
      have hlower := @lastPayment_lt scan pprev
      have hunread := @loop_unread scan paid block pprev
      cases hlast : scan.lastPayment pprev <;> grind [loop, reaches, lastPayment]

end PaymentScan

open PaymentScan

/-- The masternode after the scans of these tips. -/
def LastPaid.run (paid : LastPaid) (scans : List PaymentScan) : LastPaid :=
  scans.foldl (fun paid scan => scan.updateLastPaid paid) paid

/-- The height that `nBlockLastPaid` should have after these tips: the latest payment of the active
    chain, or the initial value. -/
def followedHeight (init : ℤ) (scans : List PaymentScan) : ℤ :=
  max init ((scans.getLast?.bind fun scan => scan.lastPayment scan.pindex).getD init)

/-- **When the last paid height follows the active chain.** It does after every tip exactly if the
    latest payment never goes down from one tip to the next and the scan comes to every later one. -/
theorem lastPaid_follows_iff (paid : LastPaid) (scans : List PaymentScan) :
    (∀ seen, seen <+: scans →
      (paid.run seen).nBlockLastPaid = followedHeight paid.nBlockLastPaid seen)
    ↔ ∀ seen scan, seen ++ [scan] <+: scans →
      followedHeight paid.nBlockLastPaid seen ≤ followedHeight paid.nBlockLastPaid (seen ++ [scan])
        ∧ (followedHeight paid.nBlockLastPaid seen
            < followedHeight paid.nBlockLastPaid (seen ++ [scan]) →
          scan.reaches scan.nMaxBlocksToScanBack scan.pindex = true) := by
  have hinit : ∀ seen, paid.nBlockLastPaid ≤ followedHeight paid.nBlockLastPaid seen :=
    fun _ => le_max_left _ _
  have hlast : ∀ seen scan, followedHeight paid.nBlockLastPaid (seen ++ [scan])
      = max paid.nBlockLastPaid ((scan.lastPayment scan.pindex).getD paid.nBlockLastPaid) := by
    simp [followedHeight]
  have hrun : ∀ seen scan, (paid.run (seen ++ [scan])).nBlockLastPaid
      = if scan.reaches scan.nMaxBlocksToScanBack scan.pindex then
          max (paid.run seen).nBlockLastPaid
            ((scan.lastPayment scan.pindex).getD (paid.run seen).nBlockLastPaid)
        else (paid.run seen).nBlockLastPaid := by
    simp [LastPaid.run, updateLastPaid, nBlockLastPaid_loop]
  constructor
  · intro hfollows seen scan hprefix
    have hafter := hfollows _ hprefix
    rw [hrun, hfollows seen ((prefix_append seen [scan]).trans hprefix)] at hafter
    cases hpaid : scan.lastPayment scan.pindex <;> simp only [hpaid] at hafter <;> grind
  · intro hgrows seen
    induction seen using List.reverseRecOn with
    | nil => simp [LastPaid.run, followedHeight]
    | append_singleton seen scan ih =>
      intro hprefix
      have hstep := hgrows seen scan hprefix
      rw [hrun, ih ((prefix_append seen [scan]).trans hprefix)]
      rw [hlast] at hstep ⊢
      cases hpaid : scan.lastPayment scan.pindex <;> simp only [hpaid] at hstep ⊢ <;> grind

/-- The scan of a chain whose tip, at height 1, pays this script. There are two votes for the
    script `[1]` of the masternode. -/
def scanPaying (payee : CScript) : PaymentScan :=
  ⟨consensusParams .main, [1], [⟨0, true, [⟨4, []⟩, ⟨1, payee⟩], 5, rfl⟩, ⟨0, true, [], 0, rfl⟩],
    AList.insert 1 ⟨1, [⟨[1], [0, 1]⟩]⟩ ∅, 100⟩

/-- **A payment on an abandoned branch is kept.** The node that saw the branch with the payment
    remembers its height on the chain without one, the node that saw only that chain does not. -/
theorem abandoned_payment_kept :
    (scanPaying [2]).lastPayment (scanPaying [2]).pindex = none
      ∧ (LastPaid.run ⟨0, 0⟩ [scanPaying [1], scanPaying [2]]).nBlockLastPaid = 1
      ∧ (LastPaid.run ⟨0, 0⟩ [scanPaying [2]]).nBlockLastPaid = 0 := by
  decide

end Binarium
