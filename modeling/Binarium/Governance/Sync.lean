import Binarium.Governance.Convergence
import Binarium.Governance.Manager

set_option autoImplicit false

/-! # Asking a peer for the votes of an object (`governance.cpp`, `bloom.cpp`)

A node asks for an object with a Bloom filter of the votes it has. A node that has none to name sends
a filter that was made by default and cleared. Its data are empty, and `isFull` and `isEmpty` are not
sent. The peer finds that all of these no bytes are `0xff`: the filter matches every vote, and no
vote is announced. -/

namespace Binarium

open List

/-! ## Bloom filters -/

/-- `CBloomFilter`, with what its default constructor sets. -/
structure CBloomFilter where
  vData : List UInt8 := []
  isFull : Bool := true
  isEmpty : Bool := false
  nHashFuncs : ℕ := 0
  nTweak : UInt32 := 0
  nFlags : UInt8 := 0

namespace CBloomFilter

variable {Key : Type} (murmurHash3 : UInt32 → Key → UInt32) (filter : CBloomFilter) (key : Key)

/-- `CBloomFilter::Hash`. -/
def hash (nHashNum : ℕ) : ℕ :=
  (murmurHash3 (UInt32.ofNat nHashNum * 0xFBA4C795 + filter.nTweak) key).toNat
    % (filter.vData.length * 8)

/-- The bit of an index in its byte. -/
def bit (nIndex : ℕ) : UInt8 := 1 <<< UInt8.ofNat (nIndex % 8)

/-- `CBloomFilter::insert` of bytes, or of a hash. -/
def insert : CBloomFilter :=
  if filter.isFull then filter
  else { filter with
    vData := (range filter.nHashFuncs).foldl (fun vData i =>
      let nIndex := filter.hash murmurHash3 key i
      vData.modify (nIndex / 8) (· ||| bit nIndex)) filter.vData
    isEmpty := false }

/-- Is the bit of the `i`-th hash function set? -/
def hasBit (i : ℕ) : Bool :=
  let nIndex := filter.hash murmurHash3 key i
  filter.vData.getD (nIndex / 8) 0 &&& bit nIndex != 0

/-- `CBloomFilter::contains`. -/
def contains : Bool :=
  filter.isFull
    || (!filter.isEmpty && (range filter.nHashFuncs).all (filter.hasBit murmurHash3 key))

/-- `CBloomFilter::clear`. -/
def clear : CBloomFilter :=
  { filter with vData := replicate filter.vData.length 0, isFull := false, isEmpty := true }

/-- `CBloomFilter::UpdateEmptyFull`. -/
def updateEmptyFull : CBloomFilter :=
  { filter with isFull := filter.vData.all (· == 0xff), isEmpty := filter.vData.all (· == 0) }

/-- A default filter after `SerializationOp` has read into it what another filter wrote. -/
def received : CBloomFilter :=
  { vData := filter.vData
    nHashFuncs := filter.nHashFuncs
    nTweak := filter.nTweak
    nFlags := filter.nFlags }

end CBloomFilter

/-- The size that the floating-point formula of the constructor gives for
    `nGovernanceFilterElements` and `GOVERNANCE_FILTER_FP_RATE`. -/
def Network.governanceFilterSize : Network → ℕ
  | .main => 35943
  | .test => 898
  | .regtest => 179

/-- The constructor, for these elements and this rate. -/
def Network.governanceFilter (net : Network) (nTweak : UInt32) : CBloomFilter where
  vData := replicate net.governanceFilterSize 0
  isFull := false
  isEmpty := true
  nHashFuncs := 9
  nTweak := nTweak
  nFlags := 1

/-! ## The request and the answer -/

/-- `GOVERNANCE_FILTER_PROTO_VERSION`. -/
def GOVERNANCE_FILTER_PROTO_VERSION : ℤ := 70206

/-- What `PushInventory` is called with. -/
inductive GovernanceInv where
  | object (nHash : Uint256) | vote (nHash : Uint256)
deriving DecidableEq

/-- What a request and its answer depend on. -/
structure SyncContext extends GovernanceContext where
  murmurHash3 : UInt32 → Uint256 → UInt32
  /-- The tweak that the filter of the request is made with. -/
  nTweak : UInt32
  /-- The version that the node has noted for its peer. -/
  nVersion : ℤ
  fLiteMode : Bool
  isBlockchainSynced : Bool
  /-- `masternodeSync.IsSynced()` -/
  isSynced : Bool
  /-- Has the peer asked for all objects? -/
  hasFulfilledRequest : Bool

namespace CGovernanceManager

variable (crypto : GovernanceCrypto) (ctx : SyncContext) (s : CGovernanceManager) (nHash : Uint256)

/-- The object whose votes `RequestGovernanceObject` puts into the filter. -/
def filterObject (fUseFilter : Bool) : Option CGovernanceObject :=
  if fUseFilter then s.mapObjects.lookup nHash else none

/-- The filter of `RequestGovernanceObject`. -/
def requestFilter (fUseFilter : Bool) : CBloomFilter :=
  match s.filterObject nHash fUseFilter with
  | none => CBloomFilter.clear {}
  | some pObj => pObj.fileVotes.listVotes.foldl
      (fun filter vote => filter.insert ctx.murmurHash3 (vote.getHash crypto))
      (ctx.net.governanceFilter ctx.nTweak)

/-- `CGovernanceManager::RequestGovernanceObject`: the message `MNGOVERNANCESYNC`. -/
def requestGovernanceObject (fUseFilter : Bool) : Uint256 × Option CBloomFilter :=
  if ctx.nVersion < GOVERNANCE_FILTER_PROTO_VERSION then (nHash, none)
  else (nHash, some (s.requestFilter crypto ctx nHash fUseFilter))

/-- `CGovernanceManager::Sync`: what it announces. -/
def sync (nProp : Uint256) (filter : CBloomFilter) : List GovernanceInv :=
  if !ctx.isSynced then []
  else if nProp = 0 then
    (s.mapObjects.entries.filter fun entry => !(entry.2.fCachedDelete || entry.2.fExpired)).map
      fun entry => .object entry.1
  else match s.mapObjects.lookup nProp with
    | none => []
    | some govobj =>
      if govobj.fCachedDelete || govobj.fExpired then []
      else .object nProp :: (govobj.fileVotes.listVotes.filter fun vote =>
          !filter.contains ctx.murmurHash3 (vote.getHash crypto)
            && vote.isValid crypto ctx.toGovernanceContext true).map
        fun vote => .vote (vote.getHash crypto)

/-- `ProcessMessage` of `MNGOVERNANCESYNC`. A message without the filter cannot be read. -/
def processSyncMessage (message : Uint256 × Option CBloomFilter) : List GovernanceInv :=
  let answer (filter : CBloomFilter) : List GovernanceInv :=
    if message.1 = 0 && ctx.hasFulfilledRequest then [] else s.sync crypto ctx message.1 filter
  if ctx.fLiteMode || !ctx.isBlockchainSynced
      || decide (ctx.nVersion < MIN_GOVERNANCE_PEER_PROTO_VERSION) then []
  else if !ctx.isSynced then []
  else if ctx.nVersion < GOVERNANCE_FILTER_PROTO_VERSION then answer (CBloomFilter.clear {})
  else match message.2 with
    | none => []
    | some filter => answer filter.received.updateEmptyFull

end CGovernanceManager

/-! ## A filter on the wire -/

namespace CBloomFilter

variable {Key : Type} (murmurHash3 : UInt32 → Key → UInt32) {filter : CBloomFilter} (key : Key)

/-- Holds of a filter that was made for some elements. -/
structure Sized (filter : CBloomFilter) : Prop where
  notFull : filter.isFull = false
  zero : filter.isEmpty = true → ∀ byte ∈ filter.vData, byte = 0
  size : 0 < filter.vData.length
  hashed : filter.nHashFuncs ≠ 0

theorem Sized.governanceFilter (net : Network) (nTweak : UInt32) :
    (net.governanceFilter nTweak).Sized where
  notFull := rfl
  zero := fun _ _ hbyte => eq_of_mem_replicate hbyte
  size := by cases net <;> simp only [Network.governanceFilter, length_replicate] <;> decide
  hashed := by simp [Network.governanceFilter]

section

variable (hfilter : filter.Sized)

include hfilter

theorem Sized.insert : (filter.insert murmurHash3 key).Sized := by
  rw [CBloomFilter.insert, if_neg (by simp [hfilter.notFull])]
  refine ⟨hfilter.notFull, by simp, ?_, hfilter.hashed⟩
  refine foldlRecOn (motive := fun vData : List UInt8 => 0 < vData.length) _ _ hfilter.size ?_
  intro vData hsize i _
  simpa using hsize

theorem Sized.mem_vData (i : ℕ) :
    filter.vData.getD (filter.hash murmurHash3 key i / 8) 0 ∈ filter.vData := by
  have hindex : filter.hash murmurHash3 key i / 8 < filter.vData.length :=
    Nat.div_lt_of_lt_mul (Nat.mul_comm .. ▸ Nat.mod_lt _ (Nat.mul_pos hfilter.size (by decide)))
  rw [getD_eq_getElem _ _ hindex]
  simp

theorem Sized.hasBit_of_full (hfull : ∀ byte ∈ filter.vData, byte = 0xff)
    (i : ℕ) : filter.hasBit murmurHash3 key i := by
  have hbits : ∀ k < 8, (0xff : UInt8) &&& 1 <<< UInt8.ofNat k ≠ 0 := by decide
  rw [hasBit, hfull _ (hfilter.mem_vData murmurHash3 key i), bne_iff_ne]
  exact hbits _ (Nat.mod_lt _ (by decide))

theorem Sized.hasBit_of_zero (hzero : ∀ byte ∈ filter.vData, byte = 0)
    (i : ℕ) : filter.hasBit murmurHash3 key i = false := by
  simp only [hasBit, hzero _ (hfilter.mem_vData murmurHash3 key i)]
  simp

theorem Sized.contains_received :
    filter.received.updateEmptyFull.contains murmurHash3 key = filter.contains murmurHash3 key := by
  have hbit : filter.received.updateEmptyFull.hasBit murmurHash3 key
      = filter.hasBit murmurHash3 key := rfl
  have hfirst : 0 ∈ range filter.nHashFuncs := mem_range.mpr (Nat.pos_of_ne_zero hfilter.hashed)
  have hfull := hfilter.hasBit_of_full murmurHash3 key
  have hzero := hfilter.hasBit_of_zero murmurHash3 key
  have hempty := hfilter.zero
  rw [contains, contains, hbit, hfilter.notFull]
  simp only [updateEmptyFull, received]
  -- the flags of a filter that has data say what its bits say
  grind

end

/-- A filter that was cleared without data matches everything. -/
theorem contains_received_clear :
    (clear {}).received.updateEmptyFull.contains murmurHash3 key := rfl

end CBloomFilter

/-! ## What is announced -/

namespace CGovernanceManager

variable {crypto : GovernanceCrypto} {requesterCtx ctx : SyncContext}
  {requester responder : CGovernanceManager} {nHash : Uint256} {fUseFilter : Bool}
  {govobj : CGovernanceObject}

theorem contains_received_requestFilter (murmurHash3 : UInt32 → Uint256 → UInt32) (key : Uint256) :
    (requester.requestFilter crypto requesterCtx nHash fUseFilter).received.updateEmptyFull.contains
        murmurHash3 key
      = (!(requester.filterObject nHash fUseFilter).isSome
        || (requester.requestFilter crypto requesterCtx nHash fUseFilter).contains
          murmurHash3 key) := by
  unfold requestFilter
  split
  next h => simp [h, CBloomFilter.contains_received_clear]
  next pObj h =>
    rw [h, Option.isSome_some, Bool.not_true, Bool.false_or]
    refine CBloomFilter.Sized.contains_received murmurHash3 key ?_
    exact foldlRecOn (motive := CBloomFilter.Sized) _ _ (.governanceFilter _ _)
      fun _ hfilter vote _ => hfilter.insert ..

variable (crypto requesterCtx ctx requester responder nHash fUseFilter govobj)

/-- What the responder announces to a requester that asks for an object. -/
def announced : List GovernanceInv :=
  responder.processSyncMessage crypto ctx
    (requester.requestGovernanceObject crypto requesterCtx nHash fUseFilter)

/-- The vote is valid, and not in the filter that the requester made of its own votes. -/
structure Wanted (vote : CGovernanceVote) : Prop where
  stored : vote ∈ govobj.fileVotes.listVotes
  valid : vote.isValid crypto ctx.toGovernanceContext true = true
  noMatch : (requester.filterObject nHash fUseFilter).isSome →
    (requester.requestFilter crypto requesterCtx nHash fUseFilter).contains ctx.murmurHash3
      (vote.getHash crypto) = false

variable {crypto requesterCtx ctx requester responder nHash fUseFilter govobj}

theorem announced_eq (hversion : GOVERNANCE_FILTER_PROTO_VERSION ≤ requesterCtx.nVersion
      ∧ GOVERNANCE_FILTER_PROTO_VERSION ≤ ctx.nVersion) :
    announced crypto requesterCtx ctx requester responder nHash fUseFilter
      = if ctx.fLiteMode || !ctx.isBlockchainSynced || nHash = 0 && ctx.hasFulfilledRequest then []
        else responder.sync crypto ctx nHash
          (requester.requestFilter crypto requesterCtx nHash fUseFilter).received.updateEmptyFull := by
  grind [announced, processSyncMessage, requestGovernanceObject, sync,
    MIN_GOVERNANCE_PEER_PROTO_VERSION, GOVERNANCE_FILTER_PROTO_VERSION]

section

variable (filter : CBloomFilter) (hheld : responder.mapObjects.lookup nHash = some govobj)
  (hlive : govobj.fCachedDelete = false ∧ govobj.fExpired = false)

include hheld hlive

theorem sync_of_ne_zero (hsynced : ctx.isSynced) (hzero : nHash ≠ 0) :
    responder.sync crypto ctx nHash filter
      = .object nHash :: (govobj.fileVotes.listVotes.filter fun vote =>
          !filter.contains ctx.murmurHash3 (vote.getHash crypto)
            && vote.isValid crypto ctx.toGovernanceContext true).map
        fun vote => .vote (vote.getHash crypto) := by
  rw [sync, if_neg (by simp [hsynced]), if_neg hzero, hheld]
  exact if_neg (by simp [hlive])

theorem object_mem_sync_iff :
    .object nHash ∈ responder.sync crypto ctx nHash filter ↔ ctx.isSynced := by
  cases hsynced : ctx.isSynced with
  | false => simp [sync, hsynced]
  | true =>
    by_cases hzero : nHash = 0
    · rw [sync, if_neg (by simp [hsynced]), if_pos hzero]
      simp only [iff_true]
      have hentry := AList.mem_lookup_iff.mp hheld
      exact mem_map.mpr ⟨_, mem_filter.mpr ⟨hentry, by simp [hlive]⟩, rfl⟩
    · simp [sync_of_ne_zero filter hheld hlive hsynced hzero]

theorem vote_mem_sync_iff (nHashVote : Uint256) :
    .vote nHashVote ∈ responder.sync crypto ctx nHash filter
      ↔ ctx.isSynced ∧ nHash ≠ 0 ∧ filter.contains ctx.murmurHash3 nHashVote = false
        ∧ ∃ vote ∈ govobj.fileVotes.listVotes, vote.isValid crypto ctx.toGovernanceContext true
          ∧ vote.getHash crypto = nHashVote := by
  cases hsynced : ctx.isSynced with
  | false => simp [sync, hsynced]
  | true =>
    by_cases hzero : nHash = 0
    · simp [sync, hzero]
    · rw [sync_of_ne_zero filter hheld hlive hsynced hzero]
      grind

end

/-- **An answer is complete exactly if the responder is synced and not in lite mode, a request for the
    hash 0, which is one for all objects, is the first, and no vote is wanted unless the requester sent
    the filter of an object.** -/
theorem governance_sync_complete_iff
    (hversion : GOVERNANCE_FILTER_PROTO_VERSION ≤ requesterCtx.nVersion
      ∧ GOVERNANCE_FILTER_PROTO_VERSION ≤ ctx.nVersion)
    (hheld : responder.mapObjects.lookup nHash = some govobj)
    (hlive : govobj.fCachedDelete = false ∧ govobj.fExpired = false) :
    (.object nHash ∈ announced crypto requesterCtx ctx requester responder nHash fUseFilter
        ∧ ∀ vote, Wanted crypto requesterCtx ctx requester nHash fUseFilter govobj vote →
          .vote (vote.getHash crypto)
            ∈ announced crypto requesterCtx ctx requester responder nHash fUseFilter)
      ↔ ctx.fLiteMode = false ∧ ctx.isBlockchainSynced ∧ ctx.isSynced
        ∧ (nHash = 0 → ctx.hasFulfilledRequest = false)
        ∧ ∀ vote, Wanted crypto requesterCtx ctx requester nHash fUseFilter govobj vote →
          nHash ≠ 0 ∧ (requester.filterObject nHash fUseFilter).isSome := by
  rw [announced_eq hversion]
  by_cases hrefused : ctx.fLiteMode ∨ ¬ ctx.isBlockchainSynced ∨ nHash = 0 ∧ ctx.hasFulfilledRequest
  · rw [if_pos (by simpa [or_assoc] using hrefused)]
    grind
  · have hwanted : ∀ vote, Wanted crypto requesterCtx ctx requester nHash fUseFilter govobj vote →
        (.vote (vote.getHash crypto) ∈ responder.sync crypto ctx nHash
            (requester.requestFilter crypto requesterCtx nHash fUseFilter).received.updateEmptyFull
          ↔ ctx.isSynced ∧ nHash ≠ 0 ∧ (requester.filterObject nHash fUseFilter).isSome) := by
      rintro vote ⟨hstored, hvalid, hmatch⟩
      rw [vote_mem_sync_iff _ hheld hlive, contains_received_requestFilter]
      grind
    rw [if_neg (by simpa [or_assoc] using hrefused), object_mem_sync_iff _ hheld hlive]
    grind

/-- A node that has an object with some votes. -/
def holder (listVotes : List CGovernanceVote) : CGovernanceManager where
  mapObjects := (∅ : AList fun _ : Uint256 => CGovernanceObject).insert 7
    { plainTrigger with fileVotes := ⟨listVotes⟩ }

/-- A node that is synced. -/
def syncedContext : SyncContext :=
  { allKnownContext with
    murmurHash3 := fun _ key => UInt32.ofNat key.toNat, nTweak := 0, nVersion := 70208
    fLiteMode := false, isBlockchainSynced := true, isSynced := true, hasFulfilledRequest := false }

/-- A node that has the object with one vote is told of another one. -/
theorem governance_sync_complete_holder :
    .vote ((fundingVote 2 9500).getHash trustingCrypto)
      ∈ announced trustingCrypto syncedContext syncedContext (holder [fundingVote 1 9500])
        (holder [fundingVote 1 9500, fundingVote 2 9500]) 7 true :=
  ((governance_sync_complete_iff ⟨by decide, by decide⟩ rfl ⟨rfl, rfl⟩).mpr
    ⟨rfl, rfl, rfl, by decide, fun _ _ => ⟨by decide, rfl⟩⟩).2 (fundingVote 2 9500)
      ⟨by simp, by decide +kernel, by decide +kernel⟩

/-- A node that asks for the object it does not have is told of the object, but not of the vote. -/
theorem vote_not_announced :
    Wanted trustingCrypto syncedContext syncedContext {} 7 false
        { plainTrigger with fileVotes := ⟨[fundingVote 1 9500]⟩ } (fundingVote 1 9500)
      ∧ announced trustingCrypto syncedContext syncedContext {} (holder [fundingVote 1 9500]) 7 false
        = [.object 7] :=
  ⟨⟨by simp, by decide, by simp [filterObject]⟩, by decide⟩

end CGovernanceManager

end Binarium
