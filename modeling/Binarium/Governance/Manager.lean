import Binarium.Governance.Object

set_option autoImplicit false

/-! # The governance manager (`governance.h`, `governance.cpp`)

The manager keeps the objects that were accepted, the votes that came before their object
(`mapOrphanVotes`) and the objects whose masternode is not known yet (`mapMasternodeOrphanObjects`).
An `std::map` is walked here in the order of the list that models it. -/

namespace Binarium

/-- `MAX_CACHE_SIZE` of the manager. -/
def MAX_CACHE_SIZE : ℕ := 1000000

/-- `MIN_GOVERNANCE_PEER_PROTO_VERSION`. -/
def MIN_GOVERNANCE_PEER_PROTO_VERSION : ℤ := 70206

/-- `ExpirationInfo`. The time is an `int64_t`, the peer is a `NodeId`, which is an `int`. -/
structure ExpirationInfo where
  nExpirationTime : ℤ
  idFrom : Int32
deriving DecidableEq

/-- `CGovernanceManager`. The pointers of `mapVoteToObject` are the keys of the objects. -/
structure CGovernanceManager where
  mapObjects : AList (fun _ : Uint256 => CGovernanceObject) := ∅
  mapPostponedObjects : AList (fun _ : Uint256 => CGovernanceObject) := ∅
  mapErasedGovernanceObjects : AList (fun _ : Uint256 => ℤ) := ∅
  mapMasternodeOrphanObjects : AList (fun _ : Uint256 => CGovernanceObject × ExpirationInfo) := ∅
  mapMasternodeOrphanCounter : AList (fun _ : COutPoint => ℤ) := ∅
  mapWatchdogObjects : AList (fun _ : Uint256 => ℤ) := ∅
  nHashWatchdogCurrent : Uint256 := 0
  nTimeWatchdogCurrent : ℤ := 0
  mapVoteToObject : CacheMap Uint256 Uint256 := .empty MAX_CACHE_SIZE
  mapInvalidVotes : CacheMap Uint256 CGovernanceVote := .empty MAX_CACHE_SIZE
  mapOrphanVotes : CacheMultiMap Uint256 VoteTimePair voteTimePairLt := .empty MAX_CACHE_SIZE
  setRequestedObjects : List Uint256 := []
  setRequestedVotes : List Uint256 := []

/-- A call of `Misbehaving(nodeid, howmuch)`. -/
abbrev Misbehavior := Int32 × ℤ

variable (crypto : GovernanceCrypto) (ctx : GovernanceContext)

/-! ## Votes -/

variable (s : CGovernanceManager) (govobj : CGovernanceObject)

/-- `CGovernanceManager::AddInvalidVote`, if `ProcessVote` of an object asked for it. -/
def CGovernanceManager.addInvalidVote (fInvalid : Bool) (vote : CGovernanceVote) :
    CGovernanceManager :=
  if fInvalid then
    { s with mapInvalidVotes := s.mapInvalidVotes.insert (vote.getHash crypto) vote }
  else s

/-- `CGovernanceManager::ProcessVote`. -/
def CGovernanceManager.processVote (s : CGovernanceManager) (vote : CGovernanceVote) :
    Except CGovernanceException Unit × CGovernanceManager :=
  let nHashVote := vote.getHash crypto
  let nHashGovobj := vote.nParentHash
  let strVote := ", MN outpoint = " ++ vote.getMasternodeOutpoint.toStringShort
    ++ ", governance object hash = " ++ uint256ToString nHashGovobj
  if s.mapInvalidVotes.hasKey nHashVote then
    (.error (governanceException ("CGovernanceManager::ProcessVote -- Old invalid vote " ++ strVote)
      .permanentError 20), s)
  else
    match s.mapObjects.lookup nHashGovobj with
    | none =>
      let expiration := ctx.adjustedTime + GOVERNANCE_ORPHAN_EXPIRATION_TIME
      (.error (governanceException
          ("CGovernanceManager::ProcessVote -- Unknown parent object " ++ strVote) .warning 0),
        { s with mapOrphanVotes := (s.mapOrphanVotes.insert nHashGovobj (vote, expiration)).2 })
    | some govobj =>
      if govobj.fCachedDelete || govobj.fExpired then
        (.error (governanceException "" .none 0), s)
      else
        let r := govobj.processVote crypto ctx vote
        let s := s.addInvalidVote crypto r.addInvalidVote vote
        let s := { s with mapObjects := s.mapObjects.insert nHashGovobj r.govobj }
        match r.result with
        | .ok _ =>
          (.ok (),
            { s with mapVoteToObject := s.mapVoteToObject.insert nHashVote nHashGovobj })
        | .error exception => (.error exception, s)

variable (nHash : Uint256)

/-- One orphan vote in the loop of `CGovernanceManager::CheckOrphanVotes`, with rate checks off. -/
def checkOrphanVote (state : CGovernanceObject × CGovernanceManager) (pairVote : VoteTimePair) :
    CGovernanceObject × CGovernanceManager :=
  let (govobj, s) := state
  let erased (s : CGovernanceManager) : CGovernanceManager :=
    { s with mapOrphanVotes := s.mapOrphanVotes.erase nHash pairVote }
  if pairVote.2 < ctx.adjustedTime then (govobj, erased s)
  else
    let r := govobj.processVote crypto { ctx with fRateChecksEnabled := false } pairVote.1
    let s := s.addInvalidVote crypto r.addInvalidVote pairVote.1
    match r.result with
    | .ok _ => (r.govobj, erased s)
    | .error _ => (r.govobj, s)

/-- `CGovernanceManager::CheckOrphanVotes`: the votes that came before an object go to the object it
    was called with. -/
def CGovernanceManager.checkOrphanVotes : CGovernanceObject × CGovernanceManager :=
  let nHash := govobj.getHash crypto
  (s.mapOrphanVotes.getAll nHash).foldl (checkOrphanVote crypto ctx nHash) (govobj, s)

/-! ## Objects -/

/-- The test of `CGovernanceManager::UpdateCurrentWatchdog`. -/
def CGovernanceManager.isBetterWatchdog (watchdogNew : CGovernanceObject) : Bool :=
  let nExpirationDelay := GOVERNANCE_WATCHDOG_EXPIRATION_TIME / 2
  let nNow := ctx.adjustedTime
  decide (s.nHashWatchdogCurrent = 0)
    || decide (nNow - watchdogNew.nTime < nExpirationDelay)
      && (decide (nNow - s.nTimeWatchdogCurrent > nExpirationDelay)
        || decide (watchdogNew.getHash crypto > s.nHashWatchdogCurrent))

/-- An object is marked as expired. -/
def CGovernanceObject.expire (nNow : ℤ) : CGovernanceObject :=
  { govobj with
    fExpired := true
    nDeletionTime := if govobj.nDeletionTime = 0 then nNow else govobj.nDeletionTime }

/-- `CGovernanceManager::UpdateCurrentWatchdog`. -/
def CGovernanceManager.updateCurrentWatchdog (watchdogNew : CGovernanceObject) :
    Bool × CGovernanceManager :=
  if s.isBetterWatchdog crypto ctx watchdogNew then
    let mapObjects :=
      match s.mapObjects.lookup s.nHashWatchdogCurrent with
      | some govobj =>
        s.mapObjects.insert s.nHashWatchdogCurrent (govobj.expire ctx.adjustedTime)
      | none => s.mapObjects
    (true, { s with
      mapObjects
      nHashWatchdogCurrent := watchdogNew.getHash crypto
      nTimeWatchdogCurrent := watchdogNew.nTime })
  else (false, s)

/-- The checks of `AddGovernanceObject` for a watchdog. -/
def CGovernanceManager.admitWatchdog : Bool × CGovernanceManager :=
  if govobj.nTime < ctx.adjustedTime - GOVERNANCE_WATCHDOG_EXPIRATION_TIME
      ∨ govobj.nTime > ctx.adjustedTime + GOVERNANCE_WATCHDOG_EXPIRATION_TIME then (false, s)
  else s.updateCurrentWatchdog crypto ctx govobj

/-- The checks of `AddGovernanceObject` that depend on the type of the object. -/
def CGovernanceManager.admitObject : Bool × CGovernanceManager :=
  if govobj.nObjectType = GOVERNANCE_OBJECT_WATCHDOG then s.admitWatchdog crypto ctx govobj
  else (true, s)

/-- An object is inserted into `mapObjects`, and a watchdog into `mapWatchdogObjects`. -/
def CGovernanceManager.storeObject (govobj : CGovernanceObject) : CGovernanceManager :=
  { s with
    mapObjects := s.mapObjects.insert nHash govobj
    mapWatchdogObjects :=
      if govobj.nObjectType = GOVERNANCE_OBJECT_WATCHDOG then
        s.mapWatchdogObjects.insert nHash (govobj.nTime + GOVERNANCE_WATCHDOG_EXPIRATION_TIME)
      else s.mapWatchdogObjects }

/-- `CGovernanceManager::AddGovernanceObject`. What goes into `mapObjects` is a copy of the object;
    the orphan votes are handed to the object that was copied. -/
def CGovernanceManager.addGovernanceObject : CGovernanceManager :=
  let nHash := govobj.getHash crypto
  let govobj := govobj.updateSentinelVariables ctx
  if !(govobj.isValidLocally crypto ctx true).fValid then s
  else if (s.mapObjects.lookup nHash).isSome then s
  else
    match s.admitObject crypto ctx govobj with
    | (false, s) => s
    | (true, s) => ((s.storeObject nHash govobj).checkOrphanVotes crypto ctx govobj).2

/-! ## What adding an object changes -/

open CGovernanceManager

theorem checkOrphanVotes_frame :
    ∃ mapOrphanVotes mapInvalidVotes, (s.checkOrphanVotes crypto ctx govobj).2
      = { s with mapOrphanVotes, mapInvalidVotes } := by
  have hstep : ∀ nHash state pairVote, ∃ mapOrphanVotes mapInvalidVotes,
      (checkOrphanVote crypto ctx nHash state pairVote).2
        = { state.2 with mapOrphanVotes, mapInvalidVotes } := by
    rintro nHash ⟨govobj, s⟩ pairVote
    unfold checkOrphanVote addInvalidVote
    simp only
    split_ifs
    · simp
    · split
      · simp
      · simp
    · split
      · simp
      · exact ⟨s.mapOrphanVotes, s.mapInvalidVotes, rfl⟩
  have hfold : ∀ nHash (pairs : List VoteTimePair) (state : CGovernanceObject × CGovernanceManager),
      ∃ mapOrphanVotes mapInvalidVotes, (pairs.foldl (checkOrphanVote crypto ctx nHash) state).2
        = { state.2 with mapOrphanVotes, mapInvalidVotes } := by
    intro nHash pairs
    induction pairs with
    | nil => exact fun state => ⟨state.2.mapOrphanVotes, state.2.mapInvalidVotes, rfl⟩
    | cons pairVote rest ih =>
      intro state
      obtain ⟨orphan, invalid, hfirst⟩ := hstep nHash state pairVote
      obtain ⟨orphan', invalid', hrest⟩ := ih (checkOrphanVote crypto ctx nHash state pairVote)
      simp [List.foldl_cons, hrest, hfirst]
  exact hfold _ _ (govobj, s)

theorem admitObject_frame :
    ∃ mapObjects nHashWatchdogCurrent nTimeWatchdogCurrent, (s.admitObject crypto ctx govobj).2
      = { s with mapObjects, nHashWatchdogCurrent, nTimeWatchdogCurrent } := by
  unfold admitObject admitWatchdog
    updateCurrentWatchdog
  split_ifs
  · exact ⟨s.mapObjects, s.nHashWatchdogCurrent, s.nTimeWatchdogCurrent, rfl⟩
  · simp
  · exact ⟨s.mapObjects, s.nHashWatchdogCurrent, s.nTimeWatchdogCurrent, rfl⟩
  · exact ⟨s.mapObjects, s.nHashWatchdogCurrent, s.nTimeWatchdogCurrent, rfl⟩

theorem addGovernanceObject_cases :
    s.addGovernanceObject crypto ctx govobj = s
      ∨ s.addGovernanceObject crypto ctx govobj
        = (s.admitObject crypto ctx (govobj.updateSentinelVariables ctx)).2
      ∨ s.addGovernanceObject crypto ctx govobj
        = (((s.admitObject crypto ctx (govobj.updateSentinelVariables ctx)).2.storeObject
            (govobj.getHash crypto) (govobj.updateSentinelVariables ctx)).checkOrphanVotes crypto ctx
              (govobj.updateSentinelVariables ctx)).2 := by
  unfold addGovernanceObject
  simp only
  split_ifs
  · simp
  · simp
  · rcases s.admitObject crypto ctx (govobj.updateSentinelVariables ctx) with ⟨fAccept, s'⟩
    cases fAccept with
    | false => exact Or.inr (Or.inl rfl)
    | true => exact Or.inr (Or.inr rfl)

/-! ## Messages -/

/-- What the message handler reads of the node besides `GovernanceContext`. `MasternodeRateCheck` is
    a parameter: the result and `fRateCheckBypassed` of the first call, and the result of the forced
    one. -/
structure MessageContext extends GovernanceContext where
  fLiteMode : Bool
  isBlockchainSynced : Bool
  isMasternodeListSynced : Bool
  isSynced : Bool
  masternodeRateCheck : CGovernanceObject → Bool × Bool
  masternodeRateCheckForced : CGovernanceObject → Bool

/-- The part of `CNode` that is read. -/
structure GovernancePeer where
  id : Int32
  nVersion : ℤ
deriving DecidableEq

/-- `ExpirationInfo info(pfrom->GetId(), GetAdjustedTime() + GOVERNANCE_ORPHAN_EXPIRATION_TIME)`: the
    peer goes where the time belongs and the time where the peer belongs. -/
def orphanInfo (pfrom : GovernancePeer) : ExpirationInfo :=
  { nExpirationTime := pfrom.id.toInt
    idFrom := Int32.ofInt (ctx.adjustedTime + GOVERNANCE_ORPHAN_EXPIRATION_TIME) }

/-- The part of `ProcessMessage` for an object with a missing masternode. -/
def CGovernanceManager.addMasternodeOrphan (pfrom : GovernancePeer) (govobj : CGovernanceObject) :
    CGovernanceManager :=
  let outpoint := govobj.vinMasternode.prevout
  let count := (s.mapMasternodeOrphanCounter.lookup outpoint).getD 0
  if count ≥ 10 then
    { s with mapMasternodeOrphanCounter := s.mapMasternodeOrphanCounter.insert outpoint count }
  else
    { s with
      mapMasternodeOrphanCounter := s.mapMasternodeOrphanCounter.insert outpoint (count + 1)
      mapMasternodeOrphanObjects :=
        s.mapMasternodeOrphanObjects.insert (govobj.getHash crypto) (govobj, orphanInfo ctx pfrom) }

/-- Whether a message with an object is looked at: none of the maps has the object. -/
def CGovernanceManager.isNewObject : Bool :=
  (s.mapObjects.lookup nHash).isNone && (s.mapPostponedObjects.lookup nHash).isNone
    && (s.mapErasedGovernanceObjects.lookup nHash).isNone
    && (s.mapMasternodeOrphanObjects.lookup nHash).isNone

/-- `ProcessMessage` of `MNGOVERNANCEOBJECT`. -/
def CGovernanceManager.processObjectMessage (ctx : MessageContext) (pfrom : GovernancePeer)
    (govobj : CGovernanceObject) (s : CGovernanceManager) : CGovernanceManager × List Misbehavior :=
  let nHash := govobj.getHash crypto
  if ctx.fLiteMode || !ctx.isBlockchainSynced
      || decide (pfrom.nVersion < MIN_GOVERNANCE_PEER_PROTO_VERSION)
      || !ctx.isMasternodeListSynced then (s, [])
  else if nHash ∉ s.setRequestedObjects then (s, [])
  else
    let s := { s with setRequestedObjects := s.setRequestedObjects.filter (· ≠ nHash) }
    if !s.isNewObject nHash then (s, [])
    else
      let (fRateOK, fRateCheckBypassed) := ctx.masternodeRateCheck govobj
      if !fRateOK then (s, [])
      else
        let validity := govobj.isValidLocally crypto ctx.toGovernanceContext true
        if fRateCheckBypassed && (validity.fValid || validity.fMissingMasternode)
            && !ctx.masternodeRateCheckForced govobj then (s, [])
        else if !validity.fValid then
          if validity.fMissingMasternode then
            (s.addMasternodeOrphan crypto ctx.toGovernanceContext pfrom govobj, [])
          else if validity.fMissingConfirmations then
            ({ s with mapPostponedObjects := s.mapPostponedObjects.insert nHash govobj }, [])
          else (s, [(pfrom.id, 20)])
        else (s.addGovernanceObject crypto ctx.toGovernanceContext govobj, [])

/-- `ProcessMessage` of `MNGOVERNANCEOBJECTVOTE`. -/
def CGovernanceManager.processVoteMessage (ctx : MessageContext) (pfrom : GovernancePeer)
    (vote : CGovernanceVote) (s : CGovernanceManager) : CGovernanceManager × List Misbehavior :=
  let nHash := vote.getHash crypto
  if ctx.fLiteMode || !ctx.isBlockchainSynced
      || decide (pfrom.nVersion < MIN_GOVERNANCE_PEER_PROTO_VERSION)
      || !ctx.isMasternodeListSynced then (s, [])
  else if nHash ∉ s.setRequestedVotes then (s, [])
  else
    let s := { s with setRequestedVotes := s.setRequestedVotes.filter (· ≠ nHash) }
    match s.processVote crypto ctx.toGovernanceContext vote with
    | (.ok _, s) => (s, [])
    | (.error exception, s) =>
      if exception.nNodePenalty ≠ 0 ∧ ctx.isSynced then (s, [(pfrom.id, exception.nNodePenalty)])
      else (s, [])

/-! ## The sweep over orphan objects -/

/-- What the loop of `CheckMasternodeOrphanObjects` does with an entry: the object goes to
    `AddGovernanceObject` and is erased, stays, is erased, or is erased with a penalty for a peer. -/
inductive OrphanFate where
  | add | stay | drop
  | penalise (idFrom : Int32)
deriving DecidableEq

/-- The tests of the loop. -/
def orphanFate (info : ExpirationInfo) : OrphanFate :=
  if info.nExpirationTime ≥ ctx.adjustedTime then
    let validity := govobj.isValidLocally crypto ctx true
    if validity.fValid then .add
    else if validity.fMissingMasternode then .stay
    else .drop
  else .penalise info.idFrom

/-- `--it_count->second`, and the counter is erased when it reaches 0. -/
def CGovernanceManager.eraseOrphan (outpoint : COutPoint) : CGovernanceManager :=
  { s with
    mapMasternodeOrphanObjects := s.mapMasternodeOrphanObjects.erase nHash
    mapMasternodeOrphanCounter :=
      match s.mapMasternodeOrphanCounter.lookup outpoint with
      | some count =>
        if count - 1 = 0 then s.mapMasternodeOrphanCounter.erase outpoint
        else s.mapMasternodeOrphanCounter.insert outpoint (count - 1)
      | none => s.mapMasternodeOrphanCounter }

/-- The penalties for one entry. -/
def OrphanFate.penalties : OrphanFate → List Misbehavior
  | .penalise idFrom => [(idFrom, 20)]
  | _ => []

/-- One round of the loop, with rate checks off. -/
def CGovernanceManager.checkMasternodeOrphan (govobj : CGovernanceObject) (info : ExpirationInfo) :
    CGovernanceManager :=
  let outpoint := govobj.vinMasternode.prevout
  match orphanFate crypto ctx govobj info with
  | .add =>
    (s.addGovernanceObject crypto { ctx with fRateChecksEnabled := false } govobj).eraseOrphan
      nHash outpoint
  | .stay => s
  | .drop | .penalise _ => s.eraseOrphan nHash outpoint

/-- `CGovernanceManager::CheckMasternodeOrphanObjects`. -/
def CGovernanceManager.checkMasternodeOrphanObjects : CGovernanceManager × List Misbehavior :=
  (s.mapMasternodeOrphanObjects.entries.foldl
      (fun s entry => s.checkMasternodeOrphan crypto ctx entry.1 entry.2.1 entry.2.2) s,
    s.mapMasternodeOrphanObjects.entries.flatMap fun entry =>
      (orphanFate crypto ctx entry.2.1 entry.2.2).penalties)

end Binarium
