import Binarium.Governance.OrphanVotes

set_option autoImplicit false

/-! # Objects whose masternode is not known

An object of an unknown masternode waits in `mapMasternodeOrphanObjects`. It is meant to wait for ten
minutes; then the peer that sent it is to be penalised. `ExpirationInfo` however takes the time first
and the peer second, and the message handler hands them over the other way round. So the object expires
at the time that is the number of the peer, and the node whose number is the time is penalised. The
life of an object is as it is meant to be exactly in the runs in which the two numbers do not matter
(`orphan_object_life_iff`). -/

namespace Binarium

open Maps Or

/-! ## Runs of the manager -/

/-- What happens to the manager: messages, the sweep over the orphan objects, and whatever else leaves
    the orphan objects alone. -/
inductive GovernanceEvent where
  | objectMessage (ctx : MessageContext) (pfrom : GovernancePeer) (govobj : CGovernanceObject)
  | voteMessage (ctx : MessageContext) (pfrom : GovernancePeer) (vote : CGovernanceVote)
  | sweep (ctx : GovernanceContext)
  | elsewhere (change : CGovernanceManager → CGovernanceManager)
      (frame : ∀ s, (change s).mapMasternodeOrphanObjects = s.mapMasternodeOrphanObjects)

/-- One event. -/
def CGovernanceManager.step (crypto : GovernanceCrypto) (s : CGovernanceManager) :
    GovernanceEvent → CGovernanceManager
  | .objectMessage ctx pfrom govobj => (s.processObjectMessage crypto ctx pfrom govobj).1
  | .voteMessage ctx pfrom vote => (s.processVoteMessage crypto ctx pfrom vote).1
  | .sweep ctx => (s.checkMasternodeOrphanObjects crypto ctx).1
  | .elsewhere change _ => change s

variable {crypto : GovernanceCrypto}

/-! ## Messages -/

theorem mapMasternodeOrphanObjects_addGovernanceObject (ctx : GovernanceContext)
    (s : CGovernanceManager) (govobj : CGovernanceObject) :
    (s.addGovernanceObject crypto ctx govobj).mapMasternodeOrphanObjects
      = s.mapMasternodeOrphanObjects := by
  obtain ⟨_, _, _, hadmit⟩ := admitObject_frame crypto ctx s (govobj.updateSentinelVariables ctx)
  rcases addGovernanceObject_cases crypto ctx s govobj with h | h | h
  · rw [h]
  · rw [h, hadmit]
  · obtain ⟨_, _, hcheck⟩ := checkOrphanVotes_frame crypto ctx
      ((s.admitObject crypto ctx (govobj.updateSentinelVariables ctx)).2.storeObject
        (govobj.getHash crypto) (govobj.updateSentinelVariables ctx))
      (govobj.updateSentinelVariables ctx)
    rw [h, hcheck, hadmit]
    rfl

open CGovernanceManager

theorem mapMasternodeOrphanObjects_processVote (crypto : GovernanceCrypto)
    (ctx : GovernanceContext) (s : CGovernanceManager) (vote : CGovernanceVote) :
    (s.processVote crypto ctx vote).2.mapMasternodeOrphanObjects = s.mapMasternodeOrphanObjects := by
  unfold processVote addInvalidVote
  simp only
  split_ifs
  · rfl
  · split
    · rfl
    · split_ifs
      · rfl
      · split
        · rfl
        · rfl
      · split
        · rfl
        · rfl

theorem mapMasternodeOrphanObjects_processVoteMessage (ctx : MessageContext)
    (pfrom : GovernancePeer) (vote : CGovernanceVote) (s : CGovernanceManager) :
    (s.processVoteMessage crypto ctx pfrom vote).1.mapMasternodeOrphanObjects
      = s.mapMasternodeOrphanObjects := by
  unfold processVoteMessage
  simp only
  split_ifs
  · rfl
  · have hvote := mapMasternodeOrphanObjects_processVote crypto ctx.toGovernanceContext
      { s with setRequestedVotes := s.setRequestedVotes.filter (· ≠ vote.getHash crypto) } vote
    split
    next s' heq => rwa [heq] at hvote
    next exception s' heq =>
      rw [heq] at hvote
      split_ifs
      · exact hvote
      · exact hvote
  · rfl

/-- The orphan objects are as before, or this object, which was none of them, is filed. -/
def FiledAtMost (crypto : GovernanceCrypto) (ctx : MessageContext) (pfrom : GovernancePeer)
    (govobj : CGovernanceObject) (s s' : CGovernanceManager) : Prop :=
  s'.mapMasternodeOrphanObjects = s.mapMasternodeOrphanObjects
    ∨ s.mapMasternodeOrphanObjects.lookup (govobj.getHash crypto) = none
      ∧ (govobj.isValidLocally crypto ctx.toGovernanceContext true).fMissingMasternode = true
      ∧ s'.mapMasternodeOrphanObjects = s.mapMasternodeOrphanObjects.insert (govobj.getHash crypto)
          (govobj, orphanInfo ctx.toGovernanceContext pfrom)

theorem FiledAtMost.ite {ctx : MessageContext} {pfrom : GovernancePeer} {govobj : CGovernanceObject}
    {s : CGovernanceManager} {c : Prop} [Decidable c] {a b : CGovernanceManager × List Misbehavior}
    (ha : c → FiledAtMost crypto ctx pfrom govobj s a.1)
    (hb : ¬ c → FiledAtMost crypto ctx pfrom govobj s b.1) :
    FiledAtMost crypto ctx pfrom govobj s (if c then a else b).1 := by
  split_ifs with h
  · exact ha h
  · exact hb h

/-- **A message with an object** files at most this object as an orphan, and only if it is not one
    yet. -/
theorem filedAtMost_processObjectMessage (ctx : MessageContext) (pfrom : GovernancePeer)
    (govobj : CGovernanceObject) (s : CGovernanceManager) :
    FiledAtMost crypto ctx pfrom govobj s (s.processObjectMessage crypto ctx pfrom govobj).1 := by
  unfold processObjectMessage
  extract_lets nHash s' validity
  rcases ctx.masternodeRateCheck govobj with ⟨fRateOK, fRateCheckBypassed⟩
  -- one guard after the other; those that stop the message leave the orphans as they are
  refine .ite (fun _ => inl rfl) fun _ => ?_
  refine .ite (fun _ => inl rfl) fun _ => ?_
  refine .ite (fun _ => inl rfl) fun hnew => ?_
  refine .ite (fun _ => inl rfl) fun _ => ?_
  refine .ite (fun _ => inl rfl) fun _ => ?_
  refine .ite (fun _ => ?_) fun _ => ?_
  · refine .ite (fun hmissing => ?_) fun _ => ?_
    · simp only [isNewObject, Bool.not_eq_true', Bool.not_eq_false,
        Bool.and_eq_true, Option.isNone_iff_eq_none] at hnew
      simp only [addMasternodeOrphan]
      split
      · exact inl rfl
      · exact inr ⟨hnew.2, hmissing, rfl⟩
    · exact .ite (fun _ => inl rfl) fun _ => inl rfl
  · exact inl (mapMasternodeOrphanObjects_addGovernanceObject _ _ _)

/-! ## The sweep -/

/-- One round of the loop erases the entry unless it stays. -/
theorem mapMasternodeOrphanObjects_checkMasternodeOrphan (ctx : GovernanceContext)
    (s : CGovernanceManager) (nHash : Uint256) (govobj : CGovernanceObject)
    (info : ExpirationInfo) :
    (s.checkMasternodeOrphan crypto ctx nHash govobj info).mapMasternodeOrphanObjects
      = if orphanFate crypto ctx govobj info = .stay then s.mapMasternodeOrphanObjects
        else s.mapMasternodeOrphanObjects.erase nHash := by
  cases hfate : orphanFate crypto ctx govobj info <;>
    simp [checkMasternodeOrphan, hfate, eraseOrphan, mapMasternodeOrphanObjects_addGovernanceObject]

/-- The entries that leave the map in a sweep. -/
def leavingOrphans (crypto : GovernanceCrypto) (ctx : GovernanceContext)
    (entries : List (Sigma fun _ : Uint256 => CGovernanceObject × ExpirationInfo)) : List Uint256 :=
  (entries.filter fun entry =>
    !decide (orphanFate crypto ctx entry.2.1 entry.2.2 = .stay)).map Sigma.fst

theorem mapMasternodeOrphanObjects_sweep (ctx : GovernanceContext) (s : CGovernanceManager) :
    (s.checkMasternodeOrphanObjects crypto ctx).1.mapMasternodeOrphanObjects
      = (leavingOrphans crypto ctx s.mapMasternodeOrphanObjects.entries).foldl
          (fun m nHash => m.erase nHash) s.mapMasternodeOrphanObjects := by
  have hloop : ∀ (entries : List (Sigma fun _ : Uint256 => CGovernanceObject × ExpirationInfo))
      (s : CGovernanceManager),
      (entries.foldl (fun s entry =>
          s.checkMasternodeOrphan crypto ctx entry.1 entry.2.1 entry.2.2) s).mapMasternodeOrphanObjects
        = (leavingOrphans crypto ctx entries).foldl (fun m nHash => m.erase nHash)
            s.mapMasternodeOrphanObjects := by
    intro entries
    induction entries with
    | nil => exact fun _ => rfl
    | cons entry rest ih =>
      intro s
      rw [List.foldl_cons, ih, mapMasternodeOrphanObjects_checkMasternodeOrphan, leavingOrphans,
        leavingOrphans]
      by_cases hstay : orphanFate crypto ctx entry.2.1 entry.2.2 = .stay
      · simp [hstay]
      · simp [hstay]
  exact hloop _ s

/-- **A sweep** keeps an entry exactly if it stays by the tests of the loop. -/
theorem lookup_sweep {ctx : GovernanceContext} {s : CGovernanceManager} {nHash : Uint256}
    {govobj : CGovernanceObject} {info : ExpirationInfo}
    (hlookup : s.mapMasternodeOrphanObjects.lookup nHash = some (govobj, info)) :
    (s.checkMasternodeOrphanObjects crypto ctx).1.mapMasternodeOrphanObjects.lookup nHash
      = if orphanFate crypto ctx govobj info = .stay then some (govobj, info) else none := by
  have hmem : nHash ∈ leavingOrphans crypto ctx s.mapMasternodeOrphanObjects.entries
      ↔ orphanFate crypto ctx govobj info ≠ .stay := by
    have hentry := fun entry => mem_lookup_iff_mem_entries s.mapMasternodeOrphanObjects nHash entry
    simp only [leavingOrphans, List.mem_map, List.mem_filter]
    grind
  rw [mapMasternodeOrphanObjects_sweep, lookup_foldl_erase]
  grind

theorem lookup_step (crypto : GovernanceCrypto) {s : CGovernanceManager} {nHash : Uint256}
    {entry : CGovernanceObject × ExpirationInfo}
    (hlookup : s.mapMasternodeOrphanObjects.lookup nHash = some entry) {event : GovernanceEvent}
    (hevent : ∀ ctx, event ≠ .sweep ctx) :
    (s.step crypto event).mapMasternodeOrphanObjects.lookup nHash = some entry := by
  cases event with
  | objectMessage ctx pfrom govobj =>
    rcases filedAtMost_processObjectMessage ctx pfrom govobj s
      with h | ⟨hnone, -, h⟩
    · rw [step, h, hlookup]
    · have hne : nHash ≠ govobj.getHash crypto := by
        rintro rfl
        simp [hnone] at hlookup
      rw [step, h, AList.lookup_insert_ne hne, hlookup]
  | voteMessage ctx pfrom vote =>
    rw [step, mapMasternodeOrphanObjects_processVoteMessage, hlookup]
  | sweep ctx => exact absurd rfl (hevent ctx)
  | elsewhere change frame => rw [step, frame, hlookup]

/-! ## Objects that wait for a masternode -/

/-- An object that `IsValidLocally` can find to be without its masternode. -/
structure CGovernanceObject.NeedsMasternode (govobj : CGovernanceObject) : Prop where
  parsed : govobj.fUnparsable = false
  signed : govobj.nObjectType = GOVERNANCE_OBJECT_TRIGGER
    ∨ govobj.nObjectType = GOVERNANCE_OBJECT_WATCHDOG

open CGovernanceObject

theorem needsMasternode_of_missing {ctx : GovernanceContext} {govobj : CGovernanceObject}
    (h : (govobj.isValidLocally crypto ctx true).fMissingMasternode) : govobj.NeedsMasternode := by
  -- the collateral of a proposal is not about a masternode
  constructor <;> grind [isValidLocally, isCollateralValid, confirmationsValid]

section

variable {govobj : CGovernanceObject} (hneeds : govobj.NeedsMasternode) (ctx : GovernanceContext)
  (info : ExpirationInfo)

include hneeds

theorem orphanFate_eq_stay_iff (crypto : GovernanceCrypto) :
    orphanFate crypto ctx govobj info = .stay
      ↔ ctx.adjustedTime ≤ info.nExpirationTime
        ∧ ctx.getMasternodeInfo govobj.vinMasternode.prevout = none
        ∧ ctx.checkCollateral govobj.vinMasternode.prevout = .ok := by
  have hlocal : govobj.isValidLocally crypto ctx true = govobj.isMasternodeValid crypto ctx := by
    grind [isValidLocally, hneeds.parsed, hneeds.signed]
  simp only [orphanFate, hlocal, isMasternodeValid]
  cases ctx.getMasternodeInfo govobj.vinMasternode.prevout <;>
    cases ctx.checkCollateral govobj.vinMasternode.prevout <;> grind

end

/-! ## The life of an orphan object -/

/-- Whether an object is in the orphan map. -/
def CGovernanceManager.isOrphan (s : CGovernanceManager) (nHash : Uint256) : Bool :=
  (s.mapMasternodeOrphanObjects.lookup nHash).isSome

/-- The penalties of a sweep for one object. -/
def CGovernanceManager.orphanPenalties (crypto : GovernanceCrypto) (ctx : GovernanceContext)
    (s : CGovernanceManager) (nHash : Uint256) : List Misbehavior :=
  match s.mapMasternodeOrphanObjects.lookup nHash with
  | some (govobj, info) => (orphanFate crypto ctx govobj info).penalties
  | none => []

section

variable (crypto : GovernanceCrypto) (nHash : Uint256) (masternode : COutPoint) (idFrom : Int32)
  (nTime : ℤ)

/-- What an event is to do with an object that came from `idFrom` at `nTime`. Until it expires, a sweep
    leaves it in the map while its masternode is unknown and penalises nobody; afterwards a sweep
    erases it and penalises `idFrom` and no other. All other events leave it in the map. -/
def EventRight (s : CGovernanceManager) (event : GovernanceEvent) : Prop :=
  match event with
  | .sweep ctx =>
    (ctx.adjustedTime ≤ nTime + GOVERNANCE_ORPHAN_EXPIRATION_TIME →
      (ctx.getMasternodeInfo masternode = none → (s.step crypto event).isOrphan nHash = true)
        ∧ s.orphanPenalties crypto ctx nHash = [])
    ∧ (nTime + GOVERNANCE_ORPHAN_EXPIRATION_TIME < ctx.adjustedTime →
      (s.step crypto event).isOrphan nHash = false
        ∧ s.orphanPenalties crypto ctx nHash = [(idFrom, 20)])
  | _ => (s.step crypto event).isOrphan nHash = true

/-- The events are right as long as the object is in the map. -/
def LifeRight : CGovernanceManager → List GovernanceEvent → Prop
  | _, [] => True
  | s, event :: rest =>
    EventRight crypto nHash masternode idFrom nTime s event
      ∧ ((s.step crypto event).isOrphan nHash = true → LifeRight (s.step crypto event) rest)

end

/-- A sweep for which it does not matter that peer and time are exchanged. Until the object expires,
    the number of the peer is not below the time, and the collateral of a masternode that is unknown is
    there; afterwards the number of the peer is that of the time. -/
structure SweepFine (masternode : COutPoint) (idFrom : Int32) (nTime : ℤ) (ctx : GovernanceContext) :
    Prop where
  waits : ctx.adjustedTime ≤ nTime + GOVERNANCE_ORPHAN_EXPIRATION_TIME →
    ctx.adjustedTime ≤ idFrom.toInt
      ∧ (ctx.getMasternodeInfo masternode = none → ctx.checkCollateral masternode = .ok)
  expires : nTime + GOVERNANCE_ORPHAN_EXPIRATION_TIME < ctx.adjustedTime →
    idFrom.toInt < ctx.adjustedTime
      ∧ Int32.ofInt (nTime + GOVERNANCE_ORPHAN_EXPIRATION_TIME) = idFrom

/-- Such are the sweeps up to the one that finds the masternode or comes after the ten minutes. -/
def SweepsFine (masternode : COutPoint) (idFrom : Int32) (nTime : ℤ) : List GovernanceEvent → Prop
  | [] => True
  | event :: rest =>
    match event with
    | .sweep ctx =>
      SweepFine masternode idFrom nTime ctx
        ∧ (ctx.adjustedTime ≤ nTime + GOVERNANCE_ORPHAN_EXPIRATION_TIME →
          ctx.getMasternodeInfo masternode = none →
            SweepsFine masternode idFrom nTime rest)
    | _ => SweepsFine masternode idFrom nTime rest

section

variable {ctx₀ : GovernanceContext} {pfrom : GovernancePeer} {govobj : CGovernanceObject}
  (hneeds : govobj.NeedsMasternode) {s : CGovernanceManager} {nHash : Uint256}
  (hlookup : s.mapMasternodeOrphanObjects.lookup nHash = some (govobj, orphanInfo ctx₀ pfrom))

include hneeds hlookup

theorem isOrphan_sweep_iff (crypto : GovernanceCrypto) (ctx : GovernanceContext) :
    (s.step crypto (.sweep ctx)).isOrphan nHash
      ↔ ctx.adjustedTime ≤ pfrom.id.toInt
        ∧ ctx.getMasternodeInfo govobj.vinMasternode.prevout = none
        ∧ ctx.checkCollateral govobj.vinMasternode.prevout = .ok := by
  have hfate := orphanFate_eq_stay_iff hneeds ctx (orphanInfo ctx₀ pfrom) crypto
  rw [step, isOrphan, lookup_sweep hlookup]
  split_ifs with hstay
  · exact iff_of_true rfl (hfate.mp hstay)
  · exact iff_of_false (by simp) fun h => hstay (hfate.mpr h)

/-- **One sweep** is right exactly if the exchange does not matter for it. -/
theorem eventRight_sweep_iff (ctx : GovernanceContext) :
    EventRight crypto nHash govobj.vinMasternode.prevout pfrom.id ctx₀.adjustedTime s (.sweep ctx)
      ↔ SweepFine govobj.vinMasternode.prevout pfrom.id ctx₀.adjustedTime ctx := by
  have hstays := isOrphan_sweep_iff hneeds hlookup crypto ctx
  have hpenalties : s.orphanPenalties crypto ctx nHash
      = if ctx.adjustedTime ≤ pfrom.id.toInt then []
        else [(Int32.ofInt (ctx₀.adjustedTime + GOVERNANCE_ORPHAN_EXPIRATION_TIME), 20)] := by
    rw [orphanPenalties, hlookup]
    grind [orphanFate, OrphanFate.penalties, orphanInfo]
  rw [EventRight, hpenalties]
  constructor
  · intro hright
    constructor <;> grind
  · rintro ⟨hwaits, hexpires⟩
    grind

end

/-- **The life of an orphan object.** It is as it is meant to be exactly if it does not matter for any
    sweep that peer and time are exchanged. -/
theorem orphan_object_life_iff (crypto : GovernanceCrypto) (ctx : MessageContext)
    (pfrom : GovernancePeer) (govobj : CGovernanceObject) (s : CGovernanceManager)
    (hnew : s.isOrphan (govobj.getHash crypto) = false)
    (hfiled : (s.processObjectMessage crypto ctx pfrom govobj).1.isOrphan (govobj.getHash crypto)
      = true)
    (events : List GovernanceEvent) :
    LifeRight crypto (govobj.getHash crypto) govobj.vinMasternode.prevout pfrom.id ctx.adjustedTime
        (s.processObjectMessage crypto ctx pfrom govobj).1 events
      ↔ SweepsFine govobj.vinMasternode.prevout pfrom.id ctx.adjustedTime events := by
  -- the message has filed the object
  obtain ⟨hneeds, hlookup⟩ : govobj.NeedsMasternode
      ∧ (s.processObjectMessage crypto ctx pfrom govobj).1.mapMasternodeOrphanObjects.lookup
          (govobj.getHash crypto) = some (govobj, orphanInfo ctx.toGovernanceContext pfrom) := by
    rcases filedAtMost_processObjectMessage ctx pfrom govobj s
      with h | ⟨-, hmissing, h⟩
    · rw [isOrphan, h, ← isOrphan, hnew] at hfiled
      simp at hfiled
    · exact ⟨needsMasternode_of_missing hmissing, h ▸ AList.lookup_insert _⟩
  generalize (s.processObjectMessage crypto ctx pfrom govobj).1 = s' at hlookup
  -- induction over the events, with the entry as it was filed
  induction events generalizing s' with
  | nil => exact Iff.rfl
  | cons event rest ih =>
    rw [LifeRight]
    by_cases hevent : ∃ ctx', event = .sweep ctx'
    · obtain ⟨ctx', rfl⟩ := hevent
      have hstays := isOrphan_sweep_iff hneeds hlookup crypto ctx'
      have hafter : (s'.step crypto (.sweep ctx')).isOrphan (govobj.getHash crypto) →
          (s'.step crypto (.sweep ctx')).mapMasternodeOrphanObjects.lookup (govobj.getHash crypto)
            = some (govobj, orphanInfo ctx.toGovernanceContext pfrom) := by
        rw [step, isOrphan, lookup_sweep hlookup]
        split_ifs <;> simp
      rw [eventRight_sweep_iff hneeds hlookup, SweepsFine]
      refine and_congr_right fun hfine => ?_
      have hwaits := hfine.waits
      have hexpires := hfine.expires
      grind
    · have hother : ∀ ctx', event ≠ .sweep ctx' := fun ctx' h => hevent ⟨ctx', h⟩
      have hafter := lookup_step crypto hlookup hother
      have horphan : (s'.step crypto event).isOrphan (govobj.getHash crypto) := by
        rw [isOrphan, hafter, Option.isSome_some]
      have hright : EventRight crypto (govobj.getHash crypto) govobj.vinMasternode.prevout
          pfrom.id ctx.adjustedTime s' event := by
        cases event <;> first | exact horphan | exact absurd rfl (hother _)
      have hsweeps : SweepsFine govobj.vinMasternode.prevout pfrom.id ctx.adjustedTime
          (event :: rest)
            ↔ SweepsFine govobj.vinMasternode.prevout pfrom.id ctx.adjustedTime rest := by
        cases event <;> first | exact Iff.rfl | exact absurd rfl (hother _)
      rw [hsweeps, ← ih _ hafter]
      exact ⟨fun h => h.2 horphan, fun h => ⟨hright, fun _ => h⟩⟩

/-- A node that is synced, at time 10000. -/
def receivingContext : MessageContext where
  toGovernanceContext := noneKnownContext 10000
  fLiteMode := false
  isBlockchainSynced := true
  isMasternodeListSynced := true
  isSynced := true
  masternodeRateCheck _ := (true, false)
  masternodeRateCheckForced _ := true

/-- The manager after an object that it asked for has come from a peer. -/
def orphanManager (idFrom : Int32) : CGovernanceManager :=
  (CGovernanceManager.processObjectMessage trustingCrypto receivingContext ⟨idFrom, 70208⟩
    plainTrigger { setRequestedObjects := [7] }).1

/-- One second after peer 3 has sent the object it is gone, and node 10600 is penalised. -/
theorem orphan_object_gone :
    (orphanManager 3).isOrphan 7 = true
      ∧ ((orphanManager 3).checkMasternodeOrphanObjects trustingCrypto
          (noneKnownContext 10001)).1.isOrphan 7 = false
      ∧ ((orphanManager 3).checkMasternodeOrphanObjects trustingCrypto
          (noneKnownContext 10001)).2 = [(10600, 20)] := by
  decide

/-- From peer 10600, the object waits for ten minutes. -/
theorem orphan_object_life_matching_peer :
    LifeRight trustingCrypto 7 ⟨5, 0⟩ 10600 10000 (orphanManager 10600)
      [.sweep (noneKnownContext 10001), .sweep (noneKnownContext 10601)] := by
  have hiff := orphan_object_life_iff trustingCrypto receivingContext ⟨10600, 70208⟩ plainTrigger
    { setRequestedObjects := [7] } (by decide) (by decide)
    [.sweep (noneKnownContext 10001), .sweep (noneKnownContext 10601)]
  refine hiff.mpr ⟨⟨fun _ => ⟨by decide, fun _ => rfl⟩, fun hlate => ?_⟩, fun _ _ => ?_⟩
  · exact absurd hlate (by decide)
  · refine ⟨⟨fun hearly => ?_, fun _ => ⟨by decide, by decide⟩⟩, fun hearly => ?_⟩
    · exact absurd hearly (by decide)
    · exact absurd hearly (by decide)

end Binarium
