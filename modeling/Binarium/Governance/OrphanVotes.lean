import Binarium.Governance.Convergence
import Binarium.Governance.Manager

set_option autoImplicit false

/-! # Votes that come before their object

A vote for an unknown object is kept for ten minutes. When the object comes, `AddGovernanceObject` puts
a copy of it into `mapObjects` and then hands the votes to the object it was called with, not to the
copy. So the object that the manager holds counts none of them: it counts what it would count if the
votes came later exactly if there are none (`orphan_votes_counted_iff`). -/

namespace Binarium

open Latest Maps List

variable {crypto : GovernanceCrypto} {ctx : GovernanceContext}

/-! ## What is stored -/

/-- The checks of `AddGovernanceObject` for an object that the manager does not have. -/
def CGovernanceManager.admits (crypto : GovernanceCrypto) (ctx : GovernanceContext)
    (s : CGovernanceManager) (govobj : CGovernanceObject) : Bool :=
  let govobj := govobj.updateSentinelVariables ctx
  (govobj.isValidLocally crypto ctx true).fValid && (s.admitObject crypto ctx govobj).1

variable (s : CGovernanceManager) (govobj : CGovernanceObject)

theorem mapObjects_checkOrphanVotes :
    (s.checkOrphanVotes crypto ctx govobj).2.mapObjects = s.mapObjects := by
  obtain ⟨_, _, h⟩ := checkOrphanVotes_frame crypto ctx s govobj
  rw [h]

open CGovernanceManager

theorem lookup_admitObject {s : CGovernanceManager} {nHash : Uint256}
    (hunknown : s.mapObjects.lookup nHash = none) (govobj : CGovernanceObject) :
    (s.admitObject crypto ctx govobj).2.mapObjects.lookup nHash = none := by
  unfold admitObject admitWatchdog updateCurrentWatchdog
  -- the current watchdog that expires is one of the objects, and `nHash` is not
  grind [AList.lookup_insert_ne]

/-- **What the manager stores.** An object that is admitted is stored with its flags updated and with
    the votes it came with. -/
theorem lookup_addGovernanceObject {s : CGovernanceManager} {govobj : CGovernanceObject}
    (hunknown : s.mapObjects.lookup (govobj.getHash crypto) = none) :
    (s.addGovernanceObject crypto ctx govobj).mapObjects.lookup (govobj.getHash crypto)
      = if s.admits crypto ctx govobj then some (govobj.updateSentinelVariables ctx) else none := by
  have hadmit : (s.admitObject crypto ctx (govobj.updateSentinelVariables ctx)).2.mapObjects.lookup
      (govobj.getHash crypto) = none := lookup_admitObject hunknown _
  unfold addGovernanceObject admits
  cases hvalid : ((govobj.updateSentinelVariables ctx).isValidLocally crypto ctx true).fValid with
  | false => simp [hvalid, hunknown]
  | true =>
    simp only [hvalid, hunknown, Bool.not_true, Bool.false_eq_true, if_false, Option.isSome_none]
    rcases hresult : s.admitObject crypto ctx (govobj.updateSentinelVariables ctx)
      with ⟨_ | _, s'⟩
    · simpa [hresult] using hadmit
    · simp only [mapObjects_checkOrphanVotes]
      exact AList.lookup_insert _

/-! ## Objects that take votes -/

/-- `ProcessVote` of the manager turns down votes for objects that are deleted or expired. -/
structure CGovernanceObject.TakesVotes (govobj : CGovernanceObject) : Prop where
  notDeleted : govobj.fCachedDelete = false
  notExpired : govobj.fExpired = false

/-- An object as a message brings it: without votes, neither deleted nor expired. -/
structure CGovernanceObject.New (govobj : CGovernanceObject) : Prop extends govobj.TakesVotes where
  fresh : govobj.Fresh

theorem CGovernanceObject.Fresh.countMatchingVotes {govobj : CGovernanceObject} (h : govobj.Fresh)
    (eSignal : VoteSignal) (eOutcome : VoteOutcome) :
    govobj.countMatchingVotes eSignal eOutcome = 0 := by
  rw [CGovernanceObject.countMatchingVotes, h]
  rfl

/-- No votes are not enough to delete an object. -/
theorem CGovernanceObject.New.updateSentinelVariables {govobj : CGovernanceObject}
    (h : govobj.New) : (govobj.updateSentinelVariables ctx).New := by
  have hquorum : 0 < nGovernanceMinQuorum ctx.net := by cases ctx.net <;> decide
  unfold CGovernanceObject.updateSentinelVariables
  by_cases hcount : ctx.countEnabled = 0
  · rwa [if_pos hcount]
  · rw [if_neg hcount]
    refine ⟨⟨?_, h.notExpired⟩, h.fresh⟩
    simp only [CGovernanceObject.getAbsoluteYesCount, h.fresh.countMatchingVotes, sub_self,
      h.notDeleted, Bool.false_or, decide_eq_false_iff_not, not_le, lt_max_iff]
    exact Or.inl (by exact_mod_cast hquorum)

theorem CGovernanceObject.TakesVotes.processVote {govobj : CGovernanceObject}
    (h : govobj.TakesVotes) (vote : CGovernanceVote) :
    (govobj.processVote crypto ctx vote).govobj.TakesVotes := by
  unfold CGovernanceObject.processVote
  simp only
  split_ifs
  all_goals exact ⟨h.notDeleted, h.notExpired⟩

/-- An acceptable vote is not handed to `AddInvalidVote`. -/
theorem addInvalidVote_processVote {vote : CGovernanceVote} (hvote : vote.Acceptable crypto ctx) :
    (govobj.processVote crypto ctx vote).addInvalidVote = false := by
  unfold CGovernanceObject.processVote
  simp only [hvote.valid, Bool.not_true, Bool.false_eq_true, if_false]
  split_ifs
  all_goals rfl

/-! ## Votes that come after the object -/

/-- Votes reach the manager. -/
def CGovernanceManager.processVotes (crypto : GovernanceCrypto) (arrivals : VoteArrivals)
    (s : CGovernanceManager) : CGovernanceManager :=
  arrivals.foldl (fun s arrival => (s.processVote crypto arrival.1 arrival.2).2) s

/-- **A vote for an object that the manager has** goes to that object. -/
theorem processVote_known {s : CGovernanceManager} {govobj : CGovernanceObject}
    {vote : CGovernanceVote} (hlookup : s.mapObjects.lookup vote.nParentHash = some govobj)
    (htakes : govobj.TakesVotes) (hvote : vote.Acceptable crypto ctx)
    (hnew : s.mapInvalidVotes.hasKey (vote.getHash crypto) = false) :
    (s.processVote crypto ctx vote).2.mapObjects.lookup vote.nParentHash
        = some (govobj.processVote crypto ctx vote).govobj
      ∧ (s.processVote crypto ctx vote).2.mapInvalidVotes = s.mapInvalidVotes := by
  unfold processVote
  simp only [hnew, hlookup, htakes.notDeleted, htakes.notExpired, Bool.or_self, Bool.false_eq_true,
    if_false, addInvalidVote_processVote govobj hvote]
  split
  · exact ⟨AList.lookup_insert _, rfl⟩
  · exact ⟨AList.lookup_insert _, rfl⟩

theorem lookup_processVotes {nHash : Uint256} {arrivals : VoteArrivals}
    (harrivals : ∀ arrival ∈ arrivals, arrival.2.Acceptable crypto arrival.1)
    (hparent : ∀ arrival ∈ arrivals, arrival.2.nParentHash = nHash) :
    ∀ {s : CGovernanceManager} {govobj : CGovernanceObject},
      (∀ arrival ∈ arrivals, s.mapInvalidVotes.hasKey (arrival.2.getHash crypto) = false) →
      s.mapObjects.lookup nHash = some govobj → govobj.TakesVotes → govobj.RateTimesUnset →
      (s.processVotes crypto arrivals).mapObjects.lookup nHash
        = some (runVotes crypto arrivals govobj) := by
  induction arrivals with
  | nil => exact fun _ hlookup _ _ => hlookup
  | cons arrival rest ih =>
    intro s govobj hnew hlookup htakes hunset
    rw [forall_mem_cons] at harrivals hparent hnew
    obtain ⟨hafter, hinvalid⟩ :=
      processVote_known (hparent.1 ▸ hlookup) htakes harrivals.1 hnew.1
    rw [hparent.1] at hafter
    exact ih harrivals.2 hparent.2 (by rw [hinvalid]; exact hnew.2) hafter (htakes.processVote _)
      (rateTimesUnset_processVote hunset harrivals.1)

/-! ## Votes that came before -/

/-- The votes for an object that came before it and have not expired. -/
def CGovernanceManager.keptVotes (ctx : GovernanceContext) (nHash : Uint256) :
    List CGovernanceVote :=
  ((s.mapOrphanVotes.getAll nHash).filter fun pairVote =>
    !decide (pairVote.2 < ctx.adjustedTime)).map Prod.fst

variable (nHash : Uint256)

/-- The manager of a node that the votes for an object have not reached. -/
def CGovernanceManager.withoutOrphanVotes : CGovernanceManager :=
  { s with
    mapOrphanVotes :=
      { nMaxSize := s.mapOrphanVotes.nMaxSize
        listItems := s.mapOrphanVotes.listItems.filter fun item => !decide (item.1 = nHash)
        distinct := s.mapOrphanVotes.distinct.sublist List.filter_sublist } }

/-- The tally of an object that the manager has. -/
def CGovernanceManager.tally (eSignal : VoteSignal) (eOutcome : VoteOutcome) : Option ℕ :=
  (s.mapObjects.lookup nHash).map fun govobj => govobj.countMatchingVotes eSignal eOutcome

theorem admitObject_fst : (s.admitObject crypto ctx govobj).1
      ↔ govobj.nObjectType = GOVERNANCE_OBJECT_WATCHDOG →
        ¬ (govobj.nTime < ctx.adjustedTime - GOVERNANCE_WATCHDOG_EXPIRATION_TIME
            ∨ govobj.nTime > ctx.adjustedTime + GOVERNANCE_WATCHDOG_EXPIRATION_TIME)
          ∧ s.isBetterWatchdog crypto ctx govobj := by
  unfold admitObject admitWatchdog updateCurrentWatchdog
  split_ifs with hwatchdog htime hbetter <;> simp_all

/-- Whether an object is admitted does not depend on the orphan votes. -/
theorem admits_withoutOrphanVotes (govobj : CGovernanceObject) :
    (s.withoutOrphanVotes nHash).admits crypto ctx govobj = s.admits crypto ctx govobj := by
  have hadmit : ((s.withoutOrphanVotes nHash).admitObject crypto ctx
        (govobj.updateSentinelVariables ctx)).1
      = (s.admitObject crypto ctx (govobj.updateSentinelVariables ctx)).1 := by
    rw [Bool.eq_iff_iff, admitObject_fst, admitObject_fst]
    rfl
  simp only [admits, hadmit]

theorem getAll_withoutOrphanVotes :
    (s.withoutOrphanVotes nHash).mapOrphanVotes.getAll nHash = [] := by
  simp [CacheMultiMap.getAll, withoutOrphanVotes, filter_filter]

theorem getHash_updateSentinelVariables :
    (govobj.updateSentinelVariables ctx).getHash crypto = govobj.getHash crypto := by
  unfold CGovernanceObject.updateSentinelVariables
  simp only
  split_ifs
  all_goals rfl

/-- Without orphan votes for the object, no vote is found to be invalid. -/
theorem mapInvalidVotes_addGovernanceObject :
    ((s.withoutOrphanVotes (govobj.getHash crypto)).addGovernanceObject crypto ctx
      govobj).mapInvalidVotes = s.mapInvalidVotes := by
  obtain ⟨mapObjects, nHash, nTime, hadmit⟩ := admitObject_frame crypto ctx
    (s.withoutOrphanVotes (govobj.getHash crypto)) (govobj.updateSentinelVariables ctx)
  rcases addGovernanceObject_cases crypto ctx (s.withoutOrphanVotes (govobj.getHash crypto)) govobj
    with h | h | h
  · rw [h]
    rfl
  · rw [h, hadmit]
    rfl
  · rw [h, hadmit, checkOrphanVotes, getHash_updateSentinelVariables]
    simp only [storeObject]
    rw [getAll_withoutOrphanVotes s (govobj.getHash crypto)]
    rfl

/-- **Votes that come before their object are lost.** Take an object that the manager accepts and the
    valid votes for it that came before and are still kept. The object in `mapObjects` has the tallies
    that it has when the same votes come after the object exactly if there are no such votes. -/
theorem orphan_votes_counted_iff (crypto : GovernanceCrypto) (ctx : GovernanceContext)
    (s : CGovernanceManager) (govobj : CGovernanceObject) (arrivals : VoteArrivals)
    (hnew : govobj.New)
    (hunknown : s.mapObjects.lookup (govobj.getHash crypto) = none)
    (haccepts : ((s.addGovernanceObject crypto ctx govobj).mapObjects.lookup
      (govobj.getHash crypto)).isSome = true)
    (hkept : arrivals.map Prod.snd = s.keptVotes ctx (govobj.getHash crypto))
    (hvalid : ∀ arrival ∈ arrivals, arrival.2.Acceptable crypto arrival.1)
    (hparent : ∀ arrival ∈ arrivals, arrival.2.nParentHash = govobj.getHash crypto)
    (hnotInvalid : ∀ arrival ∈ arrivals,
      s.mapInvalidVotes.hasKey (arrival.2.getHash crypto) = false) :
    (∀ eSignal eOutcome,
        (s.addGovernanceObject crypto ctx govobj).tally (govobj.getHash crypto) eSignal eOutcome
          = (((s.withoutOrphanVotes (govobj.getHash crypto)).addGovernanceObject crypto ctx
              govobj).processVotes crypto arrivals).tally (govobj.getHash crypto) eSignal eOutcome)
      ↔ s.keptVotes ctx (govobj.getHash crypto) = [] := by
  have hadmits : s.admits crypto ctx govobj := by
    by_contra hnot
    simp [lookup_addGovernanceObject hunknown, if_neg hnot] at haccepts
  have hstored : (s.addGovernanceObject crypto ctx govobj).mapObjects.lookup (govobj.getHash crypto)
      = some (govobj.updateSentinelVariables ctx) := by
    rw [lookup_addGovernanceObject hunknown, if_pos hadmits]
  have hstored' : ((s.withoutOrphanVotes (govobj.getHash crypto)).addGovernanceObject crypto ctx
      govobj).mapObjects.lookup (govobj.getHash crypto)
        = some (govobj.updateSentinelVariables ctx) := by
    rw [lookup_addGovernanceObject (by exact hunknown), admits_withoutOrphanVotes, if_pos hadmits]
  have hnew' : (govobj.updateSentinelVariables ctx).New := hnew.updateSentinelVariables
  have hafter := lookup_processVotes hvalid hparent (by rwa [mapInvalidVotes_addGovernanceObject])
    hstored' hnew'.toTakesVotes hnew'.fresh.rateTimesUnset
  simp only [tally, hstored, hafter, Option.map_some, Option.some.injEq,
    hnew'.fresh.countMatchingVotes, ← hkept]
  constructor
  · intro hsame
    cases arrivals with
    | nil => rfl
    | cons arrival rest =>
      -- the first vote leaves an instance, so its masternode is counted for some outcome
      have hinstance := instance?_runVotes_of_mem hnew'.fresh hvalid
        (show arrival.2 ∈ (arrival :: rest).map Prod.snd from mem_cons_self)
      have hcounted := (mem_voters (runVotes crypto (arrival :: rest)
        (govobj.updateSentinelVariables ctx)) arrival.2.group.2 _ arrival.2.group.1).mpr
        (congrArg (Option.map VoteInstance.eOutcome) hinstance)
      have hpos := Finset.card_pos.mpr ⟨_, hcounted⟩
      rw [← card_voters, ← hsame] at hpos
      exact absurd hpos (lt_irrefl 0)
  · intro hnil eSignal eOutcome
    rw [map_eq_nil_iff.mp hnil]
    exact (hnew'.fresh.countMatchingVotes eSignal eOutcome).symm

/-- The manager after a yes for an object that it does not have. -/
def earlyVoteManager : CGovernanceManager :=
  ({} : CGovernanceManager).processVotes trustingCrypto [(allKnownContext, fundingVote 1 9500)]

/-- The vote is kept, but the object is stored without it; after the object it is counted. -/
theorem early_vote_lost :
    earlyVoteManager.keptVotes allKnownContext 7 = [fundingVote 1 9500]
      ∧ (earlyVoteManager.addGovernanceObject trustingCrypto allKnownContext plainTrigger).tally 7
          .funding .yes = some 0
      ∧ (((earlyVoteManager.withoutOrphanVotes 7).addGovernanceObject trustingCrypto allKnownContext
          plainTrigger).processVotes trustingCrypto [(allKnownContext, fundingVote 1 9500)]).tally 7
          .funding .yes = some 1 := by
  decide

/-- The tallies of that object differ. -/
theorem orphan_votes_counted_early :
    ¬ ∀ eSignal eOutcome,
      (earlyVoteManager.addGovernanceObject trustingCrypto allKnownContext plainTrigger).tally 7 eSignal
          eOutcome
        = (((earlyVoteManager.withoutOrphanVotes 7).addGovernanceObject trustingCrypto allKnownContext
            plainTrigger).processVotes trustingCrypto [(allKnownContext, fundingVote 1 9500)]).tally 7
            eSignal eOutcome := by
  have hvote : (fundingVote 1 9500).Acceptable trustingCrypto allKnownContext :=
    ⟨by decide, by decide, by decide, by decide⟩
  have hiff := orphan_votes_counted_iff trustingCrypto allKnownContext earlyVoteManager plainTrigger
    [(allKnownContext, fundingVote 1 9500)] ⟨⟨rfl, rfl⟩, rfl⟩ (by decide) (by decide) (by decide)
    (by simpa using hvote) (by simp; rfl) (by decide)
  intro hsame
  exact absurd (hiff.mp hsame) (by decide)

end Binarium
