import Binarium.Governance.OrphanSweep

set_option autoImplicit false

/-! # What `ProcessVote` leaves in an object

`ProcessVote` of an object finds or makes an instance for the masternode and the signal of a vote, then
looks at the vote (`accepts_iff`, `instance?_after`). The time that the rate limit is measured from is
handed on as it was found: `nVoteTimeUpdate` is set to the present only before a `return`. So the limit
is measured from the time in the object that the votes came to first (`votes_spaced_iff`). And the new
instance of a vote that is rejected stays, with no outcome: `GetCurrentVotes` reports it
(`rejected_vote_untraced_iff`). -/

namespace Binarium

open CGovernanceObject CGovernanceVote List Option

variable (crypto : GovernanceCrypto) (ctx : GovernanceContext) (govobj : CGovernanceObject)
  (vote : CGovernanceVote)

/-! ## The rate limit -/

/-- The time that the rate limit is measured from stays what it was. -/
theorem nTime_held_processVote (group : COutPoint × VoteSignal) :
    ((govobj.processVote crypto ctx vote).govobj.held group).nTime = (govobj.held group).nTime := by
  rw [held, instance?_after]
  grind [held]

theorem nTime_held_runVotes (arrivals : VoteArrivals) (group : COutPoint × VoteSignal) :
    ((runVotes crypto arrivals govobj).held group).nTime = (govobj.held group).nTime := by
  induction arrivals generalizing govobj with
  | nil => rfl
  | cons arrival rest ih =>
    exact (ih _).trans (nTime_held_processVote crypto arrival.1 govobj arrival.2 group)

/-- Any two votes of a run with the same masternode and signal that pass a test of the votes before them
    are `GOVERNANCE_UPDATE_MIN` apart. -/
def Spaced (arrivals : VoteArrivals)
    (test : VoteArrivals → GovernanceContext × CGovernanceVote → Prop) : Prop :=
  ∀ earlier first between second later, arrivals = earlier ++ first :: (between ++ second :: later) →
    first.2.group = second.2.group → test earlier first → test (earlier ++ first :: between) second →
    first.1.adjustedTime + GOVERNANCE_UPDATE_MIN ≤ second.1.adjustedTime

/-- The vote has no fault for the object. -/
def CGovernanceObject.Faultless (arrival : GovernanceContext × CGovernanceVote) : Prop :=
  ¬ govobj.HasFault crypto arrival.1 arrival.2

/-- The vote has no fault for the object, and is not older than the faultless votes of its group that
    came before it. -/
def CGovernanceObject.InOrder (before : VoteArrivals) (arrival : GovernanceContext × CGovernanceVote) :
    Prop :=
  govobj.Faultless crypto arrival ∧ ∀ other ∈ before, other.2.group = arrival.2.group →
    govobj.Faultless crypto other → other.2.nTime ≤ arrival.2.nTime

theorem faultless_iff (arrival : GovernanceContext × CGovernanceVote) :
    govobj.Faultless crypto arrival ↔ govobj.accepts crypto arrival.1 arrival.2 = true := by
  rw [CGovernanceObject.Faultless, ← accepts_eq_false_iff, Bool.not_eq_false]

/-- The time of the instance that a run leaves is the latest of the faultless votes. -/
def CGovernanceObject.HoldsLatest (before : VoteArrivals) : Prop :=
  ∀ group t, ((runVotes crypto before govobj).held group).nCreationTime ≤ t
    ↔ (govobj.held group).nCreationTime ≤ t ∧ ∀ other ∈ before, other.2.group = group →
      govobj.Faultless crypto other → other.2.nTime ≤ t

variable {crypto govobj}

/-- The votes before a vote count for it by the time of the latest one only. -/
theorem CGovernanceObject.HoldsLatest.accepts_runVotes_iff {before : VoteArrivals}
    (h : govobj.HoldsLatest crypto before) (arrival : GovernanceContext × CGovernanceVote) :
    (runVotes crypto before govobj).accepts crypto arrival.1 arrival.2 = true
      ↔ govobj.InOrder crypto before arrival := by
  rw [InOrder, faultless_iff, accepts_iff, accepts_iff, nTime_held_runVotes,
    passesOthers, passesOthers]
  simp only [Bool.and_eq_true, decide_eq_true_eq, h arrival.2.group]
  tauto

variable (crypto govobj)

theorem holdsLatest (before : VoteArrivals) : govobj.HoldsLatest crypto before := by
  induction before using reverseRecOn with
  | nil => simp [HoldsLatest, runVotes]
  | append_singleton before last ih =>
    intro group t
    have hrun : runVotes crypto (before ++ [last]) govobj
        = ((runVotes crypto before govobj).processVote crypto last.1 last.2).govobj := by
      simp [runVotes]
    have hlast : (govobj.held group).nCreationTime ≤ t ∧ (∀ other ∈ before ++ [last],
          other.2.group = group → govobj.Faultless crypto other → other.2.nTime ≤ t)
        ↔ ((runVotes crypto before govobj).held group).nCreationTime ≤ t
          ∧ (last.2.group = group → govobj.Faultless crypto last → last.2.nTime ≤ t) := by
      rw [ih group t]
      simp only [mem_append, mem_singleton, or_imp, forall_and, forall_eq, and_assoc]
    -- a vote that is not accepted is no later than the instance
    have hrejected : govobj.Faultless crypto last →
        ¬ (runVotes crypto before govobj).accepts crypto last.1 last.2 = true →
        last.2.nTime < ((runVotes crypto before govobj).held last.2.group).nCreationTime := by
      intro hfaultless hnot
      rw [ih.accepts_runVotes_iff] at hnot
      exact not_le.mp fun hle => hnot ⟨hfaultless, ((ih _ _).mp hle).2⟩
    have haccepted := fun h => (accepts_iff crypto last.1 (runVotes crypto before govobj)
      last.2).mp h
    have hinstance : govobj.Faultless crypto last → last.2.hasInstance last.1 := by
      rw [faultless_iff, accepts_iff, passesOthers]
      grind
    have hfaultless : (runVotes crypto before govobj).accepts crypto last.1 last.2 = true →
        govobj.Faultless crypto last := fun h => ((ih.accepts_runVotes_iff last).mp h).1
    rw [hlast, hrun, held, instance?_after]
    grind [passesOthers, held]

/-- **The rate limit does not see the votes.** The accepted votes of a masternode for a signal are an
    hour apart exactly if they come an hour apart: all votes that have no fault for the object as it was
    before the first of them, and are not older than such votes before them. -/
theorem votes_spaced_iff (crypto : GovernanceCrypto) (govobj : CGovernanceObject)
    (arrivals : VoteArrivals) :
    Spaced arrivals (fun before arrival =>
        (runVotes crypto before govobj).accepts crypto arrival.1 arrival.2 = true)
      ↔ Spaced arrivals (govobj.InOrder crypto) := by
  simp only [(holdsLatest crypto govobj _).accepts_runVotes_iff]

/-- Two votes of one masternode for one signal that come at the same moment are accepted. -/
theorem votes_not_spaced :
    ¬ Spaced
      [(allKnownContext, fundingVote 1 9500), (allKnownContext, fundingVote 2 9501)]
      (fun before arrival =>
        (runVotes trustingCrypto before plainTrigger).accepts trustingCrypto arrival.1 arrival.2
          = true) := by
  intro h
  exact absurd (h [] _ [] _ [] rfl (by decide) (by decide) (by decide)) (by decide)

/-! ## Votes that are rejected -/

/-- `int(eOutcome)`. -/
def VoteOutcome.toInt32 : VoteOutcome → Int32
  | .none => 0
  | .yes => 1
  | .no => 2
  | .abstain => 3
  | .other n => n

/-- What `GetCurrentVotes` makes of the instances of a masternode. There are instances for supported
    signals only, and the map has them in this order. -/
def CGovernanceObject.currentVotes (nParentHash : Uint256) (masternode : COutPoint) :
    List CGovernanceVote :=
  ([1, 2, 3, 4] : List Int32).filterMap fun nVoteSignal =>
    (govobj.instance? masternode (.ofInt32 nVoteSignal)).map fun voteInstance =>
      { nVoteSignal
        vinMasternode := { prevout := masternode, scriptSig := [], nSequence := 0xffffffff }
        nParentHash
        nVoteOutcome := voteInstance.eOutcome.toInt32
        nTime := voteInstance.nCreationTime
        vchSig := [] }

/-- `CGovernanceManager::GetCurrentVotes`, with the outpoints of `mnodeman.GetFullMasternodeMap()`. -/
def CGovernanceManager.getCurrentVotes (s : CGovernanceManager) (mapMasternodes : List COutPoint)
    (nParentHash : Uint256) (mnCollateralOutpointFilter : COutPoint) : List CGovernanceVote :=
  match s.mapObjects.lookup nParentHash with
  | none => []
  | some govobj =>
    (if mnCollateralOutpointFilter.isNull then mapMasternodes
      else mapMasternodes.filter (· = mnCollateralOutpointFilter)).flatMap
        (govobj.currentVotes nParentHash)

/-- `ProcessVote` of an object of the manager leaves no trace of a vote: `GetCurrentVotes` reports the
    same votes for the object as before, and the tallies are the same. -/
def CGovernanceManager.Untraced (s : CGovernanceManager) (mapMasternodes : List COutPoint)
    (nHash : Uint256) : Prop :=
  (∀ mnCollateralOutpointFilter,
    ({ s with
        mapObjects := s.mapObjects.insert nHash (govobj.processVote crypto ctx vote).govobj } :
      CGovernanceManager).getCurrentVotes mapMasternodes nHash mnCollateralOutpointFilter
    = s.getCurrentVotes mapMasternodes nHash mnCollateralOutpointFilter)
  ∧ ∀ eSignal, ∀ eOutcome ≠ .none,
    (govobj.processVote crypto ctx vote).govobj.countMatchingVotes eSignal eOutcome
      = govobj.countMatchingVotes eSignal eOutcome

theorem exists_reported (mapMasternodes : List COutPoint) (nHash : Uint256)
    (group : COutPoint × VoteSignal) :
    (∃ report ∈ mapMasternodes.flatMap (govobj.currentVotes nHash), report.group = group)
      ↔ group.1 ∈ mapMasternodes ∧ group.2 ∈ ([1, 2, 3, 4] : List Int32).map .ofInt32
        ∧ (govobj.instance? group.1 group.2).isSome := by
  constructor
  · rintro ⟨report, hreport, rfl⟩
    obtain ⟨masternode, hlisted, hreport⟩ := mem_flatMap.mp hreport
    obtain ⟨nVoteSignal, hsignal, hreport⟩ := mem_filterMap.mp hreport
    obtain ⟨voteInstance, hinstance, rfl⟩ := map_eq_some_iff.mp hreport
    exact ⟨hlisted, mem_map_of_mem hsignal, isSome_iff_exists.mpr ⟨_, hinstance⟩⟩
  · rintro ⟨hlisted, hsignal, hinstance⟩
    obtain ⟨nVoteSignal, hmem, hsignal⟩ := mem_map.mp hsignal
    obtain ⟨voteInstance, hinstance⟩ := isSome_iff_exists.mp hinstance
    refine ⟨_, mem_flatMap.mpr ⟨_, hlisted, mem_filterMap.mpr ⟨nVoteSignal, hmem,
      map_eq_some_iff.mpr ⟨voteInstance, ?_, rfl⟩⟩⟩, Prod.ext rfl hsignal⟩
    rw [hsignal, hinstance]

theorem mem_supported {eSignal : VoteSignal} (hsignal : eSignal ≠ .none)
    (hsupported : eSignal.unsupported = false) :
    eSignal ∈ ([1, 2, 3, 4] : List Int32).map .ofInt32 := by
  cases eSignal with
  | none => exact absurd rfl hsignal
  | other n => simp [VoteSignal.unsupported] at hsupported
  | funding | valid | delete | endorsed => decide

/-- **A vote that is rejected leaves a trace** exactly if it is of a known masternode, for a supported
    signal, and the masternode has no instance for the signal yet. -/
theorem rejected_vote_untraced_iff (crypto : GovernanceCrypto) (ctx : GovernanceContext)
    (s : CGovernanceManager) (nHash : Uint256) (govobj : CGovernanceObject) (vote : CGovernanceVote)
    (mapMasternodes : List COutPoint)
    (hlisted : ∀ o, o ∈ mapMasternodes ↔ (ctx.getMasternodeInfo o).isSome = true)
    (hlookup : s.mapObjects.lookup nHash = some govobj)
    (hrejected : govobj.accepts crypto ctx vote = false) :
    CGovernanceManager.Untraced crypto ctx govobj vote s mapMasternodes nHash
      ↔ vote.hasInstance ctx = true →
        (govobj.instance? vote.group.1 vote.group.2).isSome = true := by
  unfold CGovernanceManager.Untraced
  have hafter := instance?_after crypto ctx govobj vote
  simp only [hrejected, Bool.false_eq_true, if_false] at hafter
  generalize (govobj.processVote crypto ctx vote).govobj = after at hafter ⊢
  simp only [CGovernanceManager.getCurrentVotes, AList.lookup_insert, hlookup]
  constructor
  · rintro ⟨hreported, -⟩ hinstance
    -- the instance that was found or made is reported, since the masternode is listed
    have hmade := hafter vote.group
    rw [if_pos ⟨hinstance, rfl⟩] at hmade
    simp only [hasInstance, Bool.and_eq_true, bne_iff_ne, Bool.not_eq_true'] at hinstance
    obtain ⟨⟨hknown, hsignal⟩, hsupported⟩ := hinstance
    have hreport := (exists_reported after mapMasternodes nHash vote.group).mpr
      ⟨(hlisted _).mpr hknown, mem_supported hsignal hsupported, by rw [hmade]; rfl⟩
    have hall := hreported ⟨0, 0xffffffff⟩
    rw [if_pos (by decide)] at hall
    rw [hall] at hreport
    exact ((exists_reported ..).mp hreport).2.2
  · intro hold
    have hsame : ∀ masternode eSignal,
        after.instance? masternode eSignal = govobj.instance? masternode eSignal := by
      intro masternode eSignal
      rw [hafter (masternode, eSignal)]
      split_ifs with hgroup
      · obtain ⟨voteInstance, hfound⟩ := isSome_iff_exists.mp (hold hgroup.1)
        obtain ⟨rfl, rfl⟩ := Prod.ext_iff.mp hgroup.2
        simp [held, hfound]
      · rfl
    refine ⟨fun _ => ?_, fun eSignal eOutcome _ => countMatchingVotes_congr (fun masternode => ?_) _⟩
    · unfold currentVotes
      simp only [hsame]
    · simp [countedOutcome, hsame]

/-- A node that knows the masternode of `fundingVote` only. -/
def oneKnownContext : GovernanceContext :=
  { allKnownContext with getMasternodeInfo := fun o => if o = ⟨5, 0⟩ then some [] else none }

/-- A scheme in which no signature passes. -/
def distrustingCrypto : GovernanceCrypto :=
  { trustingCrypto with verifyMessage := fun _ _ _ => false }

/-- The manager with one object. -/
def objectManager (govobj : CGovernanceObject) : CGovernanceManager :=
  { mapObjects := (∅ : AList fun _ : Uint256 => CGovernanceObject).insert 7 govobj }

/-- An object with a vote. -/
def votedTrigger : CGovernanceObject :=
  (plainTrigger.processVote trustingCrypto oneKnownContext (fundingVote 1 9500)).govobj

/-- A vote that is older than the one of its masternode leaves no trace. -/
theorem rejected_vote_untraced_obsolete :
    CGovernanceManager.Untraced trustingCrypto oneKnownContext votedTrigger (fundingVote 2 9400)
      (objectManager votedTrigger) [⟨5, 0⟩] 7 := by
  have hlisted : ∀ o, o ∈ [(⟨5, 0⟩ : COutPoint)]
      ↔ (oneKnownContext.getMasternodeInfo o).isSome := by
    grind [oneKnownContext]
  exact (rejected_vote_untraced_iff trustingCrypto oneKnownContext (objectManager votedTrigger) 7
    votedTrigger (fundingVote 2 9400) [⟨5, 0⟩] hlisted (AList.lookup_insert _) (by decide)).mpr
      fun _ => by decide

/-- A vote with a bad signature is reported as a vote without an outcome. -/
theorem forged_vote_traced :
    plainTrigger.accepts distrustingCrypto oneKnownContext (fundingVote 1 9500) = false
      ∧ ¬ CGovernanceManager.Untraced distrustingCrypto oneKnownContext plainTrigger
        (fundingVote 1 9500) (objectManager plainTrigger) [⟨5, 0⟩] 7 :=
  ⟨by decide, fun h => absurd (h.1 ⟨5, 0⟩) (by decide)⟩

end Binarium
