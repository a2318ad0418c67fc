import Binarium.Governance.Tally

set_option autoImplicit false

/-! # Nodes that get the same votes

Votes on an object reach the nodes of the network in different orders. What a node counts for a
masternode and a signal is a latest of the votes, and of votes with the same time the one that came
last. Nodes therefore agree exactly if votes with the same latest time have the same outcome
(`tallies_converge_iff`). A vote from before time 0 counts for nothing. -/

namespace Binarium

open Latest CGovernanceVote CGovernanceObject List

/-- The votes reach a node in some order, and each is acceptable when it does. -/
structure Receives (crypto : GovernanceCrypto) (votes : List CGovernanceVote)
    (arrivals : VoteArrivals) : Prop where
  perm : (arrivals.map Prod.snd).Perm votes
  acceptable : ∀ arrival ∈ arrivals, arrival.2.Acceptable crypto arrival.1

/-- The time settles which vote of a group is counted: from time 0 on the latest votes agree on the
    outcome, and before that one of them has the outcome of an empty instance. -/
def LatestDecide (votes : List CGovernanceVote) : Prop :=
  ∀ vote, IsLatest CGovernanceVote.group CGovernanceVote.nTime votes vote →
    (0 ≤ vote.nTime → ∀ other, IsLatest CGovernanceVote.group CGovernanceVote.nTime votes other →
      other.group = vote.group → other.getOutcome = vote.getOutcome)
    ∧ (vote.nTime < 0 → ∃ other, IsLatest CGovernanceVote.group CGovernanceVote.nTime votes other
        ∧ other.group = vote.group ∧ other.getOutcome = .none)

section

variable {crypto : GovernanceCrypto} {votes : List CGovernanceVote}

theorem Receives.isLatest_iff {arrivals : VoteArrivals} (h : Receives crypto votes arrivals)
    (vote : CGovernanceVote) :
    IsLatest group nTime (arrivals.map Prod.snd) vote
      ↔ IsLatest group nTime votes vote :=
  isLatest_congr _ _ (fun _ => h.perm.mem_iff) vote

theorem exists_receives (hvalid : ∀ vote ∈ votes, ∃ ctx, vote.Acceptable crypto ctx)
    {order : List CGovernanceVote} (hperm : order.Perm votes) :
    ∃ arrivals, Receives crypto votes arrivals ∧ arrivals.map Prod.snd = order := by
  choose ctx hctx using hvalid
  refine ⟨order.pmap (fun vote hvote => (ctx vote hvote, vote)) fun _ => hperm.mem_iff.mp, ⟨?_, ?_⟩, ?_⟩
  · simpa [map_pmap] using hperm
  · simp only [mem_pmap]
    rintro _ ⟨vote, hvote, rfl⟩
    exact hctx vote _
  · simp [map_pmap]

variable {govobj : CGovernanceObject} (hfresh : govobj.Fresh)

include hfresh

/-- Where the time settles it, what is counted does not depend on the order. -/
theorem countedOutcome_eq_of_latestDecide (hdecide : LatestDecide votes) {as bs : VoteArrivals}
    (has : Receives crypto votes as) (hbs : Receives crypto votes bs)
    (group : COutPoint × VoteSignal) :
    (runVotes crypto as govobj).countedOutcome group.1 group.2
      = (runVotes crypto bs govobj).countedOutcome group.1 group.2 := by
  obtain ⟨outcome, hall⟩ : ∃ outcome, ∀ arrivals, Receives crypto votes arrivals →
      (runVotes crypto arrivals govobj).countedOutcome group.1 group.2 = outcome := by
    by_cases hnone : ∀ vote ∈ votes, vote.group ≠ group
    · refine ⟨none, fun arrivals h => ?_⟩
      rw [countedOutcome, instance?_runVotes_of_none hfresh h.acceptable fun vote hvote =>
        hnone vote (h.perm.mem_iff.mp hvote)]
      rfl
    · push Not at hnone
      obtain ⟨vote, hvote, rfl⟩ := hnone
      obtain ⟨latest, -, hgroup, hlatest⟩ := exists_latest_held CGovernanceVote.group nTime hvote
      rw [← hgroup]
      by_cases htime : 0 ≤ latest.nTime
      · refine ⟨some latest.getOutcome, fun arrivals h => ?_⟩
        obtain ⟨held, hheld, hsame, hcount⟩ := countedOutcome_runVotes hfresh h.acceptable
          ((h.isLatest_iff latest).mpr hlatest) htime
        rw [hcount, (hdecide latest hlatest).1 htime held ((h.isLatest_iff held).mp hheld) hsame]
      · exact ⟨some .none, fun arrivals h => countedOutcome_runVotes_of_neg hfresh h.acceptable
          ((h.isLatest_iff latest).mpr hlatest) (not_le.mp htime)⟩
  rw [hall as has, hall bs hbs]

theorem countedOutcome_congr {as bs : VoteArrivals} (has : Receives crypto votes as)
    (hbs : Receives crypto votes bs) {group : COutPoint × VoteSignal}
    (hinstances : groupInstances (as.map Prod.snd) group = groupInstances (bs.map Prod.snd) group) :
    (runVotes crypto as govobj).countedOutcome group.1 group.2
      = (runVotes crypto bs govobj).countedOutcome group.1 group.2 := by
  rw [countedOutcome, countedOutcome, instance?_runVotes has.acceptable group hfresh.rateTimesUnset,
    instance?_runVotes hbs.acceptable group hfresh.rateTimesUnset, hinstances]

/-- Of two latest votes with different outcomes, the one that comes last is counted. -/
theorem tally_differs (hvalid : ∀ vote ∈ votes, ∃ ctx, vote.Acceptable crypto ctx)
    {vote other : CGovernanceVote} (hvote : IsLatest group nTime votes vote)
    (hother : IsLatest group nTime votes other)
    (hgroup : other.group = vote.group) (htime : 0 ≤ vote.nTime)
    (hdiffer : other.getOutcome ≠ vote.getOutcome) :
    ∃ as bs, Receives crypto votes as ∧ Receives crypto votes bs
      ∧ (runVotes crypto as govobj).countMatchingVotes vote.getSignal vote.getOutcome
        = (runVotes crypto bs govobj).countMatchingVotes vote.getSignal vote.getOutcome + 1 := by
  have hne : other ≠ vote := fun h => hdiffer (h ▸ rfl)
  have hmem : other ∈ votes.erase vote := (mem_erase_of_ne hne).mpr hother.1
  let rest := (votes.erase vote).erase other
  have hperm : (vote :: other :: rest).Perm votes :=
    ((perm_cons_erase hmem).symm.cons vote).trans (perm_cons_erase hvote.1).symm
  have hend : ∀ a b : CGovernanceVote, (rest ++ [a] ++ [b]).Perm (b :: a :: rest) := fun a b =>
    (perm_append_singleton _ _).trans ((perm_append_singleton _ _).cons b)
  obtain ⟨as, has, hmap⟩ := exists_receives hvalid ((hend other vote).trans hperm)
  obtain ⟨bs, hbs, hmap'⟩ := exists_receives hvalid
    ((hend vote other).trans ((List.Perm.swap vote other rest).trans hperm))
  have htime' : 0 ≤ other.nTime := le_trans htime (hother.2 vote hvote.1 hgroup.symm)
  have hcounted := countedOutcome_runVotes_last hfresh has.acceptable
    ((has.isLatest_iff vote).mpr hvote) hmap htime
  have hcounted' := countedOutcome_runVotes_last hfresh hbs.acceptable
    ((hbs.isLatest_iff other).mpr hother) hmap' htime'
  rw [hgroup] at hcounted'
  refine ⟨as, bs, has, hbs, countMatchingVotes_succ hcounted ?_ fun masternode hmasternode => ?_⟩
  · exact fun heq => hdiffer (Option.some.inj (hcounted'.symm.trans heq))
  · -- both votes are filed under the same masternode
    have hskip : ∀ v : CGovernanceVote, v.group = vote.group →
        decide (v.group = (masternode, vote.getSignal)) = false := fun v hv =>
      decide_eq_false fun h => hmasternode (Prod.ext_iff.mp (hv.symm.trans h)).1.symm
    have hinstances : groupInstances (as.map Prod.snd) (masternode, vote.getSignal)
        = groupInstances (bs.map Prod.snd) (masternode, vote.getSignal) := by
      simp only [groupInstances, hmap, hmap', filter_append, filter_cons,
        hskip vote rfl, hskip other hgroup, Bool.false_eq_true, if_false]
    exact countedOutcome_congr hfresh has hbs hinstances

end

/-- **When nodes agree on the tallies.** Nodes that get the same valid votes on an object, each in its
    own order, end up with the same tally for every signal and outcome, where a masternode counts with
    the outcome of a latest of its votes, exactly if the time of the votes settles which one that
    is. -/
theorem tallies_converge_iff (crypto : GovernanceCrypto) (govobj : CGovernanceObject)
    (votes : List CGovernanceVote) (hfresh : govobj.Fresh)
    (hvalid : ∀ vote ∈ votes, ∃ ctx, vote.Acceptable crypto ctx) :
    (∀ as bs, Receives crypto votes as → Receives crypto votes bs →
        (∀ eSignal eOutcome, (runVotes crypto as govobj).countMatchingVotes eSignal eOutcome
          = (runVotes crypto bs govobj).countMatchingVotes eSignal eOutcome)
        ∧ ∀ vote ∈ votes, ∃ latest, IsLatest group nTime votes latest
            ∧ latest.group = vote.group
            ∧ (runVotes crypto as govobj).countedOutcome vote.getMasternodeOutpoint vote.getSignal
              = some latest.getOutcome)
      ↔ LatestDecide votes := by
  constructor
  · intro hconverge vote hvote
    refine ⟨fun htime other hother hgroup => ?_, fun htime => ?_⟩
    · by_contra hdiffer
      obtain ⟨as, bs, has, hbs, hcount⟩ :=
        tally_differs hfresh hvalid hvote hother hgroup htime hdiffer
      have := (hconverge as bs has hbs).1 vote.getSignal vote.getOutcome
      omega
    · obtain ⟨as, has, -⟩ := exists_receives hvalid (List.Perm.refl votes)
      obtain ⟨latest, hlatest, hgroup, hcount⟩ := (hconverge as as has has).2 vote hvote.1
      have hneg := countedOutcome_runVotes_of_neg hfresh has.acceptable
        ((has.isLatest_iff vote).mpr hvote) htime
      exact ⟨latest, hlatest, hgroup, Option.some.inj (hcount.symm.trans hneg)⟩
  · intro hdecide as bs has hbs
    refine ⟨fun eSignal => ?_, fun vote hvote => ?_⟩
    · exact countMatchingVotes_congr fun masternode =>
        countedOutcome_eq_of_latestDecide hfresh hdecide has hbs (masternode, eSignal)
    · obtain ⟨latest, -, hgroup, hlatest⟩ :=
        exists_latest_held group nTime hvote
      have hmine : (vote.getMasternodeOutpoint, vote.getSignal) = latest.group := hgroup.symm
      by_cases htime : 0 ≤ latest.nTime
      · obtain ⟨held, hheld, hsame, hcount⟩ := countedOutcome_runVotes hfresh has.acceptable
          ((has.isLatest_iff latest).mpr hlatest) htime
        refine ⟨held, (has.isLatest_iff held).mp hheld, hsame.trans hgroup, ?_⟩
        rwa [← hmine] at hcount
      · have hneg := countedOutcome_runVotes_of_neg hfresh has.acceptable
          ((has.isLatest_iff latest).mpr hlatest) (not_le.mp htime)
        obtain ⟨other, hother, hsame, hnone⟩ := (hdecide latest hlatest).2 (not_le.mp htime)
        refine ⟨other, hother, hsame.trans hgroup, ?_⟩
        rw [← hmine] at hneg
        rwa [hnone]

/-! ## Two votes of one masternode -/

/-- A scheme in which every signature passes. -/
def trustingCrypto : GovernanceCrypto where
  verifyMessage _ _ _ := true
  pubKeyID _ := ""
  hashVote _ _ _ nVoteOutcome _ := BitVec.ofInt 256 nVoteOutcome.toInt
  hashObject _ _ _ _ _ _ := 7

/-- A node that knows every masternode. -/
def allKnownContext : GovernanceContext where
  net := .regtest
  adjustedTime := 10000
  getMasternodeInfo _ := some []
  countEnabled := 1
  checkCollateral _ := .ok
  getTransaction _ := none
  instantSendConfirmations _ := 0
  chainHeight := 0
  blockHeight _ := none
  fRateChecksEnabled := true

/-- A node that knows no masternode. -/
def noneKnownContext (adjustedTime : ℤ) : GovernanceContext :=
  { allKnownContext with adjustedTime, getMasternodeInfo := fun _ => none }

/-- A vote about funding for the object with hash 7. -/
def fundingVote (nVoteOutcome : Int32) (nTime : ℤ) : CGovernanceVote where
  nVoteSignal := 1
  vinMasternode := { prevout := ⟨5, 0⟩, scriptSig := [], nSequence := 0xffffffff }
  nParentHash := 7
  nVoteOutcome
  nTime
  vchSig := []

/-- An object without votes. -/
def plainTrigger : CGovernanceObject where
  nObjectType := GOVERNANCE_OBJECT_TRIGGER
  nHashParent := 0
  nRevision := 1
  nTime := 9000
  nCollateralHash := 0
  strData := ""
  vinMasternode := { prevout := ⟨5, 0⟩, scriptSig := [], nSequence := 0xffffffff }
  vchSig := []

/-- Both nodes accept a yes and a no with the same time; the last one is counted. -/
theorem tied_votes_diverge :
    Receives trustingCrypto [fundingVote 1 9500, fundingVote 2 9500]
        [(allKnownContext, fundingVote 1 9500), (allKnownContext, fundingVote 2 9500)]
      ∧ Receives trustingCrypto [fundingVote 1 9500, fundingVote 2 9500]
        [(allKnownContext, fundingVote 2 9500), (allKnownContext, fundingVote 1 9500)]
      ∧ (runVotes trustingCrypto
          [(allKnownContext, fundingVote 1 9500), (allKnownContext, fundingVote 2 9500)]
          plainTrigger).countMatchingVotes .funding .yes = 0
      ∧ (runVotes trustingCrypto
          [(allKnownContext, fundingVote 2 9500), (allKnownContext, fundingVote 1 9500)]
          plainTrigger).countMatchingVotes .funding .yes = 1 := by
  have hyes : (fundingVote 1 9500).Acceptable trustingCrypto allKnownContext :=
    ⟨by decide, by decide, by decide, by decide⟩
  have hno : (fundingVote 2 9500).Acceptable trustingCrypto allKnownContext :=
    ⟨by decide, by decide, by decide, by decide⟩
  exact ⟨⟨List.Perm.refl _, by simp [hyes, hno]⟩, ⟨List.Perm.swap _ _ _, by simp [hyes, hno]⟩,
    by decide, by decide⟩

/-- With a later yes after a no, nodes agree. -/
theorem tallies_converge_later :
    LatestDecide [fundingVote 2 9500, fundingVote 1 9501]
      ∧ ∀ as bs, Receives trustingCrypto [fundingVote 2 9500, fundingVote 1 9501] as →
        Receives trustingCrypto [fundingVote 2 9500, fundingVote 1 9501] bs →
        ∀ eSignal eOutcome,
          (runVotes trustingCrypto as plainTrigger).countMatchingVotes eSignal eOutcome
            = (runVotes trustingCrypto bs plainTrigger).countMatchingVotes eSignal eOutcome := by
  have hvalid : ∀ vote ∈ [fundingVote 2 9500, fundingVote 1 9501],
      ∃ ctx, vote.Acceptable trustingCrypto ctx := by
    intro vote hvote
    rcases mem_pair.mp hvote with rfl | rfl <;>
      exact ⟨allKnownContext, by decide, by decide, by decide, by decide⟩
  -- the yes is the only latest vote
  have honly : ∀ vote, IsLatest group nTime
      [fundingVote 2 9500, fundingVote 1 9501] vote → vote = fundingVote 1 9501 := by
    rintro vote ⟨hmem, hall⟩
    rcases mem_pair.mp hmem with rfl | rfl
    · exact absurd (hall (fundingVote 1 9501) (by simp) (by decide)) (by decide)
    · rfl
  have hdecide : LatestDecide [fundingVote 2 9500, fundingVote 1 9501] := by
    intro vote hvote
    rw [honly vote hvote]
    exact ⟨fun _ other hother _ => by rw [honly other hother], fun hneg => absurd hneg (by decide)⟩
  refine ⟨hdecide, fun as bs has hbs => ?_⟩
  exact ((tallies_converge_iff trustingCrypto plainTrigger _ rfl hvalid).mpr hdecide as bs has hbs).1

end Binarium
