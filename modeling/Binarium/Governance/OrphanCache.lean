import Binarium.Governance.OrphanVotes

set_option autoImplicit false

/-! # The caches of orphan votes

`operator<` of votes wants a field to be below that of the other vote and then to be equal to it, so it
never holds. A `CacheMultiMap` of votes takes all votes for a key to be the same and keeps the first one
(`orphan_votes_kept_iff`). -/

namespace Binarium

open List

theorem CGovernanceVote.lt_eq_false (vote1 vote2 : CGovernanceVote) : vote1.lt vote2 = false := by
  simp only [CGovernanceVote.lt]
  grind

/-- The order tells no two votes apart. -/
theorem equivalent_voteTimePairLt (a b : VoteTimePair) : equivalent voteTimePairLt a b := by
  simp [equivalent, voteTimePairLt, CGovernanceVote.lt_eq_false]

namespace CacheMultiMap

variable {K : Type} {m : CacheMultiMap K VoteTimePair voteTimePairLt}

theorem listItems_pruneIfFull_subset : m.pruneIfFull.listItems ⊆ m.listItems := by
  unfold pruneIfFull
  split_ifs
  · exact dropLast_subset _
  · simp

theorem nodup_keys : (m.listItems.map Prod.fst).Nodup :=
  pairwise_map.mpr (m.distinct.imp fun h heq => h ⟨heq, equivalent_voteTimePairLt _ _⟩)

variable [DecidableEq K] {key : K} {pair pair' : VoteTimePair}

theorem mem_getAll : pair ∈ m.getAll key ↔ (key, pair) ∈ m.listItems := by
  simp [getAll]

theorem eq_of_mem_getAll (hpair : pair ∈ m.getAll key) (hpair' : pair' ∈ m.getAll key) :
    pair = pair' :=
  congrArg Prod.snd
    (inj_on_of_nodup_map nodup_keys (mem_getAll.mp hpair) (mem_getAll.mp hpair') rfl)

theorem mem_getAll_insert (hnew : m.getAll key = []) : pair ∈ (m.insert key pair).2.getAll key := by
  have hvalue : m.pruneIfFull.hasValue key pair = false := by
    simp only [hasValue, any_eq_false]
    rintro ⟨other, value⟩ hitem hsame
    obtain rfl : key = other := by simp_all
    have hmem : value ∈ m.getAll key := mem_getAll.mpr (listItems_pruneIfFull_subset hitem)
    simp [hnew] at hmem
  simp [mem_getAll, insert, hvalue, push]

end CacheMultiMap

/-- Each vote can be got back. -/
def AllKept (kept : List VoteTimePair) (arrivals : VoteArrivals) : Prop :=
  ∀ arrival ∈ arrivals, ∃ pair ∈ kept, pair.1 = arrival.2

/-- A key has one value, so there is none for a second vote. -/
theorem length_le_one_of_allKept {K : Type} [DecidableEq K] {arrivals : VoteArrivals}
    {m : CacheMultiMap K VoteTimePair voteTimePairLt} {key : K}
    (hnodup : (arrivals.map Prod.snd).Nodup) (hkept : AllKept (m.getAll key) arrivals) :
    arrivals.length ≤ 1 := by
  match arrivals with
  | [] | [_] => simp
  | first :: second :: rest =>
    obtain ⟨pair, hpair, hfirst⟩ := hkept first (by simp)
    obtain ⟨pair', hpair', hsecond⟩ := hkept second (by simp)
    simp [← hfirst, ← hsecond, CacheMultiMap.eq_of_mem_getAll hpair hpair'] at hnodup

/-- **Which orphan votes are kept.** Different votes arrive for an object that the manager does not
    have, or at an object that does not know their masternode. They are all returned by `GetAll` if and
    only if there is no second one. -/
theorem orphan_votes_kept_iff (crypto : GovernanceCrypto) (s : CGovernanceManager)
    (govobj : CGovernanceObject) (arrivals : VoteArrivals) (hnodup : (arrivals.map Prod.snd).Nodup) :
    (∀ nHash, s.mapObjects.lookup nHash = none → s.mapOrphanVotes.getAll nHash = [] →
      (∀ arrival ∈ arrivals, arrival.2.nParentHash = nHash
        ∧ s.mapInvalidVotes.hasKey (arrival.2.getHash crypto) = false) →
      (AllKept ((s.processVotes crypto arrivals).mapOrphanVotes.getAll nHash) arrivals
        ↔ arrivals.length ≤ 1))
    ∧ ∀ masternode, govobj.mapOrphanVotes.getAll masternode = [] →
      (∀ arrival ∈ arrivals, arrival.2.getMasternodeOutpoint = masternode
        ∧ arrival.1.getMasternodeInfo masternode = none) →
      (AllKept ((runVotes crypto arrivals govobj).mapOrphanVotes.getAll masternode) arrivals
        ↔ arrivals.length ≤ 1) := by
  refine ⟨fun nHash hmissing hnew harrivals => ⟨length_le_one_of_allKept hnodup, fun hle => ?_⟩,
    fun masternode hnew harrivals => ⟨length_le_one_of_allKept hnodup, fun hle => ?_⟩⟩
  all_goals
    intro arrival harrival
    obtain ⟨_, rfl⟩ := length_eq_one_iff.mp (le_antisymm hle (length_pos_of_mem harrival))
    obtain rfl := mem_singleton.mp harrival
    obtain ⟨hkey, hother⟩ := harrivals arrival harrival
  · have hstep : (s.processVote crypto arrival.1 arrival.2).2.mapOrphanVotes = (s.mapOrphanVotes.insert
        nHash (arrival.2, arrival.1.adjustedTime + GOVERNANCE_ORPHAN_EXPIRATION_TIME)).2 := by
      subst hkey
      simp [CGovernanceManager.processVote, hother, hmissing]
    exact ⟨_, hstep ▸ CacheMultiMap.mem_getAll_insert hnew, rfl⟩
  · have hstep : (govobj.processVote crypto arrival.1 arrival.2).govobj.mapOrphanVotes
        = (govobj.mapOrphanVotes.insert masternode (arrival.2,
          arrival.1.adjustedTime + GOVERNANCE_ORPHAN_EXPIRATION_TIME)).2 := by
      simp [CGovernanceObject.processVote, hkey, hother]
    exact ⟨_, hstep ▸ CacheMultiMap.mem_getAll_insert hnew, rfl⟩

/-- A yes and a no arrive before their object, and the no is dropped. -/
theorem second_orphan_vote_dropped :
    fundingVote 1 9500 ≠ fundingVote 2 9500
      ∧ ((({} : CGovernanceManager).processVotes trustingCrypto [(allKnownContext, fundingVote 1 9500),
        (allKnownContext, fundingVote 2 9500)]).mapOrphanVotes.getAll 7).map Prod.fst
          = [fundingVote 1 9500] := by
  decide +kernel

theorem single_orphan_vote_kept :
    AllKept ((({} : CGovernanceManager).processVotes trustingCrypto
      [(allKnownContext, fundingVote 1 9500)]).mapOrphanVotes.getAll 7)
      [(allKnownContext, fundingVote 1 9500)] :=
  ((orphan_votes_kept_iff trustingCrypto {} plainTrigger [(allKnownContext, fundingVote 1 9500)]
    (by simp)).1 7 rfl rfl (by simp; exact ⟨rfl, rfl⟩)).mpr (by simp)

end Binarium
