import Binarium.Governance.Object
import Binarium.Lib.Latest
import Binarium.Lib.Maps

set_option autoImplicit false

/-! # What an object counts

An object counts, for a masternode and a signal, the outcome of the instance that `ProcessVote` left
there. For votes that pass the checks this instance is a fold of the votes with that masternode and
that signal (`instance?_runVotes`): a vote takes the place of the instance unless it is older, and the
first instance is an empty one that was made at time 0. So the last to come of the latest votes is
counted (`countedOutcome_runVotes_last`), and votes with a time below 0 are never counted
(`countedOutcome_runVotes_of_neg`). -/

namespace Binarium

open Latest Maps Prod VoteInstance
open List hiding replace

/-! ## Voters -/

/-- The masternodes whose vote for a signal has an outcome. -/
def CGovernanceObject.voters (govobj : CGovernanceObject) (eSignal : VoteSignal)
    (eOutcome : VoteOutcome) : Finset COutPoint :=
  keysWith govobj.mapCurrentMNVotes fun recVote => recVote.hasOutcome eSignal eOutcome

/-- The outcome that is counted for a masternode and a signal. -/
def CGovernanceObject.countedOutcome (govobj : CGovernanceObject) (masternode : COutPoint)
    (eSignal : VoteSignal) : Option VoteOutcome :=
  (govobj.instance? masternode eSignal).map VoteInstance.eOutcome

theorem card_voters (govobj : CGovernanceObject) (eSignal : VoteSignal) (eOutcome : VoteOutcome) :
    govobj.countMatchingVotes eSignal eOutcome = (govobj.voters eSignal eOutcome).card :=
  countP_entries govobj.mapCurrentMNVotes fun recVote => recVote.hasOutcome eSignal eOutcome

open CGovernanceObject

theorem mem_voters (govobj : CGovernanceObject) (eSignal : VoteSignal) (eOutcome : VoteOutcome)
    (masternode : COutPoint) :
    masternode ∈ govobj.voters eSignal eOutcome
      ↔ govobj.countedOutcome masternode eSignal = some eOutcome := by
  rw [voters, mem_keysWith, countedOutcome, instance?]
  cases govobj.mapCurrentMNVotes.lookup masternode with
  | none => simp
  | some recVote =>
    cases h : recVote.mapInstances.lookup eSignal <;> simp [VoteRec.hasOutcome, h]

theorem countMatchingVotes_congr {a b : CGovernanceObject} {eSignal : VoteSignal}
    (h : ∀ masternode, a.countedOutcome masternode eSignal = b.countedOutcome masternode eSignal)
    (eOutcome : VoteOutcome) :
    a.countMatchingVotes eSignal eOutcome = b.countMatchingVotes eSignal eOutcome := by
  rw [card_voters, card_voters]
  congr 1
  ext masternode
  simp [mem_voters, h]

theorem countMatchingVotes_succ {a b : CGovernanceObject} {eSignal : VoteSignal}
    {eOutcome : VoteOutcome} {masternode : COutPoint}
    (ha : a.countedOutcome masternode eSignal = some eOutcome)
    (hb : b.countedOutcome masternode eSignal ≠ some eOutcome)
    (hothers : ∀ other, other ≠ masternode →
      a.countedOutcome other eSignal = b.countedOutcome other eSignal) :
    a.countMatchingVotes eSignal eOutcome = b.countMatchingVotes eSignal eOutcome + 1 := by
  have hinsert : a.voters eSignal eOutcome = insert masternode (b.voters eSignal eOutcome) := by
    ext other
    rw [Finset.mem_insert, mem_voters, mem_voters]
    by_cases hother : other = masternode
    · simp [hother, ha]
    · rw [hothers other hother, or_iff_right hother]
  have hnew : masternode ∉ b.voters eSignal eOutcome := by rwa [mem_voters]
  simp [card_voters, hinsert, Finset.card_insert_of_notMem hnew]

/-! ## Votes that pass the checks -/

/-- A vote that `ProcessVote` can turn down as obsolete only: it is valid for its signal, and the rate
    limit lets a first vote pass. -/
structure CGovernanceVote.Acceptable (crypto : GovernanceCrypto) (ctx : GovernanceContext)
    (vote : CGovernanceVote) : Prop where
  signal : vote.getSignal ≠ .none
  supported : vote.getSignal.unsupported = false
  valid : vote.isValid crypto ctx true = true
  rate : ctx.fRateChecksEnabled = true → GOVERNANCE_UPDATE_MIN ≤ ctx.adjustedTime

variable {vote : CGovernanceVote}

open CGovernanceVote

theorem CGovernanceVote.Acceptable.known {crypto : GovernanceCrypto} {ctx : GovernanceContext}
    (h : vote.Acceptable crypto ctx) : ctx.getMasternodeInfo vote.getMasternodeOutpoint ≠ none := by
  have hvalid := h.valid
  grind [isValid, getMasternodeOutpoint]

/-- What a vote leaves as the instance. -/
def CGovernanceVote.toInstance (vote : CGovernanceVote) : VoteInstance :=
  { eOutcome := vote.getOutcome, nCreationTime := vote.nTime }

/-- `ProcessVote` never sets the time that the rate limit is measured from. -/
def CGovernanceObject.RateTimesUnset (govobj : CGovernanceObject) : Prop :=
  ∀ masternode eSignal voteInstance,
    govobj.instance? masternode eSignal = some voteInstance → voteInstance.nTime = 0

theorem instance?_setInstance (govobj : CGovernanceObject) (masternode other : COutPoint)
    (eSignal eSignal' : VoteSignal) (voteInstance : VoteInstance) :
    (govobj.setRecVote masternode
        ((govobj.recVote masternode).setInstance eSignal voteInstance)).instance? other eSignal'
      = if other = masternode ∧ eSignal' = eSignal then some voteInstance
        else govobj.instance? other eSignal' := by
  simp only [instance?, setRecVote, VoteRec.setInstance, recVote]
  cases h : govobj.mapCurrentMNVotes.lookup other <;> grind [AList.lookup_empty]

/-- Who votes and what about: the votes with one group stand in place of each other. -/
def CGovernanceVote.group (vote : CGovernanceVote) : COutPoint × VoteSignal :=
  (vote.getMasternodeOutpoint, vote.getSignal)

section

variable (crypto : GovernanceCrypto) (ctx : GovernanceContext) (govobj : CGovernanceObject)
  (vote : CGovernanceVote)

/-- The vote is of a known masternode and for a supported signal: it comes to an instance. -/
def CGovernanceVote.hasInstance : Bool :=
  (ctx.getMasternodeInfo vote.getMasternodeOutpoint).isSome && vote.getSignal != .none
    && !vote.getSignal.unsupported

/-- The instance that `ProcessVote` finds or makes for a masternode and a signal. -/
def CGovernanceObject.held (group : COutPoint × VoteSignal) : VoteInstance :=
  (govobj.instance? group.1 group.2).getD {}

/-- The vote passes all checks but the rate limit. -/
def CGovernanceObject.passesOthers : Bool :=
  vote.hasInstance ctx && decide ((govobj.held vote.group).nCreationTime ≤ vote.nTime)
    && vote.isValid crypto ctx true

theorem held_group : govobj.held vote.group
    = ((govobj.recVote vote.getMasternodeOutpoint).mapInstances.lookup vote.getSignal).getD {} := by
  unfold held instance? recVote CGovernanceVote.group
  cases govobj.mapCurrentMNVotes.lookup vote.getMasternodeOutpoint <;> rfl

/-- **Which votes are accepted.** -/
theorem accepts_iff : govobj.accepts crypto ctx vote ↔ govobj.passesOthers crypto ctx vote
      ∧ (ctx.fRateChecksEnabled →
        GOVERNANCE_UPDATE_MIN ≤ ctx.adjustedTime - (govobj.held vote.group).nTime) := by
  rw [passesOthers, hasInstance, accepts, processVote, held_group]
  simp only
  split_ifs <;> simp_all [Except.toBool, Option.isSome_iff_ne_none]

/-- **What a vote leaves**: the instance as it was found or made, or that of the vote with the time of
    the one that was found. -/
theorem instance?_after (group : COutPoint × VoteSignal) :
    (govobj.processVote crypto ctx vote).govobj.instance? group.1 group.2
      = if vote.hasInstance ctx ∧ group = vote.group then
          some (if govobj.accepts crypto ctx vote then
            ⟨vote.getOutcome, (govobj.held vote.group).nTime, vote.nTime⟩ else govobj.held vote.group)
        else govobj.instance? group.1 group.2 := by
  have hrecord : (govobj.setRecVote vote.getMasternodeOutpoint
      (govobj.recVote vote.getMasternodeOutpoint)).instance? group.1 group.2
      = govobj.instance? group.1 group.2 := by
    simp only [instance?, setRecVote, recVote]
    cases h : govobj.mapCurrentMNVotes.lookup group.1 <;> grind [AList.lookup_empty]
  have hset := fun held => instance?_setInstance govobj vote.getMasternodeOutpoint group.1
    vote.getSignal group.2 held
  rw [held_group]
  unfold hasInstance accepts processVote
  simp only
  split_ifs <;> simp_all [Except.toBool, CGovernanceVote.group, Prod.ext_iff,
    Option.isSome_iff_ne_none]
  all_goals first | rfl | exact (hset _).trans (by simp_all)

end

section

variable {crypto : GovernanceCrypto} {ctx : GovernanceContext}

section

variable {govobj : CGovernanceObject} (hunset : govobj.RateTimesUnset)
  (hvote : vote.Acceptable crypto ctx)

include hunset hvote

/-- **One vote.** The instance for the masternode and the signal of the vote becomes that of the vote,
    unless the vote is older; all other instances stay. -/
theorem instance?_processVote (masternode : COutPoint) (eSignal : VoteSignal) :
    (govobj.processVote crypto ctx vote).govobj.instance? masternode eSignal
      = if masternode = vote.getMasternodeOutpoint ∧ eSignal = vote.getSignal then
          some (replace nCreationTime
            ((govobj.instance? vote.getMasternodeOutpoint vote.getSignal).getD {}) vote.toInstance)
        else govobj.instance? masternode eSignal := by
  -- the time of an instance is 0, whether it was there or is new
  have htime : (govobj.held vote.group).nTime = 0 := by
    unfold held
    cases hold : govobj.instance? vote.group.1 vote.group.2 with
    | none => rfl
    | some voteInstance => exact hunset _ _ _ hold
  have hinstance : vote.hasInstance ctx := by
    simp [hasInstance, hvote.signal, hvote.supported, Option.isSome_iff_ne_none, hvote.known]
  have haccepts : govobj.accepts crypto ctx vote
      ↔ (govobj.held vote.group).nCreationTime ≤ vote.nTime := by
    simpa [accepts_iff, passesOthers, hinstance, hvote.valid, htime] using fun _ => hvote.rate
  rw [instance?_after crypto ctx govobj vote (masternode, eSignal)]
  grind [replace, held, CGovernanceVote.group, toInstance]

theorem rateTimesUnset_processVote :
    (govobj.processVote crypto ctx vote).govobj.RateTimesUnset := by
  intro masternode eSignal voteInstance h
  rw [instance?_processVote hunset hvote] at h
  have hother := hunset masternode eSignal
  cases hold : govobj.instance? vote.getMasternodeOutpoint vote.getSignal <;>
    grind [replace, toInstance]

end

end

/-! ## Runs -/

/-- Votes that reach a node, each with the state of the node at that moment. -/
abbrev VoteArrivals := List (GovernanceContext × CGovernanceVote)

/-- An object after `ProcessVote` of the votes. -/
def runVotes (crypto : GovernanceCrypto) (arrivals : VoteArrivals) (govobj : CGovernanceObject) :
    CGovernanceObject :=
  arrivals.foldl (fun govobj arrival =>
    (govobj.processVote crypto arrival.1 arrival.2).govobj) govobj

/-- The instances of the votes of one group. -/
def groupInstances (votes : List CGovernanceVote) (group : COutPoint × VoteSignal) :
    List VoteInstance :=
  (votes.filter fun vote => decide (vote.group = group)).map CGovernanceVote.toInstance

/-- A vote of the group takes the place of the instance, or of an empty one. -/
def castInstance (held : Option VoteInstance) (voteInstance : VoteInstance) : Option VoteInstance :=
  some (replace VoteInstance.nCreationTime (held.getD {}) voteInstance)

/-- **A run of votes.** An instance is a fold of the votes of its group. -/
theorem instance?_runVotes {crypto : GovernanceCrypto} {arrivals : VoteArrivals}
    (harrivals : ∀ arrival ∈ arrivals, arrival.2.Acceptable crypto arrival.1)
    (group : COutPoint × VoteSignal) :
    ∀ {govobj : CGovernanceObject}, govobj.RateTimesUnset →
      (runVotes crypto arrivals govobj).instance? group.1 group.2
        = (groupInstances (arrivals.map Prod.snd) group).foldl castInstance
            (govobj.instance? group.1 group.2) := by
  induction arrivals with
  | nil => exact fun _ => rfl
  | cons arrival rest ih =>
    intro govobj hunset
    have harrival := harrivals arrival mem_cons_self
    have hrest := ih (fun a ha => harrivals a (mem_cons_of_mem _ ha))
      (rateTimesUnset_processVote hunset harrival)
    rw [instance?_processVote hunset harrival] at hrest
    refine hrest.trans ?_
    rw [groupInstances, groupInstances, map_cons]
    by_cases hgroup : arrival.2.group = group
    · subst hgroup
      simp [group, castInstance]
    · rw [filter_cons_of_neg (by simpa using hgroup)]
      rw [if_neg fun h => hgroup (Prod.ext h.1.symm h.2.symm)]

/-- From no instance on, the fold starts at an empty instance. -/
theorem foldl_castInstance (instances : List VoteInstance) (held : VoteInstance) :
    instances.foldl castInstance (some held)
      = some (instances.foldl (replace nCreationTime) held) := by
  induction instances generalizing held with
  | nil => rfl
  | cons voteInstance rest ih => exact ih _

/-- An object that got no votes yet. -/
def CGovernanceObject.Fresh (govobj : CGovernanceObject) : Prop := govobj.mapCurrentMNVotes = ∅

theorem CGovernanceObject.Fresh.instance? {govobj : CGovernanceObject} (h : govobj.Fresh)
    (masternode : COutPoint) (eSignal : VoteSignal) :
    govobj.instance? masternode eSignal = none := by
  rw [CGovernanceObject.instance?, h, AList.lookup_empty, Option.bind_none]

theorem CGovernanceObject.Fresh.rateTimesUnset {govobj : CGovernanceObject} (h : govobj.Fresh) :
    govobj.RateTimesUnset := by
  simp [RateTimesUnset, h.instance?]

section

variable {crypto : GovernanceCrypto} {arrivals : VoteArrivals} {govobj : CGovernanceObject}
  (hfresh : govobj.Fresh)
  (harrivals : ∀ arrival ∈ arrivals, arrival.2.Acceptable crypto arrival.1)

include hfresh harrivals

/-- A group without votes has no instance. -/
theorem instance?_runVotes_of_none {group : COutPoint × VoteSignal}
    (hnone : ∀ vote ∈ arrivals.map snd, vote.group ≠ group) :
    (runVotes crypto arrivals govobj).instance? group.1 group.2 = none := by
  have hempty : groupInstances (arrivals.map snd) group = [] := by
    rw [groupInstances, map_eq_nil_iff, filter_eq_nil_iff]
    exact fun vote hvote => by simpa using hnone vote hvote
  rw [instance?_runVotes harrivals group hfresh.rateTimesUnset, hempty, hfresh.instance?]
  rfl

/-- A group with votes has the fold of their instances. -/
theorem instance?_runVotes_of_mem (hmem : vote ∈ arrivals.map snd) :
    (runVotes crypto arrivals govobj).instance? vote.group.1 vote.group.2
      = some ((groupInstances (arrivals.map snd) vote.group).foldl (replace nCreationTime) {}) := by
  rw [instance?_runVotes harrivals vote.group hfresh.rateTimesUnset, hfresh.instance?]
  have hinstance : vote.toInstance ∈ groupInstances (arrivals.map snd) vote.group :=
    mem_map_of_mem (mem_filter.mpr ⟨hmem, by simp⟩)
  cases hlist : groupInstances (arrivals.map snd) vote.group with
  | nil => exact absurd (hlist ▸ hinstance) (by simp)
  | cons first rest => exact foldl_castInstance rest _

section
variable (hlatest : IsLatest group nTime (arrivals.map Prod.snd) vote)
include hlatest

/-- From time 0 on, the outcome of a latest vote of the group is counted. -/
theorem countedOutcome_runVotes (htime : 0 ≤ vote.nTime) :
    ∃ held, IsLatest group nTime (arrivals.map snd) held
      ∧ held.group = vote.group
      ∧ (runVotes crypto arrivals govobj).countedOutcome vote.group.1 vote.group.2
        = some held.getOutcome := by
  have hinstance : vote.toInstance ∈ groupInstances (arrivals.map snd) vote.group :=
    mem_map_of_mem (mem_filter.mpr ⟨hlatest.1, by simp⟩)
  rw [countedOutcome, instance?_runVotes_of_mem hfresh harrivals hlatest.1]
  rcases foldl_replace_cases nCreationTime
    (groupInstances (arrivals.map snd) vote.group) {} with ⟨-, hall⟩ | ⟨hmem, -, hall⟩
  · -- the empty instance was made at time 0, and the vote is not older
    exact absurd htime (not_le_of_gt (hall _ hinstance))
  · obtain ⟨held, hheld, heq⟩ := mem_map.mp hmem
    obtain ⟨hheld, hgroup⟩ := mem_filter.mp hheld
    have hgroup : held.group = vote.group := of_decide_eq_true hgroup
    have hle : vote.nTime ≤ held.nTime := by
      have := hall _ hinstance
      rwa [← heq] at this
    refine ⟨held, ⟨hheld, fun other hother hsame => ?_⟩, hgroup, ?_⟩
    · exact le_trans (hlatest.2 other hother (hsame.trans hgroup)) hle
    · rw [← heq]
      rfl

theorem countedOutcome_runVotes_of_neg (htime : vote.nTime < 0) :
    (runVotes crypto arrivals govobj).countedOutcome vote.group.1 vote.group.2 = some .none := by
  rw [countedOutcome, instance?_runVotes_of_mem hfresh harrivals hlatest.1]
  rcases foldl_replace_cases nCreationTime
    (groupInstances (arrivals.map snd) vote.group) {} with ⟨heq, -⟩ | ⟨hmem, hle, -⟩
  · rw [heq]
    rfl
  · obtain ⟨held, hheld, heq⟩ := mem_map.mp hmem
    obtain ⟨hheld, hgroup⟩ := mem_filter.mp hheld
    rw [← heq] at hle
    have hle : 0 ≤ held.nTime := hle
    have := hlatest.2 held hheld (of_decide_eq_true hgroup)
    omega

/-- Among the latest votes of a group the one that came last is counted. -/
theorem countedOutcome_runVotes_last {rest : List CGovernanceVote}
    (horder : arrivals.map snd = rest ++ [vote]) (htime : 0 ≤ vote.nTime) :
    (runVotes crypto arrivals govobj).countedOutcome vote.group.1 vote.group.2
      = some vote.getOutcome := by
  have hinstances : groupInstances (arrivals.map snd) vote.group
      = groupInstances rest vote.group ++ [vote.toInstance] := by
    rw [groupInstances, groupInstances, horder, filter_append,
      filter_cons_of_pos (by simp), filter_nil, map_append, map_singleton]
  have hall : ∀ item ∈ groupInstances rest vote.group,
      item.nCreationTime ≤ vote.toInstance.nCreationTime := by
    intro item hitem
    obtain ⟨other, hother, rfl⟩ := mem_map.mp hitem
    obtain ⟨hother, hgroup⟩ := mem_filter.mp hother
    refine hlatest.2 other ?_ (of_decide_eq_true hgroup)
    rw [horder]
    exact mem_append_left _ hother
  rw [countedOutcome, instance?_runVotes_of_mem hfresh harrivals hlatest.1,
    hinstances, foldl_replace_append nCreationTime htime hall]
  rfl

end

end

end Binarium
