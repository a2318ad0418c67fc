import Binarium.Governance.OrphanCache

set_option autoImplicit false

/-! # The sweep of an object's orphan votes

`CheckOrphanVotes` hands a vote to `ProcessVote` also when the vote has expired. With an unknown
masternode it is offered to the cache again, where it is already. With a known one it is counted, unless
`ProcessVote` finds a fault with it (`orphan_votes_expire_iff`). -/

namespace Binarium

open List

/-- An item of the orphan votes of an object. -/
abbrev OrphanVote := COutPoint × VoteTimePair

/-- The object in the loop and the votes that were counted and relayed. -/
abbrev SweepState := CGovernanceObject × List CGovernanceVote

variable (crypto : GovernanceCrypto) (ctx : GovernanceContext) (govobj : CGovernanceObject)

def expired (item : OrphanVote) : Bool := decide (item.2.2 < ctx.adjustedTime)

/-- `!mnodeman.Has(vote.GetMasternodeOutpoint())`. -/
def unknownMasternode (vote : CGovernanceVote) : Bool :=
  (ctx.getMasternodeInfo vote.getMasternodeOutpoint).isNone

/-- `mapOrphanVotes.Erase(key, pairVote)`. -/
def CGovernanceObject.eraseOrphanVote (item : OrphanVote) : CGovernanceObject :=
  { govobj with mapOrphanVotes := govobj.mapOrphanVotes.erase item.1 item.2 }

/-- The body of the loop of `CheckOrphanVotes`. An item that was pruned is not in the list any more and
    is not reached; `none` if the item is erased before `it` is advanced from it. -/
def sweepOrphanVote (state : SweepState) (item : OrphanVote) : Option SweepState :=
  if item ∉ state.1.mapOrphanVotes.listItems
      || (!expired ctx item && unknownMasternode ctx item.2.1) then
    some state
  else
    let processed := state.1.processVote crypto ctx item.2.1
    let fAdded := state.1.accepts crypto ctx item.2.1
    if item ∉ processed.govobj.mapOrphanVotes.listItems then none
    else
      some (if expired ctx item || fAdded then processed.govobj.eraseOrphanVote item
          else processed.govobj,
        if fAdded then state.2 ++ [item.2.1] else state.2)

/-- `CGovernanceObject::CheckOrphanVotes`. -/
def CGovernanceObject.checkOrphanVotes : Option SweepState :=
  govobj.mapOrphanVotes.listItems.foldlM (sweepOrphanVote crypto ctx) (govobj, [])

/-- Orphan votes expire: the sweep ends, and an expired vote is neither counted nor still there. -/
def CGovernanceObject.OrphanVotesExpire : Prop :=
  ∃ state, govobj.checkOrphanVotes crypto ctx = some state
    ∧ ∀ item ∈ govobj.mapOrphanVotes.listItems, expired ctx item = true →
      item.2.1 ∉ state.2 ∧ ∀ other ∈ state.1.mapOrphanVotes.listItems, other.2.1 ≠ item.2.1

/-- What happens to the orphan votes of an object: a vote comes, or the object is swept. -/
inductive OrphanVoteAction where
  | vote (ctx : GovernanceContext) (vote : CGovernanceVote)
  | sweep (ctx : GovernanceContext)

/-- The object after an action. -/
def CGovernanceObject.act : OrphanVoteAction → Option CGovernanceObject
  | .vote ctx vote => some (govobj.processVote crypto ctx vote).govobj
  | .sweep ctx => (govobj.checkOrphanVotes crypto ctx).map Prod.fst

/-- `fRemove` at the end of the loop's body. -/
def CGovernanceObject.removes (item : OrphanVote) : Bool :=
  expired ctx item || govobj.accepts crypto ctx item.2.1

open CGovernanceObject

variable {crypto ctx govobj} {start : CGovernanceObject} {vote : CGovernanceVote}

theorem accepts_congr {a b : CGovernanceObject}
    (h : a.recVote vote.getMasternodeOutpoint = b.recVote vote.getMasternodeOutpoint) :
    a.accepts crypto ctx vote = b.accepts crypto ctx vote := by
  simp only [accepts, processVote, h]
  split_ifs <;> rfl

@[simp] theorem accepts_eraseOrphanVote {item : OrphanVote} :
    (govobj.eraseOrphanVote item).accepts crypto ctx vote = govobj.accepts crypto ctx vote :=
  accepts_congr rfl

theorem accepts_eq_false (h : unknownMasternode ctx vote) :
    govobj.accepts crypto ctx vote = false := by
  simp only [unknownMasternode, Option.isNone_iff_eq_none] at h
  simp only [accepts, processVote, h]
  rfl

theorem recVote_processVote {masternode : COutPoint} (h : masternode ≠ vote.getMasternodeOutpoint) :
    (govobj.processVote crypto ctx vote).govobj.recVote masternode = govobj.recVote masternode := by
  simp only [processVote]
  split_ifs <;> simp [recVote, setRecVote,
    AList.lookup_insert_ne h]

theorem mapOrphanVotes_processVote :
    (govobj.processVote crypto ctx vote).govobj.mapOrphanVotes
      = if unknownMasternode ctx vote then
          (govobj.mapOrphanVotes.insert vote.getMasternodeOutpoint
            (vote, ctx.adjustedTime + GOVERNANCE_ORPHAN_EXPIRATION_TIME)).2
        else govobj.mapOrphanVotes := by
  simp only [processVote, unknownMasternode, Option.isNone_iff_eq_none]
  split_ifs <;> rfl

theorem CacheMultiMap.listItems_erase {K : Type} [DecidableEq K]
    {m : CacheMultiMap K VoteTimePair voteTimePairLt} {item : K × VoteTimePair}
    {kept rest : List (K × VoteTimePair)} (h : m.listItems = kept ++ item :: rest) :
    (m.erase item.1 item.2).listItems = kept ++ rest := by
  have hnodup := m.nodup_keys
  have hothers : ∀ l : List (K × VoteTimePair), (∀ i ∈ l, i.1 ≠ item.1) →
      l.filter (fun i => !decide (i.1 = item.1)) = l :=
    fun l hl => filter_eq_self.mpr fun i hi => by simp [hl i hi]
  simp [erase, h, equivalent_voteTimePairLt, hothers kept (by grind), hothers rest (by grind)]

/-- How votes stand in the cache: under their masternode. The cache has no maximal size. -/
structure CGovernanceObject.StoresOrphanVotes (govobj : CGovernanceObject) : Prop where
  keyed : ∀ item ∈ govobj.mapOrphanVotes.listItems, item.1 = item.2.1.getMasternodeOutpoint
  unlimited : govobj.mapOrphanVotes.nMaxSize = 0

namespace CGovernanceObject.StoresOrphanVotes

variable (h : govobj.StoresOrphanVotes)

include h

theorem processVote : (govobj.processVote crypto ctx vote).govobj.StoresOrphanVotes := by
  obtain ⟨hkeyed, hunlimited⟩ := h
  constructor <;> rw [mapOrphanVotes_processVote] <;>
    grind [CacheMultiMap.insert, CacheMultiMap.push, CacheMultiMap.pruneIfFull, dropLast_subset]

/-- A vote that is there is not stored again. -/
theorem mapOrphanVotes_of_mem {item : OrphanVote} (hmem : item ∈ govobj.mapOrphanVotes.listItems) :
    (govobj.processVote crypto ctx item.2.1).govobj.mapOrphanVotes = govobj.mapOrphanVotes := by
  have hprune : govobj.mapOrphanVotes.pruneIfFull = govobj.mapOrphanVotes :=
    if_neg (by simp [h.unlimited, ne_nil_of_mem hmem])
  have hvalue : ∀ pair, govobj.mapOrphanVotes.hasValue item.1 pair := fun pair =>
    any_eq_true.mpr ⟨item, hmem, by simp [equivalent_voteTimePairLt]⟩
  rw [mapOrphanVotes_processVote, ← h.keyed item hmem]
  split_ifs <;> simp [CacheMultiMap.insert, hprune, hvalue]

end CGovernanceObject.StoresOrphanVotes

/-- Where the loop stands: the items that it has been at, and those that it comes to. -/
structure VoteSweep (crypto : GovernanceCrypto) (ctx : GovernanceContext) (start : CGovernanceObject)
    (state : SweepState) (passed rest : List OrphanVote) : Prop where
  listItems : state.1.mapOrphanVotes.listItems
    = passed.filter (fun item => !start.removes crypto ctx item) ++ rest
  relayed : state.2
    = (passed.filter fun item => start.accepts crypto ctx item.2.1).map fun item => item.2.1
  stores : state.1.StoresOrphanVotes
  accepts : ∀ item ∈ rest, state.1.accepts crypto ctx item.2.1 = start.accepts crypto ctx item.2.1

namespace VoteSweep

variable {state : SweepState} {passed rest : List OrphanVote} {item : OrphanVote}

/-- The round of an item that is handed to `ProcessVote`. -/
theorem process (h : VoteSweep crypto ctx start state passed (item :: rest))
    (hprocess : (!expired ctx item && unknownMasternode ctx item.2.1) = false) :
    ∃ state', sweepOrphanVote crypto ctx state item = some state'
      ∧ VoteSweep crypto ctx start state' (passed ++ [item]) rest := by
  have hmem : item ∈ state.1.mapOrphanVotes.listItems := by simp [h.listItems]
  have hcache := @StoresOrphanVotes.mapOrphanVotes_of_mem crypto ctx _ h.stores _ hmem
  have hnodup := state.1.mapOrphanVotes.nodup_keys
  have hkeyed := h.stores.keyed
  have haccepts : ∀ i ∈ rest, (state.1.processVote crypto ctx item.2.1).govobj.accepts crypto ctx i.2.1
      = start.accepts crypto ctx i.2.1 := by
    intro i hi
    rw [← h.accepts i (mem_cons_of_mem _ hi)]
    simp only [h.listItems, map_append, map_cons, nodup_append, nodup_cons, mem_map] at hnodup hkeyed
    exact accepts_congr (recVote_processVote (by grind))
  have hround : sweepOrphanVote crypto ctx state item
      = some (if start.removes crypto ctx item
          then (state.1.processVote crypto ctx item.2.1).govobj.eraseOrphanVote item
          else (state.1.processVote crypto ctx item.2.1).govobj,
        if start.accepts crypto ctx item.2.1 then state.2 ++ [item.2.1] else state.2) := by
    simp [sweepOrphanVote, hmem, hprocess, hcache, h.accepts, removes]
  have hstores := @StoresOrphanVotes.processVote crypto ctx _ item.2.1 h.stores
  refine ⟨_, hround, ?_, ?_, ?_, ?_⟩
  · cases hremoves : start.removes crypto ctx item with
    | false => simp [hcache, hremoves, h.listItems]
    | true =>
      simpa [hremoves, eraseOrphanVote, hcache] using CacheMultiMap.listItems_erase h.listItems
  · cases hok : start.accepts crypto ctx item.2.1 <;> simp [hok, h.relayed]
  · dsimp only
    split_ifs
    · exact ⟨fun i hi => hstores.keyed i (mem_of_mem_filter hi), hstores.unlimited⟩
    · exact hstores
  · split_ifs
    all_goals simpa using haccepts

theorem step (h : VoteSweep crypto ctx start state passed (item :: rest)) :
    ∃ state', sweepOrphanVote crypto ctx state item = some state'
      ∧ VoteSweep crypto ctx start state' (passed ++ [item]) rest := by
  cases hskip : !expired ctx item && unknownMasternode ctx item.2.1 with
  | false => exact h.process hskip
  | true =>
    obtain ⟨hexpired, hunknown⟩ := Bool.and_eq_true_iff.mp hskip
    have hno := @accepts_eq_false crypto ctx start _ hunknown
    refine ⟨state, by simp [sweepOrphanVote, hskip], ?_, ?_, h.stores,
      fun i hi => h.accepts i (mem_cons_of_mem _ hi)⟩
    · simp_all [h.listItems, removes]
    · simp [h.relayed, hno]

theorem run (l : List OrphanVote) : ∀ {state passed}, VoteSweep crypto ctx start state passed l →
    ∃ state', l.foldlM (sweepOrphanVote crypto ctx) state = some state'
      ∧ VoteSweep crypto ctx start state' (passed ++ l) [] := by
  induction l with
  | nil => exact fun {state _} h => ⟨state, rfl, by simpa using h⟩
  | cons item l ih =>
    intro state passed h
    obtain ⟨next, hnext, hsweeping⟩ := h.step
    obtain ⟨last, hlast, hend⟩ := ih hsweeping
    exact ⟨last, by simp [hnext, hlast], by simpa using hend⟩

end VoteSweep

/-- The loop ends, and leaves the votes that it does not remove. -/
theorem checkOrphanVotes_spec (h : govobj.StoresOrphanVotes) :
    ∃ state, govobj.checkOrphanVotes crypto ctx = some state
      ∧ VoteSweep crypto ctx govobj state govobj.mapOrphanVotes.listItems [] :=
  @VoteSweep.run crypto ctx govobj _ (govobj, []) [] ⟨rfl, rfl, h, fun _ _ => rfl⟩

theorem storesOrphanVotes_run {actions : List OrphanVoteAction} (h : start.StoresOrphanVotes)
    (hrun : actions.foldlM (act crypto) start = some govobj) : govobj.StoresOrphanVotes := by
  induction actions generalizing start with
  | nil => exact Option.some.inj hrun ▸ h
  | cons action rest ih =>
    obtain ⟨next, hnext, hrest⟩ := Option.bind_eq_some_iff.mp hrun
    refine ih ?_ hrest
    cases action with
    | vote ctx vote =>
      cases hnext
      exact h.processVote
    | sweep ctx =>
      obtain ⟨state, hstate, hend⟩ := @checkOrphanVotes_spec crypto ctx _ h
      rw [CGovernanceObject.act, hstate] at hnext
      exact Option.some.inj hnext ▸ hend.stores

/-- A fault of a vote for an object: the masternode is unknown, the signal is none or not supported, the
    object has a newer vote, the limit of the rate is not over, or the vote is not valid. -/
def CGovernanceObject.HasFault (crypto : GovernanceCrypto) (ctx : GovernanceContext)
    (govobj : CGovernanceObject) (vote : CGovernanceVote) : Prop :=
  unknownMasternode ctx vote = true ∨ vote.getSignal = .none ∨ vote.getSignal.unsupported = true
    ∨ vote.nTime < (govobj.held vote.group).nCreationTime
    ∨ (ctx.fRateChecksEnabled = true
      ∧ ctx.adjustedTime - (govobj.held vote.group).nTime < GOVERNANCE_UPDATE_MIN)
    ∨ vote.isValid crypto ctx true = false

theorem accepts_eq_false_iff :
    govobj.accepts crypto ctx vote = false ↔ govobj.HasFault crypto ctx vote := by
  rw [← Bool.not_eq_true, accepts_iff, HasFault, passesOthers, CGovernanceVote.hasInstance,
    unknownMasternode]
  cases ctx.getMasternodeInfo vote.getMasternodeOutpoint <;> grind

/-- **When orphan votes expire.** Whatever votes came to an object and however often it was swept: a
    sweep removes the expired votes and counts none of them, exactly if each of them has a fault. -/
theorem orphan_votes_expire_iff (crypto : GovernanceCrypto) (ctx : GovernanceContext)
    (start govobj : CGovernanceObject) (actions : List OrphanVoteAction)
    (hstart : start.mapOrphanVotes = .empty 0)
    (hrun : actions.foldlM (CGovernanceObject.act crypto) start = some govobj) :
    govobj.OrphanVotesExpire crypto ctx
      ↔ ∀ item ∈ govobj.mapOrphanVotes.listItems, expired ctx item = true →
        govobj.HasFault crypto ctx item.2.1 := by
  have hstores := storesOrphanVotes_run ⟨by simp [hstart, CacheMultiMap.empty], by rw [hstart]; rfl⟩ hrun
  obtain ⟨state, hstate, hend⟩ := @checkOrphanVotes_spec crypto ctx _ hstores
  have hkeyed := hstores.keyed
  have hsame : ∀ a ∈ govobj.mapOrphanVotes.listItems, ∀ b ∈ govobj.mapOrphanVotes.listItems,
      a.2.1 = b.2.1 → a = b := fun a ha b hb hab =>
    inj_on_of_nodup_map CacheMultiMap.nodup_keys ha hb (by grind)
  simp only [OrphanVotesExpire, hstate, Option.some.injEq, exists_eq_left',
    hend.relayed, hend.listItems, append_nil, mem_map, mem_filter, ← accepts_eq_false_iff]
  refine forall_congr' fun item => forall_congr' fun hitem => forall_congr' fun hexpired => ?_
  constructor
  · rintro ⟨hnot, -⟩
    by_contra haccepts
    exact hnot ⟨item, ⟨hitem, by simpa using haccepts⟩, rfl⟩
  · grind [removes]

/-- A trigger with an orphan vote that expires at 10600. -/
def orphanVoteTrigger : CGovernanceObject :=
  (plainTrigger.processVote trustingCrypto (noneKnownContext 10000) (fundingVote 1 9500)).govobj

/-- By 11000 the masternode is known, and the vote is counted and relayed. -/
theorem expired_vote_counted :
    let ctx := { allKnownContext with adjustedTime := 11000 }
    orphanVoteTrigger.mapOrphanVotes.listItems.map (expired ctx) = [true]
      ∧ (orphanVoteTrigger.checkOrphanVotes trustingCrypto ctx).map Prod.snd
        = some [fundingVote 1 9500] := by
  decide +kernel

/-- The vote has expired and its masternode is not known yet. -/
theorem orphan_vote_expires :
    orphanVoteTrigger.OrphanVotesExpire trustingCrypto (noneKnownContext 11000) :=
  (orphan_votes_expire_iff trustingCrypto (noneKnownContext 11000) plainTrigger orphanVoteTrigger
    [.vote (noneKnownContext 10000) (fundingVote 1 9500)] rfl rfl).mpr fun _ _ _ => .inl rfl

end Binarium
