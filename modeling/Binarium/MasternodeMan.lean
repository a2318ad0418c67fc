import Binarium.PrivateSend.Server

set_option autoImplicit false

/-! # The list of masternodes (`masternodeman.cpp`)

`FindRandomNotInVec` picks a masternode that is not in a vector. Before it looks, it takes the size of
the vector from the number of masternodes that could be picked, and gives up if nothing is left. The
vector may hold a masternode twice or one that could not be picked, and then it gives up too early
(`findRandomNotInVec_complete_iff`).

`CheckSameAddr` goes through the masternodes in the order of their addresses and bans those that share
the address of a verified one. When it meets the first verified one at an address, it bans the one
before it, but not those before that, and it leaves a score that is at its maximum
(`checkSameAddr_bans_iff`). -/

namespace Binarium

open List

/-- `CMasternode::state`. -/
inductive MasternodeState where
  | preEnabled | enabled | expired | outpointSpent | updateRequired | watchdogExpired
  | newStartRequired | poseBan
deriving DecidableEq

/-- `CMasternode`. -/
structure CMasternode where
  vin : CTxIn
  addr : CService
  nProtocolVersion : ℤ
  nActiveState : MasternodeState := .enabled
  nPoSeBanScore : ℤ := 0
deriving DecidableEq

/-- `CMasternode::IsEnabled`. -/
def CMasternode.isEnabled (mn : CMasternode) : Bool := mn.nActiveState = .enabled

/-- `CMasternodeMan`: the masternodes in the order of their outpoints, under which the map has them. -/
structure CMasternodeMan where
  mapMasternodes : List CMasternode
  nodup : (mapMasternodes.map (·.vin.prevout)).Nodup

/-! ## A random masternode -/

namespace CMasternodeMan

/-- The version that is asked for; `-1` stands for `GetMinMasternodePaymentsProto()`. -/
def requiredVersion (nMinPaymentsProto nProtocolVersion : ℤ) : ℤ :=
  if nProtocolVersion = -1 then nMinPaymentsProto else nProtocolVersion

/-- Whether the loops of `CountEnabled` and `FindRandomNotInVec` look at a masternode. -/
def isUsable (nProtocolVersion : ℤ) (mn : CMasternode) : Bool :=
  !(decide (mn.nProtocolVersion < nProtocolVersion) || !mn.isEnabled)

variable (nMinPaymentsProto : ℤ) (s : CMasternodeMan) (vecToExclude : List COutPoint)
  (nProtocolVersion : ℤ)

/-- `CMasternodeMan::CountEnabled`. -/
def countEnabled : ℤ :=
  s.mapMasternodes.countP (isUsable (requiredVersion nMinPaymentsProto nProtocolVersion))

/-- `nCountNotExcluded`: an `int` less a `size_t`, as an `int`. -/
def countNotExcluded : ℤ :=
  (s.countEnabled nMinPaymentsProto (requiredVersion nMinPaymentsProto nProtocolVersion)
    - vecToExclude.length).bmod (2 ^ 32)

/-- `CMasternodeMan::FindRandomNotInVec`, with the vector it has shuffled. -/
def findRandomNotInVec (vpMasternodesShuffled : List CMasternode) : Option CMasternode :=
  if s.countNotExcluded nMinPaymentsProto vecToExclude nProtocolVersion < 1 then none
  else vpMasternodesShuffled.find? fun pmn =>
    isUsable (requiredVersion nMinPaymentsProto nProtocolVersion) pmn
      && !vecToExclude.contains pmn.vin.prevout

/-- A masternode that may be returned. -/
structure Candidate (mn : CMasternode) : Prop where
  mem : mn ∈ s.mapMasternodes
  enabled : mn.isEnabled = true
  version : requiredVersion nMinPaymentsProto nProtocolVersion ≤ mn.nProtocolVersion
  notExcluded : mn.vin.prevout ∉ vecToExclude

/-- A result that is a candidate, or nothing if there is none. -/
def IsChoice : Option CMasternode → Prop
  | some mn => s.Candidate nMinPaymentsProto vecToExclude nProtocolVersion mn
  | none => ∀ mn, ¬ s.Candidate nMinPaymentsProto vecToExclude nProtocolVersion mn

/-- **When the choice is complete.** However the masternodes are shuffled, `FindRandomNotInVec` returns
    a candidate just when there is one, if and only if there is none or the masternodes that could be
    picked are more than the entries of the vector. -/
theorem findRandomNotInVec_complete_iff {vpMasternodesShuffled : List CMasternode}
    (hshuffled : vpMasternodesShuffled ~ s.mapMasternodes) :
    s.IsChoice nMinPaymentsProto vecToExclude nProtocolVersion
        (s.findRandomNotInVec nMinPaymentsProto vecToExclude nProtocolVersion vpMasternodesShuffled)
      ↔ s.IsChoice nMinPaymentsProto vecToExclude nProtocolVersion none
        ∨ 1 ≤ s.countNotExcluded nMinPaymentsProto vecToExclude nProtocolVersion := by
  have hcandidate : ∀ mn, s.Candidate nMinPaymentsProto vecToExclude nProtocolVersion mn
      ↔ mn ∈ vpMasternodesShuffled
        ∧ isUsable (requiredVersion nMinPaymentsProto nProtocolVersion) mn
        ∧ mn.vin.prevout ∉ vecToExclude := fun mn => by
    simp only [isUsable, hshuffled.mem_iff]
    exact ⟨fun ⟨hmem, henabled, hversion, hnot⟩ => ⟨hmem, by simp [henabled, hversion], hnot⟩,
      fun ⟨hmem, husable, hnot⟩ => ⟨hmem, by simp_all, by simp_all, hnot⟩⟩
  unfold findRandomNotInVec
  split_ifs with hcount
  · simp [not_le.mpr hcount]
  · simp only [not_lt.mp hcount, or_true, iff_true]
    generalize hfind : find? _ _ = r
    cases r with
    | none => simpa [IsChoice, hcandidate] using hfind
    | some mn =>
      refine (hcandidate mn).mpr ⟨mem_of_find?_eq_some hfind, ?_⟩
      simpa using find?_some hfind

end CMasternodeMan

/-- An enabled masternode. -/
def plainMasternode (n : BitVec 32) (addr : CService) (nPoSeBanScore : ℤ) : CMasternode :=
  { vin := ⟨⟨1, n⟩, [], 0xffffffff⟩, addr, nProtocolVersion := 70208, nPoSeBanScore }

/-- Masternodes 1 and 2. -/
def twoMasternodes : CMasternodeMan := ⟨[plainMasternode 1 10 0, plainMasternode 2 20 0], by decide⟩

/-- The first masternode is in the vector twice, and the second one is not found. -/
theorem candidate_not_found :
    twoMasternodes.findRandomNotInVec 70208 [⟨1, 1⟩, ⟨1, 1⟩] (-1) twoMasternodes.mapMasternodes = none
      ∧ twoMasternodes.Candidate 70208 [⟨1, 1⟩, ⟨1, 1⟩] (-1) (plainMasternode 2 20 0) :=
  ⟨by decide, by decide, by decide, by decide, by decide⟩

theorem candidate_found :
    twoMasternodes.IsChoice 70208 [⟨1, 1⟩] (-1)
      (twoMasternodes.findRandomNotInVec 70208 [⟨1, 1⟩] (-1) twoMasternodes.mapMasternodes) :=
  (CMasternodeMan.findRandomNotInVec_complete_iff 70208 twoMasternodes [⟨1, 1⟩] (-1) (.refl _)).mpr
    (.inr (by decide))

/-! ## Masternodes with the same address -/

/-- `MASTERNODE_POSE_BAN_MAX_SCORE`. -/
def MASTERNODE_POSE_BAN_MAX_SCORE : ℤ := 5

namespace CMasternode

/-- `IsEnabled() || IsPreEnabled()`. -/
def isLive (mn : CMasternode) : Bool := mn.isEnabled || mn.nActiveState = .preEnabled

/-- `CMasternode::IsPoSeVerified`. -/
def isPoSeVerified (mn : CMasternode) : Bool := mn.nPoSeBanScore ≤ -MASTERNODE_POSE_BAN_MAX_SCORE

/-- `CMasternode::IncreasePoSeBanScore`. -/
def increasePoSeBanScore (mn : CMasternode) : CMasternode :=
  if mn.nPoSeBanScore < MASTERNODE_POSE_BAN_MAX_SCORE then
    { mn with nPoSeBanScore := mn.nPoSeBanScore + 1 }
  else mn

end CMasternode

/-- The loop of `CheckSameAddr` over the enabled and pre-enabled masternodes that come after
    `pprevMasternode`, with what it adds to `vBan`. Of `pverifiedMasternode` it is only asked whether
    there is one. -/
def sameAddrLoop (pprevMasternode : CMasternode) (fVerified : Bool) :
    List CMasternode → List CMasternode
  | [] => []
  | pmn :: rest =>
    if pmn.addr = pprevMasternode.addr then
      if fVerified then pmn :: sameAddrLoop pmn true rest
      else if pmn.isPoSeVerified then pprevMasternode :: sameAddrLoop pmn true rest
      else sameAddrLoop pmn false rest
    else sameAddrLoop pmn pmn.isPoSeVerified rest

/-- `vBan` after the loop over the vector. -/
def sameAddrBans (vSortedByAddr : List CMasternode) : List CMasternode :=
  match vSortedByAddr.filter (·.isLive) with
  | [] => []
  | pmn :: rest => sameAddrLoop pmn pmn.isPoSeVerified rest

/-- `pmn->IncreasePoSeBanScore()`, once for each time the masternode is in `vBan`. -/
def CMasternode.ban (vBan : List CMasternode) (mn : CMasternode) : CMasternode :=
  increasePoSeBanScore^[vBan.count mn] mn

theorem vin_ban (vBan : List CMasternode) (mn : CMasternode) : (mn.ban vBan).vin = mn.vin := by
  refine Function.Iterate.rec (fun mn' : CMasternode => mn'.vin = mn.vin) rfl (fun mn' hmn' => ?_) _
  unfold CMasternode.increasePoSeBanScore
  split_ifs <;> exact hmn'

/-- `CMasternodeMan::CheckSameAddr`, with the vector it has sorted. -/
def CMasternodeMan.checkSameAddr (s : CMasternodeMan) (fSynced : Bool)
    (vSortedByAddr : List CMasternode) : CMasternodeMan :=
  if !fSynced || s.mapMasternodes.isEmpty then s
  else
    { mapMasternodes := s.mapMasternodes.map (CMasternode.ban (sameAddrBans vSortedByAddr))
      nodup := by simpa [Function.comp_def, vin_ban] using s.nodup }

/-- The enabled and pre-enabled masternodes at an address. -/
def groupAt (masternodes : List CMasternode) (a : CService) : List CMasternode :=
  (masternodes.filter (·.isLive)).filter (·.addr = a)

/-- An enabled or pre-enabled masternode at the address is verified. -/
def VerifiedAt (masternodes : List CMasternode) (a : CService) : Prop :=
  ∃ v ∈ groupAt masternodes a, v.isPoSeVerified = true

/-- The scores of a group go up, except for one masternode that is verified and stays as it is. -/
def RaisesAllButOne (after : CMasternode → CMasternode) (group : List CMasternode) : Prop :=
  ∃ v ∈ group, v.isPoSeVerified = true ∧ after v = v
    ∧ ∀ mn ∈ group, mn ≠ v → mn.nPoSeBanScore < (after mn).nPoSeBanScore

/-- The run from `s` to `s'` bans the duplicates: at each address with a verified masternode the scores
    of all enabled and pre-enabled masternodes go up, except for one that is verified, and no other
    masternode changes. -/
def BansDuplicates (s s' : CMasternodeMan) : Prop :=
  ∃ after : CMasternode → CMasternode, s'.mapMasternodes = s.mapMasternodes.map after
    ∧ (∀ a, VerifiedAt s.mapMasternodes a → RaisesAllButOne after (groupAt s.mapMasternodes a))
    ∧ ∀ mn ∈ s.mapMasternodes, ¬ (mn.isLive = true ∧ VerifiedAt s.mapMasternodes mn.addr) → after mn = mn

/-- What is banned of the masternodes at an address, in the order of the vector. -/
def bansOf : List CMasternode → List CMasternode
  | p :: q :: rest =>
    if p.isPoSeVerified then q :: rest else if q.isPoSeVerified then p :: rest else bansOf (q :: rest)
  | _ => []

theorem bansOf_cons {p : CMasternode} (hp : p.isPoSeVerified) (group : List CMasternode) :
    bansOf (p :: group) = group := by
  cases group <;> simp [bansOf, hp]

theorem bansOf_sublist (group : List CMasternode) : bansOf group <+ group := by
  fun_induction bansOf group <;> simp_all

theorem bansOf_eq_nil {group : List CMasternode} (h : ¬ ∃ v ∈ group, v.isPoSeVerified) :
    bansOf group = [] := by
  fun_induction bansOf group <;> simp_all

/-- The loop, by addresses. -/
theorem filter_sameAddrLoop (a : CService) {rest : List CMasternode} :
    ∀ {pprev : CMasternode} {fVerified : Bool}, (fVerified = false → pprev.isPoSeVerified = false) →
      (pprev :: rest).Pairwise (·.addr ≤ ·.addr) →
      (sameAddrLoop pprev fVerified rest).filter (·.addr = a)
        = if pprev.addr = a ∧ fVerified then rest.filter (·.addr = a)
          else bansOf ((pprev :: rest).filter (·.addr = a)) := by
  induction rest with
  | nil =>
    intro pprev fVerified _ _
    by_cases ha : pprev.addr = a <;> simp [sameAddrLoop, ha, bansOf]
  | cons pmn rest ih =>
    intro pprev fVerified hverified hsorted
    obtain ⟨hle, hsorted⟩ := pairwise_cons.mp hsorted
    by_cases haddr : pmn.addr = pprev.addr
    · by_cases ha : pprev.addr = a <;> cases fVerified <;> cases hpmn : pmn.isPoSeVerified <;>
        simp [sameAddrLoop, bansOf, haddr, ha, hpmn, hverified, ih, hsorted]
    · -- the address of `pprev` does not come again
      have hlt := lt_of_le_of_ne (hle pmn mem_cons_self) (Ne.symm haddr)
      have hrest : rest.filter (·.addr = pprev.addr) = [] := by
        simp only [filter_eq_nil_iff, decide_eq_true_eq]
        exact fun x hx heq => hlt.not_ge (heq ▸ rel_of_pairwise_cons hsorted hx)
      rw [sameAddrLoop, if_neg haddr, ih (by simp) hsorted]
      by_cases ha : pprev.addr = a
      · simp [← ha, haddr, hrest, bansOf]
      · by_cases hpmn : pmn.addr = a <;> cases hv : pmn.isPoSeVerified <;>
          simp [ha, hpmn, bansOf_cons, hv]

theorem filter_sameAddrBans {vSortedByAddr : List CMasternode}
    (hsorted : vSortedByAddr.Pairwise (·.addr ≤ ·.addr)) (a : CService) :
    (sameAddrBans vSortedByAddr).filter (·.addr = a) = bansOf (groupAt vSortedByAddr a) := by
  have hlive := hsorted.filter (·.isLive)
  unfold sameAddrBans groupAt
  cases hgroup : vSortedByAddr.filter (·.isLive) with
  | nil => rfl
  | cons first rest =>
    rw [hgroup] at hlive
    refine (filter_sameAddrLoop a id hlive).trans ?_
    by_cases ha : first.addr = a <;> cases hv : first.isPoSeVerified <;> simp [ha, hv, bansOf_cons]

theorem groupAt_sublist (masternodes : List CMasternode) (a : CService) :
    groupAt masternodes a <+ masternodes :=
  filter_sublist.trans filter_sublist

/-- The loop bans a masternode at most once. -/
theorem ban_sameAddrBans {vSortedByAddr : List CMasternode} (hnodup : vSortedByAddr.Nodup)
    (hsorted : vSortedByAddr.Pairwise (·.addr ≤ ·.addr)) (mn : CMasternode) :
    mn.ban (sameAddrBans vSortedByAddr)
      = if mn ∈ bansOf (groupAt vSortedByAddr mn.addr) then mn.increasePoSeBanScore else mn := by
  have hbans := hnodup.sublist ((bansOf_sublist _).trans (groupAt_sublist vSortedByAddr mn.addr))
  have hcount := count_filter (p := fun b => decide (b.addr = mn.addr)) (a := mn)
    (l := sameAddrBans vSortedByAddr) (by simp)
  rw [filter_sameAddrBans hsorted, hbans.count] at hcount
  rw [CMasternode.ban, ← hcount]
  split_ifs <;> rfl

/-- A run can ban the duplicates of a group: it is a run on a synced list or there are none, one of the
    first two is verified and every score can go up. -/
def Bannable (fSynced : Bool) (group : List CMasternode) : Prop :=
  (fSynced = true ∨ group.length ≤ 1) ∧ (∃ v ∈ group.take 2, v.isPoSeVerified = true)
    ∧ ∀ mn ∈ group, mn.nPoSeBanScore < MASTERNODE_POSE_BAN_MAX_SCORE

/-- If one of the first two is verified, all but one are banned. -/
theorem exists_not_banned {group : List CMasternode} (hnodup : group.Nodup)
    (hverified : ∃ v ∈ group.take 2, v.isPoSeVerified) :
    ∃ v ∈ group, v.isPoSeVerified ∧ ∀ mn ∈ group, mn ∈ bansOf group ↔ mn ≠ v := by
  match group with
  | [] => simp at hverified
  | [p] => exact ⟨p, by simp, by simpa using hverified, by simp [bansOf]⟩
  | p :: q :: rest =>
    cases hp : p.isPoSeVerified with
    | true => exact ⟨p, by simp, hp, by grind [bansOf]⟩
    | false => exact ⟨q, by simp, by grind, by grind [bansOf]⟩

theorem raisesAllButOne_iff {group : List CMasternode} {after : CMasternode → CMasternode}
    {fSynced : Bool} (hnodup : group.Nodup) (hafter : ∀ mn ∈ group,
      after mn = if fSynced ∧ mn ∈ bansOf group then mn.increasePoSeBanScore else mn) :
    RaisesAllButOne after group ↔ Bannable fSynced group := by
  have hraised : ∀ mn ∈ group, mn.nPoSeBanScore < (after mn).nPoSeBanScore
      ↔ (fSynced ∧ mn ∈ bansOf group) ∧ mn.nPoSeBanScore < MASTERNODE_POSE_BAN_MAX_SCORE := by
    intro mn hmn
    rw [hafter mn hmn, CMasternode.increasePoSeBanScore]
    split_ifs <;> simp_all
  constructor
  · rintro ⟨v, hv, hverified, -, hothers⟩
    have hscores : ∀ mn ∈ group, mn.nPoSeBanScore < MASTERNODE_POSE_BAN_MAX_SCORE := by
      intro mn hmn
      by_cases heq : mn = v
      · have hle := of_decide_eq_true (heq ▸ hverified : mn.isPoSeVerified)
        unfold MASTERNODE_POSE_BAN_MAX_SCORE at *
        omega
      · exact ((hraised mn hmn).mp (hothers mn hmn heq)).2
    have hbanned := fun mn hmn hne => ((hraised mn hmn).mp (hothers mn hmn hne)).1
    match group with
    | [] => simp at hv
    | [p] => exact ⟨by simp, by simp_all, hscores⟩
    | p :: q :: rest =>
      have hsynced : fSynced = true := by
        by_cases hp : p = v
        · exact (hbanned q (by simp) (by grind)).1
        · exact (hbanned p mem_cons_self hp).1
      refine ⟨.inl hsynced, by_contra fun hnot => ?_, hscores⟩
      -- the first of them is not banned, and it is not the verified one
      obtain ⟨hp, hq⟩ : p.isPoSeVerified = false ∧ q.isPoSeVerified = false := by simpa using hnot
      have hne : p ≠ v := fun heq => by simp [heq, hverified] at hp
      have hban := (hbanned p mem_cons_self hne).2
      simp only [bansOf, hp, hq, Bool.false_eq_true, if_false] at hban
      exact (nodup_cons.mp hnodup).1 ((bansOf_sublist _).subset hban)
  · rintro ⟨hsynced, hverified, hscores⟩
    obtain ⟨v, hv, hverified, hbans⟩ := exists_not_banned hnodup hverified
    refine ⟨v, hv, hverified, ?_, fun mn hmn hne => (hraised mn hmn).mpr
      ⟨⟨hsynced.resolve_right fun hle => hne ?_, (hbans mn hmn).mpr hne⟩, hscores mn hmn⟩⟩
    · rw [hafter v hv, if_neg fun h => (hbans v hv).mp h.2 rfl]
    · obtain ⟨p, rfl⟩ := length_eq_one_iff.mp (hle.antisymm (length_pos_of_mem hv))
      rw [mem_singleton.mp hmn, mem_singleton.mp hv]

/-- **When duplicates are banned.** However masternodes with the same address are sorted, a run of
    `CheckSameAddr` bans the duplicates if and only if it can at each address with a verified
    masternode: one of the first two is verified and no score is at its maximum. -/
theorem checkSameAddr_bans_iff (s : CMasternodeMan) (fSynced : Bool) {vSortedByAddr : List CMasternode}
    (hperm : vSortedByAddr ~ s.mapMasternodes)
    (hsorted : vSortedByAddr.Pairwise (·.addr ≤ ·.addr)) :
    BansDuplicates s (s.checkSameAddr fSynced vSortedByAddr)
      ↔ ∀ a, VerifiedAt vSortedByAddr a → Bannable fSynced (groupAt vSortedByAddr a) := by
  have hgroup : ∀ a mn, mn ∈ groupAt s.mapMasternodes a ↔ mn ∈ groupAt vSortedByAddr a :=
    fun a mn => ((hperm.filter _).filter _).symm.mem_iff
  have hnodup : vSortedByAddr.Nodup := (hperm.nodup_iff.mpr s.nodup.of_map)
  obtain ⟨ban, hmap, hban⟩ : ∃ ban, (s.checkSameAddr fSynced vSortedByAddr).mapMasternodes
      = s.mapMasternodes.map ban ∧ ∀ mn, ban mn = if fSynced
        ∧ mn ∈ bansOf (groupAt vSortedByAddr mn.addr) then mn.increasePoSeBanScore else mn := by
    cases fSynced with
    | false => exact ⟨id, by simp [CMasternodeMan.checkSameAddr], by simp⟩
    | true =>
      refine ⟨_, ?_, by simpa using ban_sameAddrBans hnodup hsorted⟩
      unfold CMasternodeMan.checkSameAddr
      split_ifs with hempty
      · simp_all
      · rfl
  have hraises : ∀ after, s.mapMasternodes.map after = s.mapMasternodes.map ban → ∀ a, _ ↔ _ :=
    fun after hafter a => @raisesAllButOne_iff (groupAt vSortedByAddr a) after fSynced
      (hnodup.sublist (groupAt_sublist _ _)) fun mn hmn => by
        have hmem := (groupAt_sublist _ _).subset hmn
        have ha : mn.addr = a := by simpa using (mem_filter.mp hmn).2
        rw [map_inj_left.mp hafter mn (hperm.mem_iff.mp hmem), hban, ha]
  simp only [BansDuplicates, VerifiedAt, RaisesAllButOne, hgroup, hmap] at hraises ⊢
  constructor
  · rintro ⟨after, hafter, hall, -⟩ a ha
    exact (hraises after hafter.symm a).mp (hall a ha)
  · intro hcond
    refine ⟨_, rfl, fun a ha => (hraises _ rfl a).mpr (hcond a ha), fun mn hmn hnot => ?_⟩
    rw [hban]
    refine if_neg fun ⟨_, hmem⟩ => hnot ⟨?_, by_contra fun hnone => ?_⟩
    · have hin := (bansOf_sublist _).subset hmem
      exact (mem_filter.mp (mem_filter.mp hin).1).2
    · rw [bansOf_eq_nil hnone] at hmem
      exact absurd hmem (by simp)

/-- Three masternodes at one address, of which the last is verified. -/
def threeAtOneAddress : CMasternodeMan :=
  ⟨[plainMasternode 1 10 0, plainMasternode 2 10 0, plainMasternode 3 10 (-5)], by decide⟩

/-- The score of the first masternode stays 0. -/
theorem first_duplicate_missed :
    ((threeAtOneAddress.checkSameAddr true threeAtOneAddress.mapMasternodes).mapMasternodes.map
        (·.nPoSeBanScore)) = [0, 1, -5]
      ∧ ¬ BansDuplicates threeAtOneAddress
        (threeAtOneAddress.checkSameAddr true threeAtOneAddress.mapMasternodes) := by
  refine ⟨by decide, ?_⟩
  rintro ⟨after, hafter, hall, -⟩
  have hfirst : after (plainMasternode 1 10 0) = plainMasternode 1 10 0 :=
    (Option.some.inj (congrArg head? hafter)).symm
  obtain ⟨v, -, hverified, -, hothers⟩ := hall 10 (by unfold VerifiedAt; decide)
  have hraised := hothers (plainMasternode 1 10 0) (by decide) fun heq =>
    absurd (heq ▸ hverified) (by decide)
  rw [hfirst] at hraised
  exact lt_irrefl _ hraised

/-- A verified masternode between two others, and one with another address. -/
def verifiedSecond : CMasternodeMan :=
  ⟨[plainMasternode 1 10 0, plainMasternode 2 10 (-5), plainMasternode 3 10 4, plainMasternode 4 20 0],
    by decide⟩

/-- The scores of the first and the third masternode go up. -/
theorem duplicates_banned :
    BansDuplicates verifiedSecond (verifiedSecond.checkSameAddr true verifiedSecond.mapMasternodes) := by
  refine (checkSameAddr_bans_iff verifiedSecond true (.refl _) (by decide)).mpr ?_
  rintro a ⟨v, hv, hverified⟩
  have hten : ∀ v ∈ verifiedSecond.mapMasternodes, v.isPoSeVerified → v.addr = 10 := by decide
  have ha : v.addr = a := by simpa using (mem_filter.mp hv).2
  rw [← ha, hten v ((groupAt_sublist _ _).subset hv) hverified]
  unfold Bannable
  decide

end Binarium
