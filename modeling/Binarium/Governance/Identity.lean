import Binarium.Governance.OrphanObjects

set_option autoImplicit false

/-! # What the hash of an object says about it

The type and the collateral of an object are sent with it, but are not part of its hash, and the type
is not part of what a masternode signs either. So a trigger can be turned into a watchdog and back
without a new signature and under the same hash. The hash of a valid object tells its type and its
collateral exactly if the object is a proposal that no masternode signed as something else and that
no second transaction pays for (`hash_binds_iff`). -/

namespace Binarium

variable {crypto : GovernanceCrypto} {ctx : GovernanceContext}

/-- An object that `IsValidLocally` accepts. -/
def CGovernanceObject.IsValid (crypto : GovernanceCrypto) (ctx : GovernanceContext)
    (govobj : CGovernanceObject) : Prop :=
  (govobj.isValidLocally crypto ctx true).fValid = true

instance (govobj : CGovernanceObject) : Decidable (govobj.IsValid crypto ctx) :=
  inferInstanceAs (Decidable (_ = true))

/-- The fields that are hashed agree. -/
structure SameHashed (a b : CGovernanceObject) : Prop where
  parent : b.nHashParent = a.nHashParent
  revision : b.nRevision = a.nRevision
  time : b.nTime = a.nTime
  data : b.strData = a.strData
  masternode : b.vinMasternode = a.vinMasternode
  signature : b.vchSig = a.vchSig

variable (govobj : CGovernanceObject)

/-- An object with another type and another collateral. -/
def CGovernanceObject.retyped (nObjectType : Int32) (nCollateralHash : Uint256) :
    CGovernanceObject :=
  { govobj with nObjectType, nCollateralHash }

theorem SameHashed.getHash {a b : CGovernanceObject} (h : SameHashed a b) :
    b.getHash crypto = a.getHash crypto := by
  simp [CGovernanceObject.getHash, h.parent, h.revision, h.time, h.data, h.masternode, h.signature]

/-! ## What the checks depend on -/

open CGovernanceObject

/-- The type is not signed, and not looked at by the check of the signature. -/
theorem isMasternodeValid_retyped {a b : CGovernanceObject} (h : SameHashed a b)
    (nObjectType : Int32) :
    (a.retyped nObjectType b.nCollateralHash).isMasternodeValid crypto ctx
      = b.isMasternodeValid crypto ctx := by
  have hsignature : (a.retyped nObjectType b.nCollateralHash).checkSignature crypto
      = b.checkSignature crypto := by
    funext pubKeyMasternode
    simp only [checkSignature, getSignatureMessage,
      retyped, h.parent, h.revision, h.time, h.data, h.masternode, h.signature]
  have hmasternode : (a.retyped nObjectType b.nCollateralHash).vinMasternode = b.vinMasternode :=
    h.masternode.symm
  simp only [isMasternodeValid, hsignature, hmasternode]

theorem isCollateralValid_retyped {a b : CGovernanceObject} (h : SameHashed a b) :
    (a.retyped b.nObjectType b.nCollateralHash).isCollateralValid crypto ctx
      = b.isCollateralValid crypto ctx := by
  simp only [isCollateralValid, h.getHash]
  rfl

/-- **The valid objects**: a proposal with a valid collateral, or a trigger or watchdog with a valid
    signature. -/
theorem isValidObject_iff : govobj.IsValid crypto ctx ↔ govobj.fUnparsable = false
      ∧ (govobj.nObjectType = GOVERNANCE_OBJECT_PROPOSAL
          ∧ (govobj.isCollateralValid crypto ctx).fValid
        ∨ (govobj.nObjectType = GOVERNANCE_OBJECT_TRIGGER
            ∨ govobj.nObjectType = GOVERNANCE_OBJECT_WATCHDOG)
          ∧ (govobj.isMasternodeValid crypto ctx).fValid) := by
  have hdistinct : GOVERNANCE_OBJECT_PROPOSAL ≠ GOVERNANCE_OBJECT_TRIGGER
      ∧ GOVERNANCE_OBJECT_PROPOSAL ≠ GOVERNANCE_OBJECT_WATCHDOG := by decide
  unfold CGovernanceObject.IsValid isValidLocally
  grind

/-- **What a hash binds.** Among the valid objects that share a hash with a valid object, and that do
    so without a collision of the hash, all have its type and its collateral exactly if it is a
    proposal, no known masternode signed its fields with any collateral, and no other transaction is a
    collateral for it. -/
theorem hash_binds_iff (crypto : GovernanceCrypto) (ctx : GovernanceContext)
    (govobj : CGovernanceObject) (hvalid : govobj.IsValid crypto ctx)
    (hnoCollision : ∀ other : CGovernanceObject, other.IsValid crypto ctx →
      other.getHash crypto = govobj.getHash crypto → SameHashed govobj other) :
    (∀ other : CGovernanceObject, other.IsValid crypto ctx →
        other.getHash crypto = govobj.getHash crypto →
        other.nObjectType = govobj.nObjectType ∧ other.nCollateralHash = govobj.nCollateralHash)
      ↔ govobj.nObjectType = GOVERNANCE_OBJECT_PROPOSAL
        ∧ (∀ nCollateralHash, ((govobj.retyped GOVERNANCE_OBJECT_TRIGGER
            nCollateralHash).isMasternodeValid crypto ctx).fValid = false)
        ∧ ∀ nCollateralHash, ((govobj.retyped GOVERNANCE_OBJECT_PROPOSAL
            nCollateralHash).isCollateralValid crypto ctx).fValid = true →
          nCollateralHash = govobj.nCollateralHash := by
  have hparsed := ((isValidObject_iff govobj).mp hvalid).1
  constructor
  · intro hbinds
    -- an object that a masternode signed can be sent with another type
    have hunsigned : ∀ nCollateralHash nObjectType, (nObjectType = GOVERNANCE_OBJECT_TRIGGER
          ∨ nObjectType = GOVERNANCE_OBJECT_WATCHDOG) →
        ((govobj.retyped nObjectType nCollateralHash).isMasternodeValid crypto ctx).fValid →
        govobj.nObjectType = nObjectType := by
      intro nCollateralHash nObjectType htype hsigned
      have hother : (govobj.retyped nObjectType nCollateralHash).IsValid crypto ctx :=
        (isValidObject_iff _).mpr ⟨hparsed, Or.inr ⟨htype, hsigned⟩⟩
      exact (hbinds _ hother rfl).1.symm
    have hnone : ∀ nCollateralHash, ((govobj.retyped GOVERNANCE_OBJECT_TRIGGER
        nCollateralHash).isMasternodeValid crypto ctx).fValid = false := by
      intro nCollateralHash
      rw [← Bool.not_eq_true]
      intro hsigned
      have htrigger := hunsigned nCollateralHash _ (Or.inl rfl) hsigned
      have hwatchdog := hunsigned nCollateralHash _ (Or.inr rfl) hsigned
      exact absurd (htrigger.symm.trans hwatchdog) (by decide)
    rcases ((isValidObject_iff govobj).mp hvalid).2 with ⟨hproposal, -⟩ | ⟨-, hsigned⟩
    · refine ⟨hproposal, hnone, fun nCollateralHash hpays => ?_⟩
      have hother : (govobj.retyped GOVERNANCE_OBJECT_PROPOSAL nCollateralHash).IsValid crypto ctx :=
        (isValidObject_iff _).mpr ⟨hparsed, Or.inl ⟨rfl, hpays⟩⟩
      exact (hbinds _ hother rfl).2
    · have hsame : SameHashed govobj govobj := ⟨rfl, rfl, rfl, rfl, rfl, rfl⟩
      simp [← isMasternodeValid_retyped hsame GOVERNANCE_OBJECT_TRIGGER, hnone] at hsigned
  · rintro ⟨hproposal, hunsigned, hpays⟩ other hother hhash
    have hsame := hnoCollision other hother hhash
    rcases ((isValidObject_iff other).mp hother).2 with ⟨htype, hcollateral⟩ | ⟨-, hsigned⟩
    · refine ⟨htype.trans hproposal.symm, hpays _ ?_⟩
      rwa [← htype, isCollateralValid_retyped hsame]
    · simp [← isMasternodeValid_retyped hsame GOVERNANCE_OBJECT_TRIGGER, hunsigned] at hsigned

/-- A trigger that is sent on as a watchdog is valid too, and a manager takes it under the same
    hash. -/
theorem trigger_taken_as_watchdog :
    plainTrigger.IsValid trustingCrypto allKnownContext
      ∧ (plainTrigger.retyped GOVERNANCE_OBJECT_WATCHDOG 0).IsValid trustingCrypto allKnownContext
      ∧ (plainTrigger.retyped GOVERNANCE_OBJECT_WATCHDOG 0).getHash trustingCrypto
        = plainTrigger.getHash trustingCrypto
      ∧ ((CGovernanceManager.addGovernanceObject trustingCrypto allKnownContext {}
          (plainTrigger.retyped GOVERNANCE_OBJECT_WATCHDOG 0)).mapObjects.lookup
            (plainTrigger.getHash trustingCrypto)).map nObjectType
        = some GOVERNANCE_OBJECT_WATCHDOG :=
  ⟨by decide, by decide, rfl, by decide⟩

/-- A proposal with collateral 9. -/
def plainProposal : CGovernanceObject :=
  plainTrigger.retyped GOVERNANCE_OBJECT_PROPOSAL 9

/-- A hash that is 7 for the fields of the proposal only. -/
def proposalCrypto : GovernanceCrypto :=
  { trustingCrypto with
    hashObject := fun nHashParent nRevision nTime strData vinMasternode vchSig =>
      if nHashParent = 0 ∧ nRevision = 1 ∧ nTime = 9000 ∧ strData = ""
          ∧ vinMasternode = plainTrigger.vinMasternode ∧ vchSig = [] then 7
      else 8 }

/-- Transaction 9 burns the fee for hash 7; no masternode is known. -/
def proposalContext : GovernanceContext :=
  { noneKnownContext 10000 with
    getTransaction := fun hash =>
      if hash = 9 then
        some ({ CTransaction.default with
          vout := [{ nValue := GOVERNANCE_PROPOSAL_FEE_TX, scriptPubKey := burnScript 7 }] }, 0)
      else none
    instantSendConfirmations := fun _ => 6 }

/-- The hash of that proposal binds its type and its collateral. -/
theorem hash_binds_proposal :
    plainProposal.IsValid proposalCrypto proposalContext
      ∧ ∀ other : CGovernanceObject, other.IsValid proposalCrypto proposalContext →
        other.getHash proposalCrypto = plainProposal.getHash proposalCrypto →
        other.nObjectType = GOVERNANCE_OBJECT_PROPOSAL ∧ other.nCollateralHash = 9 := by
  have hvalid : plainProposal.IsValid proposalCrypto proposalContext := by decide
  have hnoCollision : ∀ other : CGovernanceObject, other.IsValid proposalCrypto proposalContext →
      other.getHash proposalCrypto = plainProposal.getHash proposalCrypto →
      SameHashed plainProposal other := by
    intro other _ hhash
    rw [show plainProposal.getHash proposalCrypto = 7 by decide, CGovernanceObject.getHash] at hhash
    simp only [proposalCrypto] at hhash
    split_ifs at hhash with hfields
    · obtain ⟨hparent, hrevision, htime, hdata, hmasternode, hsig⟩ := hfields
      exact ⟨hparent, hrevision, htime, hdata, hmasternode, hsig⟩
    · exact absurd hhash (by decide)
  refine ⟨hvalid, (hash_binds_iff proposalCrypto proposalContext plainProposal hvalid
    hnoCollision).mpr ⟨rfl, fun nCollateralHash => rfl, fun nCollateralHash hpays => ?_⟩⟩
  by_contra hne
  have hmissing : proposalContext.getTransaction nCollateralHash = none := if_neg hne
  have hlookup : (plainProposal.retyped GOVERNANCE_OBJECT_PROPOSAL nCollateralHash).nCollateralHash
      = nCollateralHash := rfl
  simp [isCollateralValid, hlookup, hmissing] at hpays

end Binarium
