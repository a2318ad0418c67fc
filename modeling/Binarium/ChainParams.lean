import Mathlib.Data.Int.Notation
import Mathlib.Data.Nat.Notation

set_option autoImplicit false

/-! # Chain parameters (`chainparams.cpp`, `consensus/params.h`)

The three networks and the consensus parameters that the modelled functions read. -/

namespace Binarium

/-- `uint256`. -/
abbrev Uint256 := BitVec 256

/-- Sets of hashes are lists, and membership in them is decided with this. -/
instance : LawfulBEq Uint256 := inferInstance

/-- The networks of `Params(chain)`. -/
inductive Network where
  | main | test | regtest
deriving DecidableEq

/-- The part of `Consensus::Params` that is read here. -/
structure ConsensusParams where
  nSubsidyHalvingInterval : ℕ
  nBudgetPaymentsStartBlock : ℕ
  nBudgetPaymentsCycleBlocks : ℕ
  nBudgetPaymentsWindowBlocks : ℕ
  nSuperblockStartBlock : ℕ
  nSuperblockCycle : ℕ
  BIP34Height : ℤ
  BIP34Hash : Uint256
  powLimit : Uint256
  fPowAllowMinDifficultyBlocks : Bool
  fPowNoRetargeting : Bool
  nPowTargetSpacing : ℕ
  nPowTargetTimespan : ℕ
  nPowKGWHeight : ℕ
  nPowDGWHeight : ℕ
  nMasternodePaymentsIncreaseBlock : ℕ
  nInstantSendKeepLock : ℕ
deriving DecidableEq

/-- The values set by `CMainParams`, `CTestNetParams` and `CRegTestParams`. -/
def consensusParams : Network → ConsensusParams
  | .main =>
    { nSubsidyHalvingInterval := 210240
      nBudgetPaymentsStartBlock := 328008
      nBudgetPaymentsCycleBlocks := 16616
      nBudgetPaymentsWindowBlocks := 100
      nSuperblockStartBlock := 614820
      nSuperblockCycle := 16616
      BIP34Height := 1
      BIP34Hash := 0x000007d91d1254d60e2dd1ae580383070a4ddffa4c64c2eeb4a2f9ecc0414343
      powLimit := 0x00000fffff000000000000000000000000000000000000000000000000000000
      fPowAllowMinDifficultyBlocks := false
      fPowNoRetargeting := false
      nPowTargetSpacing := 150
      nPowTargetTimespan := 86400
      nPowKGWHeight := 15200
      nPowDGWHeight := 34140
      nMasternodePaymentsIncreaseBlock := 158000
      nInstantSendKeepLock := 24 }
  | .test =>
    { nSubsidyHalvingInterval := 210240
      nBudgetPaymentsStartBlock := 4100
      nBudgetPaymentsCycleBlocks := 50
      nBudgetPaymentsWindowBlocks := 10
      nSuperblockStartBlock := 4200
      nSuperblockCycle := 24
      BIP34Height := 1
      BIP34Hash := 0x0000047d24635e347be3aaaeb66c26be94901a2f962feccd4f95090191f208c1
      powLimit := 0x00000fffff000000000000000000000000000000000000000000000000000000
      fPowAllowMinDifficultyBlocks := true
      fPowNoRetargeting := false
      nPowTargetSpacing := 150
      nPowTargetTimespan := 86400
      nPowKGWHeight := 4001
      nPowDGWHeight := 4001
      nMasternodePaymentsIncreaseBlock := 4030
      nInstantSendKeepLock := 6 }
  | .regtest =>
    { nSubsidyHalvingInterval := 150
      nBudgetPaymentsStartBlock := 1000
      nBudgetPaymentsCycleBlocks := 50
      nBudgetPaymentsWindowBlocks := 10
      nSuperblockStartBlock := 1500
      nSuperblockCycle := 10
      BIP34Height := -1
      BIP34Hash := 0
      powLimit := 0x7fffffffffffffffffffffffffffffffffffffffffffffffffffffffffffffff
      fPowAllowMinDifficultyBlocks := true
      fPowNoRetargeting := true
      nPowTargetSpacing := 150
      nPowTargetTimespan := 86400
      nPowKGWHeight := 15200
      nPowDGWHeight := 34140
      nMasternodePaymentsIncreaseBlock := 350
      nInstantSendKeepLock := 6 }

/-- `Consensus::Params::DifficultyAdjustmentInterval`. -/
def ConsensusParams.difficultyAdjustmentInterval (params : ConsensusParams) : ℕ :=
  params.nPowTargetTimespan / params.nPowTargetSpacing

/-- `Params().GenesisBlock().nTime`. -/
def genesisTime : Network → BitVec 32
  | .main => 1516957200
  | .test => 1516957201
  | .regtest => 1516957202

end Binarium
