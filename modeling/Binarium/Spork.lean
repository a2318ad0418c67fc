import Binarium.ChainParams
import Binarium.Lib.Decimal
import Binarium.Lib.Latest

set_option autoImplicit false

/-! # Sporks (`spork.cpp`)

A spork is a setting of the network that the holder of the spork key can change at any time. A
`CSporkMessage` carries the id of the spork, its value and the time of signing; a node keeps, for
every id, the message that was signed last and forwards what it accepts.

Two things are looked at. What is signed is the decimal of the three fields without anything in
between, so a signature fits every other message with the same digits
(`sporkMessage_unambiguous_iff`). And a node keeps the message it has if a new one was signed at the
same time, so messages with the same signing time are settled by the order of arrival
(`sporks_converge_iff`). -/

namespace Binarium

open Decimal Latest List

/-! ## Messages and their signatures -/

/-- `CSporkMessage`. -/
structure CSporkMessage where
  nSporkID : Int32
  nValue : Int64
  nTimeSigned : Int64
  vchSig : List UInt8
deriving DecidableEq

/-- `CMessageSigner`. -/
structure MessageSigner where
  Key : Type
  PubKey : Type
  getKeysFromSecret : String → Option (Key × PubKey)
  signMessage : String → Key → Option (List UInt8)
  verifyMessage : PubKey → List UInt8 → String → Bool

variable (spork : CSporkMessage)

/-- The text that is signed: `boost::lexical_cast<std::string>` of the fields, one after the other. -/
def CSporkMessage.strMessage : String :=
  toString spork.nSporkID.toInt ++ toString spork.nValue.toInt ++ toString spork.nTimeSigned.toInt

/-- `CSporkMessage::Sign`. -/
def CSporkMessage.sign (signer : MessageSigner) (spork : CSporkMessage) (strSignKey : String) :
    Bool × CSporkMessage :=
  match signer.getKeysFromSecret strSignKey with
  | none => (false, spork)
  | some (key, pubkey) =>
    match signer.signMessage spork.strMessage key with
    | none => (false, spork)
    | some vchSig =>
      (signer.verifyMessage pubkey vchSig spork.strMessage, { spork with vchSig })

/-- `CSporkMessage::CheckSignature`, where `pubkey` is `Params().SporkPubKey()`. -/
def CSporkMessage.checkSignature (signer : MessageSigner) (pubkey : signer.PubKey)
    (spork : CSporkMessage) : Bool :=
  signer.verifyMessage pubkey spork.vchSig spork.strMessage

/-- An ideal signature scheme with the keys of the spork holder: everything can be signed, and a
    signature fits the signed text and no other. -/
structure IdealSigner extends MessageSigner where
  secret : String
  key : Key
  pubkey : PubKey
  keys : getKeysFromSecret secret = some (key, pubkey)
  signs : ∀ message, ∃ vchSig, signMessage message key = some vchSig
  verifies_iff : ∀ message vchSig message', signMessage message key = some vchSig →
    (verifyMessage pubkey vchSig message' = true ↔ message = message')

/-- A message after the spork holder has signed it. -/
def CSporkMessage.signed (signer : IdealSigner) (spork : CSporkMessage) : CSporkMessage :=
  (spork.sign signer.toMessageSigner signer.secret).2

open CSporkMessage

/-- Signing succeeds, and the signature fits the messages with the same text. -/
theorem sign_spec (signer : IdealSigner) (spork : CSporkMessage) :
    (spork.sign signer.toMessageSigner signer.secret).1
      ∧ spork.signed signer = { spork with vchSig := (spork.signed signer).vchSig }
      ∧ ∀ other : CSporkMessage, checkSignature signer.toMessageSigner signer.pubkey
          { other with vchSig := (spork.signed signer).vchSig }
        ↔ spork.strMessage = other.strMessage := by
  obtain ⟨vchSig, hsig⟩ := signer.signs spork.strMessage
  have hverifies := signer.verifies_iff spork.strMessage vchSig
  simp only [signed, sign, signer.keys, hsig]
  exact ⟨(hverifies _ hsig).mpr rfl, trivial, fun other => hverifies _ hsig⟩

/-! ## The digits of a message -/

/-- The three fields that a message is about. -/
def CSporkMessage.SameFields (other : CSporkMessage) : Prop :=
  spork.nSporkID = other.nSporkID ∧ spork.nValue = other.nValue
    ∧ spork.nTimeSigned = other.nTimeSigned

/-- Digit counts that an id, a value and a signing time can have. -/
@[ext]
structure DigitCounts where
  id : ℕ
  value : ℕ
  time : ℕ
  id_range : 0 < id ∧ id ≤ 10
  value_range : 0 < value ∧ value ≤ 19
  time_range : 0 < time ∧ time ≤ 19

/-- The number of digits together. -/
def DigitCounts.total (counts : DigitCounts) : ℕ := counts.id + counts.value + counts.time

/-- The fields as natural numbers. -/
def CSporkMessage.numbers : List ℕ :=
  [spork.nSporkID.toInt.toNat, spork.nValue.toInt.toNat, spork.nTimeSigned.toInt.toNat]

/-- The fields are nonnegative and have these digit counts. -/
structure CSporkMessage.HasCounts (spork : CSporkMessage) (counts : DigitCounts) : Prop where
  id_nonneg : 0 ≤ spork.nSporkID.toInt
  value_nonneg : 0 ≤ spork.nValue.toInt
  time_nonneg : 0 ≤ spork.nTimeSigned.toInt
  counts_eq : digitCounts spork.numbers = [counts.id, counts.value, counts.time]

theorem toList_toString_of_nonneg {x : ℤ} (hx : 0 ≤ x) :
    (toString x).toList = Nat.toDigits 10 x.toNat := by
  obtain ⟨n, rfl⟩ := Int.eq_ofNat_of_zero_le hx
  have hnat : toString (n : ℤ) = toString n := rfl
  simp [hnat]

variable {counts : DigitCounts}

theorem toList_strMessage {spork : CSporkMessage} (h : spork.HasCounts counts) :
    spork.strMessage.toList = joined spork.numbers := by
  rw [strMessage, String.toList_append, String.toList_append,
    toList_toString_of_nonneg h.id_nonneg, toList_toString_of_nonneg h.value_nonneg,
    toList_toString_of_nonneg h.time_nonneg]
  simp only [numbers, joined, flatMap_cons, flatMap_nil, append_nil, append_assoc]

theorem sameFields_of_numbers {spork other : CSporkMessage} {counts' : DigitCounts}
    (h : spork.HasCounts counts) (h' : other.HasCounts counts')
    (heq : spork.numbers = other.numbers) : spork.SameFields other := by
  simp only [numbers, List.cons.injEq] at heq
  obtain ⟨hid, hvalue, htime, -⟩ := h
  obtain ⟨hid', hvalue', htime', -⟩ := h'
  refine ⟨Int32.toInt_inj.mp ?_, Int64.toInt_inj.mp ?_, Int64.toInt_inj.mp ?_⟩ <;> omega

/-- The message whose fields are written with ones only. -/
def repunitSpork (counts : DigitCounts) : CSporkMessage :=
  ⟨Int32.ofNat (repunit counts.id), Int64.ofNat (repunit counts.value),
    Int64.ofNat (repunit counts.time), []⟩

section

variable (counts : DigitCounts)

theorem toInt_repunitSpork :
    (repunitSpork counts).nSporkID.toInt = repunit counts.id
      ∧ (repunitSpork counts).nValue.toInt = repunit counts.value
      ∧ (repunitSpork counts).nTimeSigned.toInt = repunit counts.time :=
  ⟨Int32.toInt_ofNat_of_lt (lt_of_le_of_lt (repunit_mono counts.id_range.2) (by decide)),
    Int64.toInt_ofNat_of_lt (lt_of_le_of_lt (repunit_mono counts.value_range.2) (by decide)),
    Int64.toInt_ofNat_of_lt (lt_of_le_of_lt (repunit_mono counts.time_range.2) (by decide))⟩

theorem numbers_repunitSpork :
    (repunitSpork counts).numbers = [counts.id, counts.value, counts.time].map repunit := by
  obtain ⟨hid, hvalue, htime⟩ := toInt_repunitSpork counts
  simp only [numbers, hid, hvalue, htime, Int.toNat_natCast, map_cons, map_nil]

theorem hasCounts_repunitSpork : (repunitSpork counts).HasCounts counts := by
  obtain ⟨hid, hvalue, htime⟩ := toInt_repunitSpork counts
  refine ⟨by omega, by omega, by omega, ?_⟩
  rw [numbers_repunitSpork]
  simp [digitCounts, length_toDigits_repunit counts.id_range.1,
    length_toDigits_repunit counts.value_range.1, length_toDigits_repunit counts.time_range.1]

theorem toList_strMessage_repunitSpork :
    (repunitSpork counts).strMessage.toList = List.replicate counts.total '1' := by
  have hpos : ∀ n ∈ [counts.id, counts.value, counts.time], 0 < n := by
    simp [counts.id_range.1, counts.value_range.1, counts.time_range.1]
  rw [toList_strMessage (hasCounts_repunitSpork counts), numbers_repunitSpork,
    joined_repunits _ hpos]
  simp [DigitCounts.total, add_assoc]

end

theorem counts_eq_of_sameFields {spork other : CSporkMessage} {counts' : DigitCounts}
    (h : spork.HasCounts counts) (h' : other.HasCounts counts') (hsame : spork.SameFields other) :
    counts = counts' := by
  obtain ⟨hid, hvalue, htime⟩ := hsame
  have hnumbers : spork.numbers = other.numbers := by
    simp only [numbers, hid, hvalue, htime]
  have hcounts := h.counts_eq.symm.trans ((congrArg digitCounts hnumbers).trans h'.counts_eq)
  simp only [List.cons.injEq, and_true] at hcounts
  exact DigitCounts.ext hcounts.1 hcounts.2.1 hcounts.2.2

theorem length_strMessage {spork : CSporkMessage} (h : spork.HasCounts counts) :
    spork.strMessage.toList.length = counts.total := by
  simp [toList_strMessage h, length_joined, h.counts_eq, DigitCounts.total, add_assoc]

/-! ## Which messages a signature tells apart -/

/-- **When the signed text determines the message.** Take messages with nonnegative fields and given
    digit counts. Equal texts mean equal fields, and a signature for one message fits no other one,
    exactly if the digit counts are the same or do not have the same sum. -/
theorem sporkMessage_unambiguous_iff (signer : IdealSigner) (counts counts' : DigitCounts) :
    ((∀ spork other : CSporkMessage, spork.HasCounts counts → other.HasCounts counts' →
          spork.strMessage = other.strMessage → spork.SameFields other)
        ∧ ∀ spork other : CSporkMessage, spork.HasCounts counts → other.HasCounts counts' →
          checkSignature signer.toMessageSigner signer.pubkey
            { other with vchSig := (spork.signed signer).vchSig } = true →
          spork.SameFields other)
      ↔ counts = counts' ∨ counts.total ≠ counts'.total := by
  constructor
  · rintro ⟨htexts, -⟩
    by_contra! hneither
    have htext : (repunitSpork counts).strMessage = (repunitSpork counts').strMessage := by
      rw [← String.toList_inj, toList_strMessage_repunitSpork, toList_strMessage_repunitSpork,
        hneither.2]
    have hcounts := hasCounts_repunitSpork counts
    have hcounts' := hasCounts_repunitSpork counts'
    exact hneither.1 (counts_eq_of_sameFields hcounts hcounts' (htexts _ _ hcounts hcounts' htext))
  · intro hcounts
    have htexts : ∀ spork other : CSporkMessage, spork.HasCounts counts →
        other.HasCounts counts' → spork.strMessage = other.strMessage →
        spork.SameFields other := by
      intro spork other h h' htext
      rcases hcounts with rfl | htotal
      · refine sameFields_of_numbers h h' (joined_injOn _ ?_ ?_)
        · rw [h.counts_eq, h'.counts_eq]
        · rw [← toList_strMessage h, ← toList_strMessage h', htext]
      · rw [← length_strMessage h, ← length_strMessage h', htext] at htotal
        exact absurd rfl htotal
    exact ⟨htexts, fun spork other h h' hcheck =>
      htexts spork other h h' (((sign_spec signer spork).2.2 other).mp hcheck)⟩

/-- The bytes of the text as its own signature: an ideal scheme as far as texts are concerned. -/
def plainSigner : IdealSigner where
  Key := Unit
  PubKey := Unit
  getKeysFromSecret := fun _ => some ((), ())
  signMessage := fun message _ => some message.toByteArray.data.toList
  verifyMessage := fun _ vchSig message => decide (message.toByteArray.data.toList = vchSig)
  secret := ""
  key := ()
  pubkey := ()
  keys := rfl
  signs := fun message => ⟨_, rfl⟩
  verifies_iff := by
    rintro message _ message' ⟨⟩
    rw [decide_eq_true_iff, Array.toList_inj, ← ByteArray.ext_iff, String.toByteArray_inj]
    exact eq_comm

/-- Superblocks are switched off until 2099. -/
def sporkOff : CSporkMessage := ⟨10008, 4070908800, 1542672000, []⟩

/-- Three digits of the value moved to the signing time. -/
def sporkForged : CSporkMessage := ⟨10008, 4070908, 8001542672000, []⟩

/-- The signature of the message that switches superblocks off fits one that switches them on, with a
    signing time in the far future. -/
theorem sporkMessage_forged :
    checkSignature plainSigner.toMessageSigner plainSigner.pubkey
        { sporkForged with vchSig := (sporkOff.signed plainSigner).vchSig } = true
      ∧ ¬ sporkOff.SameFields sporkForged := by
  refine ⟨((sign_spec plainSigner sporkOff).2.2 sporkForged).mpr ?_, fun h => ?_⟩
  · decide +kernel
  · exact absurd h.2.1 (by decide)

/-! ## The spork manager -/

/-- `mapSporks` and the `mapSporksActive` of `CSporkManager`. -/
structure CSporkManager where
  mapSporks : AList (fun _ : Uint256 => CSporkMessage)
  mapSporksActive : AList (fun _ : Int32 => CSporkMessage)
deriving DecidableEq

/-- A node that has seen no spork. -/
def CSporkManager.init : CSporkManager := ⟨∅, ∅⟩

/-- What the manager needs of the rest of the program: the signature scheme with the spork key of the
    network, `CSporkMessage::GetHash`, `fLiteMode`, and whether the chain has a tip. -/
structure SporkContext where
  signer : MessageSigner
  sporkPubKey : signer.PubKey
  getHash : CSporkMessage → Uint256
  fLiteMode : Bool
  hasTip : Bool

/-- The two insertions of `ProcessSpork`. -/
def CSporkManager.store (ctx : SporkContext) (s : CSporkManager) (spork : CSporkMessage) :
    CSporkManager :=
  { mapSporks := s.mapSporks.insert (ctx.getHash spork) spork
    mapSporksActive := s.mapSporksActive.insert spork.nSporkID spork }

/-- The end of `CSporkManager::ProcessSpork`, once the message is not an old one. -/
def CSporkManager.acceptSpork (ctx : SporkContext) (s : CSporkManager) (spork : CSporkMessage) :
    CSporkManager :=
  if !spork.checkSignature ctx.signer ctx.sporkPubKey then s else s.store ctx spork

/-- `CSporkManager::ProcessSpork` for a `SPORK`. -/
def CSporkManager.processSpork (ctx : SporkContext) (s : CSporkManager) (spork : CSporkMessage) :
    CSporkManager :=
  if ctx.fLiteMode then s
  else if !ctx.hasTip then s
  else
    match s.mapSporksActive.lookup spork.nSporkID with
    | some active =>
      if active.nTimeSigned ≥ spork.nTimeSigned then s else s.acceptSpork ctx spork
    | none => s.acceptSpork ctx spork

/-- The defaults in `GetSporkValue`. -/
def sporkDefault (nSporkID : Int32) : Option Int64 :=
  if nSporkID = 10001 then some 0                  -- SPORK_2_INSTANTSEND_ENABLED
  else if nSporkID = 10002 then some 0             -- SPORK_3_INSTANTSEND_BLOCK_FILTERING
  else if nSporkID = 10004 then some 1000          -- SPORK_5_INSTANTSEND_MAX_VALUE
  else if nSporkID = 10007 then some 1542672000    -- SPORK_8_MASTERNODE_PAYMENT_ENFORCEMENT
  else if nSporkID = 10008 then some 1542672000    -- SPORK_9_SUPERBLOCKS_ENABLED
  else if nSporkID = 10009 then some 1542672000    -- SPORK_10_MASTERNODE_PAY_UPDATED_NODES
  else if nSporkID = 10011 then some 0             -- SPORK_12_RECONSIDER_BLOCKS
  else if nSporkID = 10012 then some 4070908800    -- SPORK_13_OLD_SUPERBLOCK_FLAG
  else if nSporkID = 10013 then some 4070908800    -- SPORK_14_REQUIRE_SENTINEL_FLAG
  else none

/-- `CSporkManager::GetSporkValue`. -/
def CSporkManager.getSporkValue (s : CSporkManager) (nSporkID : Int32) : Int64 :=
  match s.mapSporksActive.lookup nSporkID with
  | some spork => spork.nValue
  | none => (sporkDefault nSporkID).getD (-1)

/-- A node after it has processed some messages. -/
def runSporks (ctx : SporkContext) (sporks : List CSporkMessage) : CSporkManager :=
  sporks.foldl (CSporkManager.processSpork ctx) CSporkManager.init

/-- **Forged sporks leave no trace.** Whatever messages come, the node is in the state that the
    properly signed ones among them lead to. -/
theorem runSporks_eq_filter (ctx : SporkContext) (sporks : List CSporkMessage) :
    runSporks ctx sporks
      = runSporks ctx (sporks.filter (CSporkMessage.checkSignature ctx.signer ctx.sporkPubKey)) := by
  have hforged : ∀ (s : CSporkManager) (spork : CSporkMessage),
      spork.checkSignature ctx.signer ctx.sporkPubKey = false → s.processSpork ctx spork = s := by
    intro s spork hbad
    simp only [CSporkManager.processSpork, CSporkManager.acceptSpork, hbad]
    cases s.mapSporksActive.lookup spork.nSporkID <;> simp
  rw [runSporks, runSporks, foldl_filter]
  refine foldl_ext _ _ _ fun s spork _ => ?_
  split_ifs with hgood
  · rfl
  · exact hforged s spork (by simpa using hgood)

/-! ## Convergence -/

/-- The signing time, in which order sporks replace each other. -/
def CSporkMessage.time : ℤ := spork.nTimeSigned.toInt

section

variable {ctx : SporkContext} (hmode : ctx.fLiteMode = false) (htip : ctx.hasTip = true)
include hmode htip

open CSporkManager

theorem mapSporksActive_processSpork (s : CSporkManager) {spork : CSporkMessage}
    (hsigned : spork.checkSignature ctx.signer ctx.sporkPubKey) :
    (s.processSpork ctx spork).mapSporksActive
      = offer nSporkID time s.mapSporksActive spork := by
  have haccept : s.acceptSpork ctx spork = s.store ctx spork := by
    simp [acceptSpork, hsigned]
  simp only [processSpork, hmode, htip, haccept, offer, Bool.not_true, Bool.false_eq_true, if_false]
  cases s.mapSporksActive.lookup spork.nSporkID with
  | none => rfl
  | some active =>
    simp only [time, ← Int64.le_iff_toInt_le]
    split_ifs <;> rfl

/-- A node's active sporks are the latest of what it has processed. -/
theorem mapSporksActive_runSporks {sporks : List CSporkMessage}
    (hsigned : ∀ spork ∈ sporks, spork.checkSignature ctx.signer ctx.sporkPubKey) :
    (runSporks ctx sporks).mapSporksActive
      = offerAll nSporkID time ∅ sporks := by
  have hfold : ∀ s : CSporkManager,
      (sporks.foldl (processSpork ctx) s).mapSporksActive
        = offerAll nSporkID time s.mapSporksActive sporks := by
    induction sporks with
    | nil => exact fun _ => rfl
    | cons spork rest ih =>
      intro s
      rw [forall_mem_cons] at hsigned
      rw [foldl_cons, ih hsigned.2, mapSporksActive_processSpork hmode htip s hsigned.1]
      rfl
  exact hfold init

variable {order : List CSporkMessage}

section

variable (hsigned : ∀ spork ∈ order, spork.checkSignature ctx.signer ctx.sporkPubKey = true)

include hsigned

/-- The value of a spork is that of a latest message about it. -/
theorem getSporkValue_runSporks {spork : CSporkMessage} (hmem : spork ∈ order) :
    ∃ held, IsLatest nSporkID time order held
      ∧ held.nSporkID = spork.nSporkID
      ∧ (runSporks ctx order).getSporkValue spork.nSporkID = held.nValue := by
  obtain ⟨held, hlookup, hid, hlatest⟩ :=
    exists_latest_held nSporkID time hmem
  refine ⟨held, hlatest, hid, ?_⟩
  rw [getSporkValue, mapSporksActive_runSporks hmode htip hsigned, hlookup]

theorem getSporkValue_runSporks_of_none {nSporkID : Int32}
    (hnone : ∀ spork ∈ order, spork.nSporkID ≠ nSporkID) :
    (runSporks ctx order).getSporkValue nSporkID = (sporkDefault nSporkID).getD (-1) := by
  rw [getSporkValue, mapSporksActive_runSporks hmode htip hsigned,
    lookup_offerAll_eq_none _ _ hnone]

end

theorem getSporkValue_runSporks_first {first : CSporkMessage}
    (hsigned : ∀ spork ∈ first :: order, spork.checkSignature ctx.signer ctx.sporkPubKey)
    (hlatest : IsLatest nSporkID time (first :: order) first) :
    (runSporks ctx (first :: order)).getSporkValue first.nSporkID = first.nValue := by
  rw [getSporkValue, mapSporksActive_runSporks hmode htip hsigned,
    lookup_offerAll_first _ _ hlatest]

end

/-- The latest messages about a spork agree on its value. -/
def LatestAgree (sporks : List CSporkMessage) : Prop :=
  ∀ spork other, IsLatest CSporkMessage.nSporkID CSporkMessage.time sporks spork →
    IsLatest CSporkMessage.nSporkID CSporkMessage.time sporks other →
    spork.nSporkID = other.nSporkID → spork.nValue = other.nValue

/-- **When nodes agree on all sporks.** Nodes that process the same signed messages, each in its own
    order and with any repetitions, end up with the same value for every spork, that of the latest
    message about it, exactly if no two messages about one spork share the latest signing time and
    have different values. -/
theorem sporks_converge_iff (ctx : SporkContext) (sporks : List CSporkMessage)
    (hmode : ctx.fLiteMode = false) (htip : ctx.hasTip = true)
    (hsigned : ∀ spork ∈ sporks, spork.checkSignature ctx.signer ctx.sporkPubKey = true) :
    (∀ order order' : List CSporkMessage, (∀ m, m ∈ order ↔ m ∈ sporks) →
        (∀ m, m ∈ order' ↔ m ∈ sporks) →
        (∀ nSporkID, (runSporks ctx order).getSporkValue nSporkID
          = (runSporks ctx order').getSporkValue nSporkID)
        ∧ ∀ spork, IsLatest nSporkID time sporks spork →
          (runSporks ctx order).getSporkValue spork.nSporkID = spork.nValue)
      ↔ LatestAgree sporks := by
  have hsig := fun {order : List CSporkMessage} (hset : ∀ m, m ∈ order ↔ m ∈ sporks) m hm =>
    hsigned m ((hset m).mp hm)
  constructor
  · -- of two latest messages, whichever comes first decides
    intro hconverge spork other hspork hother hid
    have hset : ∀ m, m ∈ other :: sporks ↔ m ∈ sporks := by simp [hother.1]
    have hvalue := (hconverge (other :: sporks) (other :: sporks) hset hset).2 spork hspork
    have hfirst := getSporkValue_runSporks_first hmode htip (hsig hset)
      ((isLatest_congr _ _ hset other).mpr hother)
    rw [← hvalue, hid, hfirst]
  · intro hagree
    have hlatest : ∀ order : List CSporkMessage, (∀ m, m ∈ order ↔ m ∈ sporks) →
        ∀ spork, IsLatest nSporkID time sporks spork →
          (runSporks ctx order).getSporkValue spork.nSporkID = spork.nValue := by
      intro order hset spork hspork
      obtain ⟨held, hheld, hid, hvalue⟩ := getSporkValue_runSporks hmode htip (hsig hset)
        ((hset spork).mpr hspork.1)
      rw [hvalue]
      exact hagree held spork ((isLatest_congr _ _ hset held).mp hheld) hspork hid
    intro order order' hset hset'
    refine ⟨fun nSporkID => ?_, hlatest order hset⟩
    by_cases hsome : ∃ spork ∈ sporks, spork.nSporkID = nSporkID
    · obtain ⟨spork, hmem, rfl⟩ := hsome
      obtain ⟨held, hheld, hid, hvalue⟩ := getSporkValue_runSporks hmode htip (hsig hset)
        ((hset spork).mpr hmem)
      rw [hvalue, ← hid, hlatest order' hset' held ((isLatest_congr _ _ hset held).mp hheld)]
    · push Not at hsome
      rw [getSporkValue_runSporks_of_none hmode htip (hsig hset) (fun m hm => hsome m ((hset m).mp hm)),
        getSporkValue_runSporks_of_none hmode htip (hsig hset') fun m hm => hsome m ((hset' m).mp hm)]

/-- A node that is up, with the signatures of `plainSigner`. -/
def sporkContext : SporkContext :=
  { signer := plainSigner.toMessageSigner
    sporkPubKey := plainSigner.pubkey
    getHash := fun spork => BitVec.ofInt 256 spork.nValue.toInt
    fLiteMode := false
    hasTip := true }

theorem checkSignature_signed :
    (spork.signed plainSigner).checkSignature sporkContext.signer sporkContext.sporkPubKey := by
  obtain ⟨-, heq, hcheck⟩ := sign_spec plainSigner spork
  exact (hcheck spork).mpr rfl

/-- Superblocks are switched on again a second later. -/
def sporkLater : CSporkMessage := ⟨10008, 0, 1542672001, []⟩

/-- The later message counts in both orders. -/
theorem sporks_converge_two :
    (runSporks sporkContext [sporkOff.signed plainSigner, sporkLater.signed plainSigner]).getSporkValue
        10008 = 0
      ∧ (runSporks sporkContext
          [sporkLater.signed plainSigner, sporkOff.signed plainSigner]).getSporkValue 10008 = 0 := by
  have hlatest : ∀ spork, IsLatest nSporkID time
      [sporkOff.signed plainSigner, sporkLater.signed plainSigner] spork
      ↔ spork = sporkLater.signed plainSigner := by
    intro spork
    constructor
    · rintro ⟨hmem, hmax⟩
      have hle := hmax (sporkLater.signed plainSigner) (by simp)
      simp only [mem_cons, not_mem_nil, or_false] at hmem
      rcases hmem with rfl | rfl
      · exact absurd (hle rfl) (by decide)
      · rfl
    · rintro rfl
      exact ⟨by simp, by decide⟩
  have hconverge := (sporks_converge_iff sporkContext
    [sporkOff.signed plainSigner, sporkLater.signed plainSigner] rfl rfl
    (by simp [checkSignature_signed])).mpr fun spork other hspork hother _ => by
      rw [(hlatest _).mp hspork, (hlatest _).mp hother]
  have hset : ∀ m, m ∈ [sporkLater.signed plainSigner, sporkOff.signed plainSigner]
      ↔ m ∈ [sporkOff.signed plainSigner, sporkLater.signed plainSigner] := by
    simp [or_comm]
  exact ⟨(hconverge _ _ (fun _ => Iff.rfl) hset).2 _ ((hlatest _).mpr rfl),
    (hconverge _ _ hset hset).2 _ ((hlatest _).mpr rfl)⟩

/-- Superblocks switched off and on in the same second. -/
def sporkOn : CSporkMessage := ⟨10008, 0, 1542672000, []⟩

/-- Two nodes that get the two messages in different order disagree about superblocks. -/
theorem sporks_diverge :
    (runSporks sporkContext [sporkOff.signed plainSigner, sporkOn.signed plainSigner]).getSporkValue
        10008 = 4070908800
      ∧ (runSporks sporkContext
          [sporkOn.signed plainSigner, sporkOff.signed plainSigner]).getSporkValue 10008 = 0 := by
  decide +kernel

end Binarium
