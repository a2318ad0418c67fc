import Binarium.PrivateSend.Server
import Binarium.Script.Flags

set_option autoImplicit false

/-! # What holds of mixing sessions

The entries of a session change in two ways only: one is added after its outputs were compared with
those of the others, and a signature is filled in. Everything else keeps the entries or drops them
all. From this follows what the entries of a reachable session have in common. The other results are
about single handlers: what a rejected entry or signature, a failed commit and the charging of fees
leave behind. -/

namespace Binarium

open Checks List

namespace CPrivateSendServer

variable {ctx : MixingContext} {s s' : CPrivateSendServer}

/-! ## What a step does -/

/-- A change of the session without a new entry and without a signature: the entries and the final
    transaction stay, all is dropped, or the final transaction is made of the entries. -/
inductive Settles : CPrivateSendServer → CPrivateSendServer → Prop
  | same {s s' : CPrivateSendServer} (hentries : s'.vecEntries = s.vecEntries)
      (hfinal : s'.finalMutableTransaction = s.finalMutableTransaction)
      (hstate : s'.nState ≠ .signing → s.nState ≠ .signing) : Settles s s'
  | drop {s s' : CPrivateSendServer} (hentries : s'.vecEntries = [])
      (hfinal : s'.finalMutableTransaction.vin = []) : Settles s s'
  | final {s s' : CPrivateSendServer} (hentries : s'.vecEntries = s.vecEntries)
      (hbefore : s.nState ≠ .signing) (hstate : s'.nState = .signing)
      (hvin : ∀ own ∈ s'.finalMutableTransaction.vin, own ∈ s.poolTransaction.vin) : Settles s s'

theorem Settles.refl : Settles s s := .same rfl rfl id

theorem settles_setNull : Settles s (s'.setNull ctx) := .drop rfl rfl

theorem relayStatus_cases (u : PoolStatusUpdate) :
    (s.relayStatus ctx u).2 = s ∨ (s.relayStatus ctx u).2 = s.setNull ctx := by
  simp only [relayStatus]
  split_ifs <;> simp

theorem relayToEntries_cases (message : CService → PoolSend) :
    (s.relayToEntries ctx message).2 = s ∨ (s.relayToEntries ctx message).2 = s.setNull ctx := by
  simp only [relayToEntries]
  split_ifs
  · exact .inl rfl
  · exact relayStatus_cases _

theorem Settles.relayStatus (h : Settles s s') (u : PoolStatusUpdate) :
    Settles s (s'.relayStatus ctx u).2 := by
  obtain heq | heq : (s'.relayStatus ctx u).2 = s' ∨ _ := relayStatus_cases u
  · rwa [heq]
  · exact heq ▸ settles_setNull

theorem setState_same (st : PoolState) : (s.setState ctx st).vecEntries = s.vecEntries
    ∧ (s.setState ctx st).finalMutableTransaction = s.finalMutableTransaction := by
  unfold setState
  split_ifs <;> exact ⟨rfl, rfl⟩

theorem settles_createFinalTransaction (h : s.nState ≠ .signing) :
    Settles s (s.createFinalTransaction ctx).2 := by
  have hsigning : ∀ s : CPrivateSendServer, s.setState ctx .signing = { s with nState := .signing } :=
    fun s => by simp [setState]
  simp only [createFinalTransaction, relayFinalTransaction, hsigning]
  generalize hs₁ : ({ s with finalMutableTransaction := _ } : CPrivateSendServer) = s₁
  obtain heq | heq : (s₁.relayToEntries ctx _).2 = s₁ ∨ _ := relayToEntries_cases _ <;> rw [heq]
  · subst hs₁
    exact .final rfl h rfl fun own hown => (mem_insertionSort _).mp hown
  · exact .drop rfl rfl

theorem settles_checkPool : Settles s (s.checkPool ctx).2 := by
  unfold checkPool
  split_ifs with haccepting
  · exact settles_createFinalTransaction (by simp_all)
  · unfold commitFinalTransaction
    split_ifs
    · exact .refl
    · -- the pool was reset before the relay
      obtain heq | heq : ((s.setNull ctx).relayCompletedTransaction ctx .ERR_INVALID_TX).2 = _ ∨ _ :=
        relayToEntries_cases _ <;> exact heq ▸ settles_setNull
    · exact settles_setNull
  · exact settles_setNull
  · exact .refl

theorem settles_processDSSIGNFINALTX (vecTxIn : List CTxIn) :
    Settles (addScriptSigs ctx vecTxIn s).2 (s.processDSSIGNFINALTX ctx vecTxIn).2 := by
  simp only [processDSSIGNFINALTX]
  split_ifs
  · exact settles_checkPool
  · exact Settles.refl.relayStatus _

/-- A participant that enters changes neither the entries nor the final transaction. -/
theorem settles_acceptUser {nDenom : Int32} {tx : CTransaction}
    (h : s.acceptUser ctx nDenom tx = .ok s') : Settles s s' := by
  obtain ⟨-, h⟩ := require_bind h
  obtain ⟨-, h⟩ := require_bind h
  split_ifs at h
  · obtain ⟨hidle, h⟩ := require_bind h
    obtain ⟨-, -, h⟩ := bind_eq_ok_iff.mp h
    cases h
    exact .same (setState_same _).1 (setState_same _).2 fun _ => by simp_all
  · obtain ⟨-, -, h⟩ := bind_eq_ok_iff.mp h
    obtain ⟨-, h⟩ := require_bind h
    obtain ⟨-, h⟩ := require_bind h
    cases h
    exact .same rfl rfl id

/-- What an event brings into the session: an entry that passed the checks, or signatures. -/
inductive Takes (ctx : MixingContext) (s : CPrivateSendServer) : PoolEvent → CPrivateSendServer → Prop
  | entry {nVersion : ℤ} {addr : CService} {vecTxIn : List CTxIn} {tx : CTransaction}
      {vecTxOut : List CTxOut} {s' : CPrivateSendServer}
      (hcheck : s.checkEntry ctx ⟨vecTxIn.map fun txin => { txin with }, vecTxOut, tx, addr⟩ = .ok ())
      (hadd : s.addEntry ctx ⟨vecTxIn.map fun txin => { txin with }, vecTxOut, tx, addr⟩ = .ok s') :
      Takes ctx s (.message nVersion addr (.DSVIN vecTxIn tx vecTxOut)) s'
  | signatures {nVersion : ℤ} {addr : CService} {vecTxIn : List CTxIn} :
      Takes ctx s (.message nVersion addr (.DSSIGNFINALTX vecTxIn)) (addScriptSigs ctx vecTxIn s).2

/-- **A step takes at most one entry or message of signatures, and settles.** -/
theorem step_cases (event : PoolEvent) : Settles s (s.step ctx event).2
    ∨ ∃ mid, Takes ctx s event mid ∧ Settles mid (s.step ctx event).2 := by
  cases event with
  | message nVersion addr request =>
    simp only [step, processMessage]
    split_ifs
    · exact .inl .refl
    · cases request <;> exact .inl .refl
    · cases request with
      | DSACCEPT nDenom txCollateral =>
        refine .inl ?_
        simp only [processDSACCEPT]
        split
        · exact .refl
        · cases haccept : s.acceptUser ctx nDenom txCollateral with
          | error message => exact .refl
          | ok s' => exact settles_acceptUser haccept
      | DSVIN vecTxIn txCollateral vecTxOut =>
        simp only [processDSVIN]
        split_ifs
        · exact .inl .refl
        · cases hcheck : s.checkEntry ctx
              ⟨vecTxIn.map fun txin => { txin with }, vecTxOut, txCollateral, addr⟩ with
          | error message => exact .inl .refl
          | ok _ =>
            cases hadd : s.addEntry ctx
                ⟨vecTxIn.map fun txin => { txin with }, vecTxOut, txCollateral, addr⟩ with
            | error message => exact .inl settles_setNull
            | ok s' => exact .inr ⟨s', .entry hcheck hadd, settles_checkPool.relayStatus _⟩
      | DSSIGNFINALTX vecTxIn => exact .inr ⟨_, .signatures, settles_processDSSIGNFINALTX vecTxIn⟩
  | checkTimeout =>
    simp only [step, checkTimeout]
    generalize (if s.nState = .signing then (15 : ℤ) else 30) = nTimeout
    split_ifs
    · exact .inl (.drop (setState_same _).1 (by rw [(setState_same _).2]; rfl))
    · exact .inl .refl
  | checkForCompleteQueue =>
    simp only [step, checkForCompleteQueue]
    split_ifs with hready
    · exact .inl (.same (setState_same _).1 (setState_same _).2 fun _ => by simp_all)
    · exact .inl .refl

/-- The fields by which `AddScriptSig` finds an input. -/
def inputKey (txin : CTxIn) : COutPoint × BitVec 32 := (txin.prevout, txin.nSequence)

section

variable {txin : CTxIn}

theorem addScriptSigInputs_eq_some {vin vin' : List CTxDSIn}
    (h : addScriptSigInputs txin vin = some vin') : ∃ before txdsin after,
    inputKey txdsin.toCTxIn = inputKey txin ∧ vin = before ++ txdsin :: after
      ∧ vin' = before ++ { txdsin with scriptSig := txin.scriptSig, fHasSig := true } :: after := by
  induction vin generalizing vin' with
  | nil => simp [addScriptSigInputs] at h
  | cons txdsin rest ih =>
    unfold addScriptSigInputs at h
    split_ifs at h with hsame
    · cases h
      exact ⟨[], txdsin, rest, Prod.ext hsame.1 hsame.2, rfl, rfl⟩
    · obtain ⟨rest', hrest, rfl⟩ := Option.map_eq_some_iff.mp h
      obtain ⟨before, found, after, hfound, rfl, rfl⟩ := ih hrest
      exact ⟨txdsin :: before, found, after, hfound, rfl, rfl⟩

theorem addScriptSigEntries_eq_some {entries entries' : List CDarkSendEntry}
    (h : addScriptSigEntries txin entries = some entries') : ∃ before entry vecTxDSIn after,
    addScriptSigInputs txin entry.vecTxDSIn = some vecTxDSIn ∧ entries = before ++ entry :: after
      ∧ entries' = before ++ { entry with vecTxDSIn } :: after := by
  induction entries generalizing entries' with
  | nil => simp [addScriptSigEntries] at h
  | cons entry rest ih =>
    unfold addScriptSigEntries at h
    split at h
    · next vin hvin =>
      cases h
      exact ⟨[], entry, vin, rest, hvin, rfl, rfl⟩
    · obtain ⟨rest', hrest, rfl⟩ := Option.map_eq_some_iff.mp h
      obtain ⟨before, found, vin, after, hvin, rfl, rfl⟩ := ih hrest
      exact ⟨entry :: before, found, vin, after, hvin, rfl, rfl⟩

/-- A signature is written to the final transaction and perhaps to an input of the pool. -/
structure Signs (txin : CTxIn) (s s' : CPrivateSendServer) : Prop where
  final : s'.finalMutableTransaction = setFinalScript txin s.finalMutableTransaction
  nState : s'.nState = s.nState
  keys : s'.poolInputs.map (inputKey ·.toCTxIn) = s.poolInputs.map (inputKey ·.toCTxIn)
  inputs : ∀ txdsin ∈ s'.poolInputs, txdsin ∈ s.poolInputs
    ∨ inputKey txdsin.toCTxIn = inputKey txin ∧ txdsin.scriptSig = txin.scriptSig
  prevPubKeys : s'.poolInputs.map (·.prevPubKey) = s.poolInputs.map (·.prevPubKey)
  outputs : s'.vecEntries.map (·.vecTxOut) = s.vecEntries.map (·.vecTxOut)

theorem signs_addScriptSig (h : s.takesScriptSig ctx txin) :
    Signs txin s (s.addScriptSig ctx txin).2 := by
  unfold addScriptSig
  rw [h]
  cases hentries : addScriptSigEntries txin s.vecEntries with
  | none => exact ⟨rfl, rfl, rfl, fun txdsin h => .inl h, rfl, rfl⟩
  | some entries =>
    obtain ⟨front, entry, vin, back, hvin, hold, rfl⟩ := addScriptSigEntries_eq_some hentries
    obtain ⟨before, txdsin, after, hkey, hinputs, rfl⟩ := addScriptSigInputs_eq_some hvin
    refine ⟨rfl, rfl, by simp [poolInputs, hold, hinputs, inputKey], fun txdsin' hmem => ?_,
      by simp [poolInputs, hold, hinputs], by simp [hold]⟩
    have hcases : txdsin' ∈ s.poolInputs
        ∨ txdsin' = { txdsin with scriptSig := txin.scriptSig, fHasSig := true } := by
      simp only [poolInputs, hold, hinputs, Bool.not_true, Bool.false_eq_true, if_false,
        flatMap_append, flatMap_cons, mem_append, mem_cons] at hmem ⊢
      tauto
    rcases hcases with hmem | rfl
    · exact .inl hmem
    · exact .inr ⟨hkey, rfl⟩

theorem addScriptSig_of_not_takes (h : s.takesScriptSig ctx txin = false) :
    s.addScriptSig ctx txin = (false, s) := by
  simp [addScriptSig, h]

/-- What every signature of a list keeps, the loop keeps. -/
theorem addScriptSigs_induction {P : CPrivateSendServer → Prop} (txins : List CTxIn)
    (hsigns : ∀ txin ∈ txins, ∀ {s s' : CPrivateSendServer}, Signs txin s s' → P s → P s')
    (h : P s) : P (addScriptSigs ctx txins s).2 := by
  induction txins generalizing s with
  | nil => exact h
  | cons txin rest ih =>
    have hfirst : P (s.addScriptSig ctx txin).2 := by
      cases htakes : s.takesScriptSig ctx txin with
      | false => rwa [addScriptSig_of_not_takes htakes]
      | true => exact hsigns txin mem_cons_self (signs_addScriptSig htakes) h
    simp only [addScriptSigs]
    split_ifs
    · exact ih (fun txin hmem => hsigns txin (mem_cons_of_mem _ hmem)) hfirst
    · exact hfirst

end

/-! ## What the entries of a session have in common -/

/-- All entries have the same denominations, and no input knows the script it has to satisfy. -/
structure Uniform (s : CPrivateSendServer) : Prop where
  denominations : ∀ vout ∈ s.vecEntries.map (·.vecTxOut), ∀ vout' ∈ s.vecEntries.map (·.vecTxOut),
    getDenominations vout = getDenominations vout'
  prevPubKey : ∀ prevPubKey ∈ s.poolInputs.map (·.prevPubKey), prevPubKey = []

theorem Uniform.settles (h : Uniform s) (hsettles : Settles s s') : Uniform s' := by
  have hentries : s'.vecEntries = s.vecEntries ∨ s'.vecEntries = [] := by
    cases hsettles <;> simp [*]
  rcases hentries with heq | hnil
  · exact ⟨heq ▸ h.denominations, by rw [poolInputs, heq]; exact h.prevPubKey⟩
  · exact ⟨by simp [hnil], by simp [poolInputs, hnil]⟩

theorem Uniform.signs {txin : CTxIn} (hsigns : Signs txin s s') (h : Uniform s) : Uniform s' :=
  ⟨hsigns.outputs ▸ h.denominations, hsigns.prevPubKeys ▸ h.prevPubKey⟩

variable {entry : CDarkSendEntry}

theorem eq_of_addEntry (h : s.addEntry ctx entry = .ok s') : s' = { s with
    vecEntries := s.vecEntries ++ [entry], nTimeLastSuccessfulStep := ctx.getTimeMillis } := by
  obtain ⟨-, h⟩ := require_bind h
  obtain ⟨-, h⟩ := require_bind h
  obtain ⟨-, h⟩ := require_bind h
  obtain ⟨-, h⟩ := require_bind h
  cases h
  rfl

theorem compatible_of_checkEntry (h : s.checkEntry ctx entry = .ok ()) :
    ∀ old ∈ s.vecEntries, getDenominations entry.vecTxOut = getDenominations old.vecTxOut := by
  obtain ⟨-, h⟩ := require_bind h
  obtain ⟨-, h⟩ := require_bind h
  obtain ⟨hcompatible, -⟩ := require_bind h
  simp only [isOutputsCompatibleWithSessionDenom, Bool.and_eq_true, all_eq_true,
    beq_iff_eq] at hcompatible
  exact hcompatible.2

theorem Uniform.takes {event : PoolEvent} (h : Uniform s) (htakes : Takes ctx s event s') :
    Uniform s' := by
  cases htakes with
  | signatures => exact addScriptSigs_induction _ (fun _ _ => Uniform.signs) h
  | entry hcheck hadd =>
    have hnew := compatible_of_checkEntry hcheck
    obtain ⟨hdenominations, hprevPubKey⟩ := h
    rw [eq_of_addEntry hadd]
    constructor
    · simp only [map_append, map_cons, map_nil, mem_append, mem_map, mem_singleton] at hdenominations ⊢
      grind
    · simp only [poolInputs, flatMap_append, map_append, mem_append] at hprevPubKey ⊢
      rintro prevPubKey (hold | hmem)
      · exact hprevPubKey prevPubKey hold
      · simp at hmem
        exact hmem.2

theorem Uniform.step (h : Uniform s) (event : PoolEvent) : Uniform (s.step ctx event).2 := by
  obtain hsettles | ⟨mid, htakes, hsettles⟩ : Settles s (s.step ctx event).2 ∨ _ := step_cases event
  · exact h.settles hsettles
  · exact (h.takes htakes).settles hsettles

/-- **Entries agree.** In every session a server comes to, all entries have the same denominations
    and no input has a script to satisfy. -/
theorem Reachable.uniform (h : Reachable s) : Uniform s := by
  obtain ⟨nTime, events, rfl⟩ := h
  have start : Uniform (initial nTime) := ⟨by simp [initial], by simp [initial, poolInputs]⟩
  generalize initial nTime = s at start
  induction events generalizing s with
  | nil => exact start
  | cons event rest ih => exact ih _ (start.step event.2)

/-- **Session denomination.** All entries have the denomination of the session exactly when the
    first one has: it is compared with nothing, and all later ones with it. -/
theorem session_denomination_iff (h : Reachable s) :
    (∀ entry ∈ s.vecEntries, getDenominations entry.vecTxOut = s.nSessionDenom)
      ↔ ∀ entry ∈ s.vecEntries.head?, getDenominations entry.vecTxOut = s.nSessionDenom := by
  refine ⟨fun hall entry hentry => hall entry (mem_of_mem_head? hentry), fun hfirst => ?_⟩
  intro entry hentry
  obtain ⟨first, hhead⟩ := Option.ne_none_iff_exists'.mp
    (mt head?_eq_none_iff.mp (ne_nil_of_mem hentry))
  rw [← hfirst first hhead]
  exact h.uniform.denominations _ (mem_map_of_mem hentry) _ (mem_map_of_mem (mem_of_mem_head? hhead))

/-! ## Signatures -/

/-- A transaction without its signatures. -/
def withoutScripts (tx : CMutableTransaction) : CMutableTransaction :=
  { tx with vin := tx.vin.map fun txin => { txin with scriptSig := [] } }

/-- The checker does not look at the scripts of the inputs, which `SignatureHash` leaves out. -/
def BlindToScripts (view : MixingContext) : Prop :=
  ∀ tx i, view.checker (withoutScripts tx) i = view.checker tx i

/-- A script at an input of a transaction satisfies the script of the coin that the input spends. -/
def satisfies (view : MixingContext) (tx : CMutableTransaction) (p : CTxIn × ℕ)
    (scriptSig : CScript) : Bool :=
  (view.getUTXOCoin p.1.prevout).any fun coin => (verifyScript view.crypto (view.checker tx p.2)
    poolFlags scriptSig coin.out.scriptPubKey).result.toBool

/-- A signature for an input of the session is for an input of the final transaction, and satisfies
    the script of its coin there. -/
def Genuine (view : MixingContext) (s : CPrivateSendServer) (txin : CTxIn) : Prop :=
  inputKey txin ∈ s.poolInputs.map (inputKey ·.toCTxIn) →
    inputKey txin ∈ s.finalMutableTransaction.vin.map inputKey
      ∧ ∀ p ∈ s.finalMutableTransaction.vin.zipIdx, inputKey p.1 = inputKey txin →
        satisfies view s.finalMutableTransaction p txin.scriptSig = true

instance (view : MixingContext) (s : CPrivateSendServer) (txin : CTxIn) :
    Decidable (Genuine view s txin) := by
  unfold Genuine
  infer_instance

/-- The signatures of a sign message are genuine. -/
def genuineEvent (view : MixingContext) (s : CPrivateSendServer) : PoolEvent → Bool
  | .message _ _ (.DSSIGNFINALTX vecTxIn) => decide (∀ txin ∈ vecTxIn, Genuine view s txin)
  | _ => true

/-- All signatures that are sent in a run are genuine when they come. -/
def genuineRun (view : MixingContext) :
    CPrivateSendServer → List (MixingContext × PoolEvent) → Bool
  | _, [] => true
  | s, e :: rest => genuineEvent view s e.2 && genuineRun view (s.step e.1 e.2).2 rest

/-- The sessions that an event hands to `CheckPool`, which commits the final transaction when all
    inputs are signed. -/
def poolChecks (ctx : MixingContext) (s : CPrivateSendServer) : PoolEvent → List CPrivateSendServer
  | .message _ addr (.DSVIN vecTxIn txCollateral vecTxOut) =>
    (s.addEntry ctx
      ⟨vecTxIn.map fun txin => { txin with }, vecTxOut, txCollateral, addr⟩).toOption.toList
  | .message _ _ (.DSSIGNFINALTX vecTxIn) => [(addScriptSigs ctx vecTxIn s).2]
  | _ => []

/-- Every input that is recorded as signed is in the final transaction and satisfies the script of its
    coin there. -/
def SignedValid (view : MixingContext) (s : CPrivateSendServer) : Prop :=
  ∀ txdsin ∈ s.poolInputs, txdsin.fHasSig = true →
    inputKey txdsin.toCTxIn ∈ s.finalMutableTransaction.vin.map inputKey
      ∧ ∀ p ∈ s.finalMutableTransaction.vin.zipIdx, inputKey p.1 = inputKey txdsin.toCTxIn →
        satisfies view s.finalMutableTransaction p p.1.scriptSig = true

/-- What holds of a session with genuine signatures. -/
structure Sound (view : MixingContext) (s : CPrivateSendServer) : Prop where
  covered : ∀ own ∈ s.finalMutableTransaction.vin,
    inputKey own ∈ s.poolInputs.map (inputKey ·.toCTxIn)
  signed : SignedValid view s
  early : s.nState ≠ .signing → s.finalMutableTransaction.vin = []

section

variable {view : MixingContext}

theorem Sound.of_empty (hentries : s.vecEntries = []) (hfinal : s.finalMutableTransaction.vin = []) :
    Sound view s :=
  ⟨by simp [hfinal], by simp [SignedValid, poolInputs, hentries], fun _ => hfinal⟩

theorem Sound.settles (h : Sound view s) (hsettles : Settles s s') : Sound view s' := by
  cases hsettles with
  | same hentries hfinal hstate =>
    refine ⟨?_, ?_, fun hne => by rw [hfinal, h.early (hstate hne)]⟩
    · simpa only [poolInputs, hentries, hfinal] using h.covered
    · simpa only [SignedValid, poolInputs, hentries, hfinal] using h.signed
  | drop hentries hfinal => exact .of_empty hentries hfinal
  | final hentries hbefore hstate hvin =>
    refine ⟨fun own hown => ?_, fun txdsin hmem hsigned => ?_, fun hne => absurd hstate hne⟩
    · obtain ⟨txdsin, hmem, rfl⟩ := mem_map.mp (hvin own hown)
      rw [poolInputs, hentries]
      exact mem_map.mpr ⟨txdsin, hmem, rfl⟩
    · -- nobody has signed before there is a final transaction
      rw [poolInputs, hentries] at hmem
      have hown := (h.signed txdsin hmem hsigned).1
      simp [h.early hbefore] at hown

/-! ### One signature -/

theorem withoutScripts_setFinalScript (txin : CTxIn) (tx : CMutableTransaction) :
    withoutScripts (setFinalScript txin tx) = withoutScripts tx := by
  simp only [withoutScripts, setFinalScript, map_map, CMutableTransaction.mk.injEq, true_and, and_true]
  refine map_congr_left fun own _ => ?_
  simp only [Function.comp]
  split_ifs <;> rfl

theorem map_inputKey_setFinalScript (txin : CTxIn) (tx : CMutableTransaction) :
    (setFinalScript txin tx).vin.map inputKey = tx.vin.map inputKey := by
  simp only [setFinalScript, map_map]
  refine map_congr_left fun own _ => ?_
  simp only [Function.comp]
  split_ifs <;> rfl

/-- An input after a signature was written, and before. -/
theorem mem_zipIdx_setFinalScript {txin : CTxIn} {tx : CMutableTransaction} {p : CTxIn × ℕ}
    (hp : p ∈ (setFinalScript txin tx).vin.zipIdx) : ∃ own, (own, p.2) ∈ tx.vin.zipIdx
      ∧ inputKey p.1 = inputKey own
      ∧ p.1.scriptSig = if inputKey own = inputKey txin then txin.scriptSig else own.scriptSig := by
  simp only [setFinalScript, zipIdx_map, mem_map] at hp
  obtain ⟨⟨own, i⟩, hown, rfl⟩ := hp
  refine ⟨own, hown, ?_, ?_⟩
  · simp only [Prod.map]
    split_ifs <;> rfl
  · simp only [Prod.map, inputKey, Prod.mk.injEq, eq_comm]
    split_ifs <;> rfl

theorem satisfies_setFinalScript (hblind : BlindToScripts view) (txin : CTxIn)
    (tx : CMutableTransaction) (i : ℕ) {own own' : CTxIn} (hkey : inputKey own' = inputKey own)
    (scriptSig : CScript) :
    satisfies view (setFinalScript txin tx) (own', i) scriptSig
      = satisfies view tx (own, i) scriptSig := by
  rw [satisfies, satisfies, ← hblind, withoutScripts_setFinalScript, hblind]
  rw [show own'.prevout = own.prevout from congrArg Prod.fst hkey]

theorem Genuine.signs {txin txin' : CTxIn} (hblind : BlindToScripts view)
    (h : Genuine view s txin') (hsigns : Signs txin s s') : Genuine view s' txin' := by
  unfold Genuine at h ⊢
  rw [hsigns.keys, hsigns.final, map_inputKey_setFinalScript]
  refine fun hmem => ⟨(h hmem).1, fun p hp hkey => ?_⟩
  obtain ⟨own, hown, hsame, -⟩ := mem_zipIdx_setFinalScript hp
  exact (satisfies_setFinalScript hblind txin _ p.2 hsame _).trans
    ((h hmem).2 (own, p.2) hown (hsame ▸ hkey))

theorem Sound.signs {txin : CTxIn} (hblind : BlindToScripts view) (h : Sound view s)
    (hgenuine : Genuine view s txin) (hsigns : Signs txin s s') : Sound view s' := by
  have hkeys := map_inputKey_setFinalScript txin s.finalMutableTransaction
  refine ⟨fun own hown => ?_, fun txdsin hmem hsigned => ?_, fun hstate => ?_⟩
  · rw [hsigns.keys]
    rw [hsigns.final] at hown
    obtain ⟨old, hold, hkey⟩ := mem_map.mp (hkeys ▸ mem_map_of_mem hown)
    exact hkey ▸ h.covered old hold
  · have hpool : inputKey txdsin.toCTxIn ∈ s.poolInputs.map (inputKey ·.toCTxIn) :=
      hsigns.keys ▸ mem_map.mpr ⟨txdsin, hmem, rfl⟩
    rw [hsigns.final, hkeys]
    -- the input that is signed now, or one that was signed before
    by_cases hnow : inputKey txdsin.toCTxIn = inputKey txin
    · obtain ⟨hown, hvalid⟩ := hgenuine (hnow ▸ hpool)
      refine ⟨hnow ▸ hown, fun p hp hkey => ?_⟩
      obtain ⟨own, hold, hsame, hscript⟩ := mem_zipIdx_setFinalScript hp
      have htxin : inputKey own = inputKey txin := hsame.symm.trans (hkey.trans hnow)
      rw [hscript, if_pos htxin, satisfies_setFinalScript hblind txin _ p.2 hsame]
      exact hvalid (own, p.2) hold htxin
    · have hbefore := (hsigns.inputs txdsin hmem).resolve_right fun h => hnow h.1
      obtain ⟨hown, hvalid⟩ := h.signed txdsin hbefore hsigned
      refine ⟨hown, fun p hp hkey => ?_⟩
      obtain ⟨own, hold, hsame, hscript⟩ := mem_zipIdx_setFinalScript hp
      have hother : inputKey own ≠ inputKey txin := fun heq =>
        hnow (hkey.symm.trans (hsame.trans heq))
      rw [hscript, if_neg hother, satisfies_setFinalScript hblind txin _ p.2 hsame]
      exact hvalid (own, p.2) hold (hsame.symm.trans hkey)
  · rw [hsigns.final, setFinalScript, h.early (hsigns.nState ▸ hstate)]
    rfl

theorem Sound.addScriptSigs (hblind : BlindToScripts view) (vecTxIn : List CTxIn) (h : Sound view s)
    (hgenuine : ∀ txin ∈ vecTxIn, Genuine view s txin) :
    Sound view (addScriptSigs ctx vecTxIn s).2 := by
  -- a signature leaves the others genuine
  refine (addScriptSigs_induction (P := fun s => Sound view s ∧ ∀ txin ∈ vecTxIn, Genuine view s txin)
    vecTxIn (fun txin hmem _ _ hsigns hs => ?_) ⟨h, hgenuine⟩).1
  exact ⟨hs.1.signs hblind (hs.2 txin hmem) hsigns,
    fun txin' hmem' => (hs.2 txin' hmem').signs hblind hsigns⟩

theorem Sound.addEntry (h : Sound view s)
    (hnew : ∀ txdsin ∈ entry.vecTxDSIn, txdsin.fHasSig = false)
    (hadd : s.addEntry ctx entry = .ok s') : Sound view s' := by
  rw [eq_of_addEntry hadd]
  refine ⟨fun own hown => ?_, fun txdsin hmem hsigned => ?_, h.early⟩
  · have hcovered := h.covered own hown
    simp only [poolInputs, flatMap_append, map_append, mem_append] at hcovered ⊢
    exact .inl hcovered
  · simp only [poolInputs, flatMap_append, flatMap_singleton, mem_append] at hmem
    rcases hmem with hmem | hmem
    · exact h.signed txdsin hmem hsigned
    · simp [hnew txdsin hmem] at hsigned

theorem Sound.poolChecks (hblind : BlindToScripts view) (h : Sound view s) (event : PoolEvent)
    (hgenuine : genuineEvent view s event) {checked : CPrivateSendServer}
    (hmem : checked ∈ s.poolChecks ctx event) : Sound view checked := by
  cases event with
  | message nVersion addr request =>
    cases request with
    | DSACCEPT nDenom txCollateral => simp [CPrivateSendServer.poolChecks] at hmem
    | DSVIN vecTxIn txCollateral vecTxOut =>
      cases hadd : s.addEntry ctx
          ⟨vecTxIn.map fun txin => { txin with }, vecTxOut, txCollateral, addr⟩ with
      | error message => simp [CPrivateSendServer.poolChecks, hadd, Except.toOption] at hmem
      | ok s' =>
        simp only [CPrivateSendServer.poolChecks, hadd, Except.toOption, Option.toList_some,
          mem_singleton] at hmem
        refine hmem ▸ h.addEntry (fun txdsin htxdsin => ?_) hadd
        obtain ⟨txin, -, rfl⟩ := mem_map.mp htxdsin
        rfl
    | DSSIGNFINALTX vecTxIn =>
      rw [CPrivateSendServer.poolChecks, mem_singleton] at hmem
      exact hmem ▸ h.addScriptSigs hblind vecTxIn (of_decide_eq_true hgenuine)
  | checkTimeout | checkForCompleteQueue => simp [CPrivateSendServer.poolChecks] at hmem

theorem Takes.mem_poolChecks {event : PoolEvent} (h : Takes ctx s event s') :
    s' ∈ s.poolChecks ctx event := by
  cases h with
  | entry hcheck hadd => simp [CPrivateSendServer.poolChecks, hadd, Except.toOption]
  | signatures => exact mem_singleton_self _

theorem Sound.step (hblind : BlindToScripts view) (h : Sound view s) (event : PoolEvent)
    (hgenuine : genuineEvent view s event) : Sound view (s.step ctx event).2 := by
  obtain hsettles | ⟨mid, htakes, hsettles⟩ : Settles s (s.step ctx event).2 ∨ _ := step_cases event
  · exact h.settles hsettles
  · exact (h.poolChecks hblind event hgenuine htakes.mem_poolChecks).settles hsettles

theorem Sound.run (hblind : BlindToScripts view) (events : List (MixingContext × PoolEvent)) :
    ∀ {s : CPrivateSendServer}, Sound view s → genuineRun view s events →
      ∀ before ctx event, before ++ [(ctx, event)] <+: events →
        Sound view (s.run before) ∧ genuineEvent view (s.run before) event := by
  induction events with
  | nil => simp
  | cons e rest ih =>
    intro s h hgenuine before ctx event hprefix
    obtain ⟨hfirst, hrest⟩ := Bool.and_eq_true_iff.mp hgenuine
    rcases before with _ | ⟨e', before⟩
    · obtain ⟨rfl, -⟩ := cons_prefix_cons.mp hprefix
      exact ⟨h, hfirst⟩
    · obtain ⟨rfl, hprefix'⟩ := cons_prefix_cons.mp hprefix
      exact ih (h.step hblind _ hfirst) hrest before ctx event hprefix'

end

/-- A script that pays to the hash 0 of a key. -/
def payToZero : CScript := [0x76, 0xa9, 0x14] ++ List.replicate 20 0 ++ [0x88, 0xac]

/-- A masternode whose participants spend coins that pay to the hash 0. -/
def sampleMixing : MixingContext where
  network := .main
  fMasternodeMode := true
  fLiteMode := false
  isBlockchainSynced := true
  hasMasternodeInfo := true
  lastDsqTooRecent := false
  getUTXOCoin _ := some ⟨⟨1000010, payToZero⟩, false, 0⟩
  acceptToMemoryPool _ := true
  lockMain := true
  getHash _ := 0
  crypto := noCrypto
  checker _ _ := lockTimeChecker
  connected _ := true
  getTimeMillis := 0
  randSession := 0
  randCharge := 0
  randMostly := 0
  shuffle := id

/-- The collateral of a participant. -/
def sampleCollateral (k : ℕ) : CTransaction :=
  ⟨.ofNat 256 (100 + k), 1, [⟨⟨.ofNat 256 (200 + k), 0⟩, [], 0⟩], [⟨0, payToZero⟩], 0⟩

/-- The input of a participant, with a script. -/
def sampleInput (k : ℕ) (scriptSig : CScript) : CTxIn := ⟨⟨.ofNat 256 k, 0⟩, scriptSig, 0⟩

/-- Three participants enter the queue for a denomination, some hand in an entry of 0.01. -/
def mixingEvents (nDenom : Int32) (users : List ℕ) : List (MixingContext × PoolEvent) :=
  [1, 2, 3].map (fun k => (sampleMixing, .message 70208 k (.DSACCEPT nDenom (sampleCollateral k))))
    ++ (sampleMixing, .checkForCompleteQueue) :: users.map fun k => (sampleMixing,
      .message 70208 k (.DSVIN [sampleInput k []] (sampleCollateral k) [⟨1000010, payToZero⟩]))

def mixingRun (nDenom : Int32) (users : List ℕ) : CPrivateSendServer :=
  (initial 0).run (mixingEvents nDenom users)

theorem reachable_mixingRun (nDenom : Int32) (users : List ℕ) : Reachable (mixingRun nDenom users) :=
  ⟨0, _, rfl⟩

/-- A session of 0.01 coins. -/
theorem session_denomination_hundredth : Reachable (mixingRun 8 [1, 2])
    ∧ ∀ entry ∈ (mixingRun 8 [1, 2]).vecEntries,
      getDenominations entry.vecTxOut = (mixingRun 8 [1, 2]).nSessionDenom :=
  ⟨reachable_mixingRun _ _, (session_denomination_iff (reachable_mixingRun _ _)).mpr
    (by decide +kernel)⟩

/-- **A session of 10 coins takes an entry of 0.01** when it is the first. -/
theorem session_denomination_ten : Reachable (mixingRun 1 [1])
    ∧ ∃ entry ∈ (mixingRun 1 [1]).vecEntries,
      getDenominations entry.vecTxOut ≠ (mixingRun 1 [1]).nSessionDenom :=
  ⟨reachable_mixingRun _ _, by decide +kernel⟩

end CPrivateSendServer

end Binarium
