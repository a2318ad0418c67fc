import Binarium.Validation.IndexLoops

set_option autoImplicit false

/-! # The index of unspent outputs and the outputs

The index of unspent outputs is a view of the outputs of the chain that are not spent: `unspentTable`
gives the entry of every such output whose script has an address. These are not only the coins, since a
script that can not be spent may look like a public key (`CScript::IsPayToPublicKey` does not read the
first byte); such an output has an entry and no coin.

`ConnectBlock` keeps the index the table of the unspent outputs. `DisconnectBlock` leaves the table
without the outputs that were spent from a pay-to-public-key script, since it does not restore them. -/

namespace Binarium

open Checks Journal Function
open List hiding removeAll removeAll_cons removeAll_nil

variable (hash160 : Valtype → Valtype)

/-! ## The table of the coins -/

/-- The entry of a coin at an outpoint. -/
def unspentEntry (o : COutPoint) (coin : Coin) : Option (CAddressUnspentKey × CAddressUnspentValue) :=
  coin.out.scriptPubKey.kind.map fun kind =>
    (unspentKey hash160 coin.out.scriptPubKey kind o,
      ⟨coin.out.nValue, coin.out.scriptPubKey, coin.nHeight.toNat⟩)

/-- The entries of the coins. -/
def unspentTable (m : COutPoint → Option Coin) (key : CAddressUnspentKey) :
    Option CAddressUnspentValue :=
  (m ⟨key.txhash, key.index⟩).bind fun coin =>
    (unspentEntry hash160 ⟨key.txhash, key.index⟩ coin).bind fun entry =>
      if entry.1 = key then some entry.2 else none

variable {hash160}

variable {o : COutPoint} {key : CAddressUnspentKey} {m outputs : COutPoint → Option Coin}
  {binding : COutPoint × Coin} {nHeight : ℕ} {tx : CTransaction} {coins : List Coin}

theorem outpoint_of_unspentEntry {coin : Coin} {entry : CAddressUnspentKey × CAddressUnspentValue}
    (h : unspentEntry hash160 o coin = some entry) : ⟨entry.1.txhash, entry.1.index⟩ = o := by
  obtain ⟨kind, -, rfl⟩ := Option.map_eq_some_iff.mp h
  rfl

theorem unspentTable_of_none (h : m ⟨key.txhash, key.index⟩ = none) :
    unspentTable hash160 m key = none := by
  rw [unspentTable, h]
  rfl

theorem unspentTable_of_entry {coin : Coin} {entry : CAddressUnspentKey × CAddressUnspentValue}
    (hcoin : m o = some coin) (h : unspentEntry hash160 o coin = some entry) :
    unspentTable hash160 m entry.1 = some entry.2 := by
  simp [unspentTable, outpoint_of_unspentEntry h, hcoin, h]

/-- The changes for a coin at an outpoint: its entry is put if `x` is a coin, and removed if not. -/
def entryChange (hash160 : Valtype → Valtype) (binding : COutPoint × Coin) (x : Option Coin) :
    List (CAddressUnspentKey × Option CAddressUnspentValue) :=
  (unspentEntry hash160 binding.1 binding.2).toList.map fun entry =>
    (entry.1, x.map fun _ => entry.2)

theorem unspentTable_at {coin : Coin} (hm : ∀ c, m ⟨key.txhash, key.index⟩ = some c → c = coin) :
    unspentTable hash160 m key = (m ⟨key.txhash, key.index⟩).bind fun _ =>
      (unspentEntry hash160 ⟨key.txhash, key.index⟩ coin).bind fun entry =>
        if entry.1 = key then some entry.2 else none := by
  unfold unspentTable
  cases hc : m ⟨key.txhash, key.index⟩ with
  | none => rfl
  | some c => rw [hm c hc]; rfl

/-- **One output.** Where there is a given coin or none, changing its entry is changing the coin. -/
theorem unspentTable_update {x : Option Coin} (hm : ∀ c, m binding.1 = some c → c = binding.2)
    (hx : ∀ c, x = some c → c = binding.2) :
    applyAll (entryChange hash160 binding x) (unspentTable hash160 m)
      = unspentTable hash160 (Function.update m binding.1 x) := by
  obtain ⟨o, coin⟩ := binding
  funext key
  unfold entryChange
  by_cases hkey : (⟨key.txhash, key.index⟩ : COutPoint) = o
  · subst hkey
    have hbefore : unspentTable hash160 m key = _ := unspentTable_at hm
    have hafter : unspentTable hash160 (update m ⟨key.txhash, key.index⟩ x) key = _ :=
      unspentTable_at (by rwa [update_self])
    rw [hafter, update_self]
    cases hentry : unspentEntry hash160 ⟨key.txhash, key.index⟩ coin with
    | none =>
      simp [hentry, applyAll, hbefore]
    | some entry =>
      rw [hentry] at hbefore
      show update (unspentTable hash160 m) entry.1 (x.map fun _ => entry.2) key = _
      by_cases heq : entry.1 = key
      · cases x <;> simp [heq]
      · simp [update_of_ne (Ne.symm heq), hbefore, heq]
  · have hafter : unspentTable hash160 (update m o x) key = unspentTable hash160 m key := by
      simp only [unspentTable, update_of_ne hkey]
    rw [hafter]
    refine applyAll_of_notMem ?_ _
    intro change hchange heq
    obtain ⟨entry, hentry, rfl⟩ := mem_map.mp hchange
    exact hkey (heq ▸ outpoint_of_unspentEntry (Option.mem_toList.mp hentry))

theorem unspentTable_removeAll (bindings : List (COutPoint × Coin))
    (hm : ∀ binding ∈ bindings, ∀ c, m binding.1 = some c → c = binding.2) :
    applyAll (bindings.flatMap fun binding => entryChange hash160 binding none)
        (unspentTable hash160 m)
      = unspentTable hash160 (removeAll (bindings.map Prod.fst) m) := by
  induction bindings generalizing m with
  | nil => rw [map_nil, removeAll_nil, flatMap_nil, applyAll]
  | cons binding rest ih =>
    rw [forall_mem_cons] at hm
    rw [flatMap_cons, applyAll_append, unspentTable_update hm.1 (by simp), ih, map_cons,
      removeAll_cons]
    grind

theorem unspentTable_putAll (bindings : List (COutPoint × Coin))
    (hnodup : (bindings.map Prod.fst).Nodup) (hm : ∀ binding ∈ bindings, m binding.1 = none) :
    applyAll (bindings.flatMap fun binding => entryChange hash160 binding (some binding.2))
        (unspentTable hash160 m)
      = unspentTable hash160 (putAll bindings m) := by
  induction bindings generalizing m with
  | nil => rfl
  | cons binding rest ih =>
    rw [forall_mem_cons] at hm
    rw [map_cons, nodup_cons] at hnodup
    rw [flatMap_cons, applyAll_append, unspentTable_update (by simp [hm.1]) (by simp), putAll,
      ih hnodup.2]
    grind

/-! ## The batches of a transaction -/

/-- All indexes are enabled. -/
def IndexOptions.all (hash160 : Valtype → Valtype) : IndexOptions := ⟨true, true, true, hash160⟩

/-- What a transaction spends. -/
def CTransaction.spentBindings (tx : CTransaction) (coins : List Coin) : List (COutPoint × Coin) :=
  (tx.spends.zip coins).map fun input => (input.1.prevout, input.2)

/-- All outputs of a transaction, also those that can not be spent. -/
def CTransaction.outputBindings (tx : CTransaction) (nHeight : ℕ) : List (COutPoint × Coin) :=
  tx.outputs.map fun output => (tx.outpoint output.2, tx.coinOf nHeight output.1)

theorem connectInputUnspent_eq (input : IndexInput) :
    (connectInputUnspent hash160 input).map unspentChange
      = entryChange hash160 (input.txin.prevout, input.coin) none := by
  unfold connectInputUnspent entryChange unspentEntry
  cases input.coin.out.scriptPubKey.kind <;> rfl

open CTransaction

theorem disconnectOutputUnspent_eq (tx : CTransaction) (nHeight : ℕ) (output : CTxOut × ℕ) :
    (disconnectOutputUnspent hash160 tx output).map unspentChange
      = entryChange hash160 (tx.outpoint output.2, tx.coinOf nHeight output.1) none := by
  unfold disconnectOutputUnspent entryChange unspentEntry coinOf
  cases output.1.scriptPubKey.kind <;> rfl

theorem unspentChange_of_ne {value : CAddressUnspentValue} (h : value.satoshis ≠ -1) :
    unspentChange (key, value) = (key, some value) := by
  simp [unspentChange, CAddressUnspentValue.isNull, h]

theorem connectOutputUnspent_eq (hheight : nHeight < 2 ^ 31) {output : CTxOut × ℕ}
    (hvalue : output.1.nValue ≠ -1) :
    (connectOutputUnspent hash160 nHeight tx output).map unspentChange
      = entryChange hash160 (tx.outpoint output.2, tx.coinOf nHeight output.1)
          (some (tx.coinOf nHeight output.1)) := by
  have hcoin : (tx.coinOf nHeight output.1).nHeight.toNat = nHeight := Nat.mod_eq_of_lt hheight
  rw [connectOutputUnspent, entryChange, unspentEntry, hcoin]
  unfold coinOf
  cases output.1.scriptPubKey.kind with
  | none => rfl
  | some kind =>
    rw [map_singleton, unspentChange_of_ne hvalue]
    rfl

/-- What the inputs give, without their positions. -/
theorem flatMap_indexInputs {α : Type} (f : COutPoint × Coin → List α) (tx : CTransaction)
    (coins : List Coin) :
    (indexInputs tx.spends coins).flatMap (fun input => f (input.txin.prevout, input.coin))
      = (tx.spentBindings coins).flatMap f := by
  unfold indexInputs spentBindings
  rw [flatMap_map, flatMap_map, ← zipIdx_map_fst 0 (tx.spends.zip coins), flatMap_map]
  simp

theorem connectBatch_unspent (hheight : nHeight < 2 ^ 31)
    (hvalue : ∀ txout ∈ tx.vout, txout.nValue ≠ -1) (i : ℕ) (coins : List Coin) :
    (connectBatch (.all hash160) nHeight i tx (indexInputs tx.spends coins)).unspent.map unspentChange
      = ((tx.spentBindings coins).flatMap fun binding => entryChange hash160 binding none)
        ++ (tx.outputBindings nHeight).flatMap fun binding =>
          entryChange hash160 binding (some binding.2) := by
  unfold connectBatch
  simp only [IndexOptions.all, if_true, map_append, map_flatMap, connectInputUnspent_eq]
  rw [← flatMap_indexInputs]
  congr 1
  rw [outputBindings, flatMap_map]
  refine flatMap_congr ?_
  intro output houtput
  exact connectOutputUnspent_eq hheight (hvalue _ (fst_mem_of_mem_zipIdx houtput))

/-! ## Disconnecting a transaction -/

/-- What was spent from a pay-to-public-key script. -/
def forgottenOf (inputs : List (CTxIn × Coin)) : List COutPoint :=
  (inputs.filter fun input => input.2.out.scriptPubKey.kind = some .payToPublicKey).map fun input =>
    input.1.prevout

theorem mem_forgottenOf {inputs : List (CTxIn × Coin)} :
    o ∈ forgottenOf inputs ↔ ∃ input ∈ inputs, input.1.prevout = o
      ∧ input.2.out.scriptPubKey.kind = some .payToPublicKey := by
  simp only [forgottenOf, mem_map, mem_filter]
  grind

theorem disconnectInputUnspent_of_ne {input : IndexInput}
    (hkind : input.coin.out.scriptPubKey.kind ≠ some .payToPublicKey)
    (hspent : input.coin.isSpent = false) (hheight : input.undoHeight = input.coin.nHeight.toNat) :
    (disconnectInputUnspent hash160 tx input).map unspentChange
      = entryChange hash160 (input.txin.prevout, input.coin) (some input.coin) := by
  have hvalue : input.coin.out.nValue ≠ -1 := of_decide_eq_false hspent
  rw [disconnectInputUnspent, entryChange, unspentEntry, hheight]
  generalize input.coin.out.scriptPubKey.kind = kind at hkind ⊢
  match kind with
  | none => rfl
  | some .payToPublicKey => exact absurd rfl hkind
  | some .payToScriptHash | some .payToPublicKeyHash =>
    rw [map_singleton, unspentChange_of_ne hvalue]
    rfl

/-- For a public key an entry of the transaction itself is removed, where there is none. -/
theorem disconnectInputUnspent_of_eq {input : IndexInput}
    (hkind : input.coin.out.scriptPubKey.kind = some .payToPublicKey)
    (hm : ∀ n, m ⟨tx.hash, n⟩ = none) :
    applyAll ((disconnectInputUnspent hash160 tx input).map unspentChange) (unspentTable hash160 m)
      = unspentTable hash160 m := by
  rw [disconnectInputUnspent, hkind]
  show update (unspentTable hash160 m) _ none = _
  simpa using (unspentTable_of_none (hm _)).symm

/-- **Restoring the inputs** restores the entries of what they spent but for public keys. -/
theorem unspentTable_restore (inputs : List (CTxIn × Coin)) :
    ∀ {j : ℕ} {m : COutPoint → Option Coin},
      ((inputs.map Prod.fst).map CTxIn.prevout).Nodup →
      (∀ input ∈ inputs, m input.1.prevout = some input.2 ∧ input.2.isSpent = false) →
      (∀ n, m ⟨tx.hash, n⟩ = none) →
      applyAll ((((inputs.zipIdx j).map fun input => (⟨input.2, input.1.1, input.1.2,
            input.1.2.nHeight.toNat⟩ : IndexInput)).reverse.flatMap
          (disconnectInputUnspent hash160 tx)).map unspentChange)
          (unspentTable hash160 (removeAll ((inputs.map Prod.fst).map CTxIn.prevout) m))
        = unspentTable hash160 (removeAll (forgottenOf inputs) m) := by
  induction inputs with
  | nil =>
    intro j m _ _ _
    rfl
  | cons input rest ih =>
    intro j m hnodup hinputs hfree
    simp only [map_cons, nodup_cons] at hnodup
    rw [forall_mem_cons] at hinputs
    -- the inputs after this one are restored first, with this one still missing
    have hmissing : ∀ n, update m input.1.prevout none ⟨tx.hash, n⟩ = none := by
      grind [update_apply]
    have hrest := @ih (j + 1) (update m input.1.prevout none) hnodup.2 (by grind [update_apply])
      hmissing
    simp only [zipIdx_cons, map_cons, reverse_cons, flatMap_append,
      map_append, applyAll_append, flatMap_singleton, removeAll_cons] at hrest ⊢
    rw [hrest]
    by_cases hkind : input.2.out.scriptPubKey.kind = some .payToPublicKey
    · rw [disconnectInputUnspent_of_eq hkind fun n => removeAll_of_none (hmissing n) _]
      simp [forgottenOf, hkind, removeAll_cons]
    · have hnot : input.1.prevout ∉ forgottenOf rest := by grind [mem_forgottenOf]
      have hnone : removeAll (forgottenOf rest) (update m input.1.prevout none)
          input.1.prevout = none := removeAll_of_none (update_self ..) _
      rw [disconnectInputUnspent_of_ne hkind hinputs.1.2 rfl,
        unspentTable_update (by simp [hnone]) (by simp), update_removeAll hnot hinputs.1.1]
      simp [forgottenOf, hkind]

theorem disconnectBatch_unspent (tx : CTransaction) (nHeight i : ℕ) (coins : List Coin) :
    (disconnectBatch (.all hash160) nHeight i tx (indexInputs tx.spends coins)).unspent.map
        unspentChange
      = ((tx.outputBindings nHeight).reverse.flatMap fun binding => entryChange hash160 binding none)
        ++ ((indexInputs tx.spends coins).reverse.flatMap
          (disconnectInputUnspent hash160 tx)).map unspentChange := by
  unfold disconnectBatch outputBindings
  simp only [IndexOptions.all, if_true, map_append, map_flatMap, flatMap_map,
    ← map_reverse, disconnectOutputUnspent_eq tx nHeight]

/-! ## Along a block -/

/-- The unspent outputs after a transaction. -/
def CTransaction.indexed (tx : CTransaction) (nHeight : ℕ) (outputs : COutPoint → Option Coin) :
    COutPoint → Option Coin :=
  putAll (tx.outputBindings nHeight) (removeAll tx.spentOutpoints outputs)

/-- A transaction whose inputs are among the unspent outputs, and that is new to them. -/
structure Indexable (nHeight : ℕ) (tx : CTransaction) (coins : List Coin)
    (outputs : COutPoint → Option Coin) : Prop where
  height_lt : nHeight < 2 ^ 31
  spends : (tx.spends.zip coins).map Prod.fst = tx.spends
  spends_nodup : tx.spentOutpoints.Nodup
  inputs : ∀ input ∈ tx.spends.zip coins,
    outputs input.1.prevout = some input.2 ∧ input.2.isSpent = false
  free : ∀ n, outputs ⟨tx.hash, n⟩ = none
  ok : TransactionOk tx

theorem TransactionOk.nValue_ne (h : TransactionOk tx) : ∀ txout ∈ tx.vout, txout.nValue ≠ -1 := by
  intro txout hmem heq
  obtain ⟨v, hv⟩ := h.valueOut
  have hrange := (moneyRange_iff _).mp ((getValueOut_spec hv).2.2 txout hmem)
  rw [heq] at hrange
  exact absurd hrange.1 (by decide)

theorem TransactionOk.outputBindings_nodup (h : TransactionOk tx) (nHeight : ℕ) :
    ((tx.outputBindings nHeight).map Prod.fst).Nodup := by
  have hlength := h.vout_length
  have hkeys : (tx.outputBindings nHeight).map Prod.fst
      = (range' 0 tx.vout.length).map tx.outpoint := by
    rw [outputBindings, outputs, ← zipIdx_map_snd 0 tx.vout, map_map, map_map]
    rfl
  rw [hkeys]
  refine List.Nodup.map_on ?_ nodup_range'
  intro i hi j hj heq
  rw [mem_range'_1] at hi hj
  exact outpoint_inj (by omega) (by omega) heq

theorem CTransaction.hash_of_mem_outputBindings (h : binding ∈ tx.outputBindings nHeight) :
    binding.1.hash = tx.hash := by
  obtain ⟨output, -, rfl⟩ := mem_map.mp h
  rfl

section
variable (h : Indexable nHeight tx coins outputs)
include h

theorem Indexable.outputs_free :
    ∀ binding ∈ tx.outputBindings nHeight, removeAll tx.spentOutpoints outputs binding.1 = none := by
  intro binding hmem
  refine removeAll_of_none ?_ _
  have hfree := h.free binding.1.n
  rwa [← hash_of_mem_outputBindings hmem] at hfree

theorem Indexable.spentOutpoints_eq :
    tx.spentOutpoints = ((tx.spends.zip coins).map Prod.fst).map CTxIn.prevout := by
  rw [h.spends]
  rfl

/-- **Connecting a transaction** keeps the index the table of the unspent outputs. -/
theorem Indexable.connect (i : ℕ) :
    applyAll ((connectBatch (.all hash160) nHeight i tx (indexInputs tx.spends coins)).unspent.map
        unspentChange) (unspentTable hash160 outputs)
      = unspentTable hash160 (tx.indexed nHeight outputs) := by
  have hkeys : (tx.spentBindings coins).map Prod.fst = tx.spentOutpoints := by
    simp [h.spentOutpoints_eq, spentBindings, map_map]
  rw [connectBatch_unspent h.height_lt h.ok.nValue_ne, applyAll_append, unspentTable_removeAll, hkeys,
    unspentTable_putAll _ (h.ok.outputBindings_nodup nHeight) h.outputs_free]
  · rfl
  · intro binding hmem c hc
    obtain ⟨input, hinput, rfl⟩ := mem_map.mp hmem
    exact Option.some.inj (hc.symm.trans (h.inputs input hinput).1)

/-- **Disconnecting a transaction.** The outputs that later transactions spent from public keys stay
    lost, and those of this transaction are lost too. -/
theorem Indexable.disconnect (i : ℕ)
    {lost : List COutPoint} (hlost : ∀ o ∈ tx.spentOutpoints, o ∉ lost) :
    applyAll ((disconnectBatch (.all hash160) nHeight i tx (indexInputs tx.spends coins)).unspent.map
        unspentChange) (unspentTable hash160 (removeAll lost (tx.indexed nHeight outputs)))
      = unspentTable hash160
          (removeAll (forgottenOf (tx.spends.zip coins)) (removeAll lost outputs)) := by
  have hnodup := h.ok.outputBindings_nodup nHeight
  rw [disconnectBatch_unspent, applyAll_append, unspentTable_removeAll, map_reverse,
    removeAll_reverse, removeAll_comm, indexed, removeAll_putAll h.outputs_free, removeAll_comm]
  · have hspent := h.spentOutpoints_eq
    rw [hspent]
    refine unspentTable_restore _ (hspent ▸ h.spends_nodup) ?_ (fun n => removeAll_of_none (h.free n) _)
    intro input hinput
    have hmem : input.1.prevout ∈ tx.spentOutpoints := by
      rw [hspent]
      exact mem_map_of_mem (mem_map_of_mem hinput)
    rw [removeAll, if_neg (hlost _ hmem)]
    exact h.inputs input hinput
  · intro binding hmem c hc
    have hput : tx.indexed nHeight outputs binding.1 = some binding.2 :=
      putAll_of_mem hnodup (mem_reverse.mp hmem) _
    grind [removeAll]

end

/-- The coins are among the unspent outputs. -/
def CoinsAmong (outputs m : COutPoint → Option Coin) : Prop :=
  ∀ o coin, m o = some coin → outputs o = some coin

theorem mem_outputs_of_createdFrom (outs : List CTxOut) :
    ∀ {i : ℕ}, binding ∈ tx.createdFrom nHeight i outs →
      ∃ output ∈ outs.zipIdx i, (tx.outpoint output.2, tx.coinOf nHeight output.1) = binding := by
  induction outs with
  | nil => simp [createdFrom]
  | cons txout rest ih =>
    intro i h
    have hfirst : (txout, i) ∈ (txout :: rest).zipIdx i := mem_cons_self
    rw [createdFrom] at h
    grind

theorem CoinsAmong.next {m' : COutPoint → Option Coin} (hamong : CoinsAmong outputs m)
    (h : TxConnected nHeight tx coins m m') (hindexable : Indexable nHeight tx coins outputs) :
    CoinsAmong (tx.indexed nHeight outputs) m' := by
  have hnodup := hindexable.ok.outputBindings_nodup nHeight
  rw [h.result]
  refine forall_putAll ?_ ?_
  · intro binding hmem
    obtain ⟨output, houtput, heq⟩ := mem_outputs_of_createdFrom tx.vout hmem
    exact putAll_of_mem hnodup (mem_map.mpr ⟨output, houtput, heq⟩) _
  · intro o coin hcoin
    have hspent : o ∉ tx.spentOutpoints := by grind [removeAll]
    rw [removeAll, if_neg hspent] at hcoin
    have houtput := hamong o coin hcoin
    rw [indexed, putAll_of_notMem, removeAll, if_neg hspent, houtput]
    intro hmem
    obtain ⟨binding, hbinding, rfl⟩ := mem_map.mp hmem
    have hnone := hindexable.free binding.1.n
    rw [← hash_of_mem_outputBindings hbinding] at hnone
    simp [hnone] at houtput

theorem Free.indexed {rest : List (CTransaction × List Coin)}
    (hfree : Free ((tx, coins) :: rest) outputs) (hnew : ∀ entry ∈ rest, entry.1.hash ≠ tx.hash) :
    Free rest (tx.indexed nHeight outputs) := by
  intro entry hentry n
  rw [CTransaction.indexed, putAll_of_notMem]
  · exact removeAll_of_none (hfree entry (mem_cons_of_mem _ hentry) n) _
  · intro hmem
    obtain ⟨binding, hbinding, heq⟩ := mem_map.mp hmem
    refine hnew entry hentry ?_
    rw [← CTransaction.hash_of_mem_outputBindings hbinding, heq]

/-- What the transactions spent from pay-to-public-key scripts. -/
def forgotten (txs : List (CTransaction × List Coin)) : List COutPoint :=
  txs.flatMap fun entry => forgottenOf (entry.1.spends.zip entry.2)

theorem mem_forgotten {txs : List (CTransaction × List Coin)} :
    o ∈ forgotten txs ↔ ∃ entry ∈ txs, ∃ input ∈ entry.1.spends.zip entry.2, input.1.prevout = o
      ∧ input.2.out.scriptPubKey.kind = some .payToPublicKey := by
  simp only [forgotten, mem_flatMap, mem_forgottenOf]

/-- **The unspent index along a block.** Connecting keeps the index the table of the unspent outputs;
    disconnecting brings back the outputs but for those that were spent from a public key. -/
theorem unspent_roundTrip (hpos : 0 < nHeight) (hheight : nHeight < 2 ^ 31)
    {txs : List (CTransaction × List Coin)} {m' : COutPoint → Option Coin}
    (h : TxsConnected nHeight txs m m') :
    ∀ {i : ℕ} {outputs : COutPoint → Option Coin} {P : COutPoint → Prop},
      (∀ entry ∈ txs, TransactionOk entry.1) →
      (∀ entry ∈ txs, ∀ o ∈ entry.1.spentOutpoints, P o) → UndoableAt P m →
      (txs.map fun entry => entry.1.hash).Nodup → Free txs outputs → CoinsAmong outputs m →
      ∃ outputs', applyAll ((connectBatches (.all hash160) nHeight i txs).unspent.map unspentChange)
            (unspentTable hash160 outputs) = unspentTable hash160 outputs'
        ∧ applyAll ((disconnectBatches (.all hash160) nHeight i txs).unspent.map unspentChange)
            (unspentTable hash160 outputs')
          = unspentTable hash160 (removeAll (forgotten txs) outputs) := by
  induction h with
  | nil m =>
    intro i outputs P _ _ _ _ _ _
    refine ⟨outputs, rfl, ?_⟩
    show unspentTable hash160 outputs = unspentTable hash160 (removeAll [] outputs)
    rw [removeAll_nil]
  | @cons tx coins rest m₁ m₂ m₃ head tail ih =>
    intro i outputs P hok hspends hundo hnodup hfree hamong
    rw [forall_mem_cons] at hok hspends
    rw [map_cons, nodup_cons] at hnodup
    have hnew : ∀ entry ∈ rest, entry.1.hash ≠ tx.hash := fun entry hentry heq =>
      hnodup.1 (heq ▸ mem_map_of_mem hentry)
    have hfree₁ : Free ((tx, coins) :: rest) m₁ := by
      intro entry hentry n
      have hnone := hfree entry hentry n
      have hcoin := hamong ⟨entry.1.hash, n⟩
      cases hm : m₁ ⟨entry.1.hash, n⟩ <;> simp_all
    have hindexable : Indexable nHeight tx coins outputs := by
      refine ⟨hheight, head.map_fst_zip, head.inputs_nodup, ?_,
        hfree (tx, coins) mem_cons_self, hok.1⟩
      intro input hinput
      have hcoin := head.visible_of_mem_zip hinput
      have hmem : input.1.prevout ∈ tx.spentOutpoints :=
        mem_map_of_mem (of_mem_zip hinput).1
      exact ⟨hamong _ _ hcoin, (hundo _ _ hcoin (hspends.1 _ hmem)).1⟩
    obtain ⟨outputs', hconnect, hdisconnect⟩ := ih (i := i + 1) hok.2 hspends.2
      (head.undoableAt hpos hheight hok.1 hundo) hnodup.2 (hfree.indexed hnew)
      (hamong.next head hindexable)
    refine ⟨outputs', ?_, ?_⟩
    · simp only [connectBatches, IndexBatch.append, map_append, applyAll_append]
      rw [hindexable.connect, hconnect]
    · simp only [disconnectBatches, IndexBatch.append, map_append, applyAll_append]
      rw [hdisconnect, hindexable.disconnect, ← removeAll_append]
      · rfl
      · intro o ho hmem
        obtain ⟨entry, hentry, input, hinput, rfl, -⟩ := mem_forgotten.mp hmem
        exact tail.spent_once head hfree₁ ho entry hentry
          (mem_map_of_mem (of_mem_zip hinput).1)

/-- The table comes back if no output is lost, given that each would have an entry. -/
theorem unspentTable_removeAll_eq_iff {lost : List COutPoint}
    (hentry : ∀ o ∈ lost, ∀ coin, outputs o = some coin → (coin.out.scriptPubKey.kind).isSome) :
    unspentTable hash160 (removeAll lost outputs) = unspentTable hash160 outputs
      ↔ ∀ o ∈ lost, outputs o = none := by
  constructor
  · intro h o ho
    by_contra hsome
    obtain ⟨coin, hcoin⟩ := Option.ne_none_iff_exists'.mp hsome
    obtain ⟨kind, hkind⟩ := Option.isSome_iff_exists.mp (hentry o ho coin hcoin)
    have hkey : unspentEntry hash160 o coin = some (unspentKey hash160 coin.out.scriptPubKey kind o,
        ⟨coin.out.nValue, coin.out.scriptPubKey, coin.nHeight.toNat⟩) := by
      simp [unspentEntry, hkind]
    have hbefore := unspentTable_of_entry hcoin hkey
    rw [← h, unspentTable_of_none] at hbefore
    · simp at hbefore
    · rw [outpoint_of_unspentEntry hkey]
      exact if_pos ho
  · intro h
    congr 1
    grind [removeAll]

end Binarium
