import Binarium.Validation.UnspentIndex

set_option autoImplicit false

/-! # Connecting a block and disconnecting it again: the indexes

The coins come back (`disconnectBlock_connectBlock`), the indexes do not:

* the entry of the block in the timestamp index stays;
* the entries of its inputs in the spent index stay;
* the address index and the unspent index come back but for inputs that spend a pay-to-public-key
  output: their spending activity stays, and the output they spent is missing. -/

namespace Binarium

open Checks Journal CTransaction
open List hiding removeAll

variable {hash160 : Valtype → Valtype}

/-! ## The address index -/

/-- Some transaction spends from a pay-to-public-key script. -/
def SpendsPublicKey (txs : List (CTransaction × List Coin)) : Prop :=
  ∃ entry ∈ txs, ∃ input ∈ entry.1.spends.zip entry.2,
    input.2.out.scriptPubKey.kind = some .payToPublicKey

variable {input : IndexInput} {tx : CTransaction} {txs : List (CTransaction × List Coin)}

theorem disconnectInputAddress_of_ne {nHeight txindex : ℕ}
    (hkind : input.coin.out.scriptPubKey.kind ≠ some .payToPublicKey) :
    disconnectInputAddress hash160 nHeight txindex tx input
      = connectInputAddress hash160 nHeight txindex tx input := by
  unfold disconnectInputAddress connectInputAddress
  generalize input.coin.out.scriptPubKey.kind = kind at hkind ⊢
  rcases kind with _ | _ | _ <;> first | rfl | exact absurd rfl hkind

theorem mem_indexInputs {vin : List CTxIn} {coins : List Coin} (h : input ∈ indexInputs vin coins) :
    (vin.zip coins)[input.index]? = some (input.txin, input.coin) := by
  obtain ⟨entry, hentry, rfl⟩ := mem_map.mp h
  exact mem_zipIdx_iff_getElem?.mp hentry

theorem mem_indexInputs_of_getElem? {vin : List CTxIn} {coins : List Coin} {input : CTxIn × Coin}
    {j : ℕ} (h : (vin.zip coins)[j]? = some input) :
    (⟨j, input.1, input.2, input.2.nHeight.toNat⟩ : IndexInput) ∈ indexInputs vin coins :=
  mem_map.mpr ⟨(input, j), mem_zipIdx_iff_getElem?.mpr h, rfl⟩

theorem mem_batches_iff {α : Type} {x : α} (one : ℕ → CTransaction × List Coin → List α)
    (all : ℕ → List (CTransaction × List Coin) → List α) (hnil : ∀ i, all i [] = [])
    (hcons : ∀ i head rest, x ∈ all i (head :: rest) ↔ x ∈ one i head ∨ x ∈ all (i + 1) rest) {i : ℕ} :
    x ∈ all i txs ↔ ∃ n entry, txs[n]? = some entry ∧ x ∈ one (i + n) entry := by
  induction txs generalizing i with
  | nil => simp [hnil]
  | cons head rest ih =>
    rw [hcons, ih]
    constructor
    · rintro (h | ⟨n, entry, hentry, h⟩)
      · exact ⟨0, head, rfl, h⟩
      · exact ⟨n + 1, entry, hentry, by grind⟩
    · rintro ⟨n | n, entry, hentry, h⟩ <;> grind

section
variable {nHeight i : ℕ} {entry : CAddressIndexKey × CAmount}

theorem mem_connectBatches_address :
    entry ∈ (connectBatches (.all hash160) nHeight i txs).address ↔ ∃ n e, txs[n]? = some e
      ∧ entry ∈ (connectBatch (.all hash160) nHeight (i + n) e.1 (indexInputs e.1.spends e.2)).address :=
  mem_batches_iff (fun i e => (connectBatch _ nHeight i e.1 (indexInputs e.1.spends e.2)).address)
    (fun i txs => (connectBatches _ nHeight i txs).address) (fun _ => rfl) fun _ _ _ => mem_append

theorem mem_disconnectBatches_address :
    entry ∈ (disconnectBatches (.all hash160) nHeight i txs).address ↔ ∃ n e, txs[n]? = some e
      ∧ entry ∈ (disconnectBatch (.all hash160) nHeight (i + n) e.1
        (indexInputs e.1.spends e.2)).address :=
  mem_batches_iff (fun i e => (disconnectBatch _ nHeight i e.1 (indexInputs e.1.spends e.2)).address)
    (fun i txs => (disconnectBatches _ nHeight i txs).address) (fun _ => rfl)
    fun _ _ _ => mem_append.trans or_comm

/-- Spending activity is erased at its place in the block, and not for a public key. -/
theorem erased_of_mem_disconnectBatch {inputs : List IndexInput}
    (h : entry ∈ (disconnectBatch (.all hash160) nHeight i tx inputs).address) :
    entry.1.blockHeight = nHeight ∧ (entry.1.spending → entry.1.txindex = i
      ∧ ∃ input ∈ inputs, input.index = entry.1.index
        ∧ input.coin.out.scriptPubKey.kind ≠ some .payToPublicKey) := by
  rcases mem_append.mp h with h | h
  · obtain ⟨output, -, h⟩ := mem_flatMap.mp h
    unfold outputAddress at h
    split at h <;> simp at h
    simp [h, addressKey]
  · obtain ⟨input, hinput, h⟩ := mem_flatMap.mp h
    unfold disconnectInputAddress at h
    split at h <;> simp at h
    · simp [h, addressKey]
    · next kind hne hkind =>
        rw [h]
        exact ⟨rfl, fun _ => ⟨rfl, input, mem_reverse.mp hinput, rfl, by simpa [hkind] using hne⟩⟩

end

/-- **The address index** comes back if and only if no public key is spent from. -/
theorem address_roundTrip {nHeight : ℕ} {ix : Indexes}
    (hheight : ∀ key amount, ix.address key = some amount → key.blockHeight < nHeight) (i : ℕ) :
    ((ix.writeAddressIndex (connectBatches (.all hash160) nHeight i txs).address).eraseAddressIndex
        (disconnectBatches (.all hash160) nHeight i txs).address).address = ix.address
      ↔ ¬ SpendsPublicKey txs := by
  have hnew : ∀ key : CAddressIndexKey, key.blockHeight = nHeight → ix.address key = none :=
    fun key hkey => Option.eq_none_iff_forall_ne_some.mpr fun amount hamount =>
      absurd (hheight key amount hamount) (by omega)
  constructor
  · rintro h ⟨e, he, input, hinput, hkind⟩
    obtain ⟨n, hn⟩ := mem_iff_getElem?.mp he
    obtain ⟨j, hj⟩ := mem_iff_getElem?.mp hinput
    -- the spending activity of the public key is written
    have hentry : (addressKey hash160 input.2.out.scriptPubKey .payToPublicKey nHeight (i + n) e.1.hash
        j true, input.2.out.nValue * -1) ∈ (connectBatches (.all hash160) nHeight i txs).address :=
      mem_connectBatches_address.mpr ⟨n, e, hn, mem_append_left _ (mem_flatMap.mpr
        ⟨_, mem_indexInputs_of_getElem? hj, by simp [connectInputAddress, hkind, IndexOptions.all]⟩)⟩
    refine erase_write_ne hentry (hnew _ rfl) (fun erased herased heq => ?_) h
    obtain ⟨n', e', hn', herased⟩ := mem_disconnectBatches_address.mp herased
    obtain ⟨hindex, input', hinput', hj', hkind'⟩ :=
      (erased_of_mem_disconnectBatch herased).2 (heq ▸ rfl)
    have hsame := mem_indexInputs hinput'
    simp only [heq, addressKey] at hindex hj'
    grind
  · intro hkinds
    refine erase_write_of_forall (fun erased herased => ?_) fun written hwritten => ?_
    · obtain ⟨n, e, -, herased⟩ := mem_disconnectBatches_address.mp herased
      exact hnew _ (erased_of_mem_disconnectBatch herased).1
    · obtain ⟨n, e, hn, hwritten⟩ := mem_connectBatches_address.mp hwritten
      refine ⟨written, mem_disconnectBatches_address.mpr ⟨n, e, hn, mem_append.mpr ?_⟩, rfl⟩
      rcases mem_append.mp hwritten with hwritten | hwritten
      · obtain ⟨input, hinput, hwritten⟩ := mem_flatMap.mp hwritten
        refine .inr (mem_flatMap.mpr ⟨input, mem_reverse.mpr hinput, ?_⟩)
        rwa [disconnectInputAddress_of_ne fun hkind => hkinds
          ⟨e, mem_of_getElem? hn, _, mem_of_getElem? (mem_indexInputs hinput), hkind⟩]
      · obtain ⟨output, houtput, hwritten⟩ := mem_flatMap.mp hwritten
        exact .inl (mem_flatMap.mpr ⟨output, mem_reverse.mpr houtput, hwritten⟩)

/-! ## The spent index -/

/-- **The spent index** comes back if and only if nothing is spent. -/
theorem spent_roundTrip {nHeight : ℕ} {ix : Indexes}
    (hheight : ∀ key value, ix.spent key = some value → value.blockHeight < nHeight)
    (hnull : ∀ entry ∈ txs, entry.1.hash ≠ 0) (i : ℕ) :
    (ix.updateSpentIndex (connectBatches (.all hash160) nHeight i txs).spent).spent = ix.spent
      ↔ ∀ entry ∈ txs, entry.1.spends.zip entry.2 = [] := by
  have hmem : ∀ entry, entry ∈ (connectBatches (.all hash160) nHeight i txs).spent ↔ ∃ n e,
      txs[n]? = some e ∧ entry ∈ (connectBatch (.all hash160) nHeight (i + n) e.1
        (indexInputs e.1.spends e.2)).spent := fun _ =>
    mem_batches_iff (fun i e => (connectBatch _ nHeight i e.1 (indexInputs e.1.spends e.2)).spent)
      (fun i txs => (connectBatches _ nHeight i txs).spent) (fun _ => rfl) fun _ _ _ => mem_append
  constructor
  · intro h e he
    by_contra hne
    obtain ⟨n, hn⟩ := mem_iff_getElem?.mp he
    obtain ⟨input, hinput⟩ := exists_mem_of_ne_nil _ hne
    obtain ⟨j, hj⟩ := mem_iff_getElem?.mp hinput
    have hwritten := (hmem _).mpr ⟨n, e, hn, mem_map_of_mem (mem_indexInputs_of_getElem? hj)⟩
    obtain ⟨change, hchange, -, hvalue⟩ := applyAll_of_mem (m := ix.spent) ⟨_, mem_map_of_mem
      (f := fun entry => (entry.1, if entry.2.isNull then none else some entry.2)) hwritten, rfl⟩
    obtain ⟨entry, hentry, rfl⟩ := mem_map.mp hchange
    obtain ⟨n', e', hn', hentry⟩ := (hmem entry).mp hentry
    obtain ⟨input', -, rfl⟩ := mem_map.mp hentry
    have hnot : (connectInputSpent (IndexOptions.all hash160).hash160 nHeight e'.1 input').2.isNull
        = false :=
      decide_eq_false (hnull e' (mem_of_getElem? hn'))
    have hafter := hvalue.symm.trans (congrFun h _)
    rw [hnot] at hafter
    exact absurd (hheight _ _ hafter.symm) (lt_irrefl _)
  · intro hinputs
    have hnil : (connectBatches (.all hash160) nHeight i txs).spent = [] := by
      refine eq_nil_iff_forall_not_mem.mpr fun entry hentry => ?_
      obtain ⟨n, e, hn, hentry⟩ := (hmem entry).mp hentry
      obtain ⟨input, hinput, -⟩ := mem_map.mp hentry
      exact ne_nil_of_mem (mem_of_getElem? (mem_indexInputs hinput)) (hinputs e (mem_of_getElem? hn))
    rw [hnil]
    rfl

/-! ## The block -/

/-- The indexes of a chain that the block is to be connected to: the index of unspent outputs is the
    table of the unspent outputs, among them the coins, and none of them is of a transaction of the
    block; all activity is of lower blocks, and the block has no timestamp entry. -/
structure Indexes.Consistent (hash160 : Valtype → Valtype) (ix : Indexes) (block : CBlock)
    (pindex : CBlockIndex) (view : CCoinsViewCache) (outputs : COutPoint → Option Coin) : Prop where
  unspent : ix.unspent = unspentTable hash160 outputs
  coins : CoinsAmong outputs view.visible
  fresh : ∀ tx ∈ block.vtx, ∀ n, outputs ⟨tx.hash, n⟩ = none
  address : ∀ key amount, ix.address key = some amount → key.blockHeight < pindex.nHeight
  spent : ∀ key value, ix.spent key = some value → value.blockHeight < pindex.nHeight
  timestamp : ∀ key value, ix.timestamp key = some value → pindex.phashBlock ≠ some key.blockHash

theorem CoinsAmong.none {outputs m : COutPoint → Option Coin} (h : CoinsAmong outputs m)
    {o : COutPoint} (ho : outputs o = none) : m o = none := by
  have := h o
  cases hm : m o <;> simp_all

section

variable {nHeight : ℕ} {m m' : COutPoint → Option Coin} (h : TxsConnected nHeight txs m m')

include h

theorem TxsConnected.length_eq {entry : CTransaction × List Coin} (hentry : entry ∈ txs) :
    entry.1.spends.length = entry.2.length := by
  induction h with
  | nil m => simp at hentry
  | cons head tail ih =>
    have := head.inputs.length_eq
    grind

theorem TxsConnected.map_fst_zip {entry : CTransaction × List Coin} (hentry : entry ∈ txs) :
    (entry.1.spends.zip entry.2).map Prod.fst = entry.1.spends :=
  List.map_fst_zip (le_of_eq (h.length_eq hentry))

/-- What is spent was there before or is an output of one of the transactions. -/
theorem TxsConnected.visible_of_input :
    ∀ entry ∈ txs, ∀ input ∈ entry.1.spends.zip entry.2,
      m input.1.prevout = some input.2 ∨ ∃ tx ∈ txs, tx.1.hash = input.1.prevout.hash := by
  induction h with
  | nil m => simp
  | @cons tx coins rest m₁ m₂ m₃ head tail ih =>
    rw [forall_mem_cons]
    refine ⟨fun input hinput => .inl (head.visible_of_mem_zip hinput), ?_⟩
    intro entry hentry input hinput
    have hbefore := ih entry hentry input hinput
    by_cases hhash : input.1.prevout.hash = tx.hash
    · exact .inr ⟨_, mem_cons_self, hhash.symm⟩
    · rw [head.result_of_ne hhash] at hbefore
      grind [removeAll]

theorem TxsConnected.spends_nodup (hfree : Free txs m)
    (hnodup : (txs.map fun entry => entry.1.hash).Nodup) :
    (txs.flatMap fun entry => entry.1.spentOutpoints).Nodup := by
  induction h with
  | nil m => exact nodup_nil
  | cons head tail ih =>
    rw [map_cons, nodup_cons] at hnodup
    have hnext := hfree.next head fun entry hentry heq => hnodup.1 (heq ▸ mem_map_of_mem hentry)
    rw [flatMap_cons, nodup_append']
    refine ⟨head.inputs_nodup, ih hnext hnodup.2, fun o ho hmem => ?_⟩
    obtain ⟨entry, hentry, hspent⟩ := mem_flatMap.mp hmem
    exact tail.spent_once head hfree ho entry hentry hspent

end

/-- **The unspent index** comes back if and only if no public key is spent from that was there before
    the block. -/
theorem unspent_restored_iff {nHeight : ℕ} {outputs m m' : COutPoint → Option Coin}
    (h : TxsConnected nHeight txs m m') (hamong : CoinsAmong outputs m) (hfree : Free txs outputs) :
    unspentTable hash160 (removeAll (forgotten txs) outputs) = unspentTable hash160 outputs
      ↔ ∀ entry ∈ txs, ∀ txin ∈ entry.1.spends, ∀ coin, m txin.prevout = some coin →
          coin.out.scriptPubKey.kind ≠ some .payToPublicKey := by
  -- what is spent and not of the block is in the coins before the block
  have hbefore : ∀ entry ∈ txs, ∀ input ∈ entry.1.spends.zip entry.2, ∀ coin,
      outputs input.1.prevout = some coin → m input.1.prevout = some input.2 := by
    intro entry hentry input hinput coin hcoin
    rcases h.visible_of_input entry hentry input hinput with hvisible | ⟨tx, htx, heq⟩
    · exact hvisible
    · simpa [heq, hcoin] using hfree tx htx input.1.prevout.n
  rw [unspentTable_removeAll_eq_iff]
  · constructor
    · intro hlost entry hentry txin htxin coin hcoin hkind
      rw [← h.map_fst_zip hentry] at htxin
      obtain ⟨input, hinput, rfl⟩ := mem_map.mp htxin
      have houtput := hamong _ _ hcoin
      obtain rfl : coin = input.2 :=
        Option.some.inj (hcoin.symm.trans (hbefore entry hentry input hinput coin houtput))
      simp [hlost _ (mem_forgotten.mpr ⟨entry, hentry, input, hinput, rfl, hkind⟩)] at houtput
    · intro hkinds o ho
      obtain ⟨entry, hentry, input, hinput, rfl, hkind⟩ := mem_forgotten.mp ho
      have hne := hkinds entry hentry input.1 (of_mem_zip hinput).1 input.2
      cases houtput : outputs input.1.prevout <;> grind
  · intro o ho coin hcoin
    obtain ⟨entry, hentry, input, hinput, rfl, hkind⟩ := mem_forgotten.mp ho
    have hsame := hamong _ _ (hbefore entry hentry input hinput coin hcoin)
    grind

section
variable {block : CBlock} {nHeight : ℕ} {m m' : COutPoint → Option Coin} {coinbase : CTransaction}
  {coins : List Coin} {rest : List CTransaction} {undos : List (List Coin)}
  (h : BlockTxs block nHeight m m' coinbase coins rest undos)

include h

theorem BlockTxs.exists_entry (htx : tx ∈ rest) : ∃ entry ∈ rest.zip undos, entry.1 = tx := by
  rw [← map_fst_zip (le_of_eq h.length_eq.symm)] at htx
  exact mem_map.mp htx

theorem BlockTxs.spends_ne (htx : tx ∈ rest) : tx.spends ≠ [] := by
  rw [spends_of_not_isCoinBase (h.ok.not_isCoinBase tx htx)]
  exact (h.ok.rest_ok tx htx).vin_ne

theorem BlockTxs.hashes_nodup (hfree : ∀ tx ∈ block.vtx, ∀ n, m ⟨tx.hash, n⟩ = none)
    (hcollision : ∀ tx ∈ block.vtx, ∀ tx' ∈ block.vtx, tx.hash = tx'.hash → tx = tx') :
    (((coinbase, coins) :: rest.zip undos).map fun entry => entry.1.hash).Nodup := by
  have hmem := h.mem_vtx
  have hnew : ∀ entry ∈ rest.zip undos, entry.1.hash ≠ coinbase.hash := by
    intro entry hentry heq
    have hsame := hcollision _ (hmem entry (mem_cons_of_mem _ hentry)) _
      (hmem (coinbase, coins) mem_cons_self) heq
    have hnot := h.ok.not_isCoinBase _ (of_mem_zip hentry).1
    simp [hsame, h.ok.isCoinBase] at hnot
  cases h.connected with
  | cons head tail =>
    rw [map_cons, nodup_cons]
    refine ⟨by simpa using hnew, tail.hashes_nodup ?_ ?_ ?_⟩
    · exact Free.next (fun entry hentry n => hfree entry.1 (hmem entry hentry) n) head hnew
    · exact fun entry hentry => h.spends_ne (of_mem_zip hentry).1
    · exact fun entry hentry entry' hentry' =>
        hcollision _ (hmem entry (mem_cons_of_mem _ hentry)) _
          (hmem entry' (mem_cons_of_mem _ hentry'))

/-- The coins that are spent are the undo data. -/
theorem BlockTxs.spendsPublicKey_iff :
    ¬ SpendsPublicKey ((coinbase, coins) :: rest.zip undos)
      ↔ ∀ txundo ∈ undos.map CTxUndo.mk, ∀ coin ∈ txundo.vprevout,
          coin.out.scriptPubKey.kind ≠ some .payToPublicKey := by
  have hcoinbase := spends_of_isCoinBase h.ok.isCoinBase
  constructor
  · intro hnot txundo htxundo coin hcoin hkind
    obtain ⟨undo, hundo, rfl⟩ := mem_map.mp htxundo
    rw [← map_snd_zip (le_of_eq h.length_eq)] at hundo
    obtain ⟨entry, hentry, rfl⟩ := mem_map.mp hundo
    have hmem := mem_cons_of_mem (coinbase, coins) hentry
    rw [← map_snd_zip (le_of_eq (h.connected.length_eq hmem).symm)] at hcoin
    obtain ⟨input, hinput, rfl⟩ := mem_map.mp hcoin
    exact hnot ⟨entry, hmem, input, hinput, hkind⟩
  · rintro hkinds ⟨entry, hentry, input, hinput, hkind⟩
    rcases mem_cons.mp hentry with rfl | hentry
    · simp [hcoinbase] at hinput
    · exact hkinds ⟨entry.2⟩ (mem_map_of_mem (of_mem_zip hentry).2) input.2
        (of_mem_zip hinput).2 hkind

theorem BlockTxs.forall_zip_eq_nil_iff :
    (∀ entry ∈ (coinbase, coins) :: rest.zip undos, entry.1.spends.zip entry.2 = [])
      ↔ block.vtx.length = 1 := by
  rw [h.vtx, length_cons, Nat.add_eq_right, length_eq_zero_iff]
  constructor
  · intro hnil
    by_contra hne
    obtain ⟨tx, htx⟩ := exists_mem_of_ne_nil _ hne
    obtain ⟨entry, hentry, rfl⟩ := h.exists_entry htx
    have hmem := mem_cons_of_mem (coinbase, coins) hentry
    have hspends := h.connected.map_fst_zip hmem
    rw [hnil entry hmem] at hspends
    exact h.spends_ne htx hspends.symm
  · rintro rfl
    simp [spends_of_isCoinBase h.ok.isCoinBase]

end

theorem created_free {block : CBlock} {coins : COutPoint → Option Coin} (nHeight : ℕ)
    (hnone : ∀ tx ∈ block.vtx, ∀ n, coins ⟨tx.hash, n⟩ = none) :
    ∀ tx ∈ block.vtx, ∀ binding ∈ tx.created nHeight, coins binding.1 = none := by
  intro tx htx binding hmem
  have hnew := hnone tx htx binding.1.n
  rwa [← hash_of_mem_created (mem_map_of_mem hmem)] at hnew

/-- **The indexes are not restored.** Take a block that `ConnectBlock` accepts with all indexes
    enabled, on a sound view and on indexes consistent with the chain, whose transactions have
    different hashes that are not null, and disconnect it with its undo data. Then the coins come back,
    and
    * the address index comes back if and only if no coin of the undo data is of a pay-to-public-key
      script,
    * the index of unspent outputs comes back if and only if no transaction spends a coin of such a
      script that was there before the block,
    * the spent index comes back if and only if there is only the coinbase,
    * the timestamp index never comes back. -/
theorem indexes_roundTrip (hash160 : Valtype → Valtype) (ctx : NodeContext) (block : CBlock)
    (pindex : CBlockIndex) (view : CCoinsViewCache) (ix : Indexes)
    (outputs : COutPoint → Option Coin) (r : ConnectResult) (blockundo : CBlockUndo)
    (hblock : block.CheckedBefore) (hsound : view.Sound)
    (hcoins : ∀ tx ∈ block.vtx, ∀ txin ∈ tx.vin, ∀ coin,
      view.visible txin.prevout = some coin → coin.Undoable)
    (hhash : pindex.phashBlock ≠ some 0)
    (hcollision : ∀ tx ∈ block.vtx, ∀ tx' ∈ block.vtx, tx.hash = tx'.hash → tx = tx')
    (hnull : ∀ tx ∈ block.vtx, tx.hash ≠ 0)
    (hix : ix.Consistent hash160 block pindex view outputs)
    (h : connectBlock ctx block pindex view false = .ok r) (hundo : r.blockundo = some blockundo) :
    ∃ ix' view' ix'',
      connectBlockIndexed (.all hash160) ctx block pindex view ix = .ok (r, ix')
      ∧ disconnectBlockIndexed (.all hash160) block pindex (some blockundo) r.view ix'
        = .ok (.DISCONNECT_OK, view', ix'')
      ∧ (∀ o, view'.visible o = view.visible o)
      ∧ (ix''.address = ix.address ↔ ∀ txundo ∈ blockundo.vtxundo, ∀ coin ∈ txundo.vprevout,
          coin.out.scriptPubKey.kind ≠ some .payToPublicKey)
      ∧ (ix''.unspent = ix.unspent ↔ ∀ tx ∈ block.vtx, ∀ txin ∈ tx.spends, ∀ coin,
          view.visible txin.prevout = some coin →
          coin.out.scriptPubKey.kind ≠ some .payToPublicKey)
      ∧ (ix''.spent = ix.spent ↔ block.vtx.length = 1)
      ∧ ix''.timestamp ≠ ix.timestamp ∧ ix'' ≠ ix := by
  have hnone : ∀ tx ∈ block.vtx, ∀ n, view.visible ⟨tx.hash, n⟩ = none := fun tx htx n =>
    hix.coins.none (hix.fresh tx htx n)
  obtain ⟨⟨block', hcheck⟩, ⟨-, -, hgenesis, -⟩ | ⟨prev, view₁, s, hconnected⟩⟩ := connectBlock_ok h
  · simp [hgenesis] at hundo
  obtain ⟨coinbase, rest, hvtx, hok⟩ := checkBlock_ok hblock hcheck
  have hfresh : FreshlyConnected ctx block pindex view false r prev view₁ s coinbase rest :=
    ⟨hconnected, hvtx, hok, hsound, created_free pindex.nHeight hnone⟩
  obtain ⟨⟨view', hdisconnect, hvisible, -⟩, -, hundoable, coins, undos, rfl, hblockTxs⟩ :=
    hfresh.disconnect hcoins hhash hundo
  have htxs := hblockTxs.connected
  have hpos := CBlockIndex.nHeight_pos hconnected.pprev
  -- what the two loops collect
  have hbatch : connectIndexTxs (.all hash160) _ _ _ _ _ _ = _ := hfresh.connectIndexTxs hblockTxs
  set txs := (coinbase, coins) :: rest.zip undos
  have hspends : ∀ entry ∈ txs, ∀ o ∈ entry.1.spentOutpoints,
      ∃ tx ∈ block.vtx, o ∈ tx.spentOutpoints :=
    fun entry hentry o ho => ⟨entry.1, hblockTxs.mem_vtx entry hentry, ho⟩
  have hfreeTxs : Free txs outputs :=
    fun entry hentry n => hix.fresh entry.1 (hblockTxs.mem_vtx entry hentry) n
  obtain ⟨s', hbatch'⟩ := @disconnectIndexTxs_block _ _ _ (.all hash160) _ _ _ _ hvtx hok _
    (htxs.undoable hpos pindex.height_lt hblockTxs.transactionOk hspends hundoable) hdisconnect
  obtain ⟨outputs', hunspent, hunspent'⟩ := @unspent_roundTrip hash160 _ _ hpos pindex.height_lt _ _
    htxs 0 _ _ hblockTxs.transactionOk hspends hundoable
    (hblockTxs.hashes_nodup hnone hcollision) hfreeTxs hix.coins
  obtain ⟨hash, hphash, -⟩ := (moveBestBlock_ok hconnected.moved).2 rfl
  have hgetHash : pindex.getBlockHash = .ok hash := by simp [CBlockIndex.getBlockHash, hphash]
  have htimestamp : ix.timestamp ⟨pindex.nTime, hash⟩ = none :=
    Option.eq_none_iff_forall_ne_some.mpr fun value hvalue => hix.timestamp _ value hvalue hphash
  generalize hc : connectBatches (.all hash160) pindex.nHeight 0 txs = batch at hbatch hunspent
  generalize hd : disconnectBatches (.all hash160) pindex.nHeight 0 txs = batch' at hbatch' hunspent'
  have hstays : ((ix.connect (.all hash160) batch ⟨pindex.nTime, hash⟩).disconnect (.all hash160)
      batch').timestamp ≠ ix.timestamp := by
    intro heq
    have hwritten : Function.update ix.timestamp ⟨pindex.nTime, hash⟩ (some 0) ⟨pindex.nTime, hash⟩
        = none := (congrFun heq _).trans htimestamp
    simp at hwritten
  refine ⟨ix.connect (.all hash160) batch ⟨pindex.nTime, hash⟩, view',
    (ix.connect (.all hash160) batch ⟨pindex.nTime, hash⟩).disconnect (.all hash160) batch',
    ?_, ?_, hvisible, ?_, ?_, ?_, hstays, fun heq => hstays (congrArg Indexes.timestamp heq)⟩
  · refine bind_eq_ok_iff.mpr ⟨r, h, ?_⟩
    rw [hundo]
    refine bind_eq_ok_iff.mpr ⟨view₁, hconnected.start, bind_eq_ok_iff.mpr ⟨batch, hbatch, ?_⟩⟩
    exact bind_eq_ok_iff.mpr ⟨hash, mapError_eq_ok_iff.mpr hgetHash, rfl⟩
  · refine bind_eq_ok_iff.mpr ⟨_, hdisconnect, ?_⟩
    simp only [hbatch']
    rfl
  · subst hc hd
    exact (address_roundTrip hix.address 0).trans hblockTxs.spendsPublicKey_iff
  · have hafter : ((ix.connect (.all hash160) batch ⟨pindex.nTime, hash⟩).disconnect (.all hash160)
        batch').unspent = unspentTable hash160 (removeAll (forgotten txs) outputs) := by
      show applyAll (batch'.unspent.map unspentChange)
        (applyAll (batch.unspent.map unspentChange) ix.unspent) = _
      rw [hix.unspent, hunspent, hunspent']
    rw [hafter, hix.unspent, unspent_restored_iff htxs hix.coins hfreeTxs]
    exact hblockTxs.forall_mem_iff fun tx => ∀ txin ∈ tx.spends, ∀ coin,
      view.visible txin.prevout = some coin → coin.out.scriptPubKey.kind ≠ some .payToPublicKey
  · subst hc
    exact (spent_roundTrip hix.spent (fun entry hentry => hnull _ (hblockTxs.mem_vtx entry hentry))
      0).trans hblockTxs.forall_zip_eq_nil_iff

/-- Pay to a public key. -/
def publicKeyScript : CScript := 0x21 :: 0x02 :: List.replicate 32 0 ++ [0xac]

/-- A coin of that script. -/
def publicKeyCoin : UnspentCoin := ⟨⟨⟨5, publicKeyScript⟩, false, 1⟩, rfl⟩

/-- A view with the coin. -/
def publicKeyView : CCoinsViewCache := viewOfCoins [(⟨20, 0⟩, publicKeyCoin)]

/-- A block that spends the coin. -/
def publicKeyBlock : CBlock := blockOf [coinbasePaying 10, spending 21 ⟨20, 0⟩ [⟨4, [0x51]⟩]]

/-- The indexes of the view. The public key stands for its hash. -/
def publicKeyIndexes : Indexes where
  address := fun _ => none
  unspent := unspentTable id publicKeyView.visible
  spent := fun _ => none
  timestamp := fun _ => none

theorem publicKeyIndexes_consistent :
    publicKeyIndexes.Consistent id publicKeyBlock thirdIndex publicKeyView publicKeyView.visible where
  unspent := rfl
  coins := fun _ _ h => h
  fresh := visible_viewOfCoins_eq_none (by decide)
  address := by simp [publicKeyIndexes]
  spent := by simp [publicKeyIndexes]
  timestamp := by simp [publicKeyIndexes]

theorem indexes_roundTrip_publicKey :
    ∃ r ix' view' ix'',
      connectBlockIndexed (.all id) (openContext .regtest 2) publicKeyBlock thirdIndex publicKeyView
          publicKeyIndexes = .ok (r, ix')
      ∧ disconnectBlockIndexed (.all id) publicKeyBlock thirdIndex r.blockundo r.view ix'
        = .ok (.DISCONNECT_OK, view', ix'')
      ∧ (∀ o, view'.visible o = publicKeyView.visible o)
      ∧ ix''.unspent ≠ publicKeyIndexes.unspent ∧ ix''.spent ≠ publicKeyIndexes.spent
      ∧ ix''.timestamp ≠ publicKeyIndexes.timestamp := by
  have hundo : ((connectBlock (openContext .regtest 2) publicKeyBlock thirdIndex publicKeyView
      false).toOption.bind ConnectResult.blockundo).isSome := by decide +kernel
  obtain ⟨blockundo, hsome⟩ := Option.isSome_iff_exists.mp hundo
  obtain ⟨r, hr, hblockundo⟩ := Option.bind_eq_some_iff.mp hsome
  have hok := Checks.toOption_eq_some_iff.mp hr
  have hcoins : ∀ tx ∈ publicKeyBlock.vtx, ∀ txin ∈ tx.vin,
      ∀ coin ∈ publicKeyView.visible txin.prevout, coin.Undoable := by decide +kernel
  obtain ⟨ix', view', ix'', hconnect, hdisconnect, hvisible, -, hunspent, hspent, htimestamp, -⟩ :=
    indexes_roundTrip id (openContext .regtest 2) publicKeyBlock thirdIndex publicKeyView
      publicKeyIndexes publicKeyView.visible r blockundo (fun h => absurd h (by decide))
      (CCoinsViewCache.sound_over _) hcoins (by decide) (by decide +kernel) (by decide)
      publicKeyIndexes_consistent hok hblockundo
  rw [← hblockundo] at hdisconnect
  refine ⟨r, ix', view', ix'', hconnect, hdisconnect, hvisible, ?_, ?_, htimestamp⟩
  · intro heq
    exact hunspent.mp heq (spending 21 ⟨20, 0⟩ [⟨4, [0x51]⟩]) (by decide) ⟨⟨20, 0⟩, [], 0xffffffff⟩
      (by decide) publicKeyCoin.1 (by decide +kernel) (by decide +kernel)
  · exact fun heq => absurd (hspent.mp heq) (by decide)

/-- Connect a block with all indexes and disconnect it again. -/
def connectAndDisconnectIndexed (ctx : NodeContext) (block : CBlock) (pindex : CBlockIndex)
    (view : CCoinsViewCache) (ix : Indexes) : Option (DisconnectResult × Indexes) := do
  let connected ← (connectBlockIndexed (.all id) ctx block pindex view ix).toOption
  let result ← (disconnectBlockIndexed (.all id) block pindex connected.1.blockundo connected.1.view
    connected.2).toOption
  some (result.1, result.2.2)

/-- The key of the coin in the index of unspent outputs. -/
def publicKeyUnspent : CAddressUnspentKey := unspentKey id publicKeyScript .payToPublicKey ⟨20, 0⟩

/-- The key of the input in the address index. -/
def publicKeyActivity : CAddressIndexKey :=
  addressKey id publicKeyScript .payToPublicKey 3 1 21 0 true

/-- A block that spends from a public key is disconnected cleanly. Then the output it spent is missing
    in the index of unspent outputs; its spending activity, the spending input and the block are still
    in the other indexes. -/
theorem publicKeyBlock_not_restored :
    publicKeyIndexes.unspent publicKeyUnspent = some ⟨5, publicKeyScript, 1⟩
      ∧ (connectAndDisconnectIndexed (openContext .regtest 2) publicKeyBlock thirdIndex publicKeyView
          publicKeyIndexes).map (fun result => (result.1, result.2.unspent publicKeyUnspent,
            result.2.address publicKeyActivity))
        = some (.DISCONNECT_OK, none, some (-5))
      ∧ (connectAndDisconnectIndexed (openContext .regtest 2) publicKeyBlock thirdIndex publicKeyView
          publicKeyIndexes).map (fun result => ((result.2.spent ⟨20, 0⟩).map CSpentIndexValue.txid,
            result.2.timestamp ⟨1500000000, 3⟩))
        = some (some 21, some 0) := by
  refine ⟨?_, ?_, ?_⟩ <;> decide +kernel

/-! ## Double spends -/

/-- **No double spend.** The inputs of a block that `ConnectBlock` accepts, all transactions together,
    spend different outpoints. -/
theorem connectBlock_spends_once (ctx : NodeContext) (block : CBlock) (pindex : CBlockIndex)
    (view : CCoinsViewCache) (fJustCheck : Bool) (r : ConnectResult) (hblock : block.CheckedBefore)
    (hsound : view.Sound) (hgenesis : ctx.getHash block.header ≠ ctx.hashGenesisBlock)
    (hcollision : ∀ tx ∈ block.vtx, ∀ tx' ∈ block.vtx, tx.hash = tx'.hash → tx = tx')
    (hnone : ∀ tx ∈ block.vtx, ∀ n, view.visible ⟨tx.hash, n⟩ = none)
    (h : connectBlock ctx block pindex view fJustCheck = .ok r) :
    (block.vtx.flatMap spentOutpoints).Nodup := by
  obtain ⟨⟨block', hcheck⟩, ⟨heq, -⟩ | ⟨prev, view₁, s, hconnected⟩⟩ := connectBlock_ok h
  · exact absurd heq hgenesis
  obtain ⟨coinbase, rest, hvtx, hok⟩ := checkBlock_ok hblock hcheck
  obtain ⟨-, coins, undos, hblockTxs, -⟩ := FreshlyConnected.blockTxs
    ⟨hconnected, hvtx, hok, hsound, created_free pindex.nHeight hnone⟩
  have hspends := hblockTxs.connected.spends_nodup
    (fun entry hentry => hnone _ (hblockTxs.mem_vtx entry hentry)) (hblockTxs.hashes_nodup hnone hcollision)
  rwa [flatMap_cons, ← flatMap_map Prod.fst spentOutpoints, map_fst_zip hblockTxs.length_eq.ge,
    ← flatMap_cons, ← hvtx] at hspends

/-- The block spends a coin and then the output that this created. -/
theorem connectBlock_spends_once_chained : (chainedBlock.vtx.flatMap spentOutpoints).Nodup := by
  have hsome : (connectBlock (openContext .regtest 2) chainedBlock thirdIndex chainedView
      false).toOption.isSome := by decide +kernel
  obtain ⟨r, hr⟩ := Option.isSome_iff_exists.mp hsome
  exact connectBlock_spends_once (openContext .regtest 2) chainedBlock thirdIndex chainedView
    false r (fun h => absurd h (by decide)) (CCoinsViewCache.sound_over _) (by decide +kernel)
    (by decide +kernel) (visible_viewOfCoins_eq_none (by decide)) (toOption_eq_some_iff.mp hr)

end Binarium
