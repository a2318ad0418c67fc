import Binarium.Script.Script
import Binarium.Serialize.Amount
import Binarium.Serialize.VarInt

set_option autoImplicit false

/-! # Compressed outputs (`compressor.h`, `compressor.cpp`)

The coins database writes an output as a compressed amount and a compressed script. Six forms of scripts
have a tag below six and no length: two hashes, and public keys with the parity of the second coordinate
in the tag. Every other script is written with its length, to which six is added.

What the elliptic curve does is left to `PubKeyCodec`, which assumes no more than that a valid key is
recovered from its first coordinate and the parity. -/

namespace Binarium

open List Option OffsetBase

/-! ## Public keys -/

/-- `CPubKey::IsFullyValid` and `CPubKey::Decompress`. -/
structure PubKeyCodec where
  isFullyValid : Valtype → Bool
  decompress : Valtype → Option Valtype
  /-- Decompression inverts compression for valid keys. -/
  decompress_compressed : ∀ (x y : Valtype), x.length = 32 → y.length = 32 →
    isFullyValid (0x04 :: (x ++ y)) = true →
      decompress ((0x02 ||| (y.getLastD 0 &&& 0x01)) :: x) = some (0x04 :: (x ++ y))

/-- `CPubKey::GetLen`. -/
def pubKeyLen (chHeader : BitVec 8) : ℕ :=
  if chHeader = 2 ∨ chHeader = 3 then 33
  else if chHeader = 4 ∨ chHeader = 6 ∨ chHeader = 7 then 65
  else 0

/-- `CPubKey::Set`: the bytes of the key, which start with `0xFF` if it is invalid. -/
def pubKeySet : Valtype → Valtype
  | [] => [0xFF]
  | chHeader :: data =>
    let len := pubKeyLen chHeader
    if len ≠ 0 ∧ len = data.length + 1 then chHeader :: data else [0xFF]

/-! ## Scripts -/

/-- `OP_DUP`. -/
def OP_DUP : OpCode := 0x76

/-- `OP_EQUAL`. -/
def OP_EQUAL : OpCode := 0x87

/-- `OP_EQUALVERIFY`. -/
def OP_EQUALVERIFY : OpCode := 0x88

/-- `OP_HASH160`. -/
def OP_HASH160 : OpCode := 0xa9

/-- `CScriptCompressor::nSpecialScripts`. -/
def nSpecialScripts : BitVec 32 := 6

/-- `CScriptCompressor::IsToKeyID`. -/
def isToKeyID (script : CScript) : Option Valtype :=
  if script.length = 25 ∧ script[0]? = some OP_DUP ∧ script[1]? = some OP_HASH160
      ∧ script[2]? = some 20 ∧ script[23]? = some OP_EQUALVERIFY ∧ script[24]? = some OP_CHECKSIG then
    some ((script.drop 3).take 20)
  else none

/-- `CScriptCompressor::IsToScriptID`. -/
def isToScriptID (script : CScript) : Option Valtype :=
  if script.length = 23 ∧ script[0]? = some OP_HASH160 ∧ script[1]? = some 20
      ∧ script[22]? = some OP_EQUAL then
    some ((script.drop 2).take 20)
  else none

/-- `CScriptCompressor::IsToPubKey`. -/
def isToPubKey (crypto : PubKeyCodec) (script : CScript) : Option Valtype :=
  if script.length = 35 ∧ script[0]? = some 33 ∧ script[34]? = some OP_CHECKSIG
      ∧ (script[1]? = some 0x02 ∨ script[1]? = some 0x03) then
    some (pubKeySet ((script.drop 1).take 33))
  else if script.length = 67 ∧ script[0]? = some 65 ∧ script[66]? = some OP_CHECKSIG
      ∧ script[1]? = some 0x04 then
    -- A key that is not fully valid is not compressible.
    let pubkey := pubKeySet ((script.drop 1).take 65)
    if crypto.isFullyValid pubkey then some pubkey else none
  else none

/-- The end of `CScriptCompressor::Compress`, for a public key. -/
def compressPubKey (pubkey : Valtype) : Option Valtype :=
  let data := (pubkey.drop 1).take 32
  if pubkey[0]? = some 0x02 then some (0x02 :: data)
  else if pubkey[0]? = some 0x03 then some (0x03 :: data)
  else if pubkey[0]? = some 0x04 then some ((0x04 ||| (pubkey.getD 64 0 &&& 0x01)) :: data)
  else none

/-- `CScriptCompressor::Compress`. -/
def compressScript (crypto : PubKeyCodec) (script : CScript) : Option Valtype :=
  match isToKeyID script with
  | some keyID => some (0x00 :: keyID)
  | none =>
    match isToScriptID script with
    | some scriptID => some (0x01 :: scriptID)
    | none => (isToPubKey crypto script).bind compressPubKey

/-- `CScriptCompressor::GetSpecialSize`. -/
def getSpecialSize (nSize : BitVec 32) : ℕ :=
  if nSize = 0 ∨ nSize = 1 then 20
  else if nSize = 2 ∨ nSize = 3 ∨ nSize = 4 ∨ nSize = 5 then 32
  else 0

/-- `CScriptCompressor::Decompress`: what it returns, and the script. `none` is the failed assertion. -/
def decompressScript (crypto : PubKeyCodec) (nSize : BitVec 32) (input : Valtype) (script : CScript) :
    Option (Bool × CScript) :=
  if nSize = 0x00 then
    some (true, [OP_DUP, OP_HASH160, 20] ++ input.take 20 ++ [OP_EQUALVERIFY, OP_CHECKSIG])
  else if nSize = 0x01 then
    some (true, [OP_HASH160, 20] ++ input.take 20 ++ [OP_EQUAL])
  else if nSize = 0x02 ∨ nSize = 0x03 then
    some (true, [33, nSize.setWidth 8] ++ input.take 32 ++ [OP_CHECKSIG])
  else if nSize = 0x04 ∨ nSize = 0x05 then
    match crypto.decompress (pubKeySet ((nSize - 2).setWidth 8 :: input.take 32)) with
    | none => some (false, script)
    | some pubkey =>
      if pubkey.length = 65 then some (true, [65] ++ pubkey ++ [OP_CHECKSIG]) else none
  else some (false, script)

/-- `CScriptCompressor::GetSerializeSize`. -/
def scriptSerializeSize (crypto : PubKeyCodec) (script : CScript) : ℕ :=
  match compressScript crypto script with
  | some compr => compr.length
  | none => script.length + getSizeOfVarInt (BitVec.ofNat 32 script.length + nSpecialScripts)

/-- `CScriptCompressor::Serialize`. -/
def serializeScript (crypto : PubKeyCodec) (script : CScript) : Option (List (BitVec 8)) :=
  match compressScript crypto script with
  | some compr => some compr
  | none => (writeVarInt (BitVec.ofNat 32 script.length + nSpecialScripts)).map (· ++ script)

/-- Reading bytes from a stream; `none` is the exception at its end. -/
def readBytes (n : ℕ) (s : List (BitVec 8)) : Option (List (BitVec 8) × List (BitVec 8)) :=
  if s.length < n then none else some (s.take n, s.drop n)

/-- `CDataStream::ignore`, whose argument is an `int`. -/
def ignoreBytes (nSize : BitVec 32) (s : List (BitVec 8)) : Option (List (BitVec 8)) :=
  if nSize.toInt < 0 then none else (readBytes nSize.toNat s).map Prod.snd

/-- `CScriptCompressor::Unserialize` into a script. -/
def unserializeScript (crypto : PubKeyCodec) (script : CScript) (s : List (BitVec 8)) :
    Option (CScript × List (BitVec 8)) := do
  let (nSize, s) ← readVarInt 32 s
  if nSize < nSpecialScripts then
    let (vch, s) ← readBytes (getSpecialSize nSize) s
    let (_, script) ← decompressScript crypto nSize vch script
    some (script, s)
  else
    let nSize := nSize - nSpecialScripts
    if MAX_SCRIPT_SIZE < nSize.toNat then
      -- An overly long script is replaced with a short invalid one.
      let s ← ignoreBytes nSize s
      some (script ++ [OP_RETURN], s)
    else readBytes nSize.toNat s

/-! ## Outputs -/

/-- `CTxOutCompressor`, writing. -/
def serializeTxOut (crypto : PubKeyCodec) (txout : CTxOut) : Option (List (BitVec 8)) := do
  let amount ← writeVarInt (compressAmount txout.nValue.toBitVec)
  let script ← serializeScript crypto txout.scriptPubKey
  some (amount ++ script)

/-- `CTxOutCompressor::GetSerializeSize`: the `CSizeComputer` counts the bytes that are written. -/
def txOutSerializeSize (crypto : PubKeyCodec) (txout : CTxOut) : Option ℕ :=
  (serializeTxOut crypto txout).map List.length

/-- `CTxOutCompressor`, reading into an output. -/
def unserializeTxOut (crypto : PubKeyCodec) (txout : CTxOut) (s : List (BitVec 8)) :
    Option (CTxOut × List (BitVec 8)) := do
  let (nVal, s) ← readVarInt 64 s
  let (scriptPubKey, s) ← unserializeScript crypto txout.scriptPubKey s
  some (⟨Int64.ofBitVec (decompressAmount nVal), scriptPubKey⟩, s)

/-! ## The forms of scripts -/

/-- A string with given bytes at both ends. -/
theorem eq_append_of_ends {α : Type*} {l front back : List α} {n : ℕ}
    (hlength : l.length = front.length + n + back.length)
    (hfront : ∀ i < front.length, l[i]? = front[i]?)
    (hback : ∀ i < back.length, l[front.length + n + i]? = back[i]?) :
    l = front ++ (l.drop front.length).take n ++ back := by
  apply ext_getElem?
  intro i
  grind

variable {script : CScript} {crypto : PubKeyCodec}

theorem isToKeyID_eq {keyID : Valtype} (h : isToKeyID script = some keyID) :
    keyID.length = 20 ∧
      script = [OP_DUP, OP_HASH160, 20] ++ keyID ++ [OP_EQUALVERIFY, OP_CHECKSIG] := by
  unfold isToKeyID at h
  split_ifs at h with hform
  obtain ⟨hlength, h0, h1, h2, h23, h24⟩ := hform
  cases h
  refine ⟨by rw [length_take, length_drop]; omega, ?_⟩
  exact @eq_append_of_ends _ script [OP_DUP, OP_HASH160, 20] [OP_EQUALVERIFY, OP_CHECKSIG] 20 hlength
    (fun | 0, _ => h0 | 1, _ => h1 | 2, _ => h2) (fun | 0, _ => h23 | 1, _ => h24)

theorem isToScriptID_eq {scriptID : Valtype} (h : isToScriptID script = some scriptID) :
    scriptID.length = 20 ∧ script = [OP_HASH160, 20] ++ scriptID ++ [OP_EQUAL] := by
  unfold isToScriptID at h
  split_ifs at h with hform
  obtain ⟨hlength, h0, h1, h22⟩ := hform
  cases h
  refine ⟨by rw [length_take, length_drop]; omega, ?_⟩
  exact @eq_append_of_ends _ script [OP_HASH160, 20] [OP_EQUAL] 20 hlength
    (fun | 0, _ => h0 | 1, _ => h1) (fun | 0, _ => h22)

theorem keyScript_eq {size header : BitVec 8} {n : ℕ} (hlength : script.length = n + 3)
    (h0 : script[0]? = some size) (h1 : script[1]? = some header)
    (hlast : script[n + 2]? = some OP_CHECKSIG) :
    ∃ data, data.length = n ∧ script = [size, header] ++ data ++ [OP_CHECKSIG] ∧
      (script.drop 1).take (n + 1) = header :: data := by
  have hscript := @eq_append_of_ends _ script [size, header] [OP_CHECKSIG] n
    (by simp only [length_cons, length_nil]; omega) (fun | 0, _ => h0 | 1, _ => h1)
    (fun | 0, _ => Nat.add_comm 2 n ▸ hlast)
  have hdata : ((script.drop [size, header].length).take n).length = n := by
    rw [length_take, length_drop]
    simp only [length_cons, length_nil]
    omega
  generalize (script.drop [size, header].length).take n = data at *
  subst hscript
  subst hdata
  simp

/-- The public keys of scripts: a compressed one, or a valid one that is not. -/
theorem isToPubKey_eq {pubkey : Valtype} (h : isToPubKey crypto script = some pubkey) :
    (∃ header x, (header = 0x02 ∨ header = 0x03) ∧ x.length = 32 ∧ pubkey = header :: x ∧
      script = [33, header] ++ x ++ [OP_CHECKSIG]) ∨
    ∃ x y, x.length = 32 ∧ y.length = 32 ∧ pubkey = 0x04 :: (x ++ y) ∧
      crypto.isFullyValid pubkey ∧ script = [65, 0x04] ++ (x ++ y) ++ [OP_CHECKSIG] := by
  unfold isToPubKey at h
  split_ifs at h with hform hform
  · obtain ⟨hlength, h0, hlast, hheader⟩ := hform
    obtain ⟨header, hvalue, h1⟩ : ∃ header : BitVec 8, (header = 0x02 ∨ header = 0x03) ∧
        script[1]? = some header :=
      hheader.elim (fun h1 => ⟨_, Or.inl rfl, h1⟩) fun h1 => ⟨_, Or.inr rfl, h1⟩
    obtain ⟨x, hx, hscript, hkey⟩ := keyScript_eq (n := 32) hlength h0 h1 hlast
    have hset : pubKeySet (header :: x) = header :: x := by
      have hlen : pubKeyLen header = 33 := if_pos hvalue
      rw [pubKeySet, hlen]
      exact if_pos ⟨by decide, by omega⟩
    rw [hkey, hset] at h
    exact Or.inl ⟨header, x, hvalue, hx, (Option.some.inj h).symm, hscript⟩
  · obtain ⟨hlength, h0, hlast, h1⟩ := hform
    obtain ⟨data, hdata, hscript, hkey⟩ := keyScript_eq (n := 64) hlength h0 h1 hlast
    have hset : pubKeySet (0x04 :: data) = 0x04 :: data := if_pos ⟨by decide, by rw [hdata]; decide⟩
    rw [hkey, hset] at h
    dsimp only at h
    split_ifs at h with hvalid
    cases h
    refine Or.inr ⟨data.take 32, data.drop 32, ?_, ?_, ?_, hvalid, ?_⟩
    · rw [length_take]
      omega
    · rw [length_drop]
      omega
    · rw [take_append_drop]
    · rwa [take_append_drop]

/-! ## Compression is inverted -/

/-- What `Compress` writes: a tag and as many bytes as belong to it, from which the script comes
    back. -/
def Compresses (crypto : PubKeyCodec) (script : CScript) (tag : BitVec 8) (data : Valtype) : Prop :=
  tag.toNat < 6 ∧ data.length = getSpecialSize (tag.setWidth 32) ∧
    ∀ old, decompressScript crypto (tag.setWidth 32) data old = some (true, script)

theorem compresses_keyID (crypto : PubKeyCodec) {keyID : Valtype} (h : keyID.length = 20) :
    Compresses crypto ([OP_DUP, OP_HASH160, 20] ++ keyID ++ [OP_EQUALVERIFY, OP_CHECKSIG])
      0x00 keyID := by
  refine ⟨by decide, h, fun old => ?_⟩
  rw [decompressScript, if_pos (by decide), take_of_length_le (by omega)]

theorem compresses_scriptID (crypto : PubKeyCodec) {scriptID : Valtype} (h : scriptID.length = 20) :
    Compresses crypto ([OP_HASH160, 20] ++ scriptID ++ [OP_EQUAL]) 0x01 scriptID := by
  refine ⟨by decide, h, fun old => ?_⟩
  rw [decompressScript, if_neg (by decide), if_pos (by decide), take_of_length_le (by omega)]

theorem compresses_compressedKey (crypto : PubKeyCodec) {header : BitVec 8} {x : Valtype}
    (hheader : header = 0x02 ∨ header = 0x03) (hx : x.length = 32) :
    Compresses crypto ([33, header] ++ x ++ [OP_CHECKSIG]) header x := by
  have htake : x.take 32 = x := take_of_length_le (by omega)
  rcases hheader with rfl | rfl
  all_goals
    refine ⟨by decide, hx, fun old => ?_⟩
    simp [decompressScript, htake]

theorem parityTag (b : BitVec 8) :
    ((0x04 ||| (b &&& 0x01)).setWidth 32 = (0x04 : BitVec 32) ∨
      (0x04 ||| (b &&& 0x01)).setWidth 32 = (0x05 : BitVec 32)) ∧
    ((0x04 ||| (b &&& 0x01)).setWidth 32 - 2 : BitVec 32).setWidth 8 = 0x02 ||| (b &&& 0x01) ∧
    (0x04 ||| (b &&& 0x01)).toNat < 6 ∧
    pubKeyLen (0x02 ||| (b &&& 0x01)) = 33 := by
  revert b
  decide +kernel

theorem compresses_validKey (crypto : PubKeyCodec) {x y : Valtype} (hx : x.length = 32)
    (hy : y.length = 32) (hvalid : crypto.isFullyValid (0x04 :: (x ++ y))) :
    Compresses crypto ([65, 0x04] ++ (x ++ y) ++ [OP_CHECKSIG])
      (0x04 ||| (y.getLastD 0 &&& 0x01)) x := by
  obtain ⟨htag, hheader, hlt, hlen⟩ := parityTag (y.getLastD 0)
  have hset : pubKeySet ((0x02 ||| (y.getLastD 0 &&& 0x01)) :: x)
      = (0x02 ||| (y.getLastD 0 &&& 0x01)) :: x := by
    rw [pubKeySet, hlen]
    exact if_pos ⟨by decide, by omega⟩
  refine ⟨hlt, by rcases htag with h | h <;> rwa [h], fun old => ?_⟩
  rw [decompressScript, if_neg (by rcases htag with h | h <;> rw [h] <;> decide),
    if_neg (by rcases htag with h | h <;> rw [h] <;> decide),
    if_neg (by rcases htag with h | h <;> rw [h] <;> decide), if_pos htag, hheader,
    take_of_length_le (by omega), hset, crypto.decompress_compressed x y hx hy hvalid]
  dsimp only
  rw [if_pos (by rw [length_cons, length_append, hx, hy])]
  rfl

theorem getD_lastByte {x y : Valtype} (hx : x.length = 32) (hy : y.length = 32) :
    ((0x04 : BitVec 8) :: (x ++ y)).getD 64 0 = y.getLastD 0 := by
  rw [getD_cons_succ, getD_append_right _ _ _ _ (by omega), hx, getLastD_eq_getLast?,
    getLast?_eq_getElem?, hy, getD_eq_getElem?_getD]

/-- **Whatever `Compress` writes is decompressed to the script.** -/
theorem compressScript_spec {out : Valtype} (h : compressScript crypto script = some out) :
    ∃ tag data, out = tag :: data ∧ Compresses crypto script tag data := by
  unfold compressScript at h
  split at h
  next keyID hkey =>
    cases h
    obtain ⟨hlength, rfl⟩ := isToKeyID_eq hkey
    exact ⟨_, _, rfl, compresses_keyID crypto hlength⟩
  next =>
    split at h
    next scriptID hid =>
      cases h
      obtain ⟨hlength, rfl⟩ := isToScriptID_eq hid
      exact ⟨_, _, rfl, compresses_scriptID crypto hlength⟩
    next =>
      obtain ⟨pubkey, hkey, hout⟩ := bind_eq_some_iff.mp h
      rcases isToPubKey_eq hkey with ⟨header, x, hheader, hx, rfl, rfl⟩ | ⟨x, y, hx, hy, rfl, hv, rfl⟩
      · refine ⟨header, x, ?_, compresses_compressedKey crypto hheader hx⟩
        rcases hheader with rfl | rfl <;> simpa [compressPubKey, ← hx, eq_comm] using hout
      · refine ⟨_, x, ?_, compresses_validKey crypto hx hy hv⟩
        rw [compressPubKey, getD_lastByte hx hy] at hout
        simp [drop_succ_cons, drop_zero, take_left' hx, (Option.some.inj hout).symm]

/-! ## Reading back -/

theorem readBytes_append {n : ℕ} {bytes : List (BitVec 8)} (h : bytes.length = n)
    (rest : List (BitVec 8)) : readBytes n (bytes ++ rest) = some (bytes, rest) := by
  rw [readBytes, if_neg (by rw [length_append]; omega), take_left' h, drop_left' h]

theorem readVarInt_tag {tag : BitVec 8} (h : tag.toNat < 6) (rest : List (BitVec 8)) :
    readVarInt 32 (tag :: rest) = some (tag.setWidth 32, rest) := by
  have hencode : OffsetBase.encode tag.toNat = [tag] := by
    rw [OffsetBase.encode, encodeOnto_of_lt (by omega)]
    show [BitVec.ofNat 8 tag.toNat] = [tag]
    simp
  have hread := readVarInt_encode (w := 32) (by decide) tag.toNat rest
  rw [hencode] at hread
  rwa [← BitVec.ofNat_toNat]

theorem unserializeScript_special {tag : BitVec 8} {data : Valtype}
    (h : Compresses crypto script tag data) (old : CScript) (rest : List (BitVec 8)) :
    unserializeScript crypto old (tag :: data ++ rest) = some (script, rest) := by
  obtain ⟨htag, hlength, hdecompress⟩ := h
  have hlt : tag.setWidth 32 < nSpecialScripts := by
    exact htag
  rw [unserializeScript, cons_append, readVarInt_tag htag]
  simp only [bind_eq_bind, bind_some, if_pos hlt]
  simp [readBytes_append hlength, bind_some, hdecompress]

/-- The length of a script with the special forms before it. -/
theorem toNat_size_add (h : script.length ≤ MAX_SCRIPT_SIZE) :
    (BitVec.ofNat 32 script.length + nSpecialScripts).toNat = script.length + 6 := by
  have hmax : MAX_SCRIPT_SIZE = 10000 := rfl
  have hspecial : nSpecialScripts.toNat = 6 := rfl
  rw [BitVec.toNat_add, BitVec.toNat_ofNat, hspecial]
  omega

theorem unserializeScript_plain (h : script.length ≤ MAX_SCRIPT_SIZE) (old : CScript)
    (rest : List (BitVec 8)) : unserializeScript crypto old
      (OffsetBase.encode (BitVec.ofNat 32 script.length + nSpecialScripts).toNat ++ script ++ rest)
        = some (script, rest) := by
  have hsize := toNat_size_add h
  have hspecial : nSpecialScripts.toNat = 6 := rfl
  have hge : ¬ BitVec.ofNat 32 script.length + nSpecialScripts < nSpecialScripts := by
    simp [BitVec.lt_def, hsize, hspecial]
  have hsub : (BitVec.ofNat 32 script.length + nSpecialScripts - nSpecialScripts).toNat
      = script.length := by
    rw [BitVec.toNat_sub_of_le (by rw [BitVec.le_def, hsize, hspecial]; omega), hsize, hspecial]
    omega
  rw [unserializeScript, append_assoc, readVarInt_encode_toNat (by decide)]
  simp only [bind_eq_bind, bind_some, if_neg hge, hsub]
  rw [if_neg (Nat.not_lt.mpr h), readBytes_append rfl]

/-- **Scripts survive.** -/
theorem serializeScript_spec (crypto : PubKeyCodec) (h : script.length ≤ MAX_SCRIPT_SIZE) :
    ∃ bytes, serializeScript crypto script = some bytes ∧
      bytes.length = scriptSerializeSize crypto script ∧
      ∀ old rest, unserializeScript crypto old (bytes ++ rest) = some (script, rest) := by
  unfold serializeScript scriptSerializeSize
  cases hcompress : compressScript crypto script with
  | some compr =>
    obtain ⟨tag, data, rfl, hspec⟩ := compressScript_spec hcompress
    exact ⟨_, rfl, rfl, unserializeScript_special hspec⟩
  | none =>
    have hwrite := writeVarInt_eq (w := 32) (by decide)
      (BitVec.ofNat 32 script.length + nSpecialScripts)
    refine ⟨_, by rw [hwrite]; rfl, ?_, unserializeScript_plain h⟩
    rw [length_append, length_encode (by decide), Nat.add_comm]

/-! ## Outputs -/

/-- **Outputs survive**: the script always, the amount if it was compressed without overflow. -/
theorem serializeTxOut_spec (crypto : PubKeyCodec) {txout : CTxOut}
    (h : txout.scriptPubKey.length ≤ MAX_SCRIPT_SIZE) :
    ∃ bytes, serializeTxOut crypto txout = some bytes ∧
      bytes.length = getSizeOfVarInt (compressAmount txout.nValue.toBitVec)
        + scriptSerializeSize crypto txout.scriptPubKey ∧
      ∀ old rest, unserializeTxOut crypto old (bytes ++ rest)
        = some (⟨Int64.ofBitVec (decompressAmount (compressAmount txout.nValue.toBitVec)),
            txout.scriptPubKey⟩, rest) := by
  obtain ⟨script, hwrite, hlength, hread⟩ := serializeScript_spec crypto h
  refine ⟨OffsetBase.encode (compressAmount txout.nValue.toBitVec).toNat ++ script, ?_, ?_,
    fun old rest => ?_⟩
  · rw [serializeTxOut, writeVarInt_eq (by decide), hwrite]
    rfl
  · rw [length_append, length_encode (by decide), hlength]
  · rw [unserializeTxOut, append_assoc, readVarInt_encode_toNat (by decide)]
    simp [bind_eq_bind, bind_some, hread]

/-- **The coins codec loses nothing.** Amounts in the money range are compressed without overflow and
    recovered, and so is every code whose amount fits in 64 bits. An output whose script is not longer
    than a script may be is written in as many bytes as the sizes say, and these bytes are read back,
    no more and no less, as an output with the same script and, in the money range, the same amount. -/
theorem txOutCompressor_roundTrip (crypto : PubKeyCodec) :
    (∀ a : CAmount, moneyRange a = true →
      (compressAmount a.toBitVec).toNat = compressNumber a.toInt.toNat ∧
        compressNumber a.toInt.toNat < 2 ^ 64 ∧
        decompressNumber (compressAmount a.toBitVec).toNat < 2 ^ 64 ∧
        Int64.ofBitVec (decompressAmount (compressAmount a.toBitVec)) = a) ∧
    (∀ x : BitVec 64, decompressNumber x.toNat < 2 ^ 64 →
      compressAmount (decompressAmount x) = x) ∧
    ∀ txout : CTxOut, txout.scriptPubKey.length ≤ MAX_SCRIPT_SIZE →
      ∃ bytes, serializeTxOut crypto txout = some bytes ∧
        txOutSerializeSize crypto txout = some bytes.length ∧
        bytes.length = getSizeOfVarInt (compressAmount txout.nValue.toBitVec)
          + scriptSerializeSize crypto txout.scriptPubKey ∧
        ∀ old rest, ∃ found, unserializeTxOut crypto old (bytes ++ rest) = some (found, rest) ∧
          found.scriptPubKey = txout.scriptPubKey ∧
          (moneyRange txout.nValue = true → found = txout) := by
  refine ⟨fun a ha => ?_, fun x hx => compressAmount_decompressAmount hx, fun txout h => ?_⟩
  · have hle := toNat_le_of_moneyRange ha
    have hlt := compressNumber_lt hle
    have hcode : (compressAmount a.toBitVec).toNat = compressNumber a.toBitVec.toNat := by
      rw [toNat_compressAmount, Nat.mod_eq_of_lt hlt]
    have hint : a.toInt.toNat = a.toBitVec.toNat := by
      obtain ⟨hnonneg, -⟩ := (moneyRange_iff a).mp ha
      exact toNat_toInt_of_nonneg hnonneg
    rw [hint, hcode, decompressNumber_compressNumber, decompressAmount_compressAmount hlt]
    exact ⟨rfl, hlt, a.toBitVec.isLt, rfl⟩
  · obtain ⟨bytes, hwrite, hlength, hread⟩ := serializeTxOut_spec crypto h
    refine ⟨bytes, hwrite, by rw [txOutSerializeSize, hwrite]; rfl, hlength, fun old rest => ?_⟩
    refine ⟨_, hread old rest, rfl, fun hrange => ?_⟩
    simp [decompressAmount_compressAmount (compressNumber_lt (toNat_le_of_moneyRange hrange))]

/-- The coordinates of the generator of the curve. -/
def generatorX : Valtype :=
  [0x79, 0xBE, 0x66, 0x7E, 0xF9, 0xDC, 0xBB, 0xAC, 0x55, 0xA0, 0x62, 0x95, 0xCE, 0x87, 0x0B, 0x07,
   0x02, 0x9B, 0xFC, 0xDB, 0x2D, 0xCE, 0x28, 0xD9, 0x59, 0xF2, 0x81, 0x5B, 0x16, 0xF8, 0x17, 0x98]

def generatorY : Valtype :=
  [0x48, 0x3A, 0xDA, 0x77, 0x26, 0xA3, 0xC4, 0x65, 0x5D, 0xA4, 0xFB, 0xFC, 0x0E, 0x11, 0x08, 0xA8,
   0xFD, 0x17, 0xB4, 0x48, 0xA6, 0x85, 0x54, 0x19, 0x9C, 0x47, 0xD0, 0x8F, 0xFB, 0x10, 0xD4, 0xB8]

/-- A codec that knows no key but the generator. -/
def generatorCodec : PubKeyCodec where
  isFullyValid key := decide (key = 0x04 :: (generatorX ++ generatorY))
  decompress key :=
    if key = 0x02 :: generatorX then some (0x04 :: (generatorX ++ generatorY)) else none
  decompress_compressed := by
    intro x y hx hy hvalid
    obtain ⟨rfl, rfl⟩ := List.append_inj (List.cons.inj (of_decide_eq_true hvalid)).2 hx
    exact if_pos (by decide)

/-- An output to the generator's key. -/
def generatorOutput : CTxOut :=
  ⟨COIN, [65, 0x04] ++ (generatorX ++ generatorY) ++ [OP_CHECKSIG]⟩

/-- One coin is written as nine, and a public key in 33 bytes. -/
theorem txOutCompressor_roundTrip_generator :
    Int64.ofBitVec (decompressAmount (compressAmount COIN.toBitVec)) = COIN ∧
    compressAmount (decompressAmount 9) = 9 ∧
    serializeTxOut generatorCodec generatorOutput = some (0x09 :: 0x04 :: generatorX) ∧
    ∃ bytes, serializeTxOut generatorCodec generatorOutput = some bytes ∧
      ∀ old rest, ∃ found, unserializeTxOut generatorCodec old (bytes ++ rest) = some (found, rest) ∧
        found = generatorOutput := by
  obtain ⟨hamount, hcode, houtput⟩ := txOutCompressor_roundTrip generatorCodec
  obtain ⟨bytes, hwrite, -, -, hread⟩ := houtput generatorOutput (by decide)
  refine ⟨(hamount COIN (by decide)).2.2.2, hcode 9 (by decide), by decide +kernel, bytes, hwrite,
    fun old rest => ?_⟩
  obtain ⟨found, hfound, -, hsame⟩ := hread old rest
  exact ⟨found, hfound, hsame (by decide)⟩

end Binarium
