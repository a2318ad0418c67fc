import Binarium.Primitives.Transaction

set_option autoImplicit false

/-! # Hashes, outpoints and transactions as text (`uint256.cpp`, `primitives/transaction.cpp`)

The texts that messages are signed over and that errors are reported with. -/

namespace Binarium

/-- `uint256::ToString`: 64 hexadecimal digits, the most significant first. -/
def uint256ToString (h : Uint256) : String := h.toHex

/-- `HexStr` of the bytes of a script. -/
def hexStr (script : CScript) : String := String.join (script.map BitVec.toHex)

/-- `COutPoint::ToStringShort`. -/
def COutPoint.toStringShort (outpoint : COutPoint) : String :=
  uint256ToString outpoint.hash ++ "-" ++ toString outpoint.n.toNat

/-- `COutPoint::ToString`. -/
def COutPoint.text (outpoint : COutPoint) : String :=
  "COutPoint(" ++ uint256ToString outpoint.hash ++ ", " ++ toString outpoint.n.toNat ++ ")"

/-- `CTxIn::ToString`. -/
def CTxIn.text (txin : CTxIn) : String :=
  let script :=
    if txin.prevout.isNull then ", coinbase " ++ hexStr txin.scriptSig
    else ", scriptSig=" ++ ((hexStr txin.scriptSig).take 24).toString
  let sequence :=
    if txin.nSequence ≠ 0xffffffff then ", nSequence=" ++ toString txin.nSequence.toNat else ""
  "CTxIn(" ++ txin.prevout.text ++ script ++ sequence ++ ")"

/-- The format `%08d`: a sign counts as one of the eight characters. -/
def padded8 (x : ℤ) : String :=
  let digits := Nat.toDigits 10 x.natAbs
  if x < 0 then "-" ++ String.ofList (List.leftpad 7 '0' digits)
  else String.ofList (List.leftpad 8 '0' digits)

/-- `CTxOut::ToString`. -/
def CTxOut.text (txout : CTxOut) : String :=
  "CTxOut(nValue=" ++ toString (txout.nValue.toInt.tdiv COIN.toInt) ++ "."
    ++ padded8 (txout.nValue.toInt.tmod COIN.toInt) ++ ", scriptPubKey="
    ++ ((hexStr txout.scriptPubKey).take 30).toString ++ ")"

/-- `CTransaction::ToString`. -/
def CTransaction.text (tx : CTransaction) : String :=
  "CTransaction(hash=" ++ ((uint256ToString tx.hash).take 10).toString
    ++ ", ver=" ++ toString tx.nVersion.toInt
    ++ ", vin.size=" ++ toString tx.vin.length
    ++ ", vout.size=" ++ toString tx.vout.length
    ++ ", nLockTime=" ++ toString tx.nLockTime.toNat ++ ")\n"
    ++ String.join (tx.vin.map fun txin => "    " ++ txin.text ++ "\n")
    ++ String.join (tx.vout.map fun txout => "    " ++ txout.text ++ "\n")

/-- `CTransaction()`: no inputs, no outputs and a hash that was never computed. -/
def CTransaction.default : CTransaction :=
  { hash := 0, nVersion := 1, vin := [], vout := [], nLockTime := 0 }

end Binarium
