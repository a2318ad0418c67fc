import Binarium.InstantSend.Handlers

set_option autoImplicit false

/-! # What a lock candidate keeps

Most of what the handlers do to the candidates is to count votes in them, to mark them or to remove
them. `Derives` says just that and is transitive. It keeps what `Covers` says: a candidate with any
outpoint at all was filed under the hash of its request and has all inputs of the request among its
outpoints. -/

namespace Binarium

open Maps CTxLockCandidate

/-! ## Candidates of the same shape -/

variable (c : CTxLockCandidate)

/-- Same request and same outpoints. -/
def SameShape (c' : CTxLockCandidate) : Prop :=
  c'.txLockRequest = c.txLockRequest
    ∧ ∀ o, (c'.mapOutPointLocks.lookup o).isSome = (c.mapOutPointLocks.lookup o).isSome

theorem SameShape.refl : SameShape c c := ⟨rfl, fun _ => rfl⟩

theorem SameShape.trans {c c' c'' : CTxLockCandidate} (h : SameShape c c')
    (h' : SameShape c' c'') : SameShape c c'' :=
  ⟨h'.1.trans h.1, fun o => (h'.2 o).trans (h.2 o)⟩

theorem sameShape_addVote (vote : CTxLockVote) : SameShape c (c.addVote vote).2 := by
  cases hlock : c.mapOutPointLocks.lookup vote.outpoint <;>
    grind [SameShape, addVote]

theorem sameShape_markOutpointAsAttacked (outpoint : COutPoint) :
    SameShape c (c.markOutpointAsAttacked outpoint) := by
  refine ⟨rfl, fun o => ?_⟩
  grind [markOutpointAsAttacked]

theorem sameShape_setConfirmedHeight (nHeight : ℤ) :
    SameShape c { c with nConfirmedHeight := nHeight } := ⟨rfl, fun _ => rfl⟩

/-! ## States that come from a state without creating candidates -/

/-- Every candidate of `s'` has the shape of the one `s` has there, and every request that `s'` has
    accepted or rejected `s` has. -/
structure Derives (s s' : CInstantSend) : Prop where
  candidates : ∀ h c', s'.mapTxLockCandidates.lookup h = some c' →
    ∃ c, s.mapTxLockCandidates.lookup h = some c ∧ SameShape c c'
  accepted : ∀ h tx, s'.mapLockRequestAccepted.lookup h = some tx →
    s.mapLockRequestAccepted.lookup h = some tx
  rejected : ∀ h tx, s'.mapLockRequestRejected.lookup h = some tx →
    s.mapLockRequestRejected.lookup h = some tx

theorem Derives.refl (s : CInstantSend) : Derives s s :=
  ⟨fun _ c hc => ⟨c, hc, SameShape.refl c⟩, fun _ _ h => h, fun _ _ h => h⟩

theorem Derives.trans {s s' s'' : CInstantSend} (h : Derives s s') (h' : Derives s' s'') :
    Derives s s'' := by
  refine ⟨fun k c'' hc'' => ?_, fun k tx hk => h.accepted k tx (h'.accepted k tx hk),
    fun k tx hk => h.rejected k tx (h'.rejected k tx hk)⟩
  obtain ⟨c', hc', hshape'⟩ := h'.candidates k c'' hc''
  obtain ⟨c, hc, hshape⟩ := h.candidates k c' hc'
  exact ⟨c, hc, hshape.trans hshape'⟩

/-- A loop of such steps is one. -/
theorem Derives.foldl {α : Type} {f : CInstantSend → α → CInstantSend}
    (hf : ∀ s a, Derives s (f s a)) (l : List α) : ∀ s, Derives s (l.foldl f s) := by
  induction l with
  | nil => exact Derives.refl
  | cons a rest ih => exact fun s => (hf s a).trans (ih (f s a))

theorem Derives.of_eq {s s' : CInstantSend} (hc : s'.mapTxLockCandidates = s.mapTxLockCandidates)
    (ha : s'.mapLockRequestAccepted = s.mapLockRequestAccepted)
    (hr : s'.mapLockRequestRejected = s.mapLockRequestRejected) : Derives s s' :=
  ⟨fun _ c h => ⟨c, hc ▸ h, SameShape.refl c⟩, fun _ _ h => ha ▸ h, fun _ _ h => hr ▸ h⟩

theorem Derives.insert_candidate {s : CInstantSend} {k : Uint256} {c c' : CTxLockCandidate}
    (hc : s.mapTxLockCandidates.lookup k = some c) (hshape : SameShape c c') :
    Derives s { s with mapTxLockCandidates := s.mapTxLockCandidates.insert k c' } := by
  refine ⟨fun h c'' hc'' => ?_, fun _ _ h => h, fun _ _ h => h⟩
  grind [SameShape.refl]

theorem Derives.modify_candidate {f : CTxLockCandidate → CTxLockCandidate}
    (hf : ∀ c, SameShape c (f c)) (s : CInstantSend) (k : Uint256) :
    Derives s { s with mapTxLockCandidates := modify s.mapTxLockCandidates k f } := by
  refine ⟨fun h c' hc' => ?_, fun _ _ h => h, fun _ _ h => h⟩
  grind [SameShape.refl, Option.map_eq_some_iff]

theorem derives_removeCandidate (s : CInstantSend) (key : Uint256) (c : CTxLockCandidate) :
    Derives s (s.removeCandidate key c) :=
  ⟨fun _ c' h => ⟨c', lookup_of_lookup_erase h, SameShape.refl c'⟩,
    fun _ _ h => lookup_of_lookup_erase h, fun _ _ h => lookup_of_lookup_erase h⟩

theorem derives_checkAndRemove (ctx : LockContext) (s : CInstantSend) :
    Derives s (s.checkAndRemove ctx) := by
  unfold CInstantSend.checkAndRemove
  split
  · have hcandidates : Derives s (s.removeExpiredCandidates ctx) := by
      refine Derives.foldl (fun s entry => ?_) _ s
      split
      · exact derives_removeCandidate s entry.1 entry.2
      · exact Derives.refl s
    exact hcandidates.trans (Derives.of_eq rfl rfl rfl)
  · exact Derives.refl s

/-! ## Candidates that cover their requests -/

section

variable (T : Set CTransaction)

/-- A transaction that occurs, or the empty request. -/
def Known (tx : CTransaction) : Prop := tx ∈ T ∨ tx = emptyLockRequest

/-- A candidate under this hash has a known request, and if it has any outpoint, the request has this
    hash and all its inputs are outpoints of the candidate. -/
def Covers (h : Uint256) (c : CTxLockCandidate) : Prop :=
  Known T c.txLockRequest
    ∧ ∀ o, (c.mapOutPointLocks.lookup o).isSome = true →
      c.txLockRequest ∈ T ∧ c.txLockRequest.hash = h
        ∧ ∀ txin ∈ c.txLockRequest.vin, (c.mapOutPointLocks.lookup txin.prevout).isSome = true

end

variable {T : Set CTransaction}

theorem Covers.of_sameShape {h : Uint256} {c c' : CTxLockCandidate} (hcovers : Covers T h c)
    (hshape : SameShape c c') : Covers T h c' := by
  grind [Covers, SameShape]

theorem isSome_lookup_addOutPointLocks (vin : List CTxIn) :
    ∀ txin ∈ vin, ((c.addOutPointLocks vin).mapOutPointLocks.lookup txin.prevout).isSome := by
  induction vin with
  | nil => simp
  | cons first rest ih =>
    simp only [addOutPointLocks] at ih ⊢
    grind

theorem covers_addOutPointLocks {c : CTxLockCandidate} {tx : CTransaction} (htx : tx ∈ T)
    (hrequest : c.txLockRequest = tx) : Covers T tx.hash (c.addOutPointLocks tx.vin) := by
  have hrequest' : (c.addOutPointLocks tx.vin).txLockRequest = tx := hrequest
  rw [Covers, hrequest']
  exact ⟨.inl htx, fun _ _ => ⟨htx, rfl, isSome_lookup_addOutPointLocks c tx.vin⟩⟩

/-- The transactions of an event are in `T`. -/
def InstantSendEvent.Within (T : Set CTransaction) : InstantSendEvent → Prop
  | .requestMessage _ tx | .localRequest _ tx => tx ∈ T
  | _ => True

end Binarium
