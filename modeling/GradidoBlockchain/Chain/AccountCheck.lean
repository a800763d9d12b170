import GradidoBlockchain.Chain.AddressType

/-!
# The account check of a registration

A sub address may be registered for a user who is known to the chain, every
other address only for a key without a type.  `RegisterAddressRole::run` asks
for the first with `findOne`, which throws when it finds more than one
transaction, and for the second with `getAddressType`, whose filter excludes
every transaction that is no registration, so that the type of the address of a
deferred transfer has to be searched for again.
-/

namespace Gradido

open Checked ConfirmTransaction TransactionsIndex

/-- What the account check is there for. -/
def AccountExpected (env : Env) (h : List ConfirmedTransaction) (r : RegisterAddress) : Prop :=
  if r.addressType = .subaccount then ∃ tx ∈ h, tx.isInvolved env r.userPublicKey = true
  else ∀ tx ∈ h, ¬ tx.Types r.userPublicKey

/-- The address of a deferred transfer that the search takes for a key without a type: no
registration involves it, and the last deferred transfer that does is not one to it. -/
def Overlooked (env : Env) (h : List ConfirmedTransaction) (publicKey : ℕ) : Prop :=
  (∃ tx ∈ h, tx.body.transactionType = .deferredTransfer ∧ tx.Types publicKey) ∧
    (∀ tx ∈ h, tx.body.transactionType = .registerAddress →
      tx.isInvolved env publicKey = false) ∧
    ∃ last ∈ h, last.body.transactionType = .deferredTransfer ∧
      last.isInvolved env publicKey = true ∧ ¬ last.Types publicKey ∧
      ∀ tx ∈ h, tx.body.transactionType = .deferredTransfer →
        tx.isInvolved env publicKey = true → tx.id ≤ last.id

namespace Filter

/-- The search for earlier transactions of a user. -/
def involving (publicKey maxTransactionNr : ℕ) : Filter :=
  { involvedPublicKey := some publicKey, maxTransactionNr := maxTransactionNr }

/-- The filter for the type of a user. -/
def registrationOf (publicKey maxTransactionNr : ℕ) : Filter :=
  { involving publicKey maxTransactionNr with transactionType := .registerAddress }

end Filter

section Check

variable {env : Env} {own : ℕ} {s : InMemory} {cs : List ConfirmedGradidoTx} {k : ℕ}

/-- No transaction of the chain is beyond its last number. -/
theorem InMemory.Represents.matchesTransactionNr (hs : s.Represents own s.history) {f : Filter}
    (hmin : f.minTransactionNr = 0) (hmax : f.maxTransactionNr = s.history.length)
    {tx : ConfirmedTransaction} (htx : tx ∈ s.history) : f.matchesTransactionNr tx = true := by
  have hid := hs.id_le_length htx
  simp only [Filter.matchesTransactionNr, hmin, hmax]
  simp
  omega

/-- **The transactions of a user** are found, the last one first. -/
theorem IndexedBy.findAll_involving (h : IndexedBy env own s cs)
    (hs : s.Represents own s.history) (horder : InOrder cs) (hdated : Dated s.history)
    (hown : own ≠ 0) (hk : k ≠ 0) (hrecords : ∀ tx ∈ s.history, RecordsKey env own k tx) :
    s.findAll env (.involving k s.history.length) =
      .ok (s.history.reverse.filter (fun tx => tx.isInvolved env k)) := by
  have hkey : ∀ k', (Filter.involving k s.history.length).involvedPublicKey = some k' →
      k' = k := by
    intro k' hk'
    simpa [Filter.involving] using hk'.symm
  have hf : Findable env own (env.dict.index own) s.history
      (.involving k s.history.length) := by
    refine ⟨⟨.inl rfl, .inr rfl, ?_, ?_, .inl rfl⟩, .inl rfl⟩
    · rintro k' (hk' | hk')
      · rw [hkey k' hk']
        exact ⟨hk, mt env.dict.index_eq_zero.1 hk, hown⟩
      · simp [Filter.involving] at hk'
    · intro k' hk' tx htx _
      rw [hkey k' hk']
      exact hrecords tx htx
  have hcandidate : ∀ tx ∈ s.history,
      (Filter.involving k s.history.length).candidate env tx = tx.isInvolved env k := by
    intro tx htx
    have hnr := hs.matchesTransactionNr (f := .involving k s.history.length) rfl rfl htx
    rw [Filter.candidate, Filter.meetsOthers, hnr]
    simp [Filter.matchesTransactionType, Filter.matchesInvolvedPublicKey,
      Filter.matchesUpdatedBalancePublicKey, Filter.involving, OnDays, TimepointInterval.isEmpty,
      TimepointInterval.unset]
  have hfound : ∀ tx, (Filter.involving k s.history.length).matchesFound tx = .USE :=
    fun tx => rfl
  rw [InMemory.findAll, hs.community,
    h.findAllWith_eq hs horder hdated (fun _ => .inl rfl) hf, Filter.requested]
  have hsize : (Filter.involving k s.history.length).pagination.size = 0 := rfl
  have hdirection : (Filter.involving k s.history.length).searchDirection = .desc := rfl
  rw [if_pos hsize, hdirection, searched,
    ← takeAccepted_filter (p := fun tx => tx.isInvolved env k)]
  · rw [takeAccepted_all]
    intro tx htx
    rw [List.mem_filter, List.mem_reverse] at htx
    rw [matchesEntry_of_candidate (by simp [Filter.matchesCoinCommunity, Filter.involving])
      ((hcandidate tx htx.1).trans htx.2), hfound]
  · intro tx htx hnot
    rw [List.mem_reverse] at htx
    exact matchesEntry_of_not_candidate (hdated tx htx).2 ((hcandidate tx htx).trans hnot)

/-- The last transaction of a kind, if there is one. -/
theorem InMemory.Represents.head?_filter_cases (hs : s.Represents own s.history)
    (p : ConfirmedTransaction → Bool) :
    (((searched .desc s.history).filter p).head? = none ∧ ∀ tx ∈ s.history, p tx = false) ∨
      ∃ last ∈ s.history, ((searched .desc s.history).filter p).head? = some last ∧
        p last = true ∧ ∀ tx ∈ s.history, p tx = true → tx.id ≤ last.id := by
  have hpairwise : ((searched .desc s.history).filter p).Pairwise (fun a b => b.id < a.id) :=
    (List.pairwise_reverse.2 hs.numbered).filter p
  have hmem : ∀ t, t ∈ (searched .desc s.history).filter p ↔ t ∈ s.history ∧ p t = true := by
    intro t
    rw [List.mem_filter, mem_searched]
  cases hlist : (searched .desc s.history).filter p with
  | nil =>
    rw [hlist] at hmem
    refine .inl ⟨rfl, fun tx htx => ?_⟩
    by_contra hp
    exact List.not_mem_nil ((hmem tx).2 ⟨htx, by simpa using hp⟩)
  | cons last others =>
    rw [hlist] at hmem hpairwise
    obtain ⟨hlast, hp⟩ := (hmem last).1 List.mem_cons_self
    refine .inr ⟨last, hlast, rfl, hp, fun tx htx hptx => ?_⟩
    rcases List.mem_cons.1 ((hmem tx).2 ⟨htx, hptx⟩) with rfl | hin
    · exact Nat.le_refl _
    · exact Nat.le_of_lt (List.rel_of_pairwise_cons hpairwise hin)

/-- A deferred transfer types its recipient. -/
theorem types_iff_of_deferred {tx : ConfirmedTransaction}
    (htype : tx.body.transactionType = .deferredTransfer) :
    tx.Types k ↔ tx.body.getDeferredTransfer.any (fun d => decide (d.transfer.recipient = k)) =
      true := by
  obtain ⟨d, hd⟩ := TransactionBody.exists_deferredTransfer htype
  simp [ConfirmedTransaction.Types, ConfirmedTransaction.typed, TransactionBody.getDeferredTransfer,
    hd]

/-- The searches for the type of a user find what the index records. -/
theorem keySearchable_registrationOf {h : List ConfirmedTransaction}
    (hrecords : ∀ tx ∈ h, RecordsKey env own k tx) (nr : ℕ) :
    KeySearchable env h (.registrationOf k nr) k where
  page := Nat.zero_le 1
  coin := rfl
  balanceKey := rfl
  reaches := .inl rfl
  recorded := by
    intro tx htx _ hin htype
    rcases (hrecords tx htx).named hin with hsigned | hbalance | ⟨-, hroot⟩
    · exact .inl hsigned
    · exact .inr hbalance
    · obtain ⟨r, hr, -⟩ := (Option.any_eq_true _ _).1 hroot
      simp [TransactionBody.transactionType, TransactionBody.getCommunityRoot_eq_some.1 hr] at htype

/-- What the searches for the type of a user look at. -/
theorem candidate_registrationOf_iff (hs : s.Represents own s.history)
    (hrecords : ∀ tx ∈ s.history, RecordsKey env own k tx) {g : Filter}
    (hsame : g = { Filter.registrationOf k s.history.length with
      transactionType := g.transactionType
      pagination := g.pagination
      searchDirection := g.searchDirection
      filterFunction := g.filterFunction })
    (htype : g.transactionType ≠ .none) {tx : ConfirmedTransaction} (htx : tx ∈ s.history) :
    g.candidate env tx = true ↔ tx.body.transactionType = g.transactionType ∧
      tx.isInvolved env k = true := by
  rw [(keySearchable_registrationOf hrecords _).candidate_iff rfl hsame htype tx, and_iff_right]
  exact ⟨hs.matchesTransactionNr rfl rfl htx, .inl rfl⟩

/-- The first search finds a registration when one involves the user. -/
theorem found_lastRegistration_eq_none_iff (hs : s.Represents own s.history)
    (hrecords : ∀ tx ∈ s.history, RecordsKey env own k tx) :
    found env (Filter.registrationOf k s.history.length).lastRegistration s.history = none ↔
      ∀ tx ∈ s.history, tx.body.transactionType = .registerAddress →
        tx.isInvolved env k = false := by
  have hcandidate := fun tx (htx : tx ∈ s.history) => candidate_registrationOf_iff hs hrecords
    (g := (Filter.registrationOf k s.history.length).lastRegistration) rfl
    (by simp [Filter.lastRegistration]) htx
  have huse : ∀ tx, ((Filter.registrationOf k s.history.length).lastRegistration.matchesFound
      tx).use = true := fun tx => rfl
  unfold found
  rcases hs.head?_filter_cases
      ((Filter.registrationOf k s.history.length).lastRegistration.candidate env) with
    ⟨hnone, hall⟩ | ⟨last, hlast, hsome, hp, -⟩
  · rw [hnone]
    refine iff_of_true rfl ?_
    intro tx htx htype
    have hnot := mt (hcandidate tx htx).2 (by simp [hall tx htx])
    simp only [not_and, Bool.not_eq_true] at hnot
    exact hnot htype
  · rw [hsome]
    refine iff_of_false (by simp [Option.filter, huse]) ?_
    intro hall
    obtain ⟨htype, hin⟩ := (hcandidate last hlast).1 hp
    simp [hall last hlast htype] at hin

/-- The second search finds nothing, unless the last deferred transfer that involves the user is one
to him. -/
theorem found_lastDeferredTransferTo_eq_none_iff (hs : s.Represents own s.history)
    (hrecords : ∀ tx ∈ s.history, RecordsKey env own k tx) :
    found env ((Filter.registrationOf k s.history.length).lastDeferredTransferTo k) s.history =
        none ↔
      (∀ tx ∈ s.history, tx.body.transactionType = .deferredTransfer →
        tx.isInvolved env k = false) ∨
      ∃ last ∈ s.history, last.body.transactionType = .deferredTransfer ∧
        last.isInvolved env k = true ∧ ¬ last.Types k ∧
        ∀ tx ∈ s.history, tx.body.transactionType = .deferredTransfer →
          tx.isInvolved env k = true → tx.id ≤ last.id := by
  have hcandidate := fun tx (htx : tx ∈ s.history) => candidate_registrationOf_iff hs hrecords
    (g := (Filter.registrationOf k s.history.length).lastDeferredTransferTo k) rfl
    (by simp [Filter.lastDeferredTransferTo]) htx
  have huse : ∀ tx, tx.body.transactionType = .deferredTransfer →
      ((((Filter.registrationOf k s.history.length).lastDeferredTransferTo k).matchesFound
        tx).use = true ↔ tx.Types k) := by
    intro tx htype
    rw [types_iff_of_deferred htype, Filter.matchesFound, if_pos (by rfl)]
    simp only [Filter.applyFilterFunction, Filter.lastDeferredTransferTo]
    split_ifs with hpays
    · simp [FilterResult.USE, hpays]
    · simp [FilterResult.DISMISS, hpays]
  unfold found
  rcases hs.head?_filter_cases (((Filter.registrationOf k s.history.length).lastDeferredTransferTo
    k).candidate env) with ⟨hnone, hall⟩ | ⟨last, hlast, hsome, hp, hmax⟩
  · rw [hnone]
    refine iff_of_true rfl (.inl ?_)
    intro tx htx htype
    have hnot := mt (hcandidate tx htx).2 (by simp [hall tx htx])
    simp only [not_and, Bool.not_eq_true] at hnot
    exact hnot htype
  · obtain ⟨htype, hin⟩ := (hcandidate last hlast).1 hp
    have hlatest : ∀ tx ∈ s.history, tx.body.transactionType = .deferredTransfer →
        tx.isInvolved env k = true → tx.id ≤ last.id :=
      fun tx htx htype hin => hmax tx htx ((hcandidate tx htx).2 ⟨htype, hin⟩)
    simp only [hsome, Option.filter_some, ite_eq_right_iff, huse last htype, reduceCtorEq,
      imp_false]
    constructor
    · intro hnot
      exact .inr ⟨last, hlast, htype, hin, hnot, hlatest⟩
    · rintro (hnone | ⟨last', hlast', htype', hin', hnot, hmax'⟩)
      · simp [hnone last hlast htype] at hin
      · -- both are the last one
        have hid : last'.id = last.id :=
          Nat.le_antisymm (hlatest last' hlast' htype' hin') (hmax' last hlast htype hin)
        have hbyNr := hs.byNr_id hlast'
        rw [hid, hs.byNr_id hlast, Option.some.injEq] at hbyNr
        rwa [hbyNr]

/-- No transaction gives a key the type none, when no registration does. -/
theorem typed_ne_none {tx : ConfirmedTransaction}
    (hregisters : ∀ r, tx.body.specific = .registerAddress r → r.addressType ≠ .none)
    {t : AddressType} (ht : (k, t) ∈ tx.typed) : t ≠ .none := by
  unfold ConfirmedTransaction.typed at ht
  split at ht
  · simp only [List.mem_cons, Prod.mk.injEq, List.not_mem_nil, or_false] at ht
    rcases ht with ⟨-, rfl⟩ | ⟨-, rfl⟩ <;> simp
  · next r hr =>
    simp only [List.mem_cons, Prod.mk.injEq, List.not_mem_nil, or_false] at ht
    rcases ht with ⟨-, rfl⟩ | ⟨-, rfl⟩ <;> exact hregisters r hr
  · simp only [List.mem_singleton, Prod.mk.injEq] at ht
    simp [ht.2]
  · simp at ht

/-- A key that the root types is not the one of a deferred transfer. -/
theorem not_overlooked_of_root (env : Env) {h : List ConfirmedTransaction}
    {first : ConfirmedTransaction}
    (hfirst : first ∈ h) {root : CommunityRoot}
    (hroot : first.body.specific = .communityRoot root) {t : AddressType}
    (hunique : ∀ tx ∈ h, ∀ t', (k, t') ∈ tx.typed → t' = t)
    (hkey : root.aufPublicKey = k ∨ root.gmwPublicKey = k) : ¬ Overlooked env h k := by
  rintro ⟨⟨tx, htx, htype, x, hx, rfl⟩, -⟩
  have hdeferred : (x.1, AddressType.deferredTransfer) ∈ tx.typed := by
    obtain ⟨d, hd⟩ := TransactionBody.exists_deferredTransfer htype
    simp only [ConfirmedTransaction.typed, hd, List.mem_singleton] at hx ⊢
    rw [hx]
  have hsame := hunique tx htx _ hdeferred
  rcases hkey with hauf | hgmw
  · have hroot' := hunique first hfirst _ ((mem_typed_root hroot).2 (.inl ⟨hauf, rfl⟩))
    simp [← hroot'] at hsame
  · have hroot' := hunique first hfirst _ ((mem_typed_root hroot).2 (.inr ⟨hgmw, rfl⟩))
    simp [← hroot'] at hsame

/-- The uncached search for the type of a user whose last type is not from a registration. -/
theorem IndexedBy.getAddressTypeSlow_eq_none_iff (h : IndexedBy env own s cs)
    (hs : s.Represents own s.history) (horder : InOrder cs) (hchained : Chained env s.history)
    (hlog : IndexableLog env own s.history) (hregular : ∀ tx ∈ s.history, Regular own tx)
    (hown : own ≠ 0) (hk : k ≠ 0) (hrecords : ∀ tx ∈ s.history, RecordsKey env own k tx)
    (hregisters : ∀ tx ∈ s.history, ∀ r, tx.body.specific = .registerAddress r →
      r.addressType ≠ .none) {tx : ConfirmedTransaction} (htx : tx ∈ s.history) {t : AddressType}
    (htyped : (env.dict.index own k, t) ∈ tx.typedAddresses env own)
    (hnot : tx.body.transactionType ≠ .registerAddress) :
    s.getAddressTypeSlow env (.registrationOf k s.history.length) k = .ok .none ↔
      Overlooked env s.history k := by
  have htyped' := (hregular tx htx).mem_typed htyped
  obtain ⟨j, hj⟩ := List.getElem?_of_mem htx
  have hin := (hregular tx htx).isInvolved (hlog.getElem? hj) htyped
  -- all transactions give the key the same type
  have hunique : ∀ tx' ∈ s.history, ∀ t', (k, t') ∈ tx'.typed → t' = t := by
    intro tx' htx' t' ht'
    exact Indexed.hasType_unique ⟨cs, h⟩ ⟨tx', htx', (h.hasType_iff_typed hregular htx').2 ht'⟩
      ⟨tx, htx, htyped⟩
  obtain ⟨first, hfirst⟩ : ∃ first, s.history.head? = some first := by
    cases hhistory : s.history with
    | nil => simp [hhistory] at htx
    | cons first others => exact ⟨first, rfl⟩
  obtain ⟨root, hroot⟩ := hchained.exists_root hfirst
  rw [h.getAddressTypeSlow_eq hs horder hregular hown hk rfl
    (keySearchable_registrationOf hrecords _) hfirst hroot]
  have hnotRoot := not_overlooked_of_root env (List.mem_of_head? hfirst) hroot hunique
  by_cases hauf : root.aufPublicKey = k
  · rw [if_pos hauf]
    exact iff_of_false (by simp) (hnotRoot (.inl hauf))
  rw [if_neg hauf]
  by_cases hgmw : root.gmwPublicKey = k
  · rw [if_pos hgmw]
    exact iff_of_false (by simp) (hnotRoot (.inr hgmw))
  rw [if_neg hgmw]
  cases hregistration : found env (Filter.registrationOf k s.history.length).lastRegistration
      s.history with
  | some entry =>
    obtain ⟨hentry, hcandidate, -⟩ := mem_of_found hregistration
    obtain ⟨htype, hinvolved⟩ := (candidate_registrationOf_iff hs hrecords
      (g := (Filter.registrationOf k s.history.length).lastRegistration) rfl
      (by simp [Filter.lastRegistration]) hentry).1 hcandidate
    obtain ⟨r, hr⟩ := TransactionBody.exists_registerAddress htype
    refine iff_of_false ?_ ?_
    · simp [TransactionBody.getRegisterAddress, hr, orThrow, Except.map,
        hregisters entry hentry r hr]
    · rintro ⟨-, hnone, -⟩
      simp [hnone entry hentry htype] at hinvolved
  | none =>
    have hnoRegistration := (found_lastRegistration_eq_none_iff hs hrecords).1 hregistration
    -- the key has its type from a deferred transfer
    have hdeferred : tx.body.transactionType = .deferredTransfer := by
      rcases typed_cases htyped' with htype | htype | ⟨d, hd, -⟩
      · rw [hchained.eq_first hfirst htx htype, mem_typed_root hroot] at htyped'
        simp [hauf, hgmw] at htyped'
      · exact absurd htype hnot
      · simp [TransactionBody.transactionType, hd]
    have hiff := found_lastDeferredTransferTo_eq_none_iff hs hrecords
    dsimp only
    cases hfound : found env ((Filter.registrationOf k s.history.length).lastDeferredTransferTo k)
        s.history with
    | some entry =>
      refine iff_of_false (by simp) ?_
      rintro ⟨-, -, hlast⟩
      rw [hiff.2 (.inr hlast)] at hfound
      simp at hfound
    | none =>
      refine iff_of_true rfl ?_
      rcases hiff.1 hfound with hnone | hlast
      · simp [hnone tx htx hdeferred] at hin
      · exact ⟨⟨tx, htx, hdeferred, _, htyped', rfl⟩, hnoRegistration, hlast⟩

/-- **The type of a user** is found to be none when he has none, or when it is overlooked. -/
theorem IndexedBy.getAddressType_eq_none_iff (h : IndexedBy env own s cs)
    (hs : s.Represents own s.history) (horder : InOrder cs) (hchained : Chained env s.history)
    (hlog : IndexableLog env own s.history) (hregular : ∀ tx ∈ s.history, Regular own tx)
    (hown : own ≠ 0) (hk : k ≠ 0) (hrecords : ∀ tx ∈ s.history, RecordsKey env own k tx)
    (hregisters : ∀ tx ∈ s.history, ∀ r, tx.body.specific = .registerAddress r →
      r.addressType ≠ .none) :
    s.getAddressType env (.registrationOf k s.history.length) = .ok .none ↔
      (∀ tx ∈ s.history, ¬ tx.Types k) ∨ Overlooked env s.history k := by
  unfold InMemory.getAddressType
  have hkey : (Filter.registrationOf k s.history.length).involvedPublicKey.getD 0 = k := rfl
  simp only [hkey, hk, decide_false, throwIf_false, ok_bind, hs.community]
  by_cases hknown : ∃ t, t ≠ .none ∧ HasType env own s.history k t
  · obtain ⟨t, hnone, ht⟩ := hknown
    obtain ⟨tx, htx, htyped, hfound, -⟩ := h.getAddressType_of_hasType ht hnone
    have htyped' := (hregular tx htx).mem_typed htyped
    have hid := hs.id_le_length htx
    obtain ⟨j, hj⟩ := List.getElem?_of_mem htx
    have hin := (hregular tx htx).isInvolved (hlog.getElem? hj) htyped
    have hnr := hs.matchesTransactionNr (f := .registrationOf k s.history.length) rfl rfl htx
    have hinterval : (Filter.registrationOf k s.history.length).matchesTimepointInterval tx =
        true := rfl
    simp only [hfound, if_neg (show ¬ tx.id = 0 by omega), hs.byNr_id htx, orThrow, ok_bind]
    by_cases htype : tx.body.transactionType = .registerAddress
    · -- the registration itself is asked for
      have hmatch : ((Filter.registrationOf k s.history.length).matchesAll env tx).use = true := by
        rw [Filter.matchesAll, hnr, hinterval]
        simp [Filter.registrationOf, Filter.involving, Filter.applyFilterFunction, htype, hin,
          FilterResult.USE]
      rw [if_pos hmatch]
      refine iff_of_false (by simpa [pure, Except.pure] using hnone) ?_
      rintro (hno | ⟨-, hnoRegistration, -⟩)
      · exact hno tx htx ⟨_, htyped', rfl⟩
      · simp [hnoRegistration tx htx htype] at hin
    · have hmatch : ((Filter.registrationOf k s.history.length).matchesAll env tx).use =
          false := by
        rw [Filter.matchesAll, hnr]
        simp [Filter.registrationOf, htype, FilterResult.DISMISS]
      rw [if_neg (by simp [hmatch]), h.getAddressTypeSlow_eq_none_iff hs horder hchained hlog
        hregular hown hk hrecords hregisters htx htyped htype, iff_or_self]
      intro hno
      exact absurd ⟨_, htyped', rfl⟩ (hno tx htx)
  · have hfound := h.getAddressType_of_untyped hknown
    simp only [hfound, if_true]
    refine iff_of_true rfl (.inl ?_)
    rintro tx htx ⟨⟨k', t⟩, hx, rfl⟩
    refine hknown ⟨t, typed_ne_none (hregisters tx htx) hx, tx, htx, ?_⟩
    exact (h.hasType_iff_typed hregular htx).2 hx

/-- The account check of a registration in a chain that is not empty. -/
theorem registerAddressRole_account_iff {last : ConfirmedTransaction} (hid : last.id =
    s.history.length) (r : RegisterAddress) :
    Validate.registerAddressRole env { account := true } (.ofSender s (some last)) r = .ok () ↔
      if r.addressType = .subaccount then
        ∃ tx, s.findOne env (.involving r.userPublicKey s.history.length) = .ok (some tx)
      else
        s.getAddressType env (.registrationOf r.userPublicKey s.history.length) = .ok .none := by
  unfold Validate.registerAddressRole
  simp only [when_eq_ok, bind_eq_ok, exists_unit, Validate.ContextData.ofSender, orThrow_eq_ok,
    Option.some.injEq, exists_eq_left', hid, Bool.false_eq_true, false_imp_iff, true_and,
    true_imp_iff]
  by_cases hsub : r.addressType = .subaccount
  · simp only [hsub, if_true, bind_eq_ok, throwIf_eq_ok, Option.isNone_eq_false_iff,
      Option.isSome_iff_exists, Filter.involving]
    constructor
    · rintro ⟨-, hfound, tx, rfl⟩
      exact ⟨tx, hfound⟩
    · rintro ⟨tx, hfound⟩
      exact ⟨some tx, hfound, tx, rfl⟩
  · simp [hsub, Filter.registrationOf, Filter.involving]

theorem exists_exactlyOne_iff {α : Type} {l : List α} :
    (∃ a, InMemory.exactlyOne l = .ok (some a)) ↔ l.length = 1 := by
  rcases l with - | ⟨a, - | ⟨b, l⟩⟩ <;> simp [InMemory.exactlyOne]

end Check

/-- What was registered has a type. -/
theorem ConfirmTransaction.Reachable.registered_type {env : Env} {direct : ℕ → Role → Prop}
    {p : InMemoryProvider} (h : Reachable env direct p) (i : ℕ) :
    ∀ tx ∈ (p.findBlockchain i).history, ∀ r, tx.body.specific = .registerAddress r →
      r.addressType ≠ .none := by
  refine h.forall_confirmed (Q := fun _ _ tx => ∀ r, tx.body.specific = .registerAddress r →
    r.addressType ≠ .none) (fun _ _ _ _ _ hQ => hQ) ?_ i
  intro community role p q tx _ htx hb _ r hr
  obtain ⟨c, hsingle⟩ := htx.specific_single
  rw [hb.body_eq] at hsingle
  simp only [Validate.specificRole, hr, Validate.registerAddressRole, when_eq_ok, bind_eq_ok,
    exists_unit, throwIf_eq_ok, decide_eq_false_iff_not, not_or] at hsingle
  exact (hsingle.1 trivial).1.2.2

namespace Sample

/-- Account `11` has been registered and has sent a deferred transfer. -/
def sentDeferred : List AddCall := (setup ++ [deferred]).map .node

end Sample

end Gradido
