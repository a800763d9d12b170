import GradidoBlockchain.Chain.Postings
import GradidoBlockchain.Chain.WellFormed
import GradidoBlockchain.Index.Search
import GradidoBlockchain.Lib.AppendLog

/-!
# Chains and their index

`pushTransactionEntry` stores a transaction first and builds its compact form
and the index afterwards, in a block that swallows every exception.  A
transaction that the compact form or the index cannot hold is therefore
confirmed, but missing from every search.

`Indexable` collects these limits, in terms of the transaction and the log
before it, and `Reachable.indexed` says that they are the only ones: as long as
all transactions respect them, the compact transactions and the index know
exactly the log.
-/

namespace Gradido

open Checked ConfirmTransaction TransactionsIndex

/-! ### Compact forms -/

namespace ConfirmedTransaction

/-- The day of the confirmation. -/
def date (tx : ConfirmedTransaction) : YearMonthDay :=
  timepointAsYearMonthDay tx.confirmedAt.getAsTimepoint

/-- The addresses that a transaction gives a type, by their numbers in the dictionary. -/
def typedAddresses (env : Env) (own : ℕ) (tx : ConfirmedTransaction) : List (ℕ × AddressType) :=
  match ConfirmedGradidoTx.communities own tx.body with
  | .error _ => []
  | .ok (sender, _) =>
    match tx.body.specific with
    | .communityRoot r =>
      [(env.dict.index sender r.aufPublicKey, .communityAuf),
        (env.dict.index sender r.gmwPublicKey, .communityGmw)]
    | .registerAddress r =>
      [(env.dict.index sender r.userPublicKey, r.addressType),
        (env.dict.index sender r.accountPublicKey, r.addressType)]
    | .deferredTransfer d => [(env.dict.index own d.transfer.recipient, .deferredTransfer)]
    | _ => []

end ConfirmedTransaction

/-- A compact transaction was built from a rich one. -/
def CompactOf (env : Env) (own : ℕ) (tx : ConfirmedTransaction) (c : ConfirmedGradidoTx) : Prop :=
  ∃ getConfirmedTxForId,
    ConfirmedGradidoTx.fromConfirmedTransaction env own getConfirmedTxForId tx = .ok c

namespace CompactOf

variable {env : Env} {own : ℕ} {tx : ConfirmedTransaction} {c : ConfirmedGradidoTx}

/-- What a compact transaction takes over. -/
theorem fields (h : CompactOf env own tx c) :
    c.txNr = tx.id ∧ c.confirmedAt = tx.confirmedAt ∧ c.txCommunityIdIndex = own ∧
      c.crossGroupType = tx.body.type ∧ c.transactionType = tx.body.transactionType ∧
      c.accountBalances = ConfirmedGradidoTx.compactBalances env own tx ∧
      c.signaturePublicKeys =
        tx.gradidoTransaction.signatureMap.signaturePairs.map SignaturePair.publicKey := by
  obtain ⟨getTx, h⟩ := h
  simp only [ConfirmedGradidoTx.fromConfirmedTransaction, bind_eq_ok, exists_unit, pure_eq_ok] at h
  obtain ⟨-, ⟨sender, recipient⟩, -, ⟨specific, coin⟩, -, -, rfl⟩ := h
  exact ⟨rfl, rfl, rfl, rfl, rfl, rfl, rfl⟩

/-- Where the content of a compact transaction comes from. -/
theorem content (h : CompactOf env own tx c) :
    ∃ getTx sender recipient, ConfirmedGradidoTx.communities own tx.body =
        .ok (sender, recipient) ∧
      ConfirmedGradidoTx.fillSpecific env own sender recipient getTx
        (ConfirmedGradidoTx.compactBalances env own tx) tx.confirmedAt tx.body =
        .ok (c.specific, c.coinCommunityIdIndex) := by
  obtain ⟨getTx, h⟩ := h
  simp only [ConfirmedGradidoTx.fromConfirmedTransaction, bind_eq_ok, exists_unit, pure_eq_ok] at h
  obtain ⟨-, ⟨sender, recipient⟩, hcommunities, ⟨specific, coin⟩, hspecific, -, rfl⟩ := h
  exact ⟨getTx, sender, recipient, hcommunities, hspecific⟩

theorem date_eq (h : CompactOf env own tx c) : c.date = tx.date := by
  rw [ConfirmedGradidoTx.date, h.fields.2.1, ConfirmedTransaction.date]

/-- A timeout is stored like a transfer. -/
theorem fillTimeout_eq_transfer {getTx : ℕ → Option ConfirmedGradidoTx}
    {balances : List CompactAccountBalance} {nr : ℕ} {confirmedAt : Timestamp}
    {specific : CompactSpecific}
    (h : ConfirmedGradidoTx.fillTimeout env getTx balances nr confirmedAt = .ok specific) :
    ∃ amount sender recipient, specific = .transfer amount sender recipient := by
  have hdeferred : ∀ specific, ConfirmedGradidoTx.fillTimeout.fromDeferred env getTx nr
      confirmedAt = .ok specific →
      ∃ amount sender recipient, specific = .transfer amount sender recipient := by
    intro specific h
    unfold ConfirmedGradidoTx.fillTimeout.fromDeferred at h
    split at h
    · simp at h
    · split at h
      · simp only [bind_eq_ok, pure_eq_ok] at h
        obtain ⟨decayed, -, rfl⟩ := h
        exact ⟨_, _, _, rfl⟩
      · simp at h
  unfold ConfirmedGradidoTx.fillTimeout at h
  split at h
  · split_ifs at h
    · simp only [Except.ok.injEq] at h
      exact ⟨_, _, _, h.symm⟩
    · exact hdeferred _ h
  · exact hdeferred _ h

theorem typedAddresses_eq (h : CompactOf env own tx c) :
    c.typedAddresses = tx.typedAddresses env own := by
  obtain ⟨getTx, sender, recipient, hcommunities, hspecific⟩ := h.content
  unfold ConfirmedTransaction.typedAddresses ConfirmedGradidoTx.typedAddresses
  rw [hcommunities]
  unfold ConfirmedGradidoTx.fillSpecific at hspecific
  cases hbody : tx.body.specific with
  | timeoutDeferredTransfer nr =>
    simp only [hbody, bind_eq_ok, pure_eq_ok, Prod.mk.injEq] at hspecific
    obtain ⟨specific, hfill, heq, -⟩ := hspecific
    obtain ⟨amount, s, r, rfl⟩ := fillTimeout_eq_transfer hfill
    rw [← heq]
  | deferredTransfer d =>
    simp only [hbody, bind_eq_ok, exists_unit, pure_eq_ok, Prod.mk.injEq] at hspecific
    obtain ⟨-, -, heq, -⟩ := hspecific
    rw [← heq]
  | none => simp [hbody] at hspecific
  | communityFriendsUpdate _ => simp [hbody] at hspecific
  | creation _ =>
    simp only [hbody, Except.ok.injEq, Prod.mk.injEq] at hspecific
    rw [← hspecific.1]
  | transfer _ =>
    simp only [hbody, Except.ok.injEq, Prod.mk.injEq] at hspecific
    rw [← hspecific.1]
  | registerAddress _ =>
    simp only [hbody, Except.ok.injEq, Prod.mk.injEq] at hspecific
    rw [← hspecific.1]
  | communityRoot _ =>
    simp only [hbody, Except.ok.injEq, Prod.mk.injEq] at hspecific
    rw [← hspecific.1]
  | redeemDeferredTransfer _ =>
    simp only [hbody, Except.ok.injEq, Prod.mk.injEq] at hspecific
    rw [← hspecific.1]

/-- A key of the chain's community has a balance in both forms or in none. -/
theorem isBalanceUpdated_iff (h : CompactOf env own tx c) (publicKey : ℕ) :
    c.isBalanceUpdated (env.dict.toPublicKeyIndex publicKey own) = true ↔
      ∃ b ∈ tx.accountBalances, b.publicKey = publicKey := by
  obtain ⟨-, -, hown, -, -, hbalances, -⟩ := h.fields
  simp [ConfirmedGradidoTx.isBalanceUpdated, hbalances, ConfirmedGradidoTx.compactBalances, hown,
    PublicKeyDictionary.toPublicKeyIndex]

end CompactOf

/-! ### The limits -/

/-- The deferred transfer of a timeout can be told from its balances, or is found in the log. -/
def TimeoutKnown (env : Env) (pre : List ConfirmedTransaction) (tx : ConfirmedTransaction)
    (nr : ℕ) : Prop :=
  (∃ b₀ b₁, tx.accountBalances = [b₀, b₁] ∧ b₀.balance ≠ 0 ∧ b₁.balance = 0) ∨
    ∃ entry ∈ pre, entry.id = nr ∧ ∃ d, entry.body.specific = .deferredTransfer d ∧
      ∃ decayed, env.calculateDecay d.transfer.sender.amount entry.confirmedAt.getAsTimepoint
        tx.confirmedAt.getAsTimepoint = .ok decayed

/-- The limits of the compact form and of the index, for a transaction after a log.  The first
one is always met when the node computes the balances. -/
@[mk_iff]
structure Indexable (env : Env) (own : ℕ) (pre : List ConfirmedTransaction)
    (tx : ConfirmedTransaction) : Prop where
  given : tx.balanceDerivationType = .externComputed → tx.accountBalances.length ≤ 3 ∧
    ∀ nr, tx.body.specific = .timeoutDeferredTransfer nr → TimeoutKnown env pre tx nr
  keys : tx.accountBalances.length + tx.gradidoTransaction.signatureMap.signaturePairs.length ≤ 5
  memos : tx.body.memos.length ≤ 2
  type : tx.body.type ≠ .cross
  deferred : ∀ d, tx.body.specific = .deferredTransfer d → tx.body.type = .localGroup ∧
    d.transfer.sender.amount < 2 ^ 32
  day : tx.confirmedAt.getAsTimepoint ≠ 0
  month : FitsMonth (pre.map ConfirmedTransaction.date) tx.date
  addressTypes : ∀ x ∈ tx.typedAddresses env own, ∀ tx' ∈ pre, ∀ y ∈ tx'.typedAddresses env own,
    y.1 = x.1 → y.2 = x.2

section Decidable

variable {s : Specific}

instance {P : ℕ → Prop} [DecidablePred P] :
    Decidable (∀ nr, s = .timeoutDeferredTransfer nr → P nr) :=
  match s with
  | .timeoutDeferredTransfer nr => decidable_of_iff (P nr) (by simp)
  | .none | .transfer _ | .creation _ | .registerAddress _ | .deferredTransfer _
  | .redeemDeferredTransfer _ | .communityRoot _ | .communityFriendsUpdate _ => isTrue (by simp)

instance {P : GradidoDeferredTransfer → Prop} [DecidablePred P] :
    Decidable (∀ d, s = .deferredTransfer d → P d) :=
  match s with
  | .deferredTransfer d => decidable_of_iff (P d) (by simp)
  | .none | .transfer _ | .creation _ | .registerAddress _ | .timeoutDeferredTransfer _
  | .redeemDeferredTransfer _ | .communityRoot _ | .communityFriendsUpdate _ => isTrue (by simp)

instance {P : GradidoDeferredTransfer → Prop} [DecidablePred P] :
    Decidable (∃ d, s = .deferredTransfer d ∧ P d) :=
  match s with
  | .deferredTransfer d => decidable_of_iff (P d) (by simp)
  | .none | .transfer _ | .creation _ | .registerAddress _ | .timeoutDeferredTransfer _
  | .redeemDeferredTransfer _ | .communityRoot _ | .communityFriendsUpdate _ => isFalse (by simp)

instance decidableForallRedeem {P : GradidoRedeemDeferredTransfer → Prop} [DecidablePred P] :
    Decidable (∀ r, s = .redeemDeferredTransfer r → P r) :=
  match s with
  | .redeemDeferredTransfer r => decidable_of_iff (P r) (by simp)
  | .none | .transfer _ | .creation _ | .registerAddress _ | .deferredTransfer _
  | .timeoutDeferredTransfer _ | .communityRoot _ | .communityFriendsUpdate _ => isTrue (by simp)

instance decidableForallRegister {P : RegisterAddress → Prop} [DecidablePred P] :
    Decidable (∀ r, s = .registerAddress r → P r) :=
  match s with
  | .registerAddress r => decidable_of_iff (P r) (by simp)
  | .none | .transfer _ | .creation _ | .redeemDeferredTransfer _ | .deferredTransfer _
  | .timeoutDeferredTransfer _ | .communityRoot _ | .communityFriendsUpdate _ => isTrue (by simp)

instance decidableForallCreation {P : GradidoCreation → Prop} [DecidablePred P] :
    Decidable (∀ c, s = .creation c → P c) :=
  match s with
  | .creation c => decidable_of_iff (P c) (by simp)
  | .none | .transfer _ | .registerAddress _ | .redeemDeferredTransfer _ | .deferredTransfer _
  | .timeoutDeferredTransfer _ | .communityRoot _ | .communityFriendsUpdate _ => isTrue (by simp)

instance decidableForallRoot {P : CommunityRoot → Prop} [DecidablePred P] :
    Decidable (∀ r, s = .communityRoot r → P r) :=
  match s with
  | .communityRoot r => decidable_of_iff (P r) (by simp)
  | .none | .transfer _ | .registerAddress _ | .redeemDeferredTransfer _ | .deferredTransfer _
  | .timeoutDeferredTransfer _ | .creation _ | .communityFriendsUpdate _ => isTrue (by simp)

instance decidableExistsOk {ε α : Type} {x : Except ε α} : Decidable (∃ a, x = .ok a) :=
  match x with
  | .ok a => isTrue ⟨a, rfl⟩
  | .error _ => isFalse (by simp)

instance decidableExistsPair {α : Type} {l : List α} {P : α → α → Prop}
    [∀ a b, Decidable (P a b)] :
    Decidable (∃ a b, l = [a, b] ∧ P a b) :=
  match l with
  | [a, b] => decidable_of_iff (P a b) (by simp [and_assoc])
  | [] | [_] | _ :: _ :: _ :: _ => isFalse (by simp)

instance {env : Env} {pre : List ConfirmedTransaction} {tx : ConfirmedTransaction} {nr : ℕ} :
    Decidable (TimeoutKnown env pre tx nr) :=
  inferInstanceAs (Decidable (_ ∨ _))

instance {dates : List YearMonthDay} {date : YearMonthDay} : Decidable (FitsMonth dates date) :=
  inferInstanceAs (Decidable (_ ∧ _))

instance {env : Env} {own : ℕ} {pre : List ConfirmedTransaction} {tx : ConfirmedTransaction} :
    Decidable (Indexable env own pre tx) :=
  decidable_of_iff _ (indexable_iff env own pre tx).symm

end Decidable

/-- Every transaction of a log respects the limits. -/
def IndexableLog (env : Env) (own : ℕ) (h : List ConfirmedTransaction) : Prop :=
  AlongPrefixes (Indexable env own) h

instance {env : Env} {own : ℕ} {h : List ConfirmedTransaction} :
    Decidable (IndexableLog env own h) :=
  inferInstanceAs (Decidable (AlongPrefixes _ _))

/-! ### What the node computes fits -/

namespace ConfirmTransaction

/-- A transaction of the node meets the first limit. -/
theorem Built.within_given {env : Env} {q : InMemoryProvider} {community : ℕ} {role : Role}
    {tx : ConfirmedTransaction} (hb : Built env q community role tx) (hq : Logged env q)
    (hgiven : tx.balanceDerivationType = .externComputed → tx.accountBalances.length ≤ 3 ∧
      ∀ nr, tx.body.specific = .timeoutDeferredTransfer nr →
        TimeoutKnown env (q.findBlockchain community).history tx nr) :
    tx.accountBalances.length ≤ 3 ∧ ∀ nr, tx.body.specific = .timeoutDeferredTransfer nr →
      TimeoutKnown env (q.findBlockchain community).history tx nr := by
  by_cases hextern : tx.balanceDerivationType = .externComputed
  · exact hgiven hextern
  · have hcomputed := computed_of_ok (hb.calculated hextern)
    refine ⟨hcomputed.length_le, ?_⟩
    intro nr hnr
    obtain ⟨entry, d, decayed, _, hsettling, -, -⟩ := hcomputed.of_timeout hnr
    obtain ⟨hmem, hid⟩ := (hq.represents community).mem_of_byNr hsettling.byNr
    exact .inr ⟨entry, hmem, hid, d, hsettling.deferred, decayed, hsettling.worth⟩

end ConfirmTransaction

/-! ### Logs and their compact forms -/

/-- The compact transactions of a blockchain are those of its log, and the index knows them. -/
structure IndexedBy (env : Env) (own : ℕ) (s : InMemory) (cs : List ConfirmedGradidoTx) :
    Prop where
  compact : List.Forall₂ (CompactOf env own) s.history cs
  byNr_zero : s.mConfirmedTxByNr 0 = none
  byNr : ∀ k, s.mConfirmedTxByNr (k + 1) = cs[k]?
  index : Indexes env own cs s.mTransactionsIndex

/-- The compact transactions and the index of a blockchain know exactly its log. -/
def Indexed (env : Env) (own : ℕ) (s : InMemory) : Prop :=
  ∃ cs, IndexedBy env own s cs

theorem indexed_empty (env : Env) (own : ℕ) : Indexed env own (.empty own) :=
  ⟨[], .nil, rfl, fun _ => rfl, indexes_empty env own⟩

namespace IndexedBy

variable {env : Env} {own : ℕ} {s : InMemory} {cs : List ConfirmedGradidoTx}

theorem length_eq (h : IndexedBy env own s cs) : cs.length = s.history.length :=
  h.compact.length_eq.symm

/-- The compact form of a transaction of the log. -/
theorem exists_compact (h : IndexedBy env own s cs) {tx : ConfirmedTransaction}
    (htx : tx ∈ s.history) : ∃ c ∈ cs, CompactOf env own tx c := by
  have hcompact := h.compact
  generalize s.history = l at hcompact htx
  clear h
  induction hcompact with
  | nil => simp at htx
  | cons hc _ ih =>
    rcases List.mem_cons.1 htx with rfl | htx
    · exact ⟨_, List.mem_cons_self, hc⟩
    · obtain ⟨c, hmem, hc'⟩ := ih htx
      exact ⟨c, List.mem_cons_of_mem _ hmem, hc'⟩

/-- The transaction of the log that a compact transaction was built from. -/
theorem exists_rich (h : IndexedBy env own s cs) {c : ConfirmedGradidoTx} (hc : c ∈ cs) :
    ∃ tx ∈ s.history, CompactOf env own tx c := by
  have hcompact := h.compact
  generalize s.history = l at hcompact
  clear h
  induction hcompact with
  | nil => simp at hc
  | cons htx _ ih =>
    rcases List.mem_cons.1 hc with rfl | hc
    · exact ⟨_, List.mem_cons_self, htx⟩
    · obtain ⟨tx, hmem, htx'⟩ := ih hc
      exact ⟨tx, List.mem_cons_of_mem _ hmem, htx'⟩

/-- A compact transaction is stored under its own number. -/
theorem byNr_txNr (h : IndexedBy env own s cs) {c : ConfirmedGradidoTx} (hc : c ∈ cs) :
    s.mConfirmedTxByNr c.txNr = some c := by
  obtain ⟨k, hk⟩ := List.getElem?_of_mem hc
  rw [h.index.txNr k c hk, h.byNr, hk]

/-- What a compact transaction takes over can be read off the log. -/
theorem map_eq (h : IndexedBy env own s cs) {β : Type} {f : ConfirmedGradidoTx → β}
    {g : ConfirmedTransaction → β} (hfg : ∀ tx c, CompactOf env own tx c → f c = g tx) :
    cs.map f = s.history.map g := by
  have hcompact := h.compact
  generalize s.history = l at hcompact
  clear h
  induction hcompact with
  | nil => rfl
  | cons hc _ ih => rw [List.map_cons, List.map_cons, ih, hfg _ _ hc]

end IndexedBy

/-! ### Building the compact form -/

namespace ConfirmedGradidoTx

/-- The compact form of a timeout whose deferred transfer is known. -/
theorem fillTimeout_ok {env : Env} {own : ℕ} {s : InMemory} {cs : List ConfirmedGradidoTx}
    (h : IndexedBy env own s cs) {tx : ConfirmedTransaction} {nr : ℕ}
    (hknown : TimeoutKnown env s.history tx nr) :
    ∃ specific, fillTimeout env s.mConfirmedTxByNr (compactBalances env own tx) nr
      tx.confirmedAt = .ok specific := by
  have hdeferred : (∃ b₀ b₁, tx.accountBalances = [b₀, b₁] ∧ b₀.balance ≠ 0 ∧ b₁.balance = 0) ∨
      ∃ specific, fillTimeout.fromDeferred env s.mConfirmedTxByNr nr tx.confirmedAt =
        .ok specific := by
    refine hknown.imp_right ?_
    rintro ⟨entry, hentry, hnr, d, hd, decayed, hdecayed⟩
    obtain ⟨c, hc, hcompact⟩ := h.exists_compact hentry
    obtain ⟨htxNr, hconfirmedAt, -⟩ := hcompact.fields
    obtain ⟨getTx, sender, recipient, -, hspecific⟩ := hcompact.content
    simp only [fillSpecific, hd, bind_eq_ok, exists_unit, pure_eq_ok, Prod.mk.injEq] at hspecific
    obtain ⟨-, -, hspecific, -⟩ := hspecific
    refine ⟨.transfer (decayed.tdiv 10000) (env.dict.index own d.transfer.recipient)
      (env.dict.index own d.transfer.sender.publicKey), ?_⟩
    simp only [fillTimeout.fromDeferred, ← hnr, ← htxNr, h.byNr_txNr hc, ← hspecific,
      hconfirmedAt, hdecayed]
    rfl
  unfold fillTimeout
  split
  · next c₀ c₁ hbalances =>
    split_ifs with hidx
    · exact ⟨_, rfl⟩
    · rcases hdeferred with ⟨b₀, b₁, hb, hb₀, hb₁⟩ | hdeferred
      · refine absurd ?_ hidx
        rw [compactBalances, hb] at hbalances ⊢
        simp [timeoutSenderIdx, hb₀, hb₁]
      · exact hdeferred
  · next hother =>
    rcases hdeferred with ⟨b₀, b₁, hb, -⟩ | hdeferred
    · have hbalances : compactBalances env own tx =
          [⟨b₀.balance, b₀.coinCommunityIdIndex, env.dict.index own b₀.publicKey⟩,
            ⟨b₁.balance, b₁.coinCommunityIdIndex, env.dict.index own b₁.publicKey⟩] := by
        rw [compactBalances, hb]
        rfl
      exact absurd hbalances (hother _ _)
    · exact hdeferred

/-- **The compact form** can be built when the transaction is within the limits. -/
theorem fromConfirmedTransaction_ok {env : Env} {own : ℕ} {s : InMemory}
    {cs : List ConfirmedGradidoTx} (h : IndexedBy env own s cs) {tx : ConfirmedTransaction}
    (htx : Indexable env own s.history tx)
    (hbalances : tx.accountBalances.length ≤ 3)
    (htimeout : ∀ nr, tx.body.specific = .timeoutDeferredTransfer nr →
      TimeoutKnown env s.history tx nr)
    (hother : tx.body.type ≠ .localGroup → tx.body.otherCommunityIdIndex ≠ none)
    (hrole : createRole tx.body = .ok ())
    (hamount : ∀ d, tx.body.specific = .deferredTransfer d → 0 < d.transfer.sender.amount) :
    ∃ c, fromConfirmedTransaction env own s.mConfirmedTxByNr tx = .ok c := by
  have hmemos := htx.memos
  obtain ⟨⟨sender, recipient⟩, hcommunities⟩ : ∃ x, communities own tx.body = .ok x := by
    have hcross := htx.type
    unfold communities
    cases htype : tx.body.type with
    | localGroup => exact ⟨_, rfl⟩
    | cross => exact absurd htype hcross
    | outbound =>
      obtain ⟨other, hsome⟩ := Option.ne_none_iff_exists'.1 (hother (by simp [htype]))
      exact ⟨_, by rw [hsome]⟩
    | inbound =>
      obtain ⟨other, hsome⟩ := Option.ne_none_iff_exists'.1 (hother (by simp [htype]))
      exact ⟨_, by rw [hsome]⟩
  obtain ⟨⟨specific, coin⟩, hspecific⟩ : ∃ x, fillSpecific env own sender recipient
      s.mConfirmedTxByNr (compactBalances env own tx) tx.confirmedAt tx.body = .ok x := by
    unfold fillSpecific
    cases hbody : tx.body.specific with
    | timeoutDeferredTransfer nr =>
      obtain ⟨specific, hfill⟩ := fillTimeout_ok h (htimeout nr hbody)
      exact ⟨(specific, own), by simp only [hfill]; rfl⟩
    | deferredTransfer d =>
      obtain ⟨hlocal, hlimit⟩ := htx.deferred d hbody
      have hpositive := hamount d hbody
      have hrange : 0 ≤ d.transfer.sender.amount ∧ d.transfer.sender.amount < 2 ^ 32 :=
        ⟨hpositive.le, hlimit⟩
      simp only [hlocal, hrange, and_self, ne_eq, not_true_eq_false, decide_false]
      exact ⟨_, rfl⟩
    | none =>
      simp [createRole, TransactionBody.transactionType, hbody] at hrole
    | communityFriendsUpdate _ =>
      simp [createRole, TransactionBody.transactionType, hbody] at hrole
    | transfer _ => exact ⟨_, rfl⟩
    | creation _ => exact ⟨_, rfl⟩
    | registerAddress _ => exact ⟨_, rfl⟩
    | redeemDeferredTransfer _ => exact ⟨_, rfl⟩
    | communityRoot _ => exact ⟨_, rfl⟩
  have hcount : ¬ 3 < tx.accountBalances.length := by omega
  have hmemoCount : ¬ 2 < tx.body.memos.length := by omega
  simp only [fromConfirmedTransaction, hcount, hmemoCount, decide_false, hcommunities,
    throwIf_false, ok_bind, hspecific]
  exact ⟨_, rfl⟩

end ConfirmedGradidoTx

namespace ConfirmTransaction

/-- The two accounts of a confirmed community root have different keys. -/
theorem Confirms.root_keys {env : Env} {community : ℕ} {role : Role}
    {p q : InMemoryProvider} {tx : ConfirmedTransaction}
    (h : Confirms env community role p q tx) {r : CommunityRoot}
    (hr : role.mBody.specific = .communityRoot r) : r.gmwPublicKey ≠ r.aufPublicKey := by
  obtain ⟨c, hc⟩ := h.specific_single
  simp only [Validate.specificRole, hr, Validate.communityRootRole, bind_eq_ok, exists_unit,
    when_eq_ok, throwIf_eq_ok, decide_eq_false_iff_not] at hc
  exact (hc.1 trivial).2.1

end ConfirmTransaction

/-! ### The invariant -/

/-- A transaction does not give one address two types. -/
theorem ConfirmedTransaction.typedAddresses_unique {env : Env} {own : ℕ}
    {tx : ConfirmedTransaction}
    (hroot : ∀ r, tx.body.specific = .communityRoot r → r.gmwPublicKey ≠ r.aufPublicKey)
    {k : ℕ} {t t' : AddressType} (h : (k, t) ∈ tx.typedAddresses env own)
    (h' : (k, t') ∈ tx.typedAddresses env own) : t' = t := by
  unfold typedAddresses at h h'
  split at h
  · simp at h
  · next sender _ hcommunities =>
    simp only [hcommunities] at h'
    cases hbody : tx.body.specific with
    | communityRoot r =>
      have hkeys := hroot r hbody
      simp only [hbody, List.mem_cons, Prod.mk.injEq, List.not_mem_nil, or_false] at h h'
      rcases h with ⟨rfl, rfl⟩ | ⟨rfl, rfl⟩
      · rcases h' with ⟨-, rfl⟩ | ⟨heq, -⟩
        · rfl
        · exact absurd (env.dict.index_injective heq).symm hkeys
      · rcases h' with ⟨heq, -⟩ | ⟨-, rfl⟩
        · exact absurd (env.dict.index_injective heq) hkeys
        · rfl
    | registerAddress r =>
      simp only [hbody, List.mem_cons, Prod.mk.injEq, List.not_mem_nil, or_false] at h h'
      rcases h with ⟨-, rfl⟩ | ⟨-, rfl⟩ <;> rcases h' with ⟨-, rfl⟩ | ⟨-, rfl⟩ <;> rfl
    | deferredTransfer d =>
      simp only [hbody, List.mem_singleton, Prod.mk.injEq] at h h'
      rw [h.2, h'.2]
    | none => simp [hbody] at h
    | transfer _ => simp [hbody] at h
    | creation _ => simp [hbody] at h
    | redeemDeferredTransfer _ => simp [hbody] at h
    | timeoutDeferredTransfer _ => simp [hbody] at h
    | communityFriendsUpdate _ => simp [hbody] at h

/-- The compact form of a transaction within the limits fits into the index. -/
theorem IndexedBy.fits {env : Env} {own : ℕ} {s : InMemory} {cs : List ConfirmedGradidoTx}
    (h : IndexedBy env own s cs) {tx : ConfirmedTransaction} {c : ConfirmedGradidoTx}
    (hc : CompactOf env own tx c) (hid : tx.id = s.history.length + 1)
    (htx : Indexable env own s.history tx)
    (hroot : ∀ r, tx.body.specific = .communityRoot r → r.gmwPublicKey ≠ r.aufPublicKey) :
    Fits own cs c := by
  obtain ⟨htxNr, hconfirmedAt, hown, -, -, hbalances, hsignatures⟩ := hc.fields
  exact {
    txNr := by rw [htxNr, hid, h.length_eq]
    own := hown
    day := by
      rw [hc.date_eq, ConfirmedTransaction.date, timepointAsYearMonthDay, if_neg htx.day]
      have hbounds := Calendar.civilFromDays_bounds (floorDays tx.confirmedAt.getAsTimepoint)
      omega
    month := by
      rw [h.map_eq (fun _ _ hc => hc.date_eq), hc.date_eq]
      exact htx.month
    keys := by
      have hkeys := htx.keys
      rw [hbalances, hsignatures]
      simpa [ConfirmedGradidoTx.compactBalances] using hkeys
    types := by
      intro x hx c' hc' t ht
      rw [hc.typedAddresses_eq] at hx
      rcases List.mem_append.1 hc' with hc' | hc'
      · obtain ⟨tx', htx', hcompact⟩ := h.exists_rich hc'
        rw [hcompact.typedAddresses_eq] at ht
        exact htx.addressTypes x hx tx' htx' _ ht rfl
      · rw [List.mem_singleton.1 hc', hc.typedAddresses_eq] at ht
        exact ConfirmedTransaction.typedAddresses_unique hroot hx ht }

/-- **Storing a transaction** within the limits keeps the compact transactions and the index in
step with the log. -/
theorem Indexed.addToBlockchain {env : Env} {own : ℕ} {s : InMemory} (h : Indexed env own s)
    (hs : s.Represents own s.history) {tx : ConfirmedTransaction}
    (hid : tx.id = s.history.length + 1) (htx : Indexable env own s.history tx)
    (hbalances : tx.accountBalances.length ≤ 3)
    (htimeout : ∀ nr, tx.body.specific = .timeoutDeferredTransfer nr →
      TimeoutKnown env s.history tx nr)
    (hother : tx.body.type ≠ .localGroup → tx.body.otherCommunityIdIndex ≠ none)
    (hrole : createRole tx.body = .ok ())
    (hamount : ∀ d, tx.body.specific = .deferredTransfer d → 0 < d.transfer.sender.amount)
    (hroot : ∀ r, tx.body.specific = .communityRoot r → r.gmwPublicKey ≠ r.aufPublicKey) :
    Indexed env own (ConfirmTransaction.addToBlockchain env s tx).1 := by
  obtain ⟨cs, hcs⟩ := h
  obtain ⟨c, hc⟩ := ConfirmedGradidoTx.fromConfirmedTransaction_ok hcs htx hbalances htimeout
    hother hrole hamount
  have hcompact : CompactOf env own tx c := ⟨_, hc⟩
  have hfits := hcs.fits hcompact hid htx hroot
  obtain ⟨idx, hidx, hindexes⟩ := hcs.index.addTransactionIndices hfits
  rw [← hs.community] at hc
  have hpush : ∀ t : InMemory, t.mCommunityIdIndex = s.mCommunityIdIndex →
      t.mConfirmedTxByNr = s.mConfirmedTxByNr → t.mTransactionsIndex = s.mTransactionsIndex →
      (t.pushCompact env tx).mTransactionsIndex = idx ∧ (t.pushCompact env tx).mConfirmedTxByNr =
        InMemory.insertNew s.mConfirmedTxByNr c.txNr c := by
    intro t hcommunity hbyNr hindex
    unfold InMemory.pushCompact
    rw [hcommunity, hbyNr, hc, hindex]
    simp only [hidx, and_self]
  obtain ⟨hindex', hbyNr'⟩ := hpush { s with
      mLedgerAnchorTransactionNrs :=
        InMemory.insertNew s.mLedgerAnchorTransactionNrs tx.ledgerAnchor tx.id
      mTransactionsByNr := InMemory.insertNew s.mTransactionsByNr tx.id tx
      mLastTransaction := some tx } rfl rfl rfl
  refine ⟨cs ++ [c], ?_, ?_, ?_, ?_⟩
  · rw [(hs.addToBlockchain env hid).history_eq]
    exact List.rel_append hcs.compact (.cons hcompact .nil)
  · rw [InMemory.addToBlockchain_mConfirmedTxByNr, InMemory.pushTransactionEntry, hbyNr',
      InMemory.insertNew_of_ne _ _ (by rw [hfits.txNr]; omega), hcs.byNr_zero]
  · intro k
    rw [InMemory.addToBlockchain_mConfirmedTxByNr, InMemory.pushTransactionEntry, hbyNr',
      hfits.txNr]
    by_cases hk : k = cs.length
    · subst hk
      rw [InMemory.insertNew_self (by rw [hcs.byNr]; simp)]
      simp
    · rw [InMemory.insertNew_of_ne _ _ (by omega), hcs.byNr]
      rcases Nat.lt_or_ge k cs.length with hlt | hge
      · rw [List.getElem?_append_left hlt]
      · rw [List.getElem?_eq_none (by omega), List.getElem?_eq_none]
        simp
        omega
  · rw [InMemory.addToBlockchain_mTransactionsIndex, InMemory.pushTransactionEntry, hindex']
    exact hindexes

/-- The removal of an event changes neither the log nor the index. -/
theorem Indexed.removeTransactionTriggerEvent {env : Env} {own : ℕ} {s : InMemory}
    (h : Indexed env own s) (event : TransactionTriggerEvent) :
    Indexed env own (s.removeTransactionTriggerEvent event) := by
  obtain ⟨cs, hcs⟩ := h
  exact ⟨cs, hcs.compact, hcs.byNr_zero, hcs.byNr, hcs.index⟩

namespace ConfirmTransaction

/-- **The index of a reachable blockchain** knows the log when all its transactions are within the
limits. -/
theorem Reachable.indexed {env : Env} {direct : ℕ → Role → Prop} {p : InMemoryProvider}
    (h : Reachable env direct p) :
    ∀ i, IndexableLog env i (p.findBlockchain i).history → Indexed env i (p.findBlockchain i) := by
  refine h.chain_invariant (P := fun p => ∀ i, IndexableLog env i (p.findBlockchain i).history →
    Indexed env i (p.findBlockchain i)) ?_ ?_ ?_
  · intro i _
    exact indexed_empty env i
  · intro community endDate event p hreach hp _ i hlog
    rw [hreach.logged.history_dropEvent] at hlog
    by_cases hi : i = community
    · subst hi
      rw [findBlockchain_dropEvent]
      exact (hp i hlog).removeTransactionTriggerEvent event
    · rw [findBlockchain_dropEvent_of_ne _ _ hi]
      exact hp i hlog
  · intro community role p q tx _ _ hreach hq _ htx hb _ i hlog
    by_cases hi : i = community
    · subst hi
      rw [hreach.logged.history_added hb] at hlog
      have hwithin := hb.within_given hreach.logged hlog.last.given
      have hbody := hb.body_eq
      rw [findBlockchain_added]
      refine (hq i hlog.of_append).addToBlockchain (hreach.logged.represents i)
        (hreach.logged.id_eq hb) hlog.last hwithin.1 hwithin.2 ?_ ?_ ?_ ?_
      · rw [← hbody]
        exact htx.otherCommunityIdIndex
      · rw [← hbody]
        exact htx.createRole
      · rw [← hbody]
        exact fun d hd => (htx.deferred_checked hd).amount
      · rw [← hbody]
        exact fun r hr => htx.root_keys hr
    · rw [findBlockchain_added_of_ne _ _ _ hi] at hlog ⊢
      exact hq i hlog

end ConfirmTransaction

/-! ### Main results -/

/-- The compact transactions and the index know all stored transactions and no others, and every
transaction is found by its type and by the keys of its balances. -/
structure FullyIndexed (env : Env) (s : InMemory) : Prop where
  compact : ∀ nr, (s.mConfirmedTxByNr nr).isSome = true ↔ (s.mTransactionsByNr nr).isSome = true
  all : ∀ nr, nr ∈ s.mTransactionsIndex.findTransactions {} ↔
    (s.mTransactionsByNr nr).isSome = true
  type : ∀ nr tx, s.mTransactionsByNr nr = some tx →
    nr ∈ s.mTransactionsIndex.findTransactions { transactionType := tx.body.transactionType }
  balances : ∀ nr tx, s.mTransactionsByNr nr = some tx → ∀ b ∈ tx.accountBalances,
    nr ∈ s.mTransactionsIndex.findTransactions
      { publicKeySearchType := .balanceChangingPublicKey
        publicKeyIndex := env.dict.toPublicKeyIndex b.publicKey s.mCommunityIdIndex }

/-- An index in step with the log is complete. -/
theorem Indexed.fullyIndexed {env : Env} {own : ℕ} {s : InMemory} (h : Indexed env own s)
    (hs : s.Represents own s.history) (hown : own ≠ 0) : FullyIndexed env s := by
  obtain ⟨cs, hcs⟩ := h
  -- every stored transaction has a compact form that the index knows
  have hstored : ∀ nr tx, s.mTransactionsByNr nr = some tx →
      ∃ c ∈ cs, c.txNr = nr ∧ CompactOf env own tx c := by
    intro nr tx htx
    obtain ⟨hmem, rfl⟩ := hs.mem_of_byNr htx
    obtain ⟨c, hc, hcompact⟩ := hcs.exists_compact hmem
    exact ⟨c, hc, hcompact.fields.1, hcompact⟩
  refine ⟨?_, ?_, ?_, ?_⟩
  · intro nr
    cases nr with
    | zero => simp [hcs.byNr_zero, hs.byNr_zero]
    | succ k => simp [hcs.byNr, hs.byNr, hcs.length_eq]
  · intro nr
    rw [hcs.index.mem_findTransactions (by simp [Plain]) rfl rfl rfl rfl, Option.isSome_iff_exists]
    constructor
    · rintro ⟨c, hc, rfl, -⟩
      obtain ⟨tx, htx, hcompact⟩ := hcs.exists_rich hc
      exact ⟨tx, hs.byNr_iff.2 ⟨htx, hcompact.fields.1.symm⟩⟩
    · rintro ⟨tx, htx⟩
      obtain ⟨c, hc, hnr, -⟩ := hstored nr tx htx
      exact ⟨c, hc, hnr, .inl rfl, by simp [WantedKey], .inl rfl⟩
  · intro nr tx htx
    rw [hcs.index.mem_findTransactions (by simp [Plain]) rfl rfl rfl rfl]
    obtain ⟨c, hc, hnr, hcompact⟩ := hstored nr tx htx
    exact ⟨c, hc, hnr, .inl rfl, by simp [WantedKey], .inr hcompact.fields.2.2.2.2.1⟩
  · intro nr tx htx b hb
    rw [hs.community, hcs.index.mem_findTransactions (fun _ => ?_) rfl rfl rfl rfl]
    · obtain ⟨c, hc, hnr, hcompact⟩ := hstored nr tx htx
      refine ⟨c, hc, hnr, .inl rfl, ⟨fun _ => ?_, by simp⟩, .inl rfl⟩
      exact (hcompact.isBalanceUpdated_iff b.publicKey).2 ⟨b, hb, rfl⟩
    · exact env.dict.empty_toPublicKeyIndex hown b.publicKey

namespace Sample

/-- A transfer of a hundred cents with three memos. -/
def threeMemos : Call :=
  call 4 0 (transaction 0 (signedByKey 11) [memo, memo, memo]
    (.transfer ⟨⟨11, 100, 1⟩, 21⟩))

/-- The set-up, a deferred transfer, and a transfer whose balances are given. -/
def mixedCalls : List AddCall :=
  (setup ++ [deferred]).map .node ++
    [.given true 1 (transaction 240 (signedByKey 11) [memo]
      (.transfer ⟨⟨11, 50, 1⟩, 21⟩)) (.legacyGradidoDb .transaction 5)
      [⟨11, 0, 1⟩, ⟨21, 50, 1⟩]]

end Sample

end Gradido
