import GradidoBlockchain.Chain.Indexed

/-!
# What the compact form tells

Two questions to a compact transaction.

* Which addresses are involved?  `getInvolvedAddresses` collects them in nine
  slots, three of which it keeps free for the body.
* Who gets a timed out amount back, and how much is it?  The compact form of a
  timeout guesses the parties from the balance that is zero, and falls back to
  the compact form of the deferred transfer.
-/

namespace Gradido

open Checked ConfirmTransaction

/-! ### Involved addresses -/

namespace ConfirmedGradidoTx

variable {env : Env} {tx : ConfirmedGradidoTx} {k : PublicKeyIndex}

theorem mem_balanceAddresses_iff : k ∈ tx.balanceAddresses ↔ tx.isBalanceUpdated k = true := by
  unfold balanceAddresses isBalanceUpdated
  simp only [List.mem_map, List.any_eq_true, Bool.and_eq_true, decide_eq_true_eq]
  constructor
  · rintro ⟨b, hb, rfl⟩
    exact ⟨b, hb, rfl, rfl⟩
  · rintro ⟨b, hb, hkey, hcommunity⟩
    exact ⟨b, hb, by rw [hkey, ← hcommunity]⟩

theorem mem_signatureAddresses_iff :
    k ∈ tx.signatureAddresses env ↔ tx.isSignaturePublicKey env k = true := by
  unfold signatureAddresses isSignaturePublicKey PublicKeyDictionary.toPublicKeyIndex
  simp only [List.mem_map, List.any_eq_true, Bool.and_eq_true, decide_eq_true_eq]
  constructor
  · rintro ⟨key, hkey, rfl⟩
    exact ⟨rfl, key, hkey, rfl⟩
  · rintro ⟨hcommunity, key, hkey, heq⟩
    exact ⟨key, hkey, by rw [heq, ← hcommunity]⟩

/-- The collected addresses are those that are involved by a balance, a signature or the body. -/
theorem isInvolved_iff : tx.isInvolved env k = true ↔
    k ∈ tx.balanceAddresses ++ tx.signatureAddresses env ++ tx.bodyAddresses ∧
      k.empty = false := by
  rw [List.mem_append, List.mem_append, mem_balanceAddresses_iff, mem_signatureAddresses_iff,
    isInvolved]
  simp only [Bool.and_eq_true, Bool.not_eq_true', Bool.or_eq_true, decide_eq_true_eq]
  tauto

/-- The slots suffice for up to five balances and signatures. -/
theorem exists_getInvolvedAddresses_iff : (∃ l, tx.getInvolvedAddresses env = .ok l) ↔
    tx.accountBalances.length + tx.signaturePublicKeys.length ≤ 5 := by
  simp only [getInvolvedAddresses, bind_eq_ok, throwIf_eq_ok, exists_unit,
    decide_eq_false_iff_not, pure_eq_ok]
  constructor
  · rintro ⟨l, -, -, hbody, -⟩
    omega
  · intro h
    exact ⟨_, by omega, by omega, by omega, rfl⟩

/-- A root that six keys have signed. -/
def sixSigners : ConfirmedGradidoTx where
  txNr := 1
  confirmedAt := ⟨0, 0⟩
  txCommunityIdIndex := 1
  coinCommunityIdIndex := 1
  crossGroupType := .localGroup
  transactionType := .communityRoot
  accountBalances := []
  specific := .communityRoot 1 2 3
  pairingTxCommunityIdIndex := 0
  signaturePublicKeys := [1, 2, 3, 4, 5, 6]

end ConfirmedGradidoTx

/-! ### The stored compact forms -/

/-- The compact transactions of a blockchain are the forms of its transactions. -/
def InMemory.Compacted (env : Env) (own : ℕ) (s : InMemory) : Prop :=
  ∀ nr c, s.mConfirmedTxByNr nr = some c →
    ∃ tx, s.mTransactionsByNr nr = some tx ∧ CompactOf env own tx c

/-- A stored transaction keeps the compact forms, and adds at most its own. -/
theorem InMemory.Compacted.addToBlockchain {env : Env} {own : ℕ} {s : InMemory}
    (h : s.Compacted env own) (hown : s.mCommunityIdIndex = own) {tx : ConfirmedTransaction}
    (hnew : s.mTransactionsByNr tx.id = none) :
    (addToBlockchain env s tx).1.Compacted env own := by
  intro nr c hc
  have hold : s.mConfirmedTxByNr nr = some c →
      ∃ tx', InMemory.insertNew s.mTransactionsByNr tx.id tx nr = some tx' ∧
        CompactOf env own tx' c := by
    intro hc
    obtain ⟨tx', htx', hcompact⟩ := h nr c hc
    exact ⟨tx', InMemory.insertNew_of_some htx', hcompact⟩
  rw [addToBlockchain_mTransactionsByNr]
  rw [addToBlockchain_mConfirmedTxByNr, pushTransactionEntry, pushCompact] at hc
  dsimp only at hc
  split at hc
  · exact hold hc
  · next compactTx hcompactTx =>
    split at hc
    · exact hold hc
    · dsimp only at hc
      have hcompact : CompactOf env own tx compactTx := ⟨_, hown ▸ hcompactTx⟩
      by_cases hnr : nr = tx.id
      · subst hnr
        rw [hcompact.fields.1] at hc
        cases hbefore : s.mConfirmedTxByNr tx.id with
        | none =>
          rw [InMemory.insertNew_self hbefore, Option.some.injEq] at hc
          exact ⟨tx, InMemory.insertNew_self hnew, hc ▸ hcompact⟩
        | some before =>
          obtain ⟨tx', htx', -⟩ := h _ _ hbefore
          rw [hnew] at htx'
          simp at htx'
      · rw [hcompact.fields.1, InMemory.insertNew_of_ne _ _ hnr] at hc
        exact hold hc

namespace ConfirmTransaction

/-- Every reachable blockchain stores compact forms of its transactions only. -/
theorem Reachable.compacted {env : Env} {direct : ℕ → Role → Prop} {p : InMemoryProvider}
    (h : Reachable env direct p) : ∀ i, (p.findBlockchain i).Compacted env i := by
  refine h.chain_invariant (P := fun p => ∀ i, (p.findBlockchain i).Compacted env i) ?_ ?_ ?_
  · intro i nr c hc
    simp [InMemoryProvider.empty, InMemoryProvider.findBlockchain, InMemory.empty] at hc
  · intro community endDate event p _ hp _ i
    by_cases hi : i = community
    · subst hi
      rw [findBlockchain_dropEvent]
      exact hp i
    · rw [findBlockchain_dropEvent_of_ne _ _ hi]
      exact hp i
  · intro community role p q tx _ _ hreach hq _ _ hb _ i
    by_cases hi : i = community
    · subst hi
      rw [findBlockchain_added]
      have hs := hreach.logged.represents i
      refine (hq i).addToBlockchain hs.community ?_
      rw [hreach.logged.id_eq hb, hs.byNr]
      simp
    · rw [findBlockchain_added_of_ne _ _ _ hi]
      exact hq i

end ConfirmTransaction

/-! ### Timeouts -/

namespace ConfirmedGradidoTx

/-- With two balances the parties are guessed if the second one is the only zero. -/
theorem fillTimeout_pair (env : Env) (getTx : ℕ → Option ConfirmedGradidoTx)
    (b₀ b₁ : CompactAccountBalance) (nr : ℕ) (confirmedAt : Timestamp) :
    fillTimeout env getTx [b₀, b₁] nr confirmedAt =
      if b₀.balanceGddCent ≠ 0 ∧ b₁.balanceGddCent = 0 then
        .ok (.transfer 0 b₁.publicKeyIndex b₀.publicKeyIndex)
      else fillTimeout.fromDeferred env getTx nr confirmedAt := by
  have hidx : timeoutSenderIdx 0 (-1) [b₀, b₁] > 0 ↔
      b₀.balanceGddCent ≠ 0 ∧ b₁.balanceGddCent = 0 := by
    by_cases h₀ : b₀.balanceGddCent = 0 <;> by_cases h₁ : b₁.balanceGddCent = 0 <;>
      simp [timeoutSenderIdx, h₀, h₁]
  simp only [fillTimeout, hidx]

/-- The compact form of a deferred transfer. -/
theorem specific_of_deferred {env : Env} {own : ℕ} {tx : ConfirmedTransaction}
    {c : ConfirmedGradidoTx} (h : CompactOf env own tx c) {d : GradidoDeferredTransfer}
    (hd : tx.body.specific = .deferredTransfer d) :
    c.specific = .deferredTransfer d.transfer.sender.amount
      (env.dict.index own d.transfer.sender.publicKey) (env.dict.index own d.transfer.recipient)
      d.timeoutDuration := by
  obtain ⟨getTx, sender, recipient, -, hspecific⟩ := h.content
  simp only [fillSpecific, hd, bind_eq_ok, exists_unit, pure_eq_ok, Prod.mk.injEq] at hspecific
  exact hspecific.2.2.1.symm

/-- What is cut off from an amount in cents when it is taken for coins. -/
theorem tdiv_cents_iff (decayed : ℤ) :
    (decayed.tdiv 10000 = 0 ∨ decayed.tdiv 10000 = decayed) ↔
      -10000 < decayed ∧ decayed < 10000 := by
  rcases Int.lt_or_le decayed 0 with hneg | hnonneg
  · obtain ⟨n, rfl⟩ : ∃ n : ℤ, decayed = -n := ⟨-decayed, by omega⟩
    rw [Int.neg_tdiv, Int.tdiv_eq_ediv_of_nonneg (by omega)]
    omega
  · rw [Int.tdiv_eq_ediv_of_nonneg hnonneg]
    omega

variable {env : Env} {own nr : ℕ} {s : InMemory} {confirmedAt : Timestamp}
  {entry : ConfirmedTransaction} {d : GradidoDeferredTransfer} {decayed : ℤ}

/-- The fallback knows the parties, but gives the amount in coins. -/
theorem fromDeferred_eq_ok_iff (h : s.Compacted env own)
    (hsettling : Settling env s confirmedAt nr entry d decayed) {specific : CompactSpecific} :
    fillTimeout.fromDeferred env s.mConfirmedTxByNr nr confirmedAt = .ok specific ↔
      (s.mConfirmedTxByNr nr).isSome = true ∧
        specific = .transfer (decayed.tdiv 10000) (env.dict.index own d.transfer.recipient)
          (env.dict.index own d.transfer.sender.publicKey) := by
  unfold fillTimeout.fromDeferred
  cases hc : s.mConfirmedTxByNr nr with
  | none => simp
  | some c =>
    obtain ⟨entry', hentry, hcompact⟩ := h nr c hc
    obtain rfl : entry = entry' := by
      rw [hsettling.byNr] at hentry
      exact Option.some.inj hentry
    simp only [specific_of_deferred hcompact hsettling.deferred, hcompact.fields.2.1,
      hsettling.worth, ok_bind, Option.isSome_some, true_and, pure_eq_ok]
    exact eq_comm

/-- The compact form of a timeout for two given balances. -/
theorem fillTimeout_tells_iff (h : s.Compacted env own)
    (hsettling : Settling env s confirmedAt nr entry d decayed) {a b : CompactAccountBalance}
    (hkeys : a.balanceGddCent ≠ 0 → b.balanceGddCent = 0 →
      a.publicKeyIndex = env.dict.index own d.transfer.sender.publicKey ∧
        b.publicKeyIndex = env.dict.index own d.transfer.recipient) :
    (∃ amount, fillTimeout env s.mConfirmedTxByNr [a, b] nr confirmedAt =
        .ok (.transfer amount (env.dict.index own d.transfer.recipient)
          (env.dict.index own d.transfer.sender.publicKey)) ∧
        (amount = 0 ∨ amount = decayed)) ↔
      (a.balanceGddCent ≠ 0 ∧ b.balanceGddCent = 0) ∨
        (s.mConfirmedTxByNr nr).isSome = true ∧ -10000 < decayed ∧ decayed < 10000 := by
  rw [fillTimeout_pair, ← tdiv_cents_iff]
  split_ifs with hguessed
  · obtain ⟨hsender, hrecipient⟩ := hkeys hguessed.1 hguessed.2
    simp [hguessed, hsender, hrecipient]
  · simp only [fromDeferred_eq_ok_iff h hsettling, hguessed, false_or,
      CompactSpecific.transfer.injEq, and_true]
    constructor
    · rintro ⟨amount, ⟨hknown, rfl⟩, hamount⟩
      exact ⟨hknown, hamount⟩
    · rintro ⟨hknown, hamount⟩
      exact ⟨_, ⟨hknown, rfl⟩, hamount⟩

/-- The compact form of a timeout gives the amount back from the address of the deferred transfer
to its sender: all that it is worth, or an amount that is left open. -/
def TellsTimeout (env : Env) (s : InMemory) (own : ℕ) (tx : ConfirmedTransaction)
    (d : GradidoDeferredTransfer) (decayed : ℤ) : Prop :=
  ∃ c amount, fromConfirmedTransaction env own s.mConfirmedTxByNr tx = .ok c ∧
    c.specific = .transfer amount (env.dict.index own d.transfer.recipient)
      (env.dict.index own d.transfer.sender.publicKey) ∧ (amount = 0 ∨ amount = decayed)

/-- The communities of a body are known, but for one type. -/
theorem exists_communities_iff (own : ℕ) {body : TransactionBody}
    (hother : body.type ≠ .localGroup → body.otherCommunityIdIndex ≠ none) :
    (∃ x, communities own body = .ok x) ↔ body.type ≠ .cross := by
  unfold communities
  cases htype : body.type with
  | localGroup => simp
  | outbound =>
    obtain ⟨other, hsome⟩ := Option.ne_none_iff_exists'.1 (hother (by simp [htype]))
    simp [hsome]
  | inbound =>
    obtain ⟨other, hsome⟩ := Option.ne_none_iff_exists'.1 (hother (by simp [htype]))
    simp [hsome]
  | cross =>
    obtain ⟨other, hsome⟩ := Option.ne_none_iff_exists'.1 (hother (by simp [htype]))
    simp [hsome]

/-- The compact form of a timeout with two balances, beyond its specific part. -/
theorem tellsTimeout_iff {t : ConfirmedTransaction} {b₀ b₁ : AccountBalance}
    (hother : t.body.type ≠ .localGroup → t.body.otherCommunityIdIndex ≠ none)
    (hnr : t.body.specific = .timeoutDeferredTransfer nr)
    (hbalances : t.accountBalances = [b₀, b₁]) :
    TellsTimeout env s own t d decayed ↔ t.body.type ≠ .cross ∧ t.body.memos.length ≤ 2 ∧
      ∃ amount, fillTimeout env s.mConfirmedTxByNr (compactBalances env own t) nr
          t.confirmedAt = .ok (.transfer amount (env.dict.index own d.transfer.recipient)
            (env.dict.index own d.transfer.sender.publicKey)) ∧
        (amount = 0 ∨ amount = decayed) := by
  rw [← exists_communities_iff own hother]
  simp only [TellsTimeout, fromConfirmedTransaction, bind_eq_ok, exists_unit, throwIf_eq_ok,
    pure_eq_ok, decide_eq_false_iff_not, fillSpecific, hnr, hbalances]
  constructor
  · rintro ⟨c, amount, ⟨-, x, hx, y, ⟨specific, hfill, rfl⟩, hmemos, rfl⟩, hc, hamount⟩
    exact ⟨⟨x, hx⟩, by omega, amount, by rw [hfill]; exact congrArg _ hc, hamount⟩
  · rintro ⟨⟨x, hx⟩, hmemos, amount, hfill, hamount⟩
    exact ⟨_, amount, ⟨by simp, x, hx, _, ⟨_, hfill, rfl⟩, by omega, rfl⟩, rfl, hamount⟩

end ConfirmedGradidoTx

namespace ConfirmTransaction

/-- **The balances of a timeout**: its deferred transfer is stored, its sender comes first, and the
address is empty. -/
theorem Reachable.timeout_balances {env : Env} {direct : ℕ → Role → Prop} {p : InMemoryProvider}
    (h : Reachable env direct p) : ∀ i, ∀ tx ∈ (p.findBlockchain i).history,
      tx.balanceDerivationType ≠ .externComputed →
      ∀ nr, tx.body.specific = .timeoutDeferredTransfer nr →
      (tx.body.type ≠ .localGroup → tx.body.otherCommunityIdIndex ≠ none) ∧
        ∃ entry d decayed sender,
          Settling env (p.findBlockchain i) tx.confirmedAt nr entry d decayed ∧
          sender.publicKey = d.transfer.sender.publicKey ∧ tx.accountBalances =
            [sender, ⟨d.transfer.recipient, 0, d.transfer.sender.coinCommunityIdIndex⟩] := by
  have hconfirmed := h.forall_confirmed (Q := fun p i tx =>
    tx.balanceDerivationType ≠ .externComputed →
    ∀ nr, tx.body.specific = .timeoutDeferredTransfer nr →
    (tx.body.type ≠ .localGroup → tx.body.otherCommunityIdIndex ≠ none) ∧
      ∃ entry d decayed sender, entry ∈ (p.findBlockchain i).history ∧ entry.id = nr ∧
        entry.body.specific = .deferredTransfer d ∧
        env.calculateDecay d.transfer.sender.amount entry.confirmedAt.getAsTimepoint
          tx.confirmedAt.getAsTimepoint = .ok decayed ∧
        sender.publicKey = d.transfer.sender.publicKey ∧ tx.accountBalances =
          [sender, ⟨d.transfer.recipient, 0, d.transfer.sender.coinCommunityIdIndex⟩]) ?_ ?_
  · intro i tx htx hnode nr hnr
    obtain ⟨hother, entry, d, decayed, sender, hentry, hid, hd, hdecayed, hkey, hbalances⟩ :=
      hconfirmed i tx htx hnode nr hnr
    have hbyNr := ((h.logged.represents i).byNr_iff).2 ⟨hentry, hid⟩
    exact ⟨hother, entry, d, decayed, sender, ⟨hbyNr, hd, hdecayed⟩, hkey, hbalances⟩
  · intro p q i tx hextends hQ hnode nr hnr
    obtain ⟨hother, entry, d, decayed, sender, hentry, hrest⟩ := hQ hnode nr hnr
    exact ⟨hother, entry, d, decayed, sender, (hextends i).subset hentry, hrest⟩
  · intro community role p q tx hreach htx hb _ hnode nr hnr
    refine ⟨fun htype => ?_, ?_⟩
    · have hother := htx.otherCommunityIdIndex (by rwa [hb.body_eq])
      rwa [hb.body_eq] at hother
    · obtain ⟨entry, d, decayed, sender, hsettling, hsender, hbalances⟩ :=
        (computed_of_ok (hb.calculated hnode)).of_timeout hnr
      obtain ⟨hentry, hid⟩ := ((hreach.logged.represents community).byNr_iff).1 hsettling.byNr
      exact ⟨entry, d, decayed, sender, hentry, hid, hsettling.deferred, hsettling.worth,
        (calculateAccountBalance_spec hsender).1, hbalances⟩

end ConfirmTransaction

/-- **The compact form of a timeout**, whatever the order of its balances, tells who gets the
amount back if the parties can be guessed, or if the compact form of the deferred transfer is
stored and the amount is too small to be cut off. -/
theorem runAdd_tellsTimeout_iff (env : Env) (calls : List AddCall) {community nr : ℕ}
    {tx : ConfirmedTransaction} {balances : List AccountBalance}
    (htx : tx ∈ ((runAdd env calls).findBlockchain community).history)
    (hnode : tx.balanceDerivationType ≠ .externComputed)
    (hnr : tx.body.specific = .timeoutDeferredTransfer nr)
    (horder : balances = tx.accountBalances ∨ balances = tx.accountBalances.reverse) :
    ∃ entry d decayed, Settling env ((runAdd env calls).findBlockchain community) tx.confirmedAt
        nr entry d decayed ∧
      (ConfirmedGradidoTx.TellsTimeout env ((runAdd env calls).findBlockchain community) community
          { tx with accountBalances := balances } d decayed ↔
        tx.body.type ≠ .cross ∧ tx.body.memos.length ≤ 2 ∧
          ((∃ b₀ b₁, balances = [b₀, b₁] ∧ b₀.balance ≠ 0 ∧ b₁.balance = 0) ∨
            (((runAdd env calls).findBlockchain community).mConfirmedTxByNr nr).isSome = true ∧
              -10000 < decayed ∧ decayed < 10000)) := by
  have hreach := reachable_runAdd env calls
  obtain ⟨hother, entry, d, decayed, sender, hsettling, hkey, hbalances⟩ :=
    hreach.timeout_balances community tx htx hnode nr hnr
  refine ⟨entry, d, decayed, hsettling, ?_⟩
  obtain ⟨b₀, b₁, rfl, hkeys⟩ : ∃ b₀ b₁ : AccountBalance, balances = [b₀, b₁] ∧
      (b₀.balance ≠ 0 → b₁.balance = 0 → b₀.publicKey = d.transfer.sender.publicKey ∧
        b₁.publicKey = d.transfer.recipient) := by
    rcases horder with rfl | rfl
    · exact ⟨_, _, hbalances, fun _ _ => ⟨hkey, rfl⟩⟩
    · exact ⟨_, _, by rw [hbalances]; rfl, fun hne _ => absurd rfl hne⟩
  rw [ConfirmedGradidoTx.tellsTimeout_iff (t := { tx with accountBalances := [b₀, b₁] })
    hother hnr rfl]
  refine and_congr_right fun _ => and_congr_right fun _ => ?_
  refine (ConfirmedGradidoTx.fillTimeout_tells_iff (hreach.compacted community) hsettling
    (a := ⟨b₀.balance, b₀.coinCommunityIdIndex, env.dict.index community b₀.publicKey⟩)
    (b := ⟨b₁.balance, b₁.coinCommunityIdIndex, env.dict.index community b₁.publicKey⟩) ?_).trans
    (or_congr_left ?_)
  · intro hne hzero
    obtain ⟨hsender, hrecipient⟩ := hkeys hne hzero
    exact ⟨by rw [hsender], by rw [hrecipient]⟩
  · constructor
    · intro hguessed
      exact ⟨b₀, b₁, rfl, hguessed⟩
    · rintro ⟨b₀', b₁', heq, hguessed⟩
      simp only [List.cons.injEq, and_true] at heq
      rw [heq.1, heq.2]
      exact hguessed

namespace Sample

/-- A thousand coins are created for account `11`, fifty of them are deferred to address `30`, and
the next call lets the deferred transfer time out. -/
def timedOut : List AddCall :=
  (setup ++
    [call 4 200 (transaction 200 (signedByKey 21) [memo]
        (.creation ⟨⟨11, 10000000, 1⟩, midnight⟩)),
      call 5 300 (transaction 300 (signedByKey 11) [memo]
        (.deferredTransfer ⟨⟨⟨11, 500000, 1⟩, 30⟩, 3600⟩)),
      call 6 4000 (transaction 4000 (signedByKey 11) [memo]
        (.transfer ⟨⟨11, 500000, 1⟩, 21⟩))]).map AddCall.node

/-- The deferred transfer and its timeout. -/
theorem timedOut_facts :
    ((((runAdd env timedOut).findBlockchain 1).mTransactionsByNr 5).map (fun entry =>
      (entry.body.specific, entry.confirmedAt)) =
        some (.deferredTransfer ⟨⟨⟨11, 500000, 1⟩, 30⟩, 3600⟩, ⟨midnight + 43500, 0⟩)) ∧
    ((((runAdd env timedOut).findBlockchain 1).mTransactionsByNr 6).map (fun tx =>
      (tx.body.specific, tx.balanceDerivationType, tx.confirmedAt)) =
        some (.timeoutDeferredTransfer 5, .nodeComputed, ⟨midnight + 47100, 0⟩)) := by
  decide +kernel

/-- With the balances the other way round fifty coins become fifty cents. -/
theorem timedOut_reverse_not_tellsTimeout :
    ¬ ∀ tx ∈ ((runAdd env timedOut).findBlockchain 1).history,
      tx.balanceDerivationType ≠ .externComputed →
      ∀ nr, tx.body.specific = .timeoutDeferredTransfer nr → ∀ entry d decayed,
        Settling env ((runAdd env timedOut).findBlockchain 1) tx.confirmedAt nr entry d decayed →
        ConfirmedGradidoTx.TellsTimeout env ((runAdd env timedOut).findBlockchain 1) 1
          { tx with accountBalances := tx.accountBalances.reverse } d decayed := by
  intro htells
  obtain ⟨hentry, htx⟩ := timedOut_facts
  have hspecific : ((((runAdd env timedOut).findBlockchain 1).mTransactionsByNr 6).bind
      (fun tx => (ConfirmedGradidoTx.fromConfirmedTransaction env 1
        ((runAdd env timedOut).findBlockchain 1).mConfirmedTxByNr
        { tx with accountBalances := tx.accountBalances.reverse }).toOption.map
          ConfirmedGradidoTx.specific)) = some (.transfer 50 30 11) := by
    decide +kernel
  obtain ⟨entry, hentry, hdeferred⟩ := Option.map_eq_some_iff.1 hentry
  obtain ⟨tx, htx, htimeout⟩ := Option.map_eq_some_iff.1 htx
  simp only [Prod.mk.injEq] at hdeferred htimeout
  have hmem := (((reachable_runAdd env timedOut).logged.represents 1).byNr_iff.1 htx).1
  obtain ⟨c, amount, hc, htransfer, hamount⟩ := htells tx hmem (by simp [htimeout.2.1]) 5
    htimeout.1 entry _ 500000 ⟨hentry, hdeferred.1, by
      rw [hdeferred.2, htimeout.2.2]
      decide⟩
  rw [htx, Option.bind_some, hc] at hspecific
  simp only [Except.toOption, Option.map_some, Option.some.injEq] at hspecific
  rw [hspecific, CompactSpecific.transfer.injEq] at htransfer
  omega

/-- In the order in which the node computes them the amount is left open. -/
theorem timedOut_tellsTimeout :
    ∃ tx ∈ ((runAdd env timedOut).findBlockchain 1).history,
      ∃ entry d decayed,
        Settling env ((runAdd env timedOut).findBlockchain 1) tx.confirmedAt 5 entry d decayed ∧
        ConfirmedGradidoTx.TellsTimeout env ((runAdd env timedOut).findBlockchain 1) 1 tx d
          decayed := by
  have hbalances : (((runAdd env timedOut).findBlockchain 1).mTransactionsByNr 6).map
      (fun tx => (tx.body.type, tx.body.memos, tx.accountBalances)) =
        some (.localGroup, [], [⟨11, 10000000, 1⟩, ⟨30, 0, 1⟩]) := by
    decide +kernel
  obtain ⟨tx, htx, htimeout⟩ := Option.map_eq_some_iff.1 timedOut_facts.2
  rw [htx, Option.map_some, Option.some.injEq, Prod.mk.injEq, Prod.mk.injEq] at hbalances
  simp only [Prod.mk.injEq] at htimeout
  have hmem := (((reachable_runAdd env timedOut).logged.represents 1).byNr_iff.1 htx).1
  obtain ⟨entry, d, decayed, hsettling, htells⟩ := runAdd_tellsTimeout_iff env timedOut hmem
    (by simp [htimeout.2.1]) htimeout.1 (.inl rfl)
  refine ⟨tx, hmem, entry, d, decayed, hsettling, htells.2 ?_⟩
  rw [hbalances.1, hbalances.2.1, hbalances.2.2]
  exact ⟨by decide, by decide, .inl ⟨_, _, rfl, by decide, rfl⟩⟩

end Sample

end Gradido
