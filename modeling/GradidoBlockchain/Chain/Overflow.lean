import GradidoBlockchain.Chain.CompactForm
import GradidoBlockchain.Chain.Conservation
import GradidoBlockchain.Interaction.Arithmetic

/-!
# Overflows

The balances of a transaction are computed before anything but its simple
validation has looked at it.  `noOverflow_iff` says when no operator of a
`GradidoUnit` overflows there: when every account that is credited, and every
one that is debited, has room for the amount.
-/

namespace Gradido

open Checked Traced GradidoUnit ConfirmTransaction

/-- The amount of a body is a `GradidoUnit`. -/
def TransactionBody.HoldsUnits (body : TransactionBody) : Prop :=
  ∀ t, body.getTransferAmount = .ok t → Fits t.amount

/-- Every `GradidoUnit` that is stored is one. -/
structure InMemory.HoldsUnits (s : InMemory) : Prop where
  balances : ∀ nr tx, s.mTransactionsByNr nr = some tx → ∀ b ∈ tx.accountBalances, Fits b.balance
  amounts : ∀ nr tx, s.mTransactionsByNr nr = some tx → tx.body.HoldsUnits

/-- Every `GradidoUnit` of a call is one. -/
structure ConfirmTransaction.Role.HoldsUnits (role : Role) : Prop where
  amounts : role.mBody.HoldsUnits
  given : ∀ balances, role.mAccountBalances = some balances → ∀ b ∈ balances, Fits b.balance

/-- The decay of a `GradidoUnit` is one. -/
def DecaysUnits (env : Env) : Prop :=
  ∀ amount seconds, Fits amount → Fits (env.decay amount seconds)

/-- What `calculateDecay` returns is decayed by some seconds. -/
theorem exists_decay {env : Env} {amount decayed startTime endTime : ℤ}
    (h : env.calculateDecay amount startTime endTime = .ok decayed) :
    ∃ seconds, decayed = env.decay amount seconds := by
  unfold Env.calculateDecay at h
  split at h
  · next seconds _ =>
    rw [Except.ok.injEq] at h
    exact ⟨seconds, h.symm⟩
  · simp at h

theorem DecaysUnits.calculateDecay {env : Env} (h : DecaysUnits env)
    {amount decayed startTime endTime : ℤ} (hamount : Fits amount)
    (hdecayed : env.calculateDecay amount startTime endTime = .ok decayed) : Fits decayed := by
  obtain ⟨seconds, rfl⟩ := exists_decay hdecayed
  exact h _ _ hamount

theorem fits_zero : Fits 0 := by decide

/-! ### Lookups -/

section Lookups

variable {env : Env} {s : InMemory} {confirmedAt : Timestamp}

/-- What `findOneCompact` returns is stored. -/
theorem exists_of_findOneCompact {f : CompactFilter} {c : ConfirmedGradidoTx}
    (hfound : s.findOneCompact f = .ok (some c)) : ∃ nr, s.mConfirmedTxByNr nr = some c := by
  simp only [InMemory.findOneCompact, InMemory.findAllCompact, bind_eq_ok, pure_eq_ok] at hfound
  obtain ⟨found, hone, hjoin⟩ := hfound
  obtain rfl := Option.join_eq_some_iff.1 hjoin
  unfold InMemory.exactlyOne at hone
  split at hone
  · simp at hone
  · next c' heq =>
    simp only [Except.ok.injEq, Option.some.injEq] at hone
    subst hone
    have hin : some c ∈ (s.mTransactionsIndex.findTransactions f).map s.mConfirmedTxByNr := by
      rw [heq]
      exact List.mem_singleton.2 rfl
    obtain ⟨nr, -, hnr⟩ := List.mem_map.1 hin
    exact ⟨nr, hnr⟩
  · simp at hone

/-- What the loop over a page keeps. -/
theorem forPage_keeps {σ : Type} {P : σ → Prop}
    {elementFilter : σ → ConfirmedGradidoTx → Except Exception (σ × FilterResult)}
    (hstep : ∀ acc nr c r, P acc → s.mConfirmedTxByNr nr = some c →
      elementFilter acc c = .ok r → P r.1) {nrs : List ℕ} {acc : σ} {last : FilterResult}
    {r : σ × FilterResult} (hacc : P acc)
    (h : s.forPage elementFilter nrs acc last = .ok r) : P r.1 := by
  induction nrs generalizing acc last with
  | nil =>
    rw [InMemory.forPage, Except.ok.injEq] at h
    exact h ▸ hacc
  | cons nr nrs ih =>
    unfold InMemory.forPage at h
    split at h
    · simp at h
    · next c hc =>
      rw [bind_eq_ok] at h
      obtain ⟨r', hr', h⟩ := h
      have hkept := hstep acc nr c r' hacc hc hr'
      dsimp only at h
      split_ifs at h
      · rw [pure_eq_ok] at h
        exact h ▸ hkept
      · exact ih hkept h

/-- What the loop over the pages keeps. -/
theorem forEachCompact_keeps {σ : Type} {P : σ → Prop} {f : CompactFilter}
    {elementFilter : σ → ConfirmedGradidoTx → Except Exception (σ × FilterResult)}
    (hstep : ∀ acc nr c r, P acc → s.mConfirmedTxByNr nr = some c →
      elementFilter acc c = .ok r → P r.1) {acc result : σ} (hacc : P acc)
    (h : s.forEachCompact f elementFilter acc = .ok result) : P result := by
  unfold InMemory.forEachCompact at h
  generalize s.mTransactionsIndex.mMaxTransactionNr + 3 = bound at h
  generalize f.pagination.page = page at h
  induction bound generalizing page acc with
  | zero =>
    rw [InMemory.forEachPage, Except.ok.injEq] at h
    exact h ▸ hacc
  | succ bound ih =>
    unfold InMemory.forEachPage at h
    split at h
    · rw [Except.ok.injEq] at h
      exact h ▸ hacc
    · rw [bind_eq_ok] at h
      obtain ⟨r, hr, h⟩ := h
      have hkept := forPage_keeps hstep hacc hr
      dsimp only at h
      split_ifs at h
      · rw [pure_eq_ok] at h
        exact h ▸ hkept
      · exact ih hkept page.succ h

end Lookups

/-! ### Previous balances -/

section Previous

variable {env : Env} {own : ℕ} {s : InMemory} {confirmedAt : Timestamp} (hs : s.HoldsUnits)

include hs

/-- The balance that a compact transaction has for a key. -/
theorem fits_getAccountBalance (hcompact : s.Compacted env own) {nr : ℕ}
    {c : ConfirmedGradidoTx} (hc : s.mConfirmedTxByNr nr = some c) (k : PublicKeyIndex) (coin : ℕ) :
    Fits (c.getAccountBalance k coin).1 := by
  obtain ⟨tx, htx, hform⟩ := hcompact nr c hc
  unfold ConfirmedGradidoTx.getAccountBalance
  split_ifs with hcommunity
  · exact fits_zero
  · split
    · next b hfind =>
      have hb := List.mem_of_find?_eq_some hfind
      rw [hform.fields.2.2.2.2.2.1, ConfirmedGradidoTx.compactBalances, List.mem_map] at hb
      obtain ⟨rich, hrich, rfl⟩ := hb
      exact hs.balances nr tx htx rich hrich
    · exact fits_zero

variable (hunits : DecaysUnits env)

include hunits

/-- A previous balance that was looked up by key. -/
theorem fits_previous {k coin : ℕ} {balance : ℤ}
    (h : previousDecayedAccountBalance env s confirmedAt k coin = .ok balance) : Fits balance := by
  unfold previousDecayedAccountBalance at h
  rw [bind_eq_ok] at h
  obtain ⟨found, hfound, h⟩ := h
  cases found with
  | none =>
    dsimp only at h
    rw [pure_eq_ok] at h
    exact h ▸ fits_zero
  | some tx =>
    obtain ⟨nr, htx⟩ := InMemory.exists_of_findOne hfound
    refine hunits.calculateDecay ?_ h
    unfold ConfirmedTransaction.getAccountBalance
    split
    · next b hfind => exact hs.balances nr tx htx b (List.mem_of_find?_eq_some hfind)
    · exact fits_zero

variable (hcompact : s.Compacted env own)

include hcompact

/-- A previous balance that was looked up by key index. -/
theorem fits_previousCompact {k : PublicKeyIndex} {coin : ℕ} {balance : ℤ}
    (h : previousDecayedCompactBalance env s confirmedAt k coin = .ok balance) :
    Fits balance := by
  unfold previousDecayedCompactBalance at h
  rw [bind_eq_ok] at h
  obtain ⟨found, hfound, h⟩ := h
  cases found with
  | none =>
    dsimp only at h
    rw [pure_eq_ok] at h
    exact h ▸ fits_zero
  | some c =>
    obtain ⟨nr, hc⟩ := exists_of_findOneCompact hfound
    exact hunits.calculateDecay (fits_getAccountBalance hs hcompact hc k coin) h

/-- The balance that `validatePrevious` starts from. -/
theorem fits_fromEnd {publicKey maxTransactionNr : ℕ} {coin : Option ℕ} {balance : ℤ}
    (h : CalculateAccountBalance.fromEnd env s publicKey confirmedAt coin maxTransactionNr =
      .ok balance) : Fits balance := by
  simp only [CalculateAccountBalance.fromEnd, CalculateAccountBalance.fromEndIndex, bind_eq_ok,
    exists_unit] at h
  obtain ⟨-, interval, -, h⟩ := h
  refine forEachCompact_keeps (P := Fits) ?_ fits_zero h
  intro acc nr c r hacc hc hr
  unfold CalculateAccountBalance.fromEndFilter at hr
  split_ifs at hr
  · rw [Except.ok.injEq] at hr
    exact hr ▸ hacc
  · rw [bind_eq_ok] at hr
    obtain ⟨amount, hamount, hr⟩ := hr
    rw [pure_eq_ok] at hr
    subst hr
    exact hunits.calculateDecay (fits_getAccountBalance hs hcompact hc _ _) hamount

end Previous

/-! ### Postings -/

/-- An amount that a role adds to a previous balance. -/
structure Posting where
  previous : Except Exception ℤ
  amount : ℤ

namespace Posting

/-- Both are `GradidoUnit`s. -/
structure HoldsUnits (x : Posting) : Prop where
  previous : ∀ balance, x.previous = .ok balance → Fits balance
  amount : Fits x.amount

/-- The balance has room for the amount. -/
def Room (x : Posting) : Prop :=
  ∀ balance, x.previous = .ok balance →
    (0 ≤ x.amount → balance ≤ maxValue - x.amount) ∧
      (x.amount < 0 → minValue - x.amount ≤ balance)

/-- The debit is covered, up to the tolerance. -/
def Covered (x : Posting) : Prop :=
  ∃ balance, x.previous = .ok balance ∧ 0 ≤ balance + x.amount + 100

/-- A balance that a role looks up by key. -/
def byKey (env : Env) (s : InMemory) (confirmedAt : Timestamp) (publicKey : ℕ) (amount : ℤ)
    (coin : ℕ) : Posting :=
  ⟨previousDecayedAccountBalance env s confirmedAt publicKey coin, amount⟩

/-- A balance that a role looks up by the number of the key. -/
def byIndex (env : Env) (s : InMemory) (confirmedAt : Timestamp) (publicKeyIndex : ℕ) (amount : ℤ)
    (coin : ℕ) : Posting :=
  ⟨previousDecayedCompactBalance env s confirmedAt ⟨s.mCommunityIdIndex, publicKeyIndex⟩ coin,
    amount⟩

end Posting

/-- There is room for the postings that are reached: the first debit that is not covered throws. -/
def Rooms : List Posting → Prop
  | [] => True
  | x :: xs => x.Room ∧ (x.Covered → Rooms xs)

/-- The sum of two `GradidoUnit`s is one exactly when the first has room for the second. -/
theorem fits_add_iff {balance amount : ℤ} (hbalance : Fits balance) (hamount : Fits amount) :
    Fits (balance + amount) ↔ (0 ≤ amount → balance ≤ maxValue - amount) ∧
      (amount < 0 → minValue - amount ≤ balance) := by
  obtain ⟨hlow, hhigh⟩ := hbalance
  obtain ⟨hamountLow, hamountHigh⟩ := hamount
  unfold Fits
  constructor
  · intro h
    exact ⟨fun _ => by omega, fun _ => by omega⟩
  · intro h
    obtain hneg | hpos := lt_or_ge amount 0
    · have hroom := h.2 hneg
      exact ⟨by omega, by omega⟩
    · have hroom := h.1 hpos
      exact ⟨by omega, by omega⟩

/-- The tolerance overflows nothing. -/
theorem keeps_recordBalance_iff (previous amount : ℤ) :
    (recordBalance previous amount).Keeps Fits ↔ Fits (previous + amount) := by
  unfold recordBalance
  simp only [keeps_bind, keeps_add, result_add, Except.ok.injEq, forall_eq']
  refine and_iff_left_of_imp (fun hfits => ?_)
  split_ifs with hneg
  · refine (keeps_bind _ _).2 ⟨?_, ?_⟩
    · rw [keeps_add]
      have hlow := hfits.1
      unfold Fits minValue maxValue at *
      omega
    · intro tolerated _
      split_ifs
      · exact keeps_lift _
      · exact keeps_pure _
  · exact keeps_pure _

/-- When `calculateAccountBalance` gets past its check. -/
theorem addToBalance_ok_iff (previous amount : ℤ) :
    (∃ balance, addToBalance previous amount = .ok balance) ↔ 0 ≤ previous + amount + 100 := by
  unfold addToBalance
  dsimp only
  split_ifs with hneg hlimit
  · simp only [exists_false, false_iff]
    omega
  · simp only [Except.ok.injEq, exists_eq', true_iff]
    omega
  · simp only [Except.ok.injEq, exists_eq', true_iff]
    omega

/-- A recorded computation carries out a posting. -/
structure CarriesOut (x : Recorded AccountBalance) (y : Posting) : Prop where
  keeps : x.Keeps Fits ↔ y.Room
  result : (∃ b, x.result = .ok b) ↔ y.Covered

/-- A posting before others. -/
theorem CarriesOut.bind {x : Recorded AccountBalance} {y : Posting} {ys : List Posting}
    (h : CarriesOut x y) {f : AccountBalance → Recorded (List AccountBalance)}
    (hrest : ∀ b, (f b).Keeps Fits ↔ Rooms ys) :
    (x >>= f).Keeps Fits ↔ Rooms (y :: ys) := by
  rw [keeps_bind, Rooms, h.keeps]
  refine and_congr_right (fun _ => ?_)
  simp only [hrest, ← h.result, forall_exists_index]

/-- The last posting. -/
theorem CarriesOut.last {x : Recorded AccountBalance} {y : Posting} (h : CarriesOut x y)
    (f : AccountBalance → List AccountBalance) :
    (x >>= fun b => pure (f b)).Keeps Fits ↔ Rooms [y] :=
  h.bind (fun _ => iff_of_true (keeps_pure _) trivial)

/-- What both functions `calculateAccountBalance` do. -/
theorem carriesOut {y : Posting} (hy : y.HoldsUnits) (f : ℤ → AccountBalance) :
    CarriesOut (lift y.previous >>= fun previous =>
      recordBalance previous y.amount >>= fun balance => pure (f balance)) y where
  keeps := by
    simp only [keeps_bind, keeps_lift, true_and, result_lift, keeps_recordBalance_iff, keeps_pure,
      implies_true, and_true]
    exact forall₂_congr (fun balance hbalance => fits_add_iff (hy.previous balance hbalance)
      hy.amount)
  result := by
    simp only [result_bind, result_lift, result_recordBalance, bind_eq_ok, result_pure,
      Except.ok.injEq]
    constructor
    · rintro ⟨b, previous, hprevious, balance, hbalance, -⟩
      exact ⟨previous, hprevious, (addToBalance_ok_iff _ _).1 ⟨balance, hbalance⟩⟩
    · rintro ⟨previous, hprevious, hcovered⟩
      obtain ⟨balance, hbalance⟩ := (addToBalance_ok_iff _ _).2 hcovered
      exact ⟨f balance, previous, hprevious, balance, hbalance, rfl⟩

section CarriesOut

variable {env : Env} {own : ℕ} {s : InMemory} (hs : s.HoldsUnits) (hunits : DecaysUnits env)
  (confirmedAt : Timestamp)

include hs hunits

theorem carriesOut_byKey (publicKey : ℕ) {amount : ℤ} (hamount : Fits amount) (coin : ℕ) :
    CarriesOut (recordAccountBalance env s confirmedAt publicKey amount coin)
      (.byKey env s confirmedAt publicKey amount coin) :=
  carriesOut (y := .byKey env s confirmedAt publicKey amount coin)
    ⟨fun _ => fits_previous hs hunits, hamount⟩ _

theorem carriesOut_byIndex (hcompact : s.Compacted env own) (publicKeyIndex : ℕ) {amount : ℤ}
    (hamount : Fits amount) (coin : ℕ) :
    CarriesOut (recordIndexBalance env s confirmedAt publicKeyIndex amount coin)
      (.byIndex env s confirmedAt publicKeyIndex amount coin) :=
  carriesOut (y := .byIndex env s confirmedAt publicKeyIndex amount coin)
    ⟨fun _ => fits_previousCompact hs hunits hcompact, hamount⟩ _

end CarriesOut

/-! ### The postings of the roles -/

section Posts

variable (env : Env) (s : InMemory) (confirmedAt : Timestamp)

/-- The postings of a transfer. -/
def transferPostings (type : CrossGroupType) (t : GradidoTransfer) : List Posting :=
  let coin := t.sender.coinCommunityIdIndex
  let sender := Posting.byKey env s confirmedAt t.sender.publicKey (-t.sender.amount) coin
  let recipient := Posting.byKey env s confirmedAt t.recipient t.sender.amount coin
  match type with
  | .localGroup => [sender, recipient]
  | .outbound => [sender]
  | .inbound => [recipient]
  | .cross => []

/-- The postings of a redeem of what was deferred by `origin` and is worth `decayed` by now. -/
def redeemPostings (type : CrossGroupType) (t : GradidoTransfer) (origin : ℕ) (decayed : ℤ) :
    List Posting :=
  let coin := t.sender.coinCommunityIdIndex
  let recipient := Posting.byKey env s confirmedAt t.recipient t.sender.amount coin
  let change := Posting.byKey env s confirmedAt origin (decayed - t.sender.amount) coin
  if t.recipient = origin then [Posting.byKey env s confirmedAt t.recipient decayed coin]
  else
    match type with
    | .localGroup => [recipient, change]
    | .outbound => [change]
    | .inbound => [recipient]
    | .cross => []

/-- What the role of a body adds to which balances, in the order in which it looks them up. -/
def Posts (body : TransactionBody) (l : List Posting) : Prop :=
  match body.specific with
  | .creation c => ∃ first root, s.findOne env .FIRST_TRANSACTION = .ok (some first) ∧
      first.body.getCommunityRoot = some root ∧
      l = [.byKey env s confirmedAt c.recipient.publicKey c.recipient.amount
            c.recipient.coinCommunityIdIndex,
          .byIndex env s confirmedAt
            (env.dict.index first.gradidoTransaction.communityIdIndex root.gmwPublicKey)
            c.recipient.amount c.recipient.coinCommunityIdIndex,
          .byIndex env s confirmedAt
            (env.dict.index first.gradidoTransaction.communityIdIndex root.aufPublicKey)
            c.recipient.amount c.recipient.coinCommunityIdIndex]
  | .transfer t => l = transferPostings env s confirmedAt body.type t
  | .deferredTransfer d => l = transferPostings env s confirmedAt .localGroup d.transfer
  | .redeemDeferredTransfer r => ∃ entry d decayed,
      Settling env s confirmedAt r.deferredTransferTransactionNr entry d decayed ∧
      l = redeemPostings env s confirmedAt body.type r.transfer d.transfer.sender.publicKey decayed
  | .timeoutDeferredTransfer nr => ∃ entry d decayed,
      Settling env s confirmedAt nr entry d decayed ∧
      l = [.byKey env s confirmedAt d.transfer.sender.publicKey decayed
        d.transfer.sender.coinCommunityIdIndex]
  | _ => l = []

end Posts

/-- What is left of a deferred transfer is a `GradidoUnit`. -/
theorem fits_change {decayed amount : ℤ} (hdecayed : Fits decayed) (hnonneg : 0 ≤ decayed)
    (hamount : Fits amount) (hpos : 0 < amount) : Fits (decayed - amount) := by
  unfold Fits minValue maxValue at *
  omega

/-- A settlement by its lookups. -/
theorem forall_settling {env : Env} {s : InMemory} {confirmedAt : Timestamp} {nr : ℕ}
    {P : GradidoDeferredTransfer → ℤ → Prop} :
    (∀ entry, s.mTransactionsByNr nr = some entry → ∀ d, entry.body.getDeferredTransfer = some d →
      ∀ decayed, env.calculateDecay d.transfer.sender.amount entry.confirmedAt.getAsTimepoint
        confirmedAt.getAsTimepoint = .ok decayed → P d decayed) ↔
      ∀ entry d decayed, Settling env s confirmedAt nr entry d decayed → P d decayed := by
  constructor
  · intro h entry d decayed hsettling
    exact h entry hsettling.byNr d
      (TransactionBody.getDeferredTransfer_eq_some.2 hsettling.deferred) decayed hsettling.worth
  · intro h entry hentry d hd decayed hdecayed
    exact h entry d decayed
      ⟨hentry, TransactionBody.getDeferredTransfer_eq_some.1 hd, hdecayed⟩

section Keeps

variable {env : Env} {own : ℕ} {s : InMemory} {confirmedAt : Timestamp} (hs : s.HoldsUnits)
  (hcompact : s.Compacted env own) (hunits : DecaysUnits env)

include hs hunits

theorem keeps_recordTransfer_iff (type : CrossGroupType) {t : GradidoTransfer}
    (hamount : Fits t.sender.amount) (hpos : 0 < t.sender.amount) :
    (recordTransfer env s confirmedAt type t).Keeps Fits ↔
      Rooms (transferPostings env s confirmedAt type t) := by
  have hdebit : Fits (-t.sender.amount) := by
    unfold Fits minValue maxValue at *
    omega
  have hsender := carriesOut_byKey hs hunits confirmedAt t.sender.publicKey hdebit
    t.sender.coinCommunityIdIndex
  have hrecipient := carriesOut_byKey hs hunits confirmedAt t.recipient hamount
    t.sender.coinCommunityIdIndex
  cases type with
  | localGroup =>
    simp only [recordTransfer, transferPostings]
    rw [keeps_bind, keeps_negated, and_iff_right hdebit]
    simp only [result_negated, Except.ok.injEq, forall_eq']
    exact hsender.bind (fun b => hrecipient.last _)
  | outbound =>
    simp only [recordTransfer, transferPostings]
    rw [keeps_bind, keeps_negated, and_iff_right hdebit]
    simp only [result_negated, Except.ok.injEq, forall_eq']
    exact hsender.last _
  | inbound => exact hrecipient.last _
  | cross => exact iff_of_true (keeps_lift _) trivial

theorem keeps_recordDeferredTransfer_iff {d : GradidoDeferredTransfer}
    (hamount : Fits d.transfer.sender.amount) (hpos : 0 < d.transfer.sender.amount) :
    (recordDeferredTransfer env s confirmedAt d).Keeps Fits ↔
      Rooms (transferPostings env s confirmedAt .localGroup d.transfer) :=
  keeps_recordTransfer_iff hs hunits .localGroup hamount hpos

theorem keeps_recordRedeem_iff (type : CrossGroupType) {r : GradidoRedeemDeferredTransfer}
    (hamount : Fits r.transfer.sender.amount) (hpos : 0 < r.transfer.sender.amount)
    (hworth : ∀ entry d decayed, Settling env s confirmedAt r.deferredTransferTransactionNr entry d
      decayed → Fits decayed ∧ 0 ≤ decayed) :
    (recordRedeem env s confirmedAt type r).Keeps Fits ↔ ∀ entry d decayed,
      Settling env s confirmedAt r.deferredTransferTransactionNr entry d decayed →
      Rooms (redeemPostings env s confirmedAt type r.transfer d.transfer.sender.publicKey
        decayed) := by
  rw [← forall_settling] at hworth ⊢
  simp only [recordRedeem, keeps_lift_bind, orThrow_eq_ok]
  refine forall₂_congr (fun entry hentry => forall₂_congr (fun d hd =>
    forall₂_congr (fun decayed hdecayed => ?_)))
  obtain ⟨hfits, hnonneg⟩ := hworth entry hentry d hd decayed hdecayed
  have hchange := fits_change hfits hnonneg hamount hpos
  have hrecipient := carriesOut_byKey hs hunits confirmedAt r.transfer.recipient hamount
    r.transfer.sender.coinCommunityIdIndex
  have hsender := carriesOut_byKey hs hunits confirmedAt d.transfer.sender.publicKey hchange
    r.transfer.sender.coinCommunityIdIndex
  rw [keeps_bind, keeps_sub, and_iff_right hchange]
  simp only [result_sub, Except.ok.injEq, forall_eq']
  unfold redeemPostings
  dsimp only
  split_ifs with hback
  · exact (carriesOut_byKey hs hunits confirmedAt r.transfer.recipient hfits _).last _
  · cases type with
    | localGroup => exact hrecipient.bind (fun b => hsender.last _)
    | outbound => exact hsender.last _
    | inbound => exact hrecipient.last _
    | cross => exact iff_of_true (keeps_lift _) trivial

theorem keeps_recordTimeout_iff {nr : ℕ}
    (hworth : ∀ entry d decayed, Settling env s confirmedAt nr entry d decayed → Fits decayed) :
    (recordTimeout env s confirmedAt nr).Keeps Fits ↔ ∀ entry d decayed,
      Settling env s confirmedAt nr entry d decayed →
      Rooms [.byKey env s confirmedAt d.transfer.sender.publicKey decayed
        d.transfer.sender.coinCommunityIdIndex] := by
  rw [← forall_settling] at hworth ⊢
  simp only [recordTimeout, keeps_lift_bind, orThrow_eq_ok]
  refine forall₂_congr (fun entry hentry => forall₂_congr (fun d hd =>
    forall₂_congr (fun decayed hdecayed => ?_)))
  exact (carriesOut_byKey hs hunits confirmedAt d.transfer.sender.publicKey
    (hworth entry hentry d hd decayed hdecayed) _).last _

include hcompact

theorem keeps_recordCreation_iff {c : GradidoCreation} (hamount : Fits c.recipient.amount) :
    (recordCreation env s confirmedAt c).Keeps Fits ↔
      ∀ first, s.findOne env .FIRST_TRANSACTION = .ok (some first) →
        ∀ root, first.body.getCommunityRoot = some root →
        Rooms [.byKey env s confirmedAt c.recipient.publicKey c.recipient.amount
            c.recipient.coinCommunityIdIndex,
          .byIndex env s confirmedAt
            (env.dict.index first.gradidoTransaction.communityIdIndex root.gmwPublicKey)
            c.recipient.amount c.recipient.coinCommunityIdIndex,
          .byIndex env s confirmedAt
            (env.dict.index first.gradidoTransaction.communityIdIndex root.aufPublicKey)
            c.recipient.amount c.recipient.coinCommunityIdIndex] := by
  have hfound : ∀ {P : ConfirmedTransaction → Prop},
      (∀ found, s.findOne env .FIRST_TRANSACTION = .ok found → ∀ first, found = some first →
        P first) ↔ ∀ first, s.findOne env .FIRST_TRANSACTION = .ok (some first) → P first := by
    intro P
    constructor
    · exact fun h first hfirst => h _ hfirst first rfl
    · rintro h _ hfirst first rfl
      exact h first hfirst
  simp only [recordCreation, keeps_lift_bind, orThrow_eq_ok, hfound]
  refine forall₂_congr (fun first _ => forall₂_congr (fun root _ => ?_))
  exact (carriesOut_byKey hs hunits confirmedAt _ hamount _).bind (fun _ =>
    (carriesOut_byIndex hs hunits confirmedAt hcompact _ hamount _).bind (fun _ =>
      (carriesOut_byIndex hs hunits confirmedAt hcompact _ hamount _).last _))

/-- **Balances.**  No operator of the role of a body overflows exactly when there is room for its
postings. -/
theorem keeps_recordAccountBalances_iff (hdecay : DecaysNonneg env)
    (hdeferred : ∀ nr entry d, s.mTransactionsByNr nr = some entry →
      entry.body.specific = .deferredTransfer d → 0 ≤ d.transfer.sender.amount)
    {body : TransactionBody} (hbody : body.HoldsUnits)
    (hpos : ∀ t, body.getTransferAmount = .ok t → 0 < t.amount) :
    (recordAccountBalances env s confirmedAt body).Keeps Fits ↔
      ∀ l, Posts env s confirmedAt body l → Rooms l := by
  have hworth : ∀ nr entry d decayed, Settling env s confirmedAt nr entry d decayed →
      Fits decayed ∧ 0 ≤ decayed := by
    intro nr entry d decayed h
    have hamount : Fits d.transfer.sender.amount := by
      refine hs.amounts nr entry h.byNr d.transfer.sender ?_
      rw [TransactionBody.getTransferAmount, h.deferred]
    refine ⟨hunits.calculateDecay hamount h.worth, ?_⟩
    obtain ⟨seconds, rfl⟩ := exists_decay h.worth
    exact hdecay _ _ (hdeferred nr entry d h.byNr h.deferred)
  unfold recordAccountBalances Posts
  unfold TransactionBody.HoldsUnits TransactionBody.getTransferAmount at hbody
  unfold TransactionBody.getTransferAmount at hpos
  cases hspecific : body.specific with
  | creation c =>
    rw [hspecific] at hbody hpos
    dsimp only
    rw [keeps_recordCreation_iff hs hcompact hunits (hbody _ rfl)]
    constructor
    · rintro h l ⟨first, root, hfirst, hroot, rfl⟩
      exact h first hfirst root hroot
    · intro h first hfirst root hroot
      exact h _ ⟨first, root, hfirst, hroot, rfl⟩
  | transfer t =>
    rw [hspecific] at hbody hpos
    simp only [forall_eq]
    exact keeps_recordTransfer_iff hs hunits body.type (hbody _ rfl) (hpos _ rfl)
  | deferredTransfer d =>
    rw [hspecific] at hbody hpos
    simp only [forall_eq]
    exact keeps_recordDeferredTransfer_iff hs hunits (hbody _ rfl) (hpos _ rfl)
  | redeemDeferredTransfer r =>
    rw [hspecific] at hbody hpos
    dsimp only
    rw [keeps_recordRedeem_iff hs hunits body.type (hbody _ rfl) (hpos _ rfl) (hworth _)]
    constructor
    · rintro h l ⟨entry, d, decayed, hsettling, rfl⟩
      exact h entry d decayed hsettling
    · intro h entry d decayed hsettling
      exact h _ ⟨entry, d, decayed, hsettling, rfl⟩
  | timeoutDeferredTransfer nr =>
    dsimp only
    rw [keeps_recordTimeout_iff hs hunits
      (fun entry d decayed h => (hworth nr entry d decayed h).1)]
    constructor
    · rintro h l ⟨entry, d, decayed, hsettling, rfl⟩
      exact h entry d decayed hsettling
    · intro h entry d decayed hsettling
      exact h _ ⟨entry, d, decayed, hsettling, rfl⟩
  | communityRoot | registerAddress | communityFriendsUpdate | none =>
    exact iff_of_true (keeps_pure _) (fun l hl => hl ▸ trivial)

end Keeps

/-! ### Stored balances -/

/-- With room for a posting, its new balance is a `GradidoUnit`, and there is room for the next
ones. -/
theorem Rooms.step {y : Posting} {ys : List Posting} (h : Rooms (y :: ys)) {previous balance : ℤ}
    (hfits : Fits previous) (hprevious : y.previous = .ok previous)
    (hbalance : addToBalance previous y.amount = .ok balance) : Fits balance ∧ Rooms ys := by
  obtain ⟨hroom, hrest⟩ := h
  have hspec := addToBalance_spec hbalance
  refine ⟨?_, hrest ⟨previous, hprevious, (addToBalance_ok_iff _ _).1 ⟨balance, hbalance⟩⟩⟩
  obtain ⟨hcredit, -⟩ := hroom previous hprevious
  unfold Fits minValue maxValue at *
  omega

section Stored

variable {env : Env} {own : ℕ} {s : InMemory} {confirmedAt : Timestamp} (hs : s.HoldsUnits)
  (hunits : DecaysUnits env) {ys : List Posting} {amount : ℤ} {coin : ℕ} {b : AccountBalance}

include hs hunits

theorem Rooms.byKey {publicKey : ℕ}
    (h : Rooms (.byKey env s confirmedAt publicKey amount coin :: ys))
    (hb : calculateAccountBalance env s confirmedAt publicKey amount coin = .ok b) :
    Fits b.balance ∧ Rooms ys := by
  obtain ⟨-, -, previous, hprevious, hbalance⟩ := calculateAccountBalance_spec hb
  exact h.step (fits_previous hs hunits hprevious) hprevious hbalance

theorem Rooms.byIndex (hcompact : s.Compacted env own) {publicKeyIndex : ℕ}
    (h : Rooms (.byIndex env s confirmedAt publicKeyIndex amount coin :: ys))
    (hb : accountBalanceFromPublicKeyIndex env s confirmedAt publicKeyIndex amount coin = .ok b) :
    Fits b.balance ∧ Rooms ys := by
  obtain ⟨-, -, previous, hprevious, hbalance⟩ := accountBalanceFromPublicKeyIndex_spec hb
  exact h.step (fits_previousCompact hs hunits hcompact hprevious) hprevious hbalance

/-- With room for the postings, the balances of a role are `GradidoUnit`s. -/
theorem fits_computed (hcompact : s.Compacted env own) {body : TransactionBody}
    {balances : List AccountBalance} (h : Computed env s confirmedAt body balances)
    (hroom : ∀ l, Posts env s confirmedAt body l → Rooms l) :
    ∀ b ∈ balances, Fits b.balance := by
  cases h with
  | nothing => simp
  | communityRoot hr => simp [communityRootBalances, fits_zero]
  | registerAddress hr =>
    unfold registerAddressBalances
    split_ifs <;> simp [fits_zero]
  | creation hc hfirst hroot hrecipient hgmw hauf =>
    simp only [Posts, hc] at hroom
    have hrooms := hroom _ ⟨_, _, hfirst, TransactionBody.getCommunityRoot_eq_some.2 hroot, rfl⟩
    obtain ⟨hfits₁, hrooms⟩ := hrooms.byKey hs hunits hrecipient
    obtain ⟨hfits₂, hrooms⟩ := hrooms.byIndex hs hunits hcompact hgmw
    obtain ⟨hfits₃, -⟩ := hrooms.byIndex hs hunits hcompact hauf
    simp [hfits₁, hfits₂, hfits₃]
  | transfer ht htype hsender hrecipient =>
    simp only [Posts, ht, htype, transferPostings, forall_eq] at hroom
    obtain ⟨hfits, hroom⟩ := hroom.byKey hs hunits hsender
    simp [hfits, (hroom.byKey hs hunits hrecipient).1]
  | outboundTransfer ht htype hsender =>
    simp only [Posts, ht, htype, transferPostings, forall_eq] at hroom
    simp [(hroom.byKey hs hunits hsender).1]
  | inboundTransfer ht htype hrecipient =>
    simp only [Posts, ht, htype, transferPostings, forall_eq] at hroom
    simp [(hroom.byKey hs hunits hrecipient).1]
  | deferredTransfer hd hsender hrecipient =>
    simp only [Posts, hd, transferPostings, forall_eq] at hroom
    obtain ⟨hfits, hroom⟩ := hroom.byKey hs hunits hsender
    simp [hfits, (hroom.byKey hs hunits hrecipient).1]
  | redeemBack hr hsettling hback hrecipient =>
    simp only [Posts, hr, redeemPostings] at hroom
    have hrooms := hroom _ ⟨_, _, _, hsettling, rfl⟩
    rw [if_pos hback] at hrooms
    simp [fits_zero, (hrooms.byKey hs hunits hrecipient).1]
  | redeem hr htype hsettling hne hrecipient hsender =>
    simp only [Posts, hr, htype, redeemPostings] at hroom
    have hrooms := hroom _ ⟨_, _, _, hsettling, rfl⟩
    rw [if_neg hne] at hrooms
    obtain ⟨hfits, hrooms⟩ := hrooms.byKey hs hunits hrecipient
    simp [fits_zero, hfits, (hrooms.byKey hs hunits hsender).1]
  | outboundRedeem hr htype hsettling hne hsender =>
    simp only [Posts, hr, htype, redeemPostings] at hroom
    have hrooms := hroom _ ⟨_, _, _, hsettling, rfl⟩
    rw [if_neg hne] at hrooms
    simp [fits_zero, (hrooms.byKey hs hunits hsender).1]
  | inboundRedeem hr htype hsettling hne hrecipient =>
    simp only [Posts, hr, htype, redeemPostings] at hroom
    have hrooms := hroom _ ⟨_, _, _, hsettling, rfl⟩
    rw [if_neg hne] at hrooms
    simp [(hrooms.byKey hs hunits hrecipient).1]
  | timeout hnr hsettling hsender =>
    simp only [Posts, hnr] at hroom
    have hrooms := hroom _ ⟨_, _, _, hsettling, rfl⟩
    simp [fits_zero, (hrooms.byKey hs hunits hsender).1]

end Stored

/-! ### One transaction -/

namespace ConfirmTransaction

/-- The transfer that `GradidoTransferRole::run` is called with. -/
def checkedTransfer (body : TransactionBody) : Option GradidoTransfer :=
  match body.specific with
  | .transfer t => some t
  | .deferredTransfer d => some d.transfer
  | .redeemDeferredTransfer r => some r.transfer
  | _ => none

/-- `validatePrevious` is called for a role, with the chain of the sender, a transfer and the
previous transaction. -/
structure ChecksBalance (p : InMemoryProvider) (community : ℕ) (role : Role) (s : InMemory)
    (t : GradidoTransfer) (previous : ConfirmedTransaction) : Prop where
  level : (validationType role (p.findBlockchain community).mLastTransaction).previousBalance = true
  transfer : checkedTransfer role.mBody = some t
  context : ∃ c, Validate.prepareContext p role.mGradidoTransaction
      (.ofSender (p.findBlockchain community) (p.findBlockchain community).mLastTransaction) =
        .ok c ∧
    c.senderBlockchain = s ∧ c.senderPrevious = some previous

/-- No operator overflows in `calculateAccountBalances` of a role nor in `validatePrevious`. -/
structure NoOverflow (env : Env) (p : InMemoryProvider) (community : ℕ) (role : Role) : Prop where
  balances : role.mAccountBalances = none → (recordAccountBalances env
    (p.findBlockchain community) role.mConfirmedAt role.mBody).Keeps Fits
  previous : ∀ s t previous, ChecksBalance p community role s t previous →
    (Validate.recordPrevious env s t (Validate.estimatedConfirmedAt role.mBody) previous).Keeps Fits

/-- The balances that a role changes have room for the amounts, and the balance of the sender has
room for the tolerance. -/
structure HasRoom (env : Env) (p : InMemoryProvider) (community : ℕ) (role : Role) : Prop where
  balances : role.mAccountBalances = none → ∀ l,
    Posts env (p.findBlockchain community) role.mConfirmedAt role.mBody l → Rooms l
  previous : ∀ s t previous, ChecksBalance p community role s t previous → ∀ balance,
    CalculateAccountBalance.fromEnd env s t.sender.publicKey
      (Validate.estimatedConfirmedAt role.mBody) (some t.sender.coinCommunityIdIndex) previous.id =
        .ok balance → balance ≤ maxValue - 100

/-- The states that calls lead to when every confirmed transaction meets a condition in the state
that it is confirmed in. -/
inductive ReachableWithin (env : Env) (direct : ℕ → Role → Prop)
    (step : InMemoryProvider → ℕ → Role → Prop) : InMemoryProvider → Prop
  | empty : ReachableWithin env direct step .empty
  | drop {p : InMemoryProvider} {community : ℕ} {endDate : Timestamp}
      {event : TransactionTriggerEvent} :
      ReachableWithin env direct step p →
      nextEvent (p.findBlockchain community) endDate = some event →
      ReachableWithin env direct step (dropEvent p community event)
  | fire {p q : InMemoryProvider} {community : ℕ} {endDate : Timestamp}
      {event : TransactionTriggerEvent} {tx : ConfirmedTransaction} :
      ReachableWithin env direct step p →
      nextEvent (p.findBlockchain community) endDate = some event →
      Triggered env community (dropEvent p community event) q → ReachableWithin env direct step q →
      Confirms env community (eventRole community event) (dropEvent p community event) q tx →
      step q community (eventRole community event) →
      ReachableWithin env direct step (added env q community tx)
  | call {p q : InMemoryProvider} {community : ℕ} {role : Role} {tx : ConfirmedTransaction} :
      ReachableWithin env direct step p → direct community role →
      Triggered env community p q → ReachableWithin env direct step q →
      Confirms env community role p q tx → step q community role →
      ReachableWithin env direct step (added env q community tx)

section Run

variable {env : Env} {direct : ℕ → Role → Prop} {step : InMemoryProvider → ℕ → Role → Prop}
  {p : InMemoryProvider}

/-- Such a state is reachable. -/
theorem ReachableWithin.reachable (h : ReachableWithin env direct step p) :
    Reachable env direct p := by
  induction h with
  | empty => exact .empty
  | drop _ hevent ih => exact .failed ih (.drop (.refl _) hevent)
  | fire _ hevent htriggered _ htx _ ih => exact .failed ih (.fire (.refl _) hevent htriggered htx)
  | call _ hrole htriggered _ htx _ ih => exact .confirmed ih hrole htriggered htx

/-- Without a condition these are all reachable states. -/
theorem reachableWithin_iff :
    ReachableWithin env direct (fun _ _ _ => True) p ↔ Reachable env direct p := by
  refine ⟨ReachableWithin.reachable, fun h => ?_⟩
  refine h.invariant .empty ?_ ?_
  · intro community endDate event p hp hevent
    exact .drop hp hevent
  · intro community role p q tx hp hq htriggered htx horigin
    cases horigin with
    | call hrole => exact .call hp hrole htriggered hq htx trivial
    | event hp₁ hevent => exact .fire hp₁ hevent htriggered hq htx trivial

end Run

/-! ### Runs -/

/-- The positive amount of a transaction that passed the simple validation. -/
theorem amount_pos {env : Env} {p : InMemoryProvider} {community : ℕ} {disableVerify : Bool}
    {role : Role} (h : validateSingle env p community disableVerify role = .ok ())
    {t : TransferAmount} (ht : role.mBody.getTransferAmount = .ok t) : 0 < t.amount := by
  simp only [validateSingle, bind_eq_ok, exists_unit] at h
  obtain ⟨c, hc⟩ := Validate.gradidoTransactionRole_spec h.1
  have hspecific : Validate.specificRole env { single := true } c role.mBody = .ok () := hc.specific
  unfold TransactionBody.getTransferAmount at ht
  cases hbody : role.mBody.specific with
  | creation creation =>
    rw [hbody, Except.ok.injEq] at ht
    exact ht ▸ (Validate.creation_checked hspecific hbody).1
  | transfer transfer =>
    rw [hbody, Except.ok.injEq] at ht
    exact ht ▸ (Validate.transfer_checked hspecific hbody).amount
  | deferredTransfer d =>
    rw [hbody, Except.ok.injEq] at ht
    exact ht ▸ (Validate.deferred_checked hspecific hbody).amount
  | redeemDeferredTransfer r =>
    rw [hbody, Except.ok.injEq] at ht
    exact ht ▸ (Validate.redeem_checked hspecific hbody).amount
  | communityRoot | registerAddress | timeoutDeferredTransfer | communityFriendsUpdate | none =>
    simp [hbody] at ht

section Run

variable {env : Env} {p q : InMemoryProvider} {community : ℕ} {role : Role}

/-- The role of a trigger event has no amount. -/
theorem eventRole_holdsUnits (community : ℕ) (event : TransactionTriggerEvent) :
    (eventRole community event).HoldsUnits where
  amounts := by
    intro t ht
    simp [eventRole, createTransactionByEvent, Role.mBody, TransactionBody.getTransferAmount] at ht
  given := by
    intro balances hgiven
    simp [eventRole] at hgiven

/-- **Step.**  A confirmed transaction that had room stores `GradidoUnit`s. -/
theorem holdsUnits_added {tx : ConfirmedTransaction} (hunits : DecaysUnits env)
    (hcompact : ∀ i, (q.findBlockchain i).Compacted env i)
    (hq : ∀ i, (q.findBlockchain i).HoldsUnits) (hrole : role.HoldsUnits)
    (hb : Built env q community role tx) (hroom : HasRoom env q community role) (i : ℕ) :
    ((added env q community tx).findBlockchain i).HoldsUnits := by
  by_cases hi : i = community
  · subst hi
    rw [findBlockchain_added]
    have hbalances : ∀ b ∈ tx.accountBalances, Fits b.balance := by
      have hcomputed := hb.accountBalances
      unfold roleAccountBalances at hcomputed
      cases hgiven : role.mAccountBalances with
      | some balances =>
        rw [hgiven, Except.ok.injEq] at hcomputed
        exact hcomputed ▸ hrole.given balances hgiven
      | none =>
        rw [hgiven] at hcomputed
        exact fits_computed (hq i) hunits (hcompact i) (computed_of_ok hcomputed)
          (hroom.balances hgiven)
    have hstored : ∀ nr stored,
        (addToBlockchain env (q.findBlockchain i) tx).1.mTransactionsByNr nr = some stored →
        (q.findBlockchain i).mTransactionsByNr nr = some stored ∨ stored = tx := by
      intro nr stored h
      rw [InMemory.addToBlockchain_mTransactionsByNr, InMemory.insertNew] at h
      split_ifs at h
      · exact .inl h
      · by_cases hnr : nr = tx.id
        · subst hnr
          rw [Function.update_self, Option.some.injEq] at h
          exact .inr h.symm
        · rw [Function.update_of_ne hnr] at h
          exact .inl h
    refine ⟨fun nr stored h => ?_, fun nr stored h => ?_⟩
    · obtain hold | rfl := hstored nr stored h
      · exact (hq i).balances nr stored hold
      · exact hbalances
    · obtain hold | rfl := hstored nr stored h
      · exact (hq i).amounts nr stored hold
      · rw [← hb.body_eq]
        exact hrole.amounts
  · rw [findBlockchain_added_of_ne _ _ _ hi]
    exact hq i

/-- **Run.**  As long as every transaction had room, all stored `GradidoUnit`s are some. -/
theorem ReachableWithin.holdsUnits (hunits : DecaysUnits env)
    (h : ReachableWithin env (fun _ role => role.HoldsUnits) (HasRoom env) p) :
    ∀ i, (p.findBlockchain i).HoldsUnits := by
  induction h with
  | empty =>
    intro i
    refine ⟨fun nr tx h => ?_, fun nr tx h => ?_⟩ <;>
      simp [InMemoryProvider.empty, InMemoryProvider.findBlockchain, InMemory.empty] at h
  | @drop p community endDate event _ _ ih =>
    intro i
    by_cases hi : i = community
    · subst hi
      rw [findBlockchain_dropEvent]
      exact ⟨(ih i).balances, (ih i).amounts⟩
    · rw [findBlockchain_dropEvent_of_ne _ _ hi]
      exact ih i
  | fire _ _ _ hq htx hroom _ ih =>
    exact holdsUnits_added hunits hq.reachable.compacted ih (eventRole_holdsUnits _ _)
      (confirm_spec htx.confirm) hroom
  | call _ hrole _ hq htx hroom _ ih =>
    exact holdsUnits_added hunits hq.reachable.compacted ih hrole (confirm_spec htx.confirm) hroom

theorem keeps_recordPrevious_iff {s : InMemory} {own : ℕ} (hs : s.HoldsUnits)
    (hunits : DecaysUnits env) (hcompact : s.Compacted env own) {t : GradidoTransfer}
    {confirmedAt : Timestamp} {previous : ConfirmedTransaction} :
    (Validate.recordPrevious env s t confirmedAt previous).Keeps Fits ↔ ∀ balance,
      CalculateAccountBalance.fromEnd env s t.sender.publicKey confirmedAt
        (some t.sender.coinCommunityIdIndex) previous.id = .ok balance →
        balance ≤ maxValue - 100 := by
  simp only [Validate.recordPrevious, keeps_lift_bind]
  refine forall₂_congr (fun balance hbalance => ?_)
  have hlow := (fits_fromEnd hs hunits hcompact hbalance).1
  rw [keeps_bind, keeps_add]
  simp only [keeps_lift, implies_true, and_true]
  unfold Fits minValue maxValue at *
  omega

/-- The chain of the sender is one of the provider. -/
theorem ChecksBalance.exists_findBlockchain {s : InMemory} {t : GradidoTransfer}
    {previous : ConfirmedTransaction} (h : ChecksBalance q community role s t previous) :
    ∃ i, s = q.findBlockchain i := by
  obtain ⟨c, hc, rfl, -⟩ := h.context
  obtain ⟨-, rfl⟩ | ⟨other, -, -, -, -, hcase⟩ := Validate.prepareContext_spec hc
  · exact ⟨community, rfl⟩
  · obtain ⟨-, hsender, -⟩ | ⟨-, hsender, -⟩ | ⟨-, -, hsender, -⟩ := hcase
    · exact ⟨other, hsender⟩
    · exact ⟨community, hsender⟩
    · exact ⟨community, hsender⟩

/-- **Main theorem.**  In a run in which every confirmed transaction had room, no operator overflows
for the next transaction that passes the simple validation exactly when it has room. -/
theorem noOverflow_iff {disableVerify : Bool} (hunits : DecaysUnits env)
    (hdecay : DecaysNonneg env)
    (hq : ReachableWithin env (fun _ role => role.HoldsUnits) (HasRoom env) q)
    (hrole : role.HoldsUnits)
    (hsingle : validateSingle env p community disableVerify role = .ok ()) :
    NoOverflow env q community role ↔ HasRoom env q community role := by
  have hs := hq.holdsUnits hunits
  have hcompact := hq.reachable.compacted
  have hdeferred : ∀ nr entry d, (q.findBlockchain community).mTransactionsByNr nr = some entry →
      entry.body.specific = .deferredTransfer d → 0 ≤ d.transfer.sender.amount := by
    intro nr entry d hentry hd
    have hmem := (hq.reachable.logged.represents community).mem_of_byNr hentry
    exact (hq.reachable.deferred_checked community entry hmem.1 d hd).amount.le
  have hbalances : (recordAccountBalances env (q.findBlockchain community) role.mConfirmedAt
      role.mBody).Keeps Fits ↔ _ :=
    keeps_recordAccountBalances_iff (hs community) (hcompact community) hunits hdecay hdeferred
      hrole.amounts (fun t ht => amount_pos hsingle ht)
  constructor
  · intro h
    refine ⟨fun hgiven => hbalances.1 (h.balances hgiven), ?_⟩
    intro s t previous hchecks
    obtain ⟨i, rfl⟩ := hchecks.exists_findBlockchain
    exact (keeps_recordPrevious_iff (hs i) hunits (hcompact i)).1 (h.previous _ t previous hchecks)
  · intro h
    refine ⟨fun hgiven => hbalances.2 (h.balances hgiven), ?_⟩
    intro s t previous hchecks
    obtain ⟨i, rfl⟩ := hchecks.exists_findBlockchain
    exact (keeps_recordPrevious_iff (hs i) hunits (hcompact i)).2 (h.previous _ t previous hchecks)

end Run

end ConfirmTransaction

/-! ### The largest amount -/

namespace Sample

/-- Nothing decays. -/
theorem decaysUnits : DecaysUnits env := fun _ _ h => h

/-- A thousand coins are created for account `11`. -/
def created : List Call :=
  setup ++
    [call 4 200 (transaction 200 (signedByKey 21) [memo]
      (.creation ⟨⟨11, 10000000, 1⟩, midnight⟩))]

/-- A transfer of the largest amount from key `12` to account `11`. -/
def largest (type : CrossGroupType) (other : Option ℕ) : Role where
  mGradidoTransaction :=
    let tx := transaction 300 (signedByKey 12) [memo] (.transfer ⟨⟨12, maxValue, 1⟩, 11⟩)
    { tx with body := { tx.body with
      type := type
      otherCommunityIdIndex := other } }
  mLedgerAnchor := .legacyGradidoDb .transaction 5
  mConfirmedAt := ⟨midnight + 43200 + 300, 0⟩

theorem largest_holdsUnits (type : CrossGroupType) (other : Option ℕ) :
    (largest type other).HoldsUnits where
  amounts := by
    intro t ht
    obtain rfl : (⟨12, maxValue, 1⟩ : TransferAmount) = t := Except.ok.inj ht
    decide
  given := by
    intro balances hgiven
    cases hgiven

/-- Account `11` has no room for the largest amount: an inbound transfer of it passes the simple
validation, and the balance of the recipient overflows before anything looks for its pair. -/
theorem largest_overflows :
    ¬ ∀ p, Reachable env (CalledRole created) p → ∀ role : Role, role.HoldsUnits →
      validateSingle env p 1 false role = .ok () → NoOverflow env p 1 role := by
  intro h
  have hsingle : validateSingle env (run env created) 1 false (largest .inbound (some 2)) =
      .ok () := by
    decide +kernel
  have hkeeps := (h _ (reachable_run env created) _ (largest_holdsUnits _ _) hsingle).balances rfl
  revert hkeeps
  decide +kernel

/-- On the empty chain a local transfer of the largest amount overflows nothing, although it is
rejected. -/
theorem largest_noOverflow : NoOverflow env .empty 1 (largest .localGroup none) := by
  have hsingle : validateSingle env .empty 1 false (largest .localGroup none) = .ok () := by
    decide +kernel
  refine (noOverflow_iff decaysUnits decaysNonneg .empty (largest_holdsUnits _ _) hsingle).2
    ⟨fun _ l hl => ?_, fun s t previous hchecks => ?_⟩
  · obtain rfl : l = transferPostings env (InMemoryProvider.empty.findBlockchain 1)
        (largest .localGroup none).mConfirmedAt .localGroup ⟨⟨12, maxValue, 1⟩, 11⟩ := hl
    have hsender : (Posting.byKey env (InMemoryProvider.empty.findBlockchain 1)
        (largest .localGroup none).mConfirmedAt 12 (-maxValue) 1).previous = .ok 0 := by
      decide +kernel
    have hrecipient : (Posting.byKey env (InMemoryProvider.empty.findBlockchain 1)
        (largest .localGroup none).mConfirmedAt 11 maxValue 1).previous = .ok 0 := by
      decide +kernel
    refine ⟨fun balance hbalance => ?_, fun _ => ⟨fun balance hbalance => ?_, fun _ => trivial⟩⟩
    · obtain rfl : 0 = balance := Except.ok.inj (hsender.symm.trans hbalance)
      decide
    · obtain rfl : 0 = balance := Except.ok.inj (hrecipient.symm.trans hbalance)
      decide
  · exact absurd hchecks.level (by decide)

end Sample

end Gradido
