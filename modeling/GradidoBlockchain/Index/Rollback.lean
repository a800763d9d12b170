import GradidoBlockchain.Index.ByMonth

/-!
# What an insertion that throws leaves behind

The indexes update the bounds of the numbers, the tables and the address index
one after the other, with checks between them that throw, and undo nothing.
`insertions_keepState_iff` says for which insertions that makes no difference:
those that do not throw, and those before whose exception nothing was new.
-/

namespace Gradido

open Checked

/-! ### The address index -/

namespace AddressIndex

variable {a : AddressIndex} {c : ConfirmedGradidoTx} {k nr : ℕ} {t : AddressType}

/-- A key was given another type. -/
def HasOtherType (a : AddressIndex) (k : ℕ) (t : AddressType) : Prop :=
  ∃ data ∈ a.mIndexTransactionNrs k, data.addressType ≠ t

/-- A number is entered for a key. -/
def Entered (a : AddressIndex) (k nr : ℕ) : Prop :=
  ∃ data ∈ a.mIndexTransactionNrs k, nr ∈ data.transactionNrs

theorem addTransactionNrForIndex_of_otherType (h : a.HasOtherType k t) (nr : ℕ) :
    ∃ e, a.addTransactionNrForIndex k nr t = (a, .error e) := by
  obtain ⟨data, hdata, hother⟩ := h
  refine ⟨.gradidoNodeInvalidData "AddressIndex: address type changed, currently not expected!", ?_⟩
  unfold addTransactionNrForIndex
  rw [Option.mem_def.1 hdata]
  exact if_pos (Ne.symm hother)

/-- What an entry does for a key whose type does not change. -/
theorem addTransactionNrForIndex_of_sameType (h : ¬ a.HasOtherType k t) (nr : ℕ) :
    (a.addTransactionNrForIndex k nr t).2 = .ok () ∧
      (∀ k' t', (a.addTransactionNrForIndex k nr t).1.HasOtherType k' t' ↔
        if k' = k then t ≠ t' else a.HasOtherType k' t') ∧
      (∀ k' nr', (a.addTransactionNrForIndex k nr t).1.Entered k' nr' ↔
        a.Entered k' nr' ∨ k' = k ∧ nr' = nr) ∧
      (a.Entered k nr → (a.addTransactionNrForIndex k nr t).1 = a) := by
  unfold HasOtherType at h
  unfold addTransactionNrForIndex HasOtherType Entered
  cases hk : a.mIndexTransactionNrs k with
  | none =>
    refine ⟨rfl, fun k' t' => ?_, fun k' nr' => ?_, by simp⟩
    · by_cases hkey : k' = k
      · subst hkey
        simp
      · simp [hkey]
    · by_cases hkey : k' = k
      · subst hkey
        simp [hk]
      · simp [hkey]
  | some data =>
    have hsame : t = data.addressType := by
      by_contra hne
      exact h ⟨data, hk, Ne.symm hne⟩
    simp only [hsame, ne_eq, not_true, if_false]
    split_ifs with hin
    · refine ⟨rfl, fun k' t' => ?_, fun k' nr' => ?_, fun _ => rfl⟩
      · by_cases hkey : k' = k
        · subst hkey
          simp [hk]
        · simp [hkey]
      · refine ⟨.inl, ?_⟩
        rintro (hbefore | ⟨rfl, rfl⟩)
        · exact hbefore
        · exact ⟨data, hk, hin⟩
    · refine ⟨rfl, fun k' t' => ?_, fun k' nr' => ?_, ?_⟩
      · by_cases hkey : k' = k
        · subst hkey
          simp
        · simp [hkey]
      · by_cases hkey : k' = k
        · subst hkey
          simp [hk]
        · simp [hkey]
      · rintro ⟨data', hdata', hin'⟩
        rw [Option.mem_def, Option.some.injEq] at hdata'
        exact absurd (hdata' ▸ hin') hin

/-- A list of entries that succeed. -/
theorem addTyped_ok {l : List (ℕ × AddressType)} (hok : (addTyped nr l a).2 = .ok ()) :
    (∀ k' nr', (addTyped nr l a).1.Entered k' nr' ↔
      a.Entered k' nr' ∨ nr' = nr ∧ ∃ t, (k', t) ∈ l) ∧
      ((∀ p ∈ l, a.Entered p.1 nr) → (addTyped nr l a).1 = a) := by
  induction l generalizing a with
  | nil => exact ⟨fun k' nr' => by simp [addTyped], fun _ => rfl⟩
  | cons p l ih =>
    obtain ⟨k, t⟩ := p
    by_cases hother : a.HasOtherType k t
    · obtain ⟨e, he⟩ := addTransactionNrForIndex_of_otherType hother nr
      rw [addTyped, andThen_of_error _ (congrArg Prod.snd he), he] at hok
      simp at hok
    · obtain ⟨hstep, -, hentered, hself⟩ := addTransactionNrForIndex_of_sameType hother nr
      rw [addTyped, andThen_of_ok _ hstep] at hok ⊢
      obtain ⟨hall, hsame⟩ := ih hok
      refine ⟨fun k' nr' => ?_, fun hin => ?_⟩
      · rw [hall, hentered]
        simp only [List.mem_cons, Prod.mk.injEq, exists_or]
        constructor
        · rintro ((hbefore | ⟨rfl, rfl⟩) | ⟨rfl, t', hl⟩)
          · exact .inl hbefore
          · exact .inr ⟨rfl, .inl ⟨t, rfl, rfl⟩⟩
          · exact .inr ⟨rfl, .inr ⟨t', hl⟩⟩
        · rintro (hbefore | ⟨rfl, ⟨t', rfl, rfl⟩ | ⟨t', hl⟩⟩)
          · exact .inl (.inl hbefore)
          · exact .inl (.inr ⟨rfl, rfl⟩)
          · exact .inr ⟨rfl, t', hl⟩
      · have hone := hself (hin (k, t) List.mem_cons_self)
        rw [hone] at hsame ⊢
        exact hsame (fun p hp => hin p (List.mem_cons_of_mem _ hp))

/-- A single entry throws before it changes anything. -/
theorem addTyped_single (nr k : ℕ) (t : AddressType) :
    ((addTyped nr [(k, t)] a).2 ≠ .ok () ↔ a.HasOtherType k t) ∧
      KeepsState a (addTyped nr [(k, t)] a) := by
  rw [addTyped]
  by_cases hother : a.HasOtherType k t
  · obtain ⟨e, he⟩ := addTransactionNrForIndex_of_otherType hother nr
    rw [andThen_of_error _ (congrArg Prod.snd he), he]
    exact ⟨by simp [hother], fun _ => rfl⟩
  · obtain ⟨hok, -⟩ := addTransactionNrForIndex_of_sameType hother nr
    rw [andThen_of_ok _ hok]
    exact ⟨by simp [addTyped, hother], fun hne => absurd rfl hne⟩

/-- Of two entries, the second one may throw after the first one changed something. -/
theorem addTyped_pair (nr k k' : ℕ) (t t' : AddressType) :
    ((addTyped nr [(k, t), (k', t')] a).2 ≠ .ok () ↔
      a.HasOtherType k t ∨ if k' = k then t ≠ t' else a.HasOtherType k' t') ∧
      (KeepsState a (addTyped nr [(k, t), (k', t')] a) ↔
        ((addTyped nr [(k, t), (k', t')] a).2 ≠ .ok () → a.HasOtherType k t ∨ a.Entered k nr)) := by
  rw [addTyped]
  by_cases hother : a.HasOtherType k t
  · obtain ⟨e, he⟩ := addTransactionNrForIndex_of_otherType hother nr
    rw [andThen_of_error _ (congrArg Prod.snd he), he]
    exact ⟨by simp [hother], iff_of_true (fun _ => rfl) (fun _ => .inl hother)⟩
  · obtain ⟨hok, htypes, hentered, hself⟩ := addTransactionNrForIndex_of_sameType hother nr
    rw [andThen_of_ok _ hok]
    have hnew : (a.addTransactionNrForIndex k nr t).1.Entered k nr :=
      (hentered k nr).2 (.inr ⟨rfl, rfl⟩)
    obtain ⟨hthrows, hkeeps⟩ := @addTyped_single (a.addTransactionNrForIndex k nr t).1 nr k' t'
    rw [htypes] at hthrows
    refine ⟨by rw [hthrows]; simp [hother], ?_⟩
    simp only [hother, false_or]
    refine forall_congr' (fun herror => ?_)
    rw [hkeeps herror]
    exact ⟨fun heq => by rwa [heq] at hnew, hself⟩

/-- The address index does not take an address of the transaction. -/
def Rejects (a : AddressIndex) (c : ConfirmedGradidoTx) : Prop :=
  match c.specific with
  | .communityRoot _ gmw auf =>
    a.HasOtherType auf .communityAuf ∨ gmw = auf ∨ a.HasOtherType gmw .communityGmw
  | .registerAddress addressType user account =>
    a.HasOtherType user addressType ∨ a.HasOtherType account addressType
  | .deferredTransfer _ _ recipient _ => a.HasOtherType recipient .deferredTransfer
  | _ => False

/-- The first address of a transaction that has two of them is not taken, or was entered before
with the number of the transaction. -/
def FirstEntered (a : AddressIndex) (c : ConfirmedGradidoTx) : Prop :=
  match c.specific with
  | .communityRoot _ _ auf => a.HasOtherType auf .communityAuf ∨ a.Entered auf c.txNr
  | .registerAddress addressType user _ =>
    a.HasOtherType user addressType ∨ a.Entered user c.txNr
  | _ => True

/-- **The address index throws** for an address whose type changes, and then the first address of
two may already be entered. -/
theorem addTransaction_throws (a : AddressIndex) (c : ConfirmedGradidoTx) :
    ((a.addTransaction c).2 ≠ .ok () ↔ a.Rejects c) ∧
      (KeepsState a (a.addTransaction c) ↔ (a.Rejects c → a.FirstEntered c)) := by
  have htyped : ((addTyped c.txNr c.typedAddresses a).2 ≠ .ok () ↔ a.Rejects c) ∧
      (KeepsState a (addTyped c.txNr c.typedAddresses a) ↔ (a.Rejects c → a.FirstEntered c)) := by
    unfold ConfirmedGradidoTx.typedAddresses Rejects FirstEntered
    cases c.specific with
    | communityRoot root gmw auf =>
      obtain ⟨hthrows, hkeeps⟩ := @addTyped_pair a c.txNr auf gmw .communityAuf .communityGmw
      have hgmw : (if gmw = auf then AddressType.communityAuf ≠ .communityGmw
          else a.HasOtherType gmw .communityGmw) ↔
          gmw = auf ∨ a.HasOtherType gmw .communityGmw := by
        split_ifs with heq <;> simp [heq]
      rw [hgmw] at hthrows
      exact ⟨hthrows, hkeeps.trans (imp_congr_left hthrows)⟩
    | registerAddress addressType user account =>
      obtain ⟨hthrows, hkeeps⟩ := @addTyped_pair a c.txNr user account addressType addressType
      have haccount : (a.HasOtherType user addressType ∨ if account = user then
          addressType ≠ addressType else a.HasOtherType account addressType) ↔
          a.HasOtherType user addressType ∨ a.HasOtherType account addressType := by
        split_ifs with heq
        · simp [heq]
        · rfl
      rw [haccount] at hthrows
      exact ⟨hthrows, hkeeps.trans (imp_congr_left hthrows)⟩
    | deferredTransfer sender amount recipient duration =>
      obtain ⟨hthrows, hkeeps⟩ := @addTyped_single a c.txNr recipient .deferredTransfer
      exact ⟨hthrows, iff_of_true hkeeps (fun _ => trivial)⟩
    | creation => simp [addTyped, KeepsState]
    | transfer => simp [addTyped, KeepsState]
  rw [addTransaction_eq]
  cases hresult : (addTyped c.txNr c.typedAddresses a).2 with
  | ok u =>
    rw [andThen_of_ok _ hresult]
    have hnot : ¬ a.Rejects c := fun hrejects => htyped.1.2 hrejects hresult
    exact ⟨by simp [hnot], iff_of_true (fun hne => absurd rfl hne) (fun h => absurd h hnot)⟩
  | error e =>
    rw [andThen_of_error _ hresult]
    exact htyped

/-- A transaction is entered under all its addresses and as the last change of its balances. -/
structure Knows (a : AddressIndex) (c : ConfirmedGradidoTx) : Prop where
  addresses : ∀ p ∈ c.typedAddresses, a.Entered p.1 c.txNr
  balances : ∀ b ∈ c.accountBalances, ∀ data ∈ a.mIndexTransactionNrs b.publicKeyIndex,
    data.lastBalanceChangingTransactionNr = c.txNr

/-- The loop over the balances enters no number. -/
theorem entered_foldl (bs : List CompactAccountBalance) (k' nr' : ℕ) :
    (bs.foldl (fun a b => a.updateLastBalanceChangingTransactionNr b.publicKeyIndex nr)
      a).Entered k' nr' ↔ a.Entered k' nr' := by
  induction bs generalizing a with
  | nil => rfl
  | cons b bs ih =>
    rw [List.foldl_cons, ih]
    unfold updateLastBalanceChangingTransactionNr Entered
    cases hb : a.mIndexTransactionNrs b.publicKeyIndex with
    | none => rfl
    | some data =>
      by_cases hk : k' = b.publicKeyIndex
      · subst hk
        simp [hb]
      · simp [hk]

/-- **The address index knows it all.**  What is entered without an exception changes nothing
exactly when it is all there. -/
theorem addTransaction_eq_self (hok : (a.addTransaction c).2 = .ok ()) :
    (a.addTransaction c).1 = a ↔ a.Knows c := by
  have hfold := Steps.foldl_eq_self_iff
    (f := fun (a : AddressIndex) (b : CompactAccountBalance) =>
      a.updateLastBalanceChangingTransactionNr b.publicKeyIndex c.txNr)
    (P := fun a b => ∀ data ∈ a.mIndexTransactionNrs b.publicKeyIndex,
      data.lastBalanceChangingTransactionNr = c.txNr) ?_ ?_ ?_ a c.accountBalances
  · rw [addTransaction_eq] at hok ⊢
    cases hresult : (addTyped c.txNr c.typedAddresses a).2 with
    | error e =>
      rw [andThen_of_error _ hresult, hresult] at hok
      simp at hok
    | ok u =>
      rw [andThen_of_ok _ hresult]
      obtain ⟨hentered, hself⟩ := addTyped_ok hresult
      constructor
      · intro heq
        have haddresses : ∀ p ∈ c.typedAddresses, a.Entered p.1 c.txNr := by
          intro p hp
          have hin := (hentered p.1 c.txNr).2 (.inr ⟨rfl, p.2, hp⟩)
          rw [← @entered_foldl _ c.txNr c.accountBalances] at hin
          dsimp only at heq
          rwa [heq] at hin
        dsimp only at heq
        rw [hself haddresses] at heq
        exact ⟨haddresses, hfold.1 heq⟩
      · intro hknows
        dsimp only
        rw [hself hknows.addresses]
        exact hfold.2 hknows.balances
  · -- a balance that is dated already
    intro a b hdone
    unfold updateLastBalanceChangingTransactionNr
    cases hb : a.mIndexTransactionNrs b.publicKeyIndex with
    | none => rfl
    | some data =>
      have hsame : ({ data with lastBalanceChangingTransactionNr := c.txNr } : AddressData) =
          data := by
        rw [← hdone data hb]
      dsimp only
      rw [hsame, ← hb, Function.update_eq_self]
  · intro a b
    unfold updateLastBalanceChangingTransactionNr
    cases hb : a.mIndexTransactionNrs b.publicKeyIndex with
    | none => simp [hb]
    | some data => simp
  · intro a b b' hdone
    unfold updateLastBalanceChangingTransactionNr
    cases hb : a.mIndexTransactionNrs b.publicKeyIndex with
    | none => exact hdone
    | some data =>
      by_cases hk : b'.publicKeyIndex = b.publicKeyIndex
      · simp [hk]
      · simpa [hk] using hdone

end AddressIndex

/-! ### The index of bitmaps -/

/-- There are more keys than `getInvolvedAddresses` has room for. -/
def ConfirmedGradidoTx.TooManyKeys (c : ConfirmedGradidoTx) : Prop :=
  5 < c.accountBalances.length + c.signaturePublicKeys.length

theorem ConfirmedGradidoTx.getInvolvedAddresses_error_iff {env : Env} {c : ConfirmedGradidoTx} :
    (∃ e, c.getInvolvedAddresses env = .error e) ↔ c.TooManyKeys := by
  unfold getInvolvedAddresses TooManyKeys
  by_cases hfew : 5 < c.accountBalances.length + c.signaturePublicKeys.length
  · refine iff_of_true ?_ hfew
    have hlast : 9 ≤ c.accountBalances.length + c.signaturePublicKeys.length + 3 := by omega
    simp only [hlast, decide_true, throwIf]
    split_ifs <;> exact ⟨_, rfl⟩
  · refine iff_of_false ?_ hfew
    have h1 : ¬ 9 ≤ c.accountBalances.length := by omega
    have h2 : ¬ (0 < c.signaturePublicKeys.length ∧
        9 ≤ c.accountBalances.length + c.signaturePublicKeys.length) := by omega
    have h3 : ¬ 9 ≤ c.accountBalances.length + c.signaturePublicKeys.length + 3 := by omega
    simp only [h1, h2, h3, decide_false, throwIf_false, ok_bind]
    rintro ⟨e, he⟩
    cases he

namespace TransactionsIndex

variable {env : Env} {idx : TransactionsIndex} {c : ConfirmedGradidoTx} {date : YearMonthDay}
  {nr : ℕ}

/-- A number is below those of the index. -/
def IsLower (idx : TransactionsIndex) (nr : ℕ) : Prop :=
  idx.mMinTransactionNr ≠ 0 ∧ nr < idx.mMinTransactionNr

/-- The range of the numbers has a number already. -/
def NumberKnown (idx : TransactionsIndex) (nr : ℕ) : Prop :=
  (idx.mMinTransactionNr = 0 → nr = 0) ∧ nr ≤ idx.mMaxTransactionNr

/-- The table has a row for the month of a date, if need be after it grew. -/
def InReach (idx : TransactionsIndex) (date : YearMonthDay) : Prop :=
  0 ≤ monthDistance (idx.minDateFor date) date ∧
    monthDistance (idx.minDateFor date) date < (idx.monthCount + resizeStepSize : ℕ)

instance (idx : TransactionsIndex) (date : YearMonthDay) : Decidable (idx.InReach date) :=
  inferInstanceAs (Decidable (_ ∧ _))

/-- The table has a date and a number already. -/
structure DayKnown (idx : TransactionsIndex) (date : YearMonthDay) (nr : ℕ) : Prop where
  number : idx.NumberKnown nr
  first : idx.mMinDate ≠ zeroDate
  row : monthDistance (idx.minDateFor date) date < idx.monthCount
  last : ¬ idx.mMaxDate < date
  cell : nr ≤ idx.mDayMonthYearTxRanges (cellOfDate (idx.minDateFor date) date)

theorem updateYearMonthDayTxRange_of_isLower (h : idx.IsLower nr) (date : YearMonthDay) :
    ∃ e, idx.updateYearMonthDayTxRange date nr = (idx, .error e) := by
  obtain ⟨hne, hlt⟩ := h
  unfold updateYearMonthDayTxRange
  simp only [if_neg hne, if_pos hlt]
  exact ⟨_, rfl⟩

/-- The range of the numbers after a call whose number is not below it. -/
def rangedBy (idx : TransactionsIndex) (nr : ℕ) : TransactionsIndex :=
  { idx with
    mMinTransactionNr := if idx.mMinTransactionNr = 0 then nr else idx.mMinTransactionNr
    mMaxTransactionNr := max idx.mMaxTransactionNr nr }

/-- The rows of the table after a call that is in reach. -/
def rowsFor (idx : TransactionsIndex) (date : YearMonthDay) : ℕ :=
  if monthDistance (idx.minDateFor date) date < idx.monthCount then idx.monthCount
  else idx.monthCount + resizeStepSize

/-- The index with the date and the number of a call that does not throw. -/
def datedBy (idx : TransactionsIndex) (date : YearMonthDay) (nr : ℕ) : TransactionsIndex :=
  { idx.rangedBy nr with
    monthCount := idx.rowsFor date
    mMinDate := idx.minDateFor date
    mMaxDate := if idx.mMaxDate < date then date else idx.mMaxDate
    mDayMonthYearTxRanges := Function.update idx.mDayMonthYearTxRanges
      (cellOfDate (idx.minDateFor date) date)
      (max (idx.mDayMonthYearTxRanges (cellOfDate (idx.minDateFor date) date)) nr) }

/-- **The update of the table**, for a number that is not below the range. -/
theorem updateYearMonthDayTxRange_eq (h : ¬ idx.IsLower nr) (date : YearMonthDay) :
    idx.updateYearMonthDayTxRange date nr =
      if ¬ idx.InReach date then
        ({ idx.rangedBy nr with monthCount := idx.monthCount + resizeStepSize },
          .error (.gradidoNodeInvalidData "unexpected jump in transaction index grow"))
      else if date.day = 0 then
        ({ idx.rangedBy nr with
          monthCount := idx.rowsFor date
          mMinDate := idx.minDateFor date }, .error (.outOfRange "day of month"))
      else (idx.datedBy date nr, .ok ()) := by
  have hmin : ¬ nr < (if idx.mMinTransactionNr = 0 then nr else idx.mMinTransactionNr) := by
    unfold IsLower at h
    split_ifs <;> omega
  unfold updateYearMonthDayTxRange InReach datedBy rowsFor rangedBy cellOfDate
  simp only [if_neg hmin]
  by_cases hnonneg : 0 ≤ monthDistance (idx.minDateFor date) date
  · by_cases hfits : monthDistance (idx.minDateFor date) date < idx.monthCount
    · have hgrown : monthDistance (idx.minDateFor date) date <
          (idx.monthCount + resizeStepSize : ℕ) := by omega
      simp only [hnonneg, hfits, hgrown, and_self, decide_true, if_true, not_true, if_false]
    · simp only [hnonneg, hfits, and_false, decide_false, Bool.false_eq_true, if_false, true_and]
  · simp only [hnonneg, false_and, decide_false, Bool.false_eq_true, if_false, not_false_eq_true,
      if_true]

theorem rangedBy_eq_self (h : idx.NumberKnown nr) : idx.rangedBy nr = idx := by
  obtain ⟨hmin, hmax⟩ := h
  have hmin' : (if idx.mMinTransactionNr = 0 then nr else idx.mMinTransactionNr) =
      idx.mMinTransactionNr := by
    split_ifs with hzero
    · rw [hmin hzero, hzero]
    · rfl
  unfold rangedBy
  rw [hmin', Nat.max_eq_left hmax]

theorem numberKnown_of_eq (hmin : (idx.rangedBy nr).mMinTransactionNr = idx.mMinTransactionNr)
    (hmax : (idx.rangedBy nr).mMaxTransactionNr = idx.mMaxTransactionNr) : idx.NumberKnown nr := by
  unfold rangedBy at hmin hmax
  dsimp only at hmin hmax
  refine ⟨fun hzero => ?_, by omega⟩
  rwa [if_pos hzero, hzero] at hmin

theorem rowsFor_eq_self :
    idx.rowsFor date = idx.monthCount ↔
      monthDistance (idx.minDateFor date) date < idx.monthCount := by
  unfold rowsFor
  split_ifs with h
  · simp [h]
  · simp [h, resizeStepSize]

theorem minDateFor_eq_self (h : date ≠ zeroDate) :
    idx.minDateFor date = idx.mMinDate ↔ idx.mMinDate ≠ zeroDate := by
  unfold minDateFor
  split_ifs with hzero
  · simp [hzero, h]
  · simp [hzero]

theorem dayKnown_of_eq (hdate : date ≠ zeroDate)
    (hmin : (idx.datedBy date nr).mMinTransactionNr = idx.mMinTransactionNr)
    (hmax : (idx.datedBy date nr).mMaxTransactionNr = idx.mMaxTransactionNr)
    (hfirst : (idx.datedBy date nr).mMinDate = idx.mMinDate)
    (hlast : (idx.datedBy date nr).mMaxDate = idx.mMaxDate)
    (hrows : (idx.datedBy date nr).monthCount = idx.monthCount)
    (hcells : (idx.datedBy date nr).mDayMonthYearTxRanges = idx.mDayMonthYearTxRanges) :
    idx.DayKnown date nr := by
  have hlast' : (if idx.mMaxDate < date then date else idx.mMaxDate) = idx.mMaxDate := hlast
  have hcell : Function.update idx.mDayMonthYearTxRanges (cellOfDate (idx.minDateFor date) date)
      (max (idx.mDayMonthYearTxRanges (cellOfDate (idx.minDateFor date) date)) nr)
      (cellOfDate (idx.minDateFor date) date) = _ := congrFun hcells _
  rw [Function.update_self] at hcell
  refine ⟨numberKnown_of_eq hmin hmax, (minDateFor_eq_self hdate).1 hfirst,
    rowsFor_eq_self.1 hrows, fun hlt => ?_, by omega⟩
  rw [if_pos hlt] at hlast'
  rw [hlast', YearMonthDay.lt_def] at hlt
  omega

/-- **A date that is known** changes nothing, and any other one does. -/
theorem datedBy_eq_self (hdate : date ≠ zeroDate) :
    idx.datedBy date nr = idx ↔ idx.DayKnown date nr := by
  constructor
  · intro heq
    exact dayKnown_of_eq hdate (by rw [heq]) (by rw [heq]) (by rw [heq]) (by rw [heq])
      (by rw [heq]) (by rw [heq])
  · rintro ⟨hnumber, hfirst, hrow, hlast, hcell⟩
    have hcells : Function.update idx.mDayMonthYearTxRanges (cellOfDate (idx.minDateFor date) date)
        (max (idx.mDayMonthYearTxRanges (cellOfDate (idx.minDateFor date) date)) nr) =
          idx.mDayMonthYearTxRanges := by
      rw [Nat.max_eq_left hcell, Function.update_eq_self]
    unfold datedBy
    rw [hcells, rangedBy_eq_self hnumber, rowsFor_eq_self.2 hrow,
      (minDateFor_eq_self hdate).2 hfirst, if_neg hlast]

/-- The bitmaps of a key have the number of a transaction, in all roles of the key. -/
def KeyKnown (env : Env) (c : ConfirmedGradidoTx) (idx : TransactionsIndex) (k : PublicKeyIndex) :
    Prop :=
  ∃ bitmaps ∈ idx.mInvolvedPublicKeys k,
    (c.isBalanceUpdated k = true → c.txNr ∈ bitmaps.balanceChangingTx) ∧
      (c.isSignaturePublicKey env k = true → c.txNr ∈ bitmaps.signedTx) ∧
        (c.isOtherInvolved k = true → c.txNr ∈ bitmaps.otherInvolvedTx)

/-- The bitmap of a foreign coin has the number of a transaction. -/
def CoinKnown (c : ConfirmedGradidoTx) (idx : TransactionsIndex) (b : CompactAccountBalance) :
    Prop :=
  b.coinCommunityIdIndex ≠ c.txCommunityIdIndex →
    ∃ bitmap ∈ idx.mOtherCoinCommunityTx b.coinCommunityIdIndex, c.txNr ∈ bitmap

/-- The bitmaps have a transaction. -/
structure BitmapsKnown (env : Env) (idx : TransactionsIndex) (c : ConfirmedGradidoTx)
    (addresses : List PublicKeyIndex) : Prop where
  keys : ∀ k ∈ addresses, KeyKnown env c idx k
  type : c.txNr ∈ idx.mTxPerType c.transactionType
  coins : ∀ b ∈ c.accountBalances, CoinKnown c idx b

theorem foldl_addInvolvedAddress_eq_self (addresses : List PublicKeyIndex) :
    addresses.foldl (addInvolvedAddress env c) idx = idx ↔
      ∀ k ∈ addresses, KeyKnown env c idx k := by
  have hadd : ∀ {b : Bitmap} {n : ℕ} {p : Bool}, (p = true → n ∈ b) →
      (if p = true then b.add n else b) = b := by
    intro b n p hin
    split_ifs with hp
    · exact Bitmap.add_eq_self (hin hp)
    · rfl
  refine Steps.foldl_eq_self_iff (P := KeyKnown env c) ?_ ?_ ?_ idx addresses
  · rintro idx k ⟨bitmaps, hbitmaps, hbalance, hsigned, hother⟩
    rw [Option.mem_def] at hbitmaps
    unfold addInvolvedAddress
    simp only [hbitmaps, Option.getD_some, hadd hbalance, hadd hsigned, hadd hother]
    rw [← hbitmaps, Function.update_eq_self]
  · intro idx k
    refine ⟨_, Option.mem_def.2 (Function.update_self _ _ _), ?_, ?_, ?_⟩
    all_goals
      intro hrole
      simp [hrole]
  · rintro idx k k' ⟨bitmaps, hbitmaps, hbalance, hsigned, hother⟩
    rw [Option.mem_def] at hbitmaps
    by_cases hk : k' = k
    · subst hk
      refine ⟨_, Option.mem_def.2 (Function.update_self _ _ _), ?_, ?_, ?_⟩
      all_goals
        intro hrole
        simp [hrole]
    · refine ⟨bitmaps, ?_, hbalance, hsigned, hother⟩
      unfold addInvolvedAddress
      simpa [hk] using hbitmaps

theorem foldl_addCoinCommunity_eq_self (bs : List CompactAccountBalance) :
    bs.foldl (addCoinCommunity c) idx = idx ↔ ∀ b ∈ bs, CoinKnown c idx b := by
  refine Steps.foldl_eq_self_iff (P := CoinKnown c) ?_ ?_ ?_ idx bs
  · intro idx b hknown
    unfold addCoinCommunity
    split_ifs with hown
    · rfl
    · obtain ⟨bitmap, hbitmap, hin⟩ := hknown hown
      rw [Option.mem_def] at hbitmap
      rw [hbitmap, Option.getD_some, Bitmap.add_eq_self hin, ← hbitmap, Function.update_eq_self]
  · intro idx b hne
    unfold addCoinCommunity
    rw [if_neg hne]
    exact ⟨_, Option.mem_def.2 (Function.update_self _ _ _), Bitmap.mem_add.2 (.inl rfl)⟩
  · intro idx b b' hknown hne
    obtain ⟨bitmap, hbitmap, hin⟩ := hknown hne
    rw [Option.mem_def] at hbitmap
    unfold addCoinCommunity
    split_ifs with hown
    · exact ⟨bitmap, hbitmap, hin⟩
    · by_cases hcoin : b'.coinCommunityIdIndex = b.coinCommunityIdIndex
      · rw [hcoin]
        exact ⟨_, Option.mem_def.2 (Function.update_self _ _ _), Bitmap.mem_add.2 (.inl rfl)⟩
      · refine ⟨bitmap, ?_, hin⟩
        simpa [hcoin] using hbitmap

/-- **Bitmaps that are known** do not change, and any other ones do. -/
theorem addBitmaps_eq_self (addresses : List PublicKeyIndex) :
    idx.addBitmaps env c addresses = idx ↔ idx.BitmapsKnown env c addresses := by
  have hkeys := @foldl_addInvolvedAddress_eq_self env idx c addresses
  unfold addBitmaps
  dsimp only
  constructor
  · intro heq
    obtain ⟨-, -, involved, hinvolved⟩ := @foldl_addInvolvedAddress env c addresses idx
    rw [hinvolved] at heq
    dsimp only at heq
    obtain ⟨-, -, coins, hcoins⟩ := @foldl_addCoinCommunity c c.accountBalances
      { idx with
        mInvolvedPublicKeys := involved
        mTxPerType := Function.update idx.mTxPerType c.transactionType
          ((idx.mTxPerType c.transactionType).add c.txNr) }
    have hsame := hcoins.symm.trans heq
    have hinvolved' : involved = idx.mInvolvedPublicKeys :=
      congrArg TransactionsIndex.mInvolvedPublicKeys hsame
    have htypes : Function.update idx.mTxPerType c.transactionType
        ((idx.mTxPerType c.transactionType).add c.txNr) = idx.mTxPerType :=
      congrArg TransactionsIndex.mTxPerType hsame
    rw [hinvolved', htypes] at heq
    refine ⟨hkeys.1 (by rw [hinvolved, hinvolved']), ?_, foldl_addCoinCommunity_eq_self _ |>.1 heq⟩
    have hcell := congrFun htypes c.transactionType
    rw [Function.update_self] at hcell
    rw [← hcell]
    exact Bitmap.mem_add.2 (.inl rfl)
  · rintro ⟨hkeysKnown, htypeKnown, hcoinsKnown⟩
    rw [hkeys.2 hkeysKnown, Bitmap.add_eq_self htypeKnown, Function.update_eq_self]
    exact foldl_addCoinCommunity_eq_self _ |>.2 hcoinsKnown

/-- When nothing was new before a call throws.

* The month is in reach: where it is not, the table has grown before the exception.
* The epoch has no day, which is found out behind the range of the numbers.
* Too many keys are found out behind the table, and an address whose type changes behind the
  bitmaps. -/
structure NothingNew (env : Env) (idx : TransactionsIndex) (c : ConfirmedGradidoTx) : Prop where
  reach : idx.InReach c.date
  epoch : c.date.day = 0 → idx.NumberKnown c.txNr ∧
    monthDistance (idx.minDateFor c.date) c.date < idx.monthCount
  keys : c.date.day ≠ 0 → c.TooManyKeys → idx.DayKnown c.date c.txNr
  types : c.date.day ≠ 0 → ¬ c.TooManyKeys → idx.mAddressIndex.Rejects c →
    idx.DayKnown c.date c.txNr ∧ idx.BitmapsKnown env c (ByMonth.involved env c) ∧
      idx.mAddressIndex.FirstEntered c

/-- The exception of a month that is out of reach. -/
theorem keepsState_of_not_inReach (hlower : ¬ idx.IsLower nr) (hreach : ¬ idx.InReach date)
    (f : TransactionsIndex → TransactionsIndex × Except Exception Unit) :
    ¬ KeepsState idx (andThen (idx.updateYearMonthDayTxRange date nr) f) := by
  rw [updateYearMonthDayTxRange_eq hlower, if_pos hreach]
  intro hkeeps
  have hgrown : idx.monthCount + resizeStepSize = idx.monthCount :=
    congrArg TransactionsIndex.monthCount (hkeeps (by simp [andThen]))
  simp [resizeStepSize] at hgrown

/-- The exception of the epoch. -/
theorem keepsState_of_epoch (hlower : ¬ idx.IsLower c.txNr) (hreach : idx.InReach c.date)
    (hday : c.date.day = 0)
    (f : TransactionsIndex → TransactionsIndex × Except Exception Unit) :
    KeepsState idx (andThen (idx.updateYearMonthDayTxRange c.date c.txNr) f) ↔
      idx.NumberKnown c.txNr ∧
        monthDistance (idx.minDateFor c.date) c.date < idx.monthCount := by
  have hfirst : idx.minDateFor c.date = idx.mMinDate := by
    unfold minDateFor
    split_ifs with hzero
    · rw [date_eq_zeroDate hday, hzero]
    · rfl
  rw [updateYearMonthDayTxRange_eq hlower, if_neg (not_not.2 hreach), if_pos hday]
  refine (keepsState_of_error rfl).trans ⟨fun heq => ?_, ?_⟩
  · have hmin := congrArg TransactionsIndex.mMinTransactionNr heq
    have hmax := congrArg TransactionsIndex.mMaxTransactionNr heq
    have hrows := congrArg TransactionsIndex.monthCount heq
    exact ⟨numberKnown_of_eq hmin hmax, rowsFor_eq_self.1 hrows⟩
  · rintro ⟨hnumber, hrow⟩
    dsimp only [andThen]
    rw [rowsFor_eq_self.2 hrow, hfirst, rangedBy_eq_self hnumber]

/-- What the table, the bitmaps and the address index change together. -/
theorem datedBy_addBitmaps_eq_self (hdate : date ≠ zeroDate) (addresses : List PublicKeyIndex)
    (a : AddressIndex) :
    { (idx.datedBy date nr).addBitmaps env c addresses with mAddressIndex := a } = idx ↔
      idx.DayKnown date nr ∧ idx.BitmapsKnown env c addresses ∧ a = idx.mAddressIndex := by
  constructor
  · intro heq
    obtain ⟨involved, types, coins, hframe⟩ := @addBitmaps_frame env c addresses
      (idx.datedBy date nr)
    have hsame := heq
    rw [hframe] at hsame
    have hmin := congrArg TransactionsIndex.mMinTransactionNr hsame
    have hmax := congrArg TransactionsIndex.mMaxTransactionNr hsame
    have hfirst := congrArg TransactionsIndex.mMinDate hsame
    have hlast := congrArg TransactionsIndex.mMaxDate hsame
    have hrows := congrArg TransactionsIndex.monthCount hsame
    have hcells := congrArg TransactionsIndex.mDayMonthYearTxRanges hsame
    have hknown := dayKnown_of_eq hdate hmin hmax hfirst hlast hrows hcells
    have hdated := (datedBy_eq_self hdate).2 hknown
    have haddress : a = idx.mAddressIndex := congrArg TransactionsIndex.mAddressIndex heq
    rw [hdated] at heq hframe
    refine ⟨hknown, addBitmaps_eq_self _ |>.1 ?_, haddress⟩
    rw [hframe] at heq ⊢
    rw [haddress] at heq
    exact heq
  · rintro ⟨hknown, hbitmaps, rfl⟩
    rw [(datedBy_eq_self hdate).2 hknown, (addBitmaps_eq_self addresses).2 hbitmaps]

/-- **An insertion into the index of bitmaps** leaves nothing behind when it throws exactly if its
number is too low or nothing was new. -/
theorem keepsState_addTransactionIndices (env : Env) (idx : TransactionsIndex)
    (c : ConfirmedGradidoTx) :
    KeepsState idx (idx.addTransactionIndices env c) ↔
      idx.IsLower c.txNr ∨ NothingNew env idx c := by
  unfold addTransactionIndices
  change KeepsState idx (andThen (idx.updateYearMonthDayTxRange c.date c.txNr) _) ↔ _
  by_cases hlower : idx.IsLower c.txNr
  · obtain ⟨e, he⟩ := updateYearMonthDayTxRange_of_isLower hlower c.date
    rw [he]
    exact iff_of_true (fun _ => rfl) (.inl hlower)
  rw [or_iff_right hlower]
  by_cases hreach : idx.InReach c.date
  swap
  · exact iff_of_false (keepsState_of_not_inReach hlower hreach _) (fun h => hreach h.reach)
  by_cases hday : c.date.day = 0
  · rw [keepsState_of_epoch hlower hreach hday]
    exact ⟨fun h => ⟨hreach, fun _ => h, fun hne => absurd hday hne, fun hne => absurd hday hne⟩,
      fun h => h.epoch hday⟩
  have hdate : c.date ≠ zeroDate := by
    intro hzero
    rw [hzero] at hday
    exact hday rfl
  rw [updateYearMonthDayTxRange_eq hlower, if_neg (not_not.2 hreach), if_neg hday]
  dsimp only [andThen]
  have hkeys := @ConfirmedGradidoTx.getInvolvedAddresses_error_iff env c
  cases haddresses : c.getInvolvedAddresses env with
  | error e =>
    have hmany := hkeys.1 ⟨e, haddresses⟩
    refine (keepsState_of_error rfl).trans ((datedBy_eq_self hdate).trans ?_)
    exact ⟨fun h => ⟨hreach, fun hzero => absurd hzero hday, fun _ _ => h,
      fun _ hfew => absurd hmany hfew⟩, fun h => h.keys hday hmany⟩
  | ok addresses =>
    have hfew : ¬ c.TooManyKeys := fun hmany => by
      obtain ⟨e, he⟩ := hkeys.2 hmany
      rw [haddresses] at he
      simp at he
    have hinvolved : ByMonth.involved env c = addresses := by
      rw [ByMonth.involved, haddresses]
      rfl
    have haddress : ((idx.datedBy c.date c.txNr).addBitmaps env c addresses).mAddressIndex =
        idx.mAddressIndex := by
      obtain ⟨involved, types, coins, hframe⟩ := @addBitmaps_frame env c addresses
        (idx.datedBy c.date c.txNr)
      rw [hframe]
      rfl
    obtain ⟨hthrows, hkeeps⟩ := idx.mAddressIndex.addTransaction_throws c
    dsimp only
    rw [haddress]
    have hstate : KeepsState idx
        ({ (idx.datedBy c.date c.txNr).addBitmaps env c addresses with
          mAddressIndex := (idx.mAddressIndex.addTransaction c).1 },
          (idx.mAddressIndex.addTransaction c).2) ↔
        (idx.mAddressIndex.Rejects c → idx.DayKnown c.date c.txNr ∧
          idx.BitmapsKnown env c addresses ∧ idx.mAddressIndex.FirstEntered c) := by
      rw [← hthrows]
      refine forall_congr' (fun herror => (datedBy_addBitmaps_eq_self hdate addresses _).trans ?_)
      have hrejects := hthrows.1 herror
      refine and_congr_right (fun _ => and_congr_right (fun _ => ?_))
      exact ⟨fun heq => hkeeps.1 (fun _ => heq) hrejects,
        fun hfirst => hkeeps.2 (fun _ => hfirst) herror⟩
    rw [hstate, ← hinvolved]
    exact ⟨fun h => ⟨hreach, fun hzero => absurd hzero hday, fun _ hmany => absurd hmany hfew,
      fun _ _ => h⟩, fun h => h.types hday hfew⟩

end TransactionsIndex

/-! ### The index by months -/

namespace ByMonth

open Gradido.ConfirmedGradidoTx (getInvolvedAddresses_error_iff)

namespace TransactionsIndex

variable {env : Env} {own : ℕ} {idx idx' : TransactionsIndex} {c : ConfirmedGradidoTx}
  {ym : ℤ × ℕ} {nr : ℕ}

/-- The index after insertions that succeed, by either of the two functions. -/
inductive Inserted (own : ℕ) : TransactionsIndex → Prop
  | empty : Inserted own (empty own)
  | transaction {idx idx' : TransactionsIndex} (env : Env) (c : ConfirmedGradidoTx) :
    Inserted own idx → idx.addIndicesForTransaction env c = (idx', .ok ()) → Inserted own idx'
  | indices {idx idx' : TransactionsIndex} (transactionType : TransactionType) (coin : ℕ)
      (ym : ℤ × ℕ) (nr : ℕ) (addresses : List ℕ) (changing : List Bool) :
    Inserted own idx →
      idx.addIndices transactionType coin ym nr addresses changing = (idx', .ok ()) →
        Inserted own idx'

/-- A number is below those of the index. -/
def IsLower (idx : TransactionsIndex) (nr : ℕ) : Prop :=
  idx.mMinTransactionNr ≠ 0 ∧ nr < idx.mMinTransactionNr

/-- The bounds of the numbers have a number already. -/
def NumberKnown (idx : TransactionsIndex) (nr : ℕ) : Prop :=
  (idx.mMinTransactionNr = 0 → nr = 0) ∧ nr ≤ idx.mMaxTransactionNr

/-- The bounds of the months have a month already, and it has a bucket. -/
structure MonthKnown (idx : TransactionsIndex) (ym : ℤ × ℕ) : Prop where
  row : idx.bucketOf ym < idx.monthCount
  first : idx.mMinYearMonth = (0, 0) → ym = (0, 0)
  last : before idx.mMaxYearMonth ym = false

/-- The last entry of the month does not have a lower number. -/
def HasHigher (idx : TransactionsIndex) (ym : ℤ × ℕ) (nr : ℕ) : Prop :=
  ∃ e ∈ (idx.mYearMonthAddressIndexEntries (idx.bucketOf ym).toNat).getLast?, nr ≤ e.transactionNr

theorem hasHigher_iff :
    (idx.mYearMonthAddressIndexEntries (idx.bucketOf ym).toNat).getLast?.any
      (fun e => decide (nr ≤ e.transactionNr)) = true ↔ idx.HasHigher ym nr := by
  simp [HasHigher, Option.any_eq_true]

theorem boundedBy_eq_self (h : idx.NumberKnown nr) : idx.boundedBy nr = idx := by
  obtain ⟨hmin, hmax⟩ := h
  have hmin' : (if idx.mMinTransactionNr = 0 then nr else idx.mMinTransactionNr) =
      idx.mMinTransactionNr := by
    split_ifs with hzero
    · rw [hmin hzero, hzero]
    · rfl
  unfold boundedBy
  rw [hmin', Nat.max_eq_left hmax]

theorem numberKnown_of_eq (hmin : (idx.boundedBy nr).mMinTransactionNr = idx.mMinTransactionNr)
    (hmax : (idx.boundedBy nr).mMaxTransactionNr = idx.mMaxTransactionNr) :
    idx.NumberKnown nr := by
  unfold boundedBy at hmin hmax
  dsimp only at hmin hmax
  refine ⟨fun hzero => ?_, by omega⟩
  rwa [if_pos hzero, hzero] at hmin

/-- What the bounds of the numbers and the months and the address index change together. -/
theorem boundedBy_datedBy_eq_self (a : AddressIndex) :
    ({ idx.boundedBy nr with mAddressIndex := a } : TransactionsIndex).datedBy ym = idx ↔
      idx.NumberKnown nr ∧ a = idx.mAddressIndex ∧ idx.MonthKnown ym := by
  constructor
  · intro heq
    have hmin := congrArg mMinTransactionNr heq
    have hmax := congrArg mMaxTransactionNr heq
    have haddress : a = idx.mAddressIndex := congrArg mAddressIndex heq
    have hfirst : idx.minYearMonthFor ym = idx.mMinYearMonth := congrArg mMinYearMonth heq
    have hlast : (if before idx.mMaxYearMonth ym then ym else idx.mMaxYearMonth) =
        idx.mMaxYearMonth := congrArg mMaxYearMonth heq
    have hrows : (if idx.bucketOf ym < idx.monthCount then idx.monthCount
        else idx.monthCount + resizeStepSize) = idx.monthCount := congrArg monthCount heq
    refine ⟨numberKnown_of_eq hmin hmax, haddress, ?_, fun hzero => ?_, ?_⟩
    · by_contra hnot
      rw [if_neg hnot] at hrows
      simp [resizeStepSize] at hrows
    · unfold minYearMonthFor at hfirst
      rw [if_pos hzero] at hfirst
      rw [hfirst, hzero]
    · rw [Bool.eq_false_iff]
      intro hbefore
      rw [if_pos hbefore] at hlast
      rw [← hlast] at hbefore
      simp [before] at hbefore
  · rintro ⟨hnumber, rfl, hrow, hfirst, hlast⟩
    have hmin : idx.minYearMonthFor ym = idx.mMinYearMonth := by
      unfold minYearMonthFor
      split_ifs with hzero
      · rw [hfirst hzero, hzero]
      · rfl
    rw [boundedBy_eq_self hnumber]
    change idx.datedBy ym = idx
    unfold datedBy
    rw [if_pos hrow, hmin, hlast]
    rfl

/-- A number that is too low changes nothing. -/
theorem transactionNrUpdateBounds_of_isLower
    (hle : idx.mMinTransactionNr ≤ idx.mMaxTransactionNr) (h : idx.IsLower nr) :
    ∃ e, idx.transactionNrUpdateBounds nr = (idx, .error e) := by
  obtain ⟨hne, hlt⟩ := h
  have hknown : idx.NumberKnown nr := ⟨fun hzero => absurd hzero hne, by omega⟩
  have hfst := transactionNrUpdateBounds_fst idx nr
  rw [boundedBy_eq_self hknown] at hfst
  cases hsnd : (idx.transactionNrUpdateBounds nr).2 with
  | ok u =>
    have hmin := transactionNrUpdateBounds_snd.1 hsnd hne
    omega
  | error e => exact ⟨e, Prod.ext hfst hsnd⟩

theorem transactionNrUpdateBounds_of_not_isLower (h : ¬ idx.IsLower nr) :
    (idx.transactionNrUpdateBounds nr).2 = .ok () := by
  refine transactionNrUpdateBounds_snd.2 (fun hne => ?_)
  by_contra hlt
  exact h ⟨hne, by omega⟩

/-- A month that is out of reach makes the table grow. -/
theorem monthCount_ne (idx : TransactionsIndex) (a : AddressIndex) (nr : ℕ) :
    ({ idx.boundedBy nr with
      mAddressIndex := a
      monthCount := idx.monthCount + resizeStepSize } : TransactionsIndex) ≠ idx := by
  intro heq
  have hgrown : idx.monthCount + resizeStepSize = idx.monthCount := congrArg monthCount heq
  simp [resizeStepSize] at hgrown

/-- **The protected insertion**, for a number that is not too low: it throws for a month out of
reach or behind the bounds of the months, or it succeeds. -/
theorem addIndices_cases (hlower : ¬ idx.IsLower nr) (transactionType : TransactionType) (coin : ℕ)
    (ym : ℤ × ℕ) (addresses : List ℕ) (changing : List Bool) :
    (¬ idx.InReach ym ∧
      ∃ e, idx.addIndices transactionType coin ym nr addresses changing =
        ({ idx.boundedBy nr with monthCount := idx.monthCount + resizeStepSize }, .error e)) ∨
    (idx.InReach ym ∧ (4 < addresses.length ∨ idx.HasHigher ym nr) ∧
      ∃ e, idx.addIndices transactionType coin ym nr addresses changing =
        ((idx.boundedBy nr).datedBy ym, .error e)) ∨
    (idx.InReach ym ∧ ¬ (4 < addresses.length ∨ idx.HasHigher ym nr) ∧
      ∃ idx', idx.addIndices transactionType coin ym nr addresses changing = (idx', .ok ()) ∧
        idx'.mMinTransactionNr = (idx.boundedBy nr).mMinTransactionNr ∧
        idx'.mMaxTransactionNr = (idx.boundedBy nr).mMaxTransactionNr) := by
  unfold addIndices
  rw [andThen_of_ok _ (transactionNrUpdateBounds_of_not_isLower hlower),
    transactionNrUpdateBounds_fst]
  by_cases hreach : idx.InReach ym
  · have hmonths : (idx.boundedBy nr).yearMonthToIndexUpdateBounds ym =
        ((idx.boundedBy nr).datedBy ym, .ok ()) :=
      yearMonthToIndexUpdateBounds_of_inReach hreach
    have hbucket : ((idx.boundedBy nr).datedBy ym).bucketOf ym = idx.bucketOf ym :=
      bucketOf_datedBy (idx.boundedBy nr) ym
    have hentries : ((idx.boundedBy nr).datedBy ym).mYearMonthAddressIndexEntries =
        idx.mYearMonthAddressIndexEntries := rfl
    rw [hmonths]
    dsimp only [andThen]
    rw [hbucket, hentries]
    refine .inr ?_
    by_cases hmany : 4 < addresses.length
    · rw [if_pos hmany]
      exact .inl ⟨hreach, .inl hmany, _, rfl⟩
    rw [if_neg hmany]
    by_cases hhigher : idx.HasHigher ym nr
    · rw [if_pos (hasHigher_iff.2 hhigher)]
      exact .inl ⟨hreach, .inr hhigher, _, rfl⟩
    · rw [if_neg (fun hany => hhigher (hasHigher_iff.1 hany))]
      exact .inr ⟨hreach, fun hor => hor.elim hmany hhigher, _, rfl, rfl, rfl⟩
  · have hmonths : (idx.boundedBy nr).yearMonthToIndexUpdateBounds ym =
        ({ idx.boundedBy nr with monthCount := idx.monthCount + resizeStepSize },
          .error (.gradidoNodeInvalidData "unexpected jump in transaction index grow")) :=
      yearMonthToIndexUpdateBounds_of_not_inReach hreach
    rw [hmonths]
    exact .inl ⟨hreach, _, rfl⟩

theorem boundedBy_le (hle : idx.mMinTransactionNr ≤ idx.mMaxTransactionNr) (nr : ℕ) :
    (idx.boundedBy nr).mMinTransactionNr ≤ (idx.boundedBy nr).mMaxTransactionNr := by
  unfold boundedBy
  dsimp only
  split_ifs <;> omega

/-- In an index that is reached by insertions, the bounds of the numbers are in order. -/
theorem Inserted.le (h : Inserted own idx) : idx.mMinTransactionNr ≤ idx.mMaxTransactionNr := by
  induction h with
  | empty => exact Nat.le_refl 0
  | @transaction idx idx' env c _ hadd ih =>
    obtain ⟨-, -, -, -, rfl⟩ := addIndicesForTransaction_eq_ok hadd
    exact boundedBy_le ih c.txNr
  | @indices idx idx' transactionType coin ym nr addresses changing _ hadd ih =>
    by_cases hlower : idx.IsLower nr
    · obtain ⟨e, he⟩ := transactionNrUpdateBounds_of_isLower ih hlower
      rw [addIndices, he] at hadd
      simp [andThen] at hadd
    rcases addIndices_cases hlower transactionType coin ym addresses changing with
      ⟨-, e, he⟩ | ⟨-, -, e, he⟩ | ⟨-, -, idx'', hok, hmin, hmax⟩
    · rw [he] at hadd
      simp at hadd
    · rw [he] at hadd
      simp at hadd
    · rw [hok, Prod.mk.injEq] at hadd
      rw [← hadd.1, hmin, hmax]
      exact boundedBy_le ih nr

/-- **The protected insertion** leaves nothing behind when it throws exactly if its number is too
low, or its month is in reach and the bounds have the number and the month before a check of the
addresses or of the last entry throws. -/
theorem Inserted.keepsState_addIndices (h : Inserted own idx) (transactionType : TransactionType)
    (coin : ℕ) (ym : ℤ × ℕ) (nr : ℕ) (addresses : List ℕ) (changing : List Bool) :
    KeepsState idx (idx.addIndices transactionType coin ym nr addresses changing) ↔
      idx.IsLower nr ∨ idx.InReach ym ∧
        (4 < addresses.length ∨ idx.HasHigher ym nr → idx.NumberKnown nr ∧ idx.MonthKnown ym) := by
  by_cases hlower : idx.IsLower nr
  · obtain ⟨e, he⟩ := transactionNrUpdateBounds_of_isLower h.le hlower
    rw [addIndices, he]
    exact iff_of_true (fun _ => rfl) (.inl hlower)
  rw [or_iff_right hlower]
  rcases addIndices_cases hlower transactionType coin ym addresses changing with
    ⟨hreach, e, he⟩ | ⟨hreach, hlate, e, he⟩ | ⟨hreach, hnot, idx', hok, -⟩
  · rw [he]
    refine iff_of_false (fun hkeeps => ?_) (fun hand => hreach hand.1)
    exact monthCount_ne idx idx.mAddressIndex nr (hkeeps (by simp))
  · have hsame := @boundedBy_datedBy_eq_self idx ym nr idx.mAddressIndex
    rw [he, keepsState_of_error rfl]
    exact hsame.trans ⟨fun ⟨hnumber, _, hmonth⟩ => ⟨hreach, fun _ => ⟨hnumber, hmonth⟩⟩,
      fun ⟨_, hboth⟩ => ⟨(hboth hlate).1, rfl, (hboth hlate).2⟩⟩
  · rw [hok]
    exact iff_of_true (fun hne => absurd rfl hne) ⟨hreach, fun hor => absurd hor hnot⟩

/-- The protected insertion behind an insertion into the address index. -/
theorem keepsState_addIndices_known (hlower : ¬ idx.IsLower c.txNr)
    (transactionType : TransactionType) (coin : ℕ) (ym : ℤ × ℕ) (addresses : List ℕ)
    (changing : List Bool) :
    KeepsState idx
        ((idx.known c).addIndices transactionType coin ym c.txNr addresses changing) ↔
      idx.InReach ym ∧ (4 < addresses.length ∨ idx.HasHigher ym c.txNr →
        idx.NumberKnown c.txNr ∧ (idx.mAddressIndex.addTransaction c).1 = idx.mAddressIndex ∧
          idx.MonthKnown ym) := by
  have hknown : ¬ (idx.known c).IsLower c.txNr := by
    rintro ⟨-, hlt⟩
    change c.txNr < if idx.mMinTransactionNr = 0 then c.txNr else idx.mMinTransactionNr at hlt
    unfold IsLower at hlower
    split_ifs at hlt <;> omega
  have hcases := addIndices_cases hknown transactionType coin ym addresses changing
  rw [boundedBy_known] at hcases
  rcases hcases with ⟨hreach, e, he⟩ | ⟨hreach, hlate, e, he⟩ | ⟨hreach, hearly, idx', hok, -⟩
  · rw [he]
    refine iff_of_false (fun hkeeps => ?_) (fun hand => hreach hand.1)
    exact monthCount_ne idx (idx.mAddressIndex.addTransaction c).1 c.txNr (hkeeps (by simp))
  · have hsame := @boundedBy_datedBy_eq_self idx ym c.txNr (idx.mAddressIndex.addTransaction c).1
    rw [he, keepsState_of_error rfl]
    exact hsame.trans ⟨fun hall => ⟨hreach, fun _ => hall⟩, fun hand => hand.2 hlate⟩
  · rw [hok]
    exact iff_of_true (fun hne => absurd rfl hne) ⟨hreach, fun hor => absurd hor hearly⟩

/-- When nothing was new before a call throws.

* Too many keys are found out behind the bounds of the numbers, and so is an address whose type
  changes.
* The month is in reach: where it is not, the table has grown before the exception.
* More than four addresses, and a number that is not above the last one of the month, are found out
  behind the address index and the bounds of the months. -/
structure NothingNew (env : Env) (idx : TransactionsIndex) (c : ConfirmedGradidoTx) : Prop where
  keys : c.TooManyKeys → idx.NumberKnown c.txNr
  types : ¬ c.TooManyKeys → idx.mAddressIndex.Rejects c →
    idx.NumberKnown c.txNr ∧ idx.mAddressIndex.FirstEntered c
  reach : ¬ c.TooManyKeys → ¬ idx.mAddressIndex.Rejects c →
    idx.InReach (yearMonthOf c.confirmedAt.getAsTimepoint)
  entries : ¬ c.TooManyKeys → ¬ idx.mAddressIndex.Rejects c →
    4 < (involved env c).length ∨
        idx.HasHigher (yearMonthOf c.confirmedAt.getAsTimepoint) c.txNr →
      idx.NumberKnown c.txNr ∧ idx.mAddressIndex.Knows c ∧
        idx.MonthKnown (yearMonthOf c.confirmedAt.getAsTimepoint)

/-- **An insertion into the index by months** leaves nothing behind when it throws exactly if its
number is too low or nothing was new. -/
theorem Inserted.keepsState_addIndicesForTransaction (h : Inserted own idx) (env : Env)
    (c : ConfirmedGradidoTx) :
    KeepsState idx (idx.addIndicesForTransaction env c) ↔
      idx.IsLower c.txNr ∨ NothingNew env idx c := by
  unfold addIndicesForTransaction
  by_cases hlower : idx.IsLower c.txNr
  · obtain ⟨e, he⟩ := transactionNrUpdateBounds_of_isLower h.le hlower
    rw [he]
    exact iff_of_true (fun _ => rfl) (.inl hlower)
  rw [or_iff_right hlower, andThen_of_ok _ (transactionNrUpdateBounds_of_not_isLower hlower),
    transactionNrUpdateBounds_fst]
  have hkeys := @getInvolvedAddresses_error_iff env c
  cases haddresses : c.getInvolvedAddresses env with
  | error e =>
    have hmany := hkeys.1 ⟨e, haddresses⟩
    rw [keepsState_of_error rfl]
    dsimp only
    constructor
    · intro heq
      have hmin := congrArg mMinTransactionNr heq
      have hmax := congrArg mMaxTransactionNr heq
      exact ⟨fun _ => numberKnown_of_eq hmin hmax, fun hfew => absurd hmany hfew,
        fun hfew => absurd hmany hfew, fun hfew => absurd hmany hfew⟩
    · exact fun hnew => boundedBy_eq_self (hnew.keys hmany)
  | ok addresses =>
    have hfew : ¬ c.TooManyKeys := fun hmany => by
      obtain ⟨e, he⟩ := hkeys.2 hmany
      rw [haddresses] at he
      simp at he
    have hinvolved : involved env c = addresses := by
      rw [involved, haddresses]
      rfl
    obtain ⟨hthrows, hkeeps⟩ := idx.mAddressIndex.addTransaction_throws c
    have haddress : (idx.boundedBy c.txNr).mAddressIndex = idx.mAddressIndex := rfl
    dsimp only
    rw [haddress]
    cases hresult : (idx.mAddressIndex.addTransaction c).2 with
    | error e =>
      have herror : (idx.mAddressIndex.addTransaction c).2 ≠ .ok () := by simp [hresult]
      have hrejects := hthrows.1 herror
      dsimp only [andThen]
      rw [keepsState_of_error rfl]
      dsimp only
      constructor
      · intro heq
        have hmin := congrArg mMinTransactionNr heq
        have hmax := congrArg mMaxTransactionNr heq
        have hsame := congrArg mAddressIndex heq
        exact ⟨fun hmany => absurd hmany hfew,
          fun _ _ => ⟨numberKnown_of_eq hmin hmax, hkeeps.1 (fun _ => hsame) hrejects⟩,
          fun _ hnot => absurd hrejects hnot, fun _ hnot => absurd hrejects hnot⟩
      · intro hnew
        obtain ⟨hnumber, hfirst⟩ := hnew.types hfew hrejects
        rw [boundedBy_eq_self hnumber, hkeeps.2 (fun _ => hfirst) herror]
    | ok u =>
      have hnot : ¬ idx.mAddressIndex.Rejects c := fun hrejects => hthrows.2 hrejects hresult
      dsimp only [andThen]
      change KeepsState idx ((idx.known c).addIndices c.transactionType (coinOf c)
        (yearMonthOf c.confirmedAt.getAsTimepoint) c.txNr
        (addresses.map PublicKeyIndex.publicKeyIndex) (balanceChangingBits c addresses)) ↔ _
      rw [keepsState_addIndices_known hlower, List.length_map, ← hinvolved,
        idx.mAddressIndex.addTransaction_eq_self hresult]
      exact ⟨fun hand => ⟨fun hmany => absurd hmany hfew, fun _ hrejects => absurd hrejects hnot,
        fun _ _ => hand.1, fun _ _ => hand.2⟩,
          fun hnew => ⟨hnew.reach hfew hnot, hnew.entries hfew hnot⟩⟩

end TransactionsIndex

/-! ### Both indexes -/

open Gradido.ByMonth.TransactionsIndex (Inserted)

open Gradido.TransactionsIndex (january5 january10)

/-- A registration with more signatures than there is room for. -/
def manySigned : ConfirmedGradidoTx :=
  { january10 with signaturePublicKeys := [1, 10, 11, 12, 13, 14] }

end ByMonth

end Gradido
