import GradidoBlockchain.Blockchain.MonthIndex
import GradidoBlockchain.Lib.Cursor

/-!
# The search iterator of the index by months

`TransactionsIndex::SearchIterator`, with which a caller goes from one
transaction that a filter uses to the next, and `createSearchIterator`, which
places the iterators of `begin` and `end`.  The cursors are as narrow as in the
class: a byte for the month and 32 bits for the entry.  The assertions are
left out, as in a release.
-/

namespace Gradido

open Checked

namespace ByMonth

/-- What keeps a call from returning: an exception, a computation that C++ leaves undefined, or a
loop without an end. -/
inductive Fault
  | thrown (e : Exception)
  | undefined
  | endless
deriving DecidableEq, Repr

/-- A call that throws or returns. -/
def throws {α : Type} (x : Except Exception α) : Except Fault α := x.mapError Fault.thrown

/-- A bound on the rounds of a loop: there are 256 months and 2 ^ 32 entries for the cursors, so
that in one round more they stand where they stood before. -/
@[irreducible] def loopBound : ℕ := 2 ^ 40

/-- The difference of two unsigned numbers of 64 bits. -/
def difference (a b : ℕ) : ℕ := (a + 2 ^ 64 - b) % 2 ^ 64

/-- `TransactionsIndex::SearchIterator`; the index `mParent` is an argument of its functions. -/
structure SearchIterator where
  mFilter : CompactFilter
  mTxNr : ℕ
  mEntryIndex : ℕ
  mMonthYearIndex : ℕ
  mMaxMonthYearIndex : ℕ
  mMinMonthYearIndex : ℕ
  mStopped : Bool

namespace SearchIterator

/-- `isReversed`. -/
def isReversed (it : SearchIterator) : Bool := decide (it.mFilter.searchDirection = .desc)

/-- The assignment `mStopped = true`. -/
def stop (it : SearchIterator) : SearchIterator := { it with mStopped := true }

/-- `filterCurrentEntry`, with the bucket of the month; a zero says that the entry is not used. -/
def filterCurrentEntry (it : SearchIterator) (bucket : List TransactionsIndexEntry) :
    SearchIterator × ℕ :=
  if it.mStopped then (it, 0)
  else if it.mMonthYearIndex > it.mMaxMonthYearIndex then (it.stop, 0)
  else
    match bucket[it.mEntryIndex]? with
    | none => (it.stop, 0)
    | some entry =>
      let filterResult := entry.isMatchingFilter it.mFilter
      ({ it with mStopped := filterResult.stop },
        if filterResult.use then entry.transactionNr else 0)

/-- `findNextInRange`. -/
def findNextInRange : SearchIterator → List TransactionsIndexEntry → SearchIterator × ℕ
  | it, [] => (it, 0)
  | it, entry :: range =>
    let filterResult := entry.isMatchingFilter it.mFilter
    let it := if filterResult.stop then it.stop else it
    if filterResult.use then (it, entry.transactionNr)
    else if it.mStopped then (it, 0)
    else findNextInRange it range

/-- The comparison of iterators. -/
def equals (a b : SearchIterator) : Bool := a.mStopped == b.mStopped

/-- The constructor `SearchIterator(parent, txNr)`, which does not set `mMinMonthYearIndex`. -/
def past (idx : TransactionsIndex) (txNr : ℕ) : SearchIterator where
  mFilter := {}
  mTxNr := txNr
  mEntryIndex := 0
  mMonthYearIndex := idx.monthCount % 2 ^ 8
  mMaxMonthYearIndex := idx.monthCount % 2 ^ 8
  mMinMonthYearIndex := 0
  mStopped := true

end SearchIterator

namespace TransactionsIndex

open SearchIterator

/-- `front().transactionNr` of a month with entries. -/
def firstNrOf (idx : TransactionsIndex) (month : ℕ) : ℕ :=
  ((idx.mYearMonthAddressIndexEntries month).head?.map
    TransactionsIndexEntry.transactionNr).getD 0

/-! ### Going on -/

/-- The loop `skip holes` of `advance`: from a month to the next one with entries.  The first
argument is the number of months up to the last one. -/
def skipForward (idx : TransactionsIndex) : ℕ → ℕ → Option ℕ
  | 0, _ => none
  | n + 1, month =>
    if idx.mYearMonthAddressIndexEntries (month + 1) = [] then skipForward idx n (month + 1)
    else some (month + 1)

/-- The same back to the month before with entries; the first argument is the number of months down
to the first one. -/
def skipBack (idx : TransactionsIndex) : ℕ → ℕ → Option ℕ
  | 0, _ => none
  | n + 1, month =>
    if idx.mYearMonthAddressIndexEntries (month - 1) = [] then skipBack idx n (month - 1)
    else some (month - 1)

/-- The loops of `advance` for the ascending order, at the test for the end of the month.  In a
month without entries the size less one is the largest number. -/
def advanceForward (idx : TransactionsIndex) : ℕ → SearchIterator →
    Except Fault (SearchIterator × ℕ)
  | 0, _ => .error .endless
  | n + 1, it =>
    let bucket := idx.mYearMonthAddressIndexEntries it.mMonthYearIndex
    if bucket ≠ [] ∧ bucket.length - 1 ≤ it.mEntryIndex then
      match idx.skipForward (it.mMaxMonthYearIndex - it.mMonthYearIndex) it.mMonthYearIndex with
      | none => .ok ({ it with mMonthYearIndex := it.mMaxMonthYearIndex, mStopped := true }, 0)
      | some month =>
        let r := { it with mMonthYearIndex := month, mEntryIndex := 0 }.filterCurrentEntry
          (idx.mYearMonthAddressIndexEntries month)
        if r.2 ≠ 0 ∨ r.1.mStopped = true then .ok r else advanceForward idx n r.1
    else
      let r := { it with mEntryIndex := (it.mEntryIndex + 1) % 2 ^ 32 }.filterCurrentEntry bucket
      if r.2 ≠ 0 ∨ r.1.mStopped = true then .ok r else advanceForward idx n r.1

/-- The loops of `advance` for the descending order.  The steps to the start of the range are
counted with an `int`. -/
def advanceBack (idx : TransactionsIndex) : ℕ → SearchIterator →
    Except Fault (SearchIterator × ℕ)
  | 0, _ => .error .endless
  | n + 1, it =>
    if it.mEntryIndex = 0 then
      if it.mMonthYearIndex = it.mMinMonthYearIndex then .ok (it.stop, 0)
      else if it.mMonthYearIndex = 0 then .error (.thrown (.gradidoNodeInvalidData
        "mMonthYearIndex is unecpected on 0"))
      else
        match idx.skipBack (it.mMonthYearIndex - it.mMinMonthYearIndex) it.mMonthYearIndex with
        | none => .ok ({ it with mMonthYearIndex := it.mMinMonthYearIndex, mStopped := true }, 0)
        | some month => advanceBack idx n { it with
            mMonthYearIndex := month
            mEntryIndex := (idx.mYearMonthAddressIndexEntries month).length % 2 ^ 32 }
    else
      let bucket := idx.mYearMonthAddressIndexEntries it.mMonthYearIndex
      if intMax < bucket.length - it.mEntryIndex then .error .undefined
      else
        let r := it.findNextInRange (bucket.reverse.drop (bucket.length - it.mEntryIndex))
        if r.2 ≠ 0 then .ok ({ r.1 with
          mEntryIndex := difference r.2 (idx.firstNrOf it.mMonthYearIndex) % 2 ^ 32 }, r.2)
        else if r.1.mStopped then .ok ({ r.1 with mEntryIndex := 0 }, 0)
        else advanceBack idx n { r.1 with mEntryIndex := 0 }

/-- `advance`. -/
def advance (idx : TransactionsIndex) (it : SearchIterator) (reversed : Bool) :
    Except Fault (SearchIterator × ℕ) :=
  if it.mStopped then .ok (it, 0)
  else if it.mMonthYearIndex > it.mMaxMonthYearIndex then
    .error (.thrown (.gradidoNodeInvalidData
      "TransactionsIndex::SearchIterator::advance dont't work like expected, month year index is outside of allowed range"))
  else if reversed then idx.advanceBack loopBound it
  else idx.advanceForward loopBound it

/-- `getCurrentOrNext`. -/
def getCurrentOrNext (idx : TransactionsIndex) (it : SearchIterator) (reversed : Bool) :
    Except Fault (SearchIterator × ℕ) :=
  let bucket := idx.mYearMonthAddressIndexEntries it.mMonthYearIndex
  if it.mMonthYearIndex > it.mMaxMonthYearIndex ∨ bucket.length ≤ it.mEntryIndex then
    .ok (it.stop, 0)
  else
    let r := it.filterCurrentEntry bucket
    if r.2 ≠ 0 then .ok r else idx.advance r.1 reversed

/-- The prefix `operator++`. -/
def increment (idx : TransactionsIndex) (it : SearchIterator) : Except Fault SearchIterator := do
  let r ← idx.advance it it.isReversed
  return { r.1 with mTxNr := if r.2 ≠ 0 then r.2 else r.1.mTxNr }

/-! ### Placing -/

/-- The constructor `SearchIterator(parent, filter, entryIndex, monthYearIndex)`. -/
def searchIterator (idx : TransactionsIndex) (filter : CompactFilter)
    (entryIndex monthYearIndex : ℕ) : Except Fault SearchIterator := do
  let last ← throws (idx.yearMonthToIndex (timepointAsYearMonth filter.timepointInterval.endDate))
  let first ← throws (idx.yearMonthToIndex
    (timepointAsYearMonth filter.timepointInterval.startDate))
  let it : SearchIterator :=
    { mFilter := filter
      mTxNr := 0
      mEntryIndex := entryIndex % 2 ^ 32
      mMonthYearIndex := monthYearIndex % 2 ^ 8
      mMaxMonthYearIndex := last % 2 ^ 8
      mMinMonthYearIndex := first % 2 ^ 8
      mStopped := decide (monthYearIndex % 2 ^ 8 < first % 2 ^ 8 ∨
        monthYearIndex % 2 ^ 8 > last % 2 ^ 8) }
  let r ← idx.getCurrentOrNext it it.isReversed
  return { r.1 with mTxNr := r.2 }

/-- The loop of `createSearchIterator` down to a month that does not start above an upper bound:
`front()` of a month without entries is undefined. -/
def descend (idx : TransactionsIndex) (maxTransactionNr : ℕ) : ℕ → Except Fault ℕ
  | 0 => if idx.mYearMonthAddressIndexEntries 0 = [] then .error .undefined else .ok 0
  | month + 1 =>
    match (idx.mYearMonthAddressIndexEntries (month + 1)).head? with
    | none => .error .undefined
    | some front =>
      if front.transactionNr > maxTransactionNr then descend idx maxTransactionNr month
      else .ok (month + 1)

/-- The loop up to a month that does not end below a lower bound.  The first argument is the number
of months up to the last one that there is. -/
def climb (idx : TransactionsIndex) (minTransactionNr : ℕ) : ℕ → ℕ → Except Fault ℕ
  | 0, month =>
    if idx.mYearMonthAddressIndexEntries month = [] then .error .undefined else .ok month
  | n + 1, month =>
    match (idx.mYearMonthAddressIndexEntries month).getLast? with
    | none => .error .undefined
    | some back =>
      if back.transactionNr < minTransactionNr then climb idx minTransactionNr n (month + 1)
      else .ok month

/-- The month and the entry of `createSearchIterator` for `begin with last entry`. -/
def lastPlace (idx : TransactionsIndex) (filter : CompactFilter) : Except Fault (ℕ × ℕ) := do
  let month ← throws (idx.yearMonthToIndex (timepointAsYearMonth filter.timepointInterval.endDate))
  if filter.maxTransactionNr = 0 then
    return (month, difference (idx.mYearMonthAddressIndexEntries month).length 1)
  let month ← idx.descend filter.maxTransactionNr month
  return (month, difference filter.maxTransactionNr (idx.firstNrOf month))

/-- The month and the entry for `begin with first entry`. -/
def firstPlace (idx : TransactionsIndex) (filter : CompactFilter) : Except Fault (ℕ × ℕ) := do
  let month ← throws (idx.yearMonthToIndex
    (timepointAsYearMonth filter.timepointInterval.startDate))
  if filter.minTransactionNr = 0 then return (month, 0)
  let month ← idx.climb filter.minTransactionNr (idx.monthCount - 1 - month) month
  return (month, difference filter.minTransactionNr (idx.firstNrOf month))

/-- `empty`. -/
def isEmpty (idx : TransactionsIndex) : Bool :=
  decide (idx.mMinTransactionNr = 0) && decide (idx.mMaxTransactionNr = 0)

/-- The test of `createSearchIterator` on the interval of the filter. -/
def isOverlap (idx : TransactionsIndex) (f : CompactFilter) : Except Exception Bool :=
  if f.timepointInterval.isEmpty then return true
  else do
    let interval ← idx.interval
    return f.timepointInterval.isOverlap interval

/-- The filter of the iterators: the last change of a balance is an upper bound. -/
def iteratorFilter (idx : TransactionsIndex) (originalFilter : CompactFilter) :
    Except Exception CompactFilter :=
  match originalFilter.publicKeySearchType with
  | .missingIndex =>
    .error (.gradidoNodeInvalidData "invalid filter, PublicKeySearchType is MissingIndex")
  | .balanceChangingPublicKey => do
    let last ← idx.lastBalanceChanged originalFilter.publicKeyIndex
    return { originalFilter with
      maxTransactionNr :=
        if last ≠ 0 ∧ (originalFilter.maxTransactionNr = 0 ∨
          originalFilter.maxTransactionNr > last) then last
        else originalFilter.maxTransactionNr }
  | _ => .ok originalFilter

/-- `createSearchIterator`. -/
def createSearchIterator (idx : TransactionsIndex) (originalFilter : CompactFilter)
    (isEnd : Bool) : Except Fault SearchIterator := do
  let outside := past idx (idx.mMaxTransactionNr + 1)
  if idx.isEmpty then return outside
  let overlap ← throws (idx.isOverlap originalFilter)
  if !overlap || idx.outOfBounds originalFilter then return outside
  let filter ← throws (idx.iteratorFilter originalFilter)
  let interval ← throws (idx.filteredTimepointInterval filter)
  let filter := { filter with timepointInterval := interval }
  let place ←
    if originalFilter.searchDirection = .desc ∧ isEnd = false ∨
        originalFilter.searchDirection = .asc ∧ isEnd = true then idx.lastPlace filter
    else idx.firstPlace filter
  let it ← idx.searchIterator filter place.2 place.1
  -- the iterator of the end is set past its place
  if isEnd then idx.increment it else return it

/-- The loop `for (auto it = begin(f); it != end(f); ++it)` of a caller: the numbers that `*it`
gives. -/
def enumerate (idx : TransactionsIndex) (f : CompactFilter) : Except Fault (List ℕ) := do
  let begin ← idx.createSearchIterator f false
  let pastEnd ← idx.createSearchIterator f true
  Cursor.collect (fun it => it.equals pastEnd) mTxNr idx.increment .endless loopBound begin

end TransactionsIndex

end ByMonth

end Gradido
