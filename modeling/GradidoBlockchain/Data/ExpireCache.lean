import GradidoBlockchain.Lib.Expiry
import GradidoBlockchain.Lib.Steps

/-!
# Expire caches

`ExpireCache` and `AccessExpireCache` keep values for some time: from when they
were added, or also from when they were last got.  The times stand beside the
values, in a multimap that is only looked through from its front when a value is
added; `remove` leaves the entry of a key there.

The clock is read in the calls, and each reading is an argument here.
-/

namespace Gradido

open Expiry Steps

variable {K V W : Type} [DecidableEq K]

/-- The members that both caches have; `W` is what they store for a value. -/
structure Cache (K W : Type) where
  mTimeout : ℤ
  mValues : K → Option W
  mValuePairCreationTimes : List (ℤ × K)

namespace Cache

/-- A new cache. -/
def empty (mTimeout : ℤ) : Cache K W := ⟨mTimeout, fun _ => none, []⟩

/-- `removeExpiredValues`. -/
def removeExpiredValues (c : Cache K W) (now : ℤ) : Cache K W :=
  let left := expire c.mTimeout now c.mValuePairCreationTimes c.mValues
  { c with mValues := left.1, mValuePairCreationTimes := left.2 }

/-- `add`, with what is stored and its time. -/
def add (c : Cache K W) (key : K) (stored : W) (now later : ℤ) : Cache K W :=
  { c with
    mValues := Function.update c.mValues key (some stored)
    mValuePairCreationTimes := insertTime (now, key) c.mValuePairCreationTimes
  }.removeExpiredValues later

/-- `remove`: the entry of the key stays. -/
def remove (c : Cache K W) (key : K) : Cache K W :=
  { c with mValues := Function.update c.mValues key none }

/-- `clear`. -/
def clear (c : Cache K W) : Cache K W :=
  { c with mValues := fun _ => none, mValuePairCreationTimes := [] }

end Cache

/-- `ExpireCache::add`. -/
def ExpireCache.add (c : Cache K V) (key : K) (val : V) (now later : ℤ) : Cache K V :=
  c.add key val now later

/-- `ExpireCache::get`, which changes nothing. -/
def ExpireCache.get (c : Cache K V) (key : K) (_now : ℤ) : Option V × Cache K V :=
  (c.mValues key, c)

/-- `AccessExpireCache::add`; the second component of what is stored is `timepoint`.  A key that is
there keeps what it has. -/
def AccessExpireCache.add (c : Cache K (V × ℤ)) (key : K) (val : V) (now later : ℤ) :
    Cache K (V × ℤ) :=
  let stored := (c.mValues key).getD (val, now)
  c.add key stored stored.2 later

/-- `AccessExpireCache::get`: the first entry of the key among those of its time goes behind. -/
def AccessExpireCache.get (c : Cache K (V × ℤ)) (key : K) (now : ℤ) :
    Option V × Cache K (V × ℤ) :=
  match c.mValues key with
  | none => (none, c)
  | some (value, timepoint) =>
    if (timepoint, key) ∈ c.mValuePairCreationTimes then
      (some value, { c with
        mValues := Function.update c.mValues key (some (value, now))
        mValuePairCreationTimes :=
          insertTime (now, key) (c.mValuePairCreationTimes.erase (timepoint, key)) })
    else (some value, c)

/-! ### Runs -/

/-- The functions of a cache, whether a `get` counts as a use of the value, the value in what is
stored, and its time where that is stored as well. -/
structure CacheClass (K V W : Type) where
  add : Cache K W → K → V → ℤ → ℤ → Cache K W
  get : Cache K W → K → ℤ → Option V × Cache K W
  renews : Bool
  valueOf : W → V
  IsStamped : W → ℤ → Prop

/-- `ExpireCache`. -/
def expireCache : CacheClass K V V where
  add := ExpireCache.add
  get := ExpireCache.get
  renews := false
  valueOf := id
  IsStamped _ _ := True

/-- `AccessExpireCache`. -/
def accessExpireCache : CacheClass K V (V × ℤ) where
  add := AccessExpireCache.add
  get := AccessExpireCache.get
  renews := true
  valueOf := Prod.fst
  IsStamped stored time := stored.2 = time

/-- The calls; the last arguments are what the clock shows in them. -/
inductive CacheCall (K V : Type)
  | add (key : K) (val : V) (now later : ℤ)
  | remove (key : K)
  | get (key : K) (now : ℤ)
  | clear

/-- A cache in a run.  Beside it stands what the calls so far promise: for every key that was not
removed since, the value of its last `add` and when that was last used. -/
structure CacheRun (K V W : Type) where
  cache : Cache K W
  last : K → Option (V × ℤ)
  clock : ℤ
  justAdded : Bool

namespace CacheRun

/-- Before any call. -/
def start (mTimeout clock : ℤ) : CacheRun K V W := ⟨.empty mTimeout, fun _ => none, clock, false⟩

variable (cls : CacheClass K V W)

/-- A call, when the clock does not go back and a key that is added is absent. -/
def step (s : CacheRun K V W) : CacheCall K V → Option (CacheRun K V W)
  | .add key val now later =>
    if (s.cache.mValues key).isNone ∧ s.clock ≤ now ∧ now ≤ later then
      some ⟨cls.add s.cache key val now later, Function.update s.last key (some (val, now)),
        later, true⟩
    else none
  | .remove key =>
    some ⟨s.cache.remove key, Function.update s.last key none, s.clock, false⟩
  | .get key now =>
    if s.clock ≤ now then
      some ⟨(cls.get s.cache key now).2,
        if cls.renews then Function.update s.last key ((s.last key).map (fun p => (p.1, now)))
        else s.last, now, false⟩
    else none
  | .clear => some ⟨s.cache.clear, fun _ => none, s.clock, false⟩

/-- From now on a value that was used less than the timeout ago is got; and after an `add` no value
is left that was not. -/
structure Keeps (s : CacheRun K V W) : Prop where
  got : ∀ key val time now, s.last key = some (val, time) → s.clock ≤ now →
    now - time ≤ s.cache.mTimeout → (cls.get s.cache key now).1 = some val
  noneOld : s.justAdded = true → ∀ key, (s.cache.mValues key).isSome = true →
    ∃ val time, s.last key = some (val, time) ∧ s.clock - time ≤ s.cache.mTimeout

/-- No entry that an `add` finds too old is of a key with a value that is not; and no `get` that
renews a value is for one that was erased as too old. -/
def Allowed (s : CacheRun K V W) : CacheCall K V → Prop
  | .add key val now later => ∀ old k used v,
      (old, k) ∈ s.cache.mValuePairCreationTimes → s.cache.mTimeout < later - old →
      Function.update s.last key (some (val, now)) k = some (v, used) →
      s.cache.mTimeout < later - used
  | .get key _ => cls.renews = true → 0 ≤ s.cache.mTimeout → (s.last key).isSome = true →
      (s.cache.mValues key).isSome = true
  | _ => True

/-- The times and the values: every value has an entry for when it was last used. -/
structure Tracks (s : CacheRun K V W) : Prop where
  sorted : Sorted s.cache.mValuePairCreationTimes
  le_clock : ∀ p ∈ s.cache.mValuePairCreationTimes, p.1 ≤ s.clock
  entry : ∀ key stored, s.cache.mValues key = some stored → ∃ time,
    s.last key = some (cls.valueOf stored, time) ∧ cls.IsStamped stored time ∧
      (time, key) ∈ s.cache.mValuePairCreationTimes
  used_le : ∀ key val time, s.last key = some (val, time) → time ≤ s.clock
  noneOld : s.justAdded = true → ∀ p ∈ s.cache.mValuePairCreationTimes,
    s.clock - p.1 ≤ s.cache.mTimeout

end CacheRun

/-! ### One call -/

/-- What a run relies on. -/
structure CacheClass.Lawful (cls : CacheClass K V W) : Prop where
  add : ∀ (c : Cache K W) key val now later, c.mValues key = none → ∃ stored,
    cls.add c key val now later = c.add key stored now later ∧ cls.valueOf stored = val ∧
      cls.IsStamped stored now
  got : ∀ c key now, (cls.get c key now).1 = (c.mValues key).map cls.valueOf
  miss : ∀ c key now, c.mValues key = none → (cls.get c key now).2 = c
  kept : cls.renews = false → ∀ c key now, (cls.get c key now).2 = c
  renewed : cls.renews = true → ∀ (c : Cache K W) key now stored time,
    c.mValues key = some stored → cls.IsStamped stored time →
      (time, key) ∈ c.mValuePairCreationTimes → ∃ stored',
        cls.valueOf stored' = cls.valueOf stored ∧ cls.IsStamped stored' now ∧
          (cls.get c key now).2 =
            { c with
              mValues := Function.update c.mValues key (some stored')
              mValuePairCreationTimes :=
                insertTime (now, key) (c.mValuePairCreationTimes.erase (time, key)) }

theorem expireCache_lawful : (expireCache : CacheClass K V V).Lawful where
  add c key val now later _ := ⟨val, rfl, rfl, trivial⟩
  got c key now := by
    show c.mValues key = (c.mValues key).map id
    rw [Option.map_id, id]
  miss _ _ _ _ := rfl
  kept _ _ _ _ := rfl
  renewed h := absurd h Bool.false_ne_true

theorem accessExpireCache_lawful : (accessExpireCache : CacheClass K V (V × ℤ)).Lawful where
  add c key val now later habsent := by
    refine ⟨(val, now), ?_, rfl, rfl⟩
    show AccessExpireCache.add c key val now later = c.add key (val, now) now later
    rw [AccessExpireCache.add, habsent, Option.getD_none]
  got c key now := by
    show (AccessExpireCache.get c key now).1 = (c.mValues key).map Prod.fst
    unfold AccessExpireCache.get
    cases c.mValues key with
    | none => rfl
    | some stored =>
      dsimp only
      split_ifs <;> rfl
  miss c key now habsent := by
    show (AccessExpireCache.get c key now).2 = c
    rw [AccessExpireCache.get, habsent]
  kept h := absurd h.symm Bool.false_ne_true
  renewed _ c key now stored time hstored htime hmem := by
    obtain ⟨value, timepoint⟩ := stored
    obtain rfl : timepoint = time := htime
    refine ⟨(value, now), rfl, rfl, ?_⟩
    show (AccessExpireCache.get c key now).2 = _
    rw [AccessExpireCache.get, hstored]
    dsimp only
    rw [if_pos hmem]

namespace CacheRun

variable {cls : CacheClass K V W} {s t : CacheRun K V W}

/-- The entries that an `add` leaves. -/
theorem Tracks.mem_add (hs : s.Tracks cls) {key : K} {stored : W} {now later : ℤ} {p : ℤ × K} :
    p ∈ (s.cache.add key stored now later).mValuePairCreationTimes ↔
      (p = (now, key) ∨ p ∈ s.cache.mValuePairCreationTimes) ∧
        later - p.1 ≤ s.cache.mTimeout := by
  rw [← mem_insertTime]
  exact mem_expire (hs.sorted.insertTime (now, key))

/-- The values that an `add` leaves: those without an entry that is too old. -/
theorem Tracks.add_eq_some (hs : s.Tracks cls) {key k : K} {stored w : W} {now later : ℤ} :
    (s.cache.add key stored now later).mValues k = some w ↔
      Function.update s.cache.mValues key (some stored) k = some w ∧
        ∀ time, (time, k) = (now, key) ∨ (time, k) ∈ s.cache.mValuePairCreationTimes →
          later - time ≤ s.cache.mTimeout := by
  simp only [← mem_insertTime]
  have hsorted := hs.sorted.insertTime (now, key)
  by_cases hfresh : ∀ time, (time, k) ∈ insertTime (now, key) s.cache.mValuePairCreationTimes →
      later - time ≤ s.cache.mTimeout
  · rw [and_iff_left hfresh]
    exact Eq.congr_left (expire_of_fresh hfresh)
  · have hold := hfresh
    push Not at hold
    obtain ⟨time, hmem, hlt⟩ := hold
    have hnone : (s.cache.add key stored now later).mValues k = none :=
      expire_of_old hsorted hmem hlt
    rw [hnone]
    exact iff_of_false (fun h => by cases h) (fun h => hfresh h.2)

omit [DecidableEq K] in
/-- A later clock. -/
theorem Tracks.wait (hs : s.Tracks cls) {now : ℤ} (hnow : s.clock ≤ now) :
    (⟨s.cache, s.last, now, false⟩ : CacheRun K V W).Tracks cls where
  sorted := hs.sorted
  le_clock p hp := (hs.le_clock p hp).trans hnow
  entry := hs.entry
  used_le k v time hk := (hs.used_le k v time hk).trans hnow
  noneOld h := absurd h Bool.false_ne_true

theorem Tracks.add (hs : s.Tracks cls) {key : K} {stored : W} {now later : ℤ}
    (hstamp : cls.IsStamped stored now) (hnow : s.clock ≤ now) (hlater : now ≤ later) :
    (⟨s.cache.add key stored now later,
      Function.update s.last key (some (cls.valueOf stored, now)), later, true⟩ :
        CacheRun K V W).Tracks cls where
  sorted := (hs.sorted.insertTime (now, key)).expire
  le_clock p hp := by
    obtain ⟨rfl | hp, -⟩ := hs.mem_add.1 hp
    · exact hlater
    · exact (hs.le_clock p hp).trans (hnow.trans hlater)
  entry k w hk := by
    dsimp only at hk ⊢
    obtain ⟨hk, hfresh⟩ := hs.add_eq_some.1 hk
    by_cases hkey : k = key
    · rw [hkey, Function.update_self, Option.some.injEq] at hk
      refine ⟨now, ?_, hk ▸ hstamp, hs.mem_add.2 ⟨.inl (by rw [hkey]), hfresh now
        (.inl (by rw [hkey]))⟩⟩
      rw [hkey, Function.update_self, ← hk]
    · rw [Function.update_of_ne hkey] at hk ⊢
      obtain ⟨time, hlast, hstamp', hmem⟩ := hs.entry k w hk
      exact ⟨time, hlast, hstamp', hs.mem_add.2 ⟨.inr hmem, hfresh time (.inr hmem)⟩⟩
  used_le k v time hk := by
    dsimp only at hk ⊢
    by_cases hkey : k = key
    · rw [hkey, Function.update_self, Option.some.injEq, Prod.mk.injEq] at hk
      rw [← hk.2]
      exact hlater
    · rw [Function.update_of_ne hkey] at hk
      exact (hs.used_le k v time hk).trans (hnow.trans hlater)
  noneOld _ p hp := (hs.mem_add.1 hp).2

theorem Tracks.remove (hs : s.Tracks cls) (key : K) :
    (⟨s.cache.remove key, Function.update s.last key none, s.clock, false⟩ :
      CacheRun K V W).Tracks cls where
  sorted := hs.sorted
  le_clock := hs.le_clock
  entry k w hk := by
    dsimp only [Cache.remove] at hk ⊢
    by_cases hkey : k = key
    · rw [hkey, Function.update_self] at hk
      cases hk
    · rw [Function.update_of_ne hkey] at hk ⊢
      exact hs.entry k w hk
  used_le k v time hk := by
    dsimp only at hk
    by_cases hkey : k = key
    · rw [hkey, Function.update_self] at hk
      cases hk
    · rw [Function.update_of_ne hkey] at hk
      exact hs.used_le k v time hk
  noneOld h := absurd h Bool.false_ne_true

/-- A value is used. -/
theorem Tracks.renew (hs : s.Tracks cls) {key : K} {stored stored' : W} {time now : ℤ}
    (hnow : s.clock ≤ now) (hlast : s.last key = some (cls.valueOf stored, time))
    (hvalue : cls.valueOf stored' = cls.valueOf stored) (hstamp : cls.IsStamped stored' now) :
    (⟨{ s.cache with
          mValues := Function.update s.cache.mValues key (some stored')
          mValuePairCreationTimes :=
            insertTime (now, key) (s.cache.mValuePairCreationTimes.erase (time, key)) },
      Function.update s.last key ((s.last key).map (fun p => (p.1, now))), now, false⟩ :
        CacheRun K V W).Tracks cls where
  sorted := Sorted.insertTime (List.Pairwise.sublist List.erase_sublist hs.sorted) _
  le_clock p hp := by
    obtain rfl | hp := mem_insertTime.1 hp
    · exact le_refl now
    · exact (hs.le_clock p (List.mem_of_mem_erase hp)).trans hnow
  entry k w hk := by
    dsimp only at hk ⊢
    by_cases hkey : k = key
    · rw [hkey, Function.update_self, Option.some.injEq] at hk
      refine ⟨now, ?_, hk ▸ hstamp, mem_insertTime.2 (.inl (by rw [hkey]))⟩
      rw [hkey, Function.update_self, hlast, ← hk, hvalue]
      rfl
    · rw [Function.update_of_ne hkey] at hk ⊢
      obtain ⟨used, hused, hstamp', hmem⟩ := hs.entry k w hk
      refine ⟨used, hused, hstamp', mem_insertTime.2 (.inr ?_)⟩
      rw [List.mem_erase_of_ne (fun h => hkey (congrArg Prod.snd h))]
      exact hmem
  used_le k v used hk := by
    dsimp only at hk ⊢
    by_cases hkey : k = key
    · rw [hkey, Function.update_self, hlast, Option.map_some, Option.some.injEq,
        Prod.mk.injEq] at hk
      exact le_of_eq hk.2.symm
    · rw [Function.update_of_ne hkey] at hk
      exact (hs.used_le k v used hk).trans hnow
  noneOld h := absurd h Bool.false_ne_true

/-- A value that is not there is not renewed. -/
theorem Tracks.miss (hs : s.Tracks cls) {key : K} {now : ℤ} (hnow : s.clock ≤ now)
    (habsent : s.cache.mValues key = none) :
    (⟨s.cache, Function.update s.last key ((s.last key).map (fun p => (p.1, now))), now, false⟩ :
      CacheRun K V W).Tracks cls where
  sorted := hs.sorted
  le_clock p hp := (hs.le_clock p hp).trans hnow
  entry k w hk := by
    have hkey : k ≠ key := by
      rintro rfl
      rw [habsent] at hk
      cases hk
    dsimp only
    rw [Function.update_of_ne hkey]
    exact hs.entry k w hk
  used_le k v used hk := by
    dsimp only at hk ⊢
    by_cases hkey : k = key
    · rw [hkey, Function.update_self, Option.map_eq_some_iff] at hk
      obtain ⟨p, -, hp⟩ := hk
      exact le_of_eq (congrArg Prod.snd hp).symm
    · rw [Function.update_of_ne hkey] at hk
      exact (hs.used_le k v used hk).trans hnow
  noneOld h := absurd h Bool.false_ne_true

/-- What a call does, with the cache as the call leaves it. -/
theorem step_get (hcls : cls.Lawful) (hs : s.Tracks cls) {key : K} {now : ℤ}
    (hstep : s.step cls (.get key now) = some t) :
    s.clock ≤ now ∧ t.Tracks cls ∧ t.clock = now ∧ t.cache.mTimeout = s.cache.mTimeout ∧
      (∀ k, (t.cache.mValues k).map cls.valueOf = (s.cache.mValues k).map cls.valueOf) ∧
      t.last = if cls.renews then
        Function.update s.last key ((s.last key).map (fun p => (p.1, now))) else s.last := by
  rw [step] at hstep
  split_ifs at hstep with hnow hrenews
  · cases hstep
    cases hvalue : s.cache.mValues key with
    | none =>
      rw [hcls.miss _ _ _ hvalue, if_pos hrenews]
      exact ⟨hnow, hs.miss hnow hvalue, rfl, rfl, fun _ => rfl, rfl⟩
    | some stored =>
      obtain ⟨time, hlast, hstamp, hmem⟩ := hs.entry key stored hvalue
      obtain ⟨stored', hsame, hstamp', hget⟩ :=
        hcls.renewed hrenews s.cache key now stored time hvalue hstamp hmem
      rw [hget, if_pos hrenews]
      refine ⟨hnow, hs.renew hnow hlast hsame hstamp', rfl, rfl, fun k => ?_, rfl⟩
      dsimp only
      by_cases hkey : k = key
      · rw [hkey, Function.update_self, hvalue, Option.map_some, Option.map_some, hsame]
      · rw [Function.update_of_ne hkey]
  · cases hstep
    rw [hcls.kept (by simpa using hrenews), if_neg hrenews]
    exact ⟨hnow, hs.wait hnow, rfl, rfl, fun _ => rfl, rfl⟩

theorem step_add (hcls : cls.Lawful) {key : K} {val : V} {now later : ℤ}
    (hstep : s.step cls (.add key val now later) = some t) :
    s.cache.mValues key = none ∧ s.clock ≤ now ∧ now ≤ later ∧ ∃ stored,
      cls.valueOf stored = val ∧ cls.IsStamped stored now ∧
        t = ⟨s.cache.add key stored now later,
          Function.update s.last key (some (cls.valueOf stored, now)), later, true⟩ := by
  rw [step] at hstep
  split_ifs at hstep with hcall
  obtain ⟨habsent, hnow, hlater⟩ := hcall
  rw [Option.isNone_iff_eq_none] at habsent
  obtain ⟨stored, hadd, hvalue, hstamp⟩ := hcls.add s.cache key val now later habsent
  cases hstep
  refine ⟨habsent, hnow, hlater, stored, hvalue, hstamp, ?_⟩
  rw [hadd, hvalue]

/-- Every call keeps the times and the values together. -/
theorem Tracks.step (hcls : cls.Lawful) (s : CacheRun K V W) (e : CacheCall K V)
    (t : CacheRun K V W) (hs : s.Tracks cls) (hstep : s.step cls e = some t) : t.Tracks cls := by
  cases e with
  | add key val now later =>
    obtain ⟨-, hnow, hlater, stored, -, hstamp, rfl⟩ := step_add hcls hstep
    exact hs.add hstamp hnow hlater
  | remove key =>
    cases hstep
    exact hs.remove key
  | get key now => exact (step_get hcls hs hstep).2.1
  | clear =>
    cases hstep
    exact ⟨List.Pairwise.nil, fun p hp => absurd hp List.not_mem_nil,
      (fun _ _ hk => by cases hk), (fun _ _ _ hk => by cases hk),
      fun h => absurd h Bool.false_ne_true⟩

/-! ### Whole runs -/

/-- At the time of the last call, a value that was used less than the timeout ago is there. -/
def Present (cls : CacheClass K V W) (s : CacheRun K V W) : Prop :=
  ∀ key val time, s.last key = some (val, time) → s.clock - time ≤ s.cache.mTimeout →
    (s.cache.mValues key).map cls.valueOf = some val

/-- What is there now is there later, and there is nothing old after an `add`. -/
theorem keeps_iff (hcls : cls.Lawful) (hs : s.Tracks cls) : s.Keeps cls ↔ s.Present cls := by
  constructor
  · intro h key val time hlast hfresh
    rw [← hcls.got s.cache key s.clock]
    exact h.got key val time s.clock hlast (le_refl _) hfresh
  · intro h
    refine ⟨fun key val time now hlast hnow hfresh => ?_, fun hadded key hsome => ?_⟩
    · rw [hcls.got]
      exact h key val time hlast (by omega)
    · obtain ⟨stored, hstored⟩ := Option.isSome_iff_exists.1 hsome
      obtain ⟨time, hlast, -, hmem⟩ := hs.entry key stored hstored
      exact ⟨_, time, hlast, hs.noneOld hadded _ hmem⟩

/-- An `add` erases no value that was used less than the timeout ago, where it is allowed. -/
theorem Present.add (hs : s.Tracks cls) (hpresent : s.Present cls) {key : K} {stored : W}
    {now later : ℤ} (hnow : s.clock ≤ now) (hlater : now ≤ later)
    (hallowed : s.Allowed cls (.add key (cls.valueOf stored) now later)) :
    (⟨s.cache.add key stored now later,
      Function.update s.last key (some (cls.valueOf stored, now)), later, true⟩ :
        CacheRun K V W).Present cls := by
  intro k val used hlast hfresh
  dsimp only at hlast hfresh ⊢
  have hclean : ∀ time, (time, k) = (now, key) ∨ (time, k) ∈ s.cache.mValuePairCreationTimes →
      later - time ≤ s.cache.mTimeout := by
    intro time htime
    obtain heq | hmem := htime
    · -- the entry that is new has the time of the value
      rw [Prod.mk.injEq] at heq
      rw [heq.2, Function.update_self, Option.some.injEq, Prod.mk.injEq] at hlast
      rw [heq.1, hlast.2]
      exact hfresh
    · by_contra hold
      exact absurd hfresh (not_le.2 (hallowed time k used val hmem (not_le.1 hold) hlast))
  have hthere : ∃ w, Function.update s.cache.mValues key (some stored) k = some w ∧
      cls.valueOf w = val := by
    by_cases hkey : k = key
    · rw [hkey, Function.update_self, Option.some.injEq, Prod.mk.injEq] at hlast
      exact ⟨stored, by rw [hkey, Function.update_self], hlast.1⟩
    · rw [Function.update_of_ne hkey] at hlast ⊢
      exact Option.map_eq_some_iff.1 (hpresent k val used hlast
        (le_trans (sub_le_sub_right (hnow.trans hlater) used) hfresh))
  obtain ⟨w, hw, hvalue⟩ := hthere
  rw [hs.add_eq_some.2 ⟨hw, hclean⟩, Option.map_some, hvalue]

omit [DecidableEq K] in
theorem present_of_none (h : ∀ key, t.last key = none) : t.Present cls := by
  intro key val time hlast
  rw [h] at hlast
  cases hlast

/-- A call that is allowed keeps the values. -/
theorem Present.step (hcls : cls.Lawful) (hs : s.Tracks cls) (hpresent : s.Present cls)
    {e : CacheCall K V} (hallowed : s.Allowed cls e) (hstep : s.step cls e = some t) :
    t.Present cls := by
  cases e with
  | add key val now later =>
    obtain ⟨-, hnow, hlater, stored, rfl, -, rfl⟩ := step_add hcls hstep
    exact hpresent.add hs hnow hlater hallowed
  | remove key =>
    cases hstep
    intro k val time hlast hfresh
    dsimp only [Cache.remove] at hlast hfresh ⊢
    by_cases hkey : k = key
    · rw [hkey, Function.update_self] at hlast
      cases hlast
    · rw [Function.update_of_ne hkey] at hlast ⊢
      exact hpresent k val time hlast hfresh
  | get key now =>
    obtain ⟨hnow, -, hclock, htimeout, hvalues, hlast'⟩ := step_get hcls hs hstep
    intro k val time hlast hfresh
    rw [hclock, htimeout] at hfresh
    rw [hvalues]
    rw [hlast'] at hlast
    have hearlier : ∀ used, s.last k = some (val, used) → now - used ≤ s.cache.mTimeout →
        (s.cache.mValues k).map cls.valueOf = some val :=
      fun used hused hle => hpresent k val used hused (by omega)
    split_ifs at hlast with hrenews
    · by_cases hkey : k = key
      · rw [hkey, Function.update_self, Option.map_eq_some_iff] at hlast
        obtain ⟨p, hp, hval⟩ := hlast
        rw [Prod.mk.injEq] at hval
        -- the value is there, so that it has the time before as well
        have hsome : (s.cache.mValues key).isSome = true :=
          hallowed hrenews (by omega) (by rw [hp]; rfl)
        obtain ⟨stored, hstored⟩ := Option.isSome_iff_exists.1 hsome
        obtain ⟨used, hused, -⟩ := hs.entry key stored hstored
        rw [hp, Option.some.injEq] at hused
        rw [hkey, hstored, Option.map_some, ← hval.1, hused]
      · rw [Function.update_of_ne hkey] at hlast
        exact hearlier time hlast hfresh
    · exact hearlier time hlast hfresh
  | clear =>
    cases hstep
    exact present_of_none (fun _ => rfl)

/-- A call that is not allowed loses a value. -/
theorem not_present_of_not_allowed (hcls : cls.Lawful) (hs : s.Tracks cls) {e : CacheCall K V}
    (hallowed : ¬ s.Allowed cls e) (hstep : s.step cls e = some t) : ¬ t.Present cls := by
  intro hpresent
  refine hallowed ?_
  cases e with
  | add key val now later =>
    obtain ⟨-, hnow, hlater, stored, rfl, -, rfl⟩ := step_add hcls hstep
    intro old k used v hmem hold hlast
    by_contra hfresh
    have hvalue := hpresent k v used hlast (not_lt.1 hfresh)
    obtain ⟨w, hw, -⟩ := Option.map_eq_some_iff.1 hvalue
    exact absurd ((hs.add_eq_some.1 hw).2 old (.inr hmem)) (not_le.2 hold)
  | remove key => trivial
  | get key now =>
    obtain ⟨hnow, -, hclock, htimeout, hvalues, hlast'⟩ := step_get hcls hs hstep
    intro hrenews hnonneg hsome
    obtain ⟨p, hp⟩ := Option.isSome_iff_exists.1 hsome
    have hlast : t.last key = some (p.1, now) := by
      rw [hlast', if_pos hrenews, Function.update_self, hp]
      rfl
    have hvalue := hpresent key p.1 now hlast (by rw [hclock, htimeout]; omega)
    rw [hvalues] at hvalue
    obtain ⟨w, hw, -⟩ := Option.map_eq_some_iff.1 hvalue
    rw [hw]
    rfl
  | clear => trivial

omit [DecidableEq K] in
theorem tracks_start (cls : CacheClass K V W) (mTimeout clock : ℤ) :
    (start mTimeout clock).Tracks cls where
  sorted := List.Pairwise.nil
  le_clock p hp := absurd hp List.not_mem_nil
  entry _ _ hk := by cases hk
  used_le _ _ _ hk := by cases hk
  noneOld h := absurd h Bool.false_ne_true

/-- A cache keeps its values throughout a run exactly when every call of it is allowed. -/
theorem throughout_keeps_iff (hcls : cls.Lawful) {mTimeout clock : ℤ} {calls : List (CacheCall K V)}
    (hrun : run (step cls) (start mTimeout clock) calls = some t) :
    Throughout (step cls) (Keeps cls) (start mTimeout clock) calls ↔
      Meets (step cls) (Allowed cls) (start mTimeout clock) calls := by
  refine throughout_iff_meets (Tracks.step hcls) ?_ ?_ (tracks_start cls mTimeout clock) ?_ hrun
  · intro s e t hs hkeeps hallowed hstep
    rw [keeps_iff hcls hs] at hkeeps
    rw [keeps_iff hcls (Tracks.step hcls s e t hs hstep)]
    exact hkeeps.step hcls hs hallowed hstep
  · intro s e t hs _ hallowed hstep
    rw [keeps_iff hcls (Tracks.step hcls s e t hs hstep)]
    exact not_present_of_not_allowed hcls hs hallowed hstep
  · rw [keeps_iff hcls (tracks_start cls mTimeout clock)]
    exact present_of_none (fun _ => rfl)

/-- Both caches keep their values throughout a run exactly when every call of it is allowed. -/
theorem expireCaches_keep_iff (mTimeout clock : ℤ) :
    (∀ calls : List (CacheCall K V), ∀ t,
      run (step expireCache) (start mTimeout clock) calls = some t →
        (Throughout (step expireCache) (Keeps expireCache) (start mTimeout clock) calls ↔
          Meets (step expireCache) (Allowed expireCache) (start mTimeout clock) calls)) ∧
    (∀ calls : List (CacheCall K V), ∀ t,
      run (step accessExpireCache) (start mTimeout clock) calls = some t →
        (Throughout (step accessExpireCache) (Keeps accessExpireCache)
            (start mTimeout clock) calls ↔
          Meets (step accessExpireCache) (Allowed accessExpireCache)
            (start mTimeout clock) calls)) :=
  ⟨fun _ _ hrun => throughout_keeps_iff expireCache_lawful hrun,
    fun _ _ hrun => throughout_keeps_iff accessExpireCache_lawful hrun⟩

/-- A key that is removed and added again; another one is added when the first entry is too old. -/
def addedAgain : List (CacheCall ℕ ℕ) :=
  [.add 1 10 0 0, .remove 1, .add 1 20 60 60, .add 2 30 110 110]

theorem addedAgain_not_kept :
    (∃ t, run (step expireCache) (start 100 0) addedAgain = some t ∧ ¬ t.Keeps expireCache) ∧
    (∃ t, run (step accessExpireCache) (start 100 0) addedAgain = some t ∧
      ¬ t.Keeps accessExpireCache) := by
  refine ⟨⟨_, rfl, fun h => ?_⟩, ⟨_, rfl, fun h => ?_⟩⟩
  · exact absurd (h.got 1 20 60 110 rfl (by decide) (by decide)) (by decide)
  · exact absurd (h.got 1 20 60 110 rfl (by decide) (by decide)) (by decide)

/-- A key that is added once and got. -/
def addedOnce : List (CacheCall ℕ ℕ) := [.add 1 10 0 0, .get 1 50]

theorem addedOnce_kept : Throughout (step accessExpireCache) (Keeps accessExpireCache)
    (start 100 0) addedOnce := by
  refine ((expireCaches_keep_iff 100 0).2 addedOnce _ rfl).2 (meets_cons ?_ rfl
    (meets_cons ?_ rfl meets_nil))
  · intro old k used v hmem
    exact absurd hmem List.not_mem_nil
  · exact fun _ _ _ => rfl

end CacheRun

end Gradido
