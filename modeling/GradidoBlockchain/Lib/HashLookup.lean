import Mathlib.Data.List.Nodup

/-!
# Keys found by their hash

A list of keys is searched by a hash: the keys that have it are `sameHash`, with
their positions.  A table that keeps one position for each hash finds a key
without a comparison, which is right as long as the hash belongs to one key
only; keys that share a hash are told apart by `lookup`.
-/

namespace HashLookup

universe u v

variable {K : Type u} {H : Type v} [DecidableEq K] [DecidableEq H] {hash : K → H}
variable {keys : List K} {h : H} {k k' : K} {i n : ℕ} {l : List (K × ℕ)}

/-- The keys with a hash, each with its position. -/
def sameHash (hash : K → H) (keys : List K) (h : H) : List (K × ℕ) :=
  keys.zipIdx.filter (fun p => decide (hash p.1 = h))

/-- The position that a list gives a key. -/
def lookup (l : List (K × ℕ)) (k : K) : Option ℕ :=
  (l.find? (fun p => decide (p.1 = k))).map Prod.snd

omit [DecidableEq K] in
@[simp] theorem sameHash_nil : sameHash hash [] h = [] := rfl

omit [DecidableEq K] in
theorem sameHash_concat : sameHash hash (keys ++ [k]) h =
    if hash k = h then sameHash hash keys h ++ [(k, keys.length)] else sameHash hash keys h := by
  unfold sameHash
  rw [List.zipIdx_append, List.filter_append]
  split_ifs with hk <;> simp [hk]

omit [DecidableEq K] in
theorem mem_sameHash : (k, i) ∈ sameHash hash keys h ↔ keys[i]? = some k ∧ hash k = h := by
  simp [sameHash, List.mem_zipIdx_iff_getElem?]

omit [DecidableEq K] in
theorem exists_mem_sameHash : (∃ i, (k, i) ∈ sameHash hash keys h) ↔ k ∈ keys ∧ hash k = h := by
  rw [List.mem_iff_getElem?, ← exists_and_right]
  exact exists_congr (fun i => mem_sameHash)

omit [DecidableEq K] in
/-- Two different keys with a hash are two entries. -/
theorem sameHash_eq_singleton_iff (hnodup : keys.Nodup) :
    (∃ i, sameHash hash keys h = [(k, i)]) ↔
      (k ∈ keys ∧ hash k = h) ∧ ∀ k' ∈ keys, hash k' = h → k' = k := by
  rw [← exists_mem_sameHash]
  constructor
  · rintro ⟨i, hsingle⟩
    refine ⟨⟨i, hsingle ▸ List.mem_singleton_self _⟩, fun k' hk' hh => ?_⟩
    obtain ⟨j, hj⟩ := exists_mem_sameHash.2 ⟨hk', hh⟩
    rw [hsingle, List.mem_singleton] at hj
    exact congrArg Prod.fst hj
  · rintro ⟨⟨i, hi⟩, honly⟩
    have hall : ∀ p ∈ sameHash hash keys h, p = (k, i) := by
      rintro ⟨k', j⟩ hj
      obtain ⟨hget, hh⟩ := mem_sameHash.1 hj
      have hk' := honly k' (List.mem_of_getElem? hget) hh
      rw [hk'] at hget ⊢
      have hlt := (List.getElem?_eq_some_iff.1 hget).1
      rw [(List.getElem?_inj hlt hnodup).1 (hget.trans (mem_sameHash.1 hi).1.symm)]
    have hentries : (sameHash hash keys h).Nodup :=
      (List.Nodup.of_map Prod.snd (by rw [List.zipIdx_map_snd]; exact List.nodup_range')).filter _
    refine ⟨i, ?_⟩
    cases hl : sameHash hash keys h with
    | nil => simp [hl] at hi
    | cons p l =>
      rw [hl] at hall hentries
      have hp := hall p List.mem_cons_self
      have hnil : l = [] := by
        rw [List.eq_nil_iff_forall_not_mem]
        intro q hq
        refine (List.nodup_cons.1 hentries).1 ?_
        rw [hp, ← hall q (List.mem_cons_of_mem _ hq)]
        exact hq
      rw [hp, hnil]

theorem lookup_singleton : lookup [(k, n)] = Function.update (fun _ => none) k (some n) := by
  funext k'
  unfold lookup
  by_cases hk : k' = k
  · simp [hk]
  · simp [Ne.symm hk, Function.update_of_ne hk]

/-- A new key is entered behind the others. -/
theorem lookup_concat (hnew : lookup l k = none) :
    lookup (l ++ [(k, n)]) = Function.update (lookup l) k (some n) := by
  funext k'
  unfold lookup at hnew ⊢
  rw [List.find?_append]
  by_cases hk : k' = k
  · rw [hk, Function.update_self, Option.map_eq_none_iff.1 hnew]
    simp
  · rw [Function.update_of_ne hk]
    simp [Ne.symm hk]

theorem lookup_eq_none_iff : lookup l k = none ↔ ∀ i, (k, i) ∉ l := by
  unfold lookup
  rw [Option.map_eq_none_iff, List.find?_eq_none]
  constructor
  · intro hall i hi
    simpa using hall _ hi
  · rintro hnone ⟨k', i⟩ hi
    have hne : k' ≠ k := by
      rintro rfl
      exact hnone i hi
    simpa using hne

theorem mem_of_lookup (hi : lookup l k = some i) : (k, i) ∈ l := by
  obtain ⟨⟨k', i'⟩, hfind, hsnd⟩ := Option.map_eq_some_iff.1 hi
  have hk := List.find?_some hfind
  rw [decide_eq_true_eq] at hk
  dsimp only at hk hsnd
  rw [← hk, ← hsnd]
  exact List.mem_of_find?_eq_some hfind

theorem lookup_sameHash_eq_none_iff :
    lookup (sameHash hash keys (hash k)) k = none ↔ k ∉ keys := by
  rw [lookup_eq_none_iff, List.mem_iff_getElem?, not_exists]
  exact forall_congr' (fun i => by rw [mem_sameHash, and_iff_left rfl])

/-- Of different keys each is found at its position. -/
theorem lookup_sameHash_iff (hnodup : keys.Nodup) :
    lookup (sameHash hash keys (hash k)) k = some i ↔ keys[i]? = some k := by
  constructor
  · intro hi
    exact (mem_sameHash.1 (mem_of_lookup hi)).1
  · intro hi
    cases hj : lookup (sameHash hash keys (hash k)) k with
    | none => exact absurd (mem_sameHash.2 ⟨hi, rfl⟩) (lookup_eq_none_iff.1 hj i)
    | some j =>
      have hjk := (mem_sameHash.1 (mem_of_lookup hj)).1
      have hlt : j < keys.length := (List.getElem?_eq_some_iff.1 hjk).1
      rw [(List.getElem?_inj hlt hnodup).1 (hjk.trans hi.symm)]

end HashLookup
