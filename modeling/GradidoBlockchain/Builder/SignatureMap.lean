import GradidoBlockchain.Builder.GradidoTransactionBuilder
import Mathlib.Data.List.Perm.Subperm
import Mathlib.Data.Set.Function

/-!
# Equality of signature maps

Both comparisons of signature maps test one inclusion, after the sizes.  As
`push` refuses a second signature of a key, a map holds no key twice, and a
duplicate-free list that includes another one of its length is a permutation of
it.
-/

namespace Gradido

/-- Between duplicate-free lists of one length an inclusion is a permutation. -/
theorem perm_iff_subset {α : Type} {l l' : List α} (h' : l'.Nodup)
    (hlength : l.length = l'.length) : l.Perm l' ↔ l' ⊆ l := by
  constructor
  · intro hperm a ha
    exact hperm.mem_iff.2 ha
  · intro hsubset
    exact ((List.subperm_of_subset h' hsubset).perm_of_length_le hlength.le).symm

namespace SignatureMap

/-- The public keys, in order of insertion. -/
def publicKeys (m : SignatureMap) : List ℕ := m.signaturePairs.map SignaturePair.publicKey

/-- `SignatureMap::isPairing`.  The keys are of 32 bytes, so that `toPublicKey` does not throw. -/
def isPairing (a b : SignatureMap) : Bool :=
  if a.signaturePairs.length ≠ b.signaturePairs.length then false
  else
    match a.signaturePairs, b.signaturePairs with
    | [p], [q] => decide (p.publicKey = q.publicKey)
    | ps, qs => qs.all (fun q => decide (q.publicKey ∈ ps.map SignaturePair.publicKey))

/-- A sequence of calls of `push`; one that throws leaves the map as it is. -/
def pushes (m : SignatureMap) (pairs : List SignaturePair) : SignatureMap :=
  pairs.foldl (fun m p => ((m.push p).toOption).getD m) m

theorem pushes_append {m result : SignatureMap} {pairs : List SignaturePair}
    (h : result.signaturePairs = m.signaturePairs ++ pairs) : m.pushes pairs = result := by
  induction pairs generalizing m with
  | nil =>
    obtain ⟨ps, _⟩ := m
    obtain ⟨qs, _⟩ := result
    rw [List.append_nil] at h
    cases h
    rfl
  | cons p pairs ih =>
    have hnew : p.publicKey ∉ m.signaturePairs.map SignaturePair.publicKey := by
      have hnodup := result.nodup
      rw [h, List.map_append, List.map_cons, List.nodup_append] at hnodup
      intro hp
      exact hnodup.2.2 _ hp _ List.mem_cons_self rfl
    obtain ⟨m', hm'⟩ := push_of_not_mem hnew
    have hstep : m.pushes (p :: pairs) = m'.pushes pairs := by
      simp [pushes, hm', Except.toOption]
    rw [hstep]
    refine ih ?_
    rw [h, (push_eq_ok hm').1, List.append_assoc, List.singleton_append]

/-- The maps that `push` builds are all the maps. -/
theorem exists_pushes (m : SignatureMap) : ∃ pairs, empty.pushes pairs = m :=
  ⟨m.signaturePairs, pushes_append rfl⟩

theorem nodup_publicKeys (m : SignatureMap) : m.publicKeys.Nodup := m.nodup

theorem nodup_signaturePairs (m : SignatureMap) : m.signaturePairs.Nodup := m.nodup.of_map _

/-- With distinct hashes the map of hashes finds each of the pairs. -/
theorem ownHash_eq_some_iff {shorthash : SignaturePair → ℤ} {pairs : List SignaturePair}
    {p : SignaturePair} (hhash : ∀ q ∈ pairs, shorthash q = shorthash p → q = p) :
    ownHash shorthash pairs (shorthash p) = some p ↔ p ∈ pairs := by
  unfold ownHash
  constructor
  · exact List.mem_of_find?_eq_some
  · intro hp
    cases hfind : pairs.find? (fun q => decide (shorthash q = shorthash p)) with
    | none => simpa using List.find?_eq_none.1 hfind p hp
    | some q =>
      have hq := List.find?_some hfind
      rw [decide_eq_true_eq] at hq
      rw [hhash q (List.mem_of_find?_eq_some hfind) hq]

/-- The pairs of a map are some of the given ones. -/
def Within (pairs : Set SignaturePair) (m : SignatureMap) : Prop :=
  ∀ p ∈ m.signaturePairs, p ∈ pairs

theorem isTheSame_iff_perm {shorthash : SignaturePair → ℤ} {pairs : Set SignaturePair}
    (hhash : Set.InjOn shorthash pairs) {a b : SignatureMap} (ha : a.Within pairs)
    (hb : b.Within pairs) :
    a.isTheSame shorthash b = true ↔ a.signaturePairs.Perm b.signaturePairs := by
  unfold isTheSame
  by_cases hlength : a.signaturePairs.length = b.signaturePairs.length
  swap
  · rw [if_pos hlength]
    exact iff_of_false Bool.false_ne_true (fun hperm => hlength hperm.length_eq)
  rw [if_neg (not_not_intro hlength)]
  split
  · next p q hp hq =>
    rw [hp, hq, decide_eq_true_eq, List.singleton_perm_singleton]
  · rw [perm_iff_subset b.nodup_signaturePairs hlength]
    simp only [List.all_eq_true, decide_eq_true_eq]
    refine forall_congr' (fun q => forall_congr' (fun hq => ?_))
    exact ownHash_eq_some_iff (fun p hp heq => hhash (ha p hp) (hb q hq) heq)

theorem isPairing_iff_perm {a b : SignatureMap} :
    a.isPairing b = true ↔ a.publicKeys.Perm b.publicKeys := by
  have hlengths : a.publicKeys.length = b.publicKeys.length ↔
      a.signaturePairs.length = b.signaturePairs.length := by
    simp [publicKeys]
  unfold isPairing
  by_cases hlength : a.signaturePairs.length = b.signaturePairs.length
  swap
  · rw [if_pos hlength]
    exact iff_of_false Bool.false_ne_true
      (fun hperm => hlength (hlengths.1 hperm.length_eq))
  rw [if_neg (not_not_intro hlength)]
  split
  · next p q hp hq =>
    rw [publicKeys, publicKeys, hp, hq, List.map_singleton, List.map_singleton,
      decide_eq_true_eq, List.singleton_perm_singleton]
  · rw [perm_iff_subset b.nodup_publicKeys (hlengths.2 hlength)]
    simp only [List.all_eq_true, decide_eq_true_eq, List.subset_def, publicKeys, List.mem_map,
      forall_exists_index, and_imp, forall_apply_eq_imp_iff₂]

theorem isPairing_iff {a b : SignatureMap} :
    a.isPairing b = true ↔ ∀ k, k ∈ a.publicKeys ↔ k ∈ b.publicKeys := by
  rw [isPairing_iff_perm, List.perm_ext_iff_of_nodup a.nodup_publicKeys b.nodup_publicKeys]

/-- Both comparisons of the maps that `push` builds, with pairs whose hashes are distinct: what
they test, that they are equivalence relations, and that the order of insertion does not matter. -/
theorem comparisons {shorthash : SignaturePair → ℤ} {pairs : Set SignaturePair}
    (hhash : Set.InjOn shorthash pairs) :
    (∀ a b : SignatureMap, a.Within pairs → b.Within pairs →
      (a.isTheSame shorthash b = true ↔ a.signaturePairs.Perm b.signaturePairs)) ∧
    (∀ a b : SignatureMap, a.isPairing b = true ↔ ∀ k, k ∈ a.publicKeys ↔ k ∈ b.publicKeys) ∧
    Equivalence (fun a b : {m : SignatureMap // m.Within pairs} =>
      a.1.isTheSame shorthash b.1 = true) ∧
    Equivalence (fun a b : SignatureMap => a.isPairing b = true) ∧
    (∀ a a' b b' : SignatureMap, a.Within pairs → b.Within pairs →
      a.signaturePairs.Perm a'.signaturePairs → b.signaturePairs.Perm b'.signaturePairs →
        a.isTheSame shorthash b = a'.isTheSame shorthash b' ∧ a.isPairing b = a'.isPairing b') := by
  have hsame : ∀ a b : {m : SignatureMap // m.Within pairs},
      a.1.isTheSame shorthash b.1 = true ↔ a.1.signaturePairs.Perm b.1.signaturePairs :=
    fun a b => isTheSame_iff_perm hhash a.2 b.2
  refine ⟨fun a b => isTheSame_iff_perm hhash, fun a b => isPairing_iff, ?_, ?_, ?_⟩
  · refine ⟨fun a => (hsame a a).2 (.refl _), fun {a b} h => ?_, fun {a b c} hab hbc => ?_⟩
    · exact (hsame b a).2 ((hsame a b).1 h).symm
    · exact (hsame a c).2 (((hsame a b).1 hab).trans ((hsame b c).1 hbc))
  · refine ⟨fun a => isPairing_iff_perm.2 (.refl _), fun {a b} h => ?_, fun {a b c} hab hbc => ?_⟩
    · exact isPairing_iff_perm.2 (isPairing_iff_perm.1 h).symm
    · exact isPairing_iff_perm.2 ((isPairing_iff_perm.1 hab).trans (isPairing_iff_perm.1 hbc))
  · intro a a' b b' ha hb haa hbb
    have ha' : a'.Within pairs := fun p hp => ha p (haa.mem_iff.2 hp)
    have hb' : b'.Within pairs := fun p hp => hb p (hbb.mem_iff.2 hp)
    constructor
    · rw [Bool.eq_iff_iff, isTheSame_iff_perm hhash ha hb, isTheSame_iff_perm hhash ha' hb',
        haa.congr_left, hbb.congr_right]
    · have hkeys : a.publicKeys.Perm a'.publicKeys := haa.map SignaturePair.publicKey
      have hkeys' : b.publicKeys.Perm b'.publicKeys := hbb.map SignaturePair.publicKey
      rw [Bool.eq_iff_iff, isPairing_iff_perm, isPairing_iff_perm, hkeys.congr_left,
        hkeys'.congr_right]

/-- Two signatures, inserted in both orders. -/
def twoSigned (k l : ℕ) (h : k ≠ l) : SignatureMap := ⟨[⟨k, 1⟩, ⟨l, 2⟩], by simp [h]⟩

theorem twoSigned_comparisons :
    (twoSigned 7 9 (by decide)).isTheSame (fun p => p.publicKey) (twoSigned 7 9 (by decide)) =
        true ∧
      (twoSigned 7 9 (by decide)).isPairing (twoSigned 9 7 (by decide)) = true := by
  have hhash : Set.InjOn (fun p : SignaturePair => (p.publicKey : ℤ)) {⟨7, 1⟩, ⟨9, 2⟩} := by
    intro p hp q hq heq
    simp only [Set.mem_insert_iff, Set.mem_singleton_iff] at hp hq
    rcases hp with rfl | rfl <;> rcases hq with rfl | rfl <;> simp_all
  have h := comparisons hhash
  have hwithin : (twoSigned 7 9 (by decide)).Within {⟨7, 1⟩, ⟨9, 2⟩} := by
    intro p hp
    simpa [twoSigned] using hp
  refine ⟨(h.1 _ _ hwithin hwithin).2 (.refl _), (h.2.1 _ _).2 (fun k => ?_)⟩
  simp only [publicKeys, twoSigned, List.map_cons, List.map_nil, List.mem_cons]
  tauto

end SignatureMap

end Gradido
