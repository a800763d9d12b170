import GradidoBlockchain.Crypto.Mnemonic
import GradidoBlockchain.Lib.Checked

/-!
# Passphrases

`Passphrase::filter` replaces umlauts by entities and drops what cannot stand in
a word; `createWordIndices` cuts the rest into words again and looks them up.

The filter reads the string by position, up to its terminating zero, and may
read on: the memory is a function of the position.
-/

namespace Gradido

open Checked

namespace Passphrase

/-! ### The filter -/

/-- `g_specialChars`: the second byte of a character, and the name of its entity. -/
def specialChars : List (UInt8 × Text) :=
  [(0xa4, [97, 117, 109, 108]), (0x84, [65, 117, 109, 108]),   -- auml, Auml
   (0xbc, [117, 117, 109, 108]), (0x9c, [85, 117, 109, 108]),  -- uuml, Uuml
   (0xb6, [111, 117, 109, 108]), (0x96, [79, 117, 109, 108]),  -- ouml, Ouml
   (0x9f, [115, 122, 108, 105, 103])]                          -- szlig

/-- The name of the entity that a second byte stands for. -/
def entityOf (c : UInt8) : Option Text :=
  (specialChars.find? (fun p => decide (c = p.1))).map Prod.snd

/-- Space, `;`, `&` and letters. -/
def isKept (c : UInt8) : Bool :=
  decide (c = 32) || decide (c = 59) || decide (c = 38) ||
    (decide (65 ≤ c) && decide (c ≤ 90)) || (decide (97 ≤ c) && decide (c ≤ 122))

/-- A byte of a character beyond ASCII. -/
def isHigh (c : UInt8) : Bool := decide (0x7F < c)

/-- What a turn of a loop of `filter` reads and appends, and where the next one starts. -/
structure Turn where
  reads : List ℕ
  appended : Text
  next : ℕ

/-- The inner loop of `filter`, from `j` and for some turns more.  It advances `i` as well as `j`,
so that it reads every second byte. -/
def copyBytes (data : ℕ → UInt8) : (turns j i : ℕ) → Turn
  | 0, _, i => ⟨[], [], i⟩
  | turns + 1, j, i =>
    let rest := copyBytes data turns (j + 1) (i + 1)
    ⟨(i + j) :: rest.reads, data (i + j) :: rest.appended, rest.next⟩

/-- The body of the loop of `filter`.  A byte over 0x7F has the bit 0x80, so that the branches for
characters of three and four bytes are not reached. -/
def filterTurn (data : ℕ → UInt8) (i : ℕ) : Turn :=
  let c := data i
  if isHigh c then
    match entityOf (data (i + 1)) with
    | some htmlEntitie => ⟨[i, i + 1], 38 :: (htmlEntitie ++ [59]), i + 1 + 1⟩
    | none =>
      let additionalUtfByteCount := 1
      let copied := copyBytes data (additionalUtfByteCount + 1) 0 i
      ⟨i :: (i + 1) :: copied.reads, copied.appended, copied.next + 1⟩
  else if isKept c then ⟨[i], [c], i + 1⟩
  else if c = 10 ∨ c = 13 then ⟨[i], [32], i + 1⟩
  else ⟨[i], [], i + 1⟩

theorem filterTurn_entity {data : ℕ → UInt8} {i : ℕ} {htmlEntitie : Text}
    (hhigh : isHigh (data i) = true) (hentity : entityOf (data (i + 1)) = some htmlEntitie) :
    filterTurn data i = ⟨[i, i + 1], 38 :: (htmlEntitie ++ [59]), i + 2⟩ := by
  simp [filterTurn, hhigh, hentity]

theorem filterTurn_other {data : ℕ → UInt8} {i : ℕ} (hhigh : isHigh (data i) = true)
    (hentity : entityOf (data (i + 1)) = none) :
    filterTurn data i = ⟨[i, i + 1, i, i + 2], [data i, data (i + 2)], i + 3⟩ := by
  simp [filterTurn, hhigh, hentity, copyBytes]

theorem filterTurn_ascii {data : ℕ → UInt8} {i : ℕ} (hhigh : isHigh (data i) = false) :
    (filterTurn data i).reads = [i] ∧ (filterTurn data i).next = i + 1 := by
  unfold filterTurn
  dsimp only
  rw [hhigh, if_neg Bool.false_ne_true]
  split_ifs <;> exact ⟨rfl, rfl⟩

theorem lt_filterTurn_next (data : ℕ → UInt8) (i : ℕ) : i < (filterTurn data i).next := by
  cases hhigh : isHigh (data i) with
  | false =>
    rw [(filterTurn_ascii hhigh).2]
    exact Nat.lt_succ_self i
  | true =>
    cases hentity : entityOf (data (i + 1)) with
    | some htmlEntitie =>
      rw [filterTurn_entity hhigh hentity]
      exact Nat.lt_add_of_pos_right (by decide)
    | none =>
      rw [filterTurn_other hhigh hentity]
      exact Nat.lt_add_of_pos_right (by decide)

/-- The loop of `filter` from a position on: the positions that it reads, and what it appends.
There is nothing when the counter, an `int`, passes its largest value. -/
def filterFrom (data : ℕ → UInt8) (size i : ℕ) : List ℕ × Option Text :=
  if i < size then
    let turn := filterTurn data i
    if intMax < turn.next then (turn.reads, none)
    else
      let rest := filterFrom data size turn.next
      (turn.reads ++ rest.1, rest.2.map (turn.appended ++ ·))
  else ([], some [])
termination_by size - i
decreasing_by
  have hnext := lt_filterTurn_next data i
  omega

/-- The memory of a string: its bytes, a zero, and what is behind. -/
def memoryOf (string : Text) (behind : ℕ → UInt8) (i : ℕ) : UInt8 :=
  ((string ++ [0])[i]?).getD (behind i)

/-- `Passphrase::filter`, with the positions that it reads. -/
def filter (behind : ℕ → UInt8) (passphrase : Text) : List ℕ × Option Text :=
  filterFrom (memoryOf passphrase behind) passphrase.length 0

/-- Whatever is behind the string, the filter ends and reads nothing of it. -/
def FiltersInBounds (passphrase : Text) : Prop :=
  ∀ behind, (filter behind passphrase).2.isSome = true ∧
    ∀ p ∈ (filter behind passphrase).1, p ≤ passphrase.length

/-- What is left of a string when ASCII bytes, a high byte with the second byte of an umlaut, and a
high byte with any two more are taken from its front. -/
def remainder : Text → Text
  | [] => []
  | [c] => if isHigh c then [c] else []
  | [c, c2] =>
    if isHigh c then (if (entityOf c2).isSome then [] else [c, c2]) else remainder [c2]
  | c :: c2 :: c3 :: rest =>
    if isHigh c then (if (entityOf c2).isSome then remainder (c3 :: rest) else remainder rest)
    else remainder (c2 :: c3 :: rest)

section Bounds

variable {s : Text} {behind : ℕ → UInt8} {i : ℕ}

theorem memoryOf_of_drop {c : UInt8} {rest : Text} (h : s.drop i = c :: rest) :
    memoryOf s behind i = c := by
  have hget : s[i]? = some c := by
    rw [← List.head?_drop, h]
    rfl
  have hlt : i < s.length := (List.getElem?_eq_some_iff.1 hget).1
  rw [memoryOf, List.getElem?_append_left hlt, hget]
  rfl

theorem memoryOf_length : memoryOf s behind s.length = 0 := by
  simp [memoryOf]

theorem drop_succ {c : UInt8} {rest : Text} (h : s.drop i = c :: rest) : s.drop (i + 1) = rest := by
  rw [← List.drop_drop, h]
  rfl

/-- The loop from a position on ends, and reads nothing behind the terminating zero. -/
def Stays (s : Text) (behind : ℕ → UInt8) (i : ℕ) : Prop :=
  (filterFrom (memoryOf s behind) s.length i).2.isSome = true ∧
    ∀ p ∈ (filterFrom (memoryOf s behind) s.length i).1, p ≤ s.length

/-- What is left of a string is not a single byte, and the counter reaches its end. -/
def EndsInBounds (size : ℕ) (rest : Text) : Prop :=
  (remainder rest).length ≠ 1 ∧ size + (if remainder rest = [] then 0 else 1) ≤ intMax

/-- At the end the loop stops. -/
theorem stays_of_le (h : s.length ≤ i) : Stays s behind i := by
  unfold Stays
  rw [filterFrom, if_neg (by omega)]
  exact ⟨rfl, fun p hp => absurd hp List.not_mem_nil⟩

/-- A turn of the loop. -/
theorem stays_iff_of_lt (h : i < s.length) :
    Stays s behind i ↔ (filterTurn (memoryOf s behind) i).next ≤ intMax ∧
      (∀ p ∈ (filterTurn (memoryOf s behind) i).reads, p ≤ s.length) ∧
        Stays s behind (filterTurn (memoryOf s behind) i).next := by
  unfold Stays
  rw [filterFrom, if_pos h]
  dsimp only
  by_cases hmax : intMax < (filterTurn (memoryOf s behind) i).next
  · rw [if_pos hmax]
    exact iff_of_false (fun hstays => Bool.false_ne_true hstays.1) (fun hstays => by omega)
  · rw [if_neg hmax]
    simp only [Option.isSome_map, List.mem_append, or_imp, forall_and]
    constructor
    · rintro ⟨hsome, hreads, hrest⟩
      exact ⟨by omega, hreads, hsome, hrest⟩
    · rintro ⟨-, hreads, hsome, hrest⟩
      exact ⟨hsome, hreads, hrest⟩

theorem stays_ascii {c : UInt8} {rest : Text} (h : s.drop i = c :: rest)
    (hhigh : ¬ isHigh c = true) : Stays s behind i ↔ i + 1 ≤ intMax ∧ Stays s behind (i + 1) := by
  have hlt : i < s.length := by
    have hlength := congrArg List.length h
    rw [List.length_drop, List.length_cons] at hlength
    omega
  have hc : memoryOf s behind i = c := memoryOf_of_drop h
  rw [Bool.not_eq_true, ← hc] at hhigh
  obtain ⟨hreads, hnext⟩ := filterTurn_ascii hhigh
  rw [stays_iff_of_lt hlt, hreads, hnext, List.forall_mem_singleton]
  exact and_congr_right (fun _ => and_iff_right (by omega))

theorem stays_entity {c c2 : UInt8} {rest : Text} (h : s.drop i = c :: c2 :: rest)
    (hhigh : isHigh c = true) (hentity : (entityOf c2).isSome = true) :
    Stays s behind i ↔ i + 2 ≤ intMax ∧ Stays s behind (i + 2) := by
  have hlt : i + 1 < s.length := by
    have hlength := congrArg List.length h
    rw [List.length_drop, List.length_cons, List.length_cons] at hlength
    omega
  obtain ⟨htmlEntitie, hsome⟩ := Option.isSome_iff_exists.1 hentity
  have hc : memoryOf s behind i = c := memoryOf_of_drop h
  have hc2 : memoryOf s behind (i + 1) = c2 := memoryOf_of_drop (drop_succ h)
  rw [← hc] at hhigh
  rw [← hc2] at hsome
  rw [stays_iff_of_lt (by omega), filterTurn_entity hhigh hsome]
  refine and_congr_right (fun _ => and_iff_right (fun p hp => ?_))
  simp only [List.mem_cons, List.not_mem_nil, or_false] at hp
  omega

/-- A high byte that does not start an umlaut: two more bytes are passed. -/
theorem stays_other {c : UInt8} {rest : Text} (h : s.drop i = c :: rest) (hhigh : isHigh c = true)
    (hentity : entityOf (memoryOf s behind (i + 1)) = none) :
    Stays s behind i ↔ i + 3 ≤ intMax ∧ i + 2 ≤ s.length ∧ Stays s behind (i + 3) := by
  have hlt : i < s.length := by
    have hlength := congrArg List.length h
    rw [List.length_drop, List.length_cons] at hlength
    omega
  have hc : memoryOf s behind i = c := memoryOf_of_drop h
  rw [← hc] at hhigh
  rw [stays_iff_of_lt hlt, filterTurn_other hhigh hentity]
  refine and_congr_right (fun _ => and_congr_left (fun _ => ?_))
  simp only [List.forall_mem_cons, List.not_mem_nil, false_implies, implies_true, and_true]
  omega

/-- A turn passes the front of the string, and what is left stays the same. -/
theorem stays_iff_of_turn {rest rest' : Text} {j : ℕ}
    (hturn : Stays s behind i ↔ j ≤ intMax ∧ Stays s behind j) (hj : j ≤ s.length)
    (hsame : remainder rest = remainder rest')
    (hrest : j ≤ intMax → (Stays s behind j ↔ EndsInBounds s.length rest')) :
    Stays s behind i ↔ EndsInBounds s.length rest := by
  rw [hturn, EndsInBounds, hsame]
  constructor
  · rintro ⟨hmax, hstays⟩
    exact (hrest hmax).1 hstays
  · intro hends
    have hmax : j ≤ intMax := by
      have hlength := hends.2
      omega
    exact ⟨hmax, (hrest hmax).2 hends⟩

theorem length_of_drop {rest : Text} (h : s.drop i = rest) : s.length - i = rest.length := by
  rw [← List.length_drop, h]

/-- At the end nothing is left. -/
theorem stays_iff_nil (hi : i = s.length) (hmax : i ≤ intMax) :
    Stays s behind i ↔ EndsInBounds s.length [] := by
  refine iff_of_true (stays_of_le (by omega)) ⟨by decide, ?_⟩
  rw [remainder, if_pos rfl]
  omega

/-- By induction on what is behind the position. -/
theorem stays_iff {rest : Text} (hrest : s.drop i = rest) (hi : i ≤ s.length)
    (hmax : i ≤ intMax) : Stays s behind i ↔ EndsInBounds s.length rest := by
  have hlength := length_of_drop hrest
  induction rest using remainder.induct generalizing i with
  | case1 =>
    rw [List.length_nil] at hlength
    exact stays_iff_nil (by omega) hmax
  | case2 c hhigh =>
    -- the last byte is a high one: the byte behind the zero is read
    rw [List.length_singleton] at hlength
    have hend : i + 1 = s.length := by omega
    have hentity : entityOf (memoryOf s behind (i + 1)) = none := by
      rw [hend, memoryOf_length]
      decide
    rw [stays_other hrest hhigh hentity]
    refine iff_of_false (fun hstays => by omega) (fun hends => hends.1 ?_)
    rw [remainder, if_pos hhigh]
    rfl
  | case3 c hhigh =>
    rw [List.length_singleton] at hlength
    have hsame : remainder [c] = remainder [] := by simp [remainder, hhigh]
    exact stays_iff_of_turn (stays_ascii hrest hhigh) (by omega) hsame (stays_iff_nil (by omega))
  | case4 c c2 hhigh hentity =>
    rw [List.length_cons, List.length_singleton] at hlength
    have hsame : remainder [c, c2] = remainder [] := by simp [remainder, hhigh, hentity]
    exact stays_iff_of_turn (stays_entity hrest hhigh hentity) (by omega) hsame
      (stays_iff_nil (by omega))
  | case5 c c2 hhigh hentity =>
    -- the zero is read as the third byte
    rw [List.length_cons, List.length_singleton] at hlength
    have hnone : entityOf (memoryOf s behind (i + 1)) = none := by
      rw [memoryOf_of_drop (drop_succ hrest)]
      simpa using hentity
    rw [stays_other hrest hhigh hnone, EndsInBounds, remainder, if_pos hhigh, if_neg hentity]
    have hstays : Stays s behind (i + 3) := stays_of_le (by omega)
    simp only [hstays, and_true, List.length_cons, List.length_nil, List.cons_ne_nil, if_false]
    omega
  | case6 c c2 hhigh ih =>
    rw [List.length_cons] at hlength
    have hsame : remainder [c, c2] = remainder [c2] := by simp [remainder, hhigh]
    exact stays_iff_of_turn (stays_ascii hrest hhigh) (by omega) hsame
      (fun hmax' => ih (drop_succ hrest) (by omega) hmax' (by omega))
  | case7 c c2 c3 rest hhigh hentity ih =>
    rw [List.length_cons, List.length_cons] at hlength
    refine stays_iff_of_turn (stays_entity hrest hhigh hentity) (by omega) ?_
      (fun hmax' => ih (drop_succ (drop_succ hrest)) (by omega) hmax' (by omega))
    rw [remainder, if_pos hhigh, if_pos hentity]
  | case8 c c2 c3 rest hhigh hentity ih =>
    rw [List.length_cons, List.length_cons, List.length_cons] at hlength
    have hnone : entityOf (memoryOf s behind (i + 1)) = none := by
      rw [memoryOf_of_drop (drop_succ hrest)]
      simpa using hentity
    have hturn : Stays s behind i ↔ i + 3 ≤ intMax ∧ Stays s behind (i + 3) := by
      rw [stays_other hrest hhigh hnone]
      exact and_congr_right (fun _ => and_iff_right (by omega))
    refine stays_iff_of_turn hturn (by omega) ?_
      (fun hmax' => ih (drop_succ (drop_succ (drop_succ hrest))) (by omega) hmax' (by omega))
    rw [remainder, if_pos hhigh, if_neg hentity]
  | case9 c c2 c3 rest hhigh ih =>
    rw [List.length_cons] at hlength
    refine stays_iff_of_turn (stays_ascii hrest hhigh) (by omega) ?_
      (fun hmax' => ih (drop_succ hrest) (by omega) hmax' (by omega))
    rw [remainder, if_neg hhigh]

end Bounds

/-- The filter stays in bounds unless a single high byte is left over at the end of the string; and
with the counter of a string of `2 ^ 31 - 1` bytes or more. -/
theorem filtersInBounds_iff (s : Text) : FiltersInBounds s ↔
    (remainder s).length ≠ 1 ∧
      s.length + (if remainder s = [] then 0 else 1) ≤ intMax := by
  have hstays : ∀ behind, Stays s behind 0 ↔ EndsInBounds s.length s :=
    fun behind => stays_iff rfl (Nat.zero_le _) (Nat.zero_le _)
  constructor
  · intro h
    exact (hstays (fun _ => 0)).1 (h (fun _ => 0))
  · intro h behind
    exact (hstays behind).2 h

/-- An umlaut of which the second byte is missing. -/
theorem halfUmlaut_not_filtersInBounds : ¬ FiltersInBounds [0xc3] := by
  intro h
  have hturn : filterTurn (memoryOf [0xc3] (fun _ => 0)) 0 = ⟨[0, 1, 0, 2], [0xc3, 0], 3⟩ :=
    filterTurn_other rfl rfl
  have hstays : Stays [0xc3] (fun _ => 0) 0 := h (fun _ => 0)
  have hreads := ((stays_iff_of_lt (by decide)).1 hstays).2.1 2
  rw [hturn] at hreads
  exact absurd (hreads (by decide)) (by decide)

end Passphrase

end Gradido
