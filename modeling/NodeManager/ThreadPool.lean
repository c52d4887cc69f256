import Mathlib.Data.Int.CardIntervalMod

/-!
# Which thread the pool selects

`XThreadPool` counts its dispatches in an `int` that only grows. As long as
the counter has not passed the largest `int`, every thread is selected in its
turn. The increment after that is undefined; where it wraps around, the
remainder is negative unless it is zero, and no thread has a negative index.
-/

namespace NodeManager.ThreadPool

/-- What the program makes of the overflow of an `int`. -/
inductive SignedOverflow
  /-- The overflow ends the program, which has no meaning any more. -/
  | undefined
  /-- The overflow goes on with the smallest `int`. -/
  | wraps
  deriving DecidableEq

/-- Undefined behaviour of `DispatchThread`. -/
inductive Fault
  | signedOverflow
  | divisionByZero
  | indexOutOfRange
  deriving DecidableEq

/-- `XThreadPool`; its threads are known by their `m_nId`. -/
structure XThreadPool where
  /-- `m_nThreadCount`. -/
  nThreadCount : Int32 := 0
  /-- `m_indexLastUseThread`. -/
  indexLastUseThread : Int32 := -1
  /-- `m_vecThread`. -/
  vecThread : List ℕ := []
  deriving DecidableEq

namespace XThreadPool

/-- `XThreadPool::Init`. -/
def init (pool : XThreadPool) (nThreadCount : Int32) : XThreadPool where
  nThreadCount := nThreadCount
  indexLastUseThread := -1
  vecThread := pool.vecThread ++ (List.range nThreadCount.toInt.toNat).map (· + 1)

variable {Node : Type*} (overflow : SignedOverflow)

/-- `XThreadPool::DispatchThread` up to the selection of a thread, which it
makes only for a connection that is not null. -/
def dispatchThread (pool : XThreadPool) (pNode : Option Node) :
    Except Fault (XThreadPool × Option ℕ) :=
  match pNode with
  | none => .ok (pool, none)
  | some _ =>
    if pool.indexLastUseThread = Int32.maxValue ∧ overflow = .undefined then
      .error .signedOverflow
    else if pool.nThreadCount = 0 then .error .divisionByZero
    else
      let last := pool.indexLastUseThread + 1
      let index := last % pool.nThreadCount
      if 0 ≤ index.toInt ∧ index.toInt < pool.vecThread.length then
        .ok ({ pool with indexLastUseThread := last }, some index.toInt.toNat)
      else .error .indexOutOfRange

/-- A call of `DispatchThread` for each connection, and the threads selected. -/
def dispatchAll : XThreadPool → List Node → Except Fault (XThreadPool × List ℕ)
  | pool, [] => .ok (pool, [])
  | pool, pNode :: pNodes => do
    let (pool, index) ← pool.dispatchThread overflow (some pNode)
    let (pool, indices) ← dispatchAll pool pNodes
    return (pool, index.toList ++ indices)

end XThreadPool

/-- The threads are selected in turn, and none much more often than another. -/
structure InTurn (count : ℕ) (selected : List ℕ) : Prop where
  turn : ∀ n (h : n < selected.length), selected[n] = n % count
  range : ∀ index ∈ selected, index < count
  balanced : ∀ i < count, ∀ j < count, selected.count i ≤ selected.count j + 1

/-- After `Init` on a fresh pool every connection is dispatched, and the
threads are selected in turn. -/
def RoundRobin {Node : Type*} (overflow : SignedOverflow) (nThreadCount : Int32)
    (pNodes : List Node) : Prop :=
  ∃ pool selected, (XThreadPool.init {} nThreadCount).dispatchAll overflow pNodes =
    .ok (pool, selected) ∧ selected.length = pNodes.length ∧
      InTurn nThreadCount.toInt.toNat selected

section Turns

/-- How often each number is among the first remainders. -/
theorem count_turns {count : ℕ} (h : 0 < count) (n : ℕ) {i : ℕ} (hi : i < count) :
    ((List.range n).map (· % count)).count i = n / count + if i < n % count then 1 else 0 := by
  have hcard := Nat.count_modEq_card n h i
  rw [Nat.mod_eq_of_lt hi] at hcard
  rw [← hcard, List.count, List.countP_map, Nat.count]
  refine List.countP_congr fun m _ => ?_
  rw [Function.comp_apply, beq_iff_eq, decide_eq_true_eq, Nat.ModEq, Nat.mod_eq_of_lt hi]

/-- To be in turn is to be the remainders in their order. -/
theorem inTurn_iff {count : ℕ} (h : 0 < count) (selected : List ℕ) :
    InTurn count selected ↔ selected = (List.range selected.length).map (· % count) := by
  constructor
  · intro hturn
    refine List.ext_getElem (by rw [List.length_map, List.length_range]) fun n hn _ => ?_
    rw [List.getElem_map, List.getElem_range]
    exact hturn.turn n hn
  · intro heq
    refine ⟨fun n hn => ?_, fun index hmem => ?_, fun i hi j hj => ?_⟩
    · have hget : ∀ l (hl : n < l.length), selected = l → selected[n] = l[n] := by
        rintro l hl rfl
        rfl
      have hlength : n < ((List.range selected.length).map (· % count)).length := by
        rwa [List.length_map, List.length_range]
      rw [hget _ hlength heq, List.getElem_map, List.getElem_range]
    · rw [heq, List.mem_map] at hmem
      obtain ⟨m, _, rfl⟩ := hmem
      exact Nat.mod_lt m h
    · rw [heq, count_turns h _ hi, count_turns h _ hj]
      split
      · split <;> omega
      · split <;> omega

end Turns

section Counter

open XThreadPool

variable {Node : Type*} {overflow : SignedOverflow} {k : Int32}

/-- The pool of `k` threads after so many dispatches. -/
def poolAt (k : Int32) (dispatches : ℕ) : XThreadPool where
  nThreadCount := k
  indexLastUseThread := Int32.ofInt ((dispatches : ℤ) - 1)
  vecThread := (List.range k.toInt.toNat).map (· + 1)

/-- The remainder that the next dispatch computes. -/
def indexAt (k : Int32) (dispatches : ℕ) : ℤ := (Int32.ofInt dispatches).toInt.tmod k.toInt

theorem init_eq_poolAt (k : Int32) : XThreadPool.init {} k = poolAt k 0 := rfl

/-- The dispatch computes its index from the counter, unless the increment
overflows and must not. -/
theorem dispatchThread_poolAt (overflow : SignedOverflow) (hk : 1 ≤ k.toInt) (dispatches : ℕ)
    (pNode : Node) :
    (poolAt k dispatches).dispatchThread overflow (some pNode) =
      if (poolAt k dispatches).indexLastUseThread = Int32.maxValue ∧ overflow = .undefined then
        .error .signedOverflow
      else if 0 ≤ indexAt k dispatches then
        .ok (poolAt k (dispatches + 1), some (indexAt k dispatches).toNat)
      else .error .indexOutOfRange := by
  have hne : (poolAt k dispatches).nThreadCount ≠ 0 := by
    intro hzero
    have hk0 : k = 0 := hzero
    rw [hk0] at hk
    exact absurd hk (by decide)
  have hlast : (poolAt k dispatches).indexLastUseThread + 1 = Int32.ofInt dispatches := by
    have hone : Int32.ofInt ((dispatches : ℤ) - 1 + 1) =
        Int32.ofInt ((dispatches : ℤ) - 1) + Int32.ofInt 1 := Int32.ofInt_add _ _
    rw [sub_add_cancel] at hone
    exact hone.symm
  have hnext : ({ poolAt k dispatches with indexLastUseThread := Int32.ofInt dispatches } :
      XThreadPool) = poolAt k (dispatches + 1) := by
    unfold poolAt
    rw [Nat.cast_succ, add_sub_cancel_right]
  have hindex : (Int32.ofInt dispatches % (poolAt k dispatches).nThreadCount).toInt =
      indexAt k dispatches := Int32.toInt_mod _ _
  have hlt : indexAt k dispatches < (poolAt k dispatches).vecThread.length := by
    have hlength : ((poolAt k dispatches).vecThread.length : ℤ) = k.toInt := by
      rw [poolAt, List.length_map, List.length_range]
      omega
    rw [hlength]
    exact Int.tmod_lt_of_pos _ (by omega)
  rw [dispatchThread, if_neg hne, hlast]
  dsimp only
  rw [hindex, ← hnext]
  simp only [hlt, and_true]

/-- The next dispatch selects the thread whose turn it is. -/
structure SelectsTurn (overflow : SignedOverflow) (k : Int32) (dispatches : ℕ) : Prop where
  increment : (poolAt k dispatches).indexLastUseThread = Int32.maxValue → overflow = .wraps
  index : indexAt k dispatches = (dispatches % k.toInt.toNat : ℕ)

/-- After a dispatch that works the others follow. -/
theorem dispatchAll_cons {pool next : XThreadPool} {pNode : Node} {index : ℕ}
    (h : pool.dispatchThread overflow (some pNode) = .ok (next, some index))
    (pNodes : List Node) : pool.dispatchAll overflow (pNode :: pNodes) =
      (next.dispatchAll overflow pNodes).map fun result => (result.1, index :: result.2) := by
  rw [dispatchAll, h]
  rfl

/-- The dispatches select the threads in turn exactly when each of them does. -/
theorem dispatchAll_iff (overflow : SignedOverflow) (hk : 1 ≤ k.toInt) (dispatches : ℕ)
    (pNodes : List Node) :
    (∃ pool, (poolAt k dispatches).dispatchAll overflow pNodes = .ok (pool,
      (List.range' dispatches pNodes.length).map (· % k.toInt.toNat))) ↔
      ∀ n < pNodes.length, SelectsTurn overflow k (dispatches + n) := by
  induction pNodes generalizing dispatches with
  | nil => exact ⟨fun _ n hn => absurd hn (Nat.not_lt_zero n), fun _ => ⟨_, rfl⟩⟩
  | cons pNode pNodes ih =>
    have hfirst : (∀ n < (pNode :: pNodes).length, SelectsTurn overflow k (dispatches + n)) ↔
        SelectsTurn overflow k dispatches ∧
          ∀ n < pNodes.length, SelectsTurn overflow k (dispatches + 1 + n) := by
      rw [List.length_cons, Nat.forall_lt_succ_left]
      simp only [Nat.add_zero, Nat.add_assoc, Nat.add_comm 1]
    have hstep := dispatchThread_poolAt overflow hk dispatches pNode
    rw [hfirst, ← ih (dispatches + 1), List.length_cons, List.range'_succ, List.map_cons]
    constructor
    · rintro ⟨pool, hall⟩
      by_cases hcounts : (poolAt k dispatches).indexLastUseThread = Int32.maxValue ∧
          overflow = .undefined
      · rw [if_pos hcounts] at hstep
        rw [dispatchAll, hstep] at hall
        cases hall
      · rw [if_neg hcounts] at hstep
        by_cases hindex : 0 ≤ indexAt k dispatches
        · rw [if_pos hindex] at hstep
          rw [dispatchAll_cons hstep] at hall
          cases hrest : (poolAt k (dispatches + 1)).dispatchAll overflow pNodes with
          | error fault =>
            rw [hrest] at hall
            cases hall
          | ok result =>
            rw [hrest] at hall
            obtain ⟨hpool, hselected⟩ := Prod.mk.inj (Except.ok.inj hall)
            obtain ⟨hhead, htail⟩ := List.cons.inj hselected
            refine ⟨⟨fun hmax => ?_, ?_⟩, result.1, ?_⟩
            · cases overflow with
              | undefined => exact absurd ⟨hmax, rfl⟩ hcounts
              | wraps => rfl
            · rw [← hhead, Int.toNat_of_nonneg hindex]
            · rw [← htail]
        · rw [if_neg hindex] at hstep
          rw [dispatchAll, hstep] at hall
          cases hall
    · rintro ⟨⟨hincrement, hindex⟩, pool, hrest⟩
      have hcounts : ¬((poolAt k dispatches).indexLastUseThread = Int32.maxValue ∧
          overflow = .undefined) := by
        rintro ⟨hmax, hundefined⟩
        rw [hincrement hmax] at hundefined
        cases hundefined
      rw [if_neg hcounts, hindex, if_pos (Int.natCast_nonneg _), Int.toNat_natCast] at hstep
      refine ⟨pool, ?_⟩
      rw [dispatchAll_cons hstep, hrest]
      rfl

/-- The remainder of a counter that has not overflowed. -/
theorem indexAt_of_lt (hk : 1 ≤ k.toInt) {dispatches : ℕ} (h : dispatches < 2 ^ 31) :
    indexAt k dispatches = (dispatches % k.toInt.toNat : ℕ) := by
  have hcount : (k.toInt.toNat : ℤ) = k.toInt := Int.toNat_of_nonneg (by omega)
  rw [indexAt, Int32.toInt_ofInt_of_le (by omega) (by omega), Int.ofNat_tmod, hcount]

/-- The remainder of a counter that has wrapped around is not positive. -/
theorem indexAt_of_wrapped (hk : 1 ≤ k.toInt) {dispatches : ℕ} (h : 2 ^ 31 ≤ dispatches)
    (h' : dispatches < 2 ^ 32) :
    indexAt k dispatches = -(((2 ^ 32 - dispatches) % k.toInt.toNat : ℕ) : ℤ) := by
  have hcount : (k.toInt.toNat : ℤ) = k.toInt := Int.toNat_of_nonneg (by omega)
  have hcounter : (Int32.ofInt dispatches).toInt = -((2 ^ 32 - dispatches : ℕ) : ℤ) := by
    rw [Int32.toInt_ofInt, Int32.size, Int.bmod]
    omega
  rw [indexAt, hcounter, Int.neg_tmod, Int.ofNat_tmod, hcount]

/-- The counter is the largest `int` before the dispatch that overflows. -/
theorem counter_eq_max_iff (k : Int32) {dispatches : ℕ} (h : dispatches < 2 ^ 32) :
    (poolAt k dispatches).indexLastUseThread = Int32.maxValue ↔ dispatches = 2 ^ 31 := by
  rw [poolAt, ← Int32.toInt_inj, Int32.toInt_ofInt, Int32.toInt_maxValue, Int32.size, Int.bmod]
  omega

/-- Before the overflow every dispatch is in turn. -/
theorem selectsTurn_of_lt (overflow : SignedOverflow) (hk : 1 ≤ k.toInt) {dispatches : ℕ}
    (h : dispatches < 2 ^ 31) : SelectsTurn overflow k dispatches where
  increment := by
    intro hmax
    have heq := (counter_eq_max_iff k (by omega)).mp hmax
    omega
  index := indexAt_of_lt hk h

/-- The dispatch that overflows is in turn where the counter wraps around to a
multiple of the number of threads. -/
theorem selectsTurn_overflow (hk : 1 ≤ k.toInt) :
    SelectsTurn overflow k (2 ^ 31) ↔ overflow = .wraps ∧ k.toInt.toNat ∣ 2 ^ 31 := by
  have hlt : 2 ^ 31 < 2 ^ 32 := by norm_num
  have hmax := (counter_eq_max_iff k hlt).mpr rfl
  have hindex := indexAt_of_wrapped hk (le_refl (2 ^ 31)) hlt
  have hzero : indexAt k (2 ^ 31) = ((2 ^ 31 % k.toInt.toNat : ℕ) : ℤ) ↔
      2 ^ 31 % k.toInt.toNat = 0 := by
    rw [hindex, show 2 ^ 32 - 2 ^ 31 = 2 ^ 31 by norm_num]
    omega
  rw [Nat.dvd_iff_mod_eq_zero, ← hzero]
  exact ⟨fun h => ⟨h.increment hmax, h.index⟩, fun h => ⟨fun _ => h.1, h.2⟩⟩

/-- The dispatch after that is in turn only where there is a single thread. -/
theorem selectsTurn_after (hk : 1 ≤ k.toInt) (h : SelectsTurn overflow k (2 ^ 31 + 1)) :
    k.toInt.toNat = 1 := by
  have hindex := indexAt_of_wrapped hk (Nat.le_succ (2 ^ 31)) (by norm_num)
  rw [h.index, show 2 ^ 32 - (2 ^ 31 + 1) = 2 ^ 31 - 1 by norm_num] at hindex
  have hplus : k.toInt.toNat ∣ 2 ^ 31 + 1 := Nat.dvd_of_mod_eq_zero (by omega)
  have hminus : k.toInt.toNat ∣ 2 ^ 31 - 1 := Nat.dvd_of_mod_eq_zero (by omega)
  have hgcd := Nat.dvd_gcd hplus hminus
  exact Nat.dvd_one.mp hgcd

/-- A single thread is always in turn where the counter wraps around. -/
theorem selectsTurn_single (hk : k.toInt.toNat = 1) (dispatches : ℕ) :
    SelectsTurn .wraps k dispatches where
  increment := fun _ => rfl
  index := by
    have hone : k.toInt = 1 := by omega
    rw [indexAt, hone, Int.tmod_one, Int.toNat_one, Nat.mod_one, Nat.cast_zero]

/-- So many dispatches are all in turn. -/
theorem selectsTurn_iff (hk : 1 ≤ k.toInt) (dispatches : ℕ) :
    (∀ n < dispatches, SelectsTurn overflow k n) ↔ dispatches ≤ 2 ^ 31 ∨ overflow = .wraps ∧
      (k = 1 ∨ dispatches = 2 ^ 31 + 1 ∧ k.toInt.toNat ∣ 2 ^ 31) := by
  have hsingle : k.toInt.toNat = 1 ↔ k = 1 := by
    rw [← Int32.toInt_inj, Int32.toInt_one]
    omega
  constructor
  · intro h
    by_cases hle : dispatches ≤ 2 ^ 31
    · exact Or.inl hle
    · obtain ⟨hwraps, hdvd⟩ := (selectsTurn_overflow hk).mp (h (2 ^ 31) (by omega))
      by_cases hlast : dispatches = 2 ^ 31 + 1
      · exact Or.inr ⟨hwraps, Or.inr ⟨hlast, hdvd⟩⟩
      · have hone := selectsTurn_after hk (h (2 ^ 31 + 1) (by omega))
        exact Or.inr ⟨hwraps, Or.inl (hsingle.mp hone)⟩
  · rintro (hle | ⟨rfl, hone | ⟨rfl, hdvd⟩⟩) n hn
    · exact selectsTurn_of_lt overflow hk (by omega)
    · exact selectsTurn_single (hsingle.mpr hone) n
    · by_cases hlast : n = 2 ^ 31
      · rw [hlast]
        exact (selectsTurn_overflow hk).mpr ⟨rfl, hdvd⟩
      · exact selectsTurn_of_lt .wraps hk (by omega)

/-- The selection is the round robin exactly when every dispatch is in turn. -/
theorem roundRobin_iff_selectsTurn (hk : 1 ≤ k.toInt) (pNodes : List Node) :
    RoundRobin overflow k pNodes ↔ ∀ n < pNodes.length, SelectsTurn overflow k n := by
  have hcount : 0 < k.toInt.toNat := by omega
  have hall := dispatchAll_iff overflow hk 0 pNodes
  simp only [Nat.zero_add, ← List.range_eq_range'] at hall
  rw [RoundRobin, init_eq_poolAt, ← hall]
  constructor
  · rintro ⟨pool, selected, hok, hlength, hturn⟩
    rw [inTurn_iff hcount, hlength] at hturn
    exact ⟨pool, hturn ▸ hok⟩
  · rintro ⟨pool, hok⟩
    refine ⟨pool, _, hok, by rw [List.length_map, List.length_range], ?_⟩
    rw [inTurn_iff hcount, List.length_map, List.length_range]

end Counter

/-- The connections are dispatched round robin exactly when there are at most
2^31 of them, or the overflow wraps around and there is a single thread, or one
more connection and a number of threads that divides 2^31. -/
theorem roundRobin_iff {Node : Type*} (overflow : SignedOverflow) {nThreadCount : Int32}
    (hcount : 1 ≤ nThreadCount.toInt) (pNodes : List Node) :
    RoundRobin overflow nThreadCount pNodes ↔ pNodes.length ≤ 2 ^ 31 ∨ overflow = .wraps ∧
      (nThreadCount = 1 ∨ pNodes.length = 2 ^ 31 + 1 ∧ nThreadCount.toInt.toNat ∣ 2 ^ 31) := by
  rw [roundRobin_iff_selectsTurn hcount, selectsTurn_iff hcount]

/-- The five threads of `main` serve two connections in turn. -/
theorem roundRobin_two : RoundRobin .wraps 5 [(), ()] :=
  (roundRobin_iff .wraps (by decide) [(), ()]).mpr (Or.inl (by decide))

/-- The five threads of `main` do not serve 2^31 + 1 connections in turn,
whatever the overflow does. -/
theorem roundRobin_overflow : ¬RoundRobin .undefined 5 (List.replicate (2 ^ 31 + 1) ()) ∧
    ¬RoundRobin .wraps 5 (List.replicate (2 ^ 31 + 1) ()) := by
  have hfive : (1 : ℤ) ≤ (5 : Int32).toInt := by decide
  have hlast : ∀ overflow, RoundRobin overflow 5 (List.replicate (2 ^ 31 + 1) ()) →
      overflow = .wraps ∧ (5 : Int32).toInt.toNat ∣ 2 ^ 31 := by
    intro overflow h
    have hall := (roundRobin_iff_selectsTurn hfive _).mp h
    rw [List.length_replicate] at hall
    exact (selectsTurn_overflow hfive).mp (hall (2 ^ 31) (Nat.lt_succ_self _))
  constructor
  · intro h
    cases (hlast .undefined h).1
  · intro h
    exact absurd (hlast .wraps h).2 (by decide)

end NodeManager.ThreadPool
