import Mathlib.Tactic.SplitIfs
import XcWindows.Xenvbd.Requests

/-!
# The loops that fill the requests

The turns of the inner loop are numbered through the requests. `Steps N` says what the first `N` turns
do: turn `k` goes from `D k` sectors and the resources `W k` to the next, and fills its segment as `S k`
says. From it follows what both loops do, when there are no more turns and when turn `K` stops them.
-/

namespace XcWindows.Xenvbd.Requests

open Lib
open Function (update update_of_ne update_self)

variable {segment : Segment → Progress → Except Assertion (Option (Segment × Progress))}
  {D : Nat → Nat} {W : Nat → Resources} {S : Nat → Segment → Segment} {N K : Nat}

/-- What the first `N` turns of the inner loop do. -/
def Steps (segment : Segment → Progress → Except Assertion (Option (Segment × Progress)))
    (D : Nat → Nat) (W : Nat → Resources) (S : Nat → Segment → Segment) (N : Nat) : Prop :=
  ∀ k < N, ∀ seg, segment seg ⟨D k, W k⟩ = .ok (some (S k seg, ⟨D (k + 1), W (k + 1)⟩))

/-- A run of the inner loop over turns that succeed. -/
theorem Steps.fillSegments (h : Steps segment D W S N) {n j k : Nat} (hk : k + n ≤ N) (r : Request) :
    ∃ seg, (∀ m, Requests.fillSegments segment (n + m) j r ⟨D k, W k⟩ =
        Requests.fillSegments segment m (j + n) { r with seg } ⟨D (k + n), W (k + n)⟩) ∧
      (∀ x < n, seg (j + x) = S (k + x) (r.seg (j + x))) ∧
      ∀ x, x < j ∨ j + n ≤ x → seg x = r.seg x := by
  induction n generalizing j k r with
  | zero => exact ⟨r.seg, fun m => by rw [Nat.zero_add]; rfl, nofun, fun _ _ => rfl⟩
  | succ n ih =>
    obtain ⟨seg, he, hin, hout⟩ := ih (j := j + 1) (k := k + 1) (by omega)
      { r with seg := update r.seg j (S k (r.seg j)) }
    refine ⟨seg, fun m => ?_, fun x hx => ?_, fun x hx => ?_⟩
    · have := he m
      rw [show n + 1 + m = n + m + 1 by omega, Requests.fillSegments, h k (by omega)]
      rw [show j + (n + 1) = j + 1 + n by omega, show k + (n + 1) = k + 1 + n by omega]
      exact this
    · rcases Nat.eq_zero_or_pos x with rfl | hpos
      · rw [Nat.add_zero, Nat.add_zero, hout j (.inl (Nat.lt_succ_self j))]
        exact update_self ..
      · have := hin (x - 1) (by omega)
        rw [show j + 1 + (x - 1) = j + x by omega, show k + 1 + (x - 1) = k + x by omega] at this
        rw [this]
        exact congrArg (S (k + x)) (update_of_ne (by omega) ..)
    · rw [hout x (by omega)]
      exact update_of_ne (by omega) ..

theorem Steps.fillSegments_all (h : Steps segment D W S N) {n j k : Nat} (hk : k + n ≤ N) (r : Request) :
    ∃ seg, Requests.fillSegments segment n j r ⟨D k, W k⟩ =
        .ok ({ r with seg }, ⟨D (k + n), W (k + n)⟩, true) ∧
      ∀ x < n, seg (j + x) = S (k + x) (r.seg (j + x)) := by
  obtain ⟨seg, he, hin, -⟩ := h.fillSegments (j := j) hk r
  exact ⟨seg, he 0, hin⟩

theorem Steps.fillSegments_error (h : Steps segment D W S K) {n j k : Nat} {e : Assertion} (hk : k ≤ K)
    (hn : K < k + n) (hstop : ∀ seg, segment seg ⟨D K, W K⟩ = .error e) (r : Request) :
    Requests.fillSegments segment n j r ⟨D k, W k⟩ = .error e := by
  obtain ⟨seg, he, -, -⟩ := h.fillSegments (n := K - k) (j := j) (k := k) (by omega) r
  obtain ⟨m, rfl⟩ : ∃ m, n = K - k + (m + 1) := ⟨n - (K - k) - 1, by omega⟩
  rw [he, show k + (K - k) = K by omega, Requests.fillSegments, hstop]
  rfl

section Requests
variable (target : Target) (srb : Srb) (start : Nat)

/-- Request `i` of `N` segments. -/
structure IsRequest (target : Target) (srb : Srb) (start : Nat) (D : Nat → Nat)
    (S : Nat → Segment → Segment) (N i : Nat) (old r : Request) : Prop where
  operation : r.operation = srb.operation
  handle : r.handle = target.handle
  id : r.id = srb.address ||| i
  firstSector : r.firstSector = u64 (start + D (min N (11 * i)))
  lastSector : r.lastSector = u64 (start + D (min N (11 * (i + 1))) + 18446744073709551615)
  nrSegments : r.nrSegments = min (N - 11 * i) 11
  seg : ∀ j < r.nrSegments, r.seg j = S (11 * i + j) (old.seg j)

theorem segmentsThisTime_eq (hN : N < 4294967296) (i : Nat) :
    min (sub32 N (min N (11 * i))) maxSegmentsPerRequest = min (N - 11 * i) 11 := by
  simp only [sub32, maxSegmentsPerRequest]
  omega

theorem address_and : srb.address &&& 3 = 0 :=
  (Nat.and_two_pow_sub_one_eq_mod srb.address 2).trans srb.aligned

/-- Both loops run to their end. -/
theorem Steps.fillRequests (h : Steps segment D W S N) (hN : N < 4294967296) {k i : Nat}
    (hle : N ≤ 11 * (i + k)) (request : Nat → Request) :
    ∃ request', Requests.fillRequests segment target srb start N k i request (min N (11 * i))
        ⟨D (min N (11 * i)), W (min N (11 * i))⟩ = .ok ⟨request', N, ⟨D N, W N⟩, true⟩ ∧
      (∀ x, i ≤ x → x < i + k → IsRequest target srb start D S N x (request x) (request' x)) ∧
      ∀ x < i, request' x = request x := by
  induction k generalizing i request with
  | zero =>
    rw [Nat.add_zero] at hle
    refine ⟨request, ?_, fun x h1 h2 => absurd h2 (by omega), fun _ _ => rfl⟩
    rw [Nat.min_eq_left hle]
    rfl
  | succ k ih =>
    have hnext : min N (11 * i) + min (N - 11 * i) 11 = min N (11 * (i + 1)) := by omega
    obtain ⟨seg, he, hseg⟩ := h.fillSegments_all (n := min (N - 11 * i) 11) (j := 0)
      (k := min N (11 * i)) (by omega)
      { request i with
        id := srb.address ||| i, operation := srb.operation, handle := target.handle
        firstSector := u64 (start + D (min N (11 * i))), nrSegments := min (N - 11 * i) 11 % 256 }
    rw [hnext] at he
    obtain ⟨request', he', hr, hold⟩ := ih (i := i + 1) (by omega) (update request i
      ⟨srb.operation, target.handle, srb.address ||| i, u64 (start + D (min N (11 * i))),
        u64 (start + D (min N (11 * (i + 1))) + 18446744073709551615), min (N - 11 * i) 11 % 256, seg⟩)
    refine ⟨request', ?_, fun x h1 h2 => ?_, fun x hx => ?_⟩
    · rw [Requests.fillRequests, xmAssert, if_pos (address_and srb)]
      simp only [segmentsThisTime_eq hN, he, bind, Except.bind, if_true]
      rw [show u32 (min N (11 * i) + min (N - 11 * i) 11) = min N (11 * (i + 1)) by
        simp only [u32]
        omega]
      exact he'
    · rcases Nat.eq_or_lt_of_le h1 with rfl | hlt
      · rw [hold i (Nat.lt_succ_self i), update_self]
        refine ⟨rfl, rfl, rfl, rfl, rfl, Nat.mod_eq_of_lt (by omega), fun j hj => ?_⟩
        have hj' : j < min (N - 11 * i) 11 := by
          rwa [show min (N - 11 * i) 11 % 256 = min (N - 11 * i) 11 from Nat.mod_eq_of_lt (by omega)]
            at hj
        have := hseg j hj'
        rw [Nat.zero_add, show min N (11 * i) + j = 11 * i + j by omega] at this
        exact this
      · have := hr x hlt (by omega)
        rwa [update_of_ne (by omega)] at this
    · rw [hold x (by omega), update_of_ne (by omega)]

/-- Turn `K` stops both loops. -/
theorem Steps.fillRequests_error (h : Steps segment D W S K) (hN : N < 4294967296) (hK : K < N)
    {e : Assertion} (hstop : ∀ seg, segment seg ⟨D K, W K⟩ = .error e) {k i : Nat}
    (hle : N ≤ 11 * (i + k)) (hi : 11 * i ≤ K) (request : Nat → Request) :
    Requests.fillRequests segment target srb start N k i request (min N (11 * i))
      ⟨D (min N (11 * i)), W (min N (11 * i))⟩ = .error e := by
  induction k generalizing i request with
  | zero => omega
  | succ k ih =>
    rw [Requests.fillRequests, xmAssert, if_pos (address_and srb)]
    simp only [segmentsThisTime_eq hN, bind, Except.bind]
    by_cases hlt : K < 11 * i + min (N - 11 * i) 11
    · rw [h.fillSegments_error (by omega) (by omega) hstop]
    · have hnext : min N (11 * i) + min (N - 11 * i) 11 = min N (11 * (i + 1)) := by omega
      obtain ⟨seg, he, -⟩ := h.fillSegments_all (n := min (N - 11 * i) 11) (j := 0)
        (k := min N (11 * i)) (by omega)
        { request i with
          id := srb.address ||| i, operation := srb.operation, handle := target.handle
          firstSector := u64 (start + D (min N (11 * i))), nrSegments := min (N - 11 * i) 11 % 256 }
      rw [hnext] at he
      simp only [he, if_true]
      rw [show u32 (min N (11 * i) + min (N - 11 * i) 11) = min N (11 * (i + 1)) by
        simp only [u32]
        omega]
      exact ih (by omega) (by omega) _

end Requests

end XcWindows.Xenvbd.Requests
