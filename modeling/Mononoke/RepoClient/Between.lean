/-
Mononoke.RepoClient.Between — `RepoClient::between`
(`repo_client/src/client/mod.rs`): for each `(top, bottom)` pair, the
first-parent chain from `top` at the distances `1, 2, 4, 8, …`.

`ParentStream` is a state machine on its node `n`: `ParentStream.poll` ends
the stream at `bottom` or `NULL_HASH`, and otherwise fetches the changeset of
`n`, emits `n` and moves to its first parent. The changeset fetch may fail,
and its error ends the whole command. The stream is collected with at most
`fuel` items, and `none` means that it had not ended by then (a first-parent
chain that cycles never reaches `bottom`). `.enumerate().filter(..)` is
`enumerateFilter`, whose state is the enumeration index `i` and the counter
`f` the closure owns. Both are `usize` in the source; they would overflow
only after `2^63` items, and are `Nat` here.

* `between_eq`: when each chain reaches its `bottom` or `NULL_HASH` at a first
  index `L`, `between` returns, pair by pair, the chain's nodes at the
  power-of-two indices below `L`, and none of them is `top`, `bottom` or
  `NULL_HASH`.

## How the proofs go

`enumerateFilter_range'` carries one invariant over the filter: `f` is the
least power of two at or above `max i 1`, so the closure accepts `i` exactly
when `i` is a power of two. `items_walk` runs the stream along the chain by
induction on the distance to `L`. `walk_periodic` shows a chain that comes
back to a node repeats forever, so a chain that stops visits no node twice.
-/
import Mathlib.Algebra.Group.Nat.Basic
import Mononoke.RepoClient.Format

namespace Mononoke.RepoClient

/-! ## 1. The model -/

instance decidableIsPowerOfTwo : DecidablePred Nat.isPowerOfTwo := fun n =>
  decidable_of_iff (∃ k < n + 1, n = 2 ^ k)
    ⟨fun ⟨k, _, h⟩ => ⟨k, h⟩, fun ⟨k, h⟩ => ⟨k, by have := Nat.lt_two_pow k; omega, h⟩⟩

section Stream

variable (getP1 : HgNodeHash → Except String (Option HgNodeHash))

/-- `ParentStream::poll` in state `n`: the end of the stream (`none`), or the
item and the next state. `getP1` is `get_changeset_by_changesetid` followed by
`p1()`. -/
def ParentStream.poll (bottom n : HgNodeHash) : Except String (Option (HgNodeHash × HgNodeHash)) :=
  if n = bottom ∨ n = NULL_HASH then .ok none
  else (getP1 n).map fun p => some (n, p.getD NULL_HASH)

/-- The items of a `ParentStream` from state `n`, if it ends within `fuel`
polls. -/
def ParentStream.items (bottom : HgNodeHash) : Nat → HgNodeHash → Option (Except String (List HgNodeHash))
  | 0, _ => none
  | fuel + 1, n =>
    match ParentStream.poll getP1 bottom n with
    | .error e => some (.error e)
    | .ok none => some (.ok [])
    | .ok (some (v, n')) => (ParentStream.items bottom fuel n').map (·.map (v :: ·))

end Stream

/-- `.enumerate().filter(|&(i, _)| if i == f { f *= 2; true } else { false })
.map(|(_, v)| v)`, from enumeration index `i` and counter `f`. -/
def enumerateFilter {α : Type} : Nat → Nat → List α → List α
  | _, _, [] => []
  | i, f, v :: vs => if i = f then v :: enumerateFilter (i + 1) (f * 2) vs else enumerateFilter (i + 1) f vs

/-- `RepoClient::between`: the pairs in order, each stream filtered from
`i = 0, f = 1` and collected; the first error ends the command. -/
def between (getP1 : HgNodeHash → Except String (Option HgNodeHash)) (fuel : Nat) :
    List (HgNodeHash × HgNodeHash) → Option (Except String (List (List HgNodeHash)))
  | [] => some (.ok [])
  | (top, bottom) :: pairs =>
    match ParentStream.items getP1 bottom fuel top with
    | none => none
    | some (.error e) => some (.error e)
    | some (.ok items) => (between getP1 fuel pairs).map (·.map (enumerateFilter 0 1 items :: ·))

/-- The first-parent chain from `top`, `NULL_HASH` after a changeset with no
first parent. -/
def walk (p1 : HgNodeHash → Option HgNodeHash) (top : HgNodeHash) : Nat → HgNodeHash
  | 0 => top
  | i + 1 => (p1 (walk p1 top i)).getD NULL_HASH

/-- The chain from `top` first meets `bottom` or `NULL_HASH` at index `L`. -/
def FirstStop (p1 : HgNodeHash → Option HgNodeHash) (top bottom : HgNodeHash) (L : Nat) : Prop :=
  (∀ i < L, walk p1 top i ≠ bottom ∧ walk p1 top i ≠ NULL_HASH) ∧
    (walk p1 top L = bottom ∨ walk p1 top L = NULL_HASH)

instance (p1 : HgNodeHash → Option HgNodeHash) (top bottom : HgNodeHash) (L : Nat) :
    Decidable (FirstStop p1 top bottom L) :=
  inferInstanceAs (Decidable (_ ∧ _))

/-! ## 2. The filter keeps the powers of two -/

/-- Two powers of two in `[m, 2m)` are equal. -/
theorem pow_two_eq_of_between {k j m : Nat} (hk : m ≤ 2 ^ k) (hk' : 2 ^ k < 2 * m)
    (hj : m ≤ 2 ^ j) (hj' : 2 ^ j < 2 * m) : k = j := by
  have hk2 : 2 ^ k < 2 ^ (j + 1) := by rw [Nat.pow_succ]; omega
  have hj2 : 2 ^ j < 2 ^ (k + 1) := by rw [Nat.pow_succ]; omega
  rw [Nat.pow_lt_pow_iff_right (by decide)] at hk2 hj2
  omega

/-- The filter's invariant: `f` is the least power of two at or above
`max i 1`. -/
structure FilterInv (i f : Nat) : Prop where
  pow : f.isPowerOfTwo
  le : max i 1 ≤ f
  lt : f < 2 * max i 1

theorem filterInv_init : FilterInv 0 1 := ⟨⟨0, rfl⟩, le_rfl, by decide⟩

/-- Under the invariant the closure accepts `i` exactly when `i` is a power
of two. -/
theorem FilterInv.eq_iff {i f : Nat} (h : FilterInv i f) : i = f ↔ i.isPowerOfTwo := by
  refine ⟨fun hi => hi ▸ h.pow, fun ⟨k, hk⟩ => ?_⟩
  obtain ⟨j, hj⟩ := h.pow
  have := Nat.one_le_two_pow (n := k)
  have h1 := h.le
  have h2 := h.lt
  rw [hk, hj, Nat.max_eq_left this] at *
  rw [pow_two_eq_of_between le_rfl (by omega) h1 h2]

theorem FilterInv.accept {i f : Nat} (h : FilterInv i f) (hi : i = f) : FilterInv (i + 1) (f * 2) where
  pow := Nat.mul2_isPowerOfTwo_of_isPowerOfTwo h.pow
  le := by have := h.le; omega
  lt := by have := h.le; omega

theorem FilterInv.reject {i f : Nat} (h : FilterInv i f) (hi : i ≠ f) : FilterInv (i + 1) f where
  pow := h.pow
  le := by have := h.le; have := h.lt; omega
  lt := by have := h.lt; omega

/-- The filter keeps the items at the power-of-two indices. -/
theorem enumerateFilter_range' {α : Type} (w : Nat → α) :
    ∀ (n i f : Nat), FilterInv i f →
      enumerateFilter i f ((List.range' i n).map w) =
        ((List.range' i n).filter fun j => decide j.isPowerOfTwo).map w
  | 0, _, _, _ => rfl
  | n + 1, i, f, h => by
    rw [List.range'_succ, List.map_cons, enumerateFilter, List.filter_cons]
    by_cases hi : i = f
    · rw [if_pos hi, if_pos (by simpa using h.eq_iff.1 hi), List.map_cons,
        enumerateFilter_range' w n (i + 1) (f * 2) (h.accept hi)]
    · rw [if_neg hi, if_neg (by simpa using mt h.eq_iff.2 hi),
        enumerateFilter_range' w n (i + 1) f (h.reject hi)]

/-! ## 3. The stream follows the chain -/

section Chain

variable {p1 : HgNodeHash → Option HgNodeHash} {top bottom : HgNodeHash} {L : Nat}

/-- From the node at index `j`, the stream emits the chain up to `L`. -/
theorem items_walk (hL : FirstStop p1 top bottom L) :
    ∀ (m j fuel : Nat), j + m = L → m < fuel →
      ParentStream.items (fun n => .ok (p1 n)) bottom fuel (walk p1 top j) =
        some (.ok ((List.range' j m).map (walk p1 top)))
  | _, _, 0, _, hfuel => absurd hfuel (Nat.not_lt_zero _)
  | 0, j, fuel + 1, hj, _ => by
    have hstop : walk p1 top j = bottom ∨ walk p1 top j = NULL_HASH := by simpa [← hj] using hL.2
    simp [ParentStream.items, ParentStream.poll, hstop]
  | m + 1, j, fuel + 1, hj, hfuel => by
    have hgo := hL.1 j (by omega)
    have hpoll : ParentStream.poll (fun n => .ok (p1 n)) bottom (walk p1 top j) =
        .ok (some (walk p1 top j, walk p1 top (j + 1))) := by
      rw [ParentStream.poll, if_neg (by tauto)]
      rfl
    rw [ParentStream.items, hpoll]
    simp only
    rw [items_walk hL m (j + 1) fuel (by omega) (by omega), List.range'_succ]
    rfl

/-- A chain that meets a node again repeats from there on. -/
theorem walk_periodic {a b : Nat} (h : walk p1 top a = walk p1 top b) :
    ∀ t, walk p1 top (a + t) = walk p1 top (b + t)
  | 0 => h
  | t + 1 => by
    show (p1 (walk p1 top (a + t))).getD NULL_HASH = (p1 (walk p1 top (b + t))).getD NULL_HASH
    rw [walk_periodic h t]

theorem walk_add_mul {a d : Nat} (h : walk p1 top a = walk p1 top (a + d)) :
    ∀ q r, walk p1 top (a + r + q * d) = walk p1 top (a + r)
  | 0, _ => by rw [Nat.zero_mul, Nat.add_zero]
  | q + 1, r => by
    rw [← walk_add_mul h q r, show a + r + (q + 1) * d = a + d + (r + q * d) by rw [Nat.succ_mul]; omega,
      ← walk_periodic h, ← Nat.add_assoc]

/-- A chain that stops at `L` visits no node twice before `L`. -/
theorem walk_injOn (hL : FirstStop p1 top bottom L) {a b : Nat} (hab : a < b) (hb : b < L) :
    walk p1 top a ≠ walk p1 top b := by
  intro h
  have hper := walk_add_mul (d := b - a) (by rw [Nat.add_sub_cancel' hab.le]; exact h)
  have hmod := hper ((L - a) / (b - a)) ((L - a) % (b - a))
  rw [show a + (L - a) % (b - a) + (L - a) / (b - a) * (b - a) = L by
    rw [Nat.add_assoc, Nat.mod_add_div' (L - a) (b - a)]; omega] at hmod
  have hlt : a + (L - a) % (b - a) < L := by
    have := Nat.mod_lt (L - a) (show 0 < b - a by omega)
    omega
  rcases hL.2 with hs | hs <;> rw [hs] at hmod
  · exact (hL.1 _ hlt).1 hmod.symm
  · exact (hL.1 _ hlt).2 hmod.symm

/-- The stream of one pair emits the chain up to `L`, and the filter keeps
its power-of-two indices. -/
theorem pair_eq (hL : FirstStop p1 top bottom L) {fuel : Nat} (hfuel : L < fuel) :
    (ParentStream.items (fun n => .ok (p1 n)) bottom fuel top).map (·.map (enumerateFilter 0 1)) =
      some (.ok (((List.range L).filter fun i => decide i.isPowerOfTwo).map (walk p1 top))) := by
  have hitems : ParentStream.items (fun n => .ok (p1 n)) bottom fuel top =
      some (.ok ((List.range' 0 L).map (walk p1 top))) :=
    items_walk hL L 0 fuel (Nat.zero_add L) hfuel
  rw [hitems, List.range_eq_range']
  simp only [Option.map_some', Except.map, enumerateFilter_range' _ L 0 1 filterInv_init]

/-- The chain's nodes at power-of-two indices below `L` are none of `top`,
`bottom` and `NULL_HASH`. -/
theorem walk_pow_ne (hL : FirstStop p1 top bottom L) {i : Nat}
    (hi : i ∈ (List.range L).filter fun i => decide i.isPowerOfTwo) :
    walk p1 top i ≠ top ∧ walk p1 top i ≠ bottom ∧ walk p1 top i ≠ NULL_HASH := by
  rw [List.mem_filter, List.mem_range, decide_eq_true_eq] at hi
  have hpos := Nat.pos_of_isPowerOfTwo hi.2
  exact ⟨(walk_injOn hL hpos hi.1).symm, hL.1 i hi.1⟩

end Chain

/-! ## 4. `between` -/

/-- `between` on pairs whose chains each stop, at `L pr`, before the fuel
runs out: for each pair in order, the chain's nodes at indices `1, 2, 4, …`
below `L pr`, none of which is the pair's `top`, its `bottom` or `NULL_HASH`. -/
theorem between_eq (p1 : HgNodeHash → Option HgNodeHash) (L : HgNodeHash × HgNodeHash → Nat)
    (fuel : Nat) (pairs : List (HgNodeHash × HgNodeHash))
    (hstop : ∀ pr ∈ pairs, FirstStop p1 pr.1 pr.2 (L pr)) (hfuel : ∀ pr ∈ pairs, L pr < fuel) :
    between (fun n => .ok (p1 n)) fuel pairs =
        some (.ok (pairs.map fun pr =>
          ((List.range (L pr)).filter fun i => decide i.isPowerOfTwo).map (walk p1 pr.1))) ∧
      ∀ pr ∈ pairs, ∀ x ∈ ((List.range (L pr)).filter fun i => decide i.isPowerOfTwo).map
        (walk p1 pr.1), x ≠ pr.1 ∧ x ≠ pr.2 ∧ x ≠ NULL_HASH := by
  refine ⟨?_, fun pr hpr x hx => ?_⟩
  · induction pairs with
    | nil => rfl
    | cons pr pairs ih =>
      obtain ⟨top, bottom⟩ := pr
      have hpair := pair_eq (hstop _ (List.mem_cons_self _ _)) (hfuel _ (List.mem_cons_self _ _))
      rw [between, ih (fun q hq => hstop q (List.mem_cons_of_mem _ hq))
        (fun q hq => hfuel q (List.mem_cons_of_mem _ hq))]
      cases hitems : ParentStream.items (fun n => .ok (p1 n)) bottom fuel top with
      | none => rw [hitems] at hpair; cases hpair
      | some r =>
        rw [hitems] at hpair
        cases r with
        | error e => cases hpair
        | ok items =>
          simp only [Option.map_some', Except.map, Option.some.injEq, Except.ok.injEq] at hpair
          simp only [hpair, Option.map_some', Except.map, List.map_cons]
  · obtain ⟨i, hi, rfl⟩ := List.mem_map.1 hx
    exact walk_pow_ne (hstop pr hpr) hi

/-- The chain `5 → 4 → 3 → 2 → 1`; node `1` has no parent. -/
def chainP1 (n : HgNodeHash) : Option HgNodeHash :=
  [(HgNodeHash.ofByte 5, HgNodeHash.ofByte 4), (HgNodeHash.ofByte 4, HgNodeHash.ofByte 3), (HgNodeHash.ofByte 3, HgNodeHash.ofByte 2),
    (HgNodeHash.ofByte 2, HgNodeHash.ofByte 1)].lookup n

theorem between_chain :
    between (fun n => .ok (chainP1 n)) 5 [(HgNodeHash.ofByte 5, HgNodeHash.ofByte 1)] =
      some (.ok [((List.range 4).filter fun i => decide i.isPowerOfTwo).map (walk chainP1 (HgNodeHash.ofByte 5))]) :=
  (between_eq chainP1 (fun _ => 4) 5 [(HgNodeHash.ofByte 5, HgNodeHash.ofByte 1)]
    (by simp only [List.mem_singleton, forall_eq]; decide) (by simp)).1

example : between (fun n => .ok (chainP1 n)) 5 [(HgNodeHash.ofByte 5, HgNodeHash.ofByte 1)] =
    some (.ok [[HgNodeHash.ofByte 4, HgNodeHash.ofByte 3]]) := rfl

end Mononoke.RepoClient
