/-
Mononoke.Revset.Validation — `ValidateNodeStream` (`revset/src/validation.rs`),
the stream adaptor that asserts the two revset invariants on a stream of
changesets with their generation numbers: generations never increase, and
no hash is seen twice.

The wrapped stream is given by what its successive polls return: an error,
`NotReady`, the end, or an item `(hash, gen)`. `ValidateNodeStream::poll`
is a step on the adaptor's two fields; a failed `assert!` is a panic, which
`poll` answers with `none`. `run` polls once per poll of the wrapped stream
and stops at the first panic. A `Generation` is its number, and the
`HashSet` of seen hashes is a list built by `List.insert`.

* `validateNodeStream_run`: a run from `ValidateNodeStream::new` does not
  panic exactly when the items' hashes are pairwise distinct and their
  generations non-increasing; it then returns the wrapped polls with the
  generations dropped, and after every prefix `last_generation` is the last
  item's generation and `seen_hashes` holds the hashes returned so far.

## How the proofs go

`poll_pass` and `poll_item` say once what one poll does. `Admits s items`
is the condition for a run from state `s` not to panic on `items`, and
`admits_cons` peels one item off it. `run_eq` follows the recursion of
`run` from any state; the theorem about `new` is its case `s = new`.
-/
import Mathlib.Data.List.Sort
import Mononoke.Types

namespace Mononoke.Revset

/-! ## 1. Polls -/

/-- `futures::Async`: a value, or not ready yet. -/
inductive Async (α : Type) where
  | ready (a : α)
  | notReady
  deriving DecidableEq

/-- Applying `f` to a ready value. -/
def Async.map {α β : Type} (f : α → β) : Async α → Async β
  | .ready a => .ready (f a)
  | .notReady => .notReady

/-- A poll of `add_generations_by_bonsai` over the wrapped stream:
`Poll<Option<(ChangesetId, Generation)>, Error>`. -/
abbrev WrappedPoll : Type := Except String (Async (Option (ChangesetId × Nat)))

/-- A poll of `ValidateNodeStream`: `Poll<Option<ChangesetId>, Error>`. -/
abbrev NodePoll : Type := Except String (Async (Option ChangesetId))

/-- The item a wrapped poll yields, if it yields one. -/
def itemOf : WrappedPoll → Option (ChangesetId × Nat)
  | .ok (.ready (some item)) => some item
  | _ => none

/-- The items of a sequence of wrapped polls, in order. -/
def items (polls : List WrappedPoll) : List (ChangesetId × Nat) := polls.filterMap itemOf

/-- What a validated stream is meant to yield for a wrapped poll: the same
poll with the generation dropped. -/
def dropGeneration (next : WrappedPoll) : NodePoll :=
  next.map (Async.map (Option.map Prod.fst))

/-! ## 2. The adaptor -/

/-- The two fields of `ValidateNodeStream` besides the wrapped stream. -/
structure ValidateNodeStream where
  lastGeneration : Option Nat
  seenHashes : List ChangesetId

/-- `ValidateNodeStream::new`: no generation yet, no hash seen. -/
def ValidateNodeStream.new : ValidateNodeStream := ⟨none, []⟩

/-- `ValidateNodeStream::poll` on the wrapped stream's poll `next`; `none`
is a panic. `seen_hashes.insert(hash)` is `true` when `hash` was new, and
`last_generation.is_none() || last_generation >= Some(gen)` is
`last_generation.all (gen ≤ ·)`, since `None` is below every `Some`. -/
def ValidateNodeStream.poll (self : ValidateNodeStream) (next : WrappedPoll) :
    Option (NodePoll × ValidateNodeStream) :=
  match next with
  | .error e => some (.error e, self)
  | .ok .notReady => some (.ok .notReady, self)
  | .ok (.ready none) => some (.ok (.ready none), self)
  | .ok (.ready (some (hash, gen))) =>
    if hash ∉ self.seenHashes then
      let self := { self with seenHashes := self.seenHashes.insert hash }
      if self.lastGeneration.all (gen ≤ ·) then
        some (.ok (.ready (some hash)), { self with lastGeneration := some gen })
      else none
    else none

/-- Polling the adaptor once for each poll of the wrapped stream: the polls
it returns and its final state, or `none` if a poll panics. -/
def ValidateNodeStream.run (self : ValidateNodeStream) :
    List WrappedPoll → Option (List NodePoll × ValidateNodeStream)
  | [] => some ([], self)
  | next :: rest => do
    let (out, self) ← self.poll next
    let (outs, self) ← self.run rest
    pure (out :: outs, self)

/-! ## 3. One poll -/

namespace ValidateNodeStream

/-- The state after an item `(hash, gen)` that passed both assertions. -/
def record (s : ValidateNodeStream) (hash : ChangesetId) (gen : Nat) : ValidateNodeStream :=
  ⟨some gen, hash :: s.seenHashes⟩

/-- The state after every item of `items`, each passing both assertions. -/
def recordAll (s : ValidateNodeStream) : List (ChangesetId × Nat) → ValidateNodeStream
  | [] => s
  | (hash, gen) :: rest => (s.record hash gen).recordAll rest

/-- A poll that yields no item passes through and leaves the state as it is. -/
theorem poll_pass (s : ValidateNodeStream) {next : WrappedPoll} (h : itemOf next = none) :
    s.poll next = some (dropGeneration next, s) := by
  match next, h with
  | .error _, _ => rfl
  | .ok .notReady, _ => rfl
  | .ok (.ready none), _ => rfl

/-- An item passes when its hash is new and its generation is at most the
last one; it is then returned and recorded. -/
theorem poll_item (s : ValidateNodeStream) (hash : ChangesetId) (gen : Nat) :
    s.poll (.ok (.ready (some (hash, gen)))) =
      if hash ∉ s.seenHashes ∧ s.lastGeneration.all (gen ≤ ·) then
        some (.ok (.ready (some hash)), s.record hash gen)
      else none := by
  by_cases hs : hash ∈ s.seenHashes
  · simp [poll, hs]
  · by_cases hg : s.lastGeneration.all (gen ≤ ·) <;> simp [poll, hs, hg, record, List.insert]

theorem run_cons (s : ValidateNodeStream) (next : WrappedPoll) (rest : List WrappedPoll) :
    s.run (next :: rest) =
      (s.poll next).bind fun r => (r.2.run rest).bind fun q => some (r.1 :: q.1, q.2) := by
  simp only [run]
  rfl

/-! ## 4. Runs -/

/-- A run from `s` does not panic on `items`: their hashes are new to `s`
and pairwise distinct, and their generations are at most `s`'s last one
and non-increasing. -/
def Admits (s : ValidateNodeStream) (items : List (ChangesetId × Nat)) : Prop :=
  (items.map Prod.fst).Nodup ∧ (∀ x ∈ items, x.1 ∉ s.seenHashes ∧ s.lastGeneration.all (x.2 ≤ ·)) ∧
    (items.map Prod.snd).Sorted (· ≥ ·)

instance (s : ValidateNodeStream) (items : List (ChangesetId × Nat)) : Decidable (s.Admits items) :=
  inferInstanceAs (Decidable (_ ∧ _ ∧ _))

theorem admits_nil (s : ValidateNodeStream) : s.Admits [] := by
  simp [Admits]

/-- A bound on the last generation carries over to smaller generations. -/
theorem all_le_of_le {a b : Nat} {o : Option Nat} (h : a ≤ b) (ho : o.all (b ≤ ·)) :
    o.all (a ≤ ·) := by
  cases o with
  | none => rfl
  | some c => simpa using le_trans h (by simpa using ho)

/-- The first item must pass both assertions, and the rest must pass from
the state that records it. -/
theorem admits_cons (s : ValidateNodeStream) (hash : ChangesetId) (gen : Nat)
    (rest : List (ChangesetId × Nat)) :
    s.Admits ((hash, gen) :: rest) ↔
      (hash ∉ s.seenHashes ∧ s.lastGeneration.all (gen ≤ ·)) ∧ (s.record hash gen).Admits rest := by
  simp only [Admits, record, List.map_cons, List.nodup_cons, List.forall_mem_cons, List.sorted_cons,
    List.forall_mem_map]
  simp only [List.mem_cons, not_or, List.mem_map, Option.all_some, decide_eq_true_eq, not_exists,
    not_and]
  constructor
  · rintro ⟨⟨hnew, hnd⟩, ⟨hhead, hrest⟩, hle, hsorted⟩
    exact ⟨hhead, hnd, fun x hx => ⟨⟨hnew x hx, (hrest x hx).1⟩, hle x hx⟩, hsorted⟩
  · rintro ⟨hhead, hnd, hrest, hsorted⟩
    exact ⟨⟨fun x hx => (hrest x hx).1.1, hnd⟩,
      ⟨hhead, fun x hx => ⟨(hrest x hx).1.2, all_le_of_le (hrest x hx).2 hhead.2⟩⟩,
      fun x hx => (hrest x hx).2, hsorted⟩

/-- Run from any state: it panics unless the state admits the items, and
otherwise returns the wrapped polls with generations dropped and ends in
the state that records every item. -/
theorem run_eq (s : ValidateNodeStream) (polls : List WrappedPoll) :
    s.run polls =
      if s.Admits (items polls) then some (polls.map dropGeneration, s.recordAll (items polls))
      else none := by
  induction polls generalizing s with
  | nil => simp [run, admits_nil, items, recordAll]
  | cons next rest ih =>
    rw [run_cons]
    match next with
    | .error _ | .ok .notReady | .ok (.ready none) =>
      simp only [poll_pass, itemOf, Option.some_bind, ih, items, List.filterMap_cons]
      split <;> rfl
    | .ok (.ready (some (hash, gen))) =>
      have hitems : items (.ok (.ready (some (hash, gen))) :: rest) = (hash, gen) :: items rest := rfl
      simp only [poll_item, hitems, admits_cons]
      by_cases hc : hash ∉ s.seenHashes ∧ s.lastGeneration.all (gen ≤ ·) <;>
        by_cases ha : (s.record hash gen).Admits (items rest) <;>
        simp [hc, ha, ih, recordAll, dropGeneration, Async.map, Except.map]

/-- After a run, `last_generation` is the last item's generation, or the
starting one when there was no item. -/
theorem recordAll_lastGeneration (s : ValidateNodeStream) (items : List (ChangesetId × Nat)) :
    (s.recordAll items).lastGeneration = (items.getLast?.map Prod.snd).or s.lastGeneration := by
  induction items generalizing s with
  | nil => simp [recordAll]
  | cons x rest ih =>
    obtain ⟨hash, gen⟩ := x
    rw [recordAll, ih]
    cases rest with
    | nil => rfl
    | cons y rest' => simp [List.getLast?_cons_cons, List.getLast?_cons]

/-- After a run, the seen hashes are the starting ones and the items'. -/
theorem mem_recordAll_seenHashes (s : ValidateNodeStream) (items : List (ChangesetId × Nat))
    (hash : ChangesetId) :
    hash ∈ (s.recordAll items).seenHashes ↔ hash ∈ s.seenHashes ∨ hash ∈ items.map Prod.fst := by
  induction items generalizing s with
  | nil => simp [recordAll]
  | cons x rest ih =>
    obtain ⟨h, gen⟩ := x
    simp only [recordAll, ih, record, List.mem_cons, List.map_cons]
    tauto

/-- A run does not panic exactly when its starting state admits its items. -/
theorem run_isSome (s : ValidateNodeStream) (polls : List WrappedPoll) :
    (s.run polls).isSome ↔ s.Admits (items polls) := by
  rw [run_eq]
  split <;> simp [*]

/-- A run that does not panic returns the polls with generations dropped and
ends in the state that records every item. -/
theorem run_eq_some {s s' : ValidateNodeStream} {polls : List WrappedPoll} {outs : List NodePoll}
    (h : s.run polls = some (outs, s')) :
    outs = polls.map dropGeneration ∧ s' = s.recordAll (items polls) := by
  rw [run_eq] at h
  split at h
  · cases h
    exact ⟨rfl, rfl⟩
  · cases h

/-- From `new`, only the items' own distinctness and order matter. -/
theorem admits_new (is : List (ChangesetId × Nat)) :
    new.Admits is ↔ (is.map Prod.fst).Nodup ∧ (is.map Prod.snd).Sorted (· ≥ ·) := by
  simp [Admits, new]

end ValidateNodeStream

/-! ## 5. From `ValidateNodeStream::new` -/

open ValidateNodeStream in
/-- Polling `ValidateNodeStream::new(wrapped)` along any sequence of polls of
`wrapped` does not panic exactly when the items' hashes are pairwise
distinct and their generations non-increasing. Then every poll is returned
with the generation dropped (`NotReady`, errors and the end unchanged, an
item as its hash); a poll that yields no item leaves the state as it was;
and after every prefix of the run `last_generation` is the generation of
its last item and `seen_hashes` holds exactly the hashes of its items. -/
theorem validateNodeStream_run (polls : List WrappedPoll) :
    ((new.run polls).isSome ↔ ((items polls).map Prod.fst).Nodup ∧
      ((items polls).map Prod.snd).Sorted (· ≥ ·)) ∧
    (∀ outs s, new.run polls = some (outs, s) → outs = polls.map dropGeneration) ∧
    (∀ (s : ValidateNodeStream) (next : WrappedPoll), itemOf next = none →
      s.poll next = some (dropGeneration next, s)) ∧
    (∀ n outs s, new.run (polls.take n) = some (outs, s) →
      s.lastGeneration = (items (polls.take n)).getLast?.map Prod.snd ∧
      ∀ hash, hash ∈ s.seenHashes ↔ hash ∈ (items (polls.take n)).map Prod.fst) := by
  refine ⟨(run_isSome _ _).trans (admits_new _), fun _ _ h => (run_eq_some h).1,
    fun s _ h => poll_pass s h, fun n outs s h => ?_⟩
  obtain ⟨-, rfl⟩ := run_eq_some h
  exact ⟨by simp [recordAll_lastGeneration, new], fun hash => by simp [mem_recordAll_seenHashes, new]⟩

/-- Two items with distinct hashes and equal generations pass. -/
example : (ValidateNodeStream.new.run
    [.ok .notReady, .ok (.ready (some (ChangesetId.ofByte 2, 3))), .error "e",
      .ok (.ready (some (ChangesetId.ofByte 1, 3))), .ok (.ready none)]).isSome := by
  decide

/-- A generation that increases panics. -/
example : ValidateNodeStream.new.run
    [.ok (.ready (some (ChangesetId.ofByte 2, 3))), .ok (.ready (some (ChangesetId.ofByte 1, 4)))] =
      none := by
  rfl

end Mononoke.Revset
