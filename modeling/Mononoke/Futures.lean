/-
Mononoke.Futures — the parts of `futures` 0.1 the modelled code composes:
`Result`-valued steps, `loop_fn` with its `Loop` state, traversals that
stop at the first error (`and_then` followed by `collect`, `join_all`), and
streams: `buffered`, `chain`, and `select_all`.

A `Result<T, Error>` is `Except String T`: the modelled code only ever
propagates errors or builds them from a message. A step that is not
asynchronous in any way that matters to the modelled properties is a plain
function; where an asynchronous step is itself the subject (a stream's
`poll`), its own module models the `Async` states.

`loop_fn` runs its closure until it returns `Loop::Break`. `loopFn` runs
the closure at most `fuel` times and answers `none` when the fuel runs out,
so a theorem that a loop returns says how much fuel is enough; `loopTrace`
lists the states the closure is called on, for statements about a whole run.

A stream is what its consumer sees (`StreamRun`): the items it yields and
the error that ends it, if one does; the error type is a parameter, since
some streams end with errors that carry data. `buffered(n)` yields its
futures' results in order, but any future of the `n` it holds may fail first,
and `select_all` yields the items of its streams in whatever order they
become ready; so both are relations (`Buffered`, `SelectAll`): every run
their futures' completions can give is one derivation.

## How the run lemmas go

`loopFn_break_inv` carries an invariant of the `Continue` steps to the
state the loop breaks on; `loopFn_terminates` turns a ranking that drops at
each `Continue` into enough fuel; `loopTrace_succ` says consecutive states of
a trace are one `Continue` step apart. Each loop of the development is
proved through these three, with no induction of its own on the fuel.

What holds of every run of `buffered` is one induction on the derivation:
its items are the first futures' results (`Buffered.isPrefixOf`), it ends
without an error exactly when no future and not the upstream fails
(`Buffered.error_eq_none_iff`), and otherwise with an error from the window
it stopped at (`Buffered.error_window`). Likewise for every order of
`select_all`: the merged stream ends without an error exactly when every
stream does (`SelectAll.error_eq_none_iff`), yields only their items
(`SelectAll.subperm`) and, when it ends without an error, all of them
(`SelectAll.perm`); polling the streams one after the other is one of the
orders (`selectAll_chain`).
-/
import Mathlib.Logic.Relation
import Mathlib.Data.List.Basic

namespace Mononoke

/-! ## `Result` -/

section ExceptLemmas

variable {α β ε : Type}

theorem except_bind_eq_ok {x : Except ε α} {f : α → Except ε β} {b : β} :
    x >>= f = .ok b ↔ ∃ a, x = .ok a ∧ f a = .ok b := by
  cases x <;> simp [bind, Except.bind]

theorem except_map_eq_ok {x : Except ε α} {f : α → β} {b : β} :
    x.map f = .ok b ↔ ∃ a, x = .ok a ∧ f a = b := by
  cases x <;> simp [Except.map]

theorem except_mapError_eq_ok {ε' : Type} {x : Except ε α} {f : ε → ε'} {a : α} :
    x.mapError f = .ok a ↔ x = .ok a := by
  cases x <;> simp [Except.mapError]

variable {g : α → Except ε β}

/-- A traversal succeeds on `a :: l` when `g a` does and the rest does. -/
theorem mapM_cons_eq_ok {a : α} {l : List α} {r : List β} :
    (a :: l).mapM g = .ok r ↔ ∃ b bs, g a = .ok b ∧ l.mapM g = .ok bs ∧ r = b :: bs := by
  rw [List.mapM_cons]
  cases g a with
  | error e => simp [bind, Except.bind]
  | ok b =>
    cases l.mapM g with
    | error e => simp [bind, Except.bind]
    | ok bs => simp [bind, Except.bind, pure, Except.pure, eq_comm]

/-- A successful traversal returns one result per element. -/
theorem length_of_mapM_eq_ok : ∀ {l : List α} {r : List β}, l.mapM g = .ok r → r.length = l.length
  | [], r, h => by cases h; rfl
  | _ :: _, _, h => by
    obtain ⟨b, bs, -, hbs, rfl⟩ := mapM_cons_eq_ok.1 h
    simp [length_of_mapM_eq_ok hbs]

/-- A successful traversal returns exactly the results of its elements. -/
theorem mem_of_mapM_eq_ok : ∀ {l : List α} {r : List β}, l.mapM g = .ok r →
    ∀ b, b ∈ r ↔ ∃ a ∈ l, g a = .ok b
  | [], r, h, b => by
    cases h
    simp
  | a :: l, r, h, b => by
    simp only [List.mapM_cons, except_bind_eq_ok] at h
    obtain ⟨b₀, ha, bs, hl, h⟩ := h
    cases h
    simp only [List.mem_cons, mem_of_mapM_eq_ok hl b, or_and_right, exists_or, exists_eq_left,
      ha, Except.ok.injEq]
    exact or_congr_left eq_comm

/-- A traversal whose every element succeeds returns the list of results. -/
theorem mapM_eq_ok_map {h : α → β} : ∀ {l : List α}, (∀ a ∈ l, g a = .ok (h a)) →
    l.mapM g = .ok (l.map h)
  | [], _ => rfl
  | a :: l, hl => by
    simp only [List.mapM_cons, hl a (List.mem_cons_self a l),
      mapM_eq_ok_map fun x hx => hl x (List.mem_cons_of_mem a hx)]
    rfl

end ExceptLemmas

/-! ## `loop_fn` -/

/-- `futures::future::Loop`. -/
inductive Loop (α β : Type) where
  | Break (a : α)
  | Continue (s : β)
  deriving DecidableEq, Repr

section LoopFn

variable {ε α β : Type} (body : β → Except ε (Loop α β))

/-- `futures::future::loop_fn`, run for at most `fuel` calls of `body`. -/
def loopFn : Nat → β → Except ε (Option α)
  | 0, _ => .ok none
  | fuel + 1, s =>
    match body s with
    | .error e => .error e
    | .ok (.Break a) => .ok (some a)
    | .ok (.Continue s') => loopFn fuel s'

/-- The states `loopFn body fuel` calls `body` on, in order. -/
def loopTrace : Nat → β → List β
  | 0, _ => []
  | fuel + 1, s =>
    s :: match body s with
      | .ok (.Continue s') => loopTrace fuel s'
      | _ => []

variable {body}

theorem loopFn_of_break {fuel : Nat} {s : β} {a : α} (h : body s = .ok (.Break a)) :
    loopFn body (fuel + 1) s = .ok (some a) := by
  simp [loopFn, h]

theorem loopFn_of_continue {fuel : Nat} {s s' : β} (h : body s = .ok (.Continue s')) :
    loopFn body (fuel + 1) s = loopFn body fuel s' := by
  simp [loopFn, h]

/-- An invariant of the `Continue` steps holds of the state the loop breaks on. -/
theorem loopFn_break_inv (I : β → Prop)
    (step : ∀ s s', I s → body s = .ok (.Continue s') → I s') :
    ∀ {fuel : Nat} {s : β} {a : α}, I s → loopFn body fuel s = .ok (some a) →
      ∃ s', I s' ∧ body s' = .ok (.Break a)
  | 0, _, _, _, h => by cases h
  | fuel + 1, s, a, hs, h => by
    cases hb : body s with
    | error e => simp [loopFn, hb] at h
    | ok r =>
      cases r with
      | Break a' =>
        rw [loopFn_of_break hb] at h
        cases h
        exact ⟨s, hs, hb⟩
      | Continue s' =>
        rw [loopFn_of_continue hb] at h
        exact loopFn_break_inv I step (step s s' hs hb) h

/-- A ranking `R n s` ("from `s` the loop breaks within `n` calls") that is
never `0` and drops by one at each `Continue` is enough fuel. -/
theorem loopFn_terminates (R : Nat → β → Prop) (hzero : ∀ s, ¬ R 0 s)
    (step : ∀ n s, R (n + 1) s →
      (∃ a, body s = .ok (.Break a)) ∨ ∃ s', body s = .ok (.Continue s') ∧ R n s') :
    ∀ {n : Nat} {s : β}, R n s → ∃ a, loopFn body n s = .ok (some a)
  | 0, s, h => absurd h (hzero s)
  | n + 1, s, h => by
    rcases step n s h with ⟨a, hb⟩ | ⟨s', hb, hs'⟩
    · exact ⟨a, loopFn_of_break hb⟩
    · rw [loopFn_of_continue hb]
      exact loopFn_terminates R hzero step hs'

@[simp] theorem length_loopTrace_le : ∀ (fuel : Nat) (s : β), (loopTrace body fuel s).length ≤ fuel
  | 0, _ => Nat.le_refl 0
  | fuel + 1, s => by
    simp only [loopTrace, List.length_cons, Nat.add_le_add_iff_right]
    split
    · exact length_loopTrace_le fuel _
    · exact Nat.zero_le fuel

theorem getElem_loopTrace_zero {fuel : Nat} {s : β} (h : 0 < (loopTrace body fuel s).length) :
    (loopTrace body fuel s)[0] = s := by
  cases fuel with
  | zero => simp [loopTrace] at h
  | succ fuel => rfl

/-- Consecutive states of a trace are one `Continue` step apart. -/
theorem loopTrace_succ : ∀ {fuel : Nat} {s : β} (i : Nat)
    (h : i + 1 < (loopTrace body fuel s).length),
    body (loopTrace body fuel s)[i] = .ok (.Continue (loopTrace body fuel s)[i + 1])
  | 0, _, _, h => by simp [loopTrace] at h
  | fuel + 1, s, i, h => by
    cases hb : body s with
    | error e => simp [loopTrace, hb] at h
    | ok r =>
      cases r with
      | Break a => simp [loopTrace, hb] at h
      | Continue s' =>
        have ht : loopTrace body (fuel + 1) s = s :: loopTrace body fuel s' := by
          simp [loopTrace, hb]
        simp only [ht, List.length_cons, Nat.add_lt_add_iff_right] at h ⊢
        cases i with
        | zero => simpa [getElem_loopTrace_zero h] using hb
        | succ i => exact loopTrace_succ i h

end LoopFn

/-! ## Streams -/

/-- A stream as its consumer sees it: the items it yields, and the error that
ends it, if one does. The consumer stops at the first error. -/
structure StreamRun (ε α : Type) where
  items : List α
  error : Option ε

section Streams

variable {ε α β γ : Type}

/-- `.map(|x| stream::iter_ok(f(x))).flatten()`. -/
def StreamRun.flatMap (f : α → List β) (s : StreamRun ε α) : StreamRun ε β :=
  ⟨s.items.flatMap f, s.error⟩

/-- `Stream::chain`: the second stream runs only if the first ends without
an error. -/
def StreamRun.chain (s t : StreamRun ε α) : StreamRun ε α :=
  match s.error with
  | some _ => s
  | none => ⟨s.items ++ t.items, t.error⟩

/-- A chained stream that ends without an error ran both streams to their
end. -/
theorem StreamRun.chain_of_error_eq_none {s t : StreamRun ε α} (h : (s.chain t).error = none) :
    s.error = none ∧ s.chain t = ⟨s.items ++ t.items, t.error⟩ := by
  unfold StreamRun.chain at h ⊢
  cases hs : s.error <;> simp_all

/-- A chained stream ends with the first stream's error, or else with the
second's. -/
theorem StreamRun.error_chain (s t : StreamRun ε α) : (s.chain t).error = s.error.or t.error := by
  unfold StreamRun.chain
  cases h : s.error <;> simp [h]

/-- The items a fallible `f` maps before the first one it fails on, then that
failure; when it fails on none, all of them, then `error`. -/
def mapUntilFailure (f : α → Except ε β) (error : Option ε) : List α → StreamRun ε β
  | [] => ⟨[], error⟩
  | a :: rest =>
    match f a with
    | .ok b => ⟨b :: (mapUntilFailure f error rest).items, (mapUntilFailure f error rest).error⟩
    | .error e => ⟨[], some e⟩

/-- `.map(f)` by a closure that can fail (an `assert!`, a `panic!`), applied
as each item is polled: the stream ends at the first item `f` fails on, or
with the stream's own error. -/
def StreamRun.mapExcept (f : α → Except ε β) (s : StreamRun ε α) : StreamRun ε β :=
  mapUntilFailure f s.error s.items

/-! ## `buffered` -/

/-- `stream.buffered(n)` over a stream of futures (`upstream`, each future
given by its result), as its consumer sees it: every run their completions
can give. `buffered` keeps the next `n` futures running and yields their
results in order. While the next result is pending, any future of that
window may fail first and end the stream with its error; once the window
holds every future the upstream has left, the upstream's own error may end
it. `buffered(0)` never yields, and never ends. -/
inductive Buffered (n : Nat) : StreamRun ε (Except ε α) → StreamRun ε α → Prop where
  | done : 0 < n → Buffered n ⟨[], none⟩ ⟨[], none⟩
  | yield (a : α) (futures : List (Except ε α)) (error : Option ε) (out : StreamRun ε α) :
      0 < n → Buffered n ⟨futures, error⟩ out →
      Buffered n ⟨.ok a :: futures, error⟩ ⟨a :: out.items, out.error⟩
  | fail (futures : List (Except ε α)) (error : Option ε) (i : Nat) (e : ε) :
      i < n → futures[i]? = some (.error e) → Buffered n ⟨futures, error⟩ ⟨[], some e⟩
  | failUpstream (futures : List (Except ε α)) (e : ε) :
      futures.length < n → Buffered n ⟨futures, some e⟩ ⟨[], some e⟩

variable {n : Nat} {up : StreamRun ε (Except ε α)} {out : StreamRun ε α}

/-- Whatever the futures give, a stream with a window runs one way at least:
the futures complete in order. -/
theorem Buffered.exists (hn : 0 < n) (error : Option ε) :
    ∀ futures : List (Except ε α), ∃ out, Buffered n ⟨futures, error⟩ out
  | [] => by
    cases error with
    | none => exact ⟨_, .done hn⟩
    | some e => exact ⟨_, .failUpstream [] e hn⟩
  | .ok a :: futures =>
    let ⟨out, h⟩ := Buffered.exists hn error futures
    ⟨_, .yield a futures error out hn h⟩
  | .error e :: futures => ⟨_, .fail _ error 0 e hn (by simp)⟩

/-- When every future succeeds and the upstream ends without an error, the
stream yields every result, in order. -/
theorem Buffered.of_ok (hn : 0 < n) : ∀ l : List α, Buffered (ε := ε) n ⟨l.map .ok, none⟩ ⟨l, none⟩
  | [] => .done hn
  | a :: l => .yield a _ none ⟨l, none⟩ hn (Buffered.of_ok hn l)

/-- A run's items are the results of the first futures, in order. -/
theorem Buffered.isPrefixOf (h : Buffered n up out) : out.items.map .ok <+: up.items := by
  induction h with
  | done => exact List.prefix_refl []
  | yield a futures error out _ _ ih => simpa using ih
  | fail | failUpstream => exact List.nil_prefix

/-- A run that ends without an error yielded every future's result, and the
upstream ended without one. -/
theorem Buffered.eq_of_error_eq_none (h : Buffered n up out) (hok : out.error = none) :
    up = ⟨out.items.map .ok, none⟩ := by
  induction h with
  | done => rfl
  | yield a futures error out _ _ ih =>
    cases ih hok
    rfl
  | fail | failUpstream => cases hok

/-- A run ends without an error when every future succeeds and the upstream
ends without one. -/
theorem Buffered.error_eq_none_of_ok (h : Buffered n up out) (hup : up.error = none)
    (hall : ∀ r ∈ up.items, ∃ a, r = .ok a) : out.error = none := by
  induction h with
  | done => rfl
  | yield a futures error out _ _ ih => exact ih hup fun r hr => hall r (List.mem_cons_of_mem _ hr)
  | fail futures error i e _ he =>
    obtain ⟨a, ha⟩ := hall _ (List.getElem?_mem he)
    exact absurd ha (by simp)
  | failUpstream => cases hup

/-- A run ends without an error exactly when every future succeeds and the
upstream ends without one. -/
theorem Buffered.error_eq_none_iff (h : Buffered n up out) :
    out.error = none ↔ up.error = none ∧ ∀ r ∈ up.items, ∃ a, r = .ok a := by
  refine ⟨fun hok => ?_, fun ⟨hup, hall⟩ => h.error_eq_none_of_ok hup hall⟩
  rw [h.eq_of_error_eq_none hok]
  simp

/-- When every future succeeds and the upstream ends without an error, the
results in order are the only run. -/
theorem Buffered.eq_of_ok {l : List α} (h : Buffered (ε := ε) n ⟨l.map .ok, none⟩ out) :
    out = ⟨l, none⟩ := by
  obtain ⟨items, error⟩ := out
  have hok : error = none := h.error_eq_none_of_ok rfl (by simp)
  have heq := congrArg StreamRun.items (h.eq_of_error_eq_none hok)
  simp only at heq
  rw [(List.map_injective_iff.2 fun _ _ h => Except.ok.inj h) heq, hok]

/-- When every future succeeds and the upstream ends without an error, a
stream with a window has one run: every result, in order. -/
theorem Buffered.ok_iff (hn : 0 < n) {l : List α} :
    Buffered (ε := ε) n ⟨l.map .ok, none⟩ out ↔ out = ⟨l, none⟩ :=
  ⟨Buffered.eq_of_ok, fun h => h ▸ Buffered.of_ok hn l⟩

/-- A run that ends with an error ends with the error of a future of the
window it stopped at, or with the upstream's, when every future left was in
that window. -/
theorem Buffered.error_window (h : Buffered n up out) {e : ε} (he : out.error = some e) :
    (∃ i, out.items.length ≤ i ∧ i < out.items.length + n ∧ up.items[i]? = some (.error e)) ∨
      (up.error = some e ∧ up.items.length < out.items.length + n) := by
  induction h with
  | done => cases he
  | yield a futures error out _ _ ih =>
    rcases ih he with ⟨i, hi, hin, hget⟩ | ⟨hup, hlen⟩
    · exact .inl ⟨i + 1, by simpa using hi, by simp; omega, by simpa using hget⟩
    · exact .inr ⟨hup, by simp at hlen ⊢; omega⟩
  | fail futures error i e' hi hget =>
    cases he
    exact .inl ⟨i, Nat.zero_le _, by simpa using hi, hget⟩
  | failUpstream futures e' hlen =>
    cases he
    exact .inr ⟨rfl, by simpa using hlen⟩

/-- A run that ends with an error ends with the error of one of its futures
or with the upstream's. -/
theorem Buffered.error_mem (h : Buffered n up out) {e : ε} (he : out.error = some e) :
    .error e ∈ up.items ∨ up.error = some e :=
  (h.error_window he).imp (fun ⟨_, _, _, hget⟩ => List.getElem?_mem hget) And.left

/-- Read through `g`, what a buffered stream yields is a prefix of its
futures read through `h`, when `g` of each result is `h` of its future. -/
theorem Buffered.map_isPrefixOf {f : α → Except ε β} {g : β → γ} {h : α → γ}
    (hf : ∀ a b, f a = .ok b → g b = h a) {l : List α} {error : Option ε} {out : StreamRun ε β}
    (hb : Buffered n ⟨l.map f, error⟩ out) : out.items.map g <+: l.map h := by
  generalize hup : (⟨l.map f, error⟩ : StreamRun ε (Except ε β)) = up at hb
  induction hb generalizing l with
  | yield b futures error' out _ _ ih =>
    cases l with
    | nil => cases hup
    | cons x l =>
      simp only [List.map_cons, StreamRun.mk.injEq, List.cons.injEq] at hup
      obtain ⟨⟨hx, rfl⟩, rfl⟩ := hup
      simpa [hf x b hx] using ih rfl
  | done | fail | failUpstream => simp

/-- Each item of a buffered stream is the result of one of its futures. -/
theorem Buffered.mem_items {f : α → Except ε β} {l : List α} {error : Option ε}
    {out : StreamRun ε β} (hb : Buffered n ⟨l.map f, error⟩ out) {b : β} (hmem : b ∈ out.items) :
    ∃ a ∈ l, f a = .ok b := by
  obtain ⟨r, hr, hrb⟩ :=
    List.mem_map.1 (hb.isPrefixOf.subset (List.mem_map_of_mem (Except.ok (ε := ε)) hmem))
  exact ⟨r, hr, hrb⟩

/-! ## `select_all` -/

/-- `stream::select_all`, as its consumer sees it: every order in which the
streams' items can come. Each poll takes the next item of one stream; a
stream that ends is dropped; the first error any stream yields ends the
merged stream. -/
inductive SelectAll : List (StreamRun ε α) → StreamRun ε α → Prop where
  | nil : SelectAll [] ⟨[], none⟩
  | yield (pre post : List (StreamRun ε α)) (a : α) (s out : StreamRun ε α) :
      SelectAll (pre ++ s :: post) out →
      SelectAll (pre ++ ⟨a :: s.items, s.error⟩ :: post) ⟨a :: out.items, out.error⟩
  | finish (pre post : List (StreamRun ε α)) (out : StreamRun ε α) :
      SelectAll (pre ++ post) out → SelectAll (pre ++ ⟨[], none⟩ :: post) out
  | fail (pre post : List (StreamRun ε α)) (e : ε) :
      SelectAll (pre ++ ⟨[], some e⟩ :: post) ⟨[], some e⟩

variable {ss : List (StreamRun ε α)} {out : StreamRun ε α}

/-- The merged stream ends without an error exactly when every stream does. -/
theorem SelectAll.error_eq_none_iff (h : SelectAll ss out) :
    out.error = none ↔ ∀ s ∈ ss, s.error = none := by
  induction h with
  | nil => simp
  | yield pre post a s out _ ih => simpa only [List.forall_mem_append, List.forall_mem_cons] using ih
  | finish pre post out _ ih =>
    simpa only [List.forall_mem_append, List.forall_mem_cons, true_and] using ih
  | fail pre post e =>
    simp only [List.forall_mem_append, List.forall_mem_cons]
    simp

/-- The merged stream yields items of the streams, each at most as often as
the streams do. -/
theorem SelectAll.subperm (h : SelectAll ss out) :
    List.Subperm out.items (ss.flatMap StreamRun.items) := by
  induction h with
  | nil => exact List.nil_subperm
  | yield pre post a s out _ ih =>
    simp only [List.flatMap_append, List.flatMap_cons] at ih ⊢
    exact ((List.subperm_cons a).2 ih).trans List.perm_middle.symm.subperm
  | finish pre post out _ ih => simpa using ih
  | fail pre post e => exact List.nil_subperm

/-- A merged stream that ends without an error yields every item of every
stream, each once per time a stream yields it. -/
theorem SelectAll.perm (h : SelectAll ss out) (hok : out.error = none) :
    List.Perm out.items (ss.flatMap StreamRun.items) := by
  induction h with
  | nil => exact List.Perm.nil
  | yield pre post a s out _ ih =>
    simp only [List.flatMap_append, List.flatMap_cons] at ih ⊢
    exact ((ih hok).cons a).trans List.perm_middle.symm
  | finish pre post out _ ih => simpa using ih hok
  | fail pre post e => cases hok

theorem StreamRun.chain_cons (a : α) (s t : StreamRun ε α) :
    StreamRun.chain ⟨a :: s.items, s.error⟩ t =
      ⟨a :: (s.chain t).items, (s.chain t).error⟩ := by
  unfold StreamRun.chain
  split <;> simp_all

/-- Polling the streams one after the other is one of the orders: the
streams merge at least one way, whatever they yield. -/
theorem selectAll_chain : ∀ ss : List (StreamRun ε α), SelectAll ss (ss.foldr StreamRun.chain ⟨[], none⟩)
  | [] => .nil
  | s :: rest => by
    obtain ⟨items, error⟩ := s
    induction items with
    | nil =>
      cases error with
      | none => exact .finish [] rest _ (selectAll_chain rest)
      | some e => exact .fail [] rest e
    | cons a items ih =>
      rw [List.foldr_cons, StreamRun.chain_cons a ⟨items, error⟩]
      exact .yield [] rest a ⟨items, error⟩ _ ih

end Streams

end Mononoke
