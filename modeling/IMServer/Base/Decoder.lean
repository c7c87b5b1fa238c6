import Mathlib.Data.List.Basic

/-!
# Incremental decoders and cuts of their input

Library: a decoder looks at the head of the input it has buffered and either waits,
takes one item off the front, or rejects the head for good. The law that carries
everything is that a decision, once taken, is not changed by input that arrives later.
From it follows that the signals a decoder gives do not depend on how its input is cut.
-/

namespace IMServer.Base

universe u v w

/-- What a decoder makes of the head of its buffered input. -/
inductive Progress (α : Type v) (ε : Type w) where
  /-- The head is not complete. -/
  | wait
  /-- The first `n` symbols are one item. -/
  | item (a : α) (n : Nat)
  /-- The head can never become an item. -/
  | fail (e : ε)

/-- What a decoder reports to its client. -/
inductive Signal (α : Type v) (ε : Type w) where
  | item (a : α)
  | error (e : ε)
  deriving DecidableEq, Repr

/-- A head function whose decisions are final. -/
structure Decoder (σ : Type u) (α : Type v) (ε : Type w) where
  head : List σ → Progress α ε
  item_bounds : ∀ {xs a n}, head xs = .item a n → 0 < n ∧ n ≤ xs.length
  item_append : ∀ {xs a n} (ys : List σ), head xs = .item a n → head (xs ++ ys) = .item a n
  fail_append : ∀ {xs e} (ys : List σ), head xs = .fail e → head (xs ++ ys) = .fail e

/-- The items among a list of signals, in order. -/
def items {α : Type v} {ε : Type w} : List (Signal α ε) → List α
  | [] => []
  | .item a :: rest => a :: items rest
  | .error _ :: rest => items rest

/-- The first error among a list of signals. -/
def firstError {α : Type v} {ε : Type w} : List (Signal α ε) → Option ε
  | [] => none
  | .item _ :: rest => firstError rest
  | .error e :: _ => some e

section Signals

variable {α : Type v} {ε : Type w}

/-- Items of two parts. -/
@[simp] theorem items_append (xs ys : List (Signal α ε)) :
    items (xs ++ ys) = items xs ++ items ys := by
  induction xs with
  | nil => rfl
  | cons x xs ih => cases x <;> simp [items, ih]

/-- The first error of two parts. -/
@[simp] theorem firstError_append (xs ys : List (Signal α ε)) :
    firstError (xs ++ ys) = (firstError xs).or (firstError ys) := by
  induction xs with
  | nil => rfl
  | cons x xs ih => cases x <;> simp [firstError, ih]

/-- Items alone hold no error. -/
theorem firstError_map_item (as : List α) :
    firstError (as.map (Signal.item : α → Signal α ε)) = none := by
  induction as with
  | nil => rfl
  | cons a as ih => exact ih

/-- A list of items only. -/
theorem items_map_item (as : List α) : items (as.map (Signal.item : α → Signal α ε)) = as := by
  induction as with
  | nil => rfl
  | cons a as ih => exact congrArg (a :: ·) ih

/-- Signals without an error are items. -/
theorem eq_map_items {xs : List (Signal α ε)} (h : firstError xs = none) :
    xs = (items xs).map .item := by
  induction xs with
  | nil => rfl
  | cons x xs ih =>
    cases x with
    | item a => exact congrArg (.item a :: ·) (ih h)
    | error e => cases h

end Signals

namespace Decoder

variable {σ : Type u} {α : Type v} {ε : Type w} (d : Decoder σ α ε)

/-- Take items off the front until the head waits or is rejected: the signals given and
the input left over. -/
def drain (xs : List σ) : List (Signal α ε) × List σ :=
  match _h : d.head xs with
  | .wait => ([], xs)
  | .fail e => ([.error e], xs)
  | .item a n =>
    let rest := drain (xs.drop n)
    (.item a :: rest.1, rest.2)
termination_by xs.length
decreasing_by
  have hb := d.item_bounds _h
  rw [List.length_drop]
  omega

/-- Drain after every chunk, keeping the input left over for the next one. -/
def feed : List σ → List (List σ) → List (Signal α ε) × List σ
  | pending, [] => ([], pending)
  | pending, chunk :: chunks =>
    let now := d.drain (pending ++ chunk)
    let later := feed now.2 chunks
    (now.1 ++ later.1, later.2)

/-- Input that is no whole item stays. -/
theorem drain_wait {xs : List σ} (h : d.head xs = .wait) : d.drain xs = ([], xs) := by
  rw [drain]
  split <;> simp_all

/-- An error ends the draining. -/
theorem drain_fail {xs : List σ} {e : ε} (h : d.head xs = .fail e) :
    d.drain xs = ([.error e], xs) := by
  rw [drain]
  split <;> simp_all

/-- An item is taken and the rest is drained. -/
theorem drain_item {xs : List σ} {a : α} {n : Nat} (h : d.head xs = .item a n) :
    d.drain xs = (.item a :: (d.drain (xs.drop n)).1, (d.drain (xs.drop n)).2) := by
  rw [drain]
  split <;> simp_all

/-- Induction along the items a drain takes off the front. -/
theorem drain_induction {motive : List σ → Prop}
    (wait : ∀ xs, d.head xs = .wait → motive xs)
    (fail : ∀ xs e, d.head xs = .fail e → motive xs)
    (item : ∀ xs a n, d.head xs = .item a n → motive (xs.drop n) → motive xs)
    (xs : List σ) : motive xs := by
  induction hn : xs.length using Nat.strongRecOn generalizing xs with
  | ind n ih =>
    cases h : d.head xs with
    | wait => exact wait xs h
    | fail e => exact fail xs e h
    | item a k =>
      have hb := d.item_bounds h
      refine item xs a k h (ih (xs.drop k).length ?_ _ rfl)
      rw [List.length_drop]
      omega

/-- A drain stops at a head that waits, or at a rejected one that it has just reported. -/
theorem head_drain (xs : List σ) :
    (firstError (d.drain xs).1 = none ∧ d.head (d.drain xs).2 = .wait) ∨
      ∃ e, firstError (d.drain xs).1 = some e ∧ d.head (d.drain xs).2 = .fail e := by
  induction xs using d.drain_induction with
  | wait xs h =>
    rw [d.drain_wait h]
    exact .inl ⟨rfl, h⟩
  | fail xs e h =>
    rw [d.drain_fail h]
    exact .inr ⟨e, rfl, h⟩
  | item xs a n h ih =>
    rw [d.drain_item h]
    exact ih

/-- Later input continues where a drain without an error stopped. -/
theorem drain_append (xs ys : List σ) (h : firstError (d.drain xs).1 = none) :
    d.drain (xs ++ ys) =
      ((d.drain xs).1 ++ (d.drain ((d.drain xs).2 ++ ys)).1,
        (d.drain ((d.drain xs).2 ++ ys)).2) := by
  induction xs using d.drain_induction with
  | wait xs hw => simp [d.drain_wait hw]
  | fail xs e hf => simp [d.drain_fail hf, firstError] at h
  | item xs a n hi ih =>
    have hn := (d.item_bounds hi).2
    rw [d.drain_item hi] at h
    rw [d.drain_item (d.item_append ys hi), d.drain_item hi,
      List.drop_append_of_le_length hn, ih h]
    rfl

/-- Input that arrives after a rejected head changes no signal: it only piles up. -/
theorem drain_append_of_error (xs ys : List σ) {e : ε}
    (h : firstError (d.drain xs).1 = some e) :
    d.drain (xs ++ ys) = ((d.drain xs).1, (d.drain xs).2 ++ ys) := by
  induction xs using d.drain_induction with
  | wait xs hw => simp [d.drain_wait hw, firstError] at h
  | fail xs e hf => rw [d.drain_fail (d.fail_append ys hf), d.drain_fail hf]
  | item xs a n hi ih =>
    have hn := (d.item_bounds hi).2
    rw [d.drain_item hi] at h
    rw [d.drain_item (d.item_append ys hi), d.drain_item hi,
      List.drop_append_of_le_length hn, ih h]

/-- A beginning of an input without an error has none. -/
theorem firstError_drain_of_append {xs ys : List σ}
    (h : firstError (d.drain (xs ++ ys)).1 = none) : firstError (d.drain xs).1 = none := by
  rcases d.head_drain xs with ⟨hn, -⟩ | ⟨e, he, -⟩
  · exact hn
  · rwa [d.drain_append_of_error xs ys he] at h

/-- After a rejected head every later chunk only repeats its error, and the head stays. -/
theorem feed_of_fail (chunks : List (List σ)) {pending : List σ} {e : ε}
    (h : d.head pending = .fail e) :
    items (d.feed pending chunks).1 = [] ∧ d.head (d.feed pending chunks).2 = .fail e := by
  induction chunks generalizing pending with
  | nil => exact ⟨rfl, h⟩
  | cons chunk chunks ih =>
    have hf := d.fail_append chunk h
    obtain ⟨hi, hh⟩ := ih hf
    simp only [feed, d.drain_fail hf, items_append, hi, hh]
    exact ⟨rfl, trivial⟩

/-- The items and the first error of a feed are those of draining the whole input at once. -/
theorem feed_signals (chunks : List (List σ)) {pending : List σ} (h : d.head pending = .wait) :
    items (d.feed pending chunks).1 = items (d.drain (pending ++ chunks.flatten)).1 ∧
      firstError (d.feed pending chunks).1 =
        firstError (d.drain (pending ++ chunks.flatten)).1 := by
  induction chunks generalizing pending with
  | nil => simp [feed, d.drain_wait h]
  | cons chunk chunks ih =>
    have hs : pending ++ (chunk :: chunks).flatten = (pending ++ chunk) ++ chunks.flatten := by
      simp
    rw [hs]
    rcases d.head_drain (pending ++ chunk) with ⟨hn, hw⟩ | ⟨e, he, hf⟩
    · obtain ⟨hi, hfe⟩ := ih hw
      rw [d.drain_append _ _ hn]
      simp only [feed, items_append, firstError_append, hi, hfe, and_self]
    · rw [d.drain_append_of_error _ _ he]
      simp only [feed, items_append, firstError_append, he, Option.some_or,
        (d.feed_of_fail chunks hf).1, List.append_nil, and_self]

/-- A feed without an error leaves what draining the whole input at once leaves. -/
theorem feed_rest (chunks : List (List σ)) {pending : List σ} (h : d.head pending = .wait)
    (hn : firstError (d.drain (pending ++ chunks.flatten)).1 = none) :
    d.feed pending chunks = d.drain (pending ++ chunks.flatten) := by
  induction chunks generalizing pending with
  | nil => simp [feed, d.drain_wait h]
  | cons chunk chunks ih =>
    have hs : pending ++ (chunk :: chunks).flatten = (pending ++ chunk) ++ chunks.flatten := by
      simp
    rw [hs] at hn ⊢
    rcases d.head_drain (pending ++ chunk) with ⟨hd, hw⟩ | ⟨e, he, hf⟩
    · rw [d.drain_append _ _ hd] at hn ⊢
      rw [firstError_append, hd, Option.none_or] at hn
      simp only [feed, ih hw hn]
    · rw [d.drain_append_of_error _ _ he, he] at hn
      cases hn

/-- A feed that ended with an error stands before the rejected head. -/
theorem head_feed (chunks : List (List σ)) {pending : List σ} (h : d.head pending = .wait) :
    (firstError (d.feed pending chunks).1 = none ∧ d.head (d.feed pending chunks).2 = .wait) ∨
      ∃ e, firstError (d.feed pending chunks).1 = some e ∧
        d.head (d.feed pending chunks).2 = .fail e := by
  induction chunks generalizing pending with
  | nil => exact .inl ⟨rfl, h⟩
  | cons chunk chunks ih =>
    rcases d.head_drain (pending ++ chunk) with ⟨hn, hw⟩ | ⟨e, he, hf⟩
    · simpa only [feed, firstError_append, hn, Option.none_or] using ih hw
    · refine .inr ⟨e, ?_, (d.feed_of_fail chunks hf).2⟩
      simp only [feed, firstError_append, he, Option.some_or]

end Decoder
end IMServer.Base
