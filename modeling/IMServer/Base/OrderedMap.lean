import Mathlib.Data.List.Lex
import Mathlib.Order.Lattice

/-!
# Ordered maps

Library: a finite map kept as the list of its entries in the order of their keys, with the insertion
and the assignment that ordered containers offer. Keys that are byte strings are ordered as their
bytes are as numbers.
-/

namespace IMServer.Base

universe u v

/-- A finite map as the list of its entries, in the order of the keys. -/
@[ext]
structure OrderedMap (K : Type u) (V : Type v) [LinearOrder K] where
  toList : List (K × V)
  sorted : toList.Pairwise fun a b => a.1 < b.1

namespace OrderedMap

variable {K : Type u} {V : Type v} [LinearOrder K]

def empty : OrderedMap K V := ⟨[], .nil⟩

/-- Change the list at the place of a key: `old` is applied to an entry with the key, and a new
entry is made if there is none. -/
def putList (k : K) (new : V) (old : V → V) : List (K × V) → List (K × V)
  | [] => [(k, new)]
  | e :: es =>
    if k < e.1 then (k, new) :: e :: es
    else if k = e.1 then (e.1, old e.2) :: es
    else e :: putList k new old es

variable {k : K} {new : V} {old : V → V}

/-- An entry afterwards was there before, is new, or has its value changed. -/
theorem mem_putList {es : List (K × V)} {e : K × V} (h : e ∈ putList k new old es) :
    e ∈ es ∨ e = (k, new) ∨ ∃ v, (k, v) ∈ es ∧ e = (k, old v) := by
  induction es with
  | nil => exact .inr (.inl (List.mem_singleton.mp h))
  | cons e₁ es ih =>
    unfold putList at h
    split at h
    · rcases List.mem_cons.mp h with rfl | h
      · exact .inr (.inl rfl)
      · exact .inl h
    · split at h
      · next heq =>
        subst heq
        rcases List.mem_cons.mp h with rfl | h
        · exact .inr (.inr ⟨e₁.2, List.mem_cons_self, rfl⟩)
        · exact .inl (List.mem_cons_of_mem e₁ h)
      · rcases List.mem_cons.mp h with rfl | h
        · exact .inl List.mem_cons_self
        · rcases ih h with h | h | ⟨v, hv, rfl⟩
          · exact .inl (List.mem_cons_of_mem e₁ h)
          · exact .inr (.inl h)
          · exact .inr (.inr ⟨v, List.mem_cons_of_mem e₁ hv, rfl⟩)

private theorem sorted_putList {es : List (K × V)} (h : es.Pairwise fun a b => a.1 < b.1) :
    (putList k new old es).Pairwise fun a b => a.1 < b.1 := by
  induction es with
  | nil => exact List.pairwise_singleton _ _
  | cons e es ih =>
    obtain ⟨hhead, htail⟩ := List.pairwise_cons.mp h
    unfold putList
    split
    · next hlt =>
      refine List.pairwise_cons.mpr ⟨fun e' he' => ?_, h⟩
      rcases List.mem_cons.mp he' with rfl | he'
      · exact hlt
      · exact lt_trans hlt (hhead e' he')
    · next hge =>
      split
      · exact List.pairwise_cons.mpr ⟨hhead, htail⟩
      · next hne =>
        refine List.pairwise_cons.mpr ⟨fun e' he' => ?_, ih htail⟩
        have hlt : e.1 < k := lt_of_le_of_ne (not_lt.mp hge) (Ne.symm hne)
        rcases mem_putList he' with he' | rfl | ⟨v, -, rfl⟩
        · exact hhead e' he'
        · exact hlt
        · exact hlt

/-- A new entry; a map that has the key stays as it is. -/
def insert (m : OrderedMap K V) (k : K) (v : V) : OrderedMap K V :=
  ⟨putList k v id m.toList, sorted_putList m.sorted⟩

/-- Give a key a value, whether the map has it or not. -/
def set (m : OrderedMap K V) (k : K) (v : V) : OrderedMap K V :=
  ⟨putList k v (fun _ => v) m.toList, sorted_putList m.sorted⟩

/-- A key that is greater than all others comes last. -/
theorem putList_of_forall_lt {es : List (K × V)} (h : ∀ e ∈ es, e.1 < k) :
    putList k new old es = es ++ [(k, new)] := by
  induction es with
  | nil => rfl
  | cons e es ih =>
    have hlt : e.1 < k := h e List.mem_cons_self
    rw [putList, if_neg (lt_asymm hlt), if_neg (ne_of_gt hlt),
      ih fun e' he' => h e' (List.mem_cons_of_mem e he'), List.cons_append]

/-- A set adds one entry at most. -/
theorem length_putList_le (es : List (K × V)) : (putList k new old es).length ≤ es.length + 1 := by
  induction es with
  | nil => exact Nat.le_refl 1
  | cons e es ih =>
    unfold putList
    split
    · exact Nat.le_refl _
    · split
      · exact Nat.le_succ _
      · exact Nat.succ_le_succ ih

/-- A property of the entries that a new entry has, and that survives a change of value. -/
theorem forall_mem_putList {P : K × V → Prop} {es : List (K × V)} (hes : ∀ e ∈ es, P e)
    (hnew : P (k, new)) (hold : ∀ v, P (k, v) → P (k, old v)) :
    ∀ e ∈ putList k new old es, P e := by
  intro e he
  rcases mem_putList he with he | rfl | ⟨v, hv, rfl⟩
  · exact hes e he
  · exact hnew
  · exact hold v (hes (k, v) hv)

/-- The value of a key in a list. -/
def findList (k : K) (es : List (K × V)) : Option V := (es.find? fun e => e.1 = k).map Prod.snd

/-- The value of a key. -/
def find (m : OrderedMap K V) (k : K) : Option V := findList k m.toList

private theorem findList_cons_self (k : K) (v : V) (es : List (K × V)) :
    findList k ((k, v) :: es) = some v := by
  simp [findList]

private theorem findList_cons_of_ne {e : K × V} (h : e.1 ≠ k) (es : List (K × V)) :
    findList k (e :: es) = findList k es := by
  simp [findList, h]

private theorem findList_of_forall_lt {es : List (K × V)} (h : ∀ e ∈ es, k < e.1) :
    findList k es = none := by
  rw [findList, List.find?_eq_none.mpr, Option.map_none]
  intro e he
  simpa using ne_of_gt (h e he)

/-- A key is found with its changed or new value, every other key as before. -/
theorem findList_putList {es : List (K × V)} (h : es.Pairwise fun a b => a.1 < b.1) (k' : K) :
    findList k' (putList k new old es) =
      if k' = k then some (((findList k es).map old).getD new) else findList k' es := by
  induction es with
  | nil =>
    unfold putList
    split
    · next hk => rw [hk, findList_cons_self]; rfl
    · next hk => exact findList_cons_of_ne (Ne.symm hk) []
  | cons e es ih =>
    obtain ⟨hhead, htail⟩ := List.pairwise_cons.mp h
    unfold putList
    by_cases hlt : k < e.1
    · have habsent : findList k (e :: es) = none := by
        refine findList_of_forall_lt fun e' he' => ?_
        rcases List.mem_cons.mp he' with rfl | he'
        · exact hlt
        · exact lt_trans hlt (hhead e' he')
      rw [if_pos hlt]
      split
      · next hk => rw [hk, findList_cons_self, habsent]; rfl
      · next hk => exact findList_cons_of_ne (Ne.symm hk) _
    · rw [if_neg hlt]
      by_cases heq : k = e.1
      · obtain ⟨k₁, v₁⟩ := e
        subst heq
        rw [if_pos rfl]
        split
        · next hk =>
          rw [hk, findList_cons_self, findList_cons_self]
          rfl
        · next hk =>
          rw [findList_cons_of_ne (e := (k, old v₁)) (Ne.symm hk),
            findList_cons_of_ne (e := (k, v₁)) (Ne.symm hk)]
      · rw [if_neg heq, findList_cons_of_ne (k := k) (Ne.symm heq)]
        by_cases hk' : e.1 = k'
        · obtain ⟨k₁, v₁⟩ := e
          subst hk'
          rw [findList_cons_self, findList_cons_self, if_neg (Ne.symm heq)]
        · rw [findList_cons_of_ne hk', findList_cons_of_ne hk', ih htail]

/-- Assignment changes the value of its own key only. -/
theorem find_set (m : OrderedMap K V) (k : K) (v : V) (k' : K) :
    (m.set k v).find k' = if k' = k then some v else m.find k' := by
  rw [find, set, findList_putList m.sorted]
  cases findList k m.toList <;> rfl

/-- Insertion keeps the value that its key has. -/
theorem find_insert (m : OrderedMap K V) (k : K) (v : V) (k' : K) :
    (m.insert k v).find k' = if k' = k then some ((m.find k).getD v) else m.find k' := by
  rw [find, insert, findList_putList m.sorted, Option.map_id]
  rfl

end OrderedMap

/-! ### Byte strings as keys -/

/-- A byte string; the order is not the one of lists. -/
@[ext]
structure ByteString where
  bytes : List UInt8

namespace ByteString

/-- The bytes as numbers. -/
def toNats (s : ByteString) : List Nat := s.bytes.map UInt8.toNat

private theorem toNats_injective : Function.Injective toNats := by
  intro s t h
  ext1
  exact List.map_injective_iff.mpr (fun _ _ => UInt8.toNat_inj.mp) h

instance : LinearOrder ByteString := LinearOrder.lift' toNats toNats_injective

/-- What is found after a set. -/
theorem find_set {V : Type v} (m : OrderedMap ByteString V) (k : List UInt8) (v : V)
    (k' : List UInt8) : (m.set ⟨k⟩ v).find ⟨k'⟩ = if k' = k then some v else m.find ⟨k'⟩ := by
  simp only [OrderedMap.find_set, mk.injEq]

end ByteString

end IMServer.Base
