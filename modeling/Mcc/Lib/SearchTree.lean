import Mathlib

/-!
# `Lib.SearchTree` — search trees without balancing

A tree of keys with data. `find` follows the order of the keys. `insert` follows a comparison of its own, which may take
a stored key for the new one although it is not: it is `Coarse` if those keys are the ones from the new one up to some
bound. Such a key loses its place to the new one (`replaced`), and what the order leads past it with it.

## Contents
- **Operations.** `find`, `insert`, `modify`, `delete`, `entries`.
- **Lookups after an insertion.** `find_insert`: which are lost, exactly, in a tree whose right subtrees lie above their
  roots, as every insertion leaves it (`RightOrdered.insert`). `find_insert_iff_lookup`: when none is.
- **Ordered trees.** There a lookup is one in the list of the entries (`Ordered.find_eq_some_iff`), and the operations
  are those of the list: `entries_insert`, `entries_delete`.
- **Rebuilding.** The entries of an ordered tree, inserted one after the other (`find_insertAll_leaf`).
-/

/-- A tree of keys with data. -/
inductive SearchTree (α β : Type) where
  | leaf
  | node (left : SearchTree α β) (key : α) (data : β) (right : SearchTree α β)

namespace SearchTree

variable {α β : Type}

/-! ## Operations -/

/-- The keys and their data, in order. -/
def entries : SearchTree α β → List (α × β)
  | leaf => []
  | node left key data right => entries left ++ (key, data) :: entries right

@[simp] theorem entries_leaf : entries (leaf : SearchTree α β) = [] := rfl

@[simp] theorem entries_node (left right : SearchTree α β) (key : α) (data : β) :
    entries (node left key data right) = entries left ++ (key, data) :: entries right := rfl

def size : SearchTree α β → ℕ
  | leaf => 0
  | node left _ _ right => size left + size right + 1

theorem size_eq_length (t : SearchTree α β) : size t = (entries t).length := by
  induction t with
  | leaf => rfl
  | node left key data right ihleft ihright =>
    simp only [size, entries_node, List.length_append, List.length_cons, ihleft, ihright]
    omega

/-- The last entry, and the tree without it. -/
def splitMax : SearchTree α β → Option ((α × β) × SearchTree α β)
  | leaf => none
  | node left key data right =>
    match splitMax right with
    | none => some ((key, data), left)
    | some (last, right) => some (last, node left key data right)

/-- The first entry, and the tree without it. -/
def splitMin : SearchTree α β → Option ((α × β) × SearchTree α β)
  | leaf => none
  | node left key data right =>
    match splitMin left with
    | none => some ((key, data), right)
    | some (first, left) => some (first, node left key data right)

/-- What takes the place of a root. -/
def join (left right : SearchTree α β) : SearchTree α β :=
  match splitMax left with
  | some ((key, data), left) => node left key data right
  | none =>
    match splitMin right with
    | some ((key, data), right) => node left key data right
    | none => leaf

/-- `key` is set to `data`; `compare` says on which side of a node. -/
def insert (compare : α → α → Ordering) (key : α) (data : β) : SearchTree α β → SearchTree α β
  | leaf => node leaf key data leaf
  | node left key' data' right =>
    match compare key key' with
    | .lt => node (insert compare key data left) key' data' right
    | .eq => node left key data right
    | .gt => node left key' data' (insert compare key data right)

/-- The key that the new one takes the place of. -/
def replaced (compare : α → α → Ordering) (key : α) : SearchTree α β → Option α
  | leaf => none
  | node left key' _ right =>
    match compare key key' with
    | .lt => replaced compare key left
    | .eq => some key'
    | .gt => replaced compare key right

variable [LinearOrder α]

def find (key : α) : SearchTree α β → Option β
  | leaf => none
  | node left key' data right =>
    match cmp key key' with
    | .lt => find key left
    | .eq => some data
    | .gt => find key right

/-- The data of `key`, if it is there, are changed. -/
def modify (key : α) (f : β → β) : SearchTree α β → SearchTree α β
  | leaf => leaf
  | node left key' data right =>
    match cmp key key' with
    | .lt => node (modify key f left) key' data right
    | .eq => node left key' (f data) right
    | .gt => node left key' data (modify key f right)

def delete (key : α) : SearchTree α β → SearchTree α β
  | leaf => leaf
  | node left key' data right =>
    match cmp key key' with
    | .lt => node (delete key left) key' data right
    | .eq => join left right
    | .gt => node left key' data (delete key right)

section find

variable {key key' : α} {data : β} {left right : SearchTree α β}

theorem find_node_lt (h : key < key') : find key (node left key' data right) = find key left := by
  rw [find, h.cmp_eq_lt]

theorem find_node_self : find key (node left key data right) = some data := by
  rw [find, cmp_self_eq_eq]

theorem find_node_gt (h : key' < key) : find key (node left key' data right) = find key right := by
  rw [find, h.cmp_eq_gt]

/-- Where the order leads, `find` finds nothing else. -/
theorem mem_entries_of_find {t : SearchTree α β} (h : find key t = some data) : (key, data) ∈ entries t := by
  induction t with
  | leaf => cases h
  | node left key' data' right ihleft ihright =>
    rw [entries_node, List.mem_append, List.mem_cons]
    rcases lt_trichotomy key key' with hlt | rfl | hgt
    · exact Or.inl (ihleft (by rwa [find_node_lt hlt] at h))
    · rw [find_node_self, Option.some.injEq] at h
      exact Or.inr (Or.inl (by rw [h]))
    · exact Or.inr (Or.inr (ihright (by rwa [find_node_gt hgt] at h)))

/-- **Changing data** leaves the other keys alone, in any tree. -/
theorem find_modify {f : β → β} {t : SearchTree α β} :
    find key (modify key' f t) = if key = key' then (find key t).map f else find key t := by
  induction t with
  | leaf => simp [modify, find]
  | node left root data right ihleft ihright =>
    rcases lt_trichotomy key' root with hlt | rfl | hgt
    · rw [modify, hlt.cmp_eq_lt]
      rcases lt_trichotomy key root with hlt' | rfl | hgt'
      · simp only [find_node_lt hlt', ihleft]
      · simp only [find_node_self, if_neg hlt.ne']
      · simp only [find_node_gt hgt', if_neg (hlt.trans hgt').ne']
    · rw [modify, cmp_self_eq_eq]
      rcases lt_trichotomy key key' with hlt' | rfl | hgt'
      · simp only [find_node_lt hlt', if_neg hlt'.ne]
      · simp only [find_node_self, if_pos, Option.map_some]
      · simp only [find_node_gt hgt', if_neg hgt'.ne']
    · rw [modify, hgt.cmp_eq_gt]
      rcases lt_trichotomy key root with hlt' | rfl | hgt'
      · simp only [find_node_lt hlt', if_neg (hlt'.trans hgt).ne]
      · simp only [find_node_self, if_neg hgt.ne]
      · simp only [find_node_gt hgt', ihright]

/-- The keys stay. -/
theorem keys_modify {f : β → β} {t : SearchTree α β} :
    (entries (modify key f t)).map Prod.fst = (entries t).map Prod.fst := by
  induction t with
  | leaf => rfl
  | node left root data right ihleft ihright =>
    rw [modify]
    split <;> simp [ihleft, ihright]

end find

/-! ## Lookups after an insertion -/

/-- The keys taken for `k` are those from `k` up to some bound; apart from them the comparison is the order. -/
structure Coarse (compare : α → α → Ordering) : Prop where
  self : ∀ k, compare k k = .eq
  lt : ∀ k p, compare k p = .lt → k < p
  gt : ∀ k p, compare k p = .gt → p < k
  le : ∀ k p, compare k p = .eq → k ≤ p
  between : ∀ k q p, compare k p = .eq → k ≤ q → q ≤ p → compare k q = .eq
  trans : ∀ k q p, compare k q = .eq → compare q p = .eq → compare k p = .eq

/-- A key that is taken for `k` is on the same side of a node as `k`. -/
theorem Coarse.lt_of_eq {compare : α → α → Ordering} (hc : Coarse compare) {k q p : α} (hq : compare k q = .eq)
    (hp : compare k p = .lt) : q < p := by
  by_contra hnot
  have := hc.between k p q hq (hc.lt k p hp).le (not_lt.mp hnot)
  rw [this] at hp
  cases hp

theorem Coarse.gt_of_eq {compare : α → α → Ordering} (hc : Coarse compare) {k q p : α} (hq : compare k q = .eq)
    (hp : compare k p = .gt) : p < q :=
  (hc.gt k p hp).trans_le (hc.le k q hq)

/-- What is right of a node is above it. -/
def RightOrdered : SearchTree α β → Prop
  | leaf => True
  | node left key _ right => RightOrdered left ∧ RightOrdered right ∧ ∀ e ∈ entries right, key < e.1

variable {compare : α → α → Ordering} {key q : α} {data : β} {t : SearchTree α β}

omit [LinearOrder α] in
/-- An insertion brings in one entry at most. -/
theorem mem_entries_insert {e : α × β} (h : e ∈ entries (insert compare key data t)) :
    e = (key, data) ∨ e ∈ entries t := by
  induction t with
  | leaf => exact Or.inl (by simpa [insert] using h)
  | node left root data' right ihleft ihright =>
    rw [insert] at h
    split at h <;> simp only [entries_node, List.mem_append, List.mem_cons] at h ⊢
    · rcases h with h | h
      · exact (ihleft h).imp_right Or.inl
      · exact Or.inr (Or.inr h)
    · rcases h with h | h | h
      · exact Or.inr (Or.inl h)
      · exact Or.inl h
      · exact Or.inr (Or.inr (Or.inr h))
    · rcases h with h | h | h
      · exact Or.inr (Or.inl h)
      · exact Or.inr (Or.inr (Or.inl h))
      · exact (ihright h).imp_right fun h => Or.inr (Or.inr h)

/-- **Insertions keep it**, also where a key has been replaced by a smaller one. -/
theorem RightOrdered.insert (hc : Coarse compare) (ht : RightOrdered t) :
    RightOrdered (insert compare key data t) := by
  induction t with
  | leaf => simp [SearchTree.insert, RightOrdered]
  | node left root data' right ihleft ihright =>
    obtain ⟨hleft, hright, habove⟩ := ht
    rw [SearchTree.insert]
    split
    · exact ⟨ihleft hleft, hright, habove⟩
    · next h => exact ⟨hleft, hright, fun e he => (hc.le key root h).trans_lt (habove e he)⟩
    · next h =>
      refine ⟨hleft, ihright hright, fun e he => ?_⟩
      rcases mem_entries_insert he with rfl | he
      · exact hc.gt key root h
      · exact habove e he

/-- What is left of a node would not be replaced by it. -/
def LeftApart (compare : α → α → Ordering) : SearchTree α β → Prop
  | leaf => True
  | node left key _ right =>
    LeftApart compare left ∧ LeftApart compare right ∧ ∀ e ∈ entries left, compare e.1 key ≠ .eq

theorem LeftApart.insert (hc : Coarse compare) (ht : LeftApart compare t) :
    LeftApart compare (insert compare key data t) := by
  induction t with
  | leaf => simp [SearchTree.insert, LeftApart]
  | node left root data' right ihleft ihright =>
    obtain ⟨hleft, hright, hapart⟩ := ht
    rw [SearchTree.insert]
    split
    · next h =>
      refine ⟨ihleft hleft, hright, fun e he heq => ?_⟩
      rcases mem_entries_insert he with rfl | he
      · rw [h] at heq
        cases heq
      · exact hapart e he heq
    · next h => exact ⟨hleft, hright, fun e he heq => hapart e he (hc.trans e.1 key root heq h)⟩
    · exact ⟨hleft, ihright hright, hapart⟩

omit [LinearOrder α] in
/-- A node more, unless one is replaced. -/
theorem size_insert : size (SearchTree.insert compare key data t) =
    size t + if (replaced compare key t).isSome then 0 else 1 := by
  induction t with
  | leaf => simp [SearchTree.insert, replaced, size]
  | node left root data' right ihleft ihright =>
    rw [SearchTree.insert, replaced]
    split
    · rw [size, ihleft, size]
      omega
    · simp [size]
    · rw [size, ihright, size]
      omega

/-- **The new key is found.** -/
theorem find_insert_self (hc : Coarse compare) : find key (insert compare key data t) = some data := by
  induction t with
  | leaf => exact find_node_self
  | node left root data' right ihleft ihright =>
    rw [insert]
    split
    · next h => rw [find_node_lt (hc.lt key root h), ihleft]
    · exact find_node_self
    · next h => rw [find_node_gt (hc.gt key root h), ihright]

/-- What is taken for the new key, up to the one that is replaced, is lost. -/
def Lost (compare : α → α → Ordering) (key : α) (t : SearchTree α β) (q : α) : Prop :=
  compare key q = .eq ∧ ∃ p ∈ replaced compare key t, q ≤ p

/-- **A lookup after an insertion**: the new data, nothing, or what it was. -/
theorem find_insert (hc : Coarse compare) (ht : RightOrdered t) (hne : q ≠ key) (data : β) :
    (Lost compare key t q → find q (insert compare key data t) = none) ∧
      (¬ Lost compare key t q → find q (insert compare key data t) = find q t) := by
  induction t with
  | leaf =>
    have hleaf : find q (insert compare key data leaf) = none := by
      rcases lt_or_gt_of_ne hne with hlt | hgt
      · exact find_node_lt hlt
      · exact find_node_gt hgt
    exact ⟨fun _ => hleaf, fun _ => hleaf⟩
  | node left root data' right ihleft ihright =>
    obtain ⟨hleft, hright, habove⟩ := ht
    unfold Lost
    rw [insert, replaced]
    split
    · next h =>
      -- the new key goes to the left; so does what is taken for it
      rcases lt_trichotomy q root with hlt | rfl | hgt
      · rw [find_node_lt hlt, find_node_lt hlt]
        exact ihleft hleft
      · refine ⟨fun hlost => absurd (hc.lt_of_eq hlost.1 h) (lt_irrefl q), fun _ => ?_⟩
        rw [find_node_self, find_node_self]
      · refine ⟨fun hlost => absurd (hc.lt_of_eq hlost.1 h) hgt.not_gt, fun _ => ?_⟩
        rw [find_node_gt hgt, find_node_gt hgt]
    · next h =>
      -- the node is taken for the new key, and loses its place
      have hle := hc.le key root h
      constructor
      · rintro ⟨hq, p, hp, hqp⟩
        obtain rfl : root = p := by simpa using hp
        rw [find_node_gt (lt_of_le_of_ne (hc.le key q hq) hne.symm)]
        by_contra hfound
        obtain ⟨d, hd⟩ := Option.ne_none_iff_exists'.mp hfound
        exact (habove _ (mem_entries_of_find hd)).not_ge hqp
      · intro hkept
        rcases lt_or_gt_of_ne hne with hlt | hgt
        · rw [find_node_lt hlt, find_node_lt (hlt.trans_le hle)]
        · have habove : root < q := by
            by_contra hnot
            exact hkept ⟨hc.between key q root h hgt.le (not_lt.mp hnot), root, rfl, not_lt.mp hnot⟩
          rw [find_node_gt hgt, find_node_gt habove]
    · next h =>
      rcases lt_trichotomy q root with hlt | rfl | hgt
      · refine ⟨fun hlost => absurd (hc.gt_of_eq hlost.1 h) hlt.not_gt, fun _ => ?_⟩
        rw [find_node_lt hlt, find_node_lt hlt]
      · refine ⟨fun hlost => absurd (hc.gt_of_eq hlost.1 h) (lt_irrefl q), fun _ => ?_⟩
        rw [find_node_self, find_node_self]
      · rw [find_node_gt hgt, find_node_gt hgt]
        exact ihright hright

/-- What is replaced was taken for the new key, and could be found. -/
theorem find_of_replaced (hc : Coarse compare) {p : α} (h : replaced compare key t = some p) :
    compare key p = .eq ∧ ∃ d, find p t = some d := by
  induction t with
  | leaf => cases h
  | node left root data' right ihleft ihright =>
    rw [replaced] at h
    split at h
    · next hroot =>
      obtain ⟨hp, hfound⟩ := ihleft h
      rw [find_node_lt (hc.lt_of_eq hp hroot)]
      exact ⟨hp, hfound⟩
    · next hroot =>
      obtain rfl : root = p := by simpa using h
      exact ⟨hroot, data', find_node_self⟩
    · next hroot =>
      obtain ⟨hp, hfound⟩ := ihright h
      rw [find_node_gt (hc.gt_of_eq hp hroot)]
      exact ⟨hp, hfound⟩

/-- **Exact condition.** An insertion sets the one key exactly when it takes no other's place, also for who sees of the
data only some `f`. -/
theorem find_insert_iff {γ : Type} (f : β → γ) (hc : Coarse compare) (ht : RightOrdered t) :
    (∀ q, (find q (insert compare key data t)).map f = if q = key then some (f data) else (find q t).map f) ↔
      ∀ p ∈ replaced compare key t, p = key := by
  constructor
  · intro hall p hp
    by_contra hne
    obtain ⟨heq, d, hfound⟩ := find_of_replaced hc hp
    have hlost := (find_insert hc ht hne data).1 ⟨heq, p, hp, le_refl p⟩
    have hp := hall p
    rw [hlost, if_neg hne, hfound] at hp
    cases hp
  · intro hsame q
    split_ifs with hq
    · rw [hq, find_insert_self hc, Option.map_some]
    · refine congrArg (Option.map f) ((find_insert hc ht hq data).2 ?_)
      rintro ⟨heq, p, hp, hle⟩
      rw [hsame p hp] at hle
      exact hq (le_antisymm hle (hc.le key q heq))

/-- A key that is there is the one replaced. -/
theorem replaced_of_find (hc : Coarse compare) (ht : LeftApart compare t) {d : β} (h : find key t = some d) :
    replaced compare key t = some key := by
  induction t with
  | leaf => cases h
  | node left root data' right ihleft ihright =>
    obtain ⟨hleft, hright, hapart⟩ := ht
    rw [replaced]
    split
    · next hroot =>
      rw [find_node_lt (hc.lt key root hroot)] at h
      exact ihleft hleft h
    · next hroot =>
      rcases eq_or_lt_of_le (hc.le key root hroot) with rfl | hlt
      · rfl
      · rw [find_node_lt hlt] at h
        exact absurd hroot (hapart _ (mem_entries_of_find h))
    · next hroot =>
      rw [find_node_gt (hc.gt key root hroot)] at h
      exact ihright hright h

/-- Nothing is replaced where nothing could be found that is taken for the new key. -/
theorem replaced_eq_none_iff (hc : Coarse compare) :
    replaced compare key t = none ↔ ∀ q, compare key q = .eq → find q t = none := by
  constructor
  · intro h q hq
    induction t with
    | leaf => rfl
    | node left root data' right ihleft ihright =>
      rw [replaced] at h
      split at h
      · next hroot => rw [find_node_lt (hc.lt_of_eq hq hroot), ihleft h]
      · cases h
      · next hroot => rw [find_node_gt (hc.gt_of_eq hq hroot), ihright h]
  · intro h
    by_contra hne
    obtain ⟨p, hp⟩ := Option.ne_none_iff_exists'.mp hne
    obtain ⟨heq, d, hfound⟩ := find_of_replaced hc hp
    rw [h p heq] at hfound
    cases hfound

/-- An insertion takes no other key's place exactly if the key is there, or nothing that is taken for it. -/
theorem replaced_same_iff (hc : Coarse compare) (hapart : LeftApart compare t) :
    (∀ p ∈ replaced compare key t, p = key) ↔ (find key t).isSome ∨ ∀ q, compare key q = .eq → find q t = none := by
  rw [← replaced_eq_none_iff hc]
  constructor
  · intro hsame
    cases h : replaced compare key t with
    | none => exact Or.inr rfl
    | some p =>
      obtain ⟨-, d, hfound⟩ := find_of_replaced hc h
      rw [hsame p h] at hfound
      exact Or.inl (by rw [hfound]; rfl)
  · rintro (hsome | hnone) p hp
    · obtain ⟨d, hd⟩ := Option.isSome_iff_exists.mp hsome
      rw [replaced_of_find hc hapart hd] at hp
      exact (Option.some.inj hp).symm
    · rw [hnone] at hp
      cases hp

/-- **Exact condition**, by lookups alone. -/
theorem find_insert_iff_lookup {γ : Type} (f : β → γ) (hc : Coarse compare) (ht : RightOrdered t)
    (hapart : LeftApart compare t) :
    (∀ q, (find q (insert compare key data t)).map f = if q = key then some (f data) else (find q t).map f) ↔
      (find key t).isSome ∨ ∀ q, compare key q = .eq → find q t = none :=
  (find_insert_iff f hc ht).trans (replaced_same_iff hc hapart)

/-- What an insertion leaves to be found is new or was there. -/
theorem find_insert_some (hc : Coarse compare) (ht : RightOrdered t) {d : β}
    (h : find q (insert compare key data t) = some d) : (q = key ∧ d = data) ∨ find q t = some d := by
  by_cases hq : q = key
  · rw [hq, find_insert_self hc, Option.some.injEq] at h
    exact Or.inl ⟨hq, h.symm⟩
  · by_cases hlost : Lost compare key t q
    · rw [(find_insert hc ht hq data).1 hlost] at h
      cases h
    · exact Or.inr ((find_insert hc ht hq data).2 hlost ▸ h)

/-- What lies below the new key is not touched. -/
theorem find_insert_of_lt (hc : Coarse compare) (ht : RightOrdered t) (hlt : q < key) :
    find q (insert compare key data t) = find q t :=
  (find_insert hc ht hlt.ne data).2 fun hlost => (hc.le key q hlost.1).not_gt hlt

/-- Data that have been set and then changed. -/
theorem modify_insert {f : β → β} (hc : Coarse compare) :
    modify key f (insert compare key data t) = insert compare key (f data) t := by
  induction t with
  | leaf => rw [insert, insert, modify, cmp_self_eq_eq]
  | node left root data' right ihleft ihright =>
    rw [insert, insert]
    split
    · next h => rw [modify, (hc.lt key root h).cmp_eq_lt, ihleft]
    · rw [modify, cmp_self_eq_eq]
    · next h => rw [modify, (hc.gt key root h).cmp_eq_gt, ihright]

/-- An entry afterwards was there, with these data, or has been found and its data changed. -/
theorem mem_entries_modify {f : β → β} {e : α × β} (he : e ∈ entries (modify key f t)) :
    ∃ e' ∈ entries t, e'.1 = e.1 ∧ (e.2 = e'.2 ∨ find key t = some e'.2 ∧ e.2 = f e'.2) := by
  induction t with
  | leaf => cases he
  | node left root data' right ihleft ihright =>
    rcases lt_trichotomy key root with hlt | rfl | hgt
    · rw [modify, hlt.cmp_eq_lt] at he
      rw [find_node_lt hlt]
      simp only [entries_node, List.mem_append, List.mem_cons] at he ⊢
      rcases he with he | he
      · obtain ⟨e', he', h⟩ := ihleft he
        exact ⟨e', Or.inl he', h⟩
      · exact ⟨e, Or.inr he, rfl, Or.inl rfl⟩
    · rw [modify, cmp_self_eq_eq] at he
      rw [find_node_self]
      simp only [entries_node, List.mem_append, List.mem_cons] at he ⊢
      rcases he with he | rfl | he
      · exact ⟨e, Or.inl he, rfl, Or.inl rfl⟩
      · exact ⟨(key, data'), Or.inr (Or.inl rfl), rfl, Or.inr ⟨rfl, rfl⟩⟩
      · exact ⟨e, Or.inr (Or.inr he), rfl, Or.inl rfl⟩
    · rw [modify, hgt.cmp_eq_gt] at he
      rw [find_node_gt hgt]
      simp only [entries_node, List.mem_append, List.mem_cons] at he ⊢
      rcases he with he | he | he
      · exact ⟨e, Or.inl he, rfl, Or.inl rfl⟩
      · exact ⟨e, Or.inr (Or.inl he), rfl, Or.inl rfl⟩
      · obtain ⟨e', he', h⟩ := ihright he
        exact ⟨e', Or.inr (Or.inr he'), h⟩

theorem size_modify {f : β → β} : size (modify key f t) = size t := by
  rw [size_eq_length, size_eq_length, ← List.length_map Prod.fst, keys_modify, List.length_map]

theorem RightOrdered.modify {f : β → β} (ht : RightOrdered t) : RightOrdered (modify key f t) := by
  induction t with
  | leaf => trivial
  | node left root data' right ihleft ihright =>
    obtain ⟨hleft, hright, habove⟩ := ht
    rw [SearchTree.modify]
    split
    · exact ⟨ihleft hleft, hright, habove⟩
    · exact ⟨hleft, hright, habove⟩
    · refine ⟨hleft, ihright hright, fun e he => ?_⟩
      obtain ⟨e', he', hkey, -⟩ := mem_entries_modify he
      exact hkey ▸ habove e' he'

theorem LeftApart.modify {f : β → β} (ht : LeftApart compare t) : LeftApart compare (modify key f t) := by
  induction t with
  | leaf => trivial
  | node left root data' right ihleft ihright =>
    obtain ⟨hleft, hright, hapart⟩ := ht
    rw [SearchTree.modify]
    split
    · refine ⟨ihleft hleft, hright, fun e he => ?_⟩
      obtain ⟨e', he', hkey, -⟩ := mem_entries_modify he
      exact hkey ▸ hapart e' he'
    · exact ⟨hleft, hright, hapart⟩
    · exact ⟨hleft, ihright hright, hapart⟩

/-! ## Ordered trees -/

/-- The keys are in order. -/
def Ordered (t : SearchTree α β) : Prop := (entries t).Pairwise fun e e' => e.1 < e'.1

theorem ordered_leaf : Ordered (leaf : SearchTree α β) := List.Pairwise.nil

theorem ordered_node {left right : SearchTree α β} : Ordered (node left key data right) ↔
    Ordered left ∧ Ordered right ∧ (∀ e ∈ entries left, e.1 < key) ∧ ∀ e ∈ entries right, key < e.1 := by
  unfold Ordered
  rw [entries_node, List.pairwise_append, List.pairwise_cons]
  constructor
  · rintro ⟨hleft, ⟨habove, hright⟩, hcross⟩
    exact ⟨hleft, hright, fun e he => hcross e he _ List.mem_cons_self, habove⟩
  · rintro ⟨hleft, hright, hbelow, habove⟩
    refine ⟨hleft, ⟨habove, hright⟩, fun e he e' he' => ?_⟩
    rcases List.mem_cons.mp he' with rfl | he'
    · exact hbelow e he
    · exact (hbelow e he).trans (habove e' he')

theorem Ordered.modify {f : β → β} (ht : Ordered t) : Ordered (modify key f t) := by
  unfold Ordered at ht ⊢
  rw [← @List.pairwise_map _ _ Prod.fst fun k k' : α => k < k'] at ht ⊢
  rwa [keys_modify]

theorem Ordered.rightOrdered (ht : Ordered t) : RightOrdered t := by
  induction t with
  | leaf => trivial
  | node left root data' right ihleft ihright =>
    obtain ⟨hleft, hright, -, habove⟩ := ordered_node.mp ht
    exact ⟨ihleft hleft, ihright hright, habove⟩

/-- **A lookup is one in the list.** -/
theorem Ordered.find_eq_some_iff (ht : Ordered t) {d : β} : find q t = some d ↔ (q, d) ∈ entries t := by
  refine ⟨mem_entries_of_find, fun h => ?_⟩
  induction t with
  | leaf => simp at h
  | node left root data' right ihleft ihright =>
    obtain ⟨hleft, hright, hbelow, habove⟩ := ordered_node.mp ht
    rw [entries_node, List.mem_append, List.mem_cons, Prod.mk.injEq] at h
    rcases h with h | ⟨rfl, rfl⟩ | h
    · rw [find_node_lt (hbelow _ h), ihleft hleft h]
    · exact find_node_self
    · rw [find_node_gt (habove _ h), ihright hright h]

/-- **The entries after an insertion** that takes no other key's place. -/
theorem entries_insert (hc : Coarse compare) (ht : Ordered t) (hsame : ∀ p ∈ replaced compare key t, p = key) :
    entries (insert compare key data t) =
      (entries t).filter (fun e => e.1 < key) ++ (key, data) :: (entries t).filter (fun e => key < e.1) := by
  have hnone {es : List (α × β)} {p : α × β → Prop} [DecidablePred p] (h : ∀ e ∈ es, ¬ p e) :
      es.filter (fun e => p e) = [] := List.filter_eq_nil_iff.mpr (by simpa using h)
  have hall {es : List (α × β)} {p : α × β → Prop} [DecidablePred p] (h : ∀ e ∈ es, p e) :
      es.filter (fun e => p e) = es := List.filter_eq_self.mpr (by simpa using h)
  induction t with
  | leaf => simp [insert]
  | node left root data' right ihleft ihright =>
    obtain ⟨hleft, hright, hbelow, habove⟩ := ordered_node.mp ht
    rw [replaced] at hsame
    rw [insert, entries_node, List.filter_append, List.filter_append, List.filter_cons, List.filter_cons]
    split
    · next h =>
      have hlt := hc.lt key root h
      rw [h] at hsame
      rw [entries_node, ihleft hleft hsame, hnone fun e he => (hlt.trans (habove e he)).not_gt,
        hall fun e he => hlt.trans (habove e he)]
      simp [hlt, hlt.not_gt]
    · next h =>
      rw [h] at hsame
      obtain rfl : root = key := hsame root rfl
      rw [entries_node, hall hbelow, hall habove, hnone fun e he => (habove e he).not_gt,
        hnone fun e he => (hbelow e he).not_gt]
      simp
    · next h =>
      have hgt := hc.gt key root h
      rw [h] at hsame
      rw [entries_node, ihright hright hsame, hnone fun e he => ((hbelow e he).trans hgt).not_gt,
        hall fun e he => (hbelow e he).trans hgt]
      simp [hgt, hgt.not_gt]

theorem Ordered.insert (hc : Coarse compare) (ht : Ordered t) (hsame : ∀ p ∈ replaced compare key t, p = key) :
    Ordered (insert compare key data t) := by
  unfold Ordered
  rw [entries_insert hc ht hsame, List.pairwise_append, List.pairwise_cons]
  refine ⟨List.Pairwise.filter _ ht, ⟨fun e he => ?_, List.Pairwise.filter _ ht⟩, fun e he e' he' => ?_⟩
  · simpa using (List.mem_filter.mp he).2
  · have hlt : e.1 < key := by simpa using (List.mem_filter.mp he).2
    rcases List.mem_cons.mp he' with rfl | he'
    · exact hlt
    · exact hlt.trans (by simpa using (List.mem_filter.mp he').2)

omit [LinearOrder α] in
theorem entries_splitMax {e : α × β} {t' : SearchTree α β} (h : splitMax t = some (e, t')) :
    entries t = entries t' ++ [e] := by
  induction t generalizing t' with
  | leaf => cases h
  | node left root data' right ihleft ihright =>
    rw [splitMax] at h
    split at h
    · next hnone =>
      obtain ⟨rfl, rfl⟩ := Prod.mk.inj (Option.some.inj h)
      cases right with
      | leaf => rfl
      | node left' root' data'' right' =>
        rw [splitMax] at hnone
        split at hnone <;> cases hnone
    · next last rest hlast =>
      obtain ⟨rfl, rfl⟩ := Prod.mk.inj (Option.some.inj h)
      rw [entries_node, entries_node, ihright hlast, List.append_assoc, List.cons_append]

omit [LinearOrder α] in
theorem entries_splitMin {e : α × β} {t' : SearchTree α β} (h : splitMin t = some (e, t')) :
    entries t = e :: entries t' := by
  induction t generalizing t' with
  | leaf => cases h
  | node left root data' right ihleft ihright =>
    rw [splitMin] at h
    split at h
    · next hnone =>
      obtain ⟨rfl, rfl⟩ := Prod.mk.inj (Option.some.inj h)
      cases left with
      | leaf => rfl
      | node left' root' data'' right' =>
        rw [splitMin] at hnone
        split at hnone <;> cases hnone
    · next first rest hfirst =>
      obtain ⟨rfl, rfl⟩ := Prod.mk.inj (Option.some.inj h)
      rw [entries_node, entries_node, ihleft hfirst, List.cons_append]

omit [LinearOrder α] in
theorem splitMax_eq_none (h : splitMax t = none) : t = leaf := by
  cases t with
  | leaf => rfl
  | node left root data' right =>
    rw [splitMax] at h
    split at h <;> cases h

omit [LinearOrder α] in
theorem splitMin_eq_none (h : splitMin t = none) : t = leaf := by
  cases t with
  | leaf => rfl
  | node left root data' right =>
    rw [splitMin] at h
    split at h <;> cases h

omit [LinearOrder α] in
/-- Nothing gets lost where a root is taken out. -/
theorem entries_join (left right : SearchTree α β) : entries (join left right) = entries left ++ entries right := by
  rw [join]
  split
  · next key data left' h =>
    rw [entries_node, entries_splitMax h, List.append_assoc, List.singleton_append]
  · next h =>
    rw [splitMax_eq_none h]
    split
    · next key data right' h' => rw [entries_node, entries_splitMin h']
    · next h' => rw [splitMin_eq_none h', entries_leaf, List.nil_append]

/-- A node less, if the key could be found. -/
theorem size_delete : size (delete key t) + (if (find key t).isSome then 1 else 0) = size t := by
  induction t with
  | leaf => simp [delete, find]
  | node left root data' right ihleft ihright =>
    rcases lt_trichotomy key root with hlt | rfl | hgt
    · rw [delete, hlt.cmp_eq_lt, find_node_lt hlt, size, size]
      omega
    · rw [delete, cmp_self_eq_eq, find_node_self, size_eq_length, entries_join, List.length_append, ← size_eq_length,
        ← size_eq_length, size]
      simp
    · rw [delete, hgt.cmp_eq_gt, find_node_gt hgt, size, size]
      omega

theorem delete_of_find_eq_none (h : find key t = none) : delete key t = t := by
  induction t with
  | leaf => rfl
  | node left root data' right ihleft ihright =>
    rcases lt_trichotomy key root with hlt | rfl | hgt
    · rw [find_node_lt hlt] at h
      rw [delete, hlt.cmp_eq_lt, ihleft h]
    · rw [find_node_self] at h
      cases h
    · rw [find_node_gt hgt] at h
      rw [delete, hgt.cmp_eq_gt, ihright h]

/-- **The entries after a deletion.** -/
theorem entries_delete (ht : Ordered t) :
    entries (delete key t) = (entries t).filter fun e => e.1 ≠ key := by
  have hall {es : List (α × β)} (h : ∀ e ∈ es, e.1 ≠ key) : es.filter (fun e => e.1 ≠ key) = es :=
    List.filter_eq_self.mpr (by simpa using h)
  induction t with
  | leaf => rfl
  | node left root data' right ihleft ihright =>
    obtain ⟨hleft, hright, hbelow, habove⟩ := ordered_node.mp ht
    rw [entries_node, List.filter_append, List.filter_cons, delete]
    rcases lt_trichotomy key root with hlt | rfl | hgt
    · rw [hlt.cmp_eq_lt, hall fun e he => (hlt.trans (habove e he)).ne', if_pos (by simpa using hlt.ne')]
      exact congrArg (· ++ (root, data') :: entries right) (ihleft hleft)
    · rw [cmp_self_eq_eq, hall fun e he => (hbelow e he).ne, hall fun e he => (habove e he).ne', if_neg (by simp)]
      exact entries_join left right
    · rw [hgt.cmp_eq_gt, hall fun e he => ((hbelow e he).trans hgt).ne, if_pos (by simpa using hgt.ne)]
      exact congrArg (entries left ++ (root, data') :: ·) (ihright hright)

theorem Ordered.delete (ht : Ordered t) : Ordered (delete key t) := by
  unfold Ordered
  rw [entries_delete ht]
  exact List.Pairwise.filter _ ht

/-- **A deletion takes out the one key.** -/
theorem Ordered.find_delete (ht : Ordered t) : find q (SearchTree.delete key t) = if q = key then none else find q t := by
  apply Option.ext
  intro d
  rw [ht.delete.find_eq_some_iff, entries_delete ht, List.mem_filter]
  split_ifs with hq
  · simp [hq]
  · rw [ht.find_eq_some_iff]
    simp [hq]

/-! ## Rebuilding -/

/-- A list of entries, inserted one after the other. -/
def insertAll (compare : α → α → Ordering) (es : List (α × β)) (t : SearchTree α β) : SearchTree α β :=
  es.foldl (fun t e => insert compare e.1 e.2 t) t

theorem RightOrdered.insertAll (hc : Coarse compare) {es : List (α × β)} (ht : RightOrdered t) :
    RightOrdered (insertAll compare es t) := by
  induction es generalizing t with
  | nil => exact ht
  | cons e es ih => exact ih (ht.insert hc)

/-- **In order, each entry is kept**: those after it lie above it. -/
theorem find_insertAll_of_mem (hc : Coarse compare) {es : List (α × β)}
    (hsorted : es.Pairwise fun e e' => e.1 < e'.1) {e : α × β} (he : e ∈ es) (ht : RightOrdered t) :
    find e.1 (insertAll compare es t) = some e.2 := by
  have hkeep {es : List (α × β)} {q : α} (habove : ∀ e ∈ es, q < e.1) {t : SearchTree α β} (ht : RightOrdered t) :
      find q (insertAll compare es t) = find q t := by
    induction es generalizing t with
    | nil => rfl
    | cons e es ih =>
      obtain ⟨hlt, habove⟩ := List.forall_mem_cons.mp habove
      rw [insertAll, List.foldl_cons, ← insertAll, ih habove (ht.insert hc), find_insert_of_lt hc ht hlt]
  induction es generalizing t with
  | nil => cases he
  | cons e' es ih =>
    obtain ⟨habove, hsorted⟩ := List.pairwise_cons.mp hsorted
    rw [insertAll, List.foldl_cons, ← insertAll]
    rcases List.mem_cons.mp he with rfl | he
    · rw [hkeep habove (ht.insert hc), find_insert_self hc]
    · exact ih hsorted he (ht.insert hc)

/-- What is found afterwards is an entry, or was there. -/
theorem find_insertAll_some (hc : Coarse compare) {es : List (α × β)} {d : β} (ht : RightOrdered t)
    (h : find q (insertAll compare es t) = some d) : (q, d) ∈ es ∨ find q t = some d := by
  induction es generalizing t with
  | nil => exact Or.inr h
  | cons e es ih =>
    rcases ih (ht.insert hc) h with hmem | hfound
    · exact Or.inl (List.mem_cons_of_mem e hmem)
    · rcases find_insert_some hc ht hfound with ⟨rfl, rfl⟩ | hfound
      · exact Or.inl List.mem_cons_self
      · exact Or.inr hfound

/-- **A tree that has been built in order** finds what it has been built from. -/
theorem find_insertAll_leaf (hc : Coarse compare) {es : List (α × β)} (hsorted : es.Pairwise fun e e' => e.1 < e'.1)
    {d : β} : find q (insertAll compare es leaf) = some d ↔ (q, d) ∈ es := by
  have hleaf : RightOrdered (leaf : SearchTree α β) := trivial
  constructor
  · intro h
    rcases find_insertAll_some hc hleaf h with hmem | hnone
    · exact hmem
    · cases hnone
  · intro h
    exact find_insertAll_of_mem hc hsorted h hleaf

end SearchTree
