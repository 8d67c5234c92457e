import Mcc.Model.Config

/-!
# `Correctness.Config` — the resources are those of the configuration

A number that is followed by no digit is read as it (`readNumber_toDigits`), and the colon behind it leads to the rest
of the list. So the loops go through a list of numbers as a fold does (`addIds_join`, `addTrunks_join`), and
`initResource` leaves the manager that the rest of the model starts from (`initResource_eq_configured`).

## Contents
- **Numbers.** One number, and lists of them.
- **The manager.** `initResource_eq_configured`, and what is in it: `initResource_exact`.
-/

namespace Mcc

open IntOp Xml

/-! ## Numbers -/

/-- Digits up to what is none. -/
theorem readNumber_append {l rest : Text} {n : ℕ} (hl : ∀ c ∈ l, c.isDigit = true)
    (hrest : ∀ c ∈ rest.head?, c.isDigit = false) (hlt : Nat.ofDigitChars 10 l n < 2147483648) :
    readNumber n (l ++ rest) = some ((Nat.ofDigitChars 10 l n : Int), rest) := by
  induction l generalizing n with
  | nil =>
    cases rest with
    | nil => simp [readNumber]
    | cons c rest =>
      have hc : c.isDigit = false := hrest c (by simp)
      simp [readNumber, hc]
  | cons c l ih =>
    obtain ⟨hc, hl⟩ := List.forall_mem_cons.mp hl
    rw [Nat.ofDigitChars_cons] at hlt ⊢
    have hpush := pushDigit_eq hc (lt_of_le_of_lt (le_ofDigitChars l _) hlt)
    rw [List.cons_append, readNumber, if_pos hc, bind_of_eq hpush]
    exact ih hl hlt

theorem readNumber_toDigits {n : ℕ} (hlt : n < 2 ^ 31) {rest : Text} (hrest : ∀ c ∈ rest.head?, c.isDigit = false) :
    readNumber 0 (Nat.toDigits 10 n ++ rest) = some ((n : Int), rest) := by
  have hread := @readNumber_append (Nat.toDigits 10 n) rest 0 (fun c hc => isDigit_of_mem_toDigits hc) hrest
    (by simpa using hlt)
  simpa using hread

/-- A list of ids, as it is written. -/
def idList (ids : List ℕ) : Text := [':'].intercalate (ids.map (Nat.toDigits 10))

/-- A list of pairs. -/
def pairList (pairs : List (ℕ × ℕ)) : Text :=
  [':'].intercalate (pairs.map fun t => Nat.toDigits 10 t.1 ++ '-' :: Nat.toDigits 10 t.2)

theorem idList_cons (n n' : ℕ) (ids : List ℕ) :
    idList (n :: n' :: ids) = Nat.toDigits 10 n ++ ':' :: idList (n' :: ids) := by
  simp [idList, List.intercalate_cons_cons]

theorem pairList_cons (t t' : ℕ × ℕ) (pairs : List (ℕ × ℕ)) : pairList (t :: t' :: pairs) =
    Nat.toDigits 10 t.1 ++ '-' :: (Nat.toDigits 10 t.2 ++ ':' :: pairList (t' :: pairs)) := by
  simp [pairList, List.intercalate_cons_cons]

/-- A colon behind an id leads to the next one. -/
theorem addIds_of_colon {σ : Type} {add : Int → σ → σ} {buf rest : Text} {id : Int} {s : σ}
    (h : readNumber 0 buf = some (id, ':' :: rest)) : addIds add buf s = addIds add rest (add id s) := by
  rw [addIds]
  split
  · next id' rest' h' =>
    rw [h, Option.some.injEq, Prod.mk.injEq, List.cons.injEq] at h'
    obtain ⟨rfl, -, rfl⟩ := h'
    rfl
  · next id' p' hne h' =>
    rw [h, Option.some.injEq, Prod.mk.injEq] at h'
    exact absurd h'.2.symm (hne rest)
  · next h' => exact absurd (h.symm.trans h') (by simp)

/-- The end of the string ends the list. -/
theorem addIds_of_end {σ : Type} {add : Int → σ → σ} {buf : Text} {id : Int} {s : σ}
    (h : readNumber 0 buf = some (id, [])) : addIds add buf s = some (add id s) := by
  rw [addIds]
  split
  · next h' => exact absurd (h.symm.trans h') (by simp)
  · next id' p' hne h' =>
    rw [h, Option.some.injEq, Prod.mk.injEq] at h'
    rw [h'.1]
  · next h' => exact absurd (h.symm.trans h') (by simp)

/-- **Each id is added**, one after the other. -/
theorem addIds_join {σ : Type} (add : Int → σ → σ) {ids : List ℕ} (hne : ids ≠ []) (hlt : ∀ n ∈ ids, n < 2 ^ 31)
    (s : σ) : addIds add (idList ids) s = some ((ids.map fun n : ℕ => (n : Int)).foldl (fun s id => add id s) s) := by
  induction ids generalizing s with
  | nil => exact absurd rfl hne
  | cons n ids ih =>
    obtain ⟨hn, hlt⟩ := List.forall_mem_cons.mp hlt
    cases ids with
    | nil =>
      have hread := @readNumber_toDigits n hn [] (by simp)
      rw [List.append_nil] at hread
      rw [idList, List.map_singleton, List.intercalate_singleton, addIds_of_end hread, List.map_singleton,
        List.foldl_cons, List.foldl_nil]
    | cons n' ids =>
      have hread := @readNumber_toDigits n hn (':' :: idList (n' :: ids)) (by simp)
      rw [idList_cons, addIds_of_colon hread, ih (by simp) hlt, @List.map_cons _ _ _ n, List.foldl_cons]

variable {Q : Type} [PriorityQueue Q User]

/-- A colon behind a pair leads to the next one. -/
theorem addTrunks_of_colon {buf p rest : Text} {outport inport : Int} {mTrunks : List (Trunk Q)}
    (h : readNumber 0 buf = some (outport, '-' :: p)) (h' : readNumber 0 p = some (inport, ':' :: rest)) :
    addTrunks buf mTrunks = addTrunks rest (mTrunks ++ [Trunk.new outport inport]) := by
  rw [addTrunks]
  split
  · next outport' p' hread =>
    rw [h, Option.some.injEq, Prod.mk.injEq, List.cons.injEq] at hread
    obtain ⟨rfl, -, rfl⟩ := hread
    split
    · next inport' rest' hread' =>
      rw [h', Option.some.injEq, Prod.mk.injEq, List.cons.injEq] at hread'
      obtain ⟨rfl, -, rfl⟩ := hread'
      rfl
    · next inport' rest' hne hread' =>
      rw [h', Option.some.injEq, Prod.mk.injEq] at hread'
      exact absurd hread'.2.symm (hne rest)
    · next hread' => exact absurd (h'.symm.trans hread') (by simp)
  · next hnone => exact absurd h (hnone outport p)

/-- The end of the string ends the list. -/
theorem addTrunks_of_end {buf p : Text} {outport inport : Int} {mTrunks : List (Trunk Q)}
    (h : readNumber 0 buf = some (outport, '-' :: p)) (h' : readNumber 0 p = some (inport, [])) :
    addTrunks buf mTrunks = some (mTrunks ++ [Trunk.new outport inport]) := by
  rw [addTrunks]
  split
  · next outport' p' hread =>
    rw [h, Option.some.injEq, Prod.mk.injEq, List.cons.injEq] at hread
    obtain ⟨rfl, -, rfl⟩ := hread
    split
    · next hread' => exact absurd (h'.symm.trans hread') (by simp)
    · next inport' rest' hne hread' =>
      rw [h', Option.some.injEq, Prod.mk.injEq] at hread'
      rw [hread'.1]
    · next hread' => exact absurd (h'.symm.trans hread') (by simp)
  · next hnone => exact absurd h (hnone outport p)

/-- **Each pair becomes a trunk**, in order. -/
theorem addTrunks_join {pairs : List (ℕ × ℕ)} (hne : pairs ≠ []) (hlt : ∀ t ∈ pairs, t.1 < 2 ^ 31 ∧ t.2 < 2 ^ 31)
    (mTrunks : List (Trunk Q)) :
    addTrunks (pairList pairs) mTrunks = some (mTrunks ++ pairs.map fun t => Trunk.new t.1 t.2) := by
  induction pairs generalizing mTrunks with
  | nil => exact absurd rfl hne
  | cons t pairs ih =>
    obtain ⟨⟨hfirst, hsecond⟩, hlt⟩ := List.forall_mem_cons.mp hlt
    cases pairs with
    | nil =>
      have hread := @readNumber_toDigits t.1 hfirst ('-' :: Nat.toDigits 10 t.2) (by simp)
      have hread' := @readNumber_toDigits t.2 hsecond [] (by simp)
      rw [List.append_nil] at hread'
      rw [pairList, List.map_singleton, List.intercalate_singleton, addTrunks_of_end hread hread', List.map_singleton]
    | cons t' pairs =>
      have hread := @readNumber_toDigits t.1 hfirst
        ('-' :: (Nat.toDigits 10 t.2 ++ ':' :: pairList (t' :: pairs))) (by simp)
      have hread' := @readNumber_toDigits t.2 hsecond (':' :: pairList (t' :: pairs)) (by simp)
      rw [pairList_cons, addTrunks_of_colon hread hread', ih (by simp) hlt, @List.map_cons _ _ _ t, List.append_assoc,
        List.singleton_append]

/-! ## The manager -/

namespace ResourceManager

/-- The configuration that lists these. -/
def listed (cameras monitors : List ℕ) (trunks : List (ℕ × ℕ)) : ResourceConfig :=
  ⟨some (idList cameras), some (idList monitors), some (pairList trunks)⟩

variable {cameras monitors : List ℕ} {trunks : List (ℕ × ℕ)}

omit [PriorityQueue Q User] in
theorem foldl_addCamera (junk : Int) (ids : List Int) (s : ResourceManager Q) :
    ids.foldl (fun s id => addCamera junk id s) s =
      { s with mCameras := ids.foldl (fun m k => m.insert k (some (Camera.new k junk))) s.mCameras } := by
  induction ids generalizing s with
  | nil => simp
  | cons id ids ih => rw [List.foldl_cons, List.foldl_cons, ih, addCamera]

omit [PriorityQueue Q User] in
theorem foldl_addMonitor (junk : Int) (ids : List Int) (s : ResourceManager Q) :
    ids.foldl (fun s id => addMonitor junk id s) s =
      { s with mMonitors := ids.foldl (fun m k => m.insert k (some (Monitor.new k junk))) s.mMonitors } := by
  induction ids generalizing s with
  | nil => simp
  | cons id ids ih => rw [List.foldl_cons, List.foldl_cons, ih, addMonitor]

/-- The ids of a list, as numbers of the code. -/
def ints (ids : List ℕ) : List Int := ids.map fun n : ℕ => (n : Int)

/-- **`initResource` leaves the configured manager**, from one that has nothing yet. -/
theorem initResource_eq_configured (junk matrixId level : Int) (hcameras : cameras ≠ []) (hmonitors : monitors ≠ [])
    (htrunks : trunks ≠ []) (hcam : ∀ n ∈ cameras, n < 2 ^ 31) (hmon : ∀ n ∈ monitors, n < 2 ^ 31)
    (hpair : ∀ t ∈ trunks, t.1 < 2 ^ 31 ∧ t.2 < 2 ^ 31) :
    initResource junk (listed cameras monitors trunks) (configured junk matrixId level [] [] [] : ResourceManager Q) =
      some (configured junk matrixId level (ints cameras) (ints monitors)
        (trunks.map fun t => ((t.1 : Int), (t.2 : Int)))) := by
  unfold initResource listed unlessNull
  rw [bind_of_eq (addIds_join _ hcameras hcam _), foldl_addCamera, bind_of_eq (addIds_join _ hmonitors hmon _),
    foldl_addMonitor, bind_of_eq (addTrunks_join htrunks hpair _)]
  simp [configured, ints]

theorem getElem?_foldl_insert_eq {V : Type} (f : Int → V) (l : List Int) (m : IntMap V) (k : Int) :
    (l.foldl (fun m k => m.insert k (f k)) m)[k]? = if k ∈ l then some (f k) else m[k]? := by
  induction l generalizing m with
  | nil => simp
  | cons a l ih =>
    have hsame : compare a k = .eq ↔ a = k := Std.LawfulEqCmp.compare_eq_iff_eq
    rw [List.foldl_cons, ih, Std.ExtTreeMap.getElem?_insert]
    by_cases hl : k ∈ l
    · simp [hl]
    · by_cases ha : a = k
      · simp [ha]
      · simp [hsame, hl, ha, Ne.symm ha]

/-- The keys of the map are the ids, and under each is an object with this id. -/
structure HasExactly {V : Type} (idOf : V → Int) (ids : List ℕ) (m : IntMap (Option V)) : Prop where
  keys : ∀ k, k ∈ m ↔ k ∈ ints ids
  objects : ∀ k ∈ m, ∃ o, m[k]? = some (some o) ∧ idOf o = k

theorem hasExactly_foldl_insert {V : Type} {idOf : V → Int} {new : Int → V} (hnew : ∀ k, idOf (new k) = k)
    (ids : List ℕ) : HasExactly idOf ids ((ints ids).foldl (fun m k => m.insert k (some (new k))) ∅) := by
  have hget := getElem?_foldl_insert_eq (fun k => some (new k)) (ints ids) ∅
  have hkeys (k : Int) : k ∈ (ints ids).foldl (fun m k => m.insert k (some (new k))) (∅ : IntMap (Option V)) ↔
      k ∈ ints ids := by
    rw [Std.ExtTreeMap.mem_iff_isSome_getElem?, hget]
    by_cases hk : k ∈ ints ids
    · simp [hk]
    · simp [hk]
  refine ⟨hkeys, ?_⟩
  intro k hk
  exact ⟨new k, by rw [hget, if_pos ((hkeys k).mp hk)], hnew k⟩

/-- **The resources are those listed.** `initResource` ends; the keys of the cameras and of the monitors are the ids of
the lists, each with an object of its id, and the trunks are the pairs in order, without users or a camera. -/
theorem initResource_exact (junk matrixId level : Int) (hcameras : cameras ≠ []) (hmonitors : monitors ≠ [])
    (htrunks : trunks ≠ []) (hcam : ∀ n ∈ cameras, n < 2 ^ 31) (hmon : ∀ n ∈ monitors, n < 2 ^ 31)
    (hpair : ∀ t ∈ trunks, t.1 < 2 ^ 31 ∧ t.2 < 2 ^ 31) :
    ∃ s : ResourceManager Q,
      initResource junk (listed cameras monitors trunks) (configured junk matrixId level [] [] []) = some s ∧
      HasExactly Camera.mId cameras s.mCameras ∧ HasExactly Monitor.mId monitors s.mMonitors ∧
      s.mTrunks.map (fun t => (t.mId, t.mOutport)) = trunks.map (fun t => ((t.1 : Int), (t.2 : Int))) ∧
      ∀ t ∈ s.mTrunks, PriorityQueue.contents t.mUsers = 0 ∧ t.mCameraId = GlobalID.nullID := by
  have hread := @initResource_eq_configured Q _ _ _ _ junk matrixId level hcameras hmonitors htrunks hcam hmon hpair
  refine ⟨_, hread, hasExactly_foldl_insert (fun k => rfl) cameras, hasExactly_foldl_insert (fun k => rfl) monitors,
    ?_, ?_⟩
  · simp [configured, Trunk.new]
  · intro t ht
    obtain ⟨pair, -, rfl⟩ := List.mem_map.mp ht
    exact ⟨PriorityQueue.contents_empty, rfl⟩

/-- Two cameras, a monitor and two trunks. -/
theorem initResource_exact_of_two : ∃ s : ResourceManager (List User),
    initResource 0 (listed [4, 7] [1] [(1, 2), (3, 12)]) (configured 0 1 1 [] [] []) = some s ∧
      HasExactly Camera.mId [4, 7] s.mCameras ∧ HasExactly Monitor.mId [1] s.mMonitors ∧
      s.mTrunks.map (fun t => (t.mId, t.mOutport)) = [(1, 2), (3, 12)] ∧
      ∀ t ∈ s.mTrunks, PriorityQueue.contents t.mUsers = 0 ∧ t.mCameraId = GlobalID.nullID :=
  initResource_exact 0 1 1 (by simp) (by simp) (by simp) (by simp) (by simp) (by simp)

end ResourceManager

end Mcc
