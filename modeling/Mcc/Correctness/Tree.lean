import Mathlib.Data.List.Nodup
import Mcc.Correctness.Routing
import Mcc.Model.Tree

/-!
# `Correctness.Tree` — what the managers of a tree know of each other

Each manager's table says which matrices are connected below it, as far as the `REGISTER`s have come. The
invariant (`TreeInv`) is about one link at a time: the last `REGISTER` on it, or the parent's entry if there is
none, lists what the child's own table announces. Where nothing is on its way every table is then the children
and what they announce, which is what is connected below (`Forest.mem_iff_transGen`).

What the code cannot do is change an entry that lists something, or erase one when its connection ends: both
loops advance an erased iterator. `tree_agreement` says that the managers agree with the tree, in every state
in which nothing is on its way, exactly along the schedules that never ask for either.

## Contents
- **What is announced.** `mem_announced`, `Sound`, `Sound.fits`.
- **The invariant.** `TreeInv`.
- **Steps.** `TreeInv.handle_iff`, `TreeInv.handle`.
- **Agreement.** `TreeInv.agrees`, `tree_agreement`.
-/

namespace Mcc

open Transition ResourceManager Relation

/-! ## What is announced -/

theorem mem_announced {table : IntMap MatrixInfo} {id : Int} :
    id ∈ announced table ↔ ∃ (c : Int) (m : MatrixInfo), table[c]? = some m ∧ (id = m.mId ∨ id ∈ m.mChildset) := by
  unfold announced
  rw [List.mem_flatMap]
  constructor
  · rintro ⟨m, hm, hid⟩
    obtain ⟨⟨c, m'⟩, hmem, rfl⟩ := List.mem_map.mp hm
    refine ⟨c, m', Std.ExtTreeMap.mem_toList_iff_getElem?_eq_some.mp hmem, ?_⟩
    rcases List.mem_cons.mp hid with hid | hid
    · exact Or.inl hid
    · exact Or.inr (Std.ExtTreeSet.mem_toList.mp hid)
  · rintro ⟨c, m, hm, hid⟩
    refine ⟨m, List.mem_map.mpr ⟨(c, m), Std.ExtTreeMap.mem_toList_iff_getElem?_eq_some.mpr hm, rfl⟩, ?_⟩
    rcases hid with rfl | hid
    · exact List.mem_cons_self
    · exact List.mem_cons_of_mem _ (Std.ExtTreeSet.mem_toList.mpr hid)

section Announcement

variable {Q : Type}

theorem announcement_method (env : Env) (s : ResourceManager Q) :
    (s.announcement env).mMethod = .register := rfl

theorem announcement_mFrom (env : Env) (s : ResourceManager Q) :
    (s.announcement env).mFrom = s.mMatrixId := rfl

theorem announcement_regExpire (env : Env) (s : ResourceManager Q) :
    (s.announcement env).mContent.regExpire = 60 := by
  unfold announcement Content.regExpire
  simp only
  rw [Content.set_ne _ _ (by omega), Content.fill_lt (by omega)]
  rfl

/-- An announcement lists the ids in the table. -/
theorem mem_listed_announcement (env : Env) (s : ResourceManager Q) {id : Int} :
    id ∈ listed (s.announcement env).mContent ↔ id ∈ announced s.mChildMatrixs := by
  have hnum : (s.announcement env).mContent.regChildrenNum = (announced s.mChildMatrixs).length := by
    unfold announcement Content.regChildrenNum
    simp only [Content.set_self]
  have hchild : ∀ i (hi : i < (announced s.mChildMatrixs).length),
      (s.announcement env).mContent.regChild i = (announced s.mChildMatrixs)[i] := by
    intro i hi
    have hfill := Content.regChild_fill (i := 0)
      (c := (buildRegRequest s.mMatrixId 60 (AgentMessage.uninit env.junk)).mContent) hi
    rw [Nat.zero_add] at hfill
    rw [← hfill]
    unfold announcement Content.regChild
    simp only
    rw [Content.set_ne _ _ (by omega)]
  rw [mem_listed, hnum, Int.toNat_natCast, List.mem_iff_getElem]
  constructor
  · rintro ⟨i, hi, rfl⟩
    exact ⟨i, hi, (hchild i hi).symm⟩
  · rintro ⟨i, hi, rfl⟩
    exact ⟨i, hi, hchild i hi⟩

end Announcement

/-- **A table that fits the tree**: entries of children, listing what is configured below them. -/
def Sound (T : MatrixTree) (n : Int) (table : IntMap MatrixInfo) : Prop :=
  ∀ (c : Int) (m : MatrixInfo), table[c]? = some m →
    m.mId = c ∧ T.Child n c ∧ ∀ id ∈ m.mChildset, T.Below c id

namespace Sound

variable {T : MatrixTree} {n : Int} {table : IntMap MatrixInfo}

theorem below (h : Sound T n table) {id : Int} (hid : id ∈ announced table) : T.Below n id := by
  obtain ⟨c, m, hm, rfl | hset⟩ := mem_announced.mp hid
  · obtain ⟨hc, hchild, -⟩ := h c m hm
    rw [hc]
    exact hchild.below
  · obtain ⟨-, hchild, hbelow⟩ := h c m hm
    exact hchild.below_of_below (hbelow id hset)

/-- No matrix is announced twice. -/
theorem nodup (h : Sound T n table) : (announced table).Nodup := by
  unfold announced
  rw [List.nodup_flatMap]
  constructor
  · intro m hm
    obtain ⟨⟨c, m'⟩, hmem, rfl⟩ := List.mem_map.mp hm
    obtain ⟨hc, -, hbelow⟩ := h c m' (Std.ExtTreeMap.mem_toList_iff_getElem?_eq_some.mp hmem)
    refine List.nodup_cons.mpr ⟨?_, ?_⟩
    · intro hid
      exact (hbelow _ (Std.ExtTreeSet.mem_toList.mp hid)).ne hc.symm
    · refine m'.mChildset.distinct_toList.imp ?_
      rintro a b hab rfl
      exact hab (Std.LawfulEqCmp.compare_eq_iff_eq.mpr rfl)
  · rw [List.pairwise_map]
    refine table.distinct_keys_toList.imp_of_mem ?_
    intro a b ha hb hab
    obtain ⟨hca, hchilda, hbelowa⟩ := h a.1 a.2 (Std.ExtTreeMap.mem_toList_iff_getElem?_eq_some.mp ha)
    obtain ⟨hcb, hchildb, hbelowb⟩ := h b.1 b.2 (Std.ExtTreeMap.mem_toList_iff_getElem?_eq_some.mp hb)
    -- an id under both keys would be at or below two children
    intro id hida hidb
    refine hab (Std.LawfulEqCmp.compare_eq_iff_eq.mpr ?_)
    refine Forest.Child.unique (m := id) hchilda hchildb ?_ ?_
    · rcases List.mem_cons.mp hida with rfl | hid
      · exact Or.inl hca
      · exact Or.inr (hbelowa id (Std.ExtTreeSet.mem_toList.mp hid))
    · rcases List.mem_cons.mp hidb with hid | hid
      · exact Or.inl (hid.trans hcb)
      · exact Or.inr (hbelowb id (Std.ExtTreeSet.mem_toList.mp hid))

/-- **What is announced fits into a `REGISTER`.** -/
theorem fits (h : Sound T n table) : (announced table).length ≤ maxChildrenNum := by
  obtain ⟨F, hcard, hmem⟩ := T.few n
  refine le_trans ?_ hcard
  rw [← List.toFinset_card_of_nodup h.nodup]
  apply Finset.card_le_card
  intro id hid
  exact hmem id (h.below (List.mem_toFinset.mp hid))

end Sound

/-! ## One link -/

section Queue

variable {queue : Int → List LinkItem} {fd fd' : Int} {item x : LinkItem} {items : List LinkItem}

theorem mem_push : x ∈ Function.update queue fd (queue fd ++ items) fd' ↔
    x ∈ queue fd' ∨ fd' = fd ∧ x ∈ items := by
  by_cases hfd : fd' = fd
  · subst hfd
    rw [Function.update_self, List.mem_append]
    simp
  · rw [Function.update_of_ne hfd]
    simp [hfd]

/-- What is left was there before. -/
theorem mem_of_mem_rest (hq : queue fd = item :: items) (h : x ∈ Function.update queue fd items fd') :
    x ∈ queue fd' := by
  by_cases hfd : fd' = fd
  · subst hfd
    rw [Function.update_self] at h
    rw [hq]
    exact List.mem_cons_of_mem _ h
  · rwa [Function.update_of_ne hfd] at h

/-- What was there is what has been read, or left. -/
theorem mem_rest (hq : queue fd = item :: items) (h : x ∈ queue fd') (hne : fd' = fd → x ≠ item) :
    x ∈ Function.update queue fd items fd' := by
  by_cases hfd : fd' = fd
  · subst hfd
    rw [hq] at h
    rw [Function.update_self]
    exact (List.mem_cons.mp h).resolve_left (hne rfl)
  · rwa [Function.update_of_ne hfd]

end Queue

/-- The request is a `REGISTER` of `c` that lists some of `A`. -/
structure Announces (c : Int) (A : Set Int) (request : AgentRequest) : Prop where
  method : request.mMethod = .register
  mFrom : request.mFrom = c
  expire : request.mContent.regExpire > 0
  lists : ∀ id ∈ listed request.mContent, id ∈ A

/-- **The link of `c` to its parent**: the open connection, what its connections carry, the parent's entry,
    and what the table of `c` announces. -/
structure LinkOk (c : Int) (link : Option Int) (queue : Int → List LinkItem) (entry : Option MatrixInfo)
    (A : Set Int) : Prop where
  /-- the connection of the entry is open, or its end is still to be read -/
  attached : ∀ m, entry = some m → link = some m.mFd ∨ .closed ∈ queue m.mFd
  /-- and so is the connection of a `REGISTER` -/
  carried : ∀ fd request, .register request ∈ queue fd → link = some fd ∨ .closed ∈ queue fd
  /-- nothing comes after the end of a connection -/
  ended : ∀ fd, .closed ∉ (queue fd).dropLast
  opened : ∀ fd, link = some fd → .closed ∉ queue fd
  /-- what has been said still holds: a table only grows -/
  announces : ∀ fd request, .register request ∈ queue fd → Announces c A request
  lists : ∀ m, entry = some m → ∀ id ∈ m.mChildset, id ∈ A
  /-- the last `REGISTER` of the open connection, or the entry if they have all been read, is up to date -/
  current : ∀ fd, link = some fd →
    (∃ request, (queue fd).getLast? = some (.register request) ∧ ∀ id ∈ A, id ∈ listed request.mContent) ∨
      queue fd = [] ∧ ∃ m, entry = some m ∧ ∀ id ∈ A, id ∈ m.mChildset

namespace LinkOk

variable {c fd : Int} {link : Option Int} {queue : Int → List LinkItem} {entry : Option MatrixInfo}
  {A A' : Set Int} {request : AgentRequest} {items : List LinkItem}

/-- No link, nothing on the way, no entry. -/
theorem start (c : Int) (A : Set Int) : LinkOk c none (fun _ => []) none A where
  attached := by simp
  carried := by simp
  ended := by simp
  opened := by simp
  announces := by simp
  lists := by simp
  current := by simp

/-- `c` announces its table, which may have grown, on the connection that is open or that it opens now. -/
theorem say (h : LinkOk c link queue entry A) (hlink : link = some fd ∨ link = none ∧ queue fd = [])
    (hreq : Announces c A' request) (hsub : ∀ id ∈ A, id ∈ A') (hall : ∀ id ∈ A', id ∈ listed request.mContent) :
    LinkOk c (some fd) (Function.update queue fd (queue fd ++ [LinkItem.register request])) entry A' := by
  have hopen : ∀ fd', link = some fd' ∨ .closed ∈ queue fd' → some fd = some fd' ∨
      .closed ∈ Function.update queue fd (queue fd ++ [LinkItem.register request]) fd' := by
    rintro fd' (hsome | hclosed)
    · rcases hlink with hlink | ⟨hlink, -⟩
      · exact Or.inl (hlink.symm.trans hsome)
      · rw [hlink] at hsome
        cases hsome
    · exact Or.inr (mem_push.mpr (Or.inl hclosed))
  have hnot : .closed ∉ queue fd := by
    rcases hlink with hlink | ⟨-, hempty⟩
    · exact h.opened fd hlink
    · rw [hempty]
      exact List.not_mem_nil
  constructor
  · intro m hm
    exact hopen _ (h.attached m hm)
  · intro fd' request' hmem
    rcases mem_push.mp hmem with hmem | ⟨rfl, -⟩
    · exact hopen _ (h.carried fd' request' hmem)
    · exact Or.inl rfl
  · intro fd'
    by_cases hfd : fd' = fd
    · subst hfd
      rw [Function.update_self, List.dropLast_concat]
      exact hnot
    · rw [Function.update_of_ne hfd]
      exact h.ended fd'
  · rintro fd' ⟨⟩ hmem
    rcases mem_push.mp hmem with hmem | ⟨-, hmem⟩
    · exact hnot hmem
    · cases List.mem_singleton.mp hmem
  · intro fd' request' hmem
    rcases mem_push.mp hmem with hmem | ⟨-, hmem⟩
    · have hold := h.announces fd' request' hmem
      exact { hold with lists := fun id hid => hsub id (hold.lists id hid) }
    · cases List.mem_singleton.mp hmem
      exact hreq
  · exact fun m hm id hid => hsub id (h.lists m hm id hid)
  · rintro fd' ⟨⟩
    refine Or.inl ⟨request, ?_, hall⟩
    rw [Function.update_self, List.getLast?_concat]

/-- The table of `c` has grown, and there is nobody to tell. -/
theorem grow (h : LinkOk c none queue entry A) (hsub : ∀ id ∈ A, id ∈ A') :
    LinkOk c none queue entry A' :=
  { h with
    announces := by
      intro fd' request' hmem
      have hold := h.announces fd' request' hmem
      exact { hold with lists := fun id hid => hsub id (hold.lists id hid) }
    lists := fun m hm id hid => hsub id (h.lists m hm id hid)
    current := nofun }

/-- `c` loses its connection. -/
theorem disconnect (h : LinkOk c (some fd) queue entry A) :
    LinkOk c none (Function.update queue fd (queue fd ++ [LinkItem.closed])) entry A where
  attached := by
    intro m hm
    rcases h.attached m hm with hlink | hclosed
    · exact Or.inr (mem_push.mpr (Or.inr ⟨(Option.some.inj hlink).symm, List.mem_singleton_self _⟩))
    · exact Or.inr (mem_push.mpr (Or.inl hclosed))
  carried := by
    intro fd' request' hmem
    rcases mem_push.mp hmem with hmem | ⟨-, hmem⟩
    · rcases h.carried fd' request' hmem with hlink | hclosed
      · exact Or.inr (mem_push.mpr (Or.inr ⟨(Option.some.inj hlink).symm, List.mem_singleton_self _⟩))
      · exact Or.inr (mem_push.mpr (Or.inl hclosed))
    · cases List.mem_singleton.mp hmem
  ended := by
    intro fd'
    by_cases hfd : fd' = fd
    · subst hfd
      rw [Function.update_self, List.dropLast_concat]
      exact h.opened fd' rfl
    · rw [Function.update_of_ne hfd]
      exact h.ended fd'
  opened := nofun
  announces := by
    intro fd' request' hmem
    rcases mem_push.mp hmem with hmem | ⟨-, hmem⟩
    · exact h.announces fd' request' hmem
    · cases List.mem_singleton.mp hmem
  lists := h.lists
  current := nofun

theorem ended_rest {item : LinkItem} (h : LinkOk c link queue entry A) (hq : queue fd = item :: items) :
    ∀ fd', LinkItem.closed ∉ (Function.update queue fd items fd').dropLast := by
  intro fd' hmem
  by_cases hfd : fd' = fd
  · subst hfd
    rw [Function.update_self] at hmem
    refine h.ended fd' ?_
    cases items with
    | nil => cases hmem
    | cons a items =>
      rw [hq, List.dropLast_cons_cons]
      exact List.mem_cons_of_mem _ hmem
  · rw [Function.update_of_ne hfd] at hmem
    exact h.ended fd' hmem

/-- The parent reads a `REGISTER` and stores what it lists; the entry, if there was one, listed nothing. -/
theorem register (h : LinkOk c link queue entry A) (hq : queue fd = .register request :: items)
    {m' : MatrixInfo} (hset : m'.mChildset = listed request.mContent)
    (hentry : (entry = none ∧ m'.mFd = fd) ∨ ∃ m, entry = some m ∧ m.mChildset = ∅ ∧ m'.mFd = m.mFd) :
    LinkOk c link (Function.update queue fd items) (some m') A := by
  have hmem : .register request ∈ queue fd := by
    rw [hq]
    exact List.mem_cons_self
  have hclosed : ∀ fd', .closed ∈ queue fd' → .closed ∈ Function.update queue fd items fd' :=
    fun fd' hc => mem_rest hq hc fun _ => nofun
  constructor
  · rintro m ⟨⟩
    have hold : link = some m'.mFd ∨ .closed ∈ queue m'.mFd := by
      rcases hentry with ⟨-, hfd⟩ | ⟨m, hm, -, hfd⟩
      · rw [hfd]
        exact h.carried fd request hmem
      · rw [hfd]
        exact h.attached m hm
    exact hold.imp id (hclosed _)
  · intro fd' request' hmem'
    exact (h.carried fd' request' (mem_of_mem_rest hq hmem')).imp id (hclosed fd')
  · exact h.ended_rest hq
  · intro fd' hlink hmem'
    exact h.opened fd' hlink (mem_of_mem_rest hq hmem')
  · intro fd' request' hmem'
    exact h.announces fd' request' (mem_of_mem_rest hq hmem')
  · rintro m ⟨⟩ id hid
    rw [hset] at hid
    exact (h.announces fd request hmem).lists id hid
  · intro fd' hlink
    by_cases hfd : fd' = fd
    · subst hfd
      rw [Function.update_self]
      rcases h.current fd' hlink with ⟨last, hlast, hall⟩ | ⟨hnil, -⟩
      · rw [hq] at hlast
        cases items with
        | nil =>
          -- it was the last one, which is up to date
          cases hlast
          refine Or.inr ⟨rfl, m', rfl, ?_⟩
          rw [hset]
          exact hall
        | cons a items =>
          rw [List.getLast?_cons_cons] at hlast
          exact Or.inl ⟨last, hlast, hall⟩
      · rw [hq] at hnil
        cases hnil
    · rw [Function.update_of_ne hfd]
      rcases h.current fd' hlink with hlast | ⟨hnil, m, hm, hall⟩
      · exact Or.inl hlast
      · -- it is of an older connection, and the entry, which is up to date, lists nothing
        rcases hentry with ⟨hnone, -⟩ | ⟨m₁, hm₁, hnothing, -⟩
        · rw [hnone] at hm
          cases hm
        · rw [hm, Option.some.injEq] at hm₁
          subst hm₁
          refine Or.inr ⟨hnil, m', rfl, ?_⟩
          intro id hid
          have hin := hall id hid
          rw [hnothing] at hin
          exact absurd hin Std.ExtTreeSet.not_mem_empty

/-- The parent reads the end of a connection that is not the entry's. -/
theorem close (h : LinkOk c link queue entry A) (hq : queue fd = .closed :: items)
    (hother : ∀ m, entry = some m → m.mFd ≠ fd) : LinkOk c link (Function.update queue fd items) entry A := by
  have hnotopen : link ≠ some fd := by
    intro hlink
    refine h.opened fd hlink ?_
    rw [hq]
    exact List.mem_cons_self
  have hitems : items = [] := by
    cases items with
    | nil => rfl
    | cons a items =>
      refine absurd ?_ (h.ended fd)
      rw [hq, List.dropLast_cons_cons]
      exact List.mem_cons_self
  constructor
  · intro m hm
    rw [Function.update_of_ne (hother m hm)]
    exact h.attached m hm
  · intro fd' request' hmem
    by_cases hfd : fd' = fd
    · subst hfd
      rw [Function.update_self, hitems] at hmem
      cases hmem
    · rw [Function.update_of_ne hfd] at hmem ⊢
      exact h.carried fd' request' hmem
  · exact h.ended_rest hq
  · intro fd' hlink hmem
    exact h.opened fd' hlink (mem_of_mem_rest hq hmem)
  · intro fd' request' hmem
    exact h.announces fd' request' (mem_of_mem_rest hq hmem)
  · exact h.lists
  · intro fd' hlink
    have hfd : fd' ≠ fd := by
      rintro rfl
      exact hnotopen hlink
    rw [Function.update_of_ne hfd]
    exact h.current fd' hlink

/-- Where nothing is on the way, the entry is there exactly with the link, and lists what `c` announces. -/
theorem settled (h : LinkOk c link queue entry A) (hquiet : ∀ fd, queue fd = []) :
    (link = none ∧ entry = none) ∨
      link.isSome = true ∧ ∃ m, entry = some m ∧ ∀ id, id ∈ m.mChildset ↔ id ∈ A := by
  cases hlink : link with
  | none =>
    left
    cases hentry : entry with
    | none => exact ⟨rfl, rfl⟩
    | some m =>
      rcases h.attached m hentry with hsome | hclosed
      · rw [hlink] at hsome
        cases hsome
      · rw [hquiet] at hclosed
        cases hclosed
  | some fd =>
    right
    rcases h.current fd hlink with ⟨request, hlast, -⟩ | ⟨-, m, hm, hall⟩
    · rw [hquiet] at hlast
      cases hlast
    · exact ⟨rfl, m, hm, fun id => ⟨h.lists m hm id, hall id⟩⟩

end LinkOk

/-! ## The invariant -/

namespace TreeNet

variable {Q : Type}

/-- The table of manager `n`. -/
def table (N : TreeNet Q) (n : Int) : IntMap MatrixInfo := (N.nodes n).mChildMatrixs

/-- What it announces. -/
def said (N : TreeNet Q) (n : Int) : Set Int := {id | id ∈ announced (N.table n)}

section Act

variable {N : TreeNet Q} {n c fd : Int} {s : ResourceManager Q} {out : List Action} {items : List LinkItem}

@[simp] theorem nodes_act : (N.act n s out).nodes = Function.update N.nodes n s := by
  unfold act
  cases h : N.link n with
  | none => simp only [h]
  | some fd =>
    simp only [h]
    rfl

@[simp] theorem link_act : (N.act n s out).link = N.link := by
  unfold act
  cases h : N.link n with
  | none => simp only [h]
  | some fd =>
    simp only [h]
    rfl

theorem queue_act_ne (h : c ≠ n) : (N.act n s out).queue c = N.queue c := by
  unfold act
  cases hlink : N.link n with
  | none => simp only [hlink]
  | some fd =>
    simp only [hlink]
    exact Function.update_of_ne h _ _

theorem queue_act_of_none (h : N.link n = none) : (N.act n s out).queue = N.queue := by
  unfold act
  simp only [h]

theorem queue_act_of_some (h : N.link n = some fd) :
    (N.act n s out).queue n = Function.update (N.queue n) fd (N.queue n fd ++ registers out) := by
  unfold act
  simp only [h]
  exact Function.update_self _ _ _

theorem queue_act_of_nothing (h : registers out = []) : (N.act n s out).queue n = N.queue n := by
  cases hlink : N.link n with
  | none => rw [queue_act_of_none hlink]
  | some fd => rw [queue_act_of_some hlink, h, List.append_nil, Function.update_eq_self]

theorem table_act : (N.act n s out).table = Function.update N.table n s.mChildMatrixs := by
  funext m
  show ((N.act n s out).nodes m).mChildMatrixs = _
  rw [nodes_act]
  by_cases hm : m = n
  · subst hm
    rw [Function.update_self, Function.update_self]
  · rw [Function.update_of_ne hm, Function.update_of_ne hm]
    rfl

end Act

/-- **The invariant of the tree.** -/
structure TreeInv (T : MatrixTree) (N : TreeNet Q) : Prop where
  ids : ∀ n, (N.nodes n).mMatrixId = n
  level : ∀ n, (T.parent n).isSome = true → (N.nodes n).mLevel ≠ 0
  connected : ∀ n, (N.nodes n).misClientConnected = (N.link n).isSome
  /-- only a matrix with a parent is connected -/
  rooted : ∀ n, (N.link n).isSome = true → (T.parent n).isSome = true
  sound : ∀ n, Sound T n (N.table n)
  links : ∀ p c, T.Child p c → LinkOk c (N.link c) (N.queue c) (N.table p)[c]? (N.said c)

/-- **The event asks for nothing the code cannot do**: the entry a `REGISTER` changes lists nothing, and the
    end of a connection finds no entry to erase. -/
def Allowed (T : MatrixTree) (N : TreeNet Q) : TreeEvent → Prop
  | .deliver _ c fd => ∀ p item items, T.parent c = some p → N.queue c fd = item :: items →
    match item with
    | .register _ => ∀ m, (N.table p)[c]? = some m → m.mChildset = ∅
    | .closed => ∀ (c' : Int) (m : MatrixInfo), (N.table p)[c']? = some m → m.mFd ≠ fd
  | _ => True

theorem Start.inv [PriorityQueue Q User] {T : MatrixTree} {N : TreeNet Q} (h : N.Start T) : TreeInv T N := by
  have hempty : ∀ n, N.table n = ∅ := fun n => (h.initial n).children
  constructor
  · exact h.ids
  · exact h.level
  · intro n
    rw [(h.initial n).disconnected, h.link n]
    rfl
  · intro n hn
    rw [h.link n] at hn
    cases hn
  · intro n c m hm
    rw [hempty, Std.ExtTreeMap.getElem?_empty] at hm
    cases hm
  · intro p c _
    have hqueue : N.queue c = fun _ => [] := funext (h.queue c)
    rw [h.link, hqueue, hempty p, Std.ExtTreeMap.getElem?_empty]
    exact .start c _

namespace TreeInv

variable {T : MatrixTree} {N N' : TreeNet Q} {c p fd : Int} {env : Env}

theorem said_below (h : TreeInv T N) {n id : Int} (hid : id ∈ N.said n) : T.Below n id := (h.sound n).below hid

/-! ## Steps -/

/-- A manager with its own id announces its table. -/
theorem announces {s : ResourceManager Q} {n : Int} (hid : s.mMatrixId = n) (env : Env) :
    Announces n {id | id ∈ announced s.mChildMatrixs} (s.announcement env) where
  method := announcement_method env s
  mFrom := (announcement_mFrom env s).trans hid
  expire := by
    rw [announcement_regExpire]
    decide
  lists := fun _ hid => (mem_listed_announcement env s).mp hid

/-- The invariant after one manager has acted: what is left to show is about its own record, and the links. -/
theorem of_act (h : TreeInv T N) {N₁ : TreeNet Q} {n : Int} {s : ResourceManager Q} {out : List Action}
    (hnodes : N₁.nodes = N.nodes) (hid : s.mMatrixId = (N.nodes n).mMatrixId)
    (hlevel : s.mLevel = (N.nodes n).mLevel)
    (hothers : ∀ m, m ≠ n → N₁.link m = N.link m) (hconn : s.misClientConnected = (N₁.link n).isSome)
    (hrooted : (N₁.link n).isSome = true → (T.parent n).isSome = true)
    (hsound : Sound T n s.mChildMatrixs)
    (hlinks : ∀ p c, T.Child p c → LinkOk c (N₁.link c) ((N₁.act n s out).queue c)
      (Function.update N.table n s.mChildMatrixs p)[c]?
      {id | id ∈ announced (Function.update N.table n s.mChildMatrixs c)}) :
    TreeInv T (N₁.act n s out) := by
  have htable : (N₁.act n s out).table = Function.update N.table n s.mChildMatrixs := by
    have hsame : N₁.table = N.table := by
      funext m
      show (N₁.nodes m).mChildMatrixs = _
      rw [hnodes]
      rfl
    rw [table_act, hsame]
  constructor
  · intro m
    rw [nodes_act, hnodes]
    by_cases hm : m = n
    · rw [hm, Function.update_self, hid]
      exact h.ids n
    · rw [Function.update_of_ne hm]
      exact h.ids m
  · intro m hparent
    rw [nodes_act, hnodes]
    by_cases hm : m = n
    · rw [hm, Function.update_self, hlevel]
      exact h.level n (hm ▸ hparent)
    · rw [Function.update_of_ne hm]
      exact h.level m hparent
  · intro m
    rw [nodes_act, hnodes, link_act]
    by_cases hm : m = n
    · rw [hm, Function.update_self, hconn]
    · rw [Function.update_of_ne hm, hothers m hm]
      exact h.connected m
  · intro m hlink
    rw [link_act] at hlink
    by_cases hm : m = n
    · subst hm
      exact hrooted hlink
    · rw [hothers m hm] at hlink
      exact h.rooted m hlink
  · intro m
    rw [htable]
    by_cases hm : m = n
    · rw [hm, Function.update_self]
      exact hsound
    · rw [Function.update_of_ne hm]
      exact h.sound m
  · intro p c hchild
    unfold said
    rw [htable, link_act]
    exact hlinks p c hchild

theorem connect_eq (h : TreeInv T N)
    (hfree : (T.parent c).isSome = true ∧ (N.link c).isNone = true ∧ (N.queue c fd).isEmpty = true) :
    handle T N (.connect env c fd) = .ok ((N.relink c (some fd)).act c
      { N.nodes c with misClientConnected := true }
      [.clientSend ({ N.nodes c with misClientConnected := true }.announcement env)]) := by
  show (if _ then _ else _) = _
  rw [if_pos hfree, onClientConnected_eq env (h.sound c).fits]
  rfl

/-- **A child connects**, and announces its table. -/
theorem connect (h : TreeInv T N)
    (hfree : (T.parent c).isSome = true ∧ (N.link c).isNone = true ∧ (N.queue c fd).isEmpty = true)
    (hN : handle T N (.connect env c fd) = .ok N') : TreeInv T N' := by
  rw [h.connect_eq hfree] at hN
  cases hN
  obtain ⟨hparent, hlink, hqueue⟩ := hfree
  have hnone : N.link c = none := Option.isNone_iff_eq_none.mp hlink
  have hempty : N.queue c fd = [] := List.isEmpty_iff.mp hqueue
  have hself : (N.relink c (some fd)).link c = some fd := Function.update_self _ _ _
  have hothers : ∀ m, m ≠ c → (N.relink c (some fd)).link m = N.link m :=
    fun m hm => Function.update_of_ne hm _ _
  refine h.of_act rfl rfl rfl hothers (by rw [hself]; rfl) (fun _ => hparent) (h.sound c) ?_
  intro p c' hchild
  show LinkOk c' _ _ (Function.update N.table c (N.table c) p)[c']?
    {id | id ∈ announced (Function.update N.table c (N.table c) c')}
  rw [Function.update_eq_self]
  have hold := h.links p c' hchild
  by_cases hc : c' = c
  · subst hc
    rw [hnone] at hold
    rw [queue_act_of_some hself, hself]
    have hann := announces (s := { N.nodes c' with misClientConnected := true }) (h.ids c') env
    exact hold.say (Or.inr ⟨rfl, hempty⟩) hann (fun _ hid => hid)
      (fun _ hid => (mem_listed_announcement env _).mpr hid)
  · rw [queue_act_ne hc, hothers c' hc]
    exact hold

/-- **A child loses its connection.** -/
theorem disconnect (h : TreeInv T N) (hN : handle T N (.disconnect c) = .ok N') : TreeInv T N' := by
  unfold handle at hN
  cases hlink : N.link c with
  | none =>
    simp only [hlink] at hN
    cases hN
    exact h
  | some fd =>
    simp only [hlink] at hN
    cases hN
    have hself : (N.relink c none).link c = none := Function.update_self _ _ _
    have hothers : ∀ m, m ≠ c → (N.relink c none).link m = N.link m :=
      fun m hm => Function.update_of_ne hm _ _
    refine h.of_act rfl rfl rfl hothers ?_ ?_ (h.sound c) ?_
    · show false = ((N.relink c none).link c).isSome
      rw [hself]
      rfl
    · intro hsome
      have hsome' : ((N.relink c none).link c).isSome = true := hsome
      rw [hself] at hsome'
      cases hsome'
    · intro p c' hchild
      show LinkOk c' ((N.relink c none).link c') _ (Function.update N.table c (N.table c) p)[c']?
        {id | id ∈ announced (Function.update N.table c (N.table c) c')}
      rw [Function.update_eq_self]
      have hold := h.links p c' hchild
      by_cases hc : c' = c
      · subst hc
        rw [hlink] at hold
        rw [queue_act_of_nothing rfl, hself]
        show LinkOk c' none (Function.update N.queue c' _ c') _ _
        rw [Function.update_self]
        exact hold.disconnect
      · rw [queue_act_ne hc, hothers c' hc]
        show LinkOk c' _ (Function.update N.queue c _ c') _ _
        rw [Function.update_of_ne hc]
        exact hold

/-- There is a parent to tell exactly where there is a connection. -/
theorem told_iff (h : TreeInv T N) (n : Int) : Told (N.nodes n) ↔ (N.link n).isSome = true := by
  unfold Told
  rw [h.connected n]
  refine ⟨fun htold => htold.2, fun hlink => ⟨?_, hlink⟩⟩
  exact h.level n (h.rooted n hlink)

/-- The table of `p` with a new entry of `c` fits the tree, and announces what it did before. -/
theorem insert_entry (h : TreeInv T N) (hchild : T.Child p c) {m' : MatrixInfo} (hid : m'.mId = c)
    (hset : ∀ id ∈ m'.mChildset, id ∈ N.said c)
    (hold : ∀ m, (N.table p)[c]? = some m → m.mChildset = ∅) :
    Sound T p ((N.table p).insert c m') ∧ ∀ id ∈ N.said p, id ∈ announced ((N.table p).insert c m') := by
  constructor
  · intro c' m hm
    rw [Std.ExtTreeMap.getElem?_insert] at hm
    by_cases hc : compare c c' = .eq
    · rw [if_pos hc, Option.some.injEq] at hm
      rw [← hm, ← Std.LawfulEqCmp.compare_eq_iff_eq.mp hc]
      exact ⟨hid, hchild, fun id hmem => h.said_below (hset id hmem)⟩
    · rw [if_neg hc] at hm
      exact h.sound p c' m hm
  · intro id hmem
    obtain ⟨c', m, hm, hin⟩ := mem_announced.mp hmem
    by_cases hc : c' = c
    · subst hc
      refine mem_announced.mpr ⟨c', m', Std.ExtTreeMap.getElem?_insert_self, Or.inl ?_⟩
      rcases hin with rfl | hin
      · rw [(h.sound p c' m hm).1, hid]
      · rw [hold m hm] at hin
        exact absurd hin Std.ExtTreeSet.not_mem_empty
    · refine mem_announced.mpr ⟨c', m, ?_, hin⟩
      rw [Std.ExtTreeMap.getElem?_insert, if_neg (IntMap.compare_ne hc)]
      exact hm

/-- What a `REGISTER` on the way does to the parent's table: a new entry, or a fault. -/
theorem register_end (h : TreeInv T N) (hchild : T.Child p c) {request : AgentRequest}
    (hmem : .register request ∈ N.queue c fd) :
    (∃ m', m'.mId = c ∧ m'.mChildset = listed request.mContent ∧
        (((N.table p)[c]? = none ∧ m'.mFd = fd) ∨
          ∃ m, (N.table p)[c]? = some m ∧ m.mChildset = ∅ ∧ m'.mFd = m.mFd) ∧
        (N.nodes p).registerChild fd request =
          .ok { N.nodes p with mChildMatrixs := (N.table p).insert c m' }) ∨
      (∃ m, (N.table p)[c]? = some m ∧ m.mChildset ≠ ∅) ∧
        (N.nodes p).registerChild fd request = .error .badIterator := by
  have hreq := (h.links p c hchild).announces fd request hmem
  have hend := registerChild_end (N.nodes p) fd request
  generalize (N.nodes p).registerChild fd request = r at hend ⊢
  rw [← hreq.mFrom] at *
  cases hend with
  | first _ hnew =>
    refine Or.inl ⟨⟨request.mFrom, fd, listed request.mContent⟩, rfl, rfl, Or.inl ⟨?_, rfl⟩, rfl⟩
    exact Std.ExtTreeMap.getElem?_eq_none hnew
  | @again m _ hm hset =>
    refine Or.inl ⟨⟨m.mId, m.mFd, listed request.mContent⟩, ?_, rfl, Or.inr ⟨m, hm, hset, rfl⟩, rfl⟩
    exact (h.sound p _ m hm).1
  | clears _ hm hset => exact Or.inr ⟨⟨_, hm, hset⟩, rfl⟩
  | gone hexp => exact absurd hreq.expire hexp

/-- **A `REGISTER` is read.** -/
theorem register_ok_iff (h : TreeInv T N) (hchild : T.Child p c) {request : AgentRequest}
    (hmem : .register request ∈ N.queue c fd) :
    (∃ s out, (N.nodes p).onRegister env fd request = .ok (s, out)) ↔
      ∀ m, (N.table p)[c]? = some m → m.mChildset = ∅ := by
  have hreq := (h.links p c hchild).announces fd request hmem
  simp only [onRegister_ok_iff hreq.method]
  rcases h.register_end hchild hmem with ⟨m', hid, hset, hentry, hok⟩ | ⟨⟨m, hm, hne⟩, herror⟩
  · have hold : ∀ m, (N.table p)[c]? = some m → m.mChildset = ∅ := by
      intro m hm
      rcases hentry with ⟨hnone, -⟩ | ⟨m₁, hm₁, hempty, -⟩
      · rw [hnone] at hm
        cases hm
      · rw [hm, Option.some.injEq] at hm₁
        rw [hm₁]
        exact hempty
    refine iff_of_true ?_ hold
    have hsets : ∀ id ∈ m'.mChildset, id ∈ N.said c := by
      rw [hset]
      exact hreq.lists
    have hfits := (h.insert_entry hchild hid hsets hold).1.fits
    by_cases htold : Told (N.nodes p)
    · exact ⟨_, _, hok, Or.inl ⟨htold, hfits, rfl⟩⟩
    · exact ⟨_, _, hok, Or.inr ⟨htold, rfl⟩⟩
  · refine iff_of_false ?_ fun hall => hne (hall m hm)
    rintro ⟨s, out, hok, -⟩
    rw [herror] at hok
    cases hok

theorem register (h : TreeInv T N) (hchild : T.Child p c) {request : AgentRequest} {items : List LinkItem}
    (hq : N.queue c fd = .register request :: items) {s : ResourceManager Q} {out : List Action}
    (hok : (N.nodes p).onRegister env fd request = .ok (s, out)) : TreeInv T ((N.rest c fd items).act p s out) := by
  have hmem : .register request ∈ N.queue c fd := by
    rw [hq]
    exact List.mem_cons_self
  have hreq := (h.links p c hchild).announces fd request hmem
  have hne : c ≠ p := hchild.below.ne.symm
  have hold := (h.register_ok_iff hchild hmem).mp ⟨s, out, hok⟩
  obtain ⟨hchildOk, hout⟩ := (onRegister_ok_iff hreq.method).mp hok
  rcases h.register_end hchild hmem with ⟨m', hid, hset, hentry, hs⟩ | ⟨-, herror⟩
  · rw [hs] at hchildOk
    cases hchildOk
    have hsets : ∀ id ∈ m'.mChildset, id ∈ N.said c := by
      rw [hset]
      exact hreq.lists
    obtain ⟨hsound, hgrows⟩ := h.insert_entry hchild hid hsets hold
    refine h.of_act rfl rfl rfl (fun _ _ => rfl) (h.connected p) (h.rooted p) hsound ?_
    intro p' c' hchild'
    have hlink := h.links p' c' hchild'
    by_cases hc : c' = c
    · -- the link the `REGISTER` came on
      subst hc
      have hp : p' = p := Option.some.inj ((show T.parent c' = some p' from hchild').symm.trans hchild)
      subst hp
      rw [Function.update_self, Function.update_of_ne hne, queue_act_ne hne]
      show LinkOk c' (N.link c') (Function.update N.queue c' _ c') ((N.table p').insert c' m')[c']? (N.said c')
      rw [Function.update_self, Std.ExtTreeMap.getElem?_insert_self]
      exact hlink.register hq hset hentry
    · have hqueue : (N.rest c fd items).queue c' = N.queue c' := Function.update_of_ne hc _ _
      by_cases hcp : c' = p
      · -- the parent's own link
        subst hcp
        have hpp : p' ≠ c' := hchild'.below.ne
        rw [Function.update_self, Function.update_of_ne hpp]
        show LinkOk c' (N.link c') _ _ _
        cases hlinkp : N.link c' with
        | none =>
          rw [hlinkp] at hlink
          rw [queue_act_of_none (show (N.rest c fd items).link c' = none from hlinkp), hqueue]
          exact hlink.grow hgrows
        | some fdp =>
          rw [hlinkp] at hlink
          rcases hout with ⟨-, -, rfl⟩ | ⟨hnot, -⟩
          · rw [queue_act_of_some (show (N.rest c fd items).link c' = some fdp from hlinkp), hqueue]
            have hann := announces (s := { N.nodes c' with mChildMatrixs := (N.table c').insert c m' })
              (h.ids c') env
            exact hlink.say (Or.inl rfl) hann hgrows (fun _ hid => (mem_listed_announcement env _).mpr hid)
          · refine absurd ((h.told_iff c').mpr ?_) hnot
            rw [hlinkp]
            rfl
      · rw [Function.update_of_ne hcp, queue_act_ne hcp, hqueue]
        have hentry' : (Function.update N.table p ((N.table p).insert c m') p')[c']? = (N.table p')[c']? := by
          by_cases hp : p' = p
          · rw [hp, Function.update_self, Std.ExtTreeMap.getElem?_insert, if_neg (IntMap.compare_ne hc)]
          · rw [Function.update_of_ne hp]
        show LinkOk c' (N.link c') (N.queue c') (Function.update N.table p ((N.table p).insert c m') p')[c']?
          (N.said c')
        rw [hentry']
        exact hlink
  · rw [herror] at hchildOk
    cases hchildOk

/-- **The end of a connection is read.** -/
theorem close (h : TreeInv T N) (hchild : T.Child p c) {items : List LinkItem}
    (hq : N.queue c fd = .closed :: items) {s : ResourceManager Q} {out : List Action}
    (hok : (N.nodes p).onDisconnect fd = .ok (s, out)) : TreeInv T ((N.rest c fd items).act p s out) := by
  obtain ⟨hnone, rfl, rfl⟩ := onDisconnect_ok_iff.mp hok
  refine h.of_act rfl rfl rfl (fun _ _ => rfl) (h.connected p) (h.rooted p) (h.sound p) ?_
  intro p' c' hchild'
  show LinkOk c' (N.link c') _ (Function.update N.table p (N.table p) p')[c']?
    {id | id ∈ announced (Function.update N.table p (N.table p) c')}
  have hqueue : ((N.rest c fd items).act p (N.nodes p) []).queue c' = (N.rest c fd items).queue c' := by
    by_cases hcp : c' = p
    · subst hcp
      exact queue_act_of_nothing rfl
    · exact queue_act_ne hcp
  rw [Function.update_eq_self, hqueue]
  have hlink := h.links p' c' hchild'
  by_cases hc : c' = c
  · subst hc
    have hp : p' = p := Option.some.inj ((show T.parent c' = some p' from hchild').symm.trans hchild)
    subst hp
    show LinkOk c' (N.link c') (Function.update N.queue c' _ c') _ _
    rw [Function.update_self]
    exact hlink.close hq (fun m hm => hnone c' m hm)
  · show LinkOk c' (N.link c') (Function.update N.queue c _ c') _ _
    rw [Function.update_of_ne hc]
    exact hlink

/-- **Every event keeps the invariant.** -/
theorem handle (h : TreeInv T N) {ev : TreeEvent} (hN : N.handle T ev = .ok N') : TreeInv T N' := by
  cases ev with
  | connect env c fd =>
    by_cases hfree : (T.parent c).isSome = true ∧ (N.link c).isNone = true ∧ (N.queue c fd).isEmpty = true
    · exact h.connect hfree hN
    · have hN' : (if _ then _ else Except.ok N) = .ok N' := hN
      rw [if_neg hfree] at hN'
      cases hN'
      exact h
  | disconnect c => exact h.disconnect hN
  | deliver env c fd =>
    unfold TreeNet.handle at hN
    cases hp : T.parent c with
    | none =>
      simp only [hp] at hN
      cases hN
      exact h
    | some p =>
      cases hq : N.queue c fd with
      | nil =>
        simp only [hp, hq] at hN
        cases hN
        exact h
      | cons item items =>
        cases item with
        | register request =>
          simp only [hp, hq] at hN
          obtain ⟨⟨s, out⟩, hok, hN⟩ := bind_eq_ok hN
          cases hN
          exact h.register hp hq hok
        | closed =>
          simp only [hp, hq] at hN
          obtain ⟨⟨s, out⟩, hok, hN⟩ := bind_eq_ok hN
          cases hN
          exact h.close hp hq hok

/-- **An event is handled without a fault exactly if it is allowed.** -/
theorem handle_iff (h : TreeInv T N) (ev : TreeEvent) : (∃ N', N.handle T ev = .ok N') ↔ Allowed T N ev := by
  cases ev with
  | connect env c fd =>
    refine iff_of_true ?_ trivial
    by_cases hfree : (T.parent c).isSome = true ∧ (N.link c).isNone = true ∧ (N.queue c fd).isEmpty = true
    · exact ⟨_, h.connect_eq hfree⟩
    · exact ⟨N, if_neg hfree⟩
  | disconnect c =>
    refine iff_of_true ?_ trivial
    unfold TreeNet.handle
    cases hlink : N.link c with
    | none =>
      simp only [hlink]
      exact ⟨N, rfl⟩
    | some fd =>
      simp only [hlink]
      exact ⟨_, rfl⟩
  | deliver env c fd =>
    unfold TreeNet.handle Allowed
    cases hp : T.parent c with
    | none =>
      simp only [hp]
      exact iff_of_true ⟨N, rfl⟩ (fun p item items hc => by cases hc)
    | some p =>
      cases hq : N.queue c fd with
      | nil =>
        simp only [hp, hq]
        exact iff_of_true ⟨N, rfl⟩ (fun p item items _ hc => by cases hc)
      | cons item items =>
        cases item with
        | register request =>
          have hmem : .register request ∈ N.queue c fd := by
            rw [hq]
            exact List.mem_cons_self
          have hiff : (∃ s out, (N.nodes p).onRegister env fd request = .ok (s, out)) ↔ _ :=
            h.register_ok_iff hp hmem
          simp only [hp, hq]
          constructor
          · rintro ⟨N', hN⟩ p' item' items' ⟨⟩ ⟨⟩
            obtain ⟨⟨s, out⟩, hok, -⟩ := bind_eq_ok hN
            exact hiff.mp ⟨s, out, hok⟩
          · intro hall
            obtain ⟨s, out, hok⟩ := hiff.mpr (hall p _ items rfl rfl)
            rw [hok]
            exact ⟨_, rfl⟩
        | closed =>
          simp only [hp, hq]
          constructor
          · rintro ⟨N', hN⟩ p' item' items' ⟨⟩ ⟨⟩
            obtain ⟨⟨s, out⟩, hok, -⟩ := bind_eq_ok hN
            exact (onDisconnect_ok_iff.mp hok).1
          · intro hall
            have hok := onDisconnect_ok_iff.mpr ⟨hall p _ items rfl rfl, rfl, rfl⟩
            rw [hok]
            exact ⟨_, rfl⟩

/-! ## Agreement -/

/-- In a table that fits the tree, `matchMatrix` yields the one entry that is or lists the matrix. -/
theorem matchMatrix_eq_some_iff (h : TreeInv T N) {n m : Int} {info : MatrixInfo} :
    (N.nodes n).matchMatrix m = some info ↔
      ∃ c : Int, (N.table n)[c]? = some info ∧ (m = info.mId ∨ m ∈ info.mChildset) := by
  have hfound : ∀ {info : MatrixInfo}, (N.nodes n).matchMatrix m = some info →
      ∃ c : Int, (N.table n)[c]? = some info ∧ (m = info.mId ∨ m ∈ info.mChildset) := by
    intro info hsome
    have hmem := List.mem_of_find?_eq_some hsome
    have hp := List.find?_some hsome
    obtain ⟨⟨c, info'⟩, hin, rfl⟩ := List.mem_map.mp hmem
    refine ⟨c, Std.ExtTreeMap.mem_toList_iff_getElem?_eq_some.mp hin, ?_⟩
    simp only [Bool.or_eq_true, decide_eq_true_eq, MatrixInfo.hasChild,
      Std.ExtTreeSet.contains_iff_mem] at hp
    exact hp.imp Eq.symm id
  refine ⟨hfound, ?_⟩
  rintro ⟨c, hc, hin⟩
  cases hsome : (N.nodes n).matchMatrix m with
  | none =>
    have hnot := List.find?_eq_none.mp hsome info
      (List.mem_map.mpr ⟨(c, info), Std.ExtTreeMap.mem_toList_iff_getElem?_eq_some.mpr hc, rfl⟩)
    refine absurd ?_ hnot
    simp only [Bool.or_eq_true, decide_eq_true_eq, MatrixInfo.hasChild, Std.ExtTreeSet.contains_iff_mem]
    exact hin.imp Eq.symm id
  | some info' =>
    -- the matrix is at or below both children, so they are the same
    obtain ⟨c', hc', hin'⟩ := hfound hsome
    obtain ⟨hid, hchild, hbelow⟩ := h.sound n c info hc
    obtain ⟨hid', hchild', hbelow'⟩ := h.sound n c' info' hc'
    have hsame : c' = c := by
      refine Forest.Child.unique (m := m) hchild' hchild ?_ ?_
      · exact hin'.imp (fun he => he.trans hid') (hbelow' m)
      · exact hin.imp (fun he => he.trans hid) (hbelow m)
    rw [← hc', ← hc, hsame]

/-- Where nothing is on its way, an entry is there for exactly the connected children, and lists what they
    announce. -/
theorem entry_iff (h : TreeInv T N) (hquiet : N.Quiescent) {n c : Int} {info : MatrixInfo} :
    (N.table n)[c]? = some info →
      info.mId = c ∧ N.Linked T n c ∧ ∀ id, id ∈ info.mChildset ↔ id ∈ N.said c := by
  intro hinfo
  obtain ⟨hid, hchild, -⟩ := h.sound n c info hinfo
  rcases (h.links n c hchild).settled (hquiet c) with ⟨-, hnone⟩ | ⟨hlink, m, hm, hset⟩
  · rw [hnone] at hinfo
    cases hinfo
  · rw [hinfo, Option.some.injEq] at hm
    subst hm
    exact ⟨hid, ⟨hchild, hlink⟩, hset⟩

theorem exists_entry (h : TreeInv T N) (hquiet : N.Quiescent) {n c : Int} (hlinked : N.Linked T n c) :
    ∃ info, (N.table n)[c]? = some info := by
  rcases (h.links n c hlinked.1).settled (hquiet c) with ⟨hnone, -⟩ | ⟨-, m, hm, -⟩
  · have hlink := hlinked.2
    rw [hnone] at hlink
    cases hlink
  · exact ⟨m, hm⟩

/-- What a manager announces is what is connected below it. -/
theorem said_iff (h : TreeInv T N) (hquiet : N.Quiescent) (n m : Int) :
    m ∈ N.said n ↔ N.ConnectedBelow T n m := by
  refine Forest.mem_iff_transGen (F := T.toForest) (S := N.said) ?_ ?_ ?_ n m
  · intro n m
    show m ∈ announced (N.table n) ↔ _
    rw [mem_announced]
    constructor
    · rintro ⟨c, info, hinfo, hin⟩
      obtain ⟨hid, hlinked, hset⟩ := h.entry_iff hquiet hinfo
      exact ⟨c, hlinked, hin.imp (fun he => he.trans hid) (hset m).mp⟩
    · rintro ⟨c, hlinked, hin⟩
      obtain ⟨info, hinfo⟩ := h.exists_entry hquiet hlinked
      obtain ⟨hid, -, hset⟩ := h.entry_iff hquiet hinfo
      exact ⟨c, info, hinfo, hin.imp (fun he => he.trans hid.symm) (hset m).mpr⟩
  · intro n d hlinked
    exact Forest.Below.depth_lt (Forest.Child.below hlinked.1)
  · intro n m hm
    exact (h.said_below hm).depth_lt

/-- **Where nothing is on its way, the managers agree with the tree.** -/
theorem agrees (h : TreeInv T N) (hquiet : N.Quiescent) : N.Agrees T where
  child := by
    intro n c m
    constructor
    · rintro ⟨info, hinfo, hmatch⟩
      obtain ⟨hid, hlinked, hset⟩ := h.entry_iff hquiet hinfo
      obtain ⟨-, -, hin⟩ := h.matchMatrix_eq_some_iff.mp hmatch
      refine ⟨hlinked, hin.imp (fun he => he.trans hid) ?_⟩
      intro hm
      exact (h.said_iff hquiet c m).mp ((hset m).mp hm)
    · rintro ⟨hlinked, hm⟩
      obtain ⟨info, hinfo⟩ := h.exists_entry hquiet hlinked
      obtain ⟨hid, -, hset⟩ := h.entry_iff hquiet hinfo
      refine ⟨info, hinfo, h.matchMatrix_eq_some_iff.mpr ⟨c, hinfo, ?_⟩⟩
      refine hm.imp (fun he => he.trans hid.symm) ?_
      intro hbelow
      exact (hset m).mpr ((h.said_iff hquiet c m).mpr hbelow)
  none := by
    intro n m
    rw [← h.said_iff hquiet n m]
    show _ ↔ ¬ m ∈ announced (N.table n)
    rw [mem_announced, Option.eq_none_iff_forall_ne_some]
    constructor
    · rintro hnone ⟨c, info, hinfo, hin⟩
      exact hnone info (h.matchMatrix_eq_some_iff.mpr ⟨c, hinfo, hin⟩)
    · intro hnot info hmatch
      obtain ⟨c, hinfo, hin⟩ := h.matchMatrix_eq_some_iff.mp hmatch
      exact hnot ⟨c, info, hinfo, hin⟩

/-- The invariant along a schedule. -/
theorem foldlM {evs : List TreeEvent} : ∀ {N : TreeNet Q}, TreeInv T N →
    evs.foldlM (TreeNet.handle T) N = .ok N' → TreeInv T N' := by
  induction evs with
  | nil =>
    rintro N h ⟨⟩
    exact h
  | cons ev evs ih =>
    intro N h hN
    rw [List.foldlM_cons] at hN
    obtain ⟨N₁, hN₁, hN⟩ := bind_eq_ok hN
    exact ih (h.handle hN₁) hN

end TreeInv

/-- **When the managers agree with the tree.** Along a schedule no event faults, and wherever nothing is on its
    way the managers agree with the tree, exactly if every event is allowed where it happens. -/
theorem tree_agreement [PriorityQueue Q User] {T : MatrixTree} {N₀ : TreeNet Q} (h0 : N₀.Start T)
    (evs : List TreeEvent) :
    (∀ pre, pre <+: evs → ∃ N, pre.foldlM (handle T) N₀ = .ok N ∧ (N.Quiescent → N.Agrees T)) ↔
      ∀ pre ev N, pre ++ [ev] <+: evs → pre.foldlM (handle T) N₀ = .ok N → Allowed T N ev := by
  constructor
  · intro hall pre ev N hpre hN
    obtain ⟨N', hN', -⟩ := hall _ hpre
    rw [List.foldlM_append, hN] at hN'
    have hlast : [ev].foldlM (handle T) N = .ok N' := hN'
    rw [List.foldlM_cons] at hlast
    obtain ⟨N₁, hN₁, -⟩ := bind_eq_ok hlast
    exact ((h0.inv.foldlM hN).handle_iff ev).mp ⟨N₁, hN₁⟩
  · intro hall pre
    induction pre using List.reverseRecOn with
    | nil =>
      intro _
      exact ⟨N₀, rfl, h0.inv.agrees⟩
    | append_singleton pre ev ih =>
      intro hpre
      obtain ⟨N, hN, -⟩ := ih ((List.prefix_append _ _).trans hpre)
      have hinv := h0.inv.foldlM hN
      obtain ⟨N', hN'⟩ := (hinv.handle_iff ev).mpr (hall pre ev N hpre hN)
      refine ⟨N', ?_, (hinv.handle hN').agrees⟩
      rw [List.foldlM_append, hN]
      show (handle T N ev >>= _) = _
      rw [hN']
      rfl

/-- Matrix 2 under matrix 1. -/
def twoMatrices : MatrixTree where
  parent c := if c = 2 then some 1 else none
  depth c := if c = 2 then 1 else 0
  depth_parent := by
    intro c p h
    by_cases hc : c = 2
    · rw [if_pos hc, Option.some.injEq] at h
      subst hc h
      rfl
    · rw [if_neg hc] at h
      cases h
  few := by
    intro n
    refine ⟨{2}, by decide, ?_⟩
    intro m hm
    have hparent : ∃ p : Int, (if m = 2 then some 1 else none) = some p := by
      cases hm with
      | single hc => exact ⟨n, hc⟩
      | @tail b _ _ hc => exact ⟨b, hc⟩
    by_cases hm2 : m = 2
    · exact Finset.mem_singleton.mpr hm2
    · obtain ⟨p, hp⟩ := hparent
      rw [if_neg hm2] at hp
      cases hp

/-- The two of them, and any other, as they start. -/
def freshNet : TreeNet (List User) where
  nodes n := configured 0 n 1 [4] [1] [(1, 2)]
  link _ := none
  queue _ _ := []

theorem freshNet_start (T : MatrixTree) : freshNet.Start T where
  initial _ := configured_initial (List.cons_ne_nil _ _)
  ids _ := rfl
  level _ _ := Int.one_ne_zero
  link _ := rfl
  queue _ _ := rfl

/-- Matrix 2 connects to matrix 1, which reads its `REGISTER`. -/
theorem tree_agreement_of_connect :
    ∃ evs : List TreeEvent, evs.length = 2 ∧ ∀ pre, pre <+: evs →
      ∃ N, pre.foldlM (handle twoMatrices) freshNet = .ok N ∧ (N.Quiescent → N.Agrees twoMatrices) := by
  refine ⟨[.connect (Env.at 100) 2 5, .deliver (Env.at 101) 2 5], rfl,
    (tree_agreement (freshNet_start _) _).mpr ?_⟩
  intro pre ev N hpre hN
  rcases pre with - | ⟨a, - | ⟨b, pre⟩⟩
  · obtain ⟨rfl, -⟩ := List.cons_prefix_cons.mp hpre
    trivial
  · obtain ⟨rfl, htail⟩ := List.cons_prefix_cons.mp hpre
    obtain ⟨rfl, -⟩ := List.cons_prefix_cons.mp htail
    cases hN
    rintro p item items ⟨⟩ ⟨⟩ m hm
    have hm' : (∅ : IntMap MatrixInfo)[(2 : Int)]? = some m := hm
    rw [Std.ExtTreeMap.getElem?_empty] at hm'
    cases hm'
  · have hlen := hpre.length_le
    simp at hlen

/-- Matrix 2 connects, registers and disconnects: matrix 1 advances the iterator it has erased. -/
theorem departure_faults :
    ¬ ∀ (T : MatrixTree) (N₀ : TreeNet (List User)) (evs : List TreeEvent), N₀.Start T →
      ∀ pre, pre <+: evs → ∃ N, pre.foldlM (handle T) N₀ = .ok N ∧ (N.Quiescent → N.Agrees T) := by
  intro h
  obtain ⟨N, hN, -⟩ := h twoMatrices freshNet [.connect (Env.at 100) 2 5, .deliver (Env.at 101) 2 5,
    .disconnect 2, .deliver (Env.at 102) 2 5] (freshNet_start _) _ (List.prefix_refl _)
  cases hN

end TreeNet

end Mcc
