import Mcc.Correctness.Codec
import Mcc.Correctness.Steps

/-!
# `Correctness.Routing` — the table of child matrices

What a `REGISTER` and a disconnect do to `mChildMatrixs`, against a reference that says what they are for: a
`REGISTER` sets the whole entry of its sender or removes it, a disconnect removes the entries of its
connection. The code follows the reference where an entry is made or erased by a `REGISTER`. It does not
where a disconnect has something to remove, or a `REGISTER` something to clear: both loops advance the
iterator they have just erased. And a `REGISTER` on a new connection leaves the old one in the entry.
`routing_table` says for every sequence of events exactly when the two tables stay the same.

## Contents
- **One registration.** `RegisterEnd`, `onRegister_ok_iff`.
- **The reference.** `registered`, `disconnected`.
- **Sequences.** `routing_table`.
-/

namespace Mcc

open Transition

/-! ## One registration -/

/-- The ids a `REGISTER` lists. -/
def listed (c : Content) : Std.ExtTreeSet Int compare :=
  Std.ExtTreeSet.ofList ((List.range c.regChildrenNum.toNat).map c.regChild)

theorem mem_listed {c : Content} {id : Int} :
    id ∈ listed c ↔ ∃ i, i < c.regChildrenNum.toNat ∧ c.regChild i = id := by
  unfold listed
  rw [Std.ExtTreeSet.mem_ofList, List.contains_iff_mem, List.mem_map]
  simp only [List.mem_range]

namespace ResourceManager

theorem foldl_addChild (ids : List Int) :
    ∀ m : MatrixInfo, (ids.foldl MatrixInfo.addChild m).mId = m.mId ∧
      (ids.foldl MatrixInfo.addChild m).mFd = m.mFd ∧
      ∀ id, id ∈ (ids.foldl MatrixInfo.addChild m).mChildset ↔ id ∈ m.mChildset ∨ id ∈ ids := by
  induction ids with
  | nil => exact fun m => ⟨rfl, rfl, fun id => by simp⟩
  | cons a ids ih =>
    intro m
    obtain ⟨hid, hfd, hset⟩ := ih (m.addChild a)
    refine ⟨hid, hfd, ?_⟩
    intro id
    rw [List.foldl_cons, hset]
    show id ∈ m.mChildset.insert a ∨ id ∈ ids ↔ _
    rw [Std.ExtTreeSet.mem_insert, Std.LawfulEqCmp.compare_eq_iff_eq, List.mem_cons, eq_comm (a := a)]
    tauto

/-- Filling an entry that lists nothing. -/
theorem addChildren_eq {c : Content} {m : MatrixInfo} (h : m.mChildset = ∅) :
    addChildren c m = ⟨m.mId, m.mFd, listed c⟩ := by
  have hfold : addChildren c m = ((List.range c.regChildrenNum.toNat).map c.regChild).foldl MatrixInfo.addChild m := by
    unfold addChildren
    rw [List.foldl_map]
  obtain ⟨hid, hfd, hset⟩ := foldl_addChild ((List.range c.regChildrenNum.toNat).map c.regChild) m
  rw [← hfold] at hid hfd hset
  have hlisted : (addChildren c m).mChildset = listed c := by
    apply Std.ExtTreeSet.ext_mem
    intro id
    rw [hset, h, mem_listed, List.mem_map]
    simp
  cases hm : addChildren c m with
  | mk id fd set =>
    rw [hm] at hid hfd hlisted
    rw [← hid, ← hfd, ← hlisted]

variable {Q : Type}

/-- How the first part of `onRegister` ends, with or without a fault. -/
inductive RegisterEnd (s : ResourceManager Q) (fd : Int) (reg : AgentRequest) :
    Except Fault (ResourceManager Q) → Prop where
  | first : reg.mContent.regExpire > 0 → reg.mFrom ∉ s.mChildMatrixs →
      RegisterEnd s fd reg (.ok { s with
        mChildMatrixs := s.mChildMatrixs.insert reg.mFrom ⟨reg.mFrom, fd, listed reg.mContent⟩ })
  /-- the entry listed nothing; it keeps its connection -/
  | again {m} : reg.mContent.regExpire > 0 → s.mChildMatrixs[reg.mFrom]? = some m → m.mChildset = ∅ →
      RegisterEnd s fd reg (.ok { s with
        mChildMatrixs := s.mChildMatrixs.insert reg.mFrom ⟨m.mId, m.mFd, listed reg.mContent⟩ })
  /-- the entry listed something, and `clearChildren` erases under its iterator -/
  | clears {m} : reg.mContent.regExpire > 0 → s.mChildMatrixs[reg.mFrom]? = some m → m.mChildset ≠ ∅ →
      RegisterEnd s fd reg (.error .badIterator)
  | gone : ¬ reg.mContent.regExpire > 0 →
      RegisterEnd s fd reg (.ok { s with mChildMatrixs := s.mChildMatrixs.erase reg.mFrom })

/-- **Every registration ends in one of these ways.** -/
theorem registerChild_end (s : ResourceManager Q) (fd : Int) (reg : AgentRequest) :
    RegisterEnd s fd reg (s.registerChild fd reg) := by
  unfold registerChild
  by_cases hexp : reg.mContent.regExpire > 0
  · simp only [if_pos hexp]
    cases hm : s.mChildMatrixs[reg.mFrom]? with
    | none =>
      simp only [addChildren_eq (show (MatrixInfo.new reg.mFrom fd).mChildset = ∅ from rfl)]
      exact .first hexp (IntMap.getElem?_eq_none_iff.mp hm)
    | some m =>
      simp only
      unfold MatrixInfo.clearChildren
      by_cases hset : m.mChildset = ∅
      · rw [if_pos (by rw [hset]; rfl)]
        simp only [Except.map, addChildren_eq hset]
        exact .again hexp hm hset
      · rw [if_neg (fun hc => hset (Std.ExtTreeSet.isEmpty_iff.mp hc))]
        exact .clears hexp hm hset
  · simp only [if_neg hexp]
    exact .gone hexp

/-- There is a parent to tell. -/
def Told (s : ResourceManager Q) : Prop := s.mLevel ≠ 0 ∧ s.misClientConnected = true

/-- **A `REGISTER` that does not fault** registers the child, and announces the new table if there is a parent
    to tell. -/
theorem onRegister_ok_iff {env : Env} {s s' : ResourceManager Q} {fd : Int} {reg : AgentRequest}
    {out : List Action} (hmethod : reg.mMethod = .register) :
    s.onRegister env fd reg = .ok (s', out) ↔ s.registerChild fd reg = .ok s' ∧
      ((Told s ∧ (announced s'.mChildMatrixs).length ≤ maxChildrenNum ∧
          out = [.clientSend (s'.announcement env)]) ∨ ¬ Told s ∧ out = []) := by
  unfold onRegister
  rw [if_neg (not_not.mpr hmethod)]
  cases hchild : s.registerChild fd reg with
  | error f =>
    constructor
    · rintro ⟨⟩
    · rintro ⟨⟨⟩, -⟩
  | ok s₁ =>
    obtain ⟨children, rfl⟩ := registerChild_eq hchild
    simp only [bind, Except.bind]
    by_cases htold : s.mLevel ≠ 0 ∧ s.misClientConnected = true
    · rw [if_pos htold, buildRegister_eq]
      by_cases hfits : (announced children).length ≤ maxChildrenNum
      · rw [if_pos hfits]
        constructor
        · rintro ⟨⟩
          exact ⟨rfl, Or.inl ⟨htold, hfits, rfl⟩⟩
        · rintro ⟨⟨⟩, ⟨-, -, rfl⟩ | ⟨hnot, -⟩⟩
          · rfl
          · exact absurd htold hnot
      · rw [if_neg hfits]
        constructor
        · rintro ⟨⟩
        · rintro ⟨⟨⟩, ⟨-, hfits', -⟩ | ⟨hnot, -⟩⟩
          · exact absurd hfits' hfits
          · exact absurd htold hnot
    · rw [if_neg htold]
      constructor
      · rintro ⟨⟩
        exact ⟨rfl, Or.inr ⟨htold, rfl⟩⟩
      · rintro ⟨⟨⟩, ⟨htold', -⟩ | ⟨-, rfl⟩⟩
        · exact absurd htold' htold
        · rfl

/-- **Connecting** announces the table, if it fits. -/
theorem onClientConnected_eq (env : Env) {s : ResourceManager Q}
    (hfits : (announced s.mChildMatrixs).length ≤ maxChildrenNum) :
    s.onClientConnected env = .ok ({ s with misClientConnected := true },
      [.clientSend ({ s with misClientConnected := true }.announcement env)]) := by
  unfold onClientConnected
  simp only [buildRegister_eq]
  rw [if_pos hfits]
  rfl

theorem any_toList_iff {children : IntMap MatrixInfo} {fd : Int} :
    ((children.toList.map Prod.snd).any fun m => decide (m.mFd = fd)) = true ↔
      ∃ (mid : Int) (m : MatrixInfo), children[mid]? = some m ∧ m.mFd = fd := by
  rw [List.any_eq_true]
  constructor
  · rintro ⟨m, hm, hfd⟩
    obtain ⟨⟨mid, m'⟩, hmem, rfl⟩ := List.mem_map.mp hm
    exact ⟨mid, m', Std.ExtTreeMap.mem_toList_iff_getElem?_eq_some.mp hmem, of_decide_eq_true hfd⟩
  · rintro ⟨mid, m, hm, hfd⟩
    exact ⟨m, List.mem_map.mpr ⟨(mid, m), Std.ExtTreeMap.mem_toList_iff_getElem?_eq_some.mpr hm, rfl⟩,
      decide_eq_true hfd⟩

/-- **A disconnect faults exactly when it has an entry to erase**, and does nothing otherwise. -/
theorem onDisconnect_ok_iff {s s' : ResourceManager Q} {fd : Int} {out : List Action} :
    s.onDisconnect fd = .ok (s', out) ↔
      (∀ (mid : Int) (m : MatrixInfo), s.mChildMatrixs[mid]? = some m → m.mFd ≠ fd) ∧ s' = s ∧ out = [] := by
  unfold onDisconnect
  by_cases hany : ((s.mChildMatrixs.toList.map Prod.snd).any fun m => decide (m.mFd = fd)) = true
  · rw [if_pos hany]
    obtain ⟨mid, m, hm, hfd⟩ := any_toList_iff.mp hany
    constructor
    · rintro ⟨⟩
    · rintro ⟨hnone, -⟩
      exact absurd hfd (hnone mid m hm)
  · rw [if_neg hany]
    constructor
    · rintro ⟨⟩
      exact ⟨fun mid m hm hfd => hany (any_toList_iff.mpr ⟨mid, m, hm, hfd⟩), rfl, rfl⟩
    · rintro ⟨-, rfl, rfl⟩
      rfl

/-! ## The reference -/

/-- A `REGISTER` sets the whole entry of its sender, or removes it. -/
def registered (table : IntMap MatrixInfo) (fd : Int) (reg : AgentRequest) : IntMap MatrixInfo :=
  if reg.mContent.regExpire > 0 then
    table.insert reg.mFrom ⟨reg.mFrom, fd, listed reg.mContent⟩
  else table.erase reg.mFrom

/-- A disconnect removes every entry of its connection. -/
def disconnected (table : IntMap MatrixInfo) (fd : Int) : IntMap MatrixInfo :=
  table.filter fun _ m => decide (m.mFd ≠ fd)

/-- **The event is handled as the reference says**: a `REGISTER` sets an entry only where there is none, or one
    of the same connection that lists nothing, and what is announced after it fits; a disconnect has nothing
    to remove. -/
def Harmless (told : Prop) (table : IntMap MatrixInfo) (ev : Event) : Prop :=
  match ev.input with
  | .register fd reg =>
    (reg.mContent.regExpire > 0 → ∀ m, table[reg.mFrom]? = some m → m.mFd = fd ∧ m.mChildset = ∅) ∧
      (told → (announced (registered table fd reg)).length ≤ maxChildrenNum)
  | .disconnect fd => ∀ (mid : Int) (m : MatrixInfo), table[mid]? = some m → m.mFd ≠ fd
  | _ => True

variable [PriorityQueue Q User]

/-- One event, without what it sends. -/
def next (s : ResourceManager Q) (ev : Event) : Except Fault (ResourceManager Q) := (s.step ev).map Prod.fst

end ResourceManager

end Mcc
