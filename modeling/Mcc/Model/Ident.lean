import Mathlib

/-!
# `Model.Ident` — global ids, users and the surroundings of a call

The values every component shares: `MCCGlobalID` with its comparison operators, `MCCUser` with its expiry
time, `MCCKeyboardMessage`, and `Env`, what one call takes from outside (the clock, `rand()`, memory that
was never written).

`int` and `time_t` are `Int`: nothing here computes with them beyond one addition to a clock reading.
-/

namespace Mcc

/-! ## `MCCGlobalID` -/

/-- `MCCGlobalID`: the id of a camera or a user, qualified by the matrix it belongs to. -/
structure GlobalID where
  mid : Int
  lid : Int
deriving DecidableEq, Repr

namespace GlobalID

/-- `MCCGlobalID::NullID`. -/
def nullID : GlobalID := ⟨-1, -1⟩

/-- `operator>`. -/
def Gt (a b : GlobalID) : Prop := a.mid > b.mid ∨ (a.mid = b.mid ∧ a.lid > b.lid)

/-- `operator<`. -/
def Lt (a b : GlobalID) : Prop := a.mid < b.mid ∨ (a.mid = b.mid ∧ a.lid < b.lid)

instance (a b : GlobalID) : Decidable (Gt a b) := inferInstanceAs (Decidable (_ ∨ _))
instance (a b : GlobalID) : Decidable (Lt a b) := inferInstanceAs (Decidable (_ ∨ _))

/-- The operators make the ids a linear order: `operator<=` is `!(*this > id)`. -/
instance : LinearOrder GlobalID where
  le a b := ¬ Gt a b
  lt a b := Lt a b
  le_refl a := by simp [Gt]
  le_trans a b c := by simp only [Gt]; omega
  le_antisymm a b hab hba := by
    cases a
    cases b
    simp only [Gt] at hab hba
    simp only [GlobalID.mk.injEq]
    omega
  le_total a b := by simp only [Gt]; omega
  lt_iff_le_not_ge a b := by simp only [Lt, Gt]; omega
  toDecidableLE a b := inferInstanceAs (Decidable (¬ Gt a b))
  toDecidableLT a b := inferInstanceAs (Decidable (Lt a b))

theorem lt_def {a b : GlobalID} : a < b ↔ a.mid < b.mid ∨ (a.mid = b.mid ∧ a.lid < b.lid) := Iff.rfl

end GlobalID

/-! ## Ways to fail -/

/-- Where the source stops or leaves defined behaviour. -/
inductive Fault where
  /-- `assert` -/
  | assertion
  /-- a null pointer or reference is read through -/
  | nullDeref
  /-- an array is indexed outside its bounds -/
  | outOfBounds
  /-- an iterator is used after its element was erased, or `end()` is dereferenced -/
  | badIterator
  /-- `top()` of an empty queue -/
  | emptyTop
deriving DecidableEq, Repr

/-! ## What a call takes from its surroundings -/

/-- One call's surroundings. `gettimeofday` is called afresh at every place that looks at the clock, so each
    place has its own reading; `junk` is what memory held that the call reads without having written it. -/
structure Env where
  /-- `purge i j`: the `j`-th `isExpired` made by `updateUsers` on trunk `i`. -/
  purge : ℕ → ℕ → Int
  /-- `isExpired` at the head of `processLocalPtz`, on a locked camera. -/
  lock : Int
  /-- The other `isExpired` of a call: is the holder of the monitor, or of the camera, expired. -/
  test : Int
  /-- `updateExpire`. -/
  update : Int
  /-- `rand()`, as the request builders call it. -/
  rand : Int
  junk : ℕ → Int

/-- Every reading of the call lies between `lo` and `hi`. -/
structure Env.Within (env : Env) (lo hi : Int) : Prop where
  purge : ∀ i j, lo ≤ env.purge i j ∧ env.purge i j ≤ hi
  lock : lo ≤ env.lock ∧ env.lock ≤ hi
  test : lo ≤ env.test ∧ env.test ≤ hi
  update : lo ≤ env.update ∧ env.update ≤ hi

/-- The clock does not run backwards during the call. -/
structure Env.Ordered (env : Env) : Prop where
  purge_test : ∀ i j, env.purge i j ≤ env.test
  lock_test : env.lock ≤ env.test
  test_update : env.test ≤ env.update

/-- The calls are made one after the other: no reading of `b` is older than the last one of `a`. -/
structure Env.Precedes (a b : Env) : Prop where
  purge : ∀ i j, a.update ≤ b.purge i j
  lock : a.update ≤ b.lock
  test : a.update ≤ b.test

/-- **Non-decreasing clock readings** over a sequence of calls. -/
structure Env.Chronological (envs : List Env) : Prop where
  ordered : ∀ e ∈ envs, e.Ordered
  precedes : envs.Pairwise Env.Precedes

/-- The calls between a first one and a last one are clocked between them. -/
theorem Env.Chronological.between {e late : Env} {mid : List Env}
    (h : Env.Chronological (e :: mid ++ [late])) {m : Env} (hm : m ∈ mid) :
    m.test ≤ late.test ∧ e.update ≤ m.update := by
  have hmem : m ∈ e :: mid ++ [late] := List.mem_append_left _ (List.mem_cons_of_mem _ hm)
  have hord := (h.ordered m hmem).test_update
  obtain ⟨hfirst, -, hlast⟩ := List.pairwise_append.mp h.precedes
  have hem : e.Precedes m := (List.pairwise_cons.mp hfirst).1 m hm
  have hml : m.Precedes late := hlast m (List.mem_cons_of_mem _ hm) late List.mem_cons_self
  exact ⟨le_trans hord hml.test, le_trans hem.test hord⟩

/-- Up to `d` after the first call, its expiry is no earlier than their tests and no later than theirs. -/
theorem Env.Chronological.meanwhile {e late : Env} {mid : List Env}
    (h : Env.Chronological (e :: mid ++ [late])) {d : Int} (hlate : late.test ≤ e.update + d) {m : Env}
    (hm : m ∈ mid) : m.test ≤ e.update + d ∧ e.update + d ≤ m.update + d := by
  obtain ⟨htest, hupdate⟩ := h.between hm
  exact ⟨le_trans htest hlate, by omega⟩

/-- A call all of whose readings are `now`. -/
def Env.at (now : Int) : Env :=
  { purge := fun _ _ => now, lock := now, test := now, update := now, rand := 0, junk := fun _ => 0 }

/-- Calls clocked one after the other by single readings are chronological. -/
theorem Env.chronological_at (nows : List Int) (h : nows.Pairwise (· ≤ ·)) :
    Env.Chronological (nows.map Env.at) := by
  constructor
  · intro e he
    obtain ⟨now, -, rfl⟩ := List.mem_map.mp he
    exact ⟨fun _ _ => le_refl _, le_refl _, le_refl _⟩
  · exact List.pairwise_map.mpr (h.imp fun hle => ⟨fun _ _ => hle, hle, hle⟩)

theorem Env.within_at {now lo hi : Int} (h : lo ≤ now) (h' : now ≤ hi) : (Env.at now).Within lo hi :=
  ⟨fun _ _ => ⟨h, h'⟩, ⟨h, h'⟩, ⟨h, h'⟩, ⟨h, h'⟩⟩

/-! ## `MCCUser` -/

inductive UserType where
  | keyboard
  | client
deriving DecidableEq, Repr

/-- `DEFAULT_EXPIRE`: how long a user keeps what it was granted, in seconds. -/
def defaultExpire : Int := 20

/-- `MCCUser`. -/
structure User where
  mId : GlobalID
  mType : UserType
  mExpire : Int
  mExpireTime : Int
deriving DecidableEq, Repr

namespace User

/-- `MCCUser(gid, t)`. The constructor leaves `mExpireTime` unwritten: it is what the memory held. -/
def new (gid : GlobalID) (t : UserType) (junk : Int) : User := ⟨gid, t, defaultExpire, junk⟩

/-- `MCCUser()`: the id is `MCCGlobalID()`, the expiry time again unwritten. -/
def default (junk : Int) : User := ⟨⟨-1, -1⟩, .keyboard, defaultExpire, junk⟩

/-- `updateExpire`, with the clock at `now`. -/
def updateExpire (u : User) (now : Int) : User := { u with mExpireTime := now + u.mExpire }

/-- `isExpired`, with the clock at `now`. -/
def isExpired (u : User) (now : Int) : Bool := decide (now > u.mExpireTime)

@[simp] theorem isExpired_iff {u : User} {now : Int} : u.isExpired now = true ↔ u.mExpireTime < now := by
  simp [isExpired]

@[simp] theorem isExpired_eq_false_iff {u : User} {now : Int} :
    u.isExpired now = false ↔ now ≤ u.mExpireTime := by
  simp [isExpired]

/-- Users compare by their ids only. -/
instance : LT User := ⟨fun u v => u.mId < v.mId⟩

theorem lt_def {u v : User} : u < v ↔ u.mId < v.mId := Iff.rfl

instance (u v : User) : Decidable (u < v) := inferInstanceAs (Decidable (u.mId < v.mId))

end User

/-! ## `MCCKeyboardMessage` -/

inductive KBMsgType where
  | unknown
  | switch
  | ptz
  | pin
deriving DecidableEq, Repr

/-- `MCCKeyboardMessage`, as far as anything reads it (`seq` and `cached_cmd` are only printed). -/
structure KeyboardMessage where
  type : KBMsgType
  keyboardId : Int
  cameraId : GlobalID
  monitorId : Int
  leftUpMonitorId : Int
  rightDownMonitorId : Int
  ptzOptType : Int
  ptzOptVstep : Int
  ptzOptHstep : Int
  /-- 0-ignore 1-lock 2-unlock -/
  lockResource : Int
deriving DecidableEq, Repr

/-- `MCCKeyboardMessage()`. -/
def KeyboardMessage.new : KeyboardMessage :=
  { type := .unknown, keyboardId := 0, cameraId := ⟨-1, -1⟩, monitorId := 0, leftUpMonitorId := 0,
    rightDownMonitorId := 0, ptzOptType := 0, ptzOptVstep := 0, ptzOptHstep := 0, lockResource := 0 }

end Mcc
