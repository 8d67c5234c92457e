import Mcc.Lib.Transition
import Mcc.Model.ConfFile

/-!
# `Correctness.ConfFile` — what a configuration file means

A configuration is for a **store**: the values of the keys of each section (`IniConfig.store`). `memcmp` takes a text
that goes on from the new key for it, so setting a key may cost others: `edit_store_iff` says when a single edit does
what it does to the store, and `edits_track_iff` the same of a run of edits.

## Contents
- **Comparisons.** `coarse_memcmp`.
- **Edits.** The store, and what an edit does to it: `edit_store_iff`, `edits_track_iff`.
- **Insertions and deletions.** Any run of them goes with a map: `foldl_onTree`.
-/

namespace Mcc

namespace ConfFile

open SearchTree Transition Xml

/-! ## The comparisons -/

theorem memcmp_eq_iff {k p : Text} : memcmp k p = .eq ↔ k <+: p := by
  induction k generalizing p with
  | nil => simp [memcmp]
  | cons c k ih =>
    cases p with
    | nil => simp [memcmp]
    | cons d p =>
      rw [memcmp, List.cons_prefix_cons]
      rcases lt_trichotomy c d with hlt | rfl | hgt
      · simp [hlt, hlt.ne]
      · simp [ih]
      · simp [hgt, hgt.not_gt, hgt.ne']

theorem cons_lt_cons {c d : Char} {k p : Text} : c :: k < d :: p ↔ c < d ∨ c = d ∧ k < p :=
  List.cons_lt_cons_iff

theorem lt_of_memcmp_lt {k p : Text} (h : memcmp k p = .lt) : k < p := by
  induction k generalizing p with
  | nil => cases h
  | cons c k ih =>
    cases p with
    | nil => cases h
    | cons d p =>
      rw [memcmp] at h
      rw [cons_lt_cons]
      split_ifs at h with hlt hgt
      · exact Or.inl hlt
      · exact Or.inr ⟨le_antisymm (not_lt.mp hgt) (not_lt.mp hlt), ih h⟩

theorem lt_of_memcmp_gt {k p : Text} (h : memcmp k p = .gt) : p < k := by
  induction k generalizing p with
  | nil => cases h
  | cons c k ih =>
    cases p with
    | nil => exact List.nil_lt_cons c k
    | cons d p =>
      rw [memcmp] at h
      rw [cons_lt_cons]
      split_ifs at h with hlt hgt
      · exact Or.inl hgt
      · exact Or.inr ⟨le_antisymm (not_lt.mp hlt) (not_lt.mp hgt), ih h⟩

/-- A prefix of two texts is one of every text between. -/
theorem prefix_of_between {k q p : Text} (h : k <+: p) (hkq : k ≤ q) (hqp : q ≤ p) : k <+: q := by
  induction k generalizing q p with
  | nil => exact List.nil_prefix
  | cons c k ih =>
    cases p with
    | nil => simp at h
    | cons d p =>
    obtain ⟨rfl, hp⟩ := List.cons_prefix_cons.mp h
    cases q with
    | nil => exact absurd (List.nil_lt_cons c k) hkq.not_gt
    | cons e q =>
      rw [← not_lt, cons_lt_cons] at hkq hqp
      push Not at hkq hqp
      obtain rfl : c = e := le_antisymm hkq.1 hqp.1
      exact List.cons_prefix_cons.mpr ⟨rfl, ih hp (hkq.2 rfl) (hqp.2 rfl)⟩

/-- **`memcmp` takes the texts that go on from a key for it.** -/
theorem coarse_memcmp : Coarse memcmp where
  self k := memcmp_eq_iff.mpr (List.prefix_refl k)
  lt _ _ := lt_of_memcmp_lt
  gt _ _ := lt_of_memcmp_gt
  le _ _ h := not_lt.mp (List.IsPrefix.le (memcmp_eq_iff.mp h))
  between _ _ _ h hkq hqp := memcmp_eq_iff.mpr (prefix_of_between (memcmp_eq_iff.mp h) hkq hqp)
  trans _ _ _ h h' := memcmp_eq_iff.mpr ((memcmp_eq_iff.mp h).trans (memcmp_eq_iff.mp h'))

/-! ## Edits -/

/-- What a configuration is for: the keys of each section and their values. -/
abbrev Store := Text → Option (Text → Option Text)

/-- What the parser and the setters do to a configuration. -/
inductive Edit where
  | openSection (name : Text)
  | assign (name key value : Text)

namespace IniConfig

/-- The store a configuration stands for. -/
def store (config : IniConfig) : Store := fun name => (config.getSection name).map Btree.findNode

theorem store_apply (config : IniConfig) (name : Text) :
    config.store name = (config.getSection name).map Btree.findNode := rfl

def edit (config : IniConfig) : Edit → IniConfig
  | .openSection name => config.insertSection name
  | .assign name key value => config.setInSection name key value

end IniConfig

namespace Store

/-- A section is opened empty; a key is set in a section that is there. -/
def edit (s : Store) : Edit → Store
  | .openSection name => Function.update s name (some fun _ => none)
  | .assign name key value => Function.update s name ((s name).map fun sec => Function.update sec key (some value))

/-- The name is there already, or none that goes on from it; likewise the key. -/
def Harmless (s : Store) : Edit → Prop
  | .openSection name => (s name).isSome ∨ ∀ name', name <+: name' → s name' = none
  | .assign name key _ =>
    ∀ sec ∈ s name, (sec key).isSome ∨ ∀ key', key <+: key' → sec key' = none

variable {s : Store}

theorem edit_openSection (name : Text) : s.edit (.openSection name) = Function.update s name (some fun _ => none) := rfl

theorem edit_assign (name key value : Text) : s.edit (.assign name key value) =
    Function.update s name ((s name).map fun sec => Function.update sec key (some value)) := rfl

theorem harmless_assign (name key value : Text) : s.Harmless (.assign name key value) ↔
    ∀ sec ∈ s name, (sec key).isSome ∨ ∀ key', key <+: key' → sec key' = none := Iff.rfl

end Store

/-- How insertions leave a tree. -/
structure Btree.Sound {V : Type} (config : Btree V) : Prop where
  rightOrdered : RightOrdered config.root
  leftApart : LeftApart memcmp config.root
  numNodes : config.numNodes = config.root.size

namespace Btree

variable {V : Type} {config : Btree V}

theorem sound_create : Sound (create : Btree V) := ⟨trivial, trivial, rfl⟩

theorem root_insertNode (config : Btree V) (key : Text) (data : V) :
    (insertNode config key data).2.root = config.root.insert memcmp key data := by
  unfold insertNode
  split <;> rfl

/-- **The count goes with the nodes.** -/
theorem numNodes_insertNode (h : config.numNodes = config.root.size) (key : Text) (data : V) :
    (insertNode config key data).2.numNodes = (insertNode config key data).2.root.size := by
  rw [root_insertNode, size_insert, ← h, Btree.insertNode]
  split
  · next hnone =>
    rw [hnone]
    rfl
  · next hsome =>
    rw [hsome]
    rfl

theorem Sound.insertNode (h : Sound config) (key : Text) (data : V) : Sound (insertNode config key data).2 where
  rightOrdered := root_insertNode config key data ▸ h.rightOrdered.insert coarse_memcmp
  leftApart := root_insertNode config key data ▸ h.leftApart.insert coarse_memcmp
  numNodes := numNodes_insertNode h.numNodes key data

end Btree

namespace IniConfig

/-- How edits leave a configuration. -/
structure Sound (config : IniConfig) : Prop where
  sections : Btree.Sound config
  nodes : ∀ e ∈ config.root.entries, Btree.Sound e.2

variable {config : IniConfig}

theorem sound_create : Sound (Btree.create : IniConfig) := ⟨Btree.sound_create, by simp [Btree.create]⟩

theorem Sound.insertSection (h : Sound config) (name : Text) : Sound (config.insertSection name) where
  sections := h.sections.insertNode name Btree.create
  nodes := by
    intro e he
    rw [IniConfig.insertSection, Btree.root_insertNode] at he
    rcases mem_entries_insert he with rfl | he
    · exact Btree.sound_create
    · exact h.nodes e he

theorem Sound.setInSection (h : Sound config) (name key value : Text) : Sound (config.setInSection name key value) where
  sections := ⟨h.sections.rightOrdered.modify, h.sections.leftApart.modify, by
    rw [IniConfig.setInSection, size_modify, h.sections.numNodes]⟩
  nodes := by
    intro e he
    obtain ⟨e', he', -, hsame | ⟨-, hset⟩⟩ := mem_entries_modify he
    · rw [hsame]
      exact h.nodes e' he'
    · rw [hset]
      exact (h.nodes e' he').insertNode key value

/-- **Edits keep it.** -/
theorem Sound.edit (h : Sound config) (e : Edit) : Sound (config.edit e) := by
  cases e with
  | openSection name => exact h.insertSection name
  | assign name key value => exact h.setInSection name key value

theorem Sound.foldl_edit {es : List Edit} (h : Sound config) : Sound (es.foldl IniConfig.edit config) := by
  induction es generalizing config with
  | nil => exact h
  | cons e es ih => exact ih (h.edit e)

/-- A section that can be found is sound. -/
theorem Sound.getSection (h : Sound config) {name : Text} {sec : Btree Text} (hsec : config.getSection name = some sec) :
    Btree.Sound sec := h.nodes _ (mem_entries_of_find hsec)

end IniConfig

/-- Setting a key in one section. -/
theorem Btree.findNode_insertNode_iff {sec : Btree Text} (h : Btree.Sound sec) (key value : Text) :
    (sec.insertNode key value).2.findNode = Function.update sec.findNode key (some value) ↔
      (sec.findNode key).isSome ∨ ∀ key', key <+: key' → sec.findNode key' = none := by
  have hiff := @find_insert_iff_lookup _ _ _ memcmp key value sec.root _ id coarse_memcmp h.rightOrdered h.leftApart
  simp only [Option.map_id_fun, id_eq, memcmp_eq_iff] at hiff
  rw [funext_iff]
  unfold Btree.findNode
  simp only [Btree.root_insertNode, Function.update_apply]
  exact hiff

namespace IniConfig

variable {config : IniConfig}

theorem store_insertSection_iff (h : Sound config) (name : Text) :
    (config.insertSection name).store = config.store.edit (.openSection name) ↔
      config.store.Harmless (.openSection name) := by
  have hiff := @find_insert_iff_lookup _ _ _ memcmp name Btree.create config.root _ Btree.findNode coarse_memcmp
    h.sections.rightOrdered h.sections.leftApart
  have hempty : (Btree.create : Btree Text).findNode = fun _ => none := rfl
  simp only [memcmp_eq_iff, hempty] at hiff
  rw [funext_iff]
  unfold store getSection Btree.findNode Store.edit Store.Harmless insertSection
  simp only [Btree.root_insertNode, Function.update_apply, Option.isSome_map, Option.map_eq_none_iff]
  exact hiff

/-- The other sections stay, and the section keeps its place. -/
theorem getSection_setInSection (name key value name' : Text) : (config.setInSection name key value).getSection name' =
    if name' = name then (config.getSection name').map fun sec => (sec.insertNode key value).2
    else config.getSection name' := by
  unfold getSection setInSection Btree.findNode
  rw [find_modify]
  split_ifs <;> rfl

theorem store_setInSection_iff (h : Sound config) (name key value : Text) :
    (config.setInSection name key value).store = config.store.edit (.assign name key value) ↔
      config.store.Harmless (.assign name key value) := by
  rw [Store.edit_assign, Store.harmless_assign]
  cases hsec : config.getSection name with
  | none =>
    have hnone : config.store name = none := by rw [store_apply, hsec, Option.map_none]
    refine iff_of_true (funext fun name' => ?_) (by simp [hnone])
    rw [store_apply, getSection_setInSection, Function.update_apply]
    split_ifs with hname
    · rw [hname, hsec, hnone]
      rfl
    · rw [store_apply]
  | some sec =>
    have hsome : config.store name = some sec.findNode := by rw [store_apply, hsec, Option.map_some]
    have hiff := Btree.findNode_insertNode_iff (h.getSection hsec) key value
    simp only [hsome, Option.map_some, Option.mem_some_iff, forall_eq']
    rw [← hiff]
    constructor
    · intro hstore
      have hname := congrFun hstore name
      rw [store_apply, getSection_setInSection, if_pos rfl, hsec, Function.update_self] at hname
      exact Option.some.inj hname
    · intro hkeys
      funext name'
      rw [store_apply, getSection_setInSection, Function.update_apply]
      split_ifs with hname
      · rw [hname, hsec]
        exact congrArg some hkeys
      · rw [store_apply]

/-- **Exact condition.** An edit does to the configuration what it does to the store. -/
theorem edit_store_iff (h : Sound config) (e : Edit) :
    (config.edit e).store = config.store.edit e ↔ config.store.Harmless e := by
  cases e with
  | openSection name => exact store_insertSection_iff h name
  | assign name key value => exact store_setInSection_iff h name key value

/-- **A run of edits** goes with the store as long as each is harmless for the store the ones before leave. -/
theorem edits_track_iff (h : Sound config) (es : List Edit) :
    (∀ pre, pre <+: es → (pre.foldl edit config).store = pre.foldl Store.edit config.store) ↔
      ∀ pre e, pre ++ [e] <+: es → (pre.foldl Store.edit config.store).Harmless e :=
  abstracts_iff (fun _ e h => Sound.edit h e) (fun _ e h => edit_store_iff h e) h

end IniConfig

/-! ## Insertions and deletions -/

/-- What is done to a tree. -/
inductive TreeOp (V : Type) where
  | insert (key : Text) (data : V)
  | delete (key : Text)

namespace TreeOp

variable {V : Type}

def onTree (config : Btree V) : TreeOp V → Btree V
  | insert key data => (config.insertNode key data).2
  | delete key => (config.deleteNode key).2

/-- What it is for. -/
def onMap (m : Text → Option V) : TreeOp V → Text → Option V
  | insert key data => Function.update m key (some data)
  | delete key => Function.update m key none

/-- No other key goes on from one that is inserted. -/
def Fresh (m : Text → Option V) : TreeOp V → Prop
  | insert key _ => ∀ key', key <+: key' → key' ≠ key → m key' = none
  | delete _ => True

/-- A search tree that counts its nodes. -/
structure Counted (config : Btree V) : Prop where
  ordered : config.root.Ordered
  numNodes : config.numNodes = config.root.size

/-- One of them. -/
theorem counted_onTree {config : Btree V} (h : Counted config) {op : TreeOp V} (hop : op.Fresh config.findNode) :
    Counted (onTree config op) ∧ (onTree config op).findNode = onMap config.findNode op := by
  cases op with
  | insert key data =>
    have hsame : ∀ p ∈ replaced memcmp key config.root, p = key := by
      intro p hp
      obtain ⟨heq, d, hfound⟩ := find_of_replaced coarse_memcmp hp
      by_contra hne
      have hnone := hop p (memcmp_eq_iff.mp heq) hne
      rw [Btree.findNode, hfound] at hnone
      cases hnone
    have hroot := Btree.root_insertNode config key data
    refine ⟨⟨hroot ▸ h.ordered.insert coarse_memcmp hsame, Btree.numNodes_insertNode h.numNodes key data⟩,
      funext fun key' => ?_⟩
    have hfind := (@find_insert_iff _ _ _ memcmp key data config.root _ id coarse_memcmp h.ordered.rightOrdered).mpr
      hsame key'
    simp only [Option.map_id_fun, id_eq] at hfind
    show (config.insertNode key data).2.root.find key' = _
    rw [hroot, hfind, onMap, Function.update_apply]
    split_ifs <;> rfl
  | delete key =>
    have hroot : (config.deleteNode key).2.root = config.root.delete key := by
      unfold Btree.deleteNode
      cases hfound : config.findNode key with
      | none => exact (delete_of_find_eq_none hfound).symm
      | some data => rfl
    have hsize := @size_delete _ _ _ key config.root
    refine ⟨⟨hroot ▸ h.ordered.delete, ?_⟩, funext fun key' => ?_⟩
    · show (config.deleteNode key).2.numNodes = (config.deleteNode key).2.root.size
      rw [hroot]
      unfold Btree.deleteNode
      cases hfound : config.findNode key with
      | none =>
        rw [show config.root.find key = none from hfound] at hsize
        simpa [h.numNodes] using hsize.symm
      | some data =>
        rw [show config.root.find key = some data from hfound] at hsize
        simp only [Option.isSome_some, if_true] at hsize
        show config.numNodes - 1 = _
        rw [h.numNodes]
        omega
    · show (config.deleteNode key).2.root.find key' = _
      rw [hroot, h.ordered.find_delete, onMap, Function.update_apply]
      split_ifs <;> rfl

/-- **Any run of them** goes with the map, as long as each key that is inserted is fresh: the tree stays a search tree,
and it counts its nodes. -/
theorem foldl_onTree {config : Btree V} (h : Counted config) {ops : List (TreeOp V)}
    (hops : ∀ pre op, pre ++ [op] <+: ops → op.Fresh (pre.foldl onMap config.findNode)) :
    Counted (ops.foldl onTree config) ∧ (ops.foldl onTree config).findNode = ops.foldl onMap config.findNode := by
  induction ops generalizing config with
  | nil => exact ⟨h, rfl⟩
  | cons op ops ih =>
    have hfirst : op.Fresh config.findNode := hops [] op (List.cons_prefix_cons.mpr ⟨rfl, List.nil_prefix⟩)
    obtain ⟨hcounted, hmap⟩ := counted_onTree h hfirst
    have hrest := @ih (onTree config op) hcounted fun pre op' hpre => by
      rw [hmap]
      exact hops (op :: pre) op' (List.cons_prefix_cons.mpr ⟨rfl, hpre⟩)
    rw [hmap] at hrest
    exact hrest

/-- A key that is set and deleted again. -/
theorem foldl_onTree_of_two : Counted ([insert ['a'] ['1'], delete ['a']].foldl onTree Btree.create) ∧
    ([insert ['a'] ['1'], delete ['a']].foldl onTree Btree.create).findNode =
      [insert ['a'] ['1'], delete ['a']].foldl onMap (Btree.create : Btree Text).findNode := by
  refine foldl_onTree ⟨ordered_leaf, rfl⟩ fun pre op hpre => ?_
  cases pre with
  | nil =>
    obtain ⟨rfl, -⟩ := List.cons_prefix_cons.mp hpre
    exact fun key' _ _ => rfl
  | cons first pre =>
    obtain ⟨-, hrest⟩ := List.cons_prefix_cons.mp hpre
    cases pre with
    | nil =>
      obtain ⟨rfl, -⟩ := List.cons_prefix_cons.mp hrest
      trivial
    | cons second pre =>
      obtain ⟨-, hrest⟩ := List.cons_prefix_cons.mp hrest
      exact absurd (List.prefix_nil.mp hrest) (by simp)

end TreeOp

end ConfFile

end Mcc
