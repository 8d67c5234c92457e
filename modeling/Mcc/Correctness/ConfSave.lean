import Mcc.Correctness.ConfLines

/-!
# `Correctness.ConfSave` — what is saved is read again

A configuration is saved in the order of its trees. The names, keys and values of a parsed file are such that each line
written is read as what it was written for (`Printable`), except for one: a key that begins with a semicolon makes its
line a comment. In order no key is the beginning of one before it, so the trees are built again without a loss, if they
are search trees: `lookup_of_print`. They are as long as no edit does harm (`Ordered.foldl_edit`), and then a file means
the same after it has been saved: `save_create`.

The setters are edits as well: `set_store_iff`, `sets_track_iff`; and an integer that is set, saved and read again is
the integer (`getInt_of_saved`).
-/

namespace Mcc

namespace ConfFile

open SearchTree Transition Xml

/-! ## What can be written -/

/-- What the lines of a saved configuration are read as. -/
structure IniConfig.Printable (config : IniConfig) : Prop where
  names : ∀ e ∈ config.root.entries, PlainName e.1
  nodes : ∀ e ∈ config.root.entries, ∀ n ∈ e.2.root.entries, PlainKey n.1 ∧ PlainValue n.2

namespace IniConfig

variable {config : IniConfig}

theorem Printable.insertSection (h : Printable config) {name : Text} (hname : PlainName name) :
    Printable (config.insertSection name) where
  names := by
    intro e he
    rw [IniConfig.insertSection, Btree.root_insertNode] at he
    rcases mem_entries_insert he with rfl | he
    · exact hname
    · exact h.names e he
  nodes := by
    intro e he
    rw [IniConfig.insertSection, Btree.root_insertNode] at he
    rcases mem_entries_insert he with rfl | he
    · simp [Btree.create]
    · exact h.nodes e he

theorem Printable.setInSection (h : Printable config) (name : Text) {key value : Text} (hkey : PlainKey key)
    (hvalue : PlainValue value) : Printable (config.setInSection name key value) where
  names := by
    intro e he
    obtain ⟨e', he', hsame, -⟩ := mem_entries_modify he
    exact hsame ▸ h.names e' he'
  nodes := by
    intro e he n hn
    obtain ⟨e', he', -, hsame | ⟨-, hset⟩⟩ := mem_entries_modify he
    · rw [hsame] at hn
      exact h.nodes e' he' n hn
    · rw [hset, Btree.root_insertNode] at hn
      rcases mem_entries_insert hn with rfl | hn
      · exact ⟨hkey, hvalue⟩
      · exact h.nodes e' he' n hn

theorem printable_initialConfig : Printable initialConfig := by
  have hcreate : Printable (Btree.create : IniConfig) := ⟨by simp [Btree.create], by simp [Btree.create]⟩
  have hname : PlainName "default".toList :=
    plain_header (by simp) (by simp [inName, isBlank]) (by simp [maxSectionSize])
  exact hcreate.insertSection hname

/-- **A parsed configuration can be written.** -/
theorem Printable.foldl_applyItem {items : List Item} (h : ∀ item ∈ items, item.Plain) {current : Text}
    (hconfig : Printable config) : Printable (items.foldl applyItem (current, config)).2 := by
  induction items generalizing current config with
  | nil => exact hconfig
  | cons item items ih =>
    obtain ⟨hitem, hitems⟩ := List.forall_mem_cons.mp h
    cases item with
    | header name => exact ih hitems (hconfig.insertSection hitem)
    | assignment key value => exact ih hitems (hconfig.setInSection current hitem.1 hitem.2)

/-! ## Search trees -/

/-- The sections are in order, and the keys of each. -/
structure Ordered (config : IniConfig) : Prop where
  sections : config.root.Ordered
  nodes : ∀ e ∈ config.root.entries, e.2.root.Ordered

theorem ordered_initialConfig : Ordered initialConfig where
  sections := by simp [initialConfig, insertSection, Btree.root_insertNode, Btree.create, SearchTree.insert,
    SearchTree.Ordered]
  nodes := by simp [initialConfig, insertSection, Btree.root_insertNode, Btree.create, SearchTree.insert,
    SearchTree.Ordered]

/-- **Edits that do no harm** leave search trees. -/
theorem Ordered.edit (h : Ordered config) (hsound : Sound config) {e : Edit} (he : config.store.Harmless e) :
    Ordered (config.edit e) := by
  cases e with
  | openSection name =>
    have hsame : ∀ p ∈ replaced memcmp name config.root, p = name := by
      rw [replaced_same_iff coarse_memcmp hsound.sections.leftApart]
      simpa [Store.Harmless, store, getSection, Btree.findNode, memcmp_eq_iff] using he
    have hroot : (config.edit (.openSection name)).root = config.root.insert memcmp name Btree.create :=
      Btree.root_insertNode config name Btree.create
    refine ⟨hroot ▸ h.sections.insert coarse_memcmp hsame, fun e he' => ?_⟩
    rw [hroot] at he'
    rcases mem_entries_insert he' with rfl | he'
    · exact ordered_leaf
    · exact h.nodes e he'
  | assign name key value =>
    refine ⟨h.sections.modify, fun e he' => ?_⟩
    obtain ⟨e', hmem, -, hkept | ⟨hfound, hset⟩⟩ := mem_entries_modify he'
    · rw [hkept]
      exact h.nodes e' hmem
    · have hkey : ∀ p ∈ replaced memcmp key e'.2.root, p = key := by
        rw [replaced_same_iff coarse_memcmp (hsound.nodes e' hmem).leftApart]
        have hsec := (Store.harmless_assign name key value).mp he e'.2.findNode
          (by rw [store_apply, getSection, Btree.findNode, hfound]; rfl)
        simpa [Btree.findNode, memcmp_eq_iff] using hsec
      rw [hset, Btree.root_insertNode]
      exact (h.nodes e' hmem).insert coarse_memcmp hkey

theorem Ordered.foldl_edit {es : List Edit} (h : Ordered config) (hsound : Sound config)
    (hes : ∀ pre e, pre ++ [e] <+: es → (pre.foldl Store.edit config.store).Harmless e) :
    Ordered (es.foldl IniConfig.edit config) := by
  induction es generalizing config with
  | nil => exact h
  | cons e es ih =>
    have hfirst : config.store.Harmless e := hes [] e (List.cons_prefix_cons.mpr ⟨rfl, List.nil_prefix⟩)
    refine ih (h.edit hsound hfirst) (hsound.edit e) fun pre e' hpre => ?_
    rw [(edit_store_iff hsound e).mpr hfirst]
    exact hes (e :: pre) e' (List.cons_prefix_cons.mpr ⟨rfl, hpre⟩)

/-! ## The lines of a saved configuration -/

/-- The line of a node is no comment. -/
def kept (node : Text × Text) : Bool := node.1.head? != some ';'

/-- What is written. -/
def writtenItems (config : IniConfig) : List Item :=
  config.root.entries.flatMap fun e => .header e.1 :: e.2.root.entries.map fun n => .assignment n.1 n.2

theorem print_eq (config : IniConfig) :
    config.print = (writtenItems config).flatMap fun item => item.line ++ ['\n'] := by
  unfold print writtenItems
  rw [List.flatMap_assoc]
  refine congrArg (fun f => config.root.entries.flatMap f) (funext fun e => ?_)
  rw [saveSection, List.flatMap_cons, List.flatMap_map]
  have hnodes : saveValue = fun n : Text × Text => (Item.assignment n.1 n.2).line ++ ['\n'] := by
    funext n
    simp [saveValue, Item.line]
  rw [hnodes]
  simp [Item.line]

/-- What it is read as. -/
def savedItems (config : IniConfig) : List Item :=
  config.root.entries.flatMap fun e =>
    .header e.1 :: (e.2.root.entries.filter kept).map fun n => .assignment n.1 n.2

theorem filter_writtenItems (config : IniConfig) : (writtenItems config).filter Item.shown = savedItems config := by
  unfold writtenItems savedItems
  rw [List.filter_flatMap]
  refine congrArg (fun f => config.root.entries.flatMap f) (funext fun e => ?_)
  rw [List.filter_cons_of_pos rfl, List.filter_map]
  rfl

theorem Printable.plain (h : Printable config) : ∀ item ∈ writtenItems config, item.Plain := by
  intro item hitem
  obtain ⟨e, he, hitem⟩ := List.mem_flatMap.mp hitem
  rcases List.mem_cons.mp hitem with rfl | hitem
  · exact h.names e he
  · obtain ⟨n, hn, rfl⟩ := List.mem_map.mp hitem
    exact h.nodes e he n hn

/-- **Each line is read as what it was written for.** -/
theorem textItems_print (h : Printable config) : textItems config.print = .ok (savedItems config) := by
  rw [print_eq, textItems_written h.plain, filter_writtenItems]

/-! ## Building the trees again -/

/-- The nodes of a section, set one after the other. -/
def rebuild (nodes : List (Text × Text)) : Btree Text :=
  nodes.foldl (fun sec n => (sec.insertNode n.1 n.2).2) Btree.create

theorem root_foldl_insertNode (nodes : List (Text × Text)) (sec : Btree Text) :
    (nodes.foldl (fun sec n => (sec.insertNode n.1 n.2).2) sec).root = insertAll memcmp nodes sec.root := by
  induction nodes generalizing sec with
  | nil => rfl
  | cons n nodes ih =>
    rw [List.foldl_cons, ih, Btree.root_insertNode]
    rfl

/-- The items of a section, behind its header. -/
theorem foldl_assignments (nodes : List (Text × Text)) (name : Text) {t : SearchTree Text (Btree Text)} {sec : Btree Text}
    (hroot : config.root = t.insert memcmp name sec) :
    ∃ config', (nodes.map fun n => Item.assignment n.1 n.2).foldl applyItem (name, config) = (name, config') ∧
      config'.root = t.insert memcmp name (nodes.foldl (fun sec n => (sec.insertNode n.1 n.2).2) sec) := by
  induction nodes generalizing config sec with
  | nil => exact ⟨config, rfl, hroot⟩
  | cons n nodes ih =>
    have hset : (config.setInSection name n.1 n.2).root = t.insert memcmp name (sec.insertNode n.1 n.2).2 := by
      rw [setInSection, hroot, modify_insert coarse_memcmp]
    exact ih hset

/-- **The tree of the sections is built again.** -/
theorem root_foldl_saved (entries : List (Text × Btree Text)) (current : Text) (config : IniConfig) :
    ((entries.flatMap fun e => Item.header e.1 :: (e.2.root.entries.filter kept).map fun n => .assignment n.1 n.2).foldl
        applyItem (current, config)).2.root =
      insertAll memcmp (entries.map fun e => (e.1, rebuild (e.2.root.entries.filter kept))) config.root := by
  induction entries generalizing current config with
  | nil => rfl
  | cons e entries ih =>
    obtain ⟨config', hfold, hroot⟩ := foldl_assignments (e.2.root.entries.filter kept) e.1
      (Btree.root_insertNode config e.1 Btree.create)
    rw [List.flatMap_cons, List.foldl_append, List.foldl_cons]
    rw [show applyItem (current, config) (.header e.1) = (e.1, (config.insertNode e.1 Btree.create).2) from rfl, hfold, ih,
      hroot]
    rfl

/-- What is found in a section that has been built again. -/
theorem findNode_rebuild {sec : Btree Text} (h : sec.root.Ordered) (key : Text) :
    (rebuild (sec.root.entries.filter kept)).findNode key =
      if key.head? = some ';' then none else sec.findNode key := by
  apply Option.ext
  intro value
  have hsorted : (sec.root.entries.filter kept).Pairwise fun n n' => n.1 < n'.1 := List.Pairwise.filter _ h
  rw [Btree.findNode, rebuild, root_foldl_insertNode]
  rw [show (Btree.create : Btree Text).root = SearchTree.leaf from rfl, find_insertAll_leaf coarse_memcmp hsorted,
    List.mem_filter]
  split_ifs with hhead
  · simp [kept, hhead]
  · rw [Btree.findNode, h.find_eq_some_iff]
    simp [kept, hhead]

/-- **What is saved is read again**, but for the keys that make their line a comment. -/
theorem lookup_of_print (hordered : Ordered config) (hprintable : Printable config) :
    ∃ config', iniConfigCreateFromString config.print = .ok config' ∧
      ∀ name key, config'.lookup name key = if key.head? = some ';' then none else config.lookup name key := by
  have hcreate : iniConfigCreateFromString config.print =
      .ok ((savedItems config).foldl applyItem (defaultSection, initialConfig)).2 := by
    rw [create_eq_grammar, textItems_print hprintable, foldl_applyItem]
    rfl
  refine ⟨_, hcreate, fun name key => ?_⟩
  have hroot := root_foldl_saved config.root.entries defaultSection initialConfig
  have hright : RightOrdered initialConfig.root := sound_initialConfig.sections.rightOrdered
  have hsorted : (config.root.entries.map fun e => (e.1, rebuild (e.2.root.entries.filter kept))).Pairwise
      fun e e' => e.1 < e'.1 := List.pairwise_map.mpr hordered.sections
  rw [lookup, getSection, Btree.findNode, savedItems, hroot, lookup, getSection, Btree.findNode]
  cases hsec : config.root.find name with
  | some sec =>
    have hmem := mem_entries_of_find hsec
    have hfound := find_insertAll_of_mem coarse_memcmp hsorted (List.mem_map_of_mem hmem) hright
    rw [show find name _ = some _ from hfound]
    exact findNode_rebuild (hordered.nodes _ hmem) key
  | none =>
    rw [Option.bind_none, ite_self]
    -- a section that was not there is not there now, or it is the default one, empty
    cases hfound : find name (insertAll memcmp _ initialConfig.root) with
    | none => rfl
    | some sec =>
      rcases find_insertAll_some coarse_memcmp hright hfound with hmem | hinitial
      · obtain ⟨e, he, heq⟩ := List.mem_map.mp hmem
        have hname : e.1 = name := congrArg Prod.fst heq
        rw [hordered.sections.find_eq_some_iff.mpr (show (name, e.2) ∈ _ from hname ▸ he)] at hsec
        cases hsec
      · have hmem := mem_entries_of_find hinitial
        obtain ⟨-, rfl⟩ : name = defaultSection ∧ sec = Btree.create := by
          simpa [initialConfig, insertSection, Btree.root_insertNode, Btree.create, SearchTree.insert] using hmem
        rfl

theorem getString_eq (config : IniConfig) (name : Option Text) (key : Text) (defaultString : Option Text) :
    config.getString name key defaultString = (config.lookup (sectionOf name) key).or defaultString := by
  unfold getString
  cases config.lookup (sectionOf name) key with
  | none => rfl
  | some data => rfl

theorem getInt_eq (config : IniConfig) (name : Option Text) (key : Text) (defaultInt : Int) :
    config.getInt name key defaultInt = ((config.lookup (sectionOf name) key).map atoi).getD (some defaultInt) := by
  unfold getInt
  cases config.lookup (sectionOf name) key with
  | none => rfl
  | some data => rfl

end IniConfig

/-! ## Setting -/

/-- What is set: a key of a section, which may be null, and its value. -/
structure Setting where
  name : Option Text
  key : Text
  value : Text

/-- A setting that can be written. -/
structure Setting.Plain (e : Setting) : Prop where
  name : PlainName (sectionOf e.name)
  key : PlainKey e.key
  value : PlainValue e.value

namespace Store

/-- What setting is for. -/
def set (s : Store) (e : Setting) : Store :=
  Function.update s (sectionOf e.name)
    (some (Function.update ((s (sectionOf e.name)).getD fun _ => none) e.key (some e.value)))

/-- A section that is there, with the key or without any that goes on from it; or a new one, without any that goes on
from its name. -/
def SetHarmless (s : Store) (e : Setting) : Prop :=
  match s (sectionOf e.name) with
  | some sec => (sec e.key).isSome ∨ ∀ key', e.key <+: key' → sec key' = none
  | none => ∀ name', sectionOf e.name <+: name' → s name' = none

end Store

namespace IniConfig

variable {config : IniConfig}

def set (config : IniConfig) (e : Setting) : IniConfig := config.setString e.name e.key e.value

theorem set_of_some {e : Setting} {sec : Btree Text} (h : config.getSection (sectionOf e.name) = some sec) :
    config.set e = config.edit (.assign (sectionOf e.name) e.key e.value) := by
  simp only [set, setString, h]
  rfl

theorem set_of_none {e : Setting} (h : config.getSection (sectionOf e.name) = none) : config.set e =
    (config.edit (.openSection (sectionOf e.name))).edit (.assign (sectionOf e.name) e.key e.value) := by
  simp only [set, setString, h]
  rfl

/-- What is set is there. -/
theorem lookup_set_self (config : IniConfig) (e : Setting) :
    (config.set e).lookup (sectionOf e.name) e.key = some e.value := by
  have hassign {config : IniConfig} {sec : Btree Text} (h : config.getSection (sectionOf e.name) = some sec) :
      (config.edit (.assign (sectionOf e.name) e.key e.value)).lookup (sectionOf e.name) e.key = some e.value := by
    rw [lookup, edit, getSection_setInSection, if_pos rfl, h]
    show (sec.insertNode e.key e.value).2.findNode e.key = _
    rw [Btree.findNode, Btree.root_insertNode, find_insert_self coarse_memcmp]
  cases hsec : config.getSection (sectionOf e.name) with
  | some sec => rw [set_of_some hsec, hassign hsec]
  | none =>
    obtain ⟨sec, hopened⟩ := Option.isSome_iff_exists.mp (isSome_getSection_insertSection config (sectionOf e.name))
    rw [set_of_none hsec]
    exact hassign hopened

theorem Sound.set (h : Sound config) (e : Setting) : Sound (config.set e) := by
  cases hsec : config.getSection (sectionOf e.name) with
  | some sec => exact set_of_some hsec ▸ h.edit _
  | none => exact set_of_none hsec ▸ (h.edit _).edit _

/-- A section that has just been opened is empty. -/
theorem store_insertSection_self (config : IniConfig) (name : Text) :
    (config.insertSection name).store name = some fun _ => none := by
  rw [store_apply, getSection, insertSection, Btree.findNode, Btree.root_insertNode, find_insert_self coarse_memcmp]
  rfl

/-- **Exact condition.** -/
theorem set_store_iff (h : Sound config) (e : Setting) :
    (config.set e).store = config.store.set e ↔ config.store.SetHarmless e := by
  unfold Store.set Store.SetHarmless
  cases hsec : config.getSection (sectionOf e.name) with
  | some sec =>
    have hstore : config.store (sectionOf e.name) = some sec.findNode := by rw [store_apply, hsec, Option.map_some]
    have hiff := store_setInSection_iff h (sectionOf e.name) e.key e.value
    rw [Store.edit_assign, Store.harmless_assign, hstore] at hiff
    rw [set_of_some hsec, hstore]
    simpa [edit] using hiff
  | none =>
    have hstore : config.store (sectionOf e.name) = none := by rw [store_apply, hsec, Option.map_none]
    have hopen := store_insertSection_iff h (sectionOf e.name)
    have hempty := store_insertSection_self config (sectionOf e.name)
    have hassign := (store_setInSection_iff (h.insertSection _) (sectionOf e.name) e.key e.value).mpr
      ((Store.harmless_assign _ _ _).mpr fun sec hsec => Or.inr fun key' _ => by
        rw [hempty, Option.mem_some_iff] at hsec
        rw [← hsec])
    rw [Store.edit_openSection] at hopen
    rw [set_of_none hsec, hstore]
    show ((config.insertSection _).setInSection _ _ _).store = _ ↔ _
    rw [hassign, Store.edit_assign, hempty]
    -- the two agree outside the section that is new
    have hrest : Function.update (config.insertSection (sectionOf e.name)).store (sectionOf e.name)
          (some (Function.update (fun _ => none) e.key (some e.value))) =
        Function.update config.store (sectionOf e.name) (some (Function.update (fun _ => none) e.key (some e.value))) ↔
        (config.insertSection (sectionOf e.name)).store =
          Function.update config.store (sectionOf e.name) (some fun _ => none) := by
      constructor
      · intro heq
        funext name
        by_cases hname : name = sectionOf e.name
        · rw [hname, hempty, Function.update_self]
        · have hname' := congrFun heq name
          rw [Function.update_of_ne hname, Function.update_of_ne hname] at hname'
          rw [hname', Function.update_of_ne hname]
      · intro heq
        rw [heq, Function.update_idem]
    refine hrest.trans (hopen.trans ?_)
    simp [Store.Harmless, hstore]

theorem Ordered.set (h : Ordered config) (hsound : Sound config) {e : Setting} (he : config.store.SetHarmless e) :
    Ordered (config.set e) := by
  unfold Store.SetHarmless at he
  cases hsec : config.getSection (sectionOf e.name) with
  | some sec =>
    rw [store_apply, hsec, Option.map_some] at he
    rw [set_of_some hsec]
    refine h.edit hsound ((Store.harmless_assign _ _ _).mpr fun sec' hsec' => ?_)
    rw [store_apply, hsec, Option.map_some, Option.mem_some_iff] at hsec'
    exact hsec' ▸ he
  | none =>
    rw [store_apply, hsec, Option.map_none] at he
    rw [set_of_none hsec]
    have hnew : config.store.Harmless (.openSection (sectionOf e.name)) := Or.inr he
    refine (h.edit hsound hnew).edit (hsound.edit _) ((Store.harmless_assign _ _ _).mpr fun sec hsec => ?_)
    rw [show config.edit (.openSection _) = config.insertSection _ from rfl, store_insertSection_self,
      Option.mem_some_iff] at hsec
    exact Or.inr fun key' _ => by rw [← hsec]

theorem Printable.set (h : Printable config) {e : Setting} (he : e.Plain) : Printable (config.set e) := by
  cases hsec : config.getSection (sectionOf e.name) with
  | some sec => exact set_of_some hsec ▸ h.setInSection _ he.key he.value
  | none => exact set_of_none hsec ▸ (h.insertSection he.name).setInSection _ he.key he.value

/-- How a file without harm leaves a configuration, and settings without harm. -/
structure Saveable (config : IniConfig) : Prop where
  sound : Sound config
  ordered : Ordered config
  printable : Printable config

theorem Saveable.foldl_set {sets : List Setting} (h : Saveable config) (hplain : ∀ e ∈ sets, e.Plain)
    (hsets : ∀ pre e, pre ++ [e] <+: sets → (pre.foldl Store.set config.store).SetHarmless e) :
    Saveable (sets.foldl set config) := by
  induction sets generalizing config with
  | nil => exact h
  | cons e sets ih =>
    obtain ⟨he, hplain⟩ := List.forall_mem_cons.mp hplain
    have hfirst : config.store.SetHarmless e := hsets [] e (List.cons_prefix_cons.mpr ⟨rfl, List.nil_prefix⟩)
    refine ih ⟨h.sound.set e, h.ordered.set h.sound hfirst, h.printable.set he⟩ hplain fun pre e' hpre => ?_
    rw [(set_store_iff h.sound e).mpr hfirst]
    exact hsets (e :: pre) e' (List.cons_prefix_cons.mpr ⟨rfl, hpre⟩)

/-- The configuration of a file. -/
def ofItems (items : List Item) : IniConfig := (edits defaultSection items).foldl edit initialConfig

theorem create_of_items {str : Text} {items : List Item} (h : textItems str = .ok items) :
    iniConfigCreateFromString str = .ok (ofItems items) := by
  rw [create_eq_grammar, h]
  rfl

theorem saveable_ofItems {str : Text} {items : List Item} (hitems : textItems str = .ok items)
    (hharmless : ∀ pre e, pre ++ [e] <+: edits defaultSection items →
      (pre.foldl Store.edit initialConfig.store).Harmless e) : Saveable (ofItems items) where
  sound := sound_initialConfig.foldl_edit
  ordered := ordered_initialConfig.foldl_edit sound_initialConfig hharmless
  printable := by
    have hplain : ∀ item ∈ items, item.Plain := linesItems_plain
      (fun line h => Split.not_mem_of_mem_splitOn h) (show linesItems (str.splitOn '\n') = _ from hitems)
    rw [ofItems, ← foldl_applyItem]
    exact printable_initialConfig.foldl_applyItem hplain

/-- **A file is the same after it has been saved.** Where no line of it does harm, nor anything that is set, every string
is what it was when the configuration has been written and is read again, but the keys that begin with a semicolon are
gone. -/
theorem save_create {str : Text} {items : List Item} {sets : List Setting} (hitems : textItems str = .ok items)
    (hharmless : ∀ pre e, pre ++ [e] <+: edits defaultSection items →
      (pre.foldl Store.edit initialConfig.store).Harmless e)
    (hplain : ∀ e ∈ sets, e.Plain)
    (hsets : ∀ pre e, pre ++ [e] <+: sets → (pre.foldl Store.set (ofItems items).store).SetHarmless e) :
    ∃ config config', iniConfigCreateFromString str = .ok config ∧
      iniConfigCreateFromString (sets.foldl set config).print = .ok config' ∧
      ∀ name key defaultString, config'.getString name key defaultString =
        if key.head? = some ';' then defaultString else (sets.foldl set config).getString name key defaultString := by
  have hsaveable := (saveable_ofItems hitems hharmless).foldl_set hplain hsets
  obtain ⟨config', hagain, hlookup⟩ := lookup_of_print hsaveable.ordered hsaveable.printable
  refine ⟨ofItems items, config', create_of_items hitems, hagain, fun name key defaultString => ?_⟩
  rw [getString_eq, getString_eq, hlookup]
  split_ifs <;> rfl

/-- A list with a last element that begins a list of one. -/
theorem eq_of_concat_prefix_singleton {α : Type} {pre : List α} {a b : α} (h : pre ++ [a] <+: [b]) :
    pre = [] ∧ a = b := by
  cases pre with
  | nil => exact ⟨rfl, (List.cons_prefix_cons.mp h).1⟩
  | cons c pre =>
    have hnil := (List.cons_prefix_cons.mp h).2
    exact absurd (List.prefix_nil.mp hnil) (by simp)

/-- A key of the file is there already. -/
theorem setHarmless_cameras (value : Text) :
    (ofItems mccItems).store.SetHarmless ⟨some "MCC".toList, "Cameras".toList, value⟩ :=
  Or.inl rfl

theorem plain_cameras {value : Text} (h : ∀ c ∈ value, isBlank c = false) :
    Setting.Plain ⟨some "MCC".toList, "Cameras".toList, value⟩ := by
  obtain ⟨hkey, hvalue⟩ := @plain_assignment "Cameras".toList value (by simp) (by simp [inKey, isBlank]) h
  exact ⟨plain_header (by simp [sectionOf]) (by simp [sectionOf, inName, isBlank]) (by simp [sectionOf, maxSectionSize]),
    hkey, hvalue⟩

/-- The file of a matrix, with other cameras set. -/
theorem save_create_of_mccFile : ∃ config config', iniConfigCreateFromString mccFile = .ok config ∧
    iniConfigCreateFromString (config.set ⟨some "MCC".toList, "Cameras".toList, "8:9".toList⟩).print = .ok config' ∧
      ∀ name key, key.head? ≠ some ';' → config'.getString name key none =
        (config.set ⟨some "MCC".toList, "Cameras".toList, "8:9".toList⟩).getString name key none := by
  have hplain : ∀ e ∈ [(⟨some "MCC".toList, "Cameras".toList, "8:9".toList⟩ : Setting)], e.Plain :=
    List.forall_mem_singleton.mpr (plain_cameras (by simp [isBlank]))
  obtain ⟨config, config', hcreate, hagain, hget⟩ := save_create textItems_mccFile (harmless_of_apart apart_mccItems)
    hplain fun pre e hpre => by
      obtain ⟨rfl, rfl⟩ := eq_of_concat_prefix_singleton hpre
      exact setHarmless_cameras _
  refine ⟨config, config', hcreate, hagain, ?_⟩
  intro name key hkey
  have hsame := hget name key none
  rw [if_neg hkey] at hsame
  exact hsame

/-- A number is written without blanks. -/
theorem isBlank_decimal (n : Int) : ∀ c ∈ decimal n, isBlank c = false := by
  have hdigit : ∀ c ∈ Nat.toDigits 10 n.natAbs, isBlank c = false := by
    intro c hc
    have hspace := (digit_plain (isDigit_of_mem_toDigits hc)).1
    simp only [isSpace, Bool.or_eq_false_iff] at hspace
    obtain ⟨⟨⟨⟨⟨hblank, -⟩, hnewline⟩, hreturn⟩, -⟩, -⟩ := hspace
    simp only [isBlank, hblank, hreturn, hnewline, Bool.or_false]
  unfold decimal
  split_ifs
  · exact List.forall_mem_cons.mpr ⟨rfl, hdigit⟩
  · exact hdigit

theorem plainValue_decimal (n : Int) : PlainValue (decimal n) :=
  (@plain_assignment ['n'] (decimal n) (by simp) (by simp [inKey, isBlank]) (isBlank_decimal n)).2

/-- **An integer that is set, saved and read again** is the integer. -/
theorem getInt_of_saved {str : Text} {items : List Item} {sets : List Setting} {name : Option Text} {key : Text} {n : Int}
    (hitems : textItems str = .ok items)
    (hharmless : ∀ pre e, pre ++ [e] <+: edits defaultSection items →
      (pre.foldl Store.edit initialConfig.store).Harmless e)
    (hplain : ∀ e ∈ sets, e.Plain) (hname : PlainName (sectionOf name)) (hplainKey : PlainKey key)
    (hsets : ∀ pre e, pre ++ [e] <+: sets ++ [⟨name, key, decimal n⟩] →
      (pre.foldl Store.set (ofItems items).store).SetHarmless e)
    (hkey : key.head? ≠ some ';') (hn : IsInt n) :
    ∃ config config', iniConfigCreateFromString str = .ok config ∧
      iniConfigCreateFromString ((sets.foldl set config).setInt name key n).print = .ok config' ∧
      ∀ defaultInt, config'.getInt name key defaultInt = some n := by
  have hlast : (⟨name, key, decimal n⟩ : Setting).Plain := ⟨hname, hplainKey, plainValue_decimal n⟩
  have hall : ∀ e ∈ sets ++ [⟨name, key, decimal n⟩], e.Plain :=
    List.forall_mem_append.mpr ⟨hplain, List.forall_mem_singleton.mpr hlast⟩
  have hsaveable := (saveable_ofItems hitems hharmless).foldl_set hall hsets
  obtain ⟨config', hagain, hlookup⟩ := lookup_of_print hsaveable.ordered hsaveable.printable
  rw [List.foldl_append] at hagain hlookup
  refine ⟨ofItems items, config', create_of_items hitems, hagain, fun defaultInt => ?_⟩
  have hset : (set (sets.foldl set (ofItems items)) ⟨name, key, decimal n⟩).lookup (sectionOf name) key =
      some (decimal n) := lookup_set_self _ _
  rw [getInt, hlookup, if_neg hkey]
  rw [show (([⟨name, key, decimal n⟩] : List Setting).foldl set (sets.foldl set (ofItems items))).lookup
    (sectionOf name) key = _ from hset]
  show atoi (decimal n) = some n
  rw [atoi, scanInt_decimal]
  exact IntOp.int_eq_some_iff.mpr ⟨hn, rfl⟩

/-- A negative number, set over what is in the file. -/
theorem getInt_of_saved_mccFile : ∃ config config', iniConfigCreateFromString mccFile = .ok config ∧
    iniConfigCreateFromString (config.setInt (some "MCC".toList) "Cameras".toList (-5)).print = .ok config' ∧
      ∀ defaultInt, config'.getInt (some "MCC".toList) "Cameras".toList defaultInt = some (-5) := by
  obtain ⟨hname, hkey, -⟩ := plain_cameras (isBlank_decimal (-5))
  have hshown : "Cameras".toList.head? ≠ some ';' := by simp
  exact getInt_of_saved textItems_mccFile (harmless_of_apart apart_mccItems) (List.forall_mem_nil _) hname hkey
    (fun pre e hpre => by
      obtain ⟨rfl, rfl⟩ := eq_of_concat_prefix_singleton hpre
      exact setHarmless_cameras _) hshown ⟨by omega, by omega⟩

/-- **A run of settings** goes with the store of the file, as long as each is harmless for what the ones before leave. -/
theorem sets_track_iff {str : Text} {config : IniConfig} (h : iniConfigCreateFromString str = .ok config)
    (sets : List Setting) :
    (∀ pre, pre <+: sets → (pre.foldl set config).store = pre.foldl Store.set config.store) ↔
      ∀ pre e, pre ++ [e] <+: sets → (pre.foldl Store.set config.store).SetHarmless e := by
  have hsound : Sound config := by
    rw [create_eq_grammar] at h
    cases hitems : textItems str with
    | error e =>
      rw [hitems] at h
      cases h
    | ok items =>
      rw [hitems] at h
      cases h
      exact sound_initialConfig.foldl_edit
  exact abstracts_iff (fun _ e h => Sound.set h e) (fun _ e h => set_store_iff h e) hsound

/-- A key of the file, set twice. -/
theorem sets_track_of_mccFile : ∃ config, iniConfigCreateFromString mccFile = .ok config ∧
    ∀ pre, pre <+: [⟨some "MCC".toList, "Cameras".toList, ['8']⟩, ⟨some "MCC".toList, "Cameras".toList, ['9']⟩] →
      (pre.foldl set config).store = pre.foldl Store.set config.store := by
  refine ⟨_, create_of_items textItems_mccFile,
    (sets_track_iff (create_of_items textItems_mccFile) _).mpr fun pre e hpre => ?_⟩
  cases pre with
  | nil =>
    obtain ⟨rfl, -⟩ := List.cons_prefix_cons.mp hpre
    exact setHarmless_cameras _
  | cons first pre =>
    obtain ⟨rfl, hrest⟩ := List.cons_prefix_cons.mp hpre
    obtain ⟨rfl, rfl⟩ := eq_of_concat_prefix_singleton hrest
    exact Or.inl rfl

end IniConfig

end ConfFile

end Mcc
