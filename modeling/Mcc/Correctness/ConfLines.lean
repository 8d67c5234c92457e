import Mcc.Correctness.ConfGrammar

/-!
# `Correctness.ConfLines` — files as they are written

An item has a line (`Item.line`). The items of a file are plain, and the line of a plain item is read as the item,
unless it is an assignment whose key begins with a semicolon: then the line is a comment (`textItems_written`).

A file goes with the store that its lines describe as long as no header or key is the beginning of one that is there
already: `create_tracks_iff`. So a file does no harm in which no name and no key goes on from another
(`harmless_of_apart`).

## Contents
- **Plain items.** `keyItems_plain`, `linesItems_plain`.
- **Lines.** `lineItems_header`, `lineItems_assignment`, `textItems_written`.
- **The store.** `create_tracks_iff`, `harmless_of_apart`.
-/

namespace Mcc

namespace ConfFile

open SearchTree Transition Xml

/-! ## Plain items -/

theorem memTrim_spec {src trimmed : Text} (h : memTrim src = some trimmed) :
    memTrim trimmed = some trimmed ∧ ∀ c ∈ trimmed, c ∈ src := by
  have hval : (src.dropWhile isBlank).rdropWhile isBlank = trimmed ∧ trimmed ≠ [] := by
    unfold memTrim at h
    split at h
    · cases h
    · next hne => exact ⟨Option.some.inj h, fun hnil => hne (by rw [Option.some.inj h, hnil])⟩
  obtain ⟨rfl, hne⟩ := hval
  have hpre := List.rdropWhile_prefix isBlank (src.dropWhile isBlank)
  have hhead : ((src.dropWhile isBlank).rdropWhile isBlank).dropWhile isBlank =
      (src.dropWhile isBlank).rdropWhile isBlank := by
    obtain ⟨c, rest, hcons⟩ := List.exists_cons_of_ne_nil hne
    obtain ⟨tail, htail⟩ := hpre
    rw [hcons] at htail ⊢
    rw [List.dropWhile_cons_of_neg]
    simp [of_dropWhile_eq_cons htail.symm]
  constructor
  · rw [memTrim, hhead, List.rdropWhile_idempotent]
    split
    · next hnil => exact absurd hnil hne
    · rfl
  · intro c hc
    exact (List.dropWhile_suffix isBlank).mem (hpre.mem hc)

/-- Nothing is taken off a text without blanks. -/
theorem memTrim_self {src : Text} (hne : src ≠ []) (h : ∀ c ∈ src, isBlank c = false) : memTrim src = some src := by
  have hdrop : src.dropWhile isBlank = src := by
    obtain ⟨c, rest, rfl⟩ := List.exists_cons_of_ne_nil hne
    exact List.dropWhile_cons_of_neg (by simp [h c List.mem_cons_self])
  have hrdrop : src.rdropWhile isBlank = src := by
    rw [List.rdropWhile_eq_self_iff]
    intro hlast
    simp [h _ (List.getLast_mem hlast)]
  rw [memTrim, hdrop, hrdrop]
  split
  · exact absurd rfl hne
  · rfl

/-- The name of a section that a header holds. -/
structure PlainName (name : Text) : Prop where
  trimmed : memTrim name = some name
  chars : ∀ c ∈ name, inName c = true ∧ c ≠ '\n'
  length : name.length < maxSectionSize

structure PlainKey (key : Text) : Prop where
  trimmed : memTrim key = some key
  chars : ∀ c ∈ key, inKey c = true ∧ c ≠ '\n'

structure PlainValue (value : Text) : Prop where
  trimmed : (memTrim value).getD [] = value
  newline : '\n' ∉ value

def Item.Plain : Item → Prop
  | .header name => PlainName name
  | .assignment key value => PlainKey key ∧ PlainValue value

/-- Names, keys and values without blanks are plain. -/
theorem plain_header {name : Text} (hne : name ≠ []) (h : ∀ c ∈ name, inName c = true ∧ isBlank c = false)
    (hlength : name.length < maxSectionSize) : (Item.header name).Plain := by
  refine ⟨memTrim_self hne fun c hc => (h c hc).2, fun c hc => ⟨(h c hc).1, ?_⟩, hlength⟩
  rintro rfl
  cases (h _ hc).2

theorem plain_assignment {key value : Text} (hne : key ≠ []) (h : ∀ c ∈ key, inKey c = true ∧ isBlank c = false)
    (hvalue : ∀ c ∈ value, isBlank c = false) : (Item.assignment key value).Plain := by
  refine ⟨⟨memTrim_self hne fun c hc => (h c hc).2, fun c hc => ⟨(h c hc).1, ?_⟩⟩, ?_, fun hnew => ?_⟩
  · rintro rfl
    cases (h _ hc).2
  · by_cases hnil : value = []
    · rw [hnil]
      rfl
    · rw [memTrim_self hnil hvalue, Option.getD_some]
  · cases hvalue _ hnew

theorem plainValue_trim {value : Text} (h : '\n' ∉ value) : PlainValue ((memTrim value).getD []) := by
  cases htrim : memTrim value with
  | none => exact ⟨rfl, List.not_mem_nil⟩
  | some trimmed =>
    obtain ⟨hagain, hmem⟩ := memTrim_spec htrim
    refine ⟨?_, fun hnew => h (hmem _ hnew)⟩
    rw [Option.getD_some, hagain, Option.getD_some]

/-- **Items are plain.** -/
theorem keyItems_plain {line : Text} {items : List Item} (hline : '\n' ∉ line) (h : keyItems line = .ok items) :
    ∀ item ∈ items, item.Plain := by
  fun_induction keyItems line generalizing items with
  | case1 line hrest =>
    cases h
    simp
  | case2 line value hnone hrest => cases h
  | case3 line value key hsome hrest =>
    obtain ⟨hsplit, hrun, hvalue⟩ := line_split hline hrest
    obtain ⟨htrim, hmem⟩ := memTrim_spec hsome
    cases h
    rw [List.forall_mem_singleton]
    exact ⟨⟨htrim, fun c hc => hrun c (hmem c hc)⟩, plainValue_trim fun hnew => hvalue (List.mem_cons_of_mem _ hnew)⟩
  | case4 line c rest hrest hc hname => cases h
  | case5 line c rest hrest hc d behind hname hnone => cases h
  | case6 line c rest hrest hc d behind hname name hsome hlength ih =>
    obtain ⟨-, -, hnewline⟩ := line_split hline hrest
    obtain ⟨-, hinside, hbehind⟩ := line_split (fun h => hnewline (List.mem_cons_of_mem _ h)) hname
    obtain ⟨htrim, hmem⟩ := memTrim_spec hsome
    cases hitems : keyItems behind with
    | error e =>
      rw [hitems] at h
      cases h
    | ok rest =>
      rw [hitems] at h
      cases h
      refine List.forall_mem_cons.mpr ⟨⟨htrim, fun c hc => hinside c (hmem c hc), hlength⟩, ?_⟩
      exact ih (fun hnew => hbehind (List.mem_cons_of_mem _ hnew)) hitems
  | case7 line c rest hrest hc d behind hname name hsome hlength => cases h

theorem linesItems_plain {lines : List Text} {items : List Item} (hlines : ∀ line ∈ lines, '\n' ∉ line)
    (h : linesItems lines = .ok items) : ∀ item ∈ items, item.Plain := by
  induction lines generalizing items with
  | nil =>
    cases h
    simp
  | cons line lines ih =>
    obtain ⟨hline, hlines⟩ := List.forall_mem_cons.mp hlines
    rw [linesItems_cons] at h
    cases hone : lineItems line with
    | error e =>
      rw [hone] at h
      cases h
    | ok first =>
      cases hmore : linesItems lines with
      | error e =>
        rw [hone, hmore] at h
        cases h
      | ok rest =>
        rw [hone, hmore] at h
        cases h
        refine List.forall_mem_append.mpr ⟨?_, ih hlines hmore⟩
        unfold lineItems at hone
        split_ifs at hone
        · cases hone
          simp
        · exact keyItems_plain hline hone

/-! ## Lines -/

/-- An item as it is written. -/
def Item.line : Item → Text
  | .header name => '[' :: (name ++ [']'])
  | .assignment key value => key ++ '=' :: value

/-- The line of the item is no comment. -/
def Item.shown : Item → Bool
  | .header _ => true
  | .assignment key _ => key.head? != some ';'

theorem dropWhile_of_all {p : Char → Bool} {run rest : Text} {c : Char} (hrun : ∀ a ∈ run, p a = true) (hc : p c = false) :
    (run ++ c :: rest).dropWhile p = c :: rest ∧ (run ++ c :: rest).takeWhile p = run := by
  constructor
  · rw [List.dropWhile_append_of_pos hrun, List.dropWhile_cons_of_neg (by simp [hc])]
  · rw [List.takeWhile_append_of_pos hrun, List.takeWhile_cons_of_neg (by simp [hc]), List.append_nil]

theorem keyItems_nil : keyItems [] = .ok [] := by
  rw [keyItems]
  rfl

theorem lineItems_header {name : Text} (htrim : memTrim name = some name) (hname : ∀ c ∈ name, inName c = true)
    (hlength : name.length < maxSectionSize) : lineItems ('[' :: (name ++ [']'])) = .ok [.header name] := by
  obtain ⟨hdrop, htake⟩ := @dropWhile_of_all inName name [] ']' hname rfl
  rw [lineItems, if_neg (by simp), keyItems]
  split
  · next h => cases h
  · next c rest h =>
    obtain ⟨rfl, rfl⟩ : '[' = c ∧ name ++ [']'] = rest := List.cons.inj h
    rw [if_neg (by decide)]
    split
    · next h' =>
      rw [hdrop] at h'
      cases h'
    · next d behind h' =>
      rw [hdrop] at h'
      obtain ⟨rfl, rfl⟩ := List.cons.inj h'
      rw [htake, htrim, keyItems_nil]
      dsimp only
      rw [if_pos hlength]
      rfl

theorem lineItems_assignment {key value : Text} (htrim : memTrim key = some key) (hkey : ∀ c ∈ key, inKey c = true)
    (hvalue : (memTrim value).getD [] = value) (hcomment : key.head? ≠ some ';') :
    lineItems (key ++ '=' :: value) = .ok [.assignment key value] := by
  obtain ⟨hdrop, htake⟩ := @dropWhile_of_all inKey key value '=' hkey rfl
  have hhead : (key ++ '=' :: value).head? ≠ some ';' := by
    cases key with
    | nil => simp
    | cons c key => exact hcomment
  rw [lineItems, if_neg hhead, keyItems]
  split
  · next h =>
    rw [hdrop] at h
    cases h
  · next c rest h =>
    rw [hdrop] at h
    obtain ⟨rfl, rfl⟩ := List.cons.inj h
    rw [if_pos rfl, htake, htrim, hvalue]

/-- **A line** is read as what it was written for. -/
theorem lineItems_line {item : Item} (h : item.Plain) :
    lineItems item.line = .ok ([item].filter Item.shown) := by
  cases item with
  | header name =>
    have hline := lineItems_header h.trimmed (fun c hc => (h.chars c hc).1) h.length
    exact hline
  | assignment key value =>
    obtain ⟨hkey, hvalue⟩ := h
    by_cases hshown : (Item.assignment key value).shown = true
    · have hhead : key.head? ≠ some ';' := by simpa [Item.shown] using hshown
      rw [List.filter_cons_of_pos hshown]
      exact lineItems_assignment hkey.trimmed (fun c hc => (hkey.chars c hc).1) hvalue.trimmed hhead
    · have hhead : key.head? = some ';' := by simpa [Item.shown] using hshown
      have hline : (Item.assignment key value).line.head? = some ';' := by
        rw [Item.line, List.head?_append, hhead]
        rfl
      rw [lineItems, if_pos hline, List.filter_cons_of_neg hshown]
      rfl

theorem newline_line {item : Item} (h : item.Plain) : '\n' ∉ item.line := by
  cases item with
  | header name =>
    intro hmem
    simp only [Item.line, List.mem_cons, List.mem_append, List.not_mem_nil, or_false] at hmem
    rcases hmem with hmem | hmem | hmem
    · cases hmem
    · exact (h.chars _ hmem).2 rfl
    · cases hmem
  | assignment key value =>
    obtain ⟨hkey, hvalue⟩ := h
    intro hmem
    rcases List.mem_append.mp hmem with hmem | hmem
    · exact (hkey.chars _ hmem).2 rfl
    · rcases List.mem_cons.mp hmem with hmem | hmem
      · cases hmem
      · exact hvalue.newline hmem

/-- Behind the last newline there is an empty line. -/
theorem splitOn_lines {lines : List Text} (h : ∀ line ∈ lines, '\n' ∉ line) :
    (lines.flatMap fun line => line ++ ['\n']).splitOn '\n' = lines ++ [[]] := by
  induction lines with
  | nil => rfl
  | cons line lines ih =>
    obtain ⟨hline, hlines⟩ := List.forall_mem_cons.mp h
    rw [List.flatMap_cons, List.append_assoc, List.singleton_append,
      List.splitOn_append_cons_self_of_not_mem hline, ih hlines, List.cons_append]

theorem linesItems_written {items : List Item} (h : ∀ item ∈ items, item.Plain) :
    linesItems (items.map Item.line ++ [[]]) = .ok (items.filter Item.shown) := by
  induction items with
  | nil =>
    rw [List.map_nil, List.nil_append, linesItems_cons, lineItems, if_neg (by simp), keyItems_nil]
    rfl
  | cons item items ih =>
    obtain ⟨hitem, hitems⟩ := List.forall_mem_cons.mp h
    rw [List.map_cons, List.cons_append, linesItems_cons, lineItems_line hitem, ih hitems]
    exact congrArg Except.ok (List.filter_append (p := Item.shown) [item] items).symm

/-- **A file is read as the items it was written for.** -/
theorem textItems_written {items : List Item} (h : ∀ item ∈ items, item.Plain) :
    textItems (items.flatMap fun item => item.line ++ ['\n']) = .ok (items.filter Item.shown) := by
  have hlines : ∀ line ∈ items.map Item.line, '\n' ∉ line := by
    intro line hline
    obtain ⟨item, hitem, rfl⟩ := List.mem_map.mp hline
    exact newline_line (h item hitem)
  have hsplit := splitOn_lines hlines
  rw [List.flatMap_map] at hsplit
  rw [textItems, hsplit]
  exact linesItems_written h

/-! ## The store -/

/-- The names of a run of edits, and the one that is there before. -/
def names (es : List Edit) : List Text :=
  defaultSection :: es.filterMap fun
    | .openSection name => some name
    | .assign _ _ _ => none

/-- The keys of a run of edits, in whatever section. -/
def keys (es : List Edit) : List Text :=
  es.filterMap fun
    | .openSection _ => none
    | .assign _ key _ => some key

/-- No name and no key goes on from another. -/
structure Apart (es : List Edit) : Prop where
  names : ∀ name ∈ names es, ∀ name' ∈ names es, name <+: name' → name = name'
  keys : ∀ key ∈ keys es, ∀ key' ∈ keys es, key <+: key' → key = key'

/-- What a store holds is named in the edits. -/
def Store.Within (s : Store) (es : List Edit) : Prop :=
  ∀ name sec, s name = some sec → name ∈ ConfFile.names es ∧ ∀ key, (sec key).isSome → key ∈ ConfFile.keys es

theorem Store.Within.edit {s : Store} {es : List Edit} (h : s.Within es) {e : Edit} (he : e ∈ es) :
    (s.edit e).Within es := by
  intro name sec hsec
  cases e with
  | openSection opened =>
    rw [Store.edit_openSection, Function.update_apply] at hsec
    split_ifs at hsec with hname
    · cases hsec
      rw [hname]
      exact ⟨List.mem_cons_of_mem _ (List.mem_filterMap.mpr ⟨_, he, rfl⟩), fun key hkey => by cases hkey⟩
    · exact h name sec hsec
  | assign opened key value =>
    rw [Store.edit_assign, Function.update_apply] at hsec
    split_ifs at hsec with hname
    · obtain ⟨old, hold, rfl⟩ := Option.map_eq_some_iff.mp hsec
      obtain ⟨hmem, hkeys⟩ := h opened old hold
      rw [hname]
      refine ⟨hmem, ?_⟩
      intro key' hkey'
      rw [Function.update_apply] at hkey'
      split_ifs at hkey' with heq
      · rw [heq]
        exact List.mem_filterMap.mpr ⟨_, he, rfl⟩
      · exact hkeys key' hkey'
    · exact h name sec hsec

theorem Store.Within.foldl_edit {es : List Edit} {pre : List Edit} :
    ∀ {s : Store}, s.Within es → (∀ e ∈ pre, e ∈ es) → (pre.foldl Store.edit s).Within es := by
  induction pre with
  | nil => exact fun h _ => h
  | cons e pre ih =>
    intro s h hpre
    exact ih (h.edit (hpre e List.mem_cons_self)) fun e' he' => hpre e' (List.mem_cons_of_mem _ he')

/-- At first there is the default section, and nothing in it. -/
theorem store_initialConfig :
    initialConfig.store = Function.update (fun _ => none) defaultSection (some fun _ => none) :=
  (IniConfig.store_insertSection_iff IniConfig.sound_create defaultSection).mpr (Or.inr fun _ _ => rfl)

theorem within_initialConfig (es : List Edit) : initialConfig.store.Within es := by
  intro name sec hsec
  rw [store_initialConfig, Function.update_apply] at hsec
  split_ifs at hsec with hname
  cases hsec
  rw [hname]
  exact ⟨List.mem_cons_self, fun key hkey => by cases hkey⟩

/-- **Where no name and no key goes on from another, no edit does harm.** -/
theorem harmless_of_apart {es : List Edit} (h : Apart es) (pre : List Edit) (e : Edit) (hpre : pre ++ [e] <+: es) :
    (pre.foldl Store.edit initialConfig.store).Harmless e := by
  have hmem : ∀ e' ∈ pre ++ [e], e' ∈ es := fun e' he' => hpre.subset he'
  have he : e ∈ es := hmem e (List.mem_append_right _ (List.mem_singleton.mpr rfl))
  have hwithin : (pre.foldl Store.edit initialConfig.store).Within es :=
    (within_initialConfig es).foldl_edit fun e' he' => hmem e' (List.mem_append_left _ he')
  generalize pre.foldl Store.edit initialConfig.store = s at hwithin
  cases e with
  | openSection name =>
    by_cases hthere : (s name).isSome
    · exact Or.inl hthere
    · right
      intro name' hstarts
      by_contra hsome
      obtain ⟨sec, hsec⟩ := Option.ne_none_iff_exists'.mp hsome
      have hname : name ∈ names es := List.mem_cons_of_mem _ (List.mem_filterMap.mpr ⟨_, he, rfl⟩)
      have heq := h.names name hname name' (hwithin name' sec hsec).1 hstarts
      rw [heq, hsec] at hthere
      exact hthere rfl
  | assign name key value =>
    intro sec hsec
    by_cases hthere : (sec key).isSome
    · exact Or.inl hthere
    · right
      intro key' hstarts
      by_contra hsome
      have hkey : key ∈ keys es := List.mem_filterMap.mpr ⟨_, he, rfl⟩
      have hkey' := (hwithin name sec hsec).2 key' (Option.isSome_iff_ne_none.mpr hsome)
      have heq := h.keys key hkey key' hkey' hstarts
      rw [heq] at hthere
      exact hthere (Option.isSome_iff_ne_none.mpr hsome)

/-- **Exact condition.** Line after line the configuration stands for what the lines say, as long as no header or key is
the beginning of one that can be found, without being there itself. -/
theorem create_tracks_iff {str : Text} {items : List Item} (h : textItems str = .ok items) :
    iniConfigCreateFromString str = .ok ((edits defaultSection items).foldl IniConfig.edit initialConfig) ∧
      ((∀ pre, pre <+: edits defaultSection items →
          (pre.foldl IniConfig.edit initialConfig).store = pre.foldl Store.edit initialConfig.store) ↔
        ∀ pre e, pre ++ [e] <+: edits defaultSection items → (pre.foldl Store.edit initialConfig.store).Harmless e) := by
  refine ⟨?_, IniConfig.edits_track_iff sound_initialConfig _⟩
  rw [create_eq_grammar, h]
  rfl

/-- The file of a matrix at level 1. -/
def mccFile : Text := "[MCC]\nCameras=4:7\nMonitors=1:2\nTrunks=1-2:3-4\nLevel=1\nMatrixID=5\n".toList

def mccItems : List Item :=
  [.header "MCC".toList, .assignment "Cameras".toList "4:7".toList, .assignment "Monitors".toList "1:2".toList,
    .assignment "Trunks".toList "1-2:3-4".toList, .assignment "Level".toList "1".toList,
    .assignment "MatrixID".toList "5".toList]

theorem textItems_mccFile : textItems mccFile = .ok mccItems := by
  have hplain : ∀ item ∈ mccItems, item.Plain := by
    simp only [mccItems, List.forall_mem_cons]
    refine ⟨plain_header (by simp) (by simp [inName, isBlank]) (by decide),
      plain_assignment (by simp) (by simp [inKey, isBlank]) (by simp [isBlank]),
      plain_assignment (by simp) (by simp [inKey, isBlank]) (by simp [isBlank]),
      plain_assignment (by simp) (by simp [inKey, isBlank]) (by simp [isBlank]),
      plain_assignment (by simp) (by simp [inKey, isBlank]) (by simp [isBlank]),
      plain_assignment (by simp) (by simp [inKey, isBlank]) (by simp [isBlank]), List.forall_mem_nil _⟩
  have hitems := textItems_written hplain
  have htext : (mccItems.flatMap fun item => item.line ++ ['\n']) = mccFile := rfl
  rwa [htext] at hitems

theorem apart_mccItems : Apart (edits defaultSection mccItems) := ⟨by decide, by decide⟩

/-- A header, and five keys in its section. -/
theorem create_tracks_of_mccFile : iniConfigCreateFromString mccFile =
      .ok ((edits defaultSection mccItems).foldl IniConfig.edit initialConfig) ∧
    ∀ pre, pre <+: edits defaultSection mccItems →
      (pre.foldl IniConfig.edit initialConfig).store = pre.foldl Store.edit initialConfig.store := by
  obtain ⟨hcreate, htracks⟩ := create_tracks_iff textItems_mccFile
  exact ⟨hcreate, htracks.mpr (harmless_of_apart apart_mccItems)⟩

end ConfFile

end Mcc
