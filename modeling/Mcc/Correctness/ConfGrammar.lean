import Mcc.Correctness.ConfFile
import Mcc.Lib.Split

/-!
# `Correctness.ConfGrammar` — the parser reads lines

The machine of the parser goes on from character to character; the grammar says what a line is. A comment is a line that
starts with `;`. Any other line is headers in brackets, with whatever stands before them thrown away, and then at most
one assignment, whose value is the rest of the line (`lineItems`). The items of all lines are a run of edits.

Up to the next character it looks for, the machine only moves on (`parseLoop_skip`). So a line takes it to the start of
the next one with the items of the grammar applied, or to the same failure (`line_agrees`), and so does the text:
`create_eq_grammar`.

## Contents
- **The grammar.** `lineItems`, `textItems`, and the edits of a list of items.
- **The machine.** What it skips, keys, lines, and the text.
- **The main result.** `create_eq_grammar`, `create_iff`.
-/

namespace Mcc

namespace ConfFile

open SearchTree Xml

/-! ## The grammar -/

inductive Item where
  | header (name : Text)
  | assignment (key value : Text)

/-- Neither a bracket nor an equals sign: it belongs to a key. -/
def inKey (c : Char) : Bool := c != '[' && c != '='

/-- No closing bracket: it belongs to the name of a section. -/
def inName (c : Char) : Bool := c != ']'

theorem length_dropWhile_le (p : Char → Bool) (l : Text) : (l.dropWhile p).length ≤ l.length :=
  (List.dropWhile_suffix p).length_le

/-- A line that is no comment, or what is left of it behind a header. -/
def keyItems (line : Text) : Except ParseFailure (List Item) :=
  match _hkey : line.dropWhile inKey with
  | [] => .ok []
  | c :: rest =>
    if c = '=' then
      match memTrim (line.takeWhile inKey) with
      | none => .error .null
      | some key => .ok [.assignment key ((memTrim rest).getD [])]
    else
      match _hname : rest.dropWhile inName with
      | [] => .error .null
      | _ :: behind =>
        match memTrim (rest.takeWhile inName) with
        | none => .error .null
        | some name =>
          if name.length < maxSectionSize then do
            let items ← keyItems behind
            return .header name :: items
          else .error .undefined
termination_by line.length
decreasing_by
  have hkey := length_dropWhile_le inKey line
  have hname := length_dropWhile_le inName rest
  rw [_hkey, List.length_cons] at hkey
  rw [_hname, List.length_cons] at hname
  omega

/-- A line; a semicolon makes it a comment if it comes first. -/
def lineItems (line : Text) : Except ParseFailure (List Item) :=
  if line.head? = some ';' then .ok [] else keyItems line

/-- The items of a text, line by line. -/
def textItems (str : Text) : Except ParseFailure (List Item) := do
  let items ← (str.splitOn '\n').mapM lineItems
  return items.flatten

/-- What an item does to the current section and the configuration. -/
def applyItem (state : Text × IniConfig) : Item → Text × IniConfig
  | .header name => (name, state.2.insertSection name)
  | .assignment key value => (state.1, state.2.setInSection state.1 key value)

/-- The edits that items stand for, from a current section on. -/
def edits : Text → List Item → List Edit
  | _, [] => []
  | _, .header name :: items => .openSection name :: edits name items
  | current, .assignment key value :: items => .assign current key value :: edits current items

theorem foldl_applyItem (items : List Item) (current : Text) (config : IniConfig) :
    (items.foldl applyItem (current, config)).2 = (edits current items).foldl IniConfig.edit config := by
  induction items generalizing current config with
  | nil => rfl
  | cons item items ih =>
    cases item with
    | header name => exact ih name (config.insertSection name)
    | assignment key value => exact ih current (config.setInSection current key value)

/-! ## The machine -/

/-- Nothing happens at this character but `pos++; col++;`. -/
def Idle (c : Char) : ParseStatus → Prop
  | .getKeyOrSection => inKey c = true ∧ c ≠ '\n'
  | .getSection => inName c = true ∧ c ≠ '\n'
  | .getValue => c ≠ '\n'
  | .commentLine => c ≠ '\n'

/-- On by so many characters. -/
def Parser.skip (parser : Parser) (n : ℕ) : Parser := { parser with pos := parser.pos + n, col := parser.col + n }

theorem jump_idle {str : Text} {c : Char} {parser : Parser} (h : Idle c parser.status)
    (hcol : parser.col = 1 → c ≠ ';') : jump str c parser = .ok parser.advance := by
  have hnewline : c ≠ '\n' := by
    revert h
    cases parser.status <;> simp [Idle]
  have hcomment : parserOnComment parser = .ok parser.advance ∨ c ≠ ';' := by
    by_cases hc : parser.col = 1
    · exact Or.inr (hcol hc)
    · exact Or.inl (by rw [parserOnComment, if_neg hc])
  unfold jump
  rw [if_neg hnewline]
  split_ifs with hstart hend hvalue hsemicolon
  · unfold parserOnSectionStart
    split
    · next hs => simp [hs, Idle, inKey, hstart] at h
    · rfl
  · unfold parserOnSectionEnd
    split
    · next hs => simp [hs, Idle, inName, hend] at h
    · rfl
  · unfold parserOnValueStart
    split
    · next hs => simp [hs, Idle, inKey, hvalue] at h
    · rfl
  · exact hcomment.resolve_right (not_not_intro hsemicolon)
  · rfl

/-- **Up to the next character it looks for**, the machine only moves on. -/
theorem parseLoop_skip {str run rest : Text} {parser : Parser} (h : ∀ c ∈ run, Idle c parser.status)
    (hcol : parser.col = 1 → run.head? ≠ some ';') (hpos : 1 ≤ parser.col) :
    parseLoop str parser (run ++ rest) = parseLoop str (parser.skip run.length) rest := by
  induction run generalizing parser with
  | nil => rfl
  | cons c run ih =>
    obtain ⟨hc, hrun⟩ := List.forall_mem_cons.mp h
    have hjump := @jump_idle str c parser hc fun hone heq => hcol hone (by rw [heq]; rfl)
    rw [List.cons_append, parseLoop, hjump]
    have hrest := @ih parser.advance hrun (fun hone => absurd hone (Nat.ne_of_gt (Nat.lt_succ_of_le hpos)))
      (Nat.le_succ_of_le hpos)
    refine hrest.trans (congrArg (fun p => parseLoop str p rest) ?_)
    simp [Parser.skip, Parser.advance, Nat.add_assoc, Nat.add_comm 1]

theorem slice_of_drop {str run rest : Text} {p : ℕ} (h : str.drop p = run ++ rest) :
    slice str p (p + run.length) = run := by
  rw [slice, h, Nat.add_sub_cancel_left, List.take_left]

theorem drop_of_drop {str run rest : Text} {p : ℕ} (h : str.drop p = run ++ rest) :
    str.drop (p + run.length) = rest := by
  rw [← List.drop_drop, h, List.drop_left]

/-- Where a key or a header may start. -/
structure AtKey (parser : Parser) : Prop where
  status : parser.status = .getKeyOrSection
  start1 : parser.start1 = parser.pos
  /-- the current section is there -/
  current : (parser.config.getSection parser.sectionName).isSome

/-- At the start of the next line, `n` characters behind, with the items applied. -/
structure LineDone (parser : Parser) (n : ℕ) (items : List Item) (parser' : Parser) : Prop where
  atKey : AtKey parser'
  col : parser'.col = 1
  pos : parser'.pos = parser.pos + n + 1
  outcome : (parser'.sectionName, parser'.config) = items.foldl applyItem (parser.sectionName, parser.config)

/-- The machine ends as the grammar says. -/
def Agrees (done : List Item → Parser → Prop) :
    Except ParseFailure (List Item) → Except ParseFailure Parser → Prop
  | .error e, result => result = .error e
  | .ok items, result => ∃ parser, result = .ok parser ∧ done items parser

/-- A node is set in a section that is there. -/
theorem insertSectionNode_of_isSome {config : IniConfig} {name : Text} (h : (config.getSection name).isSome)
    (key value : Text) : config.insertSectionNode name key value = some (config.setInSection name key value) := by
  obtain ⟨sec, hsec⟩ := Option.isSome_iff_exists.mp h
  rw [IniConfig.insertSectionNode, hsec]

/-- An assignment up to the end of its line. -/
theorem parseLoop_value {str key value tail : Text} {parser : Parser} (hstatus : parser.status = .getValue)
    (hstart2 : parser.start2 = parser.pos) (hcol : 2 ≤ parser.col) (hvalue : '\n' ∉ value)
    (hcurrent : (parser.config.getSection parser.sectionName).isSome)
    (hkey : slice str parser.start1 parser.end1 = key) (hstr : str.drop parser.pos = value ++ tail) :
    (parseLoop str parser value >>= parserOnNewLine str) =
      match memTrim key with
      | none => .error .null
      | some key => .ok { (parser.skip value.length).nextLine with
          config := parser.config.setInSection parser.sectionName key ((memTrim value).getD []) } := by
  have hskip := @parseLoop_skip str value [] parser
    (fun c hc => by rw [hstatus]; exact fun heq => hvalue (heq ▸ hc)) (fun hone => absurd hone (by omega)) (by omega)
  have hslice : slice str (parser.skip value.length).start2 (parser.skip value.length).pos = value := by
    rw [show (parser.skip value.length).start2 = parser.pos from hstart2]
    exact slice_of_drop hstr
  rw [List.append_nil] at hskip
  rw [hskip]
  show parserOnNewLine str (parser.skip value.length) = _
  unfold parserOnNewLine
  rw [hslice, show (parser.skip value.length).status = .getValue from hstatus,
    show slice str (parser.skip value.length).start1 (parser.skip value.length).end1 = key from hkey]
  cases memTrim key with
  | none => rfl
  | some key =>
    have hset := insertSectionNode_of_isSome hcurrent key ((memTrim value).getD [])
    dsimp only
    rw [show (parser.skip value.length).config.insertSectionNode (parser.skip value.length).sectionName key _ = some _
      from hset]

/-- A section that is there is still there after a setting in it. -/
theorem isSome_getSection_setInSection {config : IniConfig} {name : Text} (h : (config.getSection name).isSome)
    (key value : Text) : ((config.setInSection name key value).getSection name).isSome := by
  rw [IniConfig.getSection_setInSection, if_pos rfl, Option.isSome_map]
  exact h

/-- A section that has been opened is there. -/
theorem isSome_getSection_insertSection (config : IniConfig) (name : Text) :
    ((config.insertSection name).getSection name).isSome := by
  rw [IniConfig.getSection, IniConfig.insertSection, Btree.findNode, Btree.root_insertNode,
    find_insert_self coarse_memcmp]
  rfl

theorem jump_equals (str : Text) {parser : Parser} (h : parser.status = .getKeyOrSection) : jump str '=' parser =
    .ok { parser.advance with status := .getValue, end1 := parser.pos, start2 := parser.pos + 1 } := by
  show parserOnValueStart parser = _
  unfold parserOnValueStart
  rw [h]

theorem jump_open (str : Text) {parser : Parser} (h : parser.status = .getKeyOrSection) : jump str '[' parser =
    .ok { parser.advance with start1 := parser.pos + 1, status := .getSection } := by
  show parserOnSectionStart parser = _
  unfold parserOnSectionStart
  rw [h]

theorem jump_close {str inside : Text} {parser : Parser} (h : parser.status = .getSection)
    (hinside : slice str parser.start1 parser.pos = inside) : jump str ']' parser =
    match memTrim inside with
    | none => .error .null
    | some p =>
      if p.length < maxSectionSize then
        .ok { parser.advance with
              sectionName := p, config := parser.config.insertSection p
              status := .getKeyOrSection, start1 := parser.pos + 1 }
      else .error .undefined := by
  show parserOnSectionEnd str parser = _
  unfold parserOnSectionEnd
  rw [h]
  subst hinside
  rfl

section line

variable {str run tail : Text} {parser : Parser} (hkey : AtKey parser) (hpos : 1 ≤ parser.col)
  (hrun : ∀ c ∈ run, inKey c = true ∧ c ≠ '\n') (hcol : parser.col = 1 → run.head? ≠ some ';')

include hkey hpos hrun hcol

/-- What comes before an equals sign, before a bracket or at the end. -/
theorem parseLoop_key (rest : Text) :
    parseLoop str parser (run ++ rest) = parseLoop str (parser.skip run.length) rest :=
  parseLoop_skip (fun c hc => by rw [hkey.status]; exact hrun c hc) hcol hpos

/-- **A line without an item.** -/
theorem parse_nothing : Agrees (LineDone parser run.length) (.ok [])
    (parseLoop str parser run >>= parserOnNewLine str) := by
  have hskip := @parseLoop_key str run parser hkey hpos hrun hcol []
  rw [List.append_nil] at hskip
  refine ⟨(parser.skip run.length).nextLine, ?_, ⟨rfl, rfl, hkey.current⟩, rfl, rfl, rfl⟩
  rw [hskip]
  show parserOnNewLine str (parser.skip run.length) = _
  unfold parserOnNewLine
  rw [show (parser.skip run.length).status = .getKeyOrSection from hkey.status]

/-- **A line with an assignment.** -/
theorem parse_assignment {value : Text} (hvalue : '\n' ∉ value)
    (hstr : str.drop parser.pos = run ++ '=' :: value ++ tail) :
    Agrees (LineDone parser (run ++ '=' :: value).length)
      (match memTrim run with
        | none => .error .null
        | some key => .ok [.assignment key ((memTrim value).getD [])])
      (parseLoop str parser (run ++ '=' :: value) >>= parserOnNewLine str) := by
  have hstatus : (parser.skip run.length).status = .getKeyOrSection := hkey.status
  have hbefore : slice str parser.start1 (parser.pos + run.length) = run := by
    rw [hkey.start1]
    exact slice_of_drop (hstr.trans (List.append_assoc _ _ _))
  have hbehind : str.drop (parser.pos + run.length + 1) = value ++ tail :=
    @drop_of_drop str ['='] (value ++ tail) _ (drop_of_drop (hstr.trans (List.append_assoc _ _ _)))
  rw [parseLoop_key hkey hpos hrun hcol, parseLoop, jump_equals str hstatus]
  have hline := @parseLoop_value str run value tail
    { (parser.skip run.length).advance with
      status := .getValue, end1 := parser.pos + run.length, start2 := parser.pos + run.length + 1 }
    rfl rfl (by show 2 ≤ parser.col + run.length + 1; omega) hvalue hkey.current hbefore hbehind
  cases hkeytext : memTrim run with
  | none => exact hline.trans (by rw [hkeytext])
  | some key =>
    refine ⟨_, hline.trans (by rw [hkeytext]), ⟨rfl, rfl, ?_⟩, rfl, ?_, rfl⟩
    · exact isSome_getSection_setInSection hkey.current key _
    · show parser.pos + run.length + 1 + value.length + 1 = _
      rw [List.length_append, List.length_cons]
      omega

/-- The bracket of a header, and what is in it. -/
theorem parseLoop_inside {inside : Text} (hinside : ∀ c ∈ inside, inName c = true ∧ c ≠ '\n') (rest : Text) :
    parseLoop str parser (run ++ '[' :: (inside ++ rest)) =
      parseLoop str (Parser.skip { (parser.skip run.length).advance with
        start1 := parser.pos + run.length + 1, status := .getSection } inside.length) rest := by
  rw [parseLoop_key hkey hpos hrun hcol, parseLoop, jump_open str (show (parser.skip _).status = _ from hkey.status)]
  exact parseLoop_skip hinside (fun hone => absurd hone (by show parser.col + run.length + 1 ≠ 1; omega))
    (by show 1 ≤ parser.col + run.length + 1; omega)

/-- **A bracket that is not closed.** -/
theorem parse_unclosed {inside : Text} (hinside : ∀ c ∈ inside, inName c = true ∧ c ≠ '\n') :
    (parseLoop str parser (run ++ '[' :: inside) >>= parserOnNewLine str) = .error .null := by
  have hskip := @parseLoop_inside str run parser hkey hpos hrun hcol inside hinside []
  rw [List.append_nil] at hskip
  rw [hskip]
  rfl

/-- Behind a header. -/
def Parser.opened (parser : Parser) (n : ℕ) (name : Text) : Parser :=
  { parser.skip n with sectionName := name, config := parser.config.insertSection name, start1 := parser.pos + n }

/-- **A header.** -/
theorem parseLoop_header {inside behind : Text} (hinside : ∀ c ∈ inside, inName c = true ∧ c ≠ '\n')
    (hstr : str.drop parser.pos = run ++ '[' :: (inside ++ ']' :: behind) ++ tail) :
    parseLoop str parser (run ++ '[' :: (inside ++ ']' :: behind)) =
      match memTrim inside with
      | none => .error .null
      | some name =>
        if name.length < maxSectionSize then
          parseLoop str (parser.opened (run.length + 1 + inside.length + 1) name) behind
        else .error .undefined := by
  have hdrop : str.drop (parser.pos + run.length + 1) = inside ++ (']' :: behind ++ tail) :=
    @drop_of_drop str ['['] _ _ (drop_of_drop (by rw [hstr]; simp))
  rw [parseLoop_inside hkey hpos hrun hcol hinside, parseLoop, jump_close rfl (slice_of_drop hdrop)]
  cases memTrim inside with
  | none => rfl
  | some name =>
    dsimp only
    split_ifs
    · refine congrArg (fun p => parseLoop str p behind) ?_
      simp [Parser.opened, Parser.skip, Parser.advance, hkey.status, Nat.add_assoc]
    · rfl

end line

theorem of_dropWhile_eq_cons {p : Char → Bool} {line rest : Text} {c : Char} (h : line.dropWhile p = c :: rest) :
    p c = false := by
  have hhead := List.head?_dropWhile_not p line
  rw [h] at hhead
  simpa using hhead

/-- A line without its first characters of a kind. -/
theorem line_split {p : Char → Bool} {line rest : Text} (hline : '\n' ∉ line) (hrest : line.dropWhile p = rest) :
    line = line.takeWhile p ++ rest ∧ (∀ c ∈ line.takeWhile p, p c = true ∧ c ≠ '\n') ∧ '\n' ∉ rest := by
  have hsplit : line = line.takeWhile p ++ rest := by rw [← hrest, List.takeWhile_append_dropWhile]
  refine ⟨hsplit, fun c hc => ⟨List.mem_takeWhile_imp hc, fun heq => hline ?_⟩, fun h => hline ?_⟩
  · exact (List.takeWhile_prefix p).mem (heq ▸ hc)
  · exact (List.dropWhile_suffix p).mem (hrest ▸ h)

theorem eq_bracket {line rest : Text} {c : Char} (h : line.dropWhile inKey = c :: rest) (hc : c ≠ '=') : c = '[' := by
  simpa [inKey, hc] using of_dropWhile_eq_cons h

theorem head?_takeWhile_ne {p : Char → Bool} {line : Text} {c : Char} (h : line.head? ≠ some c) :
    (line.takeWhile p).head? ≠ some c := by
  intro hhead
  rw [List.head?_takeWhile] at hhead
  exact h (Option.filter_eq_some_iff.mp hhead).1

section cut

variable {str line tail : Text} {parser : Parser} (hkey : AtKey parser) (hpos : 1 ≤ parser.col)
  (hcol : parser.col = 1 → line.head? ≠ some ';') (hline : '\n' ∉ line) (hstr : str.drop parser.pos = line ++ tail)

include hkey hpos hcol hline

/-- A line that has no equals sign and no bracket in it. -/
theorem cut_nothing (hrest : line.dropWhile inKey = []) :
    Agrees (LineDone parser line.length) (.ok []) (parseLoop str parser line >>= parserOnNewLine str) := by
  obtain ⟨hsplit, hrun, -⟩ := line_split hline hrest
  rw [List.append_nil] at hsplit
  have hnothing := @parse_nothing str (line.takeWhile inKey) parser hkey hpos hrun
    fun hone => head?_takeWhile_ne (hcol hone)
  rwa [← hsplit] at hnothing

/-- A bracket comes first, and it is not closed. -/
theorem cut_unclosed {rest : Text} {c : Char} (hrest : line.dropWhile inKey = c :: rest) (hc : c ≠ '=')
    (hname : rest.dropWhile inName = []) : (parseLoop str parser line >>= parserOnNewLine str) = .error .null := by
  obtain rfl := eq_bracket hrest hc
  obtain ⟨hsplit, hrun, hnewline⟩ := line_split hline hrest
  obtain ⟨hinside, hname, -⟩ := line_split (fun h => hnewline (List.mem_cons_of_mem _ h)) hname
  have hunclosed := @parse_unclosed str (line.takeWhile inKey) parser hkey hpos hrun
    (fun hone => head?_takeWhile_ne (hcol hone)) _ hname
  rw [List.append_nil] at hinside
  rwa [← hinside, ← hsplit] at hunclosed

include hstr

/-- An equals sign comes first. -/
theorem cut_assignment {value : Text} (hrest : line.dropWhile inKey = '=' :: value) :
    Agrees (LineDone parser line.length)
      (match memTrim (line.takeWhile inKey) with
        | none => .error .null
        | some key => .ok [.assignment key ((memTrim value).getD [])])
      (parseLoop str parser line >>= parserOnNewLine str) := by
  obtain ⟨hsplit, hrun, hvalue⟩ := line_split hline hrest
  have hparse := @parse_assignment str (line.takeWhile inKey) tail parser hkey hpos hrun
    (fun hone => head?_takeWhile_ne (hcol hone)) value (fun h => hvalue (List.mem_cons_of_mem _ h)) (hsplit ▸ hstr)
  rwa [← hsplit] at hparse

/-- A header comes first: what is behind it starts with a key again. -/
theorem cut_header {rest behind : Text} {c d : Char} (hrest : line.dropWhile inKey = c :: rest) (hc : c ≠ '=')
    (hname : rest.dropWhile inName = d :: behind) :
    ∃ n, line.length = n + behind.length ∧ str.drop (parser.pos + n) = behind ++ tail ∧ '\n' ∉ behind ∧ 0 < n ∧
      parseLoop str parser line =
        match memTrim (rest.takeWhile inName) with
        | none => .error .null
        | some name =>
          if name.length < maxSectionSize then parseLoop str (parser.opened n name) behind
          else .error .undefined := by
  obtain rfl := eq_bracket hrest hc
  obtain rfl : d = ']' := by simpa [inName] using of_dropWhile_eq_cons hname
  obtain ⟨hsplit, hrun, hnewline⟩ := line_split hline hrest
  obtain ⟨hsplit', hinside, hbehind⟩ := line_split (fun h => hnewline (List.mem_cons_of_mem _ h)) hname
  have hline' : line = line.takeWhile inKey ++ '[' :: (rest.takeWhile inName ++ ']' :: behind) := by
    rw [← hsplit', ← hsplit]
  have hparse := @parseLoop_header str (line.takeWhile inKey) tail parser hkey hpos hrun
    (fun hone => head?_takeWhile_ne (hcol hone)) _ behind hinside (by rw [← hline', hstr])
  refine ⟨(line.takeWhile inKey).length + 1 + (rest.takeWhile inName).length + 1, ?_, ?_,
    fun h => hbehind (List.mem_cons_of_mem _ h), Nat.succ_pos _, ?_⟩
  · conv_lhs => rw [hline']
    simp only [List.length_append, List.length_cons]
    omega
  · have hstr' : str.drop parser.pos =
        (line.takeWhile inKey ++ '[' :: (rest.takeWhile inName ++ [']'])) ++ (behind ++ tail) := by
      rw [hstr]
      nth_rewrite 1 [hline']
      simp
    rw [← drop_of_drop hstr']
    congr 2
    simp only [List.length_append, List.length_cons, List.length_nil]
    omega
  · conv_lhs => rw [hline']
    exact hparse

end cut

/-- **The rest of a line** is read as the grammar says. -/
theorem key_agrees {str line tail : Text} {parser : Parser} (hkey : AtKey parser) (hpos : 1 ≤ parser.col)
    (hcol : parser.col = 1 → line.head? ≠ some ';') (hline : '\n' ∉ line) (hstr : str.drop parser.pos = line ++ tail) :
    Agrees (LineDone parser line.length) (keyItems line) (parseLoop str parser line >>= parserOnNewLine str) := by
  fun_induction keyItems line generalizing parser with
  | case1 line hrest => exact cut_nothing hkey hpos hcol hline hrest
  | case2 line value hnone hrest =>
    have hparse := cut_assignment hkey hpos hcol hline hstr hrest
    rw [hnone] at hparse
    exact hparse
  | case3 line value key hsome hrest =>
    have hparse := cut_assignment hkey hpos hcol hline hstr hrest
    rw [hsome] at hparse
    exact hparse
  | case4 line c rest hrest hc hname => exact cut_unclosed hkey hpos hcol hline hrest hc hname
  | case5 line c rest hrest hc d behind hname hnone =>
    obtain ⟨n, -, -, -, -, hparse⟩ := cut_header hkey hpos hcol hline hstr hrest hc hname
    rw [hparse, hnone]
    rfl
  | case6 line c rest hrest hc d behind hname name hsome hlength ih =>
    obtain ⟨n, hn, hbehind, hnewline, hlt, hparse⟩ := cut_header hkey hpos hcol hline hstr hrest hc hname
    have hopened : AtKey (parser.opened n name) := ⟨hkey.status, rfl, isSome_getSection_insertSection _ _⟩
    have hrec := ih hopened (Nat.le_add_right_of_le hpos)
      (fun hone => absurd hone (by show parser.col + n ≠ 1; omega)) hnewline hbehind
    rw [hparse, hsome]
    dsimp only
    rw [if_pos hlength]
    cases hitems : keyItems behind with
    | error e =>
      rw [hitems] at hrec
      exact hrec
    | ok items =>
      rw [hitems] at hrec
      obtain ⟨parser', hresult, hdone⟩ := hrec
      refine ⟨parser', hresult, hdone.atKey, hdone.col, ?_, hdone.outcome⟩
      rw [hdone.pos, hn]
      show parser.pos + n + behind.length + 1 = _
      omega
  | case7 line c rest hrest hc d behind hname name hsome hlength =>
    obtain ⟨n, -, -, -, -, hparse⟩ := cut_header hkey hpos hcol hline hstr hrest hc hname
    rw [hparse, hsome]
    dsimp only
    rw [if_neg hlength]
    rfl

/-- **A line** is read as the grammar says. -/
theorem line_agrees {str line tail : Text} {parser : Parser} (hkey : AtKey parser) (hcol : parser.col = 1)
    (hline : '\n' ∉ line) (hstr : str.drop parser.pos = line ++ tail) :
    Agrees (LineDone parser line.length) (lineItems line) (parseLoop str parser line >>= parserOnNewLine str) := by
  unfold lineItems
  split_ifs with hcomment
  · cases line with
    | nil => cases hcomment
    | cons c line =>
      obtain rfl : c = ';' := by simpa using hcomment
      have hjump : jump str ';' parser = .ok { parser.advance with status := .commentLine } := by
        show parserOnComment parser = _
        rw [parserOnComment, if_pos hcol]
      have hskip := @parseLoop_skip str line [] { parser.advance with status := .commentLine }
        (fun c hc heq => hline (heq ▸ List.mem_cons_of_mem _ hc))
        (fun hone => absurd hone (by show parser.col + 1 ≠ 1; omega)) (Nat.succ_pos _)
      rw [List.append_nil] at hskip
      rw [parseLoop, hjump]
      refine ⟨_, congrArg (· >>= parserOnNewLine str) hskip, ⟨rfl, rfl, hkey.current⟩, rfl, ?_, rfl⟩
      show parser.pos + 1 + line.length + 1 = parser.pos + (line.length + 1) + 1
      omega
  · exact key_agrees hkey hcol.ge (fun _ => hcomment) hline hstr

theorem parseLoop_append (str before rest : Text) (parser : Parser) :
    parseLoop str parser (before ++ rest) = parseLoop str parser before >>= fun parser => parseLoop str parser rest := by
  induction before generalizing parser with
  | nil => rfl
  | cons c before ih =>
    rw [List.cons_append, parseLoop, parseLoop, bind_assoc]
    exact congrArg _ (funext ih)

/-- The items of some lines. -/
def linesItems (lines : List Text) : Except ParseFailure (List Item) := do
  let items ← lines.mapM lineItems
  return items.flatten

theorem linesItems_cons (line : Text) (lines : List Text) : linesItems (line :: lines) = do
    let items ← lineItems line
    let rest ← linesItems lines
    return items ++ rest := by
  simp [linesItems]

/-- **Lines** are read one after the other. -/
theorem lines_agree {str : Text} {lines : List Text} (hne : lines ≠ []) (hlines : ∀ line ∈ lines, '\n' ∉ line)
    {parser : Parser} (hkey : AtKey parser) (hcol : parser.col = 1)
    (hstr : str.drop parser.pos = ['\n'].intercalate lines) :
    Agrees (fun items parser' => parser'.config = (items.foldl applyItem (parser.sectionName, parser.config)).2)
      (linesItems lines) (parseLoop str parser (['\n'].intercalate lines) >>= parserOnNewLine str) := by
  induction lines generalizing parser with
  | nil => exact absurd rfl hne
  | cons line lines ih =>
    obtain ⟨hline, hlines⟩ := List.forall_mem_cons.mp hlines
    rw [linesItems_cons]
    cases lines with
    | nil =>
      rw [List.intercalate_singleton] at hstr ⊢
      have hone := line_agrees hkey hcol hline (hstr.trans (List.append_nil line).symm)
      cases hitems : lineItems line with
      | error e =>
        rw [hitems] at hone
        exact hone
      | ok items =>
        rw [hitems] at hone
        obtain ⟨parser', hresult, hdone⟩ := hone
        refine ⟨parser', hresult, ?_⟩
        show parser'.config = ((items ++ []).foldl applyItem (parser.sectionName, parser.config)).2
        rw [List.append_nil, ← hdone.outcome]
    | cons line' lines =>
      have htext : ['\n'].intercalate (line :: line' :: lines) = line ++ '\n' :: ['\n'].intercalate (line' :: lines) := by
        rw [List.intercalate_cons_cons, List.append_assoc, List.singleton_append]
      rw [htext] at hstr ⊢
      have hone := line_agrees hkey hcol hline hstr
      have hloop : (parseLoop str parser (line ++ '\n' :: ['\n'].intercalate (line' :: lines)) >>= parserOnNewLine str) =
          (parseLoop str parser line >>= parserOnNewLine str) >>= fun parser =>
            parseLoop str parser (['\n'].intercalate (line' :: lines)) >>= parserOnNewLine str := by
        rw [parseLoop_append, bind_assoc, bind_assoc]
        refine congrArg _ (funext fun parser => ?_)
        rw [parseLoop, bind_assoc]
        rfl
      rw [hloop]
      cases hitems : lineItems line with
      | error e =>
        rw [hitems] at hone
        rw [show parseLoop str parser line >>= parserOnNewLine str = .error e from hone]
        rfl
      | ok items =>
        rw [hitems] at hone
        obtain ⟨parser', hresult, hdone⟩ := hone
        rw [hresult]
        have hrest : str.drop parser'.pos = ['\n'].intercalate (line' :: lines) := by
          rw [hdone.pos]
          exact @drop_of_drop str ['\n'] _ _ (drop_of_drop hstr)
        have hmore := ih (List.cons_ne_nil _ _) hlines hdone.atKey hdone.col hrest
        rw [hdone.outcome] at hmore
        cases hlast : linesItems (line' :: lines) with
        | error e =>
          rw [hlast] at hmore
          exact hmore
        | ok rest =>
          rw [hlast] at hmore
          obtain ⟨parser'', hresult', hdone'⟩ := hmore
          refine ⟨parser'', hresult', ?_⟩
          show parser''.config = ((items ++ rest).foldl applyItem (parser.sectionName, parser.config)).2
          rw [List.foldl_append]
          exact hdone'

/-- The configuration before the first character: the default section, empty. -/
def initialConfig : IniConfig := IniConfig.insertSection Btree.create defaultSection

/-- **The parser computes what the grammar says**: its failure, or the configuration after the edits. -/
theorem create_eq_grammar (str : Text) : iniConfigCreateFromString str = do
    let items ← textItems str
    return (edits defaultSection items).foldl IniConfig.edit initialConfig := by
  have hjoin : ['\n'].intercalate (str.splitOn '\n') = str := List.intercalate_splitOn '\n'
  have hlines : ∀ line ∈ str.splitOn '\n', '\n' ∉ line := fun line h => Split.not_mem_of_mem_splitOn h
  have hagrees := @lines_agree str (str.splitOn '\n') (List.splitOn_ne_nil _ _) hlines Parser.initial
    ⟨rfl, rfl, isSome_getSection_insertSection _ _⟩ rfl hjoin.symm
  rw [hjoin] at hagrees
  have hcreate : iniConfigCreateFromString str = do
      let parser ← parseLoop str Parser.initial str >>= parserOnNewLine str
      return parser.config := by
    rw [iniConfigCreateFromString, bind_assoc]
  rw [hcreate]
  cases hitems : textItems str with
  | error e =>
    rw [show linesItems (str.splitOn '\n') = .error e from hitems] at hagrees
    rw [show parseLoop str Parser.initial str >>= parserOnNewLine str = .error e from hagrees]
    rfl
  | ok items =>
    rw [show linesItems (str.splitOn '\n') = .ok items from hitems] at hagrees
    obtain ⟨parser, hresult, hconfig⟩ := hagrees
    rw [hresult]
    exact congrArg Except.ok (hconfig.trans (foldl_applyItem items defaultSection initialConfig))

/-- **The parser is the grammar**: it fails as the grammar does, and otherwise leaves the configuration that the items of
the text, as edits, lead to. -/
theorem create_iff (str : Text) :
    (∀ e, iniConfigCreateFromString str = .error e ↔ textItems str = .error e) ∧
      ∀ config, iniConfigCreateFromString str = .ok config ↔
        ∃ items, textItems str = .ok items ∧ config = (edits defaultSection items).foldl IniConfig.edit initialConfig := by
  rw [create_eq_grammar]
  cases textItems str with
  | error e =>
    refine ⟨fun e' => ⟨fun h => ?_, fun h => ?_⟩, fun config => ⟨fun h => ?_, ?_⟩⟩
    · cases h
      rfl
    · cases h
      rfl
    · cases h
    · rintro ⟨items, hitems, -⟩
      cases hitems
  | ok items =>
    refine ⟨fun e => ⟨fun h => ?_, fun h => ?_⟩, fun config => ⟨fun h => ?_, ?_⟩⟩
    · cases h
    · cases h
    · exact ⟨items, rfl, (Except.ok.inj h).symm⟩
    · rintro ⟨items', hitems, rfl⟩
      rw [Except.ok.inj hitems]
      rfl

theorem sound_initialConfig : initialConfig.Sound := IniConfig.sound_create.insertSection defaultSection

end ConfFile

end Mcc
