import Mcc.Lib.SearchTree
import Mcc.Lib.Xml
import Mcc.Model.IntOp

/-!
# `Model.ConfFile` — configuration files

`confile.c`: the search trees the configuration is kept in, the parser, and what is read, set and saved; and the
`ConfigParser` that stands before it.

The characters of a text stand for bytes, and none is the terminator. A section is a tree of its own; one pointer leads
to it, so it is the data of its name. The parser is the machine of the source: each action looks at the status and moves
on by one character.
-/

namespace Mcc

namespace ConfFile

open SearchTree Xml

/-! ## The trees -/

/-- `memcmp(key, p->key, key_len)`: the terminator comes before every character. -/
def memcmp : Text → Text → Ordering
  | [], _ => .eq
  | _ :: _, [] => .gt
  | c :: key, d :: p => if c < d then .lt else if d < c then .gt else memcmp key p

/-- `CONFIG_BTREE`, with data of this type. -/
structure Btree (V : Type) where
  numNodes : ℕ
  root : SearchTree Text V

namespace Btree

variable {V : Type}

/-- `config_btree_create`. -/
def create : Btree V := ⟨0, .leaf⟩

/-- `config_btree_insert_node`: 1 for a new node, 2 for an update. -/
def insertNode (config : Btree V) (key : Text) (data : V) : Int × Btree V :=
  match replaced memcmp key config.root with
  | none => (1, ⟨config.numNodes + 1, config.root.insert memcmp key data⟩)
  | some _ => (2, ⟨config.numNodes, config.root.insert memcmp key data⟩)

/-- `config_btree_find_node`; `strcmp` is the order of the texts. -/
def findNode (config : Btree V) (key : Text) : Option V := config.root.find key

/-- `config_btree_delete_node`: 1 if there was such a node. -/
def deleteNode (config : Btree V) (key : Text) : Int × Btree V :=
  match findNode config key with
  | none => (0, config)
  | some _ => (1, ⟨config.numNodes - 1, config.root.delete key⟩)

end Btree

/-- `INI_CONFIG`. -/
abbrev IniConfig := Btree (Btree Text)

namespace IniConfig

/-- `config_btree_insert_section`: an empty section, whatever was there. -/
def insertSection (config : IniConfig) (sectionName : Text) : IniConfig :=
  (config.insertNode sectionName Btree.create).2

/-- `config_btree_get_section`. -/
def getSection (config : IniConfig) (sectionName : Text) : Option (Btree Text) := config.findNode sectionName

/-- A node is set in a section that is there. -/
def setInSection (config : IniConfig) (sectionName key value : Text) : IniConfig :=
  ⟨config.numNodes, config.root.modify sectionName fun sec => (sec.insertNode key value).2⟩

/-- `config_btree_insert_section_node`; without a result it has returned 0. -/
def insertSectionNode (config : IniConfig) (sectionName key value : Text) : Option IniConfig :=
  match getSection config sectionName with
  | none => none
  | some _ => some (setInSection config sectionName key value)

end IniConfig

/-! ## The parser -/

/-- `PARSE_STATUS_…`. -/
inductive ParseStatus where
  | getKeyOrSection
  | getSection
  | getValue
  | commentLine
deriving DecidableEq

/-- `PARSER`, apart from the text itself. -/
structure Parser where
  status : ParseStatus
  pos : ℕ
  start1 : ℕ
  end1 : ℕ
  start2 : ℕ
  row : ℕ
  col : ℕ
  config : IniConfig
  sectionName : Text

/-- How parsing ends otherwise. -/
inductive ParseFailure where
  /-- an action has returned 0, so there is no configuration -/
  | null
  /-- `section_name` has been written, or is read, beyond its end -/
  | undefined
deriving DecidableEq

/-- `MAX_SECTION_SIZE` -/
def maxSectionSize : ℕ := 64

/-- What `mem_trim` takes off. -/
def isBlank (c : Char) : Bool := c == ' ' || c == '\r' || c == '\n'

/-- `mem_trim`: null if nothing is left. -/
def memTrim (src : Text) : Option Text :=
  match (src.dropWhile isBlank).rdropWhile isBlank with
  | [] => none
  | trimmed => some trimmed

/-- The bytes from `start` to `stop`. -/
def slice (str : Text) (start stop : ℕ) : Text := (str.drop start).take (stop - start)

/-- `pos++; col++;` -/
def Parser.advance (parser : Parser) : Parser := { parser with pos := parser.pos + 1, col := parser.col + 1 }

/-- `parser_default_action`. -/
def parserDefaultAction (parser : Parser) : Except ParseFailure Parser := .ok parser.advance

/-- `parser_on_section_start`. -/
def parserOnSectionStart (parser : Parser) : Except ParseFailure Parser :=
  match parser.status with
  | .getKeyOrSection => .ok { parser.advance with start1 := parser.pos + 1, status := .getSection }
  | _ => .ok parser.advance

/-- `parser_on_section_end`. -/
def parserOnSectionEnd (str : Text) (parser : Parser) : Except ParseFailure Parser :=
  match parser.status with
  | .getSection =>
    match memTrim (slice str parser.start1 parser.pos) with
    | none => .error .null
    | some p =>
      -- the terminator needs a byte too
      if p.length < maxSectionSize then
        .ok { parser.advance with
              sectionName := p, config := parser.config.insertSection p
              status := .getKeyOrSection, start1 := parser.pos + 1 }
      else .error .undefined
  | _ => .ok parser.advance

/-- `parser_on_value_start`. -/
def parserOnValueStart (parser : Parser) : Except ParseFailure Parser :=
  match parser.status with
  | .getKeyOrSection =>
    .ok { parser.advance with status := .getValue, end1 := parser.pos, start2 := parser.pos + 1 }
  | _ => .ok parser.advance

/-- What `parser_on_new_line` does at its end. -/
def Parser.nextLine (parser : Parser) : Parser :=
  { parser with
    start1 := parser.pos + 1, status := .getKeyOrSection, pos := parser.pos + 1, col := 1, row := parser.row + 1 }

/-- `parser_on_new_line`. -/
def parserOnNewLine (str : Text) (parser : Parser) : Except ParseFailure Parser :=
  match parser.status with
  | .commentLine => .ok parser.nextLine
  | .getValue =>
    match memTrim (slice str parser.start1 parser.end1) with
    | none => .error .null
    | some k =>
      let v := (memTrim (slice str parser.start2 parser.pos)).getD []
      match parser.config.insertSectionNode parser.sectionName k v with
      | none => .error .null
      | some config => .ok { parser.nextLine with config := config }
  | .getKeyOrSection => .ok parser.nextLine
  | .getSection => .error .null

/-- `parser_on_comment`. -/
def parserOnComment (parser : Parser) : Except ParseFailure Parser :=
  if parser.col = 1 then .ok { parser.advance with status := .commentLine } else .ok parser.advance

/-- `funcs[str[parser.pos]](&parser)`. -/
def jump (str : Text) (c : Char) (parser : Parser) : Except ParseFailure Parser :=
  if c = '[' then parserOnSectionStart parser
  else if c = ']' then parserOnSectionEnd str parser
  else if c = '=' then parserOnValueStart parser
  else if c = '\n' then parserOnNewLine str parser
  else if c = ';' then parserOnComment parser
  else parserDefaultAction parser

/-- `while(parser.pos<slen)`; the last argument is the text from `pos` on. -/
def parseLoop (str : Text) (parser : Parser) : Text → Except ParseFailure Parser
  | [] => .ok parser
  | c :: rest => do
    let parser ← jump str c parser
    parseLoop str parser rest

/-- `"default"` -/
def defaultSection : Text := "default".toList

/-- The parser before the first character. -/
def Parser.initial : Parser where
  status := .getKeyOrSection
  pos := 0
  start1 := 0
  end1 := 0
  start2 := 0
  row := 1
  col := 1
  config := IniConfig.insertSection Btree.create defaultSection
  sectionName := defaultSection

/-- `ini_config_create_from_string`. -/
def iniConfigCreateFromString (str : Text) : Except ParseFailure IniConfig := do
  let parser ← parseLoop str Parser.initial str
  let parser ← parserOnNewLine str parser
  return parser.config

/-- `ini_config_create_from_file`: what the file holds, if it can be read. Without a length the parser looks for a
terminator, and there is none. -/
def iniConfigCreateFromFile : Option Text → Except ParseFailure IniConfig
  | none => .error .null
  | some [] => .error .undefined
  | some buf => iniConfigCreateFromString buf

/-! ## Reading and setting -/

/-- `atoi`; what an `int` cannot hold is no result. -/
def atoi (str : Text) : Option Int := IntOp.int ((scanInt str).getD 0)

/-- A section that is null is the default one. -/
def sectionOf (sectionName : Option Text) : Text := sectionName.getD defaultSection

namespace IniConfig

/-- The node of a key in a section. -/
def lookup (config : IniConfig) (sectionName key : Text) : Option Text :=
  (config.getSection sectionName).bind fun sec => sec.findNode key

/-- `ini_config_get_string`. -/
def getString (config : IniConfig) (sectionName : Option Text) (key : Text) (defaultString : Option Text) : Option Text :=
  match config.lookup (sectionOf sectionName) key with
  | none => defaultString
  | some data => some data

/-- `ini_config_get_int`. -/
def getInt (config : IniConfig) (sectionName : Option Text) (key : Text) (defaultInt : Int) : Option Int :=
  match config.lookup (sectionOf sectionName) key with
  | none => some defaultInt
  | some data => atoi data

/-- `ini_config_set_string`. -/
def setString (config : IniConfig) (sectionName : Option Text) (key value : Text) : IniConfig :=
  let name := sectionOf sectionName
  match config.getSection name with
  | none => (config.insertSection name).setInSection name key value
  | some _ => config.setInSection name key value

/-- `ini_config_set_int`. -/
def setInt (config : IniConfig) (sectionName : Option Text) (key : Text) (value : Int) : IniConfig :=
  config.setString sectionName key (decimal value)

/-! ## Saving -/

/-- `ini_config_save_traverse_value`. -/
def saveValue (node : Text × Text) : Text := node.1 ++ '=' :: node.2 ++ ['\n']

/-- `ini_config_save_traverse_section`. -/
def saveSection (node : Text × Btree Text) : Text :=
  '[' :: node.1 ++ [']', '\n'] ++ node.2.root.entries.flatMap saveValue

/-- `ini_config_print`, and what `ini_config_save` writes. -/
def print (config : IniConfig) : Text := config.root.entries.flatMap saveSection

end IniConfig

end ConfFile

/-! ## `ConfigParser` -/

open ConfFile Xml

/-- `ConfigParser`. -/
structure ConfigParser where
  mFileConfig : Option IniConfig

namespace ConfigParser

/-- `Parse`: -1 without a configuration. -/
def parse (file : Option Text) : Except ParseFailure (Int × ConfigParser) :=
  match iniConfigCreateFromFile file with
  | .ok config => .ok (0, ⟨some config⟩)
  | .error .null => .ok (-1, ⟨none⟩)
  | .error .undefined => .error .undefined

/-- `getConfigString`. -/
def getConfigString (config : ConfigParser) (sectionName name : Text) (defaultString : Option Text) : Option Text :=
  config.mFileConfig.bind fun file => file.getString sectionName name defaultString

/-- `getConfigInt`. -/
def getConfigInt (config : ConfigParser) (sectionName name : Text) (defaultInt : Int) : Option Int :=
  match config.mFileConfig with
  | none => some (-1)
  | some file => file.getInt sectionName name defaultInt

/-- `getConfigBool`; -1 is true. -/
def getConfigBool (config : ConfigParser) (sectionName name : Text) (defaultVal : Bool) : Option Bool :=
  (config.getConfigInt sectionName name (if defaultVal then 1 else 0)).map fun n => decide (n ≠ 0)

end ConfigParser

end Mcc
