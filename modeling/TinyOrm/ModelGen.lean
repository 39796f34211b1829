import TinyOrm.Migration
import TinyOrm.Tags
set_option autoImplicit false

/-!
The model generator (generator/ModelGen.cpp) and the macros through which a
generated header becomes a `Model` (reflection.h, model.h).

A header is the list of its macro calls; an argument is the text that was printed
for it. Of the rules of the language the model has those on names; no name is that
of a macro or hides a name that the macros use.
-/

namespace TinyOrm

/-! ## The generator -/

/-- `column(name, type, tags(tags))`. -/
structure ColumnLine where
  name : Str
  type : Str
  tags : Str
  deriving DecidableEq, Repr

/-- `add_unique(name, args)` or `add_index(name, args)`. -/
structure IndexLine where
  unique : Bool
  name : Str
  args : List Str
  deriving DecidableEq, Repr

structure ModelHeader where
  entity : Str
  tableName : Str
  columns : List ColumnLine
  indices : List IndexLine
  deriving DecidableEq, Repr

namespace ModelGen

/-- What is printed between the brackets of `tags`. -/
def tags (f : FieldMeta) : Str :=
  "name = ".toList ++ f.columnName.getD [] ++ ", type = ".toList ++ f.columnType.getD [] ++
    (if f.isPk then ", pk".toList else []) ++
    (if f.autoInc then " auto_increment".toList else []) ++
    (if f.notNull then ", not null".toList else []) ++
    (if f.default_.length > 0 then ", default ".toList ++ f.default_ else []) ++
    (if f.extra.length > 0 then ", ".toList ++ f.extra else [])

def columnLine (f : FieldMeta) : ColumnLine where
  name := dbToCpp (f.columnName.getD []) false
  type := f.cppType
  tags := tags f

/-- `loadFromDB` makes indexes of the first three types only. -/
def indexLine (index : Index) : Option IndexLine :=
  match index.type with
  | .INDEX_TYPE_PRI => none
  | .INDEX_TYPE_MUL => some ⟨false, index.name, index.columns⟩
  | .INDEX_TYPE_UNI => some ⟨true, index.name, index.columns⟩
  | .other _ => none

/-- `gen` on what `loadFromDB` has returned. -/
def gen (table : Str) (loaded : Loaded) : Option ModelHeader :=
  if loaded.fields.length = 0 then none
  else
    some { entity := dbToCpp table true
           tableName := table
           columns := loaded.fields.map columnLine
           indices := loaded.indices.entries.filterMap fun entry => indexLine entry.2 }

end ModelGen

/-! ## The macros -/

def spaces : Str := [' ', '\t', '\n', '\x0b', '\x0c', '\r']

/-- `#arg`: a blank for every run of white space, none at the ends. -/
def stringify (arg : Str) : Str := Util.join ' ' (Util.split arg spaces)

/-- `STR_LIST_n`: there is no `STR_LIST_6`, and `STR_LIST_7` goes on with
`STR_LIST_5`. `none`: the macro does not exist or takes fewer arguments. -/
def STR_LIST : Nat → List Str → Option (List Str)
  | _, [] => none
  | n, arg :: args =>
    if n = 1 then (if args = [] then some [stringify arg] else none)
    else if n = 0 ∨ n = 6 ∨ 20 < n then none
    else (STR_LIST (if n = 7 then 5 else n - 1) args).map (stringify arg :: ·)

def MAKE_INITIAL_LIST (args : List Str) : Option (List Str) := STR_LIST args.length args

/-- The arguments with the commas between them. -/
def vaArgs : List Str → Str
  | [] => []
  | [arg] => arg
  | arg :: next :: args => arg ++ ", ".toList ++ vaArgs (next :: args)

/-- `type name;` needs a type. Of the offsets only the order matters. -/
def ColumnLine.register (offset : Nat) (line : ColumnLine) : Option (Str × Metadata) :=
  if line.type = [] then none
  else some (stringify line.name, ⟨stringify line.type, offset, stringify line.tags⟩)

/-- `add_index` makes one string of all its columns. -/
def IndexLine.register (line : IndexLine) : Option Index :=
  if line.unique then
    (MAKE_INITIAL_LIST line.args).map fun columns =>
      ⟨.INDEX_TYPE_UNI, stringify line.name, columns⟩
  else some ⟨.INDEX_TYPE_MUL, stringify line.name, [stringify (vaArgs line.args)]⟩

def registerColumns : Nat → List ColumnLine → Option (List (Str × Metadata))
  | _, [] => some []
  | offset, line :: lines => do
    let entry ← line.register offset
    let entries ← registerColumns (offset + 1) lines
    some (entry :: entries)

def tablename : Str := "tablename".toList

/-! ## Names of the header -/

def cppKeywords : List Str :=
  ["alignas", "alignof", "and", "and_eq", "asm", "auto", "bitand", "bitor", "bool", "break",
    "case", "catch", "char", "char16_t", "char32_t", "class", "compl", "const", "const_cast",
    "constexpr", "continue", "decltype", "default", "delete", "do", "double", "dynamic_cast",
    "else", "enum", "explicit", "export", "extern", "false", "float", "for", "friend", "goto",
    "if", "inline", "int", "long", "mutable", "namespace", "new", "noexcept", "not", "not_eq",
    "nullptr", "operator", "or", "or_eq", "private", "protected", "public", "register",
    "reinterpret_cast", "return", "short", "signed", "sizeof", "static", "static_assert",
    "static_cast", "struct", "switch", "template", "this", "thread_local", "throw", "true", "try",
    "typedef", "typeid", "typename", "union", "unsigned", "using", "virtual", "void", "volatile",
    "wchar_t", "while", "xor", "xor_eq"].map String.toList

def nameChar (c : Char) : Bool := islower c || isupper c || c.isDigit || c = '_'

/-- An identifier in the basic character set. -/
def CppIdentifier (s : Str) : Prop :=
  s ≠ [] ∧ s.head?.any Char.isDigit = false ∧ s.all nameChar = true ∧ s ∉ cppKeywords

instance (s : Str) : Decidable (CppIdentifier s) := inferInstanceAs (Decidable (_ ∧ _ ∧ _ ∧ _))

/-- The class, its members and the collectors of the header can be declared. -/
structure ModelHeader.Declares (h : ModelHeader) : Prop where
  entity : CppIdentifier h.entity
  table : CppIdentifier ("collector_table_".toList ++ h.tableName)
  members : ∀ line ∈ h.columns, CppIdentifier line.name ∧ line.name ≠ h.entity
  distinct : (h.columns.map (·.name)).Nodup
  indices : ∀ line ∈ h.indices, CppIdentifier ("collector_index_".toList ++ line.name)

/-! ## The constructor -/

/-- `meta.index.name = ...` for a column that has an index of its own. -/
def FieldMeta.nameIndex (field : FieldMeta) : FieldMeta :=
  if field.hasIndex then
    let name := if field.index.type = .INDEX_TYPE_PRI then PRIMARY else field.getColumnName
    { field with index := { field.index with name := name } }
  else field

/-- `indices[meta.index.name] = meta.index` for the same columns. -/
def addOwnIndex (indices : Indices) (field : FieldMeta) : Indices :=
  if field.hasIndex then indices.insert field.index.name field.index else indices

/-- The constructor of `Model`. The members in `metadatas` are those of the map but
for `tablename`, whose tag is `table`; they stand in the order of their offsets. -/
def Model.construct (className table : Str) (metadatas : List (Str × Metadata))
    (inds : List Index) : Model :=
  let metadata := metadatas.map fun it => (FieldMeta.ofMetadata it.1 it.2).nameIndex
  { className := className
    tableName := some table
    metadata := metadata
    columnToIndex := fillColumnToIndex metadata 0 ∅
    indices :=
      metadata.foldl addOwnIndex (inds.foldl (fun indices i => indices.insert i.name i) ∅) }

/-- A model that a program may make of the header. A column whose member is called
`tablename` is registered under the key of the table name, and the collectors run
in no particular order: either of the two tags may be the one that is left. -/
inductive ModelHeader.Reads (h : ModelHeader) : Model → Prop
  | intro {metadatas : List (Str × Metadata)} {inds : List Index} {table : Str}
      (hnames : h.Declares) (hcolumns : registerColumns 0 h.columns = some metadatas)
      (hindices : h.indices.mapM IndexLine.register = some inds)
      (htable : table = stringify h.tableName ∨
        ∃ it ∈ metadatas, it.1 = tablename ∧ table = it.2.tag) :
      h.Reads (Model.construct h.entity table (metadatas.filter fun it => it.1 ≠ tablename) inds)

end TinyOrm
