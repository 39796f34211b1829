import TinyOrm.Text
set_option autoImplicit false

/-!
Naming rules and the type tables of rules.json (naming.h, conf.h).
-/

namespace TinyOrm

/-! ## Names -/

/-- `if(res.length() > 0) res.append("_"); res.append(sub)` with `sub` lowered. -/
def appendSub (res sub : Str) : Str :=
  (if res.length > 0 then res ++ ['_'] else res) ++ Util.toLowerCase sub

/-- The loop of `cppToDb`: `sub` is `name.substr(l, i - l)`, and `flag` says that
the scan is inside a run of upper-case letters. -/
def cppToDbLoop (flag : Bool) (res sub : Str) : Str → Str × Str
  | [] => (res, sub)
  | c :: cs =>
    let flag := if isupper c then flag else false
    if !flag && isupper c then cppToDbLoop true (appendSub res sub) [c] cs
    else cppToDbLoop flag res (sub ++ [c]) cs

def cppToDb (name : Str) : Str :=
  if name.length = 0 then []
  else
    let (res, sub) := cppToDbLoop true [] [] name
    appendSub res sub

def capitalize : Str → Str
  | [] => []
  | c :: cs => (if islower c then Char.ofNat (c.toNat - 32) else c) :: cs

def dbToCppParts (cap_ini : Bool) : List Str → Str
  | [] => []
  | v :: vs => (if cap_ini then capitalize v else v) ++ dbToCppParts true vs

def dbToCpp (name : Str) (cap_ini : Bool) : Str := dbToCppParts cap_ini (Util.split name ['_'])

/-! ## rules.json -/

/-- The three tables under "mysql". -/
structure Config where
  same_types : List (Str × List Str)
  default_types : List (Str × Str)
  db_cpp_types : List (Str × Str)
  deriving DecidableEq, Repr

/-- A key that is missing makes `get` throw, which the callers catch. -/
def Config.sameTypes (conf : Config) (type1 : Str) : Option (List Str) :=
  conf.same_types.lookup (type1.take 3)

def isSameDbType (conf : Config) (type1 type2 : Str) : Bool :=
  match conf.sameTypes type1 with
  | none => type1 = type2
  | some types => if type1 ∈ types then type2 ∈ types else type1 = type2

def current_timestamp : Str := "current_timestamp".toList

def now : Str := "now()".toList

/-- `none`: control runs off the end of the function, whose result is then
undefined. -/
def isSame (s1 s2 : Str) : Option Bool :=
  let _s1 := Util.toLowerCase s1
  let _s2 := Util.toLowerCase s2
  if s1 = s2 then some true
  else if _s1 = now then some (_s2 = current_timestamp)
  else if _s2 = now then some (_s1 = current_timestamp)
  else none

def cppTypeToDbType (conf : Config) (cppType : Str) : Str :=
  (conf.default_types.lookup cppType).getD cppType

def dbTypeToCppType (conf : Config) (dbType : Str) : Str :=
  (conf.db_cpp_types.lookup (dbType.takeWhile (· ≠ '('))).getD []

theorem isSameDbType_refl (conf : Config) (type : Str) : isSameDbType conf type type = true := by
  unfold isSameDbType
  cases conf.sameTypes type with
  | none => simp
  | some types => by_cases h : type ∈ types <;> simp [h]

theorem isSame_refl (s : Str) : isSame s s = some true := by simp [isSame]

/-- The two directions of one value of the present time, up to letter case. -/
theorem isSame_eq_true_iff {s1 s2 : Str} :
    isSame s1 s2 = some true ↔ s1 = s2 ∨
      (Util.toLowerCase s1 = now ∧ Util.toLowerCase s2 = current_timestamp) ∨
      (Util.toLowerCase s1 = current_timestamp ∧ Util.toLowerCase s2 = now) := by
  have hne : now ≠ current_timestamp := by decide
  unfold isSame
  by_cases heq : s1 = s2
  · simp [heq]
  · by_cases h1 : Util.toLowerCase s1 = now
    · simp [heq, h1, hne]
    · by_cases h2 : Util.toLowerCase s2 = now <;> simp [heq, h1, h2]

theorem isSame_eq_none_iff {s1 s2 : Str} :
    isSame s1 s2 = none ↔
      s1 ≠ s2 ∧ Util.toLowerCase s1 ≠ now ∧ Util.toLowerCase s2 ≠ now := by
  unfold isSame
  by_cases heq : s1 = s2
  · simp [heq]
  · by_cases h1 : Util.toLowerCase s1 = now
    · simp [heq, h1]
    · by_cases h2 : Util.toLowerCase s2 = now <;> simp [heq, h1, h2]

theorem mem_of_lookup {α : Type} {key : Str} {types : α} {tables : List (Str × α)}
    (h : tables.lookup key = some types) : (key, types) ∈ tables := by
  induction tables with
  | nil => cases h
  | cons entry tables ih =>
    rw [List.lookup_cons] at h
    by_cases hkey : key = entry.1
    · simp only [hkey, beq_self_eq_true, Option.some.injEq] at h
      simp [hkey, ← h]
    · have hne : (key == entry.1) = false := by simpa using hkey
      rw [hne] at h
      exact List.mem_cons_of_mem _ (ih h)

private def strs (l : List String) : List Str := l.map String.toList

/-- The rules.json shipped with the library. -/
def rulesJson : Config where
  same_types :=
    [("int".toList, strs ["integer", "int", "int(11)"]),
     ("tin".toList, strs ["tinyint", "tinyint(4)"]),
     ("sma".toList, strs ["smallint", "smallint(6)"]),
     ("med".toList, strs ["mediumint", "mediumint(9)"]),
     ("big".toList, strs ["bigint", "bigint(20)"]),
     ("yea".toList, strs ["year", "year(4)"])]
  default_types :=
    [("bool".toList, "tinyint".toList), ("short".toList, "smallint".toList),
     ("int".toList, "integer".toList), ("long long".toList, "bigint".toList),
     ("float".toList, "float".toList), ("double".toList, "double".toList),
     ("char".toList, "char".toList), ("string".toList, "varchar(255)".toList),
     ("std::string".toList, "varchar(255)".toList), ("Timestamp".toList, "timestamp".toList)]
  db_cpp_types :=
    [("timestamp".toList, "Timestamp".toList), ("datetime".toList, "Timestamp".toList),
     ("time".toList, "Timestamp".toList), ("date".toList, "Timestamp".toList),
     ("year".toList, "Timestamp".toList), ("tinytext".toList, "std::string".toList),
     ("mediumtext".toList, "std::string".toList), ("text".toList, "std::string".toList),
     ("longtext".toList, "std::string".toList), ("tinyblob".toList, "std::string".toList),
     ("mediumblob".toList, "std::string".toList), ("blob".toList, "std::string".toList),
     ("longblob".toList, "std::string".toList), ("varchar".toList, "std::string".toList),
     ("int".toList, "int".toList), ("mediumint".toList, "int".toList),
     ("tinyint".toList, "bool".toList), ("smallint".toList, "short".toList),
     ("bigint".toList, "long long".toList), ("float".toList, "float".toList),
     ("double".toList, "double".toList), ("decimal".toList, "double".toList),
     ("char".toList, "char".toList)]

theorem no_comma_of_same {type1 type2 : Str} (h : isSameDbType rulesJson type1 type2 = true)
    (h1 : ',' ∉ type1) : ',' ∉ type2 := by
  have hrules : ∀ entry ∈ rulesJson.same_types, ∀ type ∈ entry.2, ',' ∉ type := by decide
  unfold isSameDbType at h
  split at h
  · have heq : type1 = type2 := by simpa using h
    rwa [← heq]
  · rename_i types htypes
    split at h
    · exact hrules _ (mem_of_lookup htypes) _ (by simpa using h)
    · have heq : type1 = type2 := by simpa using h
      rwa [← heq]

theorem no_comma_dbType {cppType : Str} (h : ',' ∉ cppType) :
    ',' ∉ cppTypeToDbType rulesJson cppType := by
  have hrules : ∀ entry ∈ rulesJson.default_types, ',' ∉ entry.2 := by decide
  unfold cppTypeToDbType
  cases hlookup : rulesJson.default_types.lookup cppType with
  | none => exact h
  | some type => exact hrules _ (mem_of_lookup hlookup)

theorem no_comma_cppType (dbType : Str) : ',' ∉ dbTypeToCppType rulesJson dbType := by
  have hrules : ∀ entry ∈ rulesJson.db_cpp_types, ',' ∉ entry.2 := by decide
  unfold dbTypeToCppType
  cases hlookup : rulesJson.db_cpp_types.lookup (dbType.takeWhile (· ≠ '(')) with
  | none => simp
  | some type => exact hrules _ (mem_of_lookup hlookup)

theorem length_of_cppType {dbType : Str} (h : dbTypeToCppType rulesJson dbType ≠ []) :
    3 ≤ dbType.length := by
  have hrules : ∀ entry ∈ rulesJson.db_cpp_types, 3 ≤ entry.1.length := by decide
  unfold dbTypeToCppType at h
  cases hlookup : rulesJson.db_cpp_types.lookup (dbType.takeWhile (· ≠ '(')) with
  | none =>
    rw [hlookup] at h
    exact absurd rfl h
  | some type =>
    have hkey := hrules _ (mem_of_lookup hlookup)
    have hle := (List.takeWhile_prefix (· ≠ '(') (l := dbType)).length_le
    exact Nat.le_trans hkey hle

example : cppToDb "createTime".toList = "create_time".toList := by decide
example : isSameDbType rulesJson "integer".toList "int(11)".toList = true := by decide

end TinyOrm
