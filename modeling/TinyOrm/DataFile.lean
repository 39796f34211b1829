import TinyOrm.DataFileReader
set_option autoImplicit false

/-!
The metadata file as a whole: what `saveModel` wrote for a class is what
`loadFromFile` returns for it.
-/

namespace TinyOrm

open LoadState

/-- The models saved one after another into the same file. -/
def saveAll (conf : Config) (file : Str) : List SavedModel → Option Str
  | [] => some file
  | m :: models => do
    let data ← m.save conf
    saveAll conf (file ++ data) models

/-- The load ends and returns `out` from empty outputs. -/
def Loads (file className : Str) (out : Loaded) : Prop :=
  ∃ n, ∀ fuel, n ≤ fuel → loadFromFile fuel (some file) className {} = some out

theorem Loads.unique {file className : Str} {out out' : Loaded} (h : Loads file className out)
    {fuel : Nat} (h' : loadFromFile fuel (some file) className {} = some out') : out' = out := by
  obtain ⟨n, hn⟩ := h
  have hn := hn n (Nat.le_refl n)
  simp only [loadFromFile, Option.map_eq_some_iff] at hn h'
  obtain ⟨s, hs, rfl⟩ := hn
  obtain ⟨s', hs', rfl⟩ := h'
  rw [Loop.run_unique hs' hs]

structure Loaded.Describes (conf : Config) (out : Loaded) (m : SavedModel) : Prop where
  tableName : out.tableName = m.tableName
  fields : out.fields = m.fields.map (FieldMeta.stored conf)
  indices : ∀ name, out.indices.lookup name = m.indices.lookup name
  nameToIndex : ∀ name i, out.nameToIndex.lookup name = some i ↔
    (m.fields.map FieldMeta.getColumnName)[i]? = some name

theorem saveAll_eq {conf : Config} (models : List SavedModel)
    (hok : ∀ m ∈ models, m.Storable conf) (file : Str) :
    saveAll conf file models = some (file ++ fileBytes conf models) := by
  induction models generalizing file with
  | nil => simp [saveAll, fileBytes]
  | cons m models ih =>
    have hm := SavedModel.save_eq (hok m (by simp))
    have hrest := ih (fun m' hm' => hok m' (by simp [hm'])) (file ++ m.bytes conf)
    simp only [saveAll, hm, Option.bind_eq_bind, Option.bind_some, hrest, fileBytes,
      List.flatMap_cons, List.append_assoc]

/-! ## The outputs -/

theorem foldl_addColumn (conf : Config) (fields : List FieldMeta) (out : Loaded) :
    (fields.foldl (addColumn conf) out).fields = out.fields ++ fields.map (FieldMeta.stored conf) ∧
      (fields.foldl (addColumn conf) out).tableName = out.tableName ∧
      (fields.foldl (addColumn conf) out).indices = out.indices := by
  induction fields generalizing out with
  | nil => simp
  | cons field fields ih =>
    obtain ⟨hf, ht, hi⟩ := ih (addColumn conf out field)
    simp only [List.foldl_cons, hf, ht, hi]
    simp [addColumn]

theorem foldl_addColumn_nameToIndex (conf : Config) (fields : List FieldMeta) (out : Loaded)
    (hdistinct : (fields.map FieldMeta.getColumnName).Nodup)
    (hnew : ∀ field ∈ fields, out.nameToIndex.lookup field.getColumnName = none)
    (name : Str) (i : Nat) :
    (fields.foldl (addColumn conf) out).nameToIndex.lookup name = some i ↔
      out.nameToIndex.lookup name = some i ∨
        (out.fields.length ≤ i ∧
          (fields.map FieldMeta.getColumnName)[i - out.fields.length]? = some name) := by
  induction fields generalizing out with
  | nil => simp
  | cons field fields ih =>
    simp only [List.map_cons, List.nodup_cons] at hdistinct
    obtain ⟨hnot, hdistinct⟩ := hdistinct
    have hnew' : ∀ f ∈ fields,
        (addColumn conf out field).nameToIndex.lookup f.getColumnName = none := by
      intro f hf
      have hne : f.getColumnName ≠ field.getColumnName := by
        intro he
        exact hnot (he ▸ List.mem_map_of_mem hf)
      simp only [addColumn, AList.lookup_insert_ne hne]
      exact hnew f (by simp [hf])
    have hlen : (addColumn conf out field).fields.length = out.fields.length + 1 := by
      simp [addColumn]
    simp only [List.foldl_cons, ih _ hdistinct hnew', hlen, List.map_cons]
    by_cases hname : name = field.getColumnName
    · subst hname
      have hhead := hnew field (by simp)
      simp only [addColumn, AList.lookup_insert, hhead, Option.some.injEq, reduceCtorEq, false_or]
      constructor
      · rintro (rfl | ⟨hle, hget⟩)
        · simp
        · exact absurd (List.mem_of_getElem? hget) hnot
      · rintro ⟨hle, hget⟩
        by_cases hi : i = out.fields.length
        · exact Or.inl hi.symm
        · obtain ⟨k, hk⟩ : ∃ k, i - out.fields.length = k + 1 :=
            ⟨i - out.fields.length - 1, by omega⟩
          rw [hk, List.getElem?_cons_succ] at hget
          exact absurd (List.mem_of_getElem? hget) hnot
    · simp only [addColumn, AList.lookup_insert_ne hname]
      have hiff : (out.fields.length + 1 ≤ i ∧
          (fields.map FieldMeta.getColumnName)[i - (out.fields.length + 1)]? = some name) ↔
          (out.fields.length ≤ i ∧ (field.getColumnName ::
            fields.map FieldMeta.getColumnName)[i - out.fields.length]? = some name) := by
        by_cases hi : out.fields.length + 1 ≤ i
        · have hk : i - out.fields.length = i - (out.fields.length + 1) + 1 := by omega
          have hle : out.fields.length ≤ i := by omega
          simp [hi, hle, hk]
        · by_cases he : i = out.fields.length
          · simp [he, Ne.symm hname]
          · have hle : ¬ out.fields.length ≤ i := by omega
            simp [hi, hle]
      rw [hiff]

theorem foldl_addIndex (indexes : List Index) (out : Loaded) :
    (indexes.foldl addIndex out).tableName = out.tableName ∧
      (indexes.foldl addIndex out).fields = out.fields ∧
      (indexes.foldl addIndex out).nameToIndex = out.nameToIndex := by
  induction indexes generalizing out with
  | nil => simp
  | cons index indexes ih =>
    obtain ⟨ht, hf, hn⟩ := ih (addIndex out index)
    simp only [List.foldl_cons, ht, hf, hn]
    simp [addIndex]

theorem foldl_addIndex_lookup (entries : List (Sigma fun _ : Str => Index)) (out : Loaded)
    (hkeys : entries.NodupKeys) (hown : ∀ entry ∈ entries, entry.2.name = entry.1) (name : Str) :
    ((entries.map Sigma.snd).foldl addIndex out).indices.lookup name =
      (entries.dlookup name).or (out.indices.lookup name) := by
  induction entries generalizing out with
  | nil => simp
  | cons entry entries ih =>
    obtain ⟨key, index⟩ := entry
    rw [List.nodupKeys_cons] at hkeys
    have hkey : index.name = key := hown ⟨key, index⟩ (by simp)
    have hrest := ih (addIndex out index) hkeys.2 (fun e he => hown e (by simp [he]))
    simp only [List.map_cons, List.foldl_cons, hrest]
    simp only [addIndex, hkey]
    by_cases hname : name = key
    · subst hname
      have hnone : entries.dlookup name = none := by
        rw [List.dlookup_eq_none]
        exact hkeys.1
      simp [hnone]
    · rw [AList.lookup_insert_ne hname, List.dlookup_cons_ne _ _ hname]

theorem loadedOf_describes {conf : Config} {m : SavedModel} (hm : m.Storable conf) :
    (loadedOf conf m).Describes conf m := by
  obtain ⟨ht, hf, hn⟩ := foldl_addIndex m.indexList
    (m.fields.foldl (addColumn conf) { tableName := m.tableName })
  obtain ⟨hcf, hct, hci⟩ := foldl_addColumn conf m.fields { tableName := m.tableName }
  constructor
  · simp [loadedOf, ht, hct]
  · simp [loadedOf, hf, hcf]
  · intro name
    have h := foldl_addIndex_lookup m.indices.entries
      (m.fields.foldl (addColumn conf) { tableName := m.tableName }) m.indices.nodupKeys
      hm.ownName name
    rw [hci] at h
    simp only [loadedOf, SavedModel.indexList, h, AList.lookup_empty, Option.or_none]
    rfl
  · intro name i
    have h := foldl_addColumn_nameToIndex conf m.fields { tableName := m.tableName }
      hm.distinct (by simp) name i
    simp [loadedOf, hn, h]

/-! ## The file -/

theorem loads_fileBytes {conf : Config} (models : List SavedModel)
    (hok : ∀ m ∈ models, m.Storable conf) (className : Str) :
    Loads (fileBytes conf models) className
      (((models.find? (·.className = className)).map (loadedOf conf)).getD {}) := by
  obtain ⟨s', hreach, hended, hout⟩ := reaches_result className models hok
    (ready_initial (fileBytes conf models))
  obtain ⟨n, hn⟩ := Loop.run_of_reaches hreach hended
  refine ⟨n, fun fuel hfuel => ?_⟩
  simp [loadFromFile, LoadState.loop, hn fuel hfuel, hout]

theorem find_className {models : List SavedModel}
    (hdistinct : (models.map SavedModel.className).Nodup)
    {m : SavedModel} (hm : m ∈ models) :
    models.find? (·.className = m.className) = some m := by
  induction models with
  | nil => simp at hm
  | cons m' models ih =>
    simp only [List.map_cons, List.nodup_cons] at hdistinct
    rcases List.mem_cons.mp hm with rfl | hm
    · simp
    · have hne : m'.className ≠ m.className := by
        intro he
        exact hdistinct.1 (he ▸ List.mem_map_of_mem hm)
      simp [hne, ih hdistinct.2 hm]

/-- Every class is read back as it was saved, and a class that was not saved is
read back as nothing. -/
theorem loadFromFile_saveAll (conf : Config) (models : List SavedModel)
    (hok : ∀ m ∈ models, m.Storable conf)
    (hdistinct : (models.map SavedModel.className).Nodup) :
    ∃ file, saveAll conf [] models = some file ∧
      (∀ m ∈ models, ∃ out, Loads file m.className out ∧ out.Describes conf m) ∧
      (∀ className, className ∉ models.map SavedModel.className →
        Loads file className {}) := by
  refine ⟨fileBytes conf models, by simpa using saveAll_eq models hok [], ?_, ?_⟩
  · intro m hm
    have h := loads_fileBytes models hok m.className
    rw [find_className hdistinct hm] at h
    exact ⟨loadedOf conf m, by simpa using h, loadedOf_describes (hok m hm)⟩
  · intro className hnot
    have hnone : models.find? (·.className = className) = none := by
      rw [List.find?_eq_none]
      intro m hm he
      simp only [decide_eq_true_eq] at he
      exact hnot (he ▸ List.mem_map_of_mem hm)
    have h := loads_fileBytes models hok className
    rw [hnone] at h
    simpa using h

/-- Two classes, one with a default column name and a composite index. -/
def sampleModels : List SavedModel :=
  [{ className := "Role".toList
     tableName := "role".toList
     fields := [{ fieldName := "roleKey".toList, cppType := "int".toList, isPk := true,
                  autoInc := true, notNull := true }]
     indices := ∅ },
   { className := "UserRole".toList
     tableName := "user_role".toList
     fields := [{ fieldName := "userId".toList, cppType := "int".toList,
                  columnName := some "user_id".toList, columnType := some "int(11)".toList },
                { fieldName := "since".toList, cppType := "Timestamp".toList,
                  default_ := "NOW()".toList, extra := "comment 'x'".toList }]
     indices := (∅ : Indices).insert "uni".toList
       ⟨.INDEX_TYPE_UNI, "uni".toList, ["user_id".toList, "since".toList]⟩ }]

theorem sampleModels_storable : ∀ m ∈ sampleModels, m.Storable rulesJson := by decide

theorem loadFromFile_saveAll_sample :
    ∃ file, saveAll rulesJson [] sampleModels = some file ∧
      (∀ m ∈ sampleModels, ∃ out, Loads file m.className out ∧ out.Describes rulesJson m) ∧
      (∀ className, className ∉ sampleModels.map SavedModel.className →
        Loads file className {}) :=
  loadFromFile_saveAll rulesJson sampleModels sampleModels_storable (by decide)

end TinyOrm
