import TinyOrm.DataFile
import TinyOrm.DataFileWalk
set_option autoImplicit false

/-!
What `loadFromFile` leaves of a damaged file in its outputs.
-/

namespace TinyOrm

namespace LoadState

/-! ## The outputs grow -/

/-- What the loop puts into the outputs stays there. -/
structure Grows (s t : LoadState) : Prop where
  fields : s.out.fields.length ≤ t.out.fields.length
  indices : ∀ name, (s.out.indices.lookup name).isSome → (t.out.indices.lookup name).isSome
  found : s.found → t.found ∧ t.out.tableName = s.out.tableName

theorem Grows.of_out {s t : LoadState} (hout : t.out = s.out) (hfound : s.found → t.found) :
    Grows s t := by
  constructor
  · rw [hout]
  · intro name h
    rwa [hout]
  · intro h
    exact ⟨hfound h, by rw [hout]⟩

theorem Grows.refl (s : LoadState) : Grows s s := .of_out rfl id

theorem Grows.trans {s t u : LoadState} (h : Grows s t) (h' : Grows t u) : Grows s u := by
  constructor
  · exact Nat.le_trans h.fields h'.fields
  · exact fun name hs => h'.indices name (h.indices name hs)
  · intro hs
    obtain ⟨ht, htable⟩ := h.found hs
    obtain ⟨hu, htable'⟩ := h'.found ht
    exact ⟨hu, htable'.trans htable⟩

variable {className data : Str} {s t : LoadState} {p : Place}

theorem onHeader_grows (h : s.onHeader className = some t) : Grows s t := by
  unfold onHeader at h
  split at h
  · obtain rfl := Option.some.inj h
    exact .of_out rfl id
  · rename_i hfound
    simp only [Option.bind_eq_bind, Option.bind_eq_some_iff] at h
    obtain ⟨⟨header, ifs⟩, -, h⟩ := h
    split at h
    · obtain rfl := Option.some.inj h
      exact .of_out rfl id
    · obtain rfl := Option.some.inj h
      exact ⟨Nat.le_refl _, fun _ h => h, fun hs => absurd hs hfound⟩

theorem onColumn_grows (h : s.onColumn = some t) :
    Grows s t ∧ t.out.fields.length = s.out.fields.length + 1 := by
  simp only [onColumn, Option.bind_eq_bind, Option.bind_eq_some_iff, Option.pure_def,
    Option.some.injEq] at h
  obtain ⟨⟨fieldMeta, ifs⟩, -, rfl⟩ := h
  exact ⟨⟨by simp, fun _ h => h, fun hs => ⟨hs, rfl⟩⟩, by simp⟩

theorem onIndex_grows (h : s.onIndex = some t) :
    Grows s t ∧ ∃ name, (t.out.indices.lookup name).isSome := by
  simp only [onIndex, Option.bind_eq_bind, Option.bind_eq_some_iff, Option.pure_def,
    Option.some.injEq] at h
  obtain ⟨⟨index, ifs⟩, -, rfl⟩ := h
  refine ⟨⟨Nat.le_refl _, ?_, fun hs => ⟨hs, rfl⟩⟩, index.name, by simp⟩
  intro name h
  by_cases hname : name = index.name
  · subst hname
    simp
  · simpa [AList.lookup_insert_ne hname] using h

theorem parseField_grows (h : s.parseField className = some t) : Grows s t := by
  unfold parseField at h
  split at h
  · exact onHeader_grows h
  · split at h
    · exact (onColumn_grows h).1
    · split at h
      · exact (onIndex_grows h).1
      · obtain rfl := Option.some.inj h
        exact .of_out rfl id

theorem parseMarker_out (s : LoadState) :
    s.parseMarker.out = s.out ∧ s.parseMarker.found = s.found := by
  unfold parseMarker
  split <;> exact ⟨rfl, rfl⟩

theorem step_grows (h : step className s = some t) : Grows s t := by
  unfold step at h
  split at h
  · obtain rfl := Option.some.inj h
    obtain ⟨hout, hfound⟩ := parseMarker_out s
    exact .of_out hout fun hs => hfound.trans hs
  · exact parseField_grows h
  · obtain rfl := Option.some.inj h
    exact .refl s
  · obtain rfl := Option.some.inj h
    exact .refl s

theorem loop_grows {n : Nat} {r : LoadState} (h : loop className n s = some r) : Grows s r :=
  Loop.run_rel Grows.refl (fun _ _ _ => Grows.trans) (fun _ _ _ => step_grows) h

end LoadState

/-! ## Records that are skipped -/

/-- The record at `p`, if there is one, is neither a column nor an index nor the
header of the class. -/
def Skips (className data : Str) (p : Place) : Prop :=
  ∀ c, data[p.pos]? = some c → uchar c ≠ COLUMN_MARKER ∧ uchar c ≠ INDEX_MARKER ∧
    (uchar c = HEADER_MARKER → p.found = false → ∀ header ifs,
      parseHeader (behindMarker data p) {} = some (header, ifs) → header.className ≠ className)

/-- From the start on there is nothing but headers of other classes. -/
structure SkipsAll (className data : Str) : Prop extends Finishes className data where
  skips : ∀ p, Walk.Visits (nextRecord className data) .start p → Skips className data p

namespace LoadState

variable {className data : Str} {s t : LoadState} {p : Place}

theorem parseField_skips (h : s.AtPlace data p) (hskips : Skips className data p) {c : Char}
    (hc : data[p.pos]? = some c) (ht : (s.marked data p c).parseField className = some t) :
    t.out = s.out := by
  obtain ⟨hcolumn, hindex, hheader⟩ := hskips c hc
  have hmarker : (s.marked data p c).marker = uchar c := rfl
  unfold parseField at ht
  rw [hmarker, if_neg hcolumn, if_neg hindex] at ht
  split at ht
  · rename_i hmark
    unfold onHeader at ht
    split at ht
    · obtain rfl := Option.some.inj ht
      rfl
    · rename_i hfound
      have hfalse : p.found = false := by
        rw [← h.found_eq]
        simpa [marked] using hfound
      simp only [Option.bind_eq_bind, Option.bind_eq_some_iff] at ht
      obtain ⟨⟨header, ifs⟩, hparse, ht⟩ := ht
      rw [parseHeader_old] at hparse
      rw [if_pos (hheader hmark hfalse header ifs hparse)] at ht
      obtain rfl := Option.some.inj ht
      rfl
  · obtain rfl := Option.some.inj ht
    rfl

/-- A loop that only skips leaves the outputs as they are. -/
theorem loop_skips {n : Nat} {r : LoadState} (h : s.AtPlace data p)
    (hskips : ∀ q, Walk.Visits (nextRecord className data) p q → Skips className data q)
    (hloop : loop className n s = some r) : r.out = s.out := by
  induction n using Nat.strongRecOn generalizing s p with
  | _ n ih =>
    have hown := hskips p (.refl p)
    rcases h.loop_cases hloop with ⟨-, ⟨-, hout⟩ | ⟨c, t, hc, ht, hout⟩⟩ |
      ⟨q, c, t, m, hrec, hc, ht, hat, rfl, hrest⟩
    · exact hout
    · exact hout.trans (parseField_skips h hown hc ht)
    · have hnext := nextRecord_eq_some.mpr hrec
      have hlater := ih m (by omega) hat (fun q' hv => hskips q' (.go hnext hv)) hrest
      exact hlater.trans (parseField_skips h hown hc ht)

/-- Every place on the way is reached. -/
theorem loop_visits {q : Place} (hv : Walk.Visits (nextRecord className data) p q)
    (h : s.AtPlace data p) {n : Nat} {r : LoadState} (hloop : loop className n s = some r) :
    ∃ t m, t.AtPlace data q ∧ loop className m t = some r := by
  induction hv using Relation.ReflTransGen.head_induction_on generalizing s n with
  | refl => exact ⟨s, n, h, hloop⟩
  | head hnext _ ih =>
    have hgo := nextRecord_eq_some.mp hnext
    rcases h.loop_cases hloop with ⟨hrec, -⟩ | ⟨q', c, t, m, hrec, -, -, hat, -, hrest⟩
    · rw [hrec] at hgo
      cases hgo
    · rw [hrec] at hgo
      obtain rfl := Outcome.go.inj hgo
      exact ih hat hrest

/-- What a record on the way leaves in the outputs is in the result. -/
theorem loop_record {q : Place} (hv : Walk.Visits (nextRecord className data) p q)
    (h : s.AtPlace data p) {n : Nat} {r : LoadState} (hloop : loop className n s = some r)
    {c : Char}
    (hc : data[q.pos]? = some c) :
    ∃ t t' : LoadState, t.AtPlace data q ∧ (t.marked data q c).parseField className = some t' ∧
      Grows t' r := by
  obtain ⟨t, m, hat, hrest⟩ := loop_visits hv h hloop
  have hmore : loop className (m + 2) t = some r := Loop.run_mono (Nat.le_add_right m 2) hrest
  rw [hat.loop_marker hc, Option.bind_eq_some_iff] at hmore
  obtain ⟨t', ht', hloop'⟩ := hmore
  exact ⟨t, t', hat, ht', loop_grows hloop'⟩

end LoadState

/-! ## Clean rejection -/

/-- The loop ends, without undefined behaviour, and the outputs are as before. -/
def RejectedCleanly (className data : Str) : Prop :=
  ∀ out, ∃ fuel, loadFromFile fuel (some data) className out = some out

theorem skips_of_rejected {className data : Str} (h : RejectedCleanly className data) {p : Place}
    (hv : Walk.Visits (nextRecord className data) .start p) : Skips className data p := by
  intro c hc
  have hrun (out : Loaded) : ∃ t t' r : LoadState, t.AtPlace data p ∧
      (t.marked data p c).parseField className = some t' ∧ t'.Grows r ∧ r.out = out := by
    obtain ⟨fuel, hload⟩ := h out
    obtain ⟨r, hloop, hout⟩ := Option.map_eq_some_iff.mp hload
    obtain ⟨t, t', hat, ht', hgrows⟩ :=
      LoadState.loop_record hv (LoadState.atPlace_start data out) hloop hc
    exact ⟨t, t', r, hat, ht', hgrows, hout⟩
  have hmarker (t : LoadState) : (t.marked data p c).marker = uchar c := rfl
  have hdistinct : COLUMN_MARKER ≠ HEADER_MARKER ∧ INDEX_MARKER ≠ HEADER_MARKER ∧
      INDEX_MARKER ≠ COLUMN_MARKER := by decide
  refine ⟨?_, ?_, ?_⟩
  · intro hcolumn
    obtain ⟨t, t', r, -, ht', hgrows, hout⟩ := hrun {}
    have hparse : (t.marked data p c).onColumn = some t' := by
      rw [← ht', LoadState.parseField, hmarker, hcolumn, if_neg hdistinct.1, if_pos rfl]
    have hmore := (LoadState.onColumn_grows hparse).2
    have hfew := hgrows.fields
    rw [hout] at hfew
    simp only [List.length_nil] at hfew
    omega
  · intro hindex
    obtain ⟨t, t', r, -, ht', hgrows, hout⟩ := hrun {}
    have hparse : (t.marked data p c).onIndex = some t' := by
      rw [← ht', LoadState.parseField, hmarker, hindex, if_neg hdistinct.2.1, if_neg hdistinct.2.2,
        if_pos rfl]
    obtain ⟨name, hname⟩ := (LoadState.onIndex_grows hparse).2
    have hkept := hgrows.indices name hname
    rw [hout] at hkept
    simp at hkept
  · intro hheader hfound header ifs hparse hclass
    -- a table name that is not the one of the header
    obtain ⟨t, t', r, hat, ht', hgrows, hout⟩ := hrun { tableName := header.tableName ++ ['_'] }
    have hown : (t.marked data p c).onHeader className = some t' := by
      rw [← ht', LoadState.parseField, hmarker, hheader, if_pos rfl]
    have hnot : (t.marked data p c).found = false := hat.found_eq.trans hfound
    have hread : parseHeader (t.marked data p c).ifs (t.marked data p c).header =
        some (header, ifs) :=
      (parseHeader_old _ _).trans hparse
    unfold LoadState.onHeader at hown
    rw [hnot, if_neg Bool.false_ne_true, hread] at hown
    simp only [Option.bind_eq_bind, Option.bind_some, hclass, ne_eq, not_true_eq_false, if_false,
      Option.pure_def, Option.some.injEq] at hown
    have htable := (hgrows.found (by rw [← hown])).2
    rw [hout, ← hown] at htable
    simp at htable

theorem RejectedCleanly.skipsAll {className data : Str} (h : RejectedCleanly className data) :
    SkipsAll className data := by
  obtain ⟨fuel, hload⟩ := h {}
  exact ⟨finishes_of_load hload, fun p hv => skips_of_rejected h hv⟩

/-- A concatenation of complete model records. -/
def CompleteFile (data : Str) : Prop :=
  ∃ (conf : Config) (models : List SavedModel), (∀ m ∈ models, m.Storable conf) ∧
    data = LoadState.fileBytes conf models

theorem bar_mem_of_complete {data : Str} (h : CompleteFile data) (hne : data ≠ []) :
    '|' ∈ data := by
  obtain ⟨conf, models, -, rfl⟩ := h
  cases models with
  | nil => exact absurd rfl hne
  | cons m models =>
    simp [LoadState.fileBytes, SavedModel.bytes, headerBytes, lengthPrefixed, combined]

/-- A header whose combined string has no `|`. -/
def sampleUnsplit : Str :=
  [byte HEADER_MARKER] ++ shortBytes 0 ++ [byte 7] ++ lengthPrefixed "txX".toList

end TinyOrm
