import Mathlib.Data.Finite.Prod
import TinyOrm.DataFileReader
import TinyOrm.Lib.Walk
set_option autoImplicit false

/-!
The way of `loadFromFile` through an arbitrary file, from marker to marker.
-/

namespace TinyOrm

/-! ## Records of a file -/

/-- A position in the file at which a marker is due; `found` says that the header
of the class has been read. -/
structure Place where
  pos : Nat
  found : Bool
  deriving DecidableEq, Repr

def Place.start : Place := ⟨0, false⟩

/-- What becomes of a record. -/
inductive Outcome where
  | undefined
  | stop
  | go (p : Place)
  deriving DecidableEq, Repr

/-- A failed stream delivers no other marker. -/
def resume (ifs : InStream Char) (found : Bool) : Outcome :=
  if ifs.fail then .stop else .go ⟨ifs.pos, found⟩

/-- The stream behind the marker. -/
def behindMarker (data : Str) (p : Place) : InStream Char := ⟨data, p.pos + 1, false⟩

/-- The record whose marker is due at `p`. -/
def recordAt (className data : Str) (p : Place) : Outcome :=
  match data[p.pos]? with
  | none => .stop
  | some c =>
    if uchar c = HEADER_MARKER then
      if p.found then .stop
      else
        match parseHeader (behindMarker data p) {} with
        | none => .undefined
        | some (header, ifs) =>
          if header.className ≠ className then resume (ifs.seekCur header.model_len) false
          else resume ifs true
    else if uchar c = COLUMN_MARKER then
      match parseColumnField (behindMarker data p) {} with
      | none => .undefined
      | some (_, ifs) => resume ifs p.found
    else if uchar c = INDEX_MARKER then
      match parseIndexField (behindMarker data p) with
      | none => .undefined
      | some (_, ifs) => resume ifs p.found
    else .stop

/-- The record behind it. -/
def nextRecord (className data : Str) (p : Place) : Option Place :=
  match recordAt className data p with
  | .go q => some q
  | _ => none

/-! ## Reads go ahead -/

theorem readChar_ahead (ifs : InStream Char) (old : Char) : ifs.Ahead (readChar ifs old).2 := by
  have h := ifs.read_ahead 1
  unfold readChar
  split <;> simp_all

theorem readFresh_ahead {ifs ifs' : InStream Char} {c : Char} (h : readFresh ifs = some (c, ifs')) :
    ifs.Ahead ifs' := by
  have hread := ifs.read_ahead 1
  unfold readFresh at h
  split at h <;> simp_all

theorem ofStream_ahead {ifs ifs' : InStream Char} {len : Int} {s : Str}
    (h : ByteArray.ofStream ifs len = some (s, ifs')) : ifs.Ahead ifs' := by
  have hread := ifs.read_ahead len.toNat
  simp only [ByteArray.ofStream, Option.bind_eq_bind, Option.bind_eq_some_iff, Option.pure_def,
    Option.some.injEq, Prod.mk.injEq] at h
  obtain ⟨arr, -, -, rfl⟩ := h
  exact hread

theorem read_combined_ahead {ifs ifs' : InStream Char} {len : Char} {sp p1 p2 : Str}
    (h : read_combined ifs len sp = some (p1, p2, ifs')) : ifs.Ahead ifs' := by
  simp only [read_combined, Option.bind_eq_bind, Option.bind_eq_some_iff] at h
  obtain ⟨⟨s, ifs1⟩, hread, h⟩ := h
  split at h
  · simp only [Option.pure_def, Option.some.injEq, Prod.mk.injEq] at h
    obtain ⟨-, -, rfl⟩ := h
    exact ofStream_ahead hread
  · cases h

theorem readOptional_ahead {ifs ifs' : InStream Char} {len : Char} {old s : Str}
    (h : readOptional ifs len old = some (s, ifs')) : ifs.Ahead ifs' := by
  unfold readOptional at h
  split at h
  · exact ofStream_ahead h
  · simp only [Option.some.injEq, Prod.mk.injEq] at h
    rw [h.2]
    exact .refl ifs'

theorem parseHeader_ahead {ifs ifs' : InStream Char} {header header' : Header}
    (h : parseHeader ifs header = some (header', ifs')) : ifs.Ahead ifs' := by
  simp only [parseHeader, Option.bind_eq_bind, Option.bind_eq_some_iff, Option.pure_def,
    Option.some.injEq, Prod.mk.injEq] at h
  obtain ⟨x, hfresh, y, hcombined, -, rfl⟩ := h
  have hnames := (readFresh_ahead hfresh).trans (read_combined_ahead hcombined)
  exact (ifs.read_ahead 2).trans ((readChar_ahead _ _).trans hnames)

theorem parseColumnField_ahead {ifs ifs' : InStream Char} {fieldMeta fieldMeta' : FieldMeta}
    (h : parseColumnField ifs fieldMeta = some (fieldMeta', ifs')) : ifs.Ahead ifs' := by
  simp only [parseColumnField, Option.bind_eq_bind, Option.bind_eq_some_iff, Option.pure_def,
    Option.some.injEq, Prod.mk.injEq] at h
  obtain ⟨x1, h1, x2, h2, x3, h3, x4, h4, x5, h5, x6, h6, -, rfl⟩ := h
  have hnames := (readFresh_ahead h1).trans (read_combined_ahead h2)
  have htypes := (readChar_ahead _ _).trans (read_combined_ahead h3)
  have hdefault := (readChar_ahead _ _).trans (readOptional_ahead h5)
  have hextra := (readChar_ahead _ _).trans (readOptional_ahead h6)
  exact hnames.trans (htypes.trans ((readFresh_ahead h4).trans (hdefault.trans hextra)))

theorem parseIndexField_ahead {ifs ifs' : InStream Char} {index : Index}
    (h : parseIndexField ifs = some (index, ifs')) : ifs.Ahead ifs' := by
  simp only [parseIndexField, Option.bind_eq_bind, Option.bind_eq_some_iff, Option.pure_def,
    Option.some.injEq, Prod.mk.injEq] at h
  obtain ⟨x1, h1, x2, h2, x3, h3, x4, h4, -, rfl⟩ := h
  have hname := (readFresh_ahead h2).trans (ofStream_ahead h3)
  have hcolumns := (readChar_ahead _ _).trans (ofStream_ahead h4)
  exact (readFresh_ahead h1).trans (hname.trans hcolumns)

/-! ## What a record depends on -/

theorem readFresh_of_fail {ifs : InStream Char} (h : ifs.fail = true) : readFresh ifs = none := by
  rw [readFresh, InStream.read_of_fail h]

theorem readChar_of_fail {ifs : InStream Char} (h : ifs.fail = true) (old : Char) :
    readChar ifs old = (old, ifs) := by
  rw [readChar, InStream.read_of_fail h]

/-- Either a character is read, or nothing is from here on. -/
theorem readChar_cases (ifs : InStream Char) :
    (∃ c, ∀ old, readChar ifs old = (c, (ifs.read 1).2)) ∨
    ∀ old, readFresh (readChar ifs old).2 = none := by
  cases hread : ifs.read 1 with
  | mk got ifs' =>
    cases got with
    | cons c cs => exact Or.inl ⟨c, fun old => by simp [readChar, hread]⟩
    | nil =>
      have hshort : (ifs.read 1).1.length < 1 := by simp [hread]
      have hfail := InStream.read_short hshort
      rw [hread] at hfail
      exact Or.inr fun old => by simp [readChar, hread, readFresh_of_fail hfail]

/-- What the header held before is not seen in the result. -/
theorem parseHeader_old (ifs : InStream Char) (header : Header) :
    parseHeader ifs header = parseHeader ifs {} := by
  cases hread : ifs.read 2 with
  | mk got ifs' =>
    by_cases hshort : got.length < 2
    · have hfail : ifs'.fail = true := by
        have hread' := @InStream.read_short _ ifs 2
        rw [hread] at hread'
        exact hread' hshort
      simp only [parseHeader, hread, readChar_of_fail hfail, readFresh_of_fail hfail,
        Option.bind_eq_bind, Option.bind_none]
    · rcases readChar_cases ifs' with ⟨c, hc⟩ | hnone
      · have hle := ifs.read_length_le 2
        rw [hread] at hle
        obtain ⟨lo, hi, rfl⟩ := List.length_eq_two.mp (Nat.le_antisymm hle (Nat.not_lt.mp hshort))
        simp only [parseHeader, hread, hc]
      · simp only [parseHeader, hread, hnone, Option.bind_eq_bind, Option.bind_none]

/-- The string kept when nothing is stored has no influence on the stream. -/
theorem readOptional_cases (ifs : InStream Char) (len : Char) :
    (∀ old, readOptional ifs len old = none) ∨
      ∃ ifs', ∀ old, ∃ s, readOptional ifs len old = some (s, ifs') := by
  by_cases hlen : schar len > 0
  · cases h : ByteArray.ofStream ifs (schar len) with
    | none => exact Or.inl fun old => by rw [readOptional, if_pos hlen, h]
    | some x => exact Or.inr ⟨x.2, fun old => ⟨x.1, by rw [readOptional, if_pos hlen, h]⟩⟩
  · exact Or.inr ⟨ifs, fun old => ⟨old, by rw [readOptional, if_neg hlen]⟩⟩

/-- What the description held before has no influence on the stream. -/
theorem parseColumnField_old (ifs : InStream Char) (fieldMeta : FieldMeta) :
    (parseColumnField ifs fieldMeta).map Prod.snd = (parseColumnField ifs {}).map Prod.snd := by
  cases h1 : readFresh ifs with
  | none => simp [parseColumnField, h1]
  | some x1 =>
    cases h2 : read_combined x1.2 x1.1 ['|'] with
    | none => simp [parseColumnField, h1, h2]
    | some x2 =>
      cases h3 : read_combined (readChar x2.2.2 x1.1).2 (readChar x2.2.2 x1.1).1 ['|'] with
      | none => simp [parseColumnField, h1, h2, h3]
      | some x3 =>
        cases h4 : readFresh x3.2.2 with
        | none => simp [parseColumnField, h1, h2, h3, h4]
        | some x4 =>
          rcases readOptional_cases (readChar x4.2 (readChar x2.2.2 x1.1).1).2
            (readChar x4.2 (readChar x2.2.2 x1.1).1).1 with h5 | ⟨ifs5, h5⟩
          · simp [parseColumnField, h1, h2, h3, h4, h5]
          · obtain ⟨s5, hs5⟩ := h5 fieldMeta.default_
            obtain ⟨t5, ht5⟩ := h5 []
            rcases readOptional_cases (readChar ifs5 (readChar x4.2 (readChar x2.2.2 x1.1).1).1).2
              (readChar ifs5 (readChar x4.2 (readChar x2.2.2 x1.1).1).1).1 with h6 | ⟨ifs6, h6⟩
            · simp [parseColumnField, h1, h2, h3, h4, hs5, ht5, h6]
            · obtain ⟨s6, hs6⟩ := h6 fieldMeta.extra
              obtain ⟨t6, ht6⟩ := h6 []
              simp [parseColumnField, h1, h2, h3, h4, hs5, ht5, hs6, ht6]

/-! ## The passes of a record -/

namespace LoadState

/-- The loop is about to read the marker at `p`. -/
structure AtPlace (s : LoadState) (data : Str) (p : Place) : Prop where
  state_eq : s.state = .PARSE_MARKER
  ifs_eq : s.ifs = ⟨data, p.pos, false⟩
  found_eq : s.found = p.found

/-- The same when the marker has been read. -/
def marked (s : LoadState) (data : Str) (p : Place) (c : Char) : LoadState :=
  { s with ifs := behindMarker data p, marker := uchar c, state := .PARSE_FIELD }

variable {className data : Str} {s : LoadState} {p : Place}

theorem atPlace_start (data : Str) (out : Loaded) :
    AtPlace { ifs := InStream.ofList data, out := out } data .start := ⟨rfl, rfl, rfl⟩

theorem AtPlace.not_ended (h : s.AtPlace data p) : ¬ s.Ended := by
  simp [Ended, h.state_eq]

theorem AtPlace.step_end (className : Str) (h : s.AtPlace data p) (hend : data[p.pos]? = none) :
    ∃ t, step className s = some t ∧ t.state = .PARSE_SUCCESS ∧ t.out = s.out := by
  have hdrop : data.drop p.pos = [] := List.drop_eq_nil_of_le (List.getElem?_eq_none_iff.mp hend)
  refine ⟨s.parseMarker, by simp [step, h.state_eq], ?_, ?_⟩ <;>
    simp [parseMarker, h.ifs_eq, InStream.read, hdrop]

theorem AtPlace.step_marker (h : s.AtPlace data p) {c : Char} (hc : data[p.pos]? = some c) :
    step className s = some (s.marked data p c) := by
  obtain ⟨hlt, hget⟩ := List.getElem?_eq_some_iff.mp hc
  have hdrop := List.drop_eq_getElem_cons hlt
  rw [hget] at hdrop
  simp [step, h.state_eq, parseMarker, h.ifs_eq, InStream.read, hdrop, marked, behindMarker]

theorem loop_zero (h : s.AtPlace data p) : loop className 0 s = none := by
  simp [loop, Loop.run, h.not_ended]

/-- Two passes for a record. -/
theorem AtPlace.loop_marker (h : s.AtPlace data p) {c : Char} (hc : data[p.pos]? = some c)
    (n : Nat) :
    loop className (n + 2) s =
      ((s.marked data p c).parseField className).bind (loop className n) := by
  have hmarked : ¬ (s.marked data p c).Ended := by simp [Ended, marked]
  have hstep : step className (s.marked data p c) = (s.marked data p c).parseField className := rfl
  simp only [loop, Loop.run, h.not_ended, if_false, h.step_marker hc, Option.bind_some, hmarked,
    hstep]

/-- How the state behind the second pass answers to an outcome. -/
def Answers (data : Str) (o : Option LoadState) : Outcome → Prop
  | .undefined => o = none
  | .stop => ∃ t, o = some t ∧ (t.Ended ∨ t.state = .PARSE_MARKER ∧ t.ifs.fail = true)
  | .go q => ∃ t, o = some t ∧ t.AtPlace data q

theorem answers_resume {t : LoadState} {found : Bool} (hstate : t.state = .PARSE_MARKER)
    (hdata : t.ifs.data = data) (hfound : t.found = found) :
    Answers data (some t) (resume t.ifs found) := by
  unfold resume
  cases hfail : t.ifs.fail with
  | true => exact ⟨t, rfl, Or.inr ⟨hstate, hfail⟩⟩
  | false =>
    refine ⟨t, rfl, hstate, ?_, hfound⟩
    rw [← hdata, ← hfail]

theorem onHeader_answers (hfound : s.found = p.found) (hifs : s.ifs = behindMarker data p) :
    Answers data (s.onHeader className) (if p.found then .stop
      else match parseHeader (behindMarker data p) {} with
        | none => .undefined
        | some (header, ifs) =>
          if header.className ≠ className then resume (ifs.seekCur header.model_len) false
          else resume ifs true) := by
  unfold onHeader
  rw [hfound, hifs, parseHeader_old]
  cases p.found with
  | true => exact ⟨_, rfl, Or.inl (Or.inl rfl)⟩
  | false =>
    cases hparse : parseHeader (behindMarker data p) {} with
    | none => rfl
    | some x =>
      obtain ⟨header, ifs⟩ := x
      have hdata : ifs.data = data := (parseHeader_ahead hparse).data
      by_cases hname : header.className ≠ className
      · simp only [Bool.false_eq_true, if_false, Option.bind_eq_bind, Option.bind_some]
        rw [if_pos hname, if_pos hname]
        exact answers_resume (t := { s with
          header := header, ifs := ifs.seekCur header.model_len, state := .PARSE_MARKER,
          found := false }) rfl ((ifs.seekCur_data _).trans hdata) rfl
      · simp only [Bool.false_eq_true, if_false, Option.bind_eq_bind, Option.bind_some]
        rw [if_neg hname, if_neg hname]
        exact answers_resume rfl hdata rfl

theorem onColumn_answers (hfound : s.found = p.found) (hifs : s.ifs = behindMarker data p) :
    Answers data s.onColumn (match parseColumnField (behindMarker data p) {} with
      | none => .undefined
      | some (_, ifs) => resume ifs p.found) := by
  have hold := parseColumnField_old (behindMarker data p) s.fieldMeta
  unfold onColumn
  rw [hifs]
  cases hparse : parseColumnField (behindMarker data p) {} with
  | none =>
    rw [hparse, Option.map_none, Option.map_eq_none_iff] at hold
    rw [hold]
    rfl
  | some x =>
    rw [hparse, Option.map_some, Option.map_eq_some_iff] at hold
    obtain ⟨⟨fieldMeta, ifs⟩, hown, hifs'⟩ := hold
    obtain rfl : ifs = x.2 := hifs'
    simp only [hown, Option.bind_eq_bind, Option.bind_some]
    exact answers_resume rfl (parseColumnField_ahead hown).data hfound

theorem onIndex_answers (hfound : s.found = p.found) (hifs : s.ifs = behindMarker data p) :
    Answers data s.onIndex (match parseIndexField (behindMarker data p) with
      | none => .undefined
      | some (_, ifs) => resume ifs p.found) := by
  unfold onIndex
  rw [hifs]
  cases hparse : parseIndexField (behindMarker data p) with
  | none => rfl
  | some x => exact answers_resume rfl (parseIndexField_ahead hparse).data hfound

theorem parseField_answers (className : Str) (h : s.AtPlace data p) {c : Char}
    (hc : data[p.pos]? = some c) :
    Answers data ((s.marked data p c).parseField className) (recordAt className data p) := by
  have hfound : (s.marked data p c).found = p.found := h.found_eq
  have hmarker : (s.marked data p c).marker = uchar c := rfl
  unfold parseField recordAt
  simp only [hmarker, hc]
  by_cases hheader : uchar c = HEADER_MARKER
  · rw [if_pos hheader, if_pos hheader]
    exact onHeader_answers hfound rfl
  · by_cases hcolumn : uchar c = COLUMN_MARKER
    · rw [if_neg hheader, if_neg hheader, if_pos hcolumn, if_pos hcolumn]
      exact onColumn_answers hfound rfl
    · by_cases hindex : uchar c = INDEX_MARKER
      · rw [if_neg hheader, if_neg hheader, if_neg hcolumn, if_neg hcolumn, if_pos hindex,
          if_pos hindex]
        exact onIndex_answers hfound rfl
      · rw [if_neg hheader, if_neg hheader, if_neg hcolumn, if_neg hcolumn, if_neg hindex,
          if_neg hindex]
        exact ⟨_, rfl, Or.inl (Or.inr rfl)⟩

/-! ## Termination -/

theorem recordAt_end (hend : data[p.pos]? = none) : recordAt className data p = .stop := by
  simp [recordAt, hend]

theorem AtPlace.undefined (h : s.AtPlace data p) (hrec : recordAt className data p = .undefined)
    (n : Nat) : loop className n s = none := by
  cases hc : data[p.pos]? with
  | none =>
    rw [recordAt_end hc] at hrec
    cases hrec
  | some c =>
    have hanswer := parseField_answers className h hc
    rw [hrec] at hanswer
    have htwo : loop className (n + 2) s = none := by
      rw [h.loop_marker hc, show (s.marked data p c).parseField className = none from hanswer]
      rfl
    cases hloop : loop className n s with
    | none => rfl
    | some r =>
      have hmore := Loop.run_mono (Nat.le_add_right n 2) hloop
      exact absurd (htwo.symm.trans hmore) (by simp)

/-- The loop ends with the outputs as the last record leaves them. -/
theorem AtPlace.stop (h : s.AtPlace data p) (hrec : recordAt className data p = .stop) :
    ∃ n r, loop className n s = some r ∧ (data[p.pos]? = none ∧ r.out = s.out ∨
      ∃ c t, data[p.pos]? = some c ∧ (s.marked data p c).parseField className = some t ∧
        r.out = t.out) := by
  cases hc : data[p.pos]? with
  | none =>
    obtain ⟨t, hstep, hstate, hout⟩ := h.step_end className hc
    have hended : t.Ended := Or.inl hstate
    refine ⟨1, t, ?_, Or.inl ⟨rfl, hout⟩⟩
    rw [loop, Loop.run, if_neg h.not_ended, hstep, Option.bind_some]
    exact Loop.run_ended hended 0
  | some c =>
    have hanswer := parseField_answers className h hc
    rw [hrec] at hanswer
    obtain ⟨t, ht, hended | ⟨hstate, hfail⟩⟩ := hanswer
    · refine ⟨0 + 2, t, ?_, Or.inr ⟨c, t, rfl, ht, rfl⟩⟩
      rw [h.loop_marker hc, ht, Option.bind_some]
      exact Loop.run_ended hended 0
    · have hnot : ¬ t.Ended := by simp [Ended, hstate]
      have hstep : step className t = some { t with state := .PARSE_SUCCESS } := by
        simp [step, hstate, parseMarker, InStream.read_of_fail hfail]
      have hended : Ended { t with state := .PARSE_SUCCESS } := Or.inl rfl
      refine ⟨1 + 2, { t with state := .PARSE_SUCCESS }, ?_, Or.inr ⟨c, t, rfl, ht, rfl⟩⟩
      rw [h.loop_marker hc, ht, Option.bind_some, loop, Loop.run, if_neg hnot, hstep,
        Option.bind_some]
      exact Loop.run_ended hended 0

theorem AtPlace.go (h : s.AtPlace data p) {q : Place} (hrec : recordAt className data p = .go q) :
    ∃ c t, data[p.pos]? = some c ∧ (s.marked data p c).parseField className = some t ∧
      t.AtPlace data q ∧ ∀ n, loop className (n + 2) s = loop className n t := by
  cases hc : data[p.pos]? with
  | none =>
    rw [recordAt_end hc] at hrec
    cases hrec
  | some c =>
    have hanswer := parseField_answers className h hc
    rw [hrec] at hanswer
    obtain ⟨t, ht, hat⟩ := hanswer
    refine ⟨c, t, rfl, ht, hat, fun n => ?_⟩
    rw [h.loop_marker hc, ht]
    rfl

/-- A loop that comes to an end, by what it does first. -/
theorem AtPlace.loop_cases (h : s.AtPlace data p) {n : Nat} {r : LoadState}
    (hloop : loop className n s = some r) :
    (recordAt className data p = .stop ∧ (data[p.pos]? = none ∧ r.out = s.out ∨
      ∃ c t, data[p.pos]? = some c ∧ (s.marked data p c).parseField className = some t ∧
        r.out = t.out)) ∨
    ∃ q c t m, recordAt className data p = .go q ∧ data[p.pos]? = some c ∧
      (s.marked data p c).parseField className = some t ∧ t.AtPlace data q ∧ n = m + 2 ∧
      loop className m t = some r := by
  cases hrec : recordAt className data p with
  | undefined =>
    rw [h.undefined hrec] at hloop
    cases hloop
  | stop =>
    obtain ⟨m, r', hloop', hout⟩ := h.stop hrec
    obtain rfl := Loop.run_unique hloop' hloop
    exact Or.inl ⟨rfl, hout⟩
  | go q =>
    obtain ⟨c, t, hc, ht, hat, htwo⟩ := h.go hrec
    -- the two passes of the record are used up
    obtain ⟨m, rfl⟩ : ∃ m, n = m + 2 := by
      by_cases hn : 2 ≤ n
      · exact ⟨n - 2, by omega⟩
      · have hmore := Loop.run_mono (by omega : n ≤ 0 + 2) hloop
        have hzero := (htwo 0).symm.trans hmore
        rw [loop_zero hat] at hzero
        cases hzero
    exact Or.inr ⟨q, c, t, m, rfl, hc, ht, hat, rfl, (htwo m).symm.trans hloop⟩

theorem nextRecord_eq_some {q : Place} :
    nextRecord className data p = some q ↔ recordAt className data p = .go q := by
  unfold nextRecord
  cases recordAt className data p <;> simp

theorem nextRecord_eq_none :
    nextRecord className data p = none ↔ ∀ q, recordAt className data p ≠ .go q := by
  unfold nextRecord
  cases recordAt className data p <;> simp

/-- Where the way stops and every record on it is defined, the loop ends. -/
theorem loop_of_stops (hstops : Walk.Stops (nextRecord className data) p) (h : s.AtPlace data p)
    (hdefined : ∀ q, Walk.Visits (nextRecord className data) p q →
      recordAt className data q ≠ .undefined) : ∃ n r, loop className n s = some r := by
  induction hstops generalizing s with
  | @stop p hnone =>
    cases hrec : recordAt className data p with
    | undefined => exact absurd hrec (hdefined p (.refl p))
    | stop =>
      obtain ⟨n, r, hloop, -⟩ := h.stop hrec
      exact ⟨n, r, hloop⟩
    | go q => exact absurd hrec (nextRecord_eq_none.mp hnone q)
  | @go p q hnext _ ih =>
    obtain ⟨c, t, -, -, hat, hloop⟩ := h.go (nextRecord_eq_some.mp hnext)
    obtain ⟨n, r, hr⟩ := ih hat fun q' hv => hdefined q' (.go hnext hv)
    exact ⟨n + 2, r, (hloop n).trans hr⟩

theorem stops_of_loop {n : Nat} {r : LoadState} (h : s.AtPlace data p)
    (hloop : loop className n s = some r) :
    Walk.Stops (nextRecord className data) p ∧
      ∀ q, Walk.Visits (nextRecord className data) p q →
        recordAt className data q ≠ .undefined := by
  induction n using Nat.strongRecOn generalizing s p with
  | _ n ih =>
    rcases h.loop_cases hloop with ⟨hrec, -⟩ | ⟨q, c, t, m, hrec, -, -, hat, rfl, hrest⟩
    · have hnone : nextRecord className data p = none :=
        nextRecord_eq_none.mpr fun q hq => by rw [hrec] at hq; cases hq
      refine ⟨.stop hnone, ?_⟩
      intro q hv
      rcases hv.cases with rfl | ⟨q', hq', -⟩
      · rw [hrec]
        exact Outcome.noConfusion
      · rw [hnone] at hq'
        cases hq'
    · have hnext := nextRecord_eq_some.mpr hrec
      obtain ⟨hstops, hdefined⟩ := ih m (by omega) hat hrest
      refine ⟨.go hnext hstops, ?_⟩
      intro q' hv
      rcases hv.cases with rfl | ⟨q'', hq'', hv⟩
      · rw [hrec]
        exact Outcome.noConfusion
      · rw [hnext] at hq''
        obtain rfl := Option.some.inj hq''
        exact hdefined q' hv

end LoadState

/-- There are only so many places with a marker. -/
theorem finite_places (n : Nat) : { p : Place | p.pos < n }.Finite := by
  have himage : ((fun x : Nat × Bool => Place.mk x.1 x.2) '' ({ i | i < n } ×ˢ Set.univ)).Finite :=
    ((Set.finite_lt_nat n).prod Set.finite_univ).image _
  refine himage.subset fun p hp => ⟨(p.pos, p.found), ⟨hp, trivial⟩, rfl⟩

theorem pos_lt_of_nextRecord {className data : Str} {p q : Place}
    (h : nextRecord className data p = some q) : p.pos < data.length := by
  by_cases hlt : p.pos < data.length
  · exact hlt
  · have hend : data[p.pos]? = none := List.getElem?_eq_none_iff.mpr (Nat.le_of_not_lt hlt)
    have hrec := LoadState.nextRecord_eq_some.mp h
    rw [LoadState.recordAt_end hend] at hrec
    cases hrec

theorem resume_go {ifs : InStream Char} {found : Bool} {q : Place} (h : resume ifs found = .go q) :
    q.pos = ifs.pos := by
  unfold resume at h
  split at h
  · cases h
  · rw [← Outcome.go.inj h]

/-- Only a header of another class, with a negative `model_len`, leads back. -/
theorem model_len_of_back {className data : Str} {p q : Place}
    (h : nextRecord className data p = some q) (hback : q.pos ≤ p.pos) :
    ∃ header ifs, parseHeader (behindMarker data p) {} = some (header, ifs) ∧
      header.className ≠ className ∧ header.model_len < 0 := by
  have hahead {ifs : InStream Char} {found : Bool} (hifs : (behindMarker data p).Ahead ifs)
      (hgo : resume ifs found = .go q) : False := by
    have hpos := hifs.pos
    have hstart : (behindMarker data p).pos = p.pos + 1 := rfl
    rw [← resume_go hgo] at hpos
    omega
  have hrec := LoadState.nextRecord_eq_some.mp h
  unfold recordAt at hrec
  split at hrec
  · cases hrec
  · split at hrec
    · split at hrec
      · cases hrec
      · split at hrec
        · cases hrec
        · rename_i header ifs hparse
          have hifs := parseHeader_ahead hparse
          split at hrec
          · rename_i hname
            refine ⟨header, ifs, hparse, hname, ?_⟩
            by_contra hneg
            exact hahead (hifs.trans (InStream.seekCur_ahead (Int.not_lt.mp hneg))) hrec
          · exact (hahead hifs hrec).elim
    · split at hrec
      · split at hrec
        · cases hrec
        · rename_i hparse
          exact (hahead (parseColumnField_ahead hparse) hrec).elim
      · split at hrec
        · split at hrec
          · cases hrec
          · rename_i hparse
            exact (hahead (parseIndexField_ahead hparse) hrec).elim
        · cases hrec

/-- Every record on the way from the start of the file is defined, and one that
leads back is not met again from there. -/
structure Finishes (className data : Str) : Prop where
  defined : ∀ p, Walk.Visits (nextRecord className data) .start p →
    recordAt className data p ≠ .undefined
  once : ∀ p q, Walk.Visits (nextRecord className data) .start p →
    nextRecord className data p = some q → q.pos ≤ p.pos →
    ¬ Walk.Visits (nextRecord className data) q p

theorem stops_iff_once (className data : Str) :
    Walk.Stops (nextRecord className data) .start ↔
      ∀ p q, Walk.Visits (nextRecord className data) .start p →
        nextRecord className data p = some q → q.pos ≤ p.pos →
        ¬ Walk.Visits (nextRecord className data) q p :=
  Walk.stops_iff_back (finite_places data.length)
    (fun p q => @pos_lt_of_nextRecord className data p q) Place.pos Place.start

theorem finishes_of_load {className data : Str} {out out' : Loaded} {fuel : Nat}
    (hload : loadFromFile fuel (some data) className out = some out') :
    Finishes className data := by
  obtain ⟨r, hloop, -⟩ := Option.map_eq_some_iff.mp hload
  obtain ⟨hwalk, hdefined⟩ := LoadState.stops_of_loop (LoadState.atPlace_start data out) hloop
  exact ⟨hdefined, (stops_iff_once className data).mp hwalk⟩

theorem Finishes.load {className data : Str} (h : Finishes className data) (out : Loaded) :
    ∃ fuel out', loadFromFile fuel (some data) className out = some out' := by
  have hwalk := (stops_iff_once className data).mpr h.once
  obtain ⟨fuel, r, hloop⟩ :=
    LoadState.loop_of_stops hwalk (LoadState.atPlace_start data out) h.defined
  exact ⟨fuel, r.out, by simp [loadFromFile, hloop]⟩

/-- A header of class `X` whose records are said to be -8 bytes long. -/
def sampleBackward : Str :=
  [byte HEADER_MARKER] ++ shortBytes (-8) ++
    [byte 7] ++ lengthPrefixed (combined "t".toList "X".toList)

end TinyOrm
