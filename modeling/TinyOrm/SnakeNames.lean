import TinyOrm.Model
import TinyOrm.Tags
set_option autoImplicit false

/-!
From the names of the database to those of C++ and back (naming.h).
-/

namespace TinyOrm

/-- A lower-case letter, and letters and digits behind it. -/
def isSegment : Str → Bool
  | [] => false
  | c :: cs => islower c && cs.all fun d => islower d || d.isDigit

/-- A lower-case name, by its segments. -/
structure SnakeName where
  segments : List Str
  some_segment : segments ≠ []
  valid : ∀ s ∈ segments, isSegment s = true

namespace SnakeName

def text (name : SnakeName) : Str := Util.join '_' name.segments

/-- The segments that get a capital letter. -/
def capitalized (name : SnakeName) (cap_ini : Bool) : List Str :=
  if cap_ini then name.segments else name.segments.tail

/-- No capital letter stands alone before another one. -/
def Apart (name : SnakeName) (cap_ini : Bool) : Prop :=
  ∀ s ∈ (name.capitalized cap_ini).dropLast, s.length ≠ 1

instance (name : SnakeName) (cap_ini : Bool) : Decidable (name.Apart cap_ini) :=
  inferInstanceAs (Decidable (∀ s ∈ (name.capitalized cap_ini).dropLast, s.length ≠ 1))

end SnakeName

/-! ## Letters -/

theorem islower_toNat {c : Char} (h : islower c = true) : 97 ≤ c.toNat ∧ c.toNat ≤ 122 := by
  simp only [islower, Bool.and_eq_true, decide_eq_true_eq, Char.le_def] at h
  exact ⟨h.1, h.2⟩

theorem isupper_iff_toNat {c : Char} : isupper c = true ↔ 65 ≤ c.toNat ∧ c.toNat ≤ 90 := by
  simp only [isupper, Bool.and_eq_true, decide_eq_true_eq, Char.le_def]
  exact Iff.rfl

theorem isupper_of_islower {c : Char} (h : islower c = true) : isupper c = false :=
  isupper_of_small (islower_toNat h).1

theorem isupper_of_isDigit {c : Char} (h : c.isDigit = true) : isupper c = false := by
  simp only [Char.isDigit, Bool.and_eq_true, decide_eq_true_eq, ge_iff_le] at h
  have hhi : c.toNat ≤ 57 := h.2
  rw [Bool.eq_false_iff, ne_eq, isupper_iff_toNat]
  omega

/-- The letter that `capitalize` puts in the place of `c`. -/
def capital (c : Char) : Char := Char.ofNat (c.toNat - 32)

theorem capital_toNat {c : Char} (h : islower c = true) : (capital c).toNat = c.toNat - 32 := by
  have hlower := islower_toNat h
  exact toNat_ofNat (by omega)

theorem isupper_capital {c : Char} (h : islower c = true) : isupper (capital c) = true := by
  have hlower := islower_toNat h
  rw [isupper_iff_toNat, capital_toNat h]
  omega

theorem tolower_capital {c : Char} (h : islower c = true) : tolower (capital c) = c := by
  have hlower := islower_toNat h
  have hback : c.toNat - 32 + 32 = c.toNat := by omega
  rw [tolower, if_pos (isupper_capital h), capital_toNat h, hback, Char.ofNat_toNat]

/-! ## Words -/

/-- A capital letter and no other one behind it. -/
structure Hump (w : Str) : Prop where
  ne : w ≠ []
  first : ∀ c ∈ w.head?, isupper c = true
  rest : ∀ c ∈ w.tail, isupper c = false

theorem segment_no_upper {s : Str} (h : isSegment s = true) : ∀ c ∈ s, isupper c = false := by
  cases s with
  | nil => cases h
  | cons c cs =>
    simp only [isSegment, Bool.and_eq_true, List.all_eq_true, Bool.or_eq_true] at h
    refine List.forall_mem_cons.mpr ⟨isupper_of_islower h.1, fun d hd => ?_⟩
    rcases h.2 d hd with hlower | hdigit
    · exact isupper_of_islower hlower
    · exact isupper_of_isDigit hdigit

theorem segment_ne_nil {s : Str} (h : isSegment s = true) : s ≠ [] := by
  rintro rfl
  cases h

theorem segment_lower {s : Str} (h : isSegment s = true) : Util.toLowerCase s = s := by
  have hsame : ∀ c ∈ s, tolower c = c := fun c hc => tolower_of_not_upper (segment_no_upper h c hc)
  rw [Util.toLowerCase, List.map_congr_left hsame, List.map_id']

theorem hump_capitalize {s : Str} (h : isSegment s = true) : Hump (capitalize s) := by
  have hupper := segment_no_upper h
  cases s with
  | nil => cases h
  | cons c cs =>
    simp only [isSegment, Bool.and_eq_true] at h
    rw [capitalize, if_pos h.1]
    refine ⟨List.cons_ne_nil _ _, ?_, fun d hd => hupper d (List.mem_cons_of_mem c hd)⟩
    exact fun d hd => Option.some.inj hd ▸ isupper_capital h.1

theorem lower_capitalize {s : Str} (h : isSegment s = true) :
    Util.toLowerCase (capitalize s) = s := by
  have hlower := segment_lower h
  cases s with
  | nil => cases h
  | cons c cs =>
    simp only [isSegment, Bool.and_eq_true] at h
    simp only [Util.toLowerCase, List.map_cons, List.cons.injEq] at hlower ⊢
    rw [capitalize, if_pos h.1, List.map_cons]
    exact congrArg₂ List.cons (tolower_capital h.1) hlower.2

theorem length_capitalize (s : Str) : (capitalize s).length = s.length := by
  cases s with
  | nil => rfl
  | cons c cs => rfl

/-! ## The loop of cppToDb -/

/-- The words that the loop makes of humps: `sub` is the word it is in, and inside a run
of capital letters no new one begins. -/
def wordsFrom (flag : Bool) (sub : Str) : List Str → List Str
  | [] => [sub]
  | w :: ws =>
    if flag then wordsFrom (w.length = 1) (sub ++ w) ws
    else sub :: wordsFrom (w.length = 1) w ws

theorem cppToDbLoop_plain {w : Str} (h : ∀ c ∈ w, isupper c = false) (flag : Bool)
    (res sub tail : Str) :
    cppToDbLoop flag res sub (w ++ tail) =
      cppToDbLoop (flag && w.isEmpty) res (sub ++ w) tail := by
  induction w generalizing flag sub with
  | nil => simp
  | cons c w ih =>
    have hc : isupper c = false := h c (by simp)
    rw [List.cons_append, cppToDbLoop, hc]
    simp only [Bool.false_eq_true, if_false, Bool.and_false]
    rw [ih fun d hd => h d (by simp [hd])]
    simp

theorem cppToDbLoop_hump {w : Str} (h : Hump w) (flag : Bool) (res sub tail : Str) :
    cppToDbLoop flag res sub (w ++ tail) =
      if flag then cppToDbLoop (w.length = 1) res (sub ++ w) tail
      else cppToDbLoop (w.length = 1) (appendSub res sub) w tail := by
  cases w with
  | nil => exact absurd rfl h.ne
  | cons c w =>
    have hc : isupper c = true := h.first c rfl
    have hrest : ∀ d ∈ w, isupper d = false := h.rest
    have hempty : w.isEmpty = decide ((c :: w).length = 1) := by cases w <;> simp
    rw [List.cons_append, cppToDbLoop, hc]
    cases flag with
    | false =>
      simp only [if_true, Bool.not_false, Bool.and_self, Bool.false_eq_true, if_false]
      rw [cppToDbLoop_plain hrest, Bool.true_and, hempty, List.singleton_append]
    | true =>
      simp only [if_true, Bool.not_true, Bool.false_and, Bool.false_eq_true, if_false]
      rw [cppToDbLoop_plain hrest, Bool.true_and, hempty, List.append_assoc,
        List.singleton_append]

theorem cppToDbLoop_humps {ws : List Str} (h : ∀ w ∈ ws, Hump w) (flag : Bool) (res sub : Str) :
    appendSub (cppToDbLoop flag res sub ws.flatten).1 (cppToDbLoop flag res sub ws.flatten).2 =
      (wordsFrom flag sub ws).foldl appendSub res := by
  induction ws generalizing flag res sub with
  | nil => rfl
  | cons w ws ih =>
    have hrest : ∀ v ∈ ws, Hump v := fun v hv => h v (by simp [hv])
    rw [List.flatten_cons, cppToDbLoop_hump (h w (by simp)), wordsFrom]
    cases flag with
    | false => exact ih hrest _ _ _
    | true => exact ih hrest _ _ _

theorem foldl_appendSub {front ws : List Str} (hfront : ∀ w ∈ front, w ≠ [])
    (h : ∀ w ∈ ws, w ≠ []) :
    ws.foldl appendSub (Util.join '_' (front.map Util.toLowerCase)) =
      Util.join '_' ((front ++ ws).map Util.toLowerCase) := by
  induction ws generalizing front with
  | nil => simp
  | cons w ws ih =>
    have hw : w ≠ [] := h w (by simp)
    have happend : appendSub (Util.join '_' (front.map Util.toLowerCase)) w =
        Util.join '_' ((front ++ [w]).map Util.toLowerCase) := by
      by_cases hnil : front = []
      · subst hnil
        rfl
      · have hlower : ∀ v ∈ front.map Util.toLowerCase, v ≠ [] := by
          simpa [Util.toLowerCase] using hfront
        have hne : Util.join '_' (front.map Util.toLowerCase) ≠ [] := by
          rw [ne_eq, Util.join_eq_nil_iff hlower]
          simpa using hnil
        rw [appendSub, if_pos (List.length_pos_of_ne_nil hne), List.map_append,
          Util.join_append (by simpa using hnil) (by simp), List.append_assoc]
        rfl
    rw [List.foldl_cons, happend, ih _ fun v hv => h v (by simp [hv]), List.append_assoc,
      List.singleton_append]
    exact List.forall_mem_append.mpr ⟨hfront, by simpa using hw⟩

theorem wordsFrom_ne_nil {flag : Bool} {sub : Str} {ws : List Str} (hsub : flag = false → sub ≠ [])
    (hflag : flag = true → sub ≠ [] ∨ ws ≠ []) (h : ∀ w ∈ ws, w ≠ []) :
    ∀ v ∈ wordsFrom flag sub ws, v ≠ [] := by
  induction ws generalizing flag sub with
  | nil =>
    intro v hv
    rw [wordsFrom, List.mem_singleton] at hv
    rw [hv]
    cases flag with
    | false => exact hsub rfl
    | true => exact (hflag rfl).resolve_right (by simp)
  | cons w ws ih =>
    have hw : w ≠ [] := h w (by simp)
    have hrest : ∀ v ∈ ws, v ≠ [] := fun v hv => h v (by simp [hv])
    rw [wordsFrom]
    cases flag with
    | false =>
      have hmore := @ih (decide (w.length = 1)) w (fun _ => hw) (fun _ => .inl hw) hrest
      exact List.forall_mem_cons.mpr ⟨hsub rfl, hmore⟩
    | true =>
      have hne : sub ++ w ≠ [] := by simp [hw]
      exact @ih (decide (w.length = 1)) (sub ++ w) (fun _ => hne) (fun _ => .inl hne) hrest

/-- Every hump begins a word of its own exactly when no capital letter stands alone before
another one. -/
theorem wordsFrom_length (flag : Bool) (sub : Str) (ws : List Str) :
    (wordsFrom flag sub ws).length ≤ ws.length + 1 ∧
      ((wordsFrom flag sub ws).length = ws.length + 1 ↔
        (ws ≠ [] → flag = false) ∧ ∀ w ∈ ws.dropLast, w.length ≠ 1) := by
  induction ws generalizing flag sub with
  | nil => simp [wordsFrom]
  | cons w ws ih =>
    rw [wordsFrom]
    cases flag with
    | true =>
      obtain ⟨hle, -⟩ := ih (decide (w.length = 1)) (sub ++ w)
      simp only [if_true, List.length_cons]
      refine ⟨by omega, ?_⟩
      simp only [ne_eq, List.cons_ne_nil, not_false_eq_true, Bool.true_eq_false, forall_const,
        false_and, iff_false]
      omega
    | false =>
      obtain ⟨hle, hiff⟩ := ih (decide (w.length = 1)) w
      simp only [Bool.false_eq_true, if_false, List.length_cons]
      refine ⟨by omega, ?_⟩
      rw [Nat.add_right_cancel_iff, hiff]
      cases ws with
      | nil => simp
      | cons v vs => simp

theorem wordsFrom_apart {sub : Str} {ws : List Str} (h : ∀ w ∈ ws.dropLast, w.length ≠ 1) :
    wordsFrom false sub ws = sub :: ws := by
  induction ws generalizing sub with
  | nil => rfl
  | cons w ws ih =>
    rw [wordsFrom, if_neg Bool.false_ne_true]
    cases ws with
    | nil => rfl
    | cons v vs =>
      have hw : w.length ≠ 1 := h w (by simp)
      rw [decide_eq_false hw, ih fun u hu => h u (by simp [List.dropLast_cons_of_ne_nil, hu])]

/-! ## There and back -/

theorem flatten_wordsFrom (flag : Bool) (sub : Str) (ws : List Str) :
    (wordsFrom flag sub ws).flatten = sub ++ ws.flatten := by
  induction ws generalizing flag sub with
  | nil => simp [wordsFrom]
  | cons w ws ih =>
    rw [wordsFrom]
    cases flag with
    | false => simp [ih]
    | true => simp [ih]

theorem wordsFrom_some (flag : Bool) (sub : Str) (ws : List Str) : wordsFrom flag sub ws ≠ [] := by
  induction ws generalizing flag sub with
  | nil => simp [wordsFrom]
  | cons w ws ih =>
    rw [wordsFrom]
    cases flag with
    | false => simp
    | true => exact ih _ _

theorem length_join {sep : Char} {parts : List Str} (hne : parts ≠ []) :
    (Util.join sep parts).length + 1 = parts.flatten.length + parts.length := by
  induction parts with
  | nil => exact absurd rfl hne
  | cons part parts ih =>
    by_cases hnil : parts = []
    · subst hnil
      simp [Util.join]
    · have hrest := ih hnil
      rw [Util.join_cons part hnil, List.flatten_cons]
      simp only [List.length_append, List.length_cons] at hrest ⊢
      omega

theorem length_flatten_lower (ws : List Str) :
    (ws.map Util.toLowerCase).flatten.length = ws.flatten.length := by
  simp [Util.toLowerCase, List.length_flatten, Function.comp_def]

/-- Fewer words give a shorter name. -/
theorem join_wordsFrom_iff (flag : Bool) (first : Str) (rest : List Str) :
    Util.join '_' ((wordsFrom flag first rest).map Util.toLowerCase) =
        Util.join '_' ((first :: rest).map Util.toLowerCase) ↔
      (rest ≠ [] → flag = false) ∧ ∀ w ∈ rest.dropLast, w.length ≠ 1 := by
  constructor
  · intro heq
    have hne : (wordsFrom flag first rest).map Util.toLowerCase ≠ [] := by
      simpa using wordsFrom_some flag first rest
    have hwords := @length_join '_' _ hne
    have hsegments := @length_join '_' ((first :: rest).map Util.toLowerCase) (by simp)
    rw [heq, length_flatten_lower, flatten_wordsFrom] at hwords
    rw [length_flatten_lower] at hsegments
    simp only [List.length_map, List.length_cons, List.flatten_cons] at hwords hsegments
    exact (wordsFrom_length flag first rest).2.mp (by omega)
  · rintro ⟨hflag, hlone⟩
    cases rest with
    | nil => rfl
    | cons w ws =>
      rw [hflag (List.cons_ne_nil w ws), wordsFrom_apart hlone]

/-- What is read of humps behind a first word. -/
theorem appendSub_loop {first : Str} {rest : List Str} (hfirst : first ≠ [])
    (hrest : ∀ w ∈ rest, Hump w) (flag : Bool) :
    appendSub (cppToDbLoop flag [] first rest.flatten).1
        (cppToDbLoop flag [] first rest.flatten).2 =
      Util.join '_' ((wordsFrom flag first rest).map Util.toLowerCase) := by
  have hwords : ∀ v ∈ wordsFrom flag first rest, v ≠ [] :=
    wordsFrom_ne_nil (fun _ => hfirst) (fun _ => .inl hfirst) fun w hw => (hrest w hw).ne
  rw [cppToDbLoop_humps hrest]
  exact @foldl_appendSub [] _ (by simp) hwords

namespace SnakeName

variable (name : SnakeName)

theorem sepFree {s : Str} (h : isSegment s = true) : Util.SepFree ['_'] s := by
  intro c hc hsep
  obtain rfl := List.mem_singleton.mp hsep
  have hvalid : islower '_' = true ∨ '_'.isDigit = true := by
    cases s with
    | nil => cases hc
    | cons d cs =>
      simp only [isSegment, Bool.and_eq_true, List.all_eq_true, Bool.or_eq_true] at h
      rcases List.mem_cons.mp hc with rfl | hmem
      · exact .inl h.1
      · exact h.2 _ hmem
  exact absurd hvalid (by decide)

theorem split_text : Util.split name.text ['_'] = name.segments :=
  Util.split_join (by simp) name.segments fun s hs =>
    ⟨segment_ne_nil (name.valid s hs), sepFree (name.valid s hs)⟩

theorem dbToCppParts_true (segments : List Str) :
    dbToCppParts true segments = (segments.map capitalize).flatten := by
  induction segments with
  | nil => rfl
  | cons s segments ih => simp [dbToCppParts, ih]

/-- The first segment, and the humps behind it. -/
theorem exists_segments : ∃ s ss, name.segments = s :: ss ∧ isSegment s = true ∧
    (∀ v ∈ ss, isSegment v = true) ∧ ∀ w ∈ ss.map capitalize, Hump w := by
  obtain ⟨s, ss, hsegments⟩ := List.exists_cons_of_ne_nil name.some_segment
  have hvalid := name.valid
  rw [hsegments, List.forall_mem_cons] at hvalid
  refine ⟨s, ss, hsegments, hvalid.1, hvalid.2, ?_⟩
  simpa using fun v hv => hump_capitalize (hvalid.2 v hv)

theorem map_lower {ss : List Str} (h : ∀ v ∈ ss, isSegment v = true) :
    (ss.map capitalize).map Util.toLowerCase = ss := by
  rw [List.map_map]
  refine (List.map_congr_left fun v hv => ?_).trans (List.map_id ss)
  exact lower_capitalize (h v hv)

theorem forall_dropLast_capitalize (ss : List Str) :
    (∀ w ∈ (ss.map capitalize).dropLast, w.length ≠ 1) ↔ ∀ s ∈ ss.dropLast, s.length ≠ 1 := by
  rw [← List.map_dropLast, List.forall_mem_map]
  simp only [length_capitalize]

theorem cppToDb_dbToCpp (cap_ini : Bool) :
    cppToDb (dbToCpp name.text cap_ini) = name.text ↔ name.Apart cap_ini := by
  obtain ⟨s, ss, hsegments, hs, hss, hhumps⟩ := name.exists_segments
  have hne := segment_ne_nil hs
  rw [dbToCpp, split_text, Apart, capitalized, text, hsegments]
  cases cap_ini with
  | true =>
    have hhump := hump_capitalize hs
    have hcap : capitalize s ≠ [] := hhump.ne
    have hlen : ((capitalize s) ++ (ss.map capitalize).flatten).length ≠ 0 := by
      simpa using fun h => absurd h hcap
    have hlower : Util.join '_' (s :: ss) =
        Util.join '_' ((capitalize s :: ss.map capitalize).map Util.toLowerCase) := by
      rw [List.map_cons, lower_capitalize hs, map_lower hss]
    rw [dbToCppParts_true, List.map_cons, List.flatten_cons, cppToDb, if_neg hlen,
      cppToDbLoop_hump hhump, hlower]
    simp only [if_true, List.nil_append]
    rw [appendSub_loop hcap hhumps, join_wordsFrom_iff, forall_dropLast_capitalize,
      length_capitalize]
    cases ss with
    | nil => simp
    | cons v vs => simp
  | false =>
    have hlen : (s ++ (ss.map capitalize).flatten).length ≠ 0 := by
      simpa using fun h => absurd h hne
    have hempty : (true && s.isEmpty) = false := by simpa using hne
    have hlower : Util.join '_' (s :: ss) =
        Util.join '_' ((s :: ss.map capitalize).map Util.toLowerCase) := by
      rw [List.map_cons, segment_lower hs, map_lower hss]
    rw [dbToCppParts, dbToCppParts_true, if_neg Bool.false_ne_true, cppToDb, if_neg hlen,
      cppToDbLoop_plain (segment_no_upper hs), hempty, hlower]
    simp only [Bool.false_eq_true, if_false, List.nil_append, List.tail_cons]
    rw [appendSub_loop hne hhumps, join_wordsFrom_iff, forall_dropLast_capitalize]
    simp

/-! ## Different names -/

/-- Where a hump begins, or the text ends, no capital letter is passed over. -/
theorem plain_append_inj {s t : Str} (hs : ∀ c ∈ s, isupper c = false)
    (ht : ∀ c ∈ t, isupper c = false) {ws vs : List Str} (hws : ∀ w ∈ ws, Hump w)
    (hvs : ∀ v ∈ vs, Hump v) (h : s ++ ws.flatten = t ++ vs.flatten) :
    s = t ∧ ws.flatten = vs.flatten := by
  have htake {s : Str} (hs : ∀ c ∈ s, isupper c = false) {ws : List Str} (hws : ∀ w ∈ ws, Hump w) :
      (s ++ ws.flatten).takeWhile (!isupper ·) = s := by
    rw [List.takeWhile_append_of_pos (by simpa using hs)]
    cases ws with
    | nil => simp
    | cons w ws =>
      have hhump := hws w (by simp)
      cases w with
      | nil => exact absurd rfl hhump.ne
      | cons c w => simp [hhump.first c rfl]
  have heq := (htake hs hws).symm.trans ((congrArg _ h).trans (htake ht hvs))
  rw [heq] at h
  exact ⟨heq, List.append_cancel_left h⟩

theorem humps_inj {ws vs : List Str} (hws : ∀ w ∈ ws, Hump w) (hvs : ∀ v ∈ vs, Hump v)
    (h : ws.flatten = vs.flatten) : ws = vs := by
  induction ws generalizing vs with
  | nil =>
    cases vs with
    | nil => rfl
    | cons v vs =>
      rw [List.flatten_nil, List.flatten_cons, eq_comm, List.append_eq_nil_iff] at h
      exact absurd h.1 (hvs v (by simp)).ne
  | cons w ws ih =>
    cases vs with
    | nil =>
      rw [List.flatten_nil, List.flatten_cons, List.append_eq_nil_iff] at h
      exact absurd h.1 (hws w (by simp)).ne
    | cons v vs =>
      have hw := hws w (by simp)
      have hv := hvs v (by simp)
      have hrest : ∀ u ∈ ws, Hump u := fun u hu => hws u (by simp [hu])
      have hrest' : ∀ u ∈ vs, Hump u := fun u hu => hvs u (by simp [hu])
      cases w with
      | nil => exact absurd rfl hw.ne
      | cons c w =>
        cases v with
        | nil => exact absurd rfl hv.ne
        | cons d v =>
          simp only [List.flatten_cons, List.cons_append, List.cons.injEq] at h
          have hparts : w = v ∧ ws.flatten = vs.flatten :=
            plain_append_inj hw.rest hv.rest hrest hrest' h.2
          rw [h.1, hparts.1, ih hrest hrest' hparts.2]

theorem map_capitalize_inj {ss ts : List Str} (hss : ∀ v ∈ ss, isSegment v = true)
    (hts : ∀ v ∈ ts, isSegment v = true)
    (h : (ss.map capitalize).flatten = (ts.map capitalize).flatten) : ss = ts := by
  have hhumps {us : List Str} (hus : ∀ v ∈ us, isSegment v = true) :
      ∀ w ∈ us.map capitalize, Hump w := by
    simpa using fun v hv => hump_capitalize (hus v hv)
  have hcaps := humps_inj (hhumps hss) (hhumps hts) h
  rw [← map_lower hss, hcaps, map_lower hts]

theorem dbToCpp_inj {name' : SnakeName} {cap_ini : Bool}
    (h : dbToCpp name.text cap_ini = dbToCpp name'.text cap_ini) : name.text = name'.text := by
  obtain ⟨s, ss, hsegments, hs, hss, hhumps⟩ := name.exists_segments
  obtain ⟨t, ts, hsegments', ht, hts, hhumps'⟩ := name'.exists_segments
  rw [dbToCpp, dbToCpp, split_text, split_text, hsegments, hsegments'] at h
  rw [text, text, hsegments, hsegments']
  cases cap_ini with
  | true =>
    rw [dbToCppParts_true, dbToCppParts_true] at h
    rw [map_capitalize_inj (List.forall_mem_cons.mpr ⟨hs, hss⟩) (List.forall_mem_cons.mpr ⟨ht, hts⟩)
      h]
  | false =>
    rw [dbToCppParts, dbToCppParts, dbToCppParts_true, dbToCppParts_true,
      if_neg Bool.false_ne_true, if_neg Bool.false_ne_true] at h
    obtain ⟨rfl, hrest⟩ := plain_append_inj (segment_no_upper hs) (segment_no_upper ht) hhumps
      hhumps' h
    rw [map_capitalize_inj hss hts hrest]

/-! ## Class and member names -/

/-- A snake name is read back from its class name and from its member name exactly when no
capital letter stands alone before another one, and it is the only one with these names. -/
theorem readsBack_iff (name : SnakeName) :
    (∀ cap_ini, cppToDb (dbToCpp name.text cap_ini) = name.text ↔ name.Apart cap_ini) ∧
      (∀ m : Model, m.className = dbToCpp name.text true →
        (m.getDefaultTableName = name.text ↔ name.Apart true)) ∧
      (∀ field : FieldMeta, field.columnName = none → field.fieldName = dbToCpp name.text false →
        (field.getColumnName = name.text ↔ name.Apart false)) ∧
      ∀ (name' : SnakeName) (cap_ini : Bool),
        dbToCpp name.text cap_ini = dbToCpp name'.text cap_ini → name.text = name'.text := by
  refine ⟨name.cppToDb_dbToCpp, fun m hclass => ?_, fun field hcolumn hfield => ?_,
    fun name' cap_ini h => name.dbToCpp_inj h⟩
  · rw [Model.getDefaultTableName, hclass, name.cppToDb_dbToCpp]
  · rw [FieldMeta.getColumnName, hcolumn, hfield, Option.getD_none, name.cppToDb_dbToCpp]

def t_user : SnakeName where
  segments := ["t".toList, "user".toList]
  some_segment := by simp
  valid := by decide

/-- The capitals of `TUser` are read as one run. -/
theorem t_user_joined : cppToDb (dbToCpp t_user.text true) = "tuser".toList ∧
    ¬ ∀ (name : SnakeName) (cap_ini : Bool), cppToDb (dbToCpp name.text cap_ini) = name.text := by
  refine ⟨by decide, fun h => ?_⟩
  exact absurd (h t_user true) (by decide)

end SnakeName

end TinyOrm
