import TinyOrm.Lib.Loop
import TinyOrm.Timestamp
set_option autoImplicit false

/-!
`Util::split` and `Util::strip` as the loops over indices that they are
(mysql4cpp/common.cpp): the maximal runs without a separator, and the string without the
white space around it.
-/

namespace TinyOrm

namespace Util

/-! ## The loop of split -/

def find_first_of (str seps : Str) (pos : Nat) : Option Nat :=
  ((str.drop pos).findIdx? (· ∈ seps)).map (pos + ·)

/-- `str.substr(l, r - l)` -/
def substr (str : Str) (l r : Nat) : Str := (str.drop l).take (r - l)

/-- `broken`: the loop has been left by its `break`. -/
structure SplitState where
  l : Nat := 0
  arr : List Str := []
  broken : Bool := false

def SplitState.Ended (str : Str) (s : SplitState) : Prop := s.broken = true ∨ str.length ≤ s.l

instance (str : Str) : DecidablePred (SplitState.Ended str) :=
  fun s => inferInstanceAs (Decidable (s.broken = true ∨ str.length ≤ s.l))

/-- One pass. -/
def splitStep (str seps : Str) (s : SplitState) : Option SplitState :=
  match find_first_of str seps s.l with
  | some r =>
    if r = s.l then some { s with l := s.l + 1 }
    else some { s with l := r + 1, arr := s.arr ++ [substr str s.l r] }
  | none => some { s with arr := s.arr ++ [str.drop s.l], broken := true }

/-- `fuel` passes at most. -/
def splitLoop (fuel : Nat) (str seps : Str) : Option (List Str) :=
  (Loop.run (splitStep str seps) (SplitState.Ended str) fuel {}).map (·.arr)

/-! ## Maximal runs -/

/-- The characters from `l` up to `r` are no separators, and those beside them are. -/
structure MaximalRun (str seps : Str) (l r : Nat) : Prop where
  nonempty : l < r
  bounded : r ≤ str.length
  free : ∀ i c, l ≤ i → i < r → str[i]? = some c → c ∉ seps
  left : l = 0 ∨ ∃ c ∈ seps, str[l - 1]? = some c
  right : r = str.length ∨ ∃ c ∈ seps, str[r]? = some c

/-- The maximal runs of the string, each once and in their order. -/
def MaximalRuns (str seps : Str) (arr : List Str) : Prop :=
  ∃ spans : List (Nat × Nat), spans.Pairwise (fun a b => a.2 < b.1) ∧
    (∀ l r, (l, r) ∈ spans ↔ MaximalRun str seps l r) ∧
    arr = spans.map fun span => substr str span.1 span.2

variable {str seps : Str}

/-- No two maximal runs hold the same character. -/
theorem MaximalRun.start_eq {l r l' r' : Nat} (h : MaximalRun str seps l r)
    (h' : MaximalRun str seps l' r') (hle : l ≤ l') (hlt : l' < r) : l = l' := by
  by_contra hne
  rcases h'.left with hzero | ⟨c, hc, hget⟩
  · omega
  · exact h.free (l' - 1) c (by omega) (by omega) hget hc

theorem MaximalRun.end_eq {l r r' : Nat} (h : MaximalRun str seps l r)
    (h' : MaximalRun str seps l r') : r = r' := by
  have hone {r r' : Nat} (h : MaximalRun str seps l r) (h' : MaximalRun str seps l r')
      (hlt : r < r') : False := by
    have hbounded := h'.bounded
    have hnonempty := h.nonempty
    rcases h.right with hend | ⟨c, hc, hget⟩
    · omega
    · exact h'.free r c (by omega) hlt hget hc
  rcases Nat.lt_trichotomy r r' with hlt | heq | hgt
  · exact (hone h h' hlt).elim
  · exact heq
  · exact (hone h' h hgt).elim

/-! ## What a pass finds -/

theorem find_first_of_eq_none {pos : Nat} (h : find_first_of str seps pos = none) {i : Nat}
    {c : Char} (hi : pos ≤ i) (hget : str[i]? = some c) : c ∉ seps := by
  rw [find_first_of, Option.map_eq_none_iff, List.findIdx?_eq_none_iff] at h
  have hdrop : (str.drop pos)[i - pos]? = some c := by
    rw [List.getElem?_drop, Nat.add_sub_cancel' hi, hget]
  simpa using h c (List.mem_of_getElem? hdrop)

theorem find_first_of_eq_some {pos r : Nat} (h : find_first_of str seps pos = some r) :
    pos ≤ r ∧ (∃ c ∈ seps, str[r]? = some c) ∧
      ∀ i c, pos ≤ i → i < r → str[i]? = some c → c ∉ seps := by
  rw [find_first_of, Option.map_eq_some_iff] at h
  obtain ⟨k, hk, rfl⟩ := h
  rw [List.findIdx?_eq_some_iff_getElem] at hk
  obtain ⟨hlt, hsep, hbefore⟩ := hk
  refine ⟨Nat.le_add_right pos k, ⟨(str.drop pos)[k], by simpa using hsep, ?_⟩, ?_⟩
  · rw [← List.getElem?_drop]
    exact List.getElem?_eq_getElem hlt
  · intro i c hi hik hget
    have hdrop : (str.drop pos)[i - pos]? = some c := by
      rw [List.getElem?_drop, Nat.add_sub_cancel' hi, hget]
    obtain ⟨hlt', hget'⟩ := List.getElem?_eq_some_iff.mp hdrop
    have hnot := hbefore (i - pos) (by omega)
    rw [hget'] at hnot
    simpa using hnot

/-! ## The invariant -/

/-- Runs that begin before it have been found. -/
def SplitState.front (str : Str) (s : SplitState) : Nat :=
  if s.broken then str.length + 1 else s.l

structure SplitState.Inv (str seps : Str) (s : SplitState) : Prop where
  start : s.broken = false → s.l = 0 ∨ ∃ c ∈ seps, str[s.l - 1]? = some c
  found : ∃ spans : List (Nat × Nat), spans.Pairwise (fun a b => a.2 < b.1) ∧
    (∀ span ∈ spans, span.2 < s.front str) ∧
    (∀ l r, (l, r) ∈ spans ↔ MaximalRun str seps l r ∧ l < s.front str) ∧
    s.arr = spans.map fun span => substr str span.1 span.2

theorem SplitState.inv_start : SplitState.Inv str seps {} :=
  ⟨fun _ => Or.inl rfl, [], List.Pairwise.nil, by simp, by simp [SplitState.front], rfl⟩

/-- A run at the front is found, and the front moves behind it. -/
theorem SplitState.Inv.found_run {s t : SplitState} (h : s.Inv str seps) (hs : s.broken = false)
    {r : Nat} (hrun : MaximalRun str seps s.l r) (harr : t.arr = s.arr ++ [substr str s.l r])
    (hfront : r < t.front str)
    (hnone : ∀ l' r', MaximalRun str seps l' r' → r ≤ l' → t.front str ≤ l')
    (hstart : t.broken = false → t.l = 0 ∨ ∃ c ∈ seps, str[t.l - 1]? = some c) :
    t.Inv str seps := by
  have hl : s.front str = s.l := by simp [SplitState.front, hs]
  obtain ⟨spans, hsorted, hbehind, hspans, harrs⟩ := h.found
  rw [hl] at hbehind hspans
  refine ⟨hstart, spans ++ [(s.l, r)], ?_, ?_, ?_, by simp [harr, harrs]⟩
  · rw [List.pairwise_append]
    exact ⟨hsorted, List.pairwise_singleton _ _, by simpa using hbehind⟩
  · intro span hspan
    have hlt := hrun.nonempty
    rcases List.mem_append.mp hspan with hold | hnew
    · have hold' := hbehind span hold
      omega
    · rw [List.mem_singleton.mp hnew]
      exact hfront
  · intro l' r'
    rw [List.mem_append, List.mem_singleton, hspans, Prod.mk.injEq]
    have hlt := hrun.nonempty
    constructor
    · rintro (⟨hmax, hbefore⟩ | ⟨rfl, rfl⟩)
      · exact ⟨hmax, by omega⟩
      · exact ⟨hrun, by omega⟩
    · rintro ⟨hmax, hbefore⟩
      rcases Nat.lt_or_ge l' s.l with hold | hge
      · exact .inl ⟨hmax, hold⟩
      · have hltr : l' < r := by
          by_contra hnot
          have hle := hnone l' r' hmax (by omega)
          omega
        obtain rfl := hrun.start_eq hmax hge hltr
        exact .inr ⟨rfl, hmax.end_eq hrun⟩

/-- A separator at the front is passed over. -/
theorem SplitState.Inv.passed {s : SplitState} (h : s.Inv str seps) (hs : s.broken = false)
    {sep : Char} (hsep : sep ∈ seps) (hget : str[s.l]? = some sep) :
    SplitState.Inv str seps { s with l := s.l + 1 } := by
  obtain ⟨spans, hsorted, hbehind, hspans, harrs⟩ := h.found
  simp only [SplitState.front, hs, Bool.false_eq_true, if_false] at hbehind hspans
  refine ⟨fun _ => .inr ⟨sep, hsep, by simpa using hget⟩, spans, hsorted, ?_, ?_, harrs⟩
  · intro span hspan
    have hold := hbehind span hspan
    simp only [SplitState.front, hs, Bool.false_eq_true, if_false]
    omega
  · intro l' r'
    simp only [hspans, SplitState.front, hs, Bool.false_eq_true, if_false]
    refine and_congr_right fun hmax => ?_
    have hne : l' ≠ s.l := by
      rintro rfl
      exact hmax.free _ sep (Nat.le_refl _) hmax.nonempty hget hsep
    omega

theorem SplitState.Inv.step {s t : SplitState} (h : s.Inv str seps) (hs : ¬ s.Ended str)
    (hstep : splitStep str seps s = some t) : t.Inv str seps := by
  simp only [SplitState.Ended, not_or, Bool.not_eq_true, Nat.not_le] at hs
  obtain ⟨hbroken, hlt⟩ := hs
  unfold splitStep at hstep
  cases hfind : find_first_of str seps s.l with
  | none =>
    -- the rest of the string is the last run
    rw [hfind] at hstep
    obtain rfl := Option.some.inj hstep
    have hrun : MaximalRun str seps s.l str.length :=
      ⟨hlt, Nat.le_refl _, fun i c hi _ => find_first_of_eq_none hfind hi, h.start hbroken,
        .inl rfl⟩
    refine h.found_run hbroken hrun ?_ (by simp [SplitState.front]) ?_ (by simp)
    · have htake : (str.drop s.l).take (str.length - s.l) = str.drop s.l :=
        List.take_of_length_le (by simp)
      rw [substr, htake]
    · intro l' r' hmax hle
      have hnonempty := hmax.nonempty
      have hbounded := hmax.bounded
      omega
  | some r =>
    rw [hfind] at hstep
    obtain ⟨hle, ⟨sep, hsep, hget⟩, hfree⟩ := find_first_of_eq_some hfind
    have hbound : r < str.length := (List.getElem?_eq_some_iff.mp hget).1
    dsimp only at hstep
    split at hstep
    · rename_i heq
      obtain rfl := Option.some.inj hstep
      rw [heq] at hget
      exact h.passed hbroken hsep hget
    · rename_i hne
      obtain rfl := Option.some.inj hstep
      have hrun : MaximalRun str seps s.l r :=
        ⟨by omega, by omega, hfree, h.start hbroken, .inr ⟨sep, hsep, hget⟩⟩
      refine h.found_run hbroken hrun rfl (by simp [SplitState.front, hbroken]) ?_ ?_
      · intro l' r' hmax hle'
        have hne' : l' ≠ r := by
          rintro rfl
          exact hmax.free _ sep (Nat.le_refl _) hmax.nonempty hget hsep
        simp only [SplitState.front, hbroken, Bool.false_eq_true, if_false]
        omega
      · exact fun _ => .inr ⟨sep, hsep, by simpa using hget⟩

theorem maximalRuns_of_run {n : Nat} {s : SplitState}
    (h : Loop.run (splitStep str seps) (SplitState.Ended str) n {} = some s)
    (hended : s.Ended str) : MaximalRuns str seps s.arr := by
  have hinv : SplitState.Inv str seps {} → s.Inv str seps :=
    Loop.run_rel (R := fun s t => s.Inv str seps → t.Inv str seps) (fun _ => id)
      (fun _ _ _ hst htu hs => htu (hst hs)) (fun _ _ hs hstep hinv => hinv.step hs hstep) h
  obtain ⟨spans, hsorted, -, hspans, harr⟩ := (hinv SplitState.inv_start).found
  refine ⟨spans, hsorted, fun l r => ?_, harr⟩
  rw [hspans, and_iff_left_iff_imp]
  intro hmax
  have hnonempty := hmax.nonempty
  have hbounded := hmax.bounded
  unfold SplitState.front
  rcases hended with hbroken | hend
  · rw [if_pos hbroken]
    omega
  · split <;> omega

/-! ## The loop and the recursion -/

/-- Without a separator the rest is one part. -/
theorem splitFrom_last {s : Str} (hne : s ≠ []) (h : s.findIdx? (· ∈ seps) = none) (n : Nat) :
    splitFrom seps (n + 1) s = [s] := by
  rw [List.findIdx?_eq_none_iff] at h
  exact splitFrom_part (fun c hc => by simpa using h c hc) hne n

theorem splitFrom_skip {s : Str} (h : s.findIdx? (· ∈ seps) = some 0) (n : Nat) :
    splitFrom seps (n + 1) s = splitFrom seps n (s.drop 1) := by
  cases s with
  | nil => simp at h
  | cons c s =>
    have hc : c ∈ seps := by
      by_contra hc
      simp [List.findIdx?_cons, hc] at h
    rw [splitFrom, if_pos hc]
    rfl

/-- The characters before the first separator are a part. -/
theorem splitFrom_found {s : Str} {k : Nat} (h : s.findIdx? (· ∈ seps) = some (k + 1)) (n : Nat) :
    splitFrom seps (n + 1) s = s.take (k + 1) :: splitFrom seps n (s.drop (k + 2)) := by
  obtain ⟨hk, hsep, hbefore⟩ := List.findIdx?_eq_some_iff_getElem.mp h
  have hfree : SepFree seps (s.take (k + 1)) := by
    intro c hc
    obtain ⟨i, hi, hget⟩ := List.mem_take_iff_getElem.mp hc
    have hnot := hbefore i (by omega)
    rw [hget] at hnot
    simpa using hnot
  have hne : s.take (k + 1) ≠ [] := by
    rw [ne_eq, ← List.length_eq_zero_iff, List.length_take]
    omega
  have hparts := splitFrom_part_sep hfree hne (by simpa using hsep) n (s.drop (k + 2))
  rwa [← List.drop_eq_getElem_cons hk, List.take_append_drop] at hparts

/-- The loop ends within as many passes as there are characters left, with the parts that
the recursion makes of them. -/
theorem run_splitStep {n : Nat} {s : SplitState} (hn : str.length - s.l ≤ n)
    (hs : s.broken = false) :
    ∃ t, Loop.run (splitStep str seps) (SplitState.Ended str) n s = some t ∧ t.Ended str ∧
      t.arr = s.arr ++ splitFrom seps n (str.drop s.l) := by
  induction n generalizing s with
  | zero =>
    have hended : s.Ended str := .inr (by omega)
    exact ⟨s, Loop.run_ended hended 0, hended, by simp [splitFrom]⟩
  | succ n ih =>
    by_cases hended : s.Ended str
    · have hnil : str.drop s.l = [] := by
        rcases hended with hbroken | hend
        · rw [hs] at hbroken
          cases hbroken
        · exact List.drop_eq_nil_of_le hend
      exact ⟨s, Loop.run_ended hended _, hended, by simp [hnil, splitFrom]⟩
    · have hlt : s.l < str.length := Nat.lt_of_not_le fun hle => hended (.inr hle)
      have hpass {t : SplitState} (hstep : splitStep str seps s = some t) :
          Loop.run (splitStep str seps) (SplitState.Ended str) (n + 1) s =
            Loop.run (splitStep str seps) (SplitState.Ended str) n t := by
        rw [Loop.run, if_neg hended, hstep, Option.bind_some]
      cases hfind : (str.drop s.l).findIdx? (· ∈ seps) with
      | none =>
        have hne : str.drop s.l ≠ [] := by simpa using hlt
        have hstep : splitStep str seps s =
            some { s with arr := s.arr ++ [str.drop s.l], broken := true } := by
          simp [splitStep, find_first_of, hfind]
        have hbroken : SplitState.Ended str
            { s with arr := s.arr ++ [str.drop s.l], broken := true } := .inl rfl
        rw [hpass hstep, splitFrom_last hne hfind]
        exact ⟨_, Loop.run_ended hbroken n, hbroken, rfl⟩
      | some k =>
        cases k with
        | zero =>
          have hstep : splitStep str seps s = some { s with l := s.l + 1 } := by
            simp [splitStep, find_first_of, hfind]
          rw [hpass hstep, splitFrom_skip hfind, List.drop_drop]
          exact @ih { s with l := s.l + 1 } (by dsimp only; omega) hs
        | succ k =>
          let t : SplitState := { s with
            l := s.l + (k + 1) + 1
            arr := s.arr ++ [substr str s.l (s.l + (k + 1))] }
          have hstep : splitStep str seps s = some t := by
            simp [splitStep, find_first_of, hfind, t]
          obtain ⟨u, hrun, huended, harr⟩ := @ih t (by dsimp only [t]; omega) hs
          refine ⟨u, (hpass hstep).trans hrun, huended, ?_⟩
          rw [harr, splitFrom_found hfind, List.drop_drop]
          simp [t, substr, Nat.add_assoc]

/-- Passes that are not needed change nothing. -/
theorem run_split (str seps : Str) (extra : Nat) :
    ∃ t, Loop.run (splitStep str seps) (SplitState.Ended str) (str.length + extra) {} = some t ∧
      t.Ended str ∧ t.arr = split str seps := by
  have hstart : str.length - SplitState.l {} ≤ str.length := Nat.sub_le _ _
  obtain ⟨t, hrun, hended, harr⟩ := @run_splitStep str seps _ {} hstart rfl
  exact ⟨t, Loop.run_mono (Nat.le_add_right _ _) hrun, hended, by simpa [split] using harr⟩

/-- `split` ends and returns the maximal runs without a separator, each once and in order,
so that it undoes a join. -/
theorem split_runs (str seps : Str) :
    (∀ extra, splitLoop (str.length + extra) str seps = some (split str seps)) ∧
      MaximalRuns str seps (split str seps) ∧
      ∀ sep ∈ seps, ∀ parts : List Str, (∀ part ∈ parts, part ≠ [] ∧ SepFree seps part) →
        join sep parts = str → split str seps = parts := by
  refine ⟨fun extra => ?_, ?_, ?_⟩
  · obtain ⟨t, hrun, -, harr⟩ := run_split str seps extra
    rw [splitLoop, hrun, Option.map_some, harr]
  · obtain ⟨t, hrun, hended, harr⟩ := run_split str seps 0
    rw [← harr]
    exact maximalRuns_of_run hrun hended
  · rintro sep hsep parts hparts rfl
    exact split_join hsep parts hparts

example : splitLoop 8 "a||b".toList "|".toList = some ["a".toList, "b".toList] := by decide

/-! ## The loops of strip -/

/-- `isspace(str.at(i))` -/
def spaceAt (str : Str) (i : Nat) : Bool := str[i]?.any isspace

/-- `while (i < j && isspace(str.at(i))) i++` -/
def skipFront (str : Str) (i j : Nat) : Nat :=
  if i < j ∧ spaceAt str i = true then skipFront str (i + 1) j else i
termination_by j - i

/-- `while (j > i && isspace(str.at(j))) j--` -/
def skipBack (str : Str) (i j : Nat) : Nat :=
  if j > i ∧ spaceAt str j = true then skipBack str i (j - 1) else j
termination_by j

/-- `strip` with its `int` indices. -/
def stripLoop (str : Str) : Str :=
  let j := toInt32 (str.length - 1)
  if j < 0 then []
  else
    let i := skipFront str 0 j.toNat
    if i = j.toNat then []
    else (str.drop i).take (skipBack str i j.toNat - i + 1)

/-- As many characters as an `int` index of the last one reaches. -/
def visible (length : Nat) : Nat := (toInt32 (length - 1) + 1).toNat

/-- The characters with the indices from `i` to `j`. -/
def window (str : Str) (i j : Nat) : Str := (str.drop i).take (j - i + 1)

theorem window_cons {i j : Nat} (hij : i < j) (hj : j < str.length) :
    ∃ c d cs, str[i]? = some c ∧ window str (i + 1) j = d :: cs ∧ window str i j =
      c :: d :: cs := by
  have hi : i < str.length := by omega
  have hi' : i + 1 < str.length := by omega
  have hlen : j - i + 1 = j - (i + 1) + 1 + 1 := by omega
  refine ⟨str[i], str[i + 1], (str.drop (i + 1 + 1)).take (j - (i + 1)),
    List.getElem?_eq_getElem hi, ?_, ?_⟩
  · rw [window, List.drop_eq_getElem_cons hi', List.take_succ_cons]
  · rw [window, List.drop_eq_getElem_cons hi, hlen, List.take_succ_cons,
      List.drop_eq_getElem_cons hi', List.take_succ_cons]

theorem window_self {j : Nat} (hj : j < str.length) : ∃ c, window str j j = [c] := by
  refine ⟨str[j], ?_⟩
  rw [window, List.drop_eq_getElem_cons hj, Nat.sub_self, List.take_succ_cons, List.take_zero]

theorem window_concat {i j : Nat} (hij : i < j) (hj : j < str.length) :
    ∃ c, str[j]? = some c ∧ window str i j = window str i (j - 1) ++ [c] := by
  have hlen : j - i < (str.drop i).length := by
    rw [List.length_drop]
    omega
  have hpred : j - 1 - i + 1 = j - i := by omega
  have hsum : i + (j - i) = j := by omega
  refine ⟨str[j], List.getElem?_eq_getElem hj, ?_⟩
  rw [window, window, hpred, List.take_succ_eq_append_getElem hlen]
  simp [hsum]

theorem skipFront_spec {i j : Nat} (hij : i ≤ j) (hj : j < str.length) :
    i ≤ skipFront str i j ∧ skipFront str i j ≤ j ∧
      skipSpace (window str i j) = window str (skipFront str i j) j := by
  fun_induction skipFront str i j with
  | case1 i h ih =>
    obtain ⟨hlo, hhi, hskip⟩ := ih h.1
    obtain ⟨c, d, cs, hget, hrest, hwindow⟩ := window_cons h.1 hj
    have hspace : isspace c = true := by simpa [spaceAt, hget] using h.2
    refine ⟨by omega, hhi, ?_⟩
    rw [hwindow, skipSpace, if_pos hspace, ← hrest, hskip]
  | case2 i h =>
    refine ⟨Nat.le_refl i, hij, ?_⟩
    rcases Nat.lt_or_eq_of_le hij with hlt | rfl
    · obtain ⟨c, d, cs, hget, -, hwindow⟩ := window_cons hlt hj
      have hspace : ¬ isspace c = true := fun hc => h ⟨hlt, by simpa [spaceAt, hget] using hc⟩
      rw [hwindow, skipSpace, if_neg hspace]
    · obtain ⟨c, hwindow⟩ := window_self hj
      rw [hwindow, skipSpace]

theorem skipBack_spec {i j : Nat} (hij : i ≤ j) (hj : j < str.length) :
    skipSpace (window str i j).reverse = (window str i (skipBack str i j)).reverse := by
  fun_induction skipBack str i j with
  | case1 j h ih =>
    obtain ⟨c, hget, hwindow⟩ := window_concat h.1 hj
    have hspace : isspace c = true := by simpa [spaceAt, hget] using h.2
    have hne : (window str i (j - 1)).reverse ≠ [] := by
      rw [window, ne_eq, List.reverse_eq_nil_iff, ← List.length_eq_zero_iff, List.length_take,
        List.length_drop]
      omega
    rw [← ih (by omega) (by omega), hwindow, List.reverse_append, List.reverse_singleton,
      List.singleton_append]
    cases hrev : (window str i (j - 1)).reverse with
    | nil => exact absurd hrev hne
    | cons d cs => rw [skipSpace, if_pos hspace]
  | case2 j h =>
    rcases Nat.lt_or_eq_of_le hij with hlt | rfl
    · obtain ⟨c, hget, hwindow⟩ := window_concat hlt hj
      have hspace : ¬ isspace c = true := fun hc => h ⟨hlt, by simpa [spaceAt, hget] using hc⟩
      refine skipSpace_self fun d hd => ?_
      rw [hwindow, List.reverse_append, List.reverse_singleton, List.singleton_append] at hd
      obtain rfl : c = d := by simpa using hd
      simpa using hspace
    · obtain ⟨c, hwindow⟩ := window_self hj
      rw [hwindow]
      rfl

theorem visible_le (n : Nat) : visible n ≤ n := by
  unfold visible toInt32
  rcases Nat.eq_zero_or_pos n with rfl | hpos
  · decide
  · rw [Int.bmod_def]
    split <;> omega

theorem visible_eq {n : Nat} (h : n ≤ 2 ^ 31) : visible n = n := by
  unfold visible toInt32
  rw [Int.bmod_eq_of_le (by omega) (by omega)]
  omega

/-- The loops strip the characters that their indices reach. -/
theorem stripLoop_eq (str : Str) : stripLoop str = strip (str.take (visible str.length)) := by
  have hle := visible_le str.length
  unfold stripLoop
  dsimp only
  by_cases hneg : toInt32 (str.length - 1) < 0
  · have hzero : visible str.length = 0 := by
      unfold visible
      omega
    rw [if_pos hneg, hzero]
    rfl
  · have hsize : visible str.length = (toInt32 (str.length - 1)).toNat + 1 := by
      unfold visible
      omega
    rw [hsize] at hle ⊢
    rw [if_neg hneg]
    generalize (toInt32 (str.length - 1)).toNat = j at hle
    obtain ⟨-, hij, hskip⟩ := skipFront_spec (Nat.zero_le j) hle
    have hwindow : window str 0 j = str.take (j + 1) := by simp [window]
    rw [hwindow] at hskip
    unfold strip
    rw [hskip]
    generalize skipFront str 0 j = i at hij
    rcases Nat.lt_or_eq_of_le hij with hlt | rfl
    · obtain ⟨c, d, cs, -, -, hcons⟩ := window_cons hlt hle
      have hback := skipBack_spec hij hle
      rw [if_neg (by omega), hcons]
      rw [hcons] at hback
      simp only [hback, List.reverse_reverse]
      rfl
    · obtain ⟨c, hcons⟩ := @window_self str i hle
      rw [if_pos rfl, hcons]

/-! ## The core of a string -/

/-- There is no white space at either end. -/
structure Bare (s : Str) : Prop where
  head : ∀ c ∈ s.head?, isspace c = false
  last : ∀ c ∈ s.getLast?, isspace c = false

/-- The longest stretch of the string that is bare. -/
structure IsCore (s core : Str) : Prop where
  stretch : core <:+: s
  bare : Bare core
  longest : ∀ u, u <:+: s → Bare u → u.length ≤ core.length

def trim (s : Str) : Str := (s.dropWhile isspace).rdropWhile isspace

def nonBlank (c : Char) : Bool := !isspace c

theorem dropWhile_append_bare (ws : Str) {s : Str} (hne : s ≠ [])
    (h : ∀ c ∈ s.head?, isspace c = false) :
    (ws ++ s).dropWhile isspace = ws.dropWhile isspace ++ s := by
  have hself : s.dropWhile isspace = s := by
    cases s with
    | nil => rfl
    | cons c s => rw [List.dropWhile_cons_of_neg (by simp [h c rfl])]
  rw [List.dropWhile_append, hself]
  split
  · rename_i hnil
    rw [List.isEmpty_iff.mp hnil, List.nil_append]
  · rfl

theorem rdropWhile_append_bare {s : Str} (hne : s ≠ [])
    (h : ∀ c ∈ s.getLast?, isspace c = false) (ws : Str) :
    (s ++ ws).rdropWhile isspace = s ++ ws.rdropWhile isspace := by
  rw [List.rdropWhile, List.reverse_append, dropWhile_append_bare _ (by simpa using hne)
    (by simpa using h), List.reverse_append, List.reverse_reverse, List.rdropWhile]

/-- What is bare stays where it is. -/
theorem trim_around {u : Str} (hu : Bare u) (hne : u ≠ []) (a b : Str) :
    trim (a ++ u ++ b) = a.dropWhile isspace ++ u ++ b.rdropWhile isspace := by
  have hhead : ∀ c ∈ (u ++ b).head?, isspace c = false := by
    rw [List.head?_append_of_ne_nil _ hne]
    exact hu.head
  have hlast : ∀ c ∈ (a.dropWhile isspace ++ u).getLast?, isspace c = false := by
    rw [List.getLast?_append_of_ne_nil _ hne]
    exact hu.last
  rw [trim, List.append_assoc, dropWhile_append_bare a (by simp [hne]) hhead, ← List.append_assoc,
    rdropWhile_append_bare (by simp [hne]) hlast]

theorem dropWhile_blank {ws : Str} (h : ∀ c ∈ ws, isspace c = true) :
    ws.dropWhile isspace = [] := List.dropWhile_eq_nil_iff.mpr h

theorem rdropWhile_blank {ws : Str} (h : ∀ c ∈ ws, isspace c = true) :
    ws.rdropWhile isspace = [] := by
  rw [List.rdropWhile, dropWhile_blank (by simpa using h), List.reverse_nil]

theorem trim_pieces {ws core ws' : Str} (hws : ∀ c ∈ ws, isspace c = true) (hcore : Bare core)
    (hws' : ∀ c ∈ ws', isspace c = true) : trim (ws ++ core ++ ws') = core := by
  by_cases hne : core = []
  · subst hne
    have hall : ∀ c ∈ ws ++ [] ++ ws', isspace c = true := by
      simp only [List.append_nil, List.forall_mem_append]
      exact ⟨hws, hws'⟩
    rw [trim, dropWhile_blank hall]
    rfl
  · rw [trim_around hcore hne, dropWhile_blank hws, rdropWhile_blank hws', List.nil_append,
      List.append_nil]

theorem bare_trim (s : Str) : Bare (trim s) := by
  have hlast : ∀ c ∈ (trim s).getLast?, isspace c = false := by
    intro c hc
    have hne : trim s ≠ [] := by
      rintro hnil
      rw [hnil] at hc
      cases hc
    have hnot := List.rdropWhile_last_not isspace (s.dropWhile isspace) hne
    rw [List.getLast?_eq_getLast_of_ne_nil hne] at hc
    rw [← Option.some.inj hc]
    exact Bool.eq_false_iff.mpr hnot
  refine ⟨fun c hc => ?_, hlast⟩
  obtain ⟨rest, hrest⟩ : trim s <+: s.dropWhile isspace := List.rdropWhile_prefix isspace _
  have hhead : (s.dropWhile isspace).head? = some c := by
    rw [← hrest, List.head?_append, hc, Option.some_or]
  have hnot := List.head?_dropWhile_not isspace s
  rw [hhead] at hnot
  simpa using hnot

theorem stretch_trim (s : Str) : trim s <:+: s :=
  (List.rdropWhile_prefix isspace _).isInfix.trans (List.dropWhile_suffix isspace).isInfix

theorem isCore_trim (s : Str) : IsCore s (trim s) := by
  refine ⟨stretch_trim s, bare_trim s, ?_⟩
  rintro u ⟨a, b, rfl⟩ hu
  by_cases hne : u = []
  · simp [hne]
  · rw [trim_around hu hne]
    simp only [List.length_append]
    omega

theorem IsCore.length_eq {s core : Str} (h : IsCore s core) : core.length = (trim s).length :=
  Nat.le_antisymm ((isCore_trim s).longest core h.stretch h.bare)
    (h.longest _ (stretch_trim s) (bare_trim s))

theorem exists_pieces (s : Str) : ∃ ws ws' : Str, (∀ c ∈ ws, isspace c = true) ∧
    (∀ c ∈ ws', isspace c = true) ∧ s = ws ++ trim s ++ ws' := by
  refine ⟨s.takeWhile isspace, (s.dropWhile isspace).rtakeWhile isspace,
    fun c hc => List.mem_takeWhile_imp hc, fun c hc => List.mem_rtakeWhile_imp hc, ?_⟩
  rw [List.append_assoc, trim, List.rdropWhile_append_rtakeWhile,
    List.takeWhile_append_dropWhile]

theorem countP_bare {u : Str} (hu : Bare u) : u.countP nonBlank = 1 ↔ u.length = 1 := by
  cases u with
  | nil => simp
  | cons c u =>
    have hc : nonBlank c = true := by simp [nonBlank, hu.head c rfl]
    rw [List.countP_cons_of_pos hc, List.length_cons]
    cases u with
    | nil => simp
    | cons d cs =>
      have hne : d :: cs ≠ [] := List.cons_ne_nil d cs
      have hlast : nonBlank ((d :: cs).getLast hne) = true := by
        have hbare := hu.last ((d :: cs).getLast hne) (by
          rw [List.getLast?_cons_cons, List.getLast?_eq_getLast_of_ne_nil hne]
          rfl)
        simp [nonBlank, hbare]
      have hpos : 0 < (d :: cs).countP nonBlank :=
        List.countP_pos_iff.mpr ⟨_, List.getLast_mem hne, hlast⟩
      simp only [List.length_cons]
      omega

/-- A core of one character is the only one that is no white space. -/
theorem countP_nonBlank (s : Str) : s.countP nonBlank = 1 ↔ (trim s).length = 1 := by
  have hblank {ws : Str} (h : ∀ c ∈ ws, isspace c = true) : ws.countP nonBlank = 0 := by
    rw [List.countP_eq_zero]
    intro c hc
    simp [nonBlank, h c hc]
  obtain ⟨ws, ws', hws, hws', hs⟩ := exists_pieces s
  have hcount := congrArg (List.countP nonBlank) hs
  rw [List.countP_append, List.countP_append, hblank hws, hblank hws', Nat.zero_add,
    Nat.add_zero] at hcount
  rw [hcount, countP_bare (bare_trim s)]

/-! ## What strip returns -/

/-- What a string behind the reach of the indices loses. -/
theorem length_lt_trim (a : Str) {b : Str} (hb : ∃ c ∈ b, isspace c = false) :
    (a.dropWhile isspace).length < (trim (a ++ b)).length := by
  obtain ⟨c, hc, hbare⟩ := hb
  obtain ⟨b₁, b₂, rfl⟩ := List.append_of_mem hc
  by_cases hnil : a.dropWhile isspace = []
  · have hone : Bare [c] := by
      constructor
      · simpa using hbare
      · simpa using hbare
    have hlong := (isCore_trim (a ++ (b₁ ++ c :: b₂))).longest [c] ⟨a ++ b₁, b₂, by simp⟩ hone
    rw [hnil]
    exact hlong
  · have hbares : Bare (a.dropWhile isspace ++ (b₁ ++ [c])) := by
      constructor
      · intro d hd
        rw [List.head?_append_of_ne_nil _ hnil] at hd
        have hnot := List.head?_dropWhile_not isspace a
        rw [hd] at hnot
        simpa using hnot
      · simpa using hbare
    have hstretch : a.dropWhile isspace ++ (b₁ ++ [c]) <:+: a ++ (b₁ ++ c :: b₂) :=
      ⟨a.takeWhile isspace, b₂, by
        rw [← List.append_assoc, List.takeWhile_append_dropWhile]
        simp⟩
    have hlong := (isCore_trim _).longest _ hstretch hbares
    simp only [List.length_append, List.length_singleton] at hlong
    omega

theorem trim_append_blank (a : Str) {b : Str} (hb : ∀ c ∈ b, isspace c = true) :
    trim (a ++ b) = trim a := by
  obtain ⟨ws, ws', hws, hws', ha⟩ := exists_pieces a
  have hsplit : a ++ b = ws ++ trim a ++ (ws' ++ b) := by
    rw [← List.append_assoc, ← ha]
  rw [hsplit]
  exact trim_pieces hws (bare_trim a) (List.forall_mem_append.mpr ⟨hws', hb⟩)

/-- The core is returned, wherever it stands, and found again in what was returned. -/
structure Stripped (s : Str) : Prop where
  core : IsCore s (stripLoop s)
  pieces : ∀ ws core ws' : Str, (∀ c ∈ ws, isspace c = true) → Bare core →
    (∀ c ∈ ws', isspace c = true) → s = ws ++ core ++ ws' → stripLoop s = core
  again : stripLoop (stripLoop s) = stripLoop s

theorem length_trim_le (s : Str) : (trim s).length ≤ (s.dropWhile isspace).length :=
  (List.rdropWhile_prefix isspace _).length_le

theorem length_strip_le (s : Str) : (strip s).length ≤ (s.dropWhile isspace).length := by
  rw [strip_eq]
  split
  · exact Nat.zero_le _
  · exact length_trim_le s

/-- Unless the core is a single character `strip` finds it. -/
theorem strip_eq_trim {s : Str} (h : (trim s).length ≠ 1) : strip s = trim s := by
  rw [strip_eq]
  split
  · have hle := length_trim_le s
    have hzero : trim s = [] := List.length_eq_zero_iff.mp (by omega)
    rw [hzero]
  · rfl

theorem visible_le_bound (n : Nat) : visible n ≤ 2 ^ 31 := by
  unfold visible toInt32
  rw [Int.bmod_def]
  split <;> omega

theorem trim_trim (s : Str) : trim (trim s) = trim s := by
  have hpieces := @trim_pieces [] (trim s) [] (by simp) (bare_trim s) (by simp)
  rwa [List.nil_append, List.append_nil] at hpieces

/-- The core that is returned is found again if it is no single character. -/
theorem stripped_of_eq_trim {s : Str} (h : stripLoop s = trim s)
    (hsize : (trim s).length ≤ 2 ^ 31) (hone : (trim s).length ≠ 1) : Stripped s := by
  refine ⟨h ▸ isCore_trim s, ?_, ?_⟩
  · rintro ws core ws' hws hbare hws' rfl
    rw [h, trim_pieces hws hbare hws']
  · rw [h, stripLoop_eq, visible_eq hsize, List.take_length,
      strip_eq_trim (by rwa [trim_trim]), trim_trim]

/-- `strip` does what it is for unless exactly one character is no white space; beyond
the reach of its indices there may only be white space. -/
theorem stripped_iff (s : Str) : Stripped s ↔
    (∀ c ∈ s.drop (visible s.length), isspace c = true) ∧ s.countP nonBlank ≠ 1 := by
  have hsplit : s.take (visible s.length) ++ s.drop (visible s.length) = s :=
    List.take_append_drop _ _
  have hloop := stripLoop_eq s
  generalize hfront : s.take (visible s.length) = front at hsplit hloop
  generalize s.drop (visible s.length) = behind at hsplit
  have hle : front.length ≤ 2 ^ 31 := by
    rw [← hfront, List.length_take]
    have hbound := visible_le_bound s.length
    omega
  rw [ne_eq, countP_nonBlank]
  constructor
  · intro h
    have hlen := h.core.length_eq
    rw [hloop] at hlen
    have hblank : ∀ c ∈ behind, isspace c = true := by
      by_contra hnot
      push Not at hnot
      obtain ⟨c, hc, hspace⟩ := hnot
      have hlt := length_lt_trim front ⟨c, hc, Bool.eq_false_iff.mpr hspace⟩
      have hstrip := length_strip_le front
      rw [hsplit] at hlt
      omega
    refine ⟨hblank, fun hone => ?_⟩
    -- a single character is returned at most once
    have hagain := h.again
    rw [hone] at hlen
    obtain ⟨c, hc⟩ := List.length_eq_one_iff.mp hlen
    have hsmall : [c].length ≤ 2 ^ 31 := by
      rw [List.length_singleton]
      omega
    have hstripped : stripLoop [c] = [] := by
      rw [stripLoop_eq, visible_eq hsmall]
      rfl
    rw [hloop, hc, hstripped] at hagain
    cases hagain
  · rintro ⟨hblank, hone⟩
    have htrim : trim front = trim s := by rw [← hsplit, trim_append_blank front hblank]
    have hcore : stripLoop s = trim s := by
      rw [hloop, ← htrim]
      exact strip_eq_trim (by rwa [htrim])
    have hfrontlen := length_trim_le front
    have hdrop := (List.dropWhile_suffix isspace (l := front)).length_le
    rw [htrim] at hfrontlen
    exact stripped_of_eq_trim hcore (by omega) hone

/-- One character is stripped altogether. -/
theorem one_character_lost : stripLoop "a".toList = [] ∧ ¬ ∀ s, Stripped s := by
  have hstrip : stripLoop "a".toList = [] := by
    rw [stripLoop_eq, visible_eq (by decide)]
    decide
  refine ⟨hstrip, fun h => ?_⟩
  have hlen := (h "a".toList).core.length_eq
  rw [hstrip] at hlen
  exact absurd hlen (by decide)

end Util

end TinyOrm
