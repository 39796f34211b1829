import Mathlib.Data.List.Basic
import Mathlib.Data.List.DropRight
import Mathlib.Algebra.Ring.Nat
import Mathlib.Algebra.Ring.Int.Defs
set_option autoImplicit false

/-!
The strings of the program and its `Util` functions (mysql4cpp/common.cpp).

A `std::string` is a list of characters. A C `char` is one byte: `byte n` is
the character a store of `n` into a `char` leaves, `schar` the value a plain
(signed) `char` is read as.
-/

namespace TinyOrm

abbrev Str := List Char

def byte (n : Nat) : Char := Char.ofNat (n % 256)

def uchar (c : Char) : Nat := c.toNat % 256

def schar (c : Char) : Int :=
  if uchar c < 128 then (uchar c : Int) else (uchar c : Int) - 256

theorem toNat_ofNat {n : Nat} (h : n < 55296) : (Char.ofNat n).toNat = n := by
  have hv : n.isValidChar := Or.inl h
  rw [Char.ofNat, dif_pos hv]
  rfl

theorem uchar_byte (n : Nat) : uchar (byte n) = n % 256 := by
  have hn : n % 256 < 256 := Nat.mod_lt _ (by decide)
  have hc : (Char.ofNat (n % 256)).toNat = n % 256 := toNat_ofNat (by omega)
  simp only [uchar, byte, hc]
  omega

theorem schar_byte {n : Nat} (h : n ≤ 127) : schar (byte n) = n := by
  have hn : n % 256 = n := Nat.mod_eq_of_lt (by omega)
  have hlt : n < 128 := by omega
  simp [schar, uchar_byte, hn, hlt]

/-! ## Character classes of the C locale -/

def isspace (c : Char) : Bool := c = ' ' || ('\t' ≤ c && c ≤ '\r')

def isupper (c : Char) : Bool := 'A' ≤ c && c ≤ 'Z'

def islower (c : Char) : Bool := 'a' ≤ c && c ≤ 'z'

def tolower (c : Char) : Char := if isupper c then Char.ofNat (c.toNat + 32) else c

def Util.toLowerCase (str : Str) : Str := str.map tolower

/-- Lowering makes no question mark and takes none away. -/
theorem tolower_eq_mark (c : Char) : tolower c = '?' ↔ c = '?' := by
  unfold tolower
  by_cases h : isupper c
  · have hrange := h
    simp only [isupper, Bool.and_eq_true, decide_eq_true_eq, Char.le_def] at hrange
    have hlo : 65 ≤ c.toNat := hrange.1
    have hhi : c.toNat ≤ 90 := hrange.2
    have hof : (Char.ofNat (c.toNat + 32)).toNat = c.toNat + 32 := toNat_ofNat (by omega)
    have hmark : Char.toNat '?' = 63 := rfl
    constructor
    · intro heq
      rw [if_pos h] at heq
      rw [heq] at hof
      omega
    · rintro rfl
      omega
  · simp [h]

theorem Util.toLowerCase_count (str : Str) :
    (Util.toLowerCase str).count '?' = str.count '?' := by
  induction str with
  | nil => rfl
  | cons c str ih =>
    have hcons : Util.toLowerCase (c :: str) = tolower c :: Util.toLowerCase str := rfl
    simp only [hcons, List.count_cons, ih, beq_iff_eq, tolower_eq_mark]

/-! ## Util::strip -/

/-- The first loop of `strip`: `i` stops at the last character at the latest. -/
def Util.skipSpace : Str → Str
  | [] => []
  | [c] => [c]
  | c :: d :: cs => if isspace c then Util.skipSpace (d :: cs) else c :: d :: cs

/-- One character left after the first loop is the case `i == j`. -/
def Util.strip (str : Str) : Str :=
  match Util.skipSpace str with
  | [] => []
  | [_] => []
  | c :: d :: cs => (Util.skipSpace (c :: d :: cs).reverse).reverse

theorem Util.skipSpace_count {c : Char} (hc : isspace c = false) (str : Str) :
    (Util.skipSpace str).count c = str.count c := by
  induction str using Util.skipSpace.induct with
  | case1 => rfl
  | case2 d => rfl
  | case3 d e cs hspace ih =>
    have hne : d ≠ c := by
      rintro rfl
      rw [hspace] at hc
      cases hc
    simp [Util.skipSpace, hspace, ih, List.count_cons_of_ne hne]
  | case4 d e cs hspace => simp [Util.skipSpace, hspace]

/-- A result that is not empty has lost blanks only. -/
theorem Util.strip_count {c : Char} (hc : isspace c = false) {str : Str}
    (hne : Util.strip str ≠ []) : (Util.strip str).count c = str.count c := by
  rw [← Util.skipSpace_count hc str]
  unfold Util.strip at hne ⊢
  cases hs : Util.skipSpace str with
  | nil => simp [hs] at hne
  | cons d cs =>
    cases cs with
    | nil => simp [hs] at hne
    | cons e cs => simp only [List.count_reverse, Util.skipSpace_count hc]

theorem Util.skipSpace_self {s : Str} (h : ∀ c ∈ s.head?, isspace c = false) :
    Util.skipSpace s = s := by
  cases s with
  | nil => rfl
  | cons c s =>
    have hc : isspace c = false := h c rfl
    cases s with
    | nil => rfl
    | cons d s => simp [Util.skipSpace, hc]

/-- A text with no blanks at its ends is left alone if it is not a single character. -/
theorem Util.strip_self {s : Str} (hlen : 2 ≤ s.length) (hhead : ∀ c ∈ s.head?, isspace c = false)
    (hlast : ∀ c ∈ s.getLast?, isspace c = false) : Util.strip s = s := by
  have hskip := Util.skipSpace_self hhead
  have hback : Util.skipSpace s.reverse = s.reverse := Util.skipSpace_self (by simpa using hlast)
  unfold Util.strip
  rw [hskip]
  split
  · simp at hlen
  · simp at hlen
  · rw [hback, List.reverse_reverse]

/-- A blank before the text is taken away, and the text with it if it is a single
character. -/
theorem Util.strip_blank {s : Str} (hlen : 2 ≤ s.length) (hhead : ∀ c ∈ s.head?, isspace c = false)
    (hlast : ∀ c ∈ s.getLast?, isspace c = false) : Util.strip (' ' :: s) = s := by
  have hskip : Util.skipSpace (' ' :: s) = Util.skipSpace s := by
    cases s with
    | nil => simp at hlen
    | cons c s => simp [Util.skipSpace, isspace]
  have hself := Util.strip_self hlen hhead hlast
  unfold Util.strip at hself ⊢
  rwa [hskip]

theorem Util.skipSpace_eq_dropWhile {s : Str} (h : ∃ c ∈ s, isspace c = false) :
    Util.skipSpace s = s.dropWhile isspace := by
  induction s using Util.skipSpace.induct with
  | case1 => rfl
  | case2 d =>
    obtain ⟨c, hc, hspace⟩ := h
    rw [List.mem_singleton.mp hc] at hspace
    simp [Util.skipSpace, hspace]
  | case3 d e cs hspace ih =>
    obtain ⟨c, hc, hchar⟩ := h
    have hne : c ≠ d := fun heq => by rw [heq, hspace] at hchar; cases hchar
    rw [Util.skipSpace, if_pos hspace, List.dropWhile_cons_of_pos hspace]
    exact ih ⟨c, (List.mem_cons.mp hc).resolve_left hne, hchar⟩
  | case4 d e cs hspace => rw [Util.skipSpace, if_neg hspace, List.dropWhile_cons_of_neg hspace]

/-- The blanks at both ends are taken away, and with them a single character that is left
behind those at the front. -/
theorem Util.strip_eq (s : Str) : Util.strip s =
    if (s.dropWhile isspace).length ≤ 1 then [] else (s.dropWhile isspace).rdropWhile isspace := by
  induction s using Util.skipSpace.induct with
  | case1 => rfl
  | case2 d =>
    have hlen : ([d].dropWhile isspace).length ≤ 1 :=
      (List.dropWhile_suffix isspace (l := [d])).length_le
    rw [if_pos hlen]
    rfl
  | case3 d e cs hspace ih =>
    have hskip : Util.strip (d :: e :: cs) = Util.strip (e :: cs) := by
      rw [Util.strip, Util.skipSpace, if_pos hspace, Util.strip]
    rw [hskip, List.dropWhile_cons_of_pos hspace, ih]
  | case4 d e cs hspace =>
    have hchar : ∃ c ∈ (d :: e :: cs).reverse, isspace c = false :=
      ⟨d, by simp, by simpa using hspace⟩
    rw [Util.strip, Util.skipSpace, if_neg hspace, List.dropWhile_cons_of_neg hspace,
      if_neg (by simp)]
    dsimp only
    rw [Util.skipSpace_eq_dropWhile hchar, List.rdropWhile]

theorem Util.mem_skipSpace {c : Char} {s : Str} (h : c ∈ Util.skipSpace s) : c ∈ s := by
  induction s using Util.skipSpace.induct with
  | case1 => exact h
  | case2 d => exact h
  | case3 d e cs hspace ih =>
    rw [Util.skipSpace, if_pos hspace] at h
    exact List.mem_cons_of_mem d (ih h)
  | case4 d e cs hspace => rwa [Util.skipSpace, if_neg hspace] at h

theorem Util.mem_strip {c : Char} {s : Str} (h : c ∈ Util.strip s) : c ∈ s := by
  unfold Util.strip at h
  split at h
  · cases h
  · cases h
  · rename_i hskip
    rw [← hskip] at h
    rw [List.mem_reverse] at h
    exact Util.mem_skipSpace (List.mem_reverse.mp (Util.mem_skipSpace h))

/-! ## Util::split -/

/-- The loop of `split` on the part of the string from `l` on. Every pass
consumes a character, so the length of the string is fuel enough. -/
def Util.splitFrom (seps : Str) : Nat → Str → List Str
  | 0, _ => []
  | _, [] => []
  | n + 1, c :: cs =>
    if c ∈ seps then Util.splitFrom seps n cs
    else
      let run := (c :: cs).takeWhile (· ∉ seps)
      match (c :: cs).dropWhile (· ∉ seps) with
      | [] => [run]
      | _ :: rest => run :: Util.splitFrom seps n rest

def Util.split (str seps : Str) : List Str := Util.splitFrom seps str.length str

/-- No separator occurs in the part. -/
def Util.SepFree (seps part : Str) : Prop := ∀ c ∈ part, c ∉ seps

instance (seps part : Str) : Decidable (Util.SepFree seps part) :=
  inferInstanceAs (Decidable (∀ c ∈ part, c ∉ seps))

theorem Util.takeWhile_sepFree {seps part : Str} (h : Util.SepFree seps part) (tail : Str) :
    (part ++ tail).takeWhile (· ∉ seps) = part ++ tail.takeWhile (· ∉ seps) := by
  apply List.takeWhile_append_of_pos
  intro c hc
  simpa using h c hc

theorem Util.dropWhile_sepFree {seps part : Str} (h : Util.SepFree seps part) (tail : Str) :
    (part ++ tail).dropWhile (· ∉ seps) = tail.dropWhile (· ∉ seps) := by
  apply List.dropWhile_append_of_pos
  intro c hc
  simpa using h c hc

theorem Util.splitFrom_part {seps part : Str} (h : Util.SepFree seps part) (hne : part ≠ [])
    (n : Nat) : Util.splitFrom seps (n + 1) part = [part] := by
  cases part with
  | nil => exact absurd rfl hne
  | cons c cs =>
    have hc : c ∉ seps := h c (by simp)
    have ht := Util.takeWhile_sepFree h []
    have hd := Util.dropWhile_sepFree h []
    simp only [List.append_nil, List.takeWhile_nil, List.dropWhile_nil] at ht hd
    simp only [Util.splitFrom, hc, if_false, ht, hd]

/-- A part and the separator after it are one pass of the loop. -/
theorem Util.splitFrom_part_sep {seps part : Str} {sep : Char} (h : Util.SepFree seps part)
    (hne : part ≠ []) (hsep : sep ∈ seps) (n : Nat) (tail : Str) :
    Util.splitFrom seps (n + 1) (part ++ sep :: tail) = part :: Util.splitFrom seps n tail := by
  cases part with
  | nil => exact absurd rfl hne
  | cons c cs =>
    have hc : c ∉ seps := h c (by simp)
    have ht := Util.takeWhile_sepFree h (sep :: tail)
    have hd := Util.dropWhile_sepFree h (sep :: tail)
    simp only [List.cons_append, List.takeWhile_cons, List.dropWhile_cons, hsep, not_true_eq_false,
      decide_false, Bool.false_eq_true, if_false, List.append_nil] at ht hd
    simp only [List.cons_append, Util.splitFrom, hc, if_false]
    simp only [List.takeWhile_cons, List.dropWhile_cons, ht, hd]

/-- The parts joined by one separator character, as the writers of combined
strings do. -/
def Util.join (sep : Char) : List Str → Str
  | [] => []
  | [part] => part
  | part :: next :: parts => part ++ sep :: Util.join sep (next :: parts)

/-- Splitting what was joined gives back the parts, without the empty ones. -/
theorem Util.splitFrom_join {seps : Str} {sep : Char} (hsep : sep ∈ seps) {parts : List Str}
    (h : ∀ part ∈ parts, Util.SepFree seps part) {n : Nat}
    (hn : (Util.join sep parts).length ≤ n) :
    Util.splitFrom seps n (Util.join sep parts) = parts.filter (· ≠ []) := by
  induction parts generalizing n with
  | nil => cases n <;> rfl
  | cons part parts ih =>
    have hfree : Util.SepFree seps part := h part (by simp)
    have hrest : ∀ p ∈ parts, Util.SepFree seps p := fun p hp => h p (by simp [hp])
    cases parts with
    | nil =>
      by_cases hne : part = []
      · subst hne
        cases n <;> rfl
      · have hpos : 0 < part.length := List.length_pos_of_ne_nil hne
        obtain ⟨m, rfl⟩ : ∃ m, n = m + 1 := ⟨n - 1, by simp only [Util.join] at hn; omega⟩
        rw [Util.join, Util.splitFrom_part hfree hne m]
        simp [hne]
    | cons next parts =>
      simp only [Util.join, List.length_append, List.length_cons] at hn
      obtain ⟨m, rfl⟩ : ∃ m, n = m + 1 := ⟨n - 1, by omega⟩
      rw [Util.join, List.filter_cons]
      by_cases hne : part = []
      · subst hne
        have hskip : Util.splitFrom seps (m + 1) (sep :: Util.join sep (next :: parts)) =
            Util.splitFrom seps m (Util.join sep (next :: parts)) := by
          simp [Util.splitFrom, hsep]
        rw [List.nil_append, hskip, ih hrest (by omega)]
        simp
      · have hpos : 0 < part.length := List.length_pos_of_ne_nil hne
        rw [Util.splitFrom_part_sep hfree hne hsep, ih hrest (by omega)]
        simp [hne]

theorem Util.split_join_filter {seps : Str} {sep : Char} (hsep : sep ∈ seps) {parts : List Str}
    (h : ∀ part ∈ parts, Util.SepFree seps part) :
    Util.split (Util.join sep parts) seps = parts.filter (· ≠ []) :=
  Util.splitFrom_join hsep h (Nat.le_refl _)

theorem Util.split_join {seps : Str} {sep : Char} (hsep : sep ∈ seps) (parts : List Str)
    (h : ∀ part ∈ parts, part ≠ [] ∧ Util.SepFree seps part) :
    Util.split (Util.join sep parts) seps = parts := by
  rw [Util.split_join_filter hsep fun part hpart => (h part hpart).2]
  exact List.filter_eq_self.mpr fun part hpart => decide_eq_true (h part hpart).1

theorem Util.split_part {seps part : Str} (h : Util.SepFree seps part) (hne : part ≠ []) :
    Util.split part seps = [part] := by
  have hpos : 0 < part.length := List.length_pos_of_ne_nil hne
  obtain ⟨n, hn⟩ : ∃ n, part.length = n + 1 := ⟨part.length - 1, by omega⟩
  rw [Util.split, hn, Util.splitFrom_part h hne]

theorem Util.split_sep {seps : Str} {sep : Char} (hsep : sep ∈ seps) (rest : Str) :
    Util.split (sep :: rest) seps = Util.split rest seps := by
  simp [Util.split, Util.splitFrom, hsep]

theorem Util.mem_splitFrom {seps part : Str} {n : Nat} {str : Str}
    (h : part ∈ Util.splitFrom seps n str) :
    part ≠ [] ∧ Util.SepFree seps part ∧ ∀ c ∈ part, c ∈ str := by
  induction n generalizing str with
  | zero => simp [Util.splitFrom] at h
  | succ n ih =>
    cases str with
    | nil => simp [Util.splitFrom] at h
    | cons c cs =>
      by_cases hc : c ∈ seps
      · rw [Util.splitFrom, if_pos hc] at h
        obtain ⟨hne, hfree, hmem⟩ := ih h
        exact ⟨hne, hfree, fun d hd => List.mem_cons_of_mem c (hmem d hd)⟩
      · have hrun : (c :: cs).takeWhile (· ∉ seps) ≠ [] ∧
            Util.SepFree seps ((c :: cs).takeWhile (· ∉ seps)) ∧
            ∀ d ∈ (c :: cs).takeWhile (· ∉ seps), d ∈ c :: cs := by
          refine ⟨by simp [hc], fun d hd => ?_, fun d hd => List.takeWhile_subset _ hd⟩
          have hd' := List.all_eq_true.mp List.all_takeWhile d hd
          simpa using hd'
        have hrest := List.dropWhile_subset (fun d => decide (d ∉ seps)) (l := c :: cs)
        rw [Util.splitFrom, if_neg hc] at h
        dsimp only at h
        cases hdrop : (c :: cs).dropWhile (· ∉ seps) with
        | nil =>
          rw [hdrop, List.mem_singleton] at h
          rwa [h]
        | cons sep rest =>
          rw [hdrop] at h hrest
          rcases List.mem_cons.mp h with rfl | h
          · exact hrun
          · obtain ⟨hne, hfree, hmem⟩ := ih h
            exact ⟨hne, hfree, fun d hd => hrest (List.mem_cons_of_mem sep (hmem d hd))⟩

theorem Util.mem_split {seps part str : Str} (h : part ∈ Util.split str seps) :
    part ≠ [] ∧ Util.SepFree seps part ∧ ∀ c ∈ part, c ∈ str :=
  Util.mem_splitFrom h

/-- A character that is no separator stands in some part. -/
theorem Util.mem_splitFrom_of_mem {seps : Str} {c : Char} (hsep : c ∉ seps) {n : Nat} {str : Str}
    (hn : str.length ≤ n) (hc : c ∈ str) : ∃ part ∈ Util.splitFrom seps n str, c ∈ part := by
  induction n generalizing str with
  | zero =>
    have hnil : str = [] := List.eq_nil_of_length_eq_zero (by omega)
    rw [hnil] at hc
    cases hc
  | succ n ih =>
    cases str with
    | nil => cases hc
    | cons d cs =>
      have hlen : cs.length ≤ n := by simpa using hn
      by_cases hd : d ∈ seps
      · have hne : c ≠ d := by rintro rfl; exact hsep hd
        rw [Util.splitFrom, if_pos hd]
        exact ih hlen ((List.mem_cons.mp hc).resolve_left hne)
      · rw [Util.splitFrom, if_neg hd]
        dsimp only
        rw [← List.takeWhile_append_dropWhile (p := fun x => decide (x ∉ seps)) (l :=
          d :: cs)] at hc
        have hdropWhile : (d :: cs).dropWhile (fun x => decide (x ∉ seps)) =
            cs.dropWhile (fun x => decide (x ∉ seps)) :=
              List.dropWhile_cons_of_pos (by simpa using hd)
        cases hdrop : (d :: cs).dropWhile (fun x => decide (x ∉ seps)) with
        | nil =>
          rw [hdrop, List.append_nil] at hc
          exact ⟨_, List.mem_singleton_self _, hc⟩
        | cons sep rest =>
          rw [hdrop] at hc
          have hseparates : sep ∈ seps := by
            have hhead := List.head?_dropWhile_not (fun x => decide (x ∉ seps)) (d :: cs)
            rw [hdrop] at hhead
            simpa using hhead
          have hrest : rest.length ≤ n := by
            have hle := (List.dropWhile_suffix (fun x => decide (x ∉ seps)) (l := cs)).length_le
            rw [← hdropWhile, hdrop, List.length_cons] at hle
            omega
          rcases List.mem_append.mp hc with hrun | htail
          · exact ⟨_, List.mem_cons_self, hrun⟩
          · have hne : c ≠ sep := by rintro rfl; exact hsep hseparates
            obtain ⟨part, hpart, hmem⟩ := ih hrest ((List.mem_cons.mp htail).resolve_left hne)
            exact ⟨part, List.mem_cons_of_mem _ hpart, hmem⟩

theorem Util.mem_split_of_mem {seps str : Str} {c : Char} (hsep : c ∉ seps) (hc : c ∈ str) :
    ∃ part ∈ Util.split str seps, c ∈ part :=
  Util.mem_splitFrom_of_mem hsep (Nat.le_refl _) hc

theorem Util.join_cons {sep : Char} (part : Str) {parts : List Str} (hne : parts ≠ []) :
    Util.join sep (part :: parts) = part ++ sep :: Util.join sep parts := by
  cases parts with
  | nil => exact absurd rfl hne
  | cons next parts => rfl

theorem Util.join_append {sep : Char} {parts parts' : List Str} (hne : parts ≠ [])
    (hne' : parts' ≠ []) :
    Util.join sep (parts ++ parts') = Util.join sep parts ++ sep :: Util.join sep parts' := by
  induction parts with
  | nil => exact absurd rfl hne
  | cons part parts ih =>
    by_cases hnil : parts = []
    · subst hnil
      rw [List.singleton_append, Util.join_cons part hne']
      rfl
    · rw [List.cons_append, Util.join_cons part (by simp [hnil]), ih hnil, Util.join_cons part hnil,
        List.append_assoc, List.cons_append]

theorem Util.join_eq_nil_iff {sep : Char} {ws : List Str} (h : ∀ w ∈ ws, w ≠ []) :
    Util.join sep ws = [] ↔ ws = [] := by
  cases ws with
  | nil => simp [Util.join]
  | cons w ws =>
    have hw : w ≠ [] := h w (by simp)
    by_cases hnil : ws = []
    · subst hnil
      simp [Util.join, hw]
    · simp [Util.join_cons w hnil]

theorem Util.forall_mem_join {P : Char → Prop} {sep : Char} (hsep : P sep) {parts : List Str}
    (h : ∀ part ∈ parts, ∀ c ∈ part, P c) : ∀ c ∈ Util.join sep parts, P c := by
  induction parts with
  | nil => simp [Util.join]
  | cons part parts ih =>
    have hpart : ∀ c ∈ part, P c := h part (by simp)
    cases parts with
    | nil => exact hpart
    | cons next parts =>
      have hrest : ∀ c ∈ sep :: Util.join sep (next :: parts), P c :=
        List.forall_mem_cons.mpr ⟨hsep, ih fun p hp => h p (by simp [hp])⟩
      exact List.forall_mem_append.mpr ⟨hpart, hrest⟩

example : Util.split "id|user_id".toList "|".toList = ["id".toList, "user_id".toList] := by decide

end TinyOrm
