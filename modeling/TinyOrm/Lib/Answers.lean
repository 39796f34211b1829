set_option autoImplicit false

/-!
Machines that answer requests, and when one of them answers as another.
-/

namespace Answers

variable {S T Q R A : Type}

/-- The answers to the requests; none where one of them is not answered. -/
def serve (step : S → R → Option (S × A)) : S → List R → Option (S × List A)
  | s, [] => some (s, [])
  | s, r :: rs =>
    match step s r with
    | none => none
    | some (s', a) => (serve step s' rs).map fun p => (p.1, a :: p.2)

/-- Every request is one that the state at its time allows. -/
def Allowed (allows : T → Q → Prop) (next : T → Q → T) : T → List Q → Prop
  | _, [] => True
  | t, q :: qs => allows t q ∧ Allowed allows next (next t q) qs

/-- The state after all requests. -/
def last (next : T → Q → T) (t : T) (qs : List Q) : T := qs.foldl next t

def answers (next : T → Q → T) (answer : T → Q → A) : T → List Q → List A
  | _, [] => []
  | t, q :: qs => answer t q :: answers next answer (next t q) qs

/-- A step that keeps the relation gives a run that does, with the same answers. The
requests of the one machine are written for the other one. -/
theorem serve_eq {step : S → R → Option (S × A)} {allows : T → Q → Prop} {next : T → Q → T}
    {answer : T → Q → A} (rel : S → T → Prop) (write : Q → R)
    (hstep : ∀ s t q, rel s t → allows t q →
      ∃ s', step s (write q) = some (s', answer t q) ∧ rel s' (next t q))
    {s : S} {t : T} {qs : List Q} (hrel : rel s t) (hqs : Allowed allows next t qs) :
    ∃ s', serve step s (qs.map write) = some (s', answers next answer t qs) ∧
      rel s' (last next t qs) := by
  induction qs generalizing s t with
  | nil => exact ⟨s, rfl, hrel⟩
  | cons q qs ih =>
    obtain ⟨s', hs', hrel'⟩ := hstep s t q hrel hqs.1
    obtain ⟨u, hu, hlast⟩ := ih hrel' hqs.2
    refine ⟨u, ?_, hlast⟩
    rw [List.map_cons, serve, hs']
    simp only [hu, Option.map_some]
    rfl

end Answers
