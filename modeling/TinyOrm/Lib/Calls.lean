set_option autoImplicit false

/-!
Programs that call a library whose calls may be undefined.

`Traced.calls` are the calls in their order; a call that is undefined ends the program
without a result. `Traced.Ends` is the triple of such a program: the calls that it makes and
what it returns.
-/

namespace Calls

structure Traced (κ α : Type) where
  calls : List κ
  result : Option α

namespace Traced

variable {κ α β : Type}

/-- One call. -/
def call (c : κ) (isDefined : Bool) : Traced κ Unit := ⟨[c], if isDefined then some () else none⟩

def next (x : Traced κ α) (f : α → Traced κ β) : Traced κ β :=
  match x.result with
  | none => ⟨x.calls, none⟩
  | some a => ⟨x.calls ++ (f a).calls, (f a).result⟩

instance : Monad (Traced κ) where
  pure a := ⟨[], some a⟩
  bind := next

/-- All calls satisfy `P`, and there is a result, which satisfies `Q`. -/
def Ends (P : κ → Prop) (Q : α → Prop) (x : Traced κ α) : Prop :=
  (∀ c ∈ x.calls, P c) ∧ ∃ a, x.result = some a ∧ Q a

variable {P : κ → Prop} {Q : α → Prop} {R : β → Prop} {x : Traced κ α} {f : α → Traced κ β}

theorem ends_pure {a : α} (h : Q a) : Ends P Q (pure a : Traced κ α) := by
  refine ⟨fun c hc => ?_, a, rfl, h⟩
  cases hc

theorem ends_call {c : κ} {isDefined : Bool} (hc : P c) (hdefined : isDefined = true) :
    Ends P (fun _ => True) (call c isDefined) := by
  subst hdefined
  exact ⟨fun d hd => List.mem_singleton.mp hd ▸ hc, (), rfl, trivial⟩

theorem Ends.bind (hx : Ends P Q x) (hf : ∀ a, Q a → Ends P R (f a)) : Ends P R (x >>= f) := by
  obtain ⟨hcalls, a, ha, hq⟩ := hx
  obtain ⟨hcalls', b, hb, hr⟩ := hf a hq
  have hnext : x >>= f = ⟨x.calls ++ (f a).calls, (f a).result⟩ := by
    show next x f = _
    rw [next, ha]
  rw [hnext]
  exact ⟨List.forall_mem_append.mpr ⟨hcalls, hcalls'⟩, b, hb, hr⟩

theorem Ends.imp {Q' : α → Prop} (hx : Ends P Q x) (h : ∀ a, Q a → Q' a) : Ends P Q' x := by
  obtain ⟨hcalls, a, ha, hq⟩ := hx
  exact ⟨hcalls, a, ha, h a hq⟩

/-- Some call satisfies `P`. -/
def Makes (P : κ → Prop) (x : Traced κ α) : Prop := ∃ c ∈ x.calls, P c

theorem makes_call {c : κ} (isDefined : Bool) (hc : P c) : Makes P (call c isDefined) :=
  ⟨c, List.mem_singleton_self c, hc⟩

theorem Makes.bind (h : Makes P x) : Makes P (x >>= f) := by
  obtain ⟨c, hc, hp⟩ := h
  refine ⟨c, ?_, hp⟩
  show c ∈ (next x f).calls
  unfold next
  split
  · exact hc
  · exact List.mem_append_left _ hc

/-- A call of the rest is made where the program before it ends. -/
theorem Ends.makes {S : κ → Prop} (hx : Ends P Q x) (hf : ∀ a, Q a → Makes S (f a)) :
    Makes S (x >>= f) := by
  obtain ⟨-, a, ha, hq⟩ := hx
  obtain ⟨c, hc, hs⟩ := hf a hq
  refine ⟨c, ?_, hs⟩
  show c ∈ (next x f).calls
  rw [next, ha]
  exact List.mem_append_right _ hc

end Traced

end Calls
